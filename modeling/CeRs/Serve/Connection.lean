import CeRs.Serve.Loop

/-!
# Each connection is subscribed before it is read

The node forgets its subscriptions when it restarts, so the loop has to confirm
every topic again on each stream it opens, before it reads from that stream.
The invariant below follows the loop's program point: while it subscribes, the
history ends in the opening of the current connection and the confirmations
obtained so far; once it receives, the whole sequence is on record and stays
there.
-/

namespace CeRs.Serve

open Transition

/-- The stream of this connection was opened, then every topic was confirmed,
and none of its messages had been read by then. -/
def Established (config : Config) (history : List Event) (connection : Nat) : Prop :=
  ∃ before after,
    history = before ++ .opened connection :: (config.subscribe.map .confirmed ++ after) ∧
      ∀ message, .read connection message ∉ before

theorem Established.append {config : Config} {history : List Event} {connection : Nat}
    (established : Established config history connection) (extra : List Event) :
    Established config (history ++ extra) connection := by
  obtain ⟨before, after, rfl, unread⟩ := established
  exact ⟨before, after ++ extra, by simp, unread⟩

/-- The handler runs only for an accepted request that was read from an
established connection. -/
def HandledOnConnection (config : Config) (before : List Event) (event : Event) : Prop :=
  ∀ connection token request, event = .handled connection token request →
    Established config before connection ∧
      ∃ message, .read connection message ∈ before ∧
        config.accept message.topic = true ∧ message.replyToken = some token ∧
        message.payload = some request.payload ∧
        request.sender = message.sender ∧ request.topic = message.topic

/-- What the history holds about the current connection at each point. -/
def Placed (config : Config) (state : State) : Prop :=
  match state.point with
  | .subscribing topic rest =>
      ∃ before confirmed,
        state.history = before ++ .opened state.connection :: confirmed.map .confirmed ∧
          config.subscribe = confirmed ++ topic :: rest ∧
          ∀ message, .read state.connection message ∉ before
  | .receiving | .handling _ _ | .replying _ =>
      Established config state.history state.connection
  | .opening | .backingOff | .returned => True

/-- The invariant of the loop. -/
structure Ordered (config : Config) (state : State) : Prop where
  placed : Placed config state
  handled : AtEach (HandledOnConnection config) state.history
  ready : state.ready = true → ∃ connection, Established config state.history connection
  reads : ∀ connection message, .read connection message ∈ state.history →
    connection ≤ state.connection

theorem ordered_initial (config : Config) : Ordered config initial where
  placed := trivial
  handled := by simp [initial]
  ready := by simp [initial]
  reads := by simp [initial]

/-- Going on with the topics still to be subscribed keeps the invariant; past
the last one the connection is established and the flag may be set. -/
theorem Ordered.subscribeFrom {config : Config} {state : State}
    {before : List Event} (confirmed : List String) {rest : List String}
    (history : state.history =
      before ++ .opened state.connection :: confirmed.map .confirmed)
    (split : config.subscribe = confirmed ++ rest)
    (unread : ∀ message, .read state.connection message ∉ before)
    (handled : AtEach (HandledOnConnection config) state.history)
    (ready : state.ready = true →
      ∃ connection, Established config state.history connection)
    (reads : ∀ connection message, .read connection message ∈ state.history →
      connection ≤ state.connection) :
    Ordered config (subscribeFrom config state rest) := by
  cases rest with
  | cons topic rest =>
      exact ⟨⟨before, confirmed, history, split, unread⟩, handled, ready, reads⟩
  | nil =>
      have established : Established config state.history state.connection :=
        ⟨before, [], by simp [history, split], unread⟩
      exact ⟨established, handled, fun _ => ⟨_, established⟩, reads⟩

/-- Logging an event that is neither a read nor a handler call, and moving to
another point, keeps what the invariant says about the past. -/
theorem Ordered.log {config : Config} {state next : State} {event : Event}
    (ordered : Ordered config state)
    (history : next.history = state.history ++ [event])
    (connection : next.connection = state.connection)
    (ready : next.ready = state.ready)
    (notRead : ∀ connection message, event ≠ .read connection message)
    (notHandled : ∀ connection token request, event ≠ .handled connection token request)
    (placed : Placed config next) :
    Ordered config next where
  placed := placed
  handled := by
    rw [history, atEach_concat]
    exact ⟨ordered.handled, fun _ _ _ equal => (notHandled _ _ _ equal).elim⟩
  ready := by
    rw [ready, history]
    intro set
    obtain ⟨earlier, established⟩ := ordered.ready set
    exact ⟨earlier, established.append _⟩
  reads := by
    rw [history, connection]
    intro earlier message member
    rcases List.mem_append.mp member with old | new
    · exact ordered.reads earlier message old
    · exact (notRead _ _ (List.mem_singleton.mp new).symm).elim

theorem Ordered.moveTo {config : Config} {state : State} (ordered : Ordered config state)
    (point : Point) (placed : Placed config { state with point }) :
    Ordered config { state with point } :=
  ⟨placed, ordered.handled, ordered.ready, ordered.reads⟩

theorem Ordered.read {config : Config} {state : State} (ordered : Ordered config state)
    (message : AppMessage) (receiving : state.point = .receiving) :
    Ordered config (state.log (.read state.connection message)) where
  placed := by
    have established : Established config state.history state.connection := by
      simpa [Placed, receiving] using ordered.placed
    simpa [Placed, receiving] using established.append _
  handled := by simp [ordered.handled, HandledOnConnection]
  ready set := by
    obtain ⟨earlier, established⟩ := ordered.ready set
    exact ⟨earlier, established.append _⟩
  reads := by
    intro connection other member
    rcases List.mem_append.mp member with old | new
    · exact ordered.reads connection other old
    · obtain ⟨rfl, -⟩ : connection = state.connection ∧ other = message := by simpa using new
      exact le_rfl

theorem Ordered.remember {config : Config} {state : State} (ordered : Ordered config state)
    (token : UInt64) (receiving : state.point = .receiving) :
    Ordered config (state.remember token) where
  placed := by
    have established : Established config state.history state.connection := by
      simpa [Placed, receiving] using ordered.placed
    simpa [Placed, receiving] using established.append _
  handled := by
    rw [remember_history]
    apply ordered.handled.append
    intro event member before connection other request equal
    rcases mem_marks member with rfl | rfl <;> simp at equal
  ready set := by
    obtain ⟨earlier, established⟩ := ordered.ready (by simpa using set)
    exact ⟨earlier, by simpa using established.append _⟩
  reads := by
    intro connection message member
    rw [remember_history] at member
    rcases List.mem_append.mp member with old | new
    · simpa using ordered.reads connection message old
    · rcases mem_marks new with equal | equal <;> simp at equal

/-- One delivered message, whatever `answer_one` decides about it. -/
theorem Ordered.delivery {config : Config} {state next : State} {message : AppMessage}
    (ordered : Ordered config state) (receiving : state.point = .receiving)
    (read : .read state.connection message ∈ state.history)
    (delivery : Delivery config state message next) :
    Ordered config next := by
  cases delivery with
  | unwanted => exact ordered
  | duplicate => exact ordered
  | undecodable token => exact ordered.remember token receiving
  | called token payload accepted request fresh decoded =>
      have remembered := ordered.remember token receiving
      have established : Established config (state.remember token).history state.connection := by
        simpa [Placed, receiving] using remembered.placed
      refine ⟨?_, ?_, ?_, ?_⟩
      · simpa [Placed] using established.append _
      · simp only [log_history, atEach_concat]
        refine ⟨remembered.handled, ?_⟩
        rintro connection other asked ⟨⟩
        exact ⟨established, message, by simp [read], accepted, request, decoded, rfl, rfl⟩
      · intro set
        obtain ⟨earlier, before⟩ := remembered.ready set
        exact ⟨earlier, before.append _⟩
      · intro connection other member
        rcases List.mem_append.mp member with old | new
        · exact remembered.reads connection other old
        · simp at new

theorem ordered_moves {config : Config} {state next : State} {input : Input}
    (ordered : Ordered config state) (moves : Moves config state input next) :
    Ordered config next := by
  cases moves with
  | opened point =>
      -- The new connection has a fresh number, so none of its messages was read.
      have unread : ∀ message, .read (state.connection + 1) message ∉ state.history := by
        intro message member
        have := ordered.reads _ _ member
        omega
      refine Ordered.subscribeFrom [] rfl rfl unread ?_ ?_ ?_
      · simp [ordered.handled, HandledOnConnection]
      · intro set
        obtain ⟨earlier, established⟩ := ordered.ready set
        exact ⟨earlier, established.append _⟩
      · intro connection message member
        rcases List.mem_append.mp member with old | new
        · exact (ordered.reads connection message old).trans (Nat.le_succ _)
        · simp at new
  | openFailed point =>
      exact ordered.log rfl rfl rfl (by simp) (by simp) trivial
  | subscribed topic rest point =>
      obtain ⟨before, confirmed, history, split, unread⟩ :
          ∃ before confirmed,
            state.history = before ++ .opened state.connection :: confirmed.map .confirmed ∧
              config.subscribe = confirmed ++ topic :: rest ∧
              ∀ message, .read state.connection message ∉ before := by
        simpa [Placed, point] using ordered.placed
      refine Ordered.subscribeFrom (confirmed ++ [topic]) ?_ ?_ unread ?_ ?_ ?_
      · simp [history]
      · simp [split]
      · simp [ordered.handled, HandledOnConnection]
      · intro set
        obtain ⟨earlier, established⟩ := ordered.ready set
        exact ⟨earlier, established.append _⟩
      · intro connection message member
        rcases List.mem_append.mp member with old | new
        · exact ordered.reads connection message old
        · simp at new
  | refused topic rest point =>
      exact ordered.log rfl rfl rfl (by simp) (by simp) trivial
  | slept point =>
      exact ordered.log rfl rfl rfl (by simp) (by simp) trivial
  | stopped point => exact ordered.moveTo .returned trivial
  | delivered message next point delivery =>
      exact (ordered.read message point).delivery (by simpa using point) (by simp) delivery
  | failed point => exact ordered.moveTo .opening trivial
  | ended point => exact ordered.moveTo .opening trivial
  | replied reply token request point =>
      have established : Established config state.history state.connection := by
        simpa [Placed, point] using ordered.placed
      exact ordered.log rfl rfl rfl (by simp) (by simp) (established.append _)
  | accepted token point =>
      have established : Established config state.history state.connection := by
        simpa [Placed, point] using ordered.placed
      exact ordered.log rfl rfl rfl (by simp) (by simp) (established.append _)
  | rejected token point =>
      have established : Established config state.history state.connection := by
        simpa [Placed, point] using ordered.placed
      exact ordered.moveTo .receiving established

theorem ordered_of_execute {config : Config} {trace : List Input} {state : State}
    (run : execute (step config) initial trace = some state) : Ordered config state :=
  stateInvariant_of_execute (Ordered config) (ordered_initial config)
    (fun _ _ _ ordered stepped => ordered_moves ordered (moves_of_step stepped)) run

/-- On every connection the stream is opened, then every topic is confirmed,
then messages are read and handled; and the readiness flag is only set once
some connection has been through that sequence. -/
theorem subscribed_before_handling (config : Config) (trace : List Input) (state : State)
    (run : execute (step config) initial trace = some state) :
    AtEach (HandledOnConnection config) state.history ∧
      (state.ready = true →
        ∃ connection, Established config state.history connection) :=
  ⟨(ordered_of_execute run).handled, (ordered_of_execute run).ready⟩

/-- A service of two topics, and the first request it is sent. -/
def twoTopics : Config := ⟨["a", "b"], fun topic => topic == "a" || topic == "b", true⟩

def firstRequest : List Input :=
  [.openOk, .subscribeOk, .subscribeOk, .item ⟨"peer", "a", "6869", 0, some 7⟩]

theorem subscribed_before_handling_twoTopics :
    ∃ state, execute (step twoTopics) initial firstRequest = some state ∧
      state.point = .handling 7 ⟨"peer", "a", [104, 105]⟩ ∧
      AtEach (HandledOnConnection twoTopics) state.history ∧
      (state.ready = true →
        ∃ connection, Established twoTopics state.history connection) :=
  ⟨_, rfl, by decide, subscribed_before_handling twoTopics firstRequest _ rfl⟩

end CeRs.Serve
