import CeRs.Serve.Dedup
import CeRs.Sse.Stream

/-!
# Malformed frames in front of the serve loop

The serve loop polls the typed stream of a connection item by item.  An error
item makes it leave the connection, whatever the error is, and with the stream
it drops the frames that were already waiting behind the malformed one.
-/

namespace CeRs.Serve

open Transition Sse

/-- The loop together with the stream of its current connection. -/
structure Feed where
  serve : State
  stream : EventStream

/-- A step of the loop that is no item, a read of the response body, or a poll
of the stream. -/
inductive FeedLabel
  | loop (input : Input)
  | body (outcome : Body)
  | poll
  deriving DecidableEq, Repr

/-- The loop's input for what a poll of the stream yields. -/
def inputOf : Option (Except ItemError AppMessage) → Input
  | some (.ok message) => .item message
  | some (.error _) => .streamErr
  | none => .streamEnd

/-- The outcomes that the loop does not get from the stream. -/
def Input.external : Input → Bool
  | .item _ | .streamErr | .streamEnd => false
  | _ => true

section Feeding

variable (decode : Text → Option AppMessage) (config : Config)

/-- The stream is polled only where the loop receives, and it reads only when no
frame is waiting. -/
def Feed.step (state : Feed) : FeedLabel → Option Feed
  | .loop input =>
      if input.external then
        (Serve.step config state.serve input).map fun next =>
          ⟨next, if input = .openOk then .new else state.stream⟩
      else none
  | .body outcome =>
      if state.serve.point = .receiving ∧ state.stream.pending = [] ∧ state.stream.done = false then
        match state.stream.read outcome with
        | (none, stream) => some { state with stream }
        | (some _, stream) =>
            (Serve.step config state.serve .streamErr).map fun next => ⟨next, stream⟩
      else none
  | .poll =>
      match state.stream.poll decode with
      | some (result, stream) =>
          (Serve.step config state.serve (inputOf result)).map fun next => ⟨next, stream⟩
      | none => none

/-- The messages of the well-formed frames. -/
def wellFormed (events : List SseEvent) : List AppMessage :=
  events.filterMap fun event => decode event.data

/-- The frames that a step receives. -/
def receives (state : Feed) : FeedLabel → List SseEvent
  | .body outcome => (state.stream.read outcome).2.pending.drop state.stream.pending.length
  | _ => []

/-- The frames received in a run. -/
def received (start : Feed) (trace : List FeedLabel) : List SseEvent :=
  emitted (Feed.step decode config) receives start trace

/-- The tokens recorded after one more. -/
def remembered (seen : Finset UInt64) (token : UInt64) : Finset UInt64 :=
  if dedupLimit < (insert token seen).card then insert token ∅ else insert token seen

/-- The requests that these messages have handed to the handler: the accepted
ones with a decodable payload that have not been seen before. -/
def replay (seen : Finset UInt64) : List AppMessage → List (UInt64 × Request)
  | [] => []
  | message :: rest =>
      if config.accept message.topic then
        match message.replyToken with
        | none => replay seen rest
        | some token =>
            if token ∈ seen then replay seen rest
            else
              match message.payload with
              | none => replay (remembered seen token) rest
              | some payload =>
                  (token, ⟨message.sender, message.topic, payload⟩) ::
                    replay (remembered seen token) rest
      else replay seen rest

/-- The requests that were handed to the handler. -/
def calls (history : List Event) : List (UInt64 × Request) :=
  history.filterMap fun
    | .handled _ token request => some (token, request)
    | _ => none

/-- The loop is on a connection that it reads from. -/
def Point.connected : Point → Bool
  | .receiving | .handling _ _ | .replying _ => true
  | _ => false

/-- The loop comes to a malformed frame while a request that it would hand to
the handler waits behind it. -/
def Loses (state : Feed) : FeedLabel → Prop
  | .poll =>
      match state.stream.pending with
      | event :: rest =>
          decode event.data = none ∧ replay config state.serve.seen (wellFormed decode rest) ≠ []
      | [] => False
  | _ => False

end Feeding

@[simp] theorem calls_append (first second : List Event) :
    calls (first ++ second) = calls first ++ calls second :=
  List.filterMap_append ..

@[simp] theorem calls_marks (state : State) (token : UInt64) :
    calls (state.marks token) = [] := by
  unfold State.marks
  split <;> rfl

@[simp] theorem receives_poll (state : Feed) : receives state .poll = [] := rfl

@[simp] theorem calls_handled (connection : Nat) (token : UInt64) (request : Request) :
    calls [.handled connection token request] = [(token, request)] := rfl

theorem seen_remember (state : State) (token : UInt64) :
    (state.remember token).seen = remembered state.seen token := by
  unfold State.remember remembered
  split <;> rfl

/-- One message: what the loop hands to the handler, and what it makes of the
messages behind it. -/
theorem replay_cons {config : Config} {state next : State} {message : AppMessage}
    (delivery : Delivery config state message next) (rest : List AppMessage) :
    ∃ handed, calls next.history = calls state.history ++ handed ∧
      replay config state.seen (message :: rest) = handed ++ replay config next.seen rest := by
  cases delivery with
  | unwanted foreign =>
      refine ⟨[], by simp, ?_⟩
      rcases foreign with foreign | untokened
      · simp [replay, foreign]
      · simp [replay, untokened]
  | duplicate token accepted request known =>
      exact ⟨[], by simp, by simp [replay, accepted, request, known]⟩
  | undecodable token accepted request fresh garbled =>
      refine ⟨[], by simp, ?_⟩
      simp [replay, accepted, request, fresh, garbled, seen_remember]
  | called token payload accepted request fresh decoded =>
      refine ⟨[(token, ⟨message.sender, message.topic, payload⟩)], ?_, ?_⟩
      · simp
      · simp [replay, accepted, request, fresh, decoded, seen_remember]

section Connection

variable {decode : Text → Option AppMessage} {config : Config}

theorem wellFormed_cons_some {event : SseEvent} {message : AppMessage}
    (decoded : decode event.data = some message) (rest : List SseEvent) :
    wellFormed decode (event :: rest) = message :: wellFormed decode rest := by
  simp [wellFormed, decoded]

theorem wellFormed_cons_none {event : SseEvent} (malformed : decode event.data = none)
    (rest : List SseEvent) : wellFormed decode (event :: rest) = wellFormed decode rest := by
  simp [wellFormed, malformed]

/-- Everything a step can do on a connection. -/
inductive FeedMoves (decode : Text → Option AppMessage) (config : Config) (state : Feed) :
    FeedLabel → Feed → Prop
  | served (input : Input) (serve : State) (external : input.external = true)
      (stepped : Serve.step config state.serve input = some serve) :
      FeedMoves decode config state (.loop input)
        ⟨serve, if input = .openOk then .new else state.stream⟩
  | read (outcome : Body) (stream : EventStream) (receiving : state.serve.point = .receiving)
      (empty : state.stream.pending = []) (result : state.stream.read outcome = (none, stream)) :
      FeedMoves decode config state (.body outcome) { state with stream }
  | failed (receiving : state.serve.point = .receiving) (empty : state.stream.pending = []) :
      FeedMoves decode config state (.body .failed)
        ⟨{ state.serve with point := .opening }, { state.stream with done := true }⟩
  | delivered (event : SseEvent) (rest : List SseEvent) (message : AppMessage) (serve : State)
      (receiving : state.serve.point = .receiving)
      (pending : state.stream.pending = event :: rest)
      (decoded : decode event.data = some message)
      (delivery : Delivery config
        (state.serve.log (.read state.serve.connection message)) message serve) :
      FeedMoves decode config state .poll ⟨serve, { state.stream with pending := rest }⟩
  | broken (event : SseEvent) (rest : List SseEvent)
      (receiving : state.serve.point = .receiving)
      (pending : state.stream.pending = event :: rest) (malformed : decode event.data = none) :
      FeedMoves decode config state .poll
        ⟨{ state.serve with point := .opening }, { state.stream with pending := rest }⟩
  | ended (receiving : state.serve.point = .receiving) (empty : state.stream.pending = []) :
      FeedMoves decode config state .poll
        ⟨{ state.serve with point := .opening }, state.stream⟩

theorem feedMoves_of_step {state next : Feed} {label : FeedLabel}
    (stepped : state.step decode config label = some next) :
    FeedMoves decode config state label next := by
  cases label with
  | loop input =>
      simp only [Feed.step] at stepped
      split at stepped
      case isTrue external =>
          obtain ⟨serve, taken, rfl⟩ := Option.map_eq_some_iff.mp stepped
          exact .served input serve external taken
      case isFalse => simp at stepped
  | body outcome =>
      simp only [Feed.step] at stepped
      split at stepped
      case isTrue ready =>
          obtain ⟨receiving, empty, -⟩ := ready
          cases outcome with
          | failed =>
              simp only [EventStream.read, Serve.step, receiving, Option.map_some,
                Option.some.injEq] at stepped
              exact stepped ▸ .failed receiving empty
          | chunk bytes =>
              simp only [EventStream.read, Option.some.injEq] at stepped
              exact stepped ▸ .read (.chunk bytes) _ receiving empty rfl
          | ended =>
              simp only [EventStream.read, Option.some.injEq] at stepped
              exact stepped ▸ .read .ended _ receiving empty rfl
      case isFalse => simp at stepped
  | poll =>
      cases pending : state.stream.pending with
      | cons event rest =>
          cases decoded : decode event.data with
          | some message =>
              simp only [Feed.step, EventStream.poll, pending, itemOf, decoded, inputOf,
                Option.map_eq_some_iff] at stepped
              obtain ⟨serve, taken, rfl⟩ := stepped
              cases moves_of_step taken with
              | delivered _ _ receiving delivery =>
                  exact .delivered event rest message serve receiving pending decoded delivery
          | none =>
              simp only [Feed.step, EventStream.poll, pending, itemOf, decoded, inputOf,
                Option.map_eq_some_iff] at stepped
              obtain ⟨serve, taken, rfl⟩ := stepped
              cases moves_of_step taken with
              | failed receiving => exact .broken event rest receiving pending decoded
      | nil =>
          cases closed : state.stream.done with
          | true =>
              simp only [Feed.step, EventStream.poll, pending, closed, if_true, inputOf,
                Option.map_eq_some_iff] at stepped
              obtain ⟨serve, taken, rfl⟩ := stepped
              cases moves_of_step taken with
              | ended receiving => exact .ended receiving pending
          | false => simp [Feed.step, EventStream.poll, pending, closed] at stepped

/-- What is no item leaves the connection only for a shutdown, and hands nothing
over. -/
theorem external_on_connection {state next : State} {input : Input}
    (connected : state.point.connected = true) (external : input.external = true)
    (stepped : Serve.step config state input = some next) :
    input ≠ .openOk ∧ next.point ≠ .opening ∧ next.seen = state.seen ∧
      calls next.history = calls state.history := by
  cases moves_of_step stepped with
  | stopped => simp
  | replied => simp [calls]
  | accepted => simp [calls]
  | rejected => simp
  | opened point => simp [point, Point.connected] at connected
  | openFailed point => simp [point, Point.connected] at connected
  | subscribed _ _ point => simp [point, Point.connected] at connected
  | refused _ _ point => simp [point, Point.connected] at connected
  | slept point => simp [point, Point.connected] at connected
  | delivered => simp [Input.external] at external
  | failed => simp [Input.external] at external
  | ended => simp [Input.external] at external

/-- A step on a connection hands over the next requests of the frames received so
far and leaves the others for later. -/
theorem balance_of_step {state next : Feed} {label : FeedLabel} (later : List SseEvent)
    (connected : state.serve.point.connected = true)
    (stepped : state.step decode config label = some next) :
    ∃ handed, calls next.serve.history = calls state.serve.history ++ handed ∧
      replay config state.serve.seen
          (wellFormed decode (state.stream.pending ++ receives state label ++ later)) =
        handed ++
          replay config next.serve.seen (wellFormed decode (next.stream.pending ++ later)) := by
  cases feedMoves_of_step stepped with
  | served input serve external taken =>
      obtain ⟨other, -, sameSeen, sameCalls⟩ := external_on_connection connected external taken
      exact ⟨[], by simp [sameCalls], by simp [receives, other, sameSeen]⟩
  | read outcome stream receiving empty result =>
      exact ⟨[], by simp, by simp [receives, empty, result]⟩
  | failed receiving empty => exact ⟨[], by simp, by simp [receives, EventStream.read]⟩
  | delivered event rest message serve receiving pending decoded delivery =>
      obtain ⟨handed, called, replayed⟩ := replay_cons delivery (wellFormed decode (rest ++ later))
      refine ⟨handed, by simpa [calls] using called, ?_⟩
      rw [pending, receives_poll, List.append_nil, List.cons_append, wellFormed_cons_some decoded]
      exact replayed
  | broken event rest receiving pending malformed =>
      refine ⟨[], by simp, ?_⟩
      rw [pending, receives_poll, List.append_nil, List.cons_append, wellFormed_cons_none malformed]
      rfl
  | ended receiving empty => exact ⟨[], by simp, by simp [receives]⟩

/-- So does a whole run on one connection. -/
theorem balance_of_execute {start final : Feed} {trace : List FeedLabel}
    (every : EveryStep (Feed.step decode config)
      (fun state _ => state.serve.point.connected = true) start trace)
    (reached : execute (Feed.step decode config) start trace = some final) :
    ∃ handed, calls final.serve.history = calls start.serve.history ++ handed ∧
      replay config start.serve.seen
          (wellFormed decode (start.stream.pending ++ received decode config start trace)) =
        handed ++ replay config final.serve.seen (wellFormed decode final.stream.pending) := by
  induction trace generalizing start with
  | nil =>
      obtain rfl : start = final := by simpa using reached
      exact ⟨[], by simp, by simp [received, emitted]⟩
  | cons label rest induction =>
      obtain ⟨next, stepped, later⟩ := Option.bind_eq_some_iff.mp reached
      rw [everyStep_cons] at every
      obtain ⟨connected, remaining⟩ := every
      obtain ⟨handed, called, replayed⟩ := balance_of_step (received decode config next rest)
        connected stepped
      obtain ⟨more, calledLater, replayedLater⟩ := induction (remaining next stepped) later
      refine ⟨handed ++ more, by rw [calledLater, called, List.append_assoc], ?_⟩
      rw [received, emitted]
      simp only [stepped]
      rw [← List.append_assoc, ← received, replayed, replayedLater, List.append_assoc]

/-- The step that leaves the connection loses something exactly if a request
that the loop would have handed over is still waiting. -/
theorem loses_iff_of_leaves {state next : Feed} {label : FeedLabel}
    (connected : state.serve.point.connected = true)
    (stepped : state.step decode config label = some next)
    (left : next.serve.point = .opening) :
    Loses decode config state label ↔
      replay config next.serve.seen (wellFormed decode next.stream.pending) ≠ [] := by
  cases feedMoves_of_step stepped with
  | served input serve external taken =>
      exact absurd left (external_on_connection connected external taken).2.1
  | read outcome stream receiving =>
      rw [receiving] at left
      cases left
  | failed receiving empty => simp [Loses, empty, wellFormed, replay]
  | delivered event rest message serve receiving pending decoded delivery =>
      exfalso
      cases delivery with
      | unwanted => simp [receiving] at left
      | duplicate => simp [receiving] at left
      | undecodable => simp [receiving] at left
      | called => simp at left
  | broken event rest receiving pending malformed => simp [Loses, pending, malformed]
  | ended receiving empty => simp [Loses, empty, wellFormed, replay]

/-- Only a step that leaves the connection loses something. -/
theorem leaves_of_loses {state next : Feed} {label : FeedLabel}
    (loses : Loses decode config state label)
    (stepped : state.step decode config label = some next) : next.serve.point = .opening := by
  cases feedMoves_of_step stepped with
  | served => exact loses.elim
  | read => exact loses.elim
  | failed => exact loses.elim
  | delivered event rest message serve receiving pending decoded delivery =>
      simp [Loses, pending, decoded] at loses
  | broken => rfl
  | ended => rfl

/-- A run on a connection that has closed lost nothing exactly if no request that
the loop would have handed over was waiting at the end. -/
theorem spares_iff_of_closed {start final : Feed} {trace : List FeedLabel}
    (connected : start.serve.point.connected = true)
    (every : EveryStep (Feed.step decode config)
      (fun state _ => state.serve.point.connected = true) start trace)
    (reached : execute (Feed.step decode config) start trace = some final)
    (closed : final.serve.point = .opening) :
    EveryStep (Feed.step decode config) (fun state label => ¬ Loses decode config state label)
        start trace ↔
      replay config final.serve.seen (wellFormed decode final.stream.pending) = [] := by
  induction trace generalizing start with
  | nil =>
      obtain rfl : start = final := by simpa using reached
      simp [closed, Point.connected] at connected
  | cons label rest induction =>
      obtain ⟨next, stepped, later⟩ := Option.bind_eq_some_iff.mp reached
      rw [everyStep_cons] at every ⊢
      simp only [stepped, Option.mem_def, Option.some.injEq, forall_eq'] at every ⊢
      cases rest with
      | nil =>
          obtain rfl : next = final := by simpa using later
          simp [loses_iff_of_leaves connected stepped closed]
      | cons other rest =>
          have onward : next.serve.point.connected = true := (everyStep_cons.mp every.2).1
          have spared : ¬ Loses decode config start label := by
            intro loses
            rw [leaves_of_loses loses stepped] at onward
            cases onward
          rw [induction onward every.2 later]
          exact and_iff_right spared

theorem calls_iff_of_closed {start final : Feed} {trace : List FeedLabel}
    (connected : start.serve.point.connected = true) (fresh : start.stream = .new)
    (every : EveryStep (Feed.step decode config)
      (fun state _ => state.serve.point.connected = true) start trace)
    (reached : execute (Feed.step decode config) start trace = some final)
    (closed : final.serve.point = .opening) :
    calls final.serve.history = calls start.serve.history ++
        replay config start.serve.seen (wellFormed decode (received decode config start trace)) ↔
      EveryStep (Feed.step decode config) (fun state label => ¬ Loses decode config state label)
        start trace := by
  obtain ⟨handed, called, replayed⟩ := balance_of_execute every reached
  have start_empty : start.stream.pending = [] := by rw [fresh]; rfl
  rw [start_empty, List.nil_append] at replayed
  rw [spares_iff_of_closed connected every reached closed, called, replayed,
    List.append_cancel_left_eq]
  constructor
  · intro complete
    simpa using complete
  · intro nothing
    simp [nothing]

/-- While the loop subscribes, nothing has been read from the new stream. -/
def Unread (state : Feed) : Prop :=
  ∀ topic rest, state.serve.point = .subscribing topic rest → state.stream = .new

theorem unread_of_step {state next : Feed} {label : FeedLabel} (unread : Unread state)
    (stepped : state.step decode config label = some next) : Unread next := by
  intro topic rest subscribing
  cases feedMoves_of_step stepped with
  | served input serve external taken =>
      cases moves_of_step taken with
      | opened => rfl
      | subscribed first others point => simpa using unread first others point
      | delivered => simp [Input.external] at external
      | _ => simp at subscribing
  | read outcome stream receiving =>
      rw [receiving] at subscribing
      cases subscribing
  | delivered event others message serve receiving pending decoded delivery =>
      cases delivery with
      | called => simp at subscribing
      | _ => simp [receiving] at subscribing
  | _ => simp at subscribing

/-- Every connection is entered with a new stream. -/
theorem new_of_entered {state next : Feed} {label : FeedLabel} (unread : Unread state)
    (apart : state.serve.point.connected = false)
    (stepped : state.step decode config label = some next)
    (entered : next.serve.point.connected = true) : next.stream = .new := by
  cases feedMoves_of_step stepped with
  | served input serve external taken =>
      cases moves_of_step taken with
      | opened => rfl
      | subscribed topic rest point => simpa using unread topic rest point
      | delivered => simp [Input.external] at external
      | replied reply token request point => simp [point, Point.connected] at apart
      | accepted token point => simp [point, Point.connected] at apart
      | rejected token point => simp [point, Point.connected] at apart
      | _ => simp [Point.connected] at entered
  | read outcome stream receiving => simp [receiving, Point.connected] at apart
  | delivered event rest message serve receiving =>
      simp [receiving, Point.connected] at apart
  | _ => simp [Point.connected] at entered

end Connection

/-- A connection of the loop that has closed without a shutdown: the handler was
called for the requests of the well-formed frames, as if no other frame had been
there, exactly if no request was waiting behind a malformed frame that the loop
came to. -/
theorem malformed_frames_cost_nothing_iff (decode : Text → Option AppMessage) (config : Config)
    (stream : EventStream) (before trace : List FeedLabel) (enter : FeedLabel)
    (outside start final : Feed)
    (arrived : execute (Feed.step decode config) ⟨initial, stream⟩ before = some outside)
    (apart : outside.serve.point.connected = false)
    (stepped : outside.step decode config enter = some start)
    (entered : start.serve.point.connected = true)
    (reached : execute (Feed.step decode config) start trace = some final)
    (every : EveryStep (Feed.step decode config)
      (fun state _ => state.serve.point.connected = true) start trace)
    (closed : final.serve.point = .opening) :
    calls final.serve.history = calls start.serve.history ++
        replay config start.serve.seen (wellFormed decode (received decode config start trace)) ↔
      EveryStep (Feed.step decode config) (fun state label => ¬ Loses decode config state label)
        start trace := by
  have unread : Unread outside :=
    stateInvariant_of_execute Unread (fun _ _ impossible => by cases impossible)
      (fun _ _ _ holds moved => unread_of_step holds moved) arrived
  exact calls_iff_of_closed entered (new_of_entered unread apart stepped entered) every reached
    closed

/-- The JSON text of a request. -/
def requestText : Text :=
  ["\x7b\"from\":", "\"peer\",", "\"topic\":", "\"app/rpc\",", "\"payload_hex\":", "\"\",",
    "\"received_at\":", "0,", "\"reply_token\":", "7\x7d"].flatMap String.toList

/-- A decoder that knows this text. -/
def decodeRequest (text : Text) : Option AppMessage :=
  if text = requestText then some (emptyRequest 7) else none

/-- Frames with these data, as the node writes them. -/
def framesOf (texts : List Text) : List UInt8 :=
  Utf8.encode (texts.flatMap fun text => "data: ".toList ++ text ++ ['\n', '\n'])

/-- The connection is open, and nothing has been read from it. -/
def opened : Feed :=
  ⟨{ initial.log (.opened 1) with point := .receiving, connection := 1 }, .new⟩

theorem opened_of_step :
    Feed.step decodeRequest anyTopic ⟨initial, .new⟩ (.loop .openOk) = some opened := rfl

/-- The malformed frame comes last. -/
def sparing : List FeedLabel :=
  [.body (.chunk (framesOf [requestText, "[]".toList])), .poll,
    .loop (.handlerReturned []), .loop .replyOk, .poll]

theorem malformed_frames_cost_nothing_iff_sparing :
    ∃ final, execute (Feed.step decodeRequest anyTopic) opened sparing = some final ∧
      calls final.serve.history = [(7, ⟨"peer", "app/rpc", []⟩)] ∧
      EveryStep (Feed.step decodeRequest anyTopic)
        (fun state label => ¬ Loses decodeRequest anyTopic state label) opened sparing := by
  let final := (execute (Feed.step decodeRequest anyTopic) opened sparing).get
    (by decide +kernel)
  have reached : execute (Feed.step decodeRequest anyTopic) opened sparing = some final :=
    (Option.some_get _).symm
  have handed : calls final.serve.history = [(7, ⟨"peer", "app/rpc", []⟩)] := by decide +kernel
  refine ⟨final, reached, handed, ?_⟩
  apply (malformed_frames_cost_nothing_iff decodeRequest anyTopic .new [] sparing (.loop .openOk)
    _ opened final rfl rfl opened_of_step rfl reached (by decide +kernel) (by decide +kernel)).mp
  rw [handed]
  decide +kernel

/-- The request waits behind the malformed frame. -/
def losing : List FeedLabel :=
  [.body (.chunk (framesOf ["[]".toList, requestText])), .poll]

/-- The request is lost. -/
theorem request_behind_malformed_frame_lost :
    ¬ ∀ decode config stream before trace enter outside start final,
      execute (Feed.step decode config) ⟨initial, stream⟩ before = some outside →
      outside.serve.point.connected = false → outside.step decode config enter = some start →
      start.serve.point.connected = true →
      execute (Feed.step decode config) start trace = some final →
      EveryStep (Feed.step decode config)
        (fun state _ => state.serve.point.connected = true) start trace →
      final.serve.point = .opening →
        calls final.serve.history = calls start.serve.history ++
          replay config start.serve.seen
            (wellFormed decode (received decode config start trace)) := by
  intro claimed
  let final := (execute (Feed.step decodeRequest anyTopic) opened losing).get (by decide +kernel)
  have complete := claimed decodeRequest anyTopic .new [] losing (.loop .openOk) _ opened final
    rfl rfl opened_of_step rfl (Option.some_get _).symm (by decide +kernel) (by decide +kernel)
  have nothing : calls final.serve.history = [] := by decide +kernel
  have request : replay anyTopic opened.serve.seen
      (wellFormed decodeRequest (received decodeRequest anyTopic opened losing)) =
        [(7, ⟨"peer", "app/rpc", []⟩)] := by decide +kernel
  rw [nothing, request] at complete
  simp at complete

end CeRs.Serve
