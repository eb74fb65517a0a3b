import CeRs.Lane.Frames
import CeRs.Lane.Routed
import CeRs.Transition

/-!
# Message streams on the lane

A receiver that `watch_stream` returns is sent every event that the reader
thread processes from the moment its sender enters the list of subscribers, and
its sender is gone once the reader has drained that list.  A caller registers
first and looks at the dead flag afterwards, while the reader raises the flag
before it drains: a sender that comes too late is not returned.
-/

namespace CeRs.Lane

open Transition

/-- The message of an event frame. -/
def Routed.message? (routed : Routed) : Option Msg :=
  match routed.frame with
  | some ⟨_, .ok (.event message)⟩ => some message
  | _ => none

/-- The events that the reader processes in a step. -/
def pushed (state : State) (label : Label) : List Msg :=
  (routed state label).filterMap Routed.message?

/-- The events that the reader processes in a run. -/
def heard (state : State) (trace : List Label) : List Msg :=
  emitted step pushed state trace

/-- The caller has put its stream's sender into the list of subscribers, or
has returned an error. -/
def Point.registered : Point → Bool
  | .confirming | .watching | .refused => true
  | _ => false

/-- The caller's receiver may be, or has been, returned. -/
def Point.subscribed : Point → Bool
  | .confirming | .watching => true
  | _ => false

/-- Since the sender was registered: the step that did it, and what the stream
has got. -/
def Follows (trace : List Label) (state : State) (index : Nat) : Prop :=
  ∃ before after registering registered,
    trace = before ++ .caller index :: after ∧
    execute step initial before = some registering ∧
    (registering.callers index).point = .registering ∧
    step registering (.caller index) = some registered ∧
    (state.callers index).inbox <+: heard registered after ∧
    ((state.callers index).receiverDropped = false →
      (state.callers index).inbox = heard registered after)

/-- What holds of the streams after a run. -/
structure Streaming (trace : List Label) (state : State) : Prop where
  reached : execute step initial trace = some state
  once : OneFrame state
  nodup : state.subscribers.Nodup
  silent : ∀ index, (state.callers index).point.registered = false →
    index ∉ state.subscribers ∧ (state.callers index).inbox = [] ∧
      (state.callers index).receiverDropped = false
  listed : ∀ index, (state.callers index).point.subscribed = true →
    (state.callers index).receiverDropped = false → state.reader ≠ .finished →
      index ∈ state.subscribers
  follows : ∀ index, (state.callers index).point.subscribed = true → Follows trace state index

theorem resume_subscribed (watch : Bool) (answer : Option Answer) :
    (resume watch answer).subscribed = false :=
  resume_induction (motive := fun point => point.subscribed = false) rfl rfl (fun _ => rfl) watch
    answer

theorem pushed_of_ne_reader {state : State} {label : Label} (other : label ≠ .reader) :
    pushed state label = [] := by
  cases label with
  | reader => exact absurd rfl other
  | _ => rfl

namespace CallerMoves

variable {state next : State} {index : Nat}

theorem inbox_eq (moves : CallerMoves state index next) (other : Nat) :
    (next.callers other).inbox = (state.callers other).inbox := by
  by_cases same : other = index
  · subst same
    cases moves <;> simp
  · rw [moves.callers_of_ne same]

theorem receiverDropped_cases (moves : CallerMoves state index next) (other : Nat) :
    (next.callers other).receiverDropped = (state.callers other).receiverDropped ∨
      (next.callers other).point = .refused ∧ (next.callers other).receiverDropped = true := by
  by_cases same : other = index
  · subst same
    cases moves with
    | raced point dead => exact .inr (by simp)
    | started | notStarted | foundDead | foundAlive | allocated | inserted | sent | notSent
    | withdrawn | answered | orphaned | marked | registered | confirmed =>
        exact .inl (by simp)
  · exact .inl (by rw [moves.callers_of_ne same])

theorem subscribers_cases (moves : CallerMoves state index next) :
    next.subscribers = state.subscribers ∧
        ((next.callers index).point.subscribed = true →
          (state.callers index).point.subscribed = true) ∨
      (state.callers index).point = .registering ∧ (next.callers index).point = .confirming ∧
        next.subscribers = state.subscribers ++ [index] := by
  cases moves with
  | registered point => exact .inr ⟨point, by simp, rfl⟩
  | confirmed point => exact .inl ⟨rfl, fun _ => by rw [point]; rfl⟩
  | foundDead | withdrawn | answered | orphaned =>
      exact .inl ⟨rfl, fun subscribed => by simp [resume_subscribed] at subscribed⟩
  | started | notStarted | foundAlive | allocated | inserted | sent | notSent | marked | raced =>
      exact .inl ⟨rfl, fun subscribed => by simp [Point.subscribed] at subscribed⟩

theorem registered_of_registered (moves : CallerMoves state index next) {other : Nat}
    (registered : (state.callers other).point.registered = true) :
    (next.callers other).point.registered = true := by
  by_cases same : other = index
  · subst same
    cases moves with
    | registered | raced | confirmed => simp [Point.registered]
    | started point | notStarted point | foundDead _ point | foundAlive _ point
    | allocated _ point | inserted _ _ point | sent _ _ point | notSent _ _ point
    | withdrawn _ point | answered _ _ point | orphaned _ point | marked point =>
        rw [point] at registered
        exact absurd registered Bool.false_ne_true
  · rw [moves.callers_of_ne same]
    exact registered

end CallerMoves

theorem mem_deliver_subscribers {state : State} (message : Msg) {index : Nat} :
    index ∈ (deliver state message).subscribers ↔
      index ∈ state.subscribers ∧ (state.callers index).receiverDropped = false := by
  simp [deliver]

theorem Routed.message?_of_notEvent {response : NodeResp} (caller : Option Nat)
    (notEvent : ∀ message, response.result ≠ .ok (.event message)) :
    (Routed.mk (some response) caller).message? = none := by
  unfold Routed.message?
  split
  case h_1 id message frame =>
      obtain rfl := Option.some.inj frame
      exact absurd rfl (notEvent message)
  case h_2 => rfl

theorem pushed_of_notEvent {state : State} {response : NodeResp}
    (reader : state.reader = .routing response)
    (notEvent : ∀ message, response.result ≠ .ok (.event message)) :
    pushed state .reader = [] := by
  simp [pushed, routed_of_notEvent reader notEvent, Routed.message?_of_notEvent _ notEvent]

/-- A step of the reader adds what it processes to every stream it finds in the
list of subscribers. -/
theorem inbox_of_readerMoves {state next : State} (moves : ReaderMoves state next)
    (index : Nat) :
    (next.callers index).inbox =
      (state.callers index).inbox ++
        if index ∈ state.subscribers ∧ (state.callers index).receiverDropped = false then
          pushed state .reader
        else [] := by
  cases moves with
  | pushed id message reader =>
      have pushes : pushed state .reader = [message] := by
        simp [pushed, routed, reader, Routed.message?]
      rw [pushes]
      simp only [deliver, List.mem_filter, Bool.not_eq_true']
      split
      case isTrue => rfl
      case isFalse => exact (List.append_nil _).symm
  | took response rest reader alive down =>
      simp [pushed, routed, reader, alive, down]
  | garbled rest reader alive down =>
      simp [pushed, routed, reader, alive, down, Routed.message?]
  | matched response entry reader notEvent found => simp [pushed_of_notEvent reader notEvent]
  | unmatched response reader notEvent missing => simp [pushed_of_notEvent reader notEvent]
  | answered caller answer reader =>
      by_cases same : index = caller
      · simp [same, pushed, routed, reader]
      · simp [same, pushed, routed, reader]
  | marked reader | closed reader | cleared reader | ended reader =>
      simp [pushed, routed, reader]

theorem receiverDropped_of_readerMoves {state next : State} (moves : ReaderMoves state next)
    (index : Nat) :
    (next.callers index).receiverDropped = (state.callers index).receiverDropped := by
  cases moves with
  | pushed id message reader =>
      obtain ⟨inbox, kept⟩ := deliver_callers state message index
      simp [kept]
  | answered caller answer reader =>
      by_cases same : index = caller
      · simp [same]
      · simp [same]
  | took | garbled | matched | unmatched | marked | closed | cleared | ended => rfl

/-- The reader removes only senders whose receiver is gone, until it drains the
list. -/
theorem mem_subscribers_of_readerMoves {state next : State} (moves : ReaderMoves state next)
    {index : Nat} (member : index ∈ state.subscribers)
    (held : (state.callers index).receiverDropped = false) (running : next.reader ≠ .finished) :
    index ∈ next.subscribers := by
  cases moves with
  | pushed id message reader =>
      exact (mem_deliver_subscribers message).mpr ⟨member, held⟩
  | ended reader => exact absurd rfl running
  | took | garbled | matched | unmatched | answered | marked | closed | cleared => exact member

theorem sublist_of_readerMoves {state next : State} (moves : ReaderMoves state next) :
    next.subscribers.Sublist state.subscribers := by
  cases moves with
  | pushed id message reader => exact List.filter_sublist
  | ended reader => exact List.nil_sublist _
  | took | garbled | matched | unmatched | answered | marked | closed | cleared =>
      exact List.Sublist.refl _

theorem running_of_readerMoves {state next : State} (moves : ReaderMoves state next) :
    state.reader ≠ .finished := by
  intro finished
  cases moves with
  | took _ _ reader | garbled _ reader | pushed _ _ reader | matched _ _ reader
  | unmatched _ reader | answered _ _ reader | marked reader | closed reader | cleared reader
  | ended reader => simp [finished] at reader

theorem inbox_of_moves {state next : State} {label : Label} (moves : Moves state label next)
    (fresh : (state.callers state.total).inbox = []) (index : Nat) :
    (next.callers index).inbox =
      (state.callers index).inbox ++
        if index ∈ state.subscribers ∧ (state.callers index).receiverDropped = false then
          pushed state label
        else [] := by
  have started (watch : Bool) (point : Point) :
      (Function.update state.callers state.total (newCaller watch point) index).inbox =
        (state.callers index).inbox := by
    by_cases same : index = state.total
    · simp [same, fresh, newCaller]
    · simp [same]
  cases moves with
  | reader _ moves => exact inbox_of_readerMoves moves index
  | caller other _ moves => simp [pushed_of_ne_reader, moves.inbox_eq]
  | writer _ moves => cases moves <;> simp [pushed_of_ne_reader]
  | called op => simp [pushed_of_ne_reader, started]
  | watched => simp [pushed_of_ne_reader, started]
  | cancelled other id point =>
      by_cases same : index = other
      · simp [pushed_of_ne_reader, same]
      · simp [pushed_of_ne_reader, same]
  | droppedReceiver other point =>
      by_cases same : index = other
      · simp [pushed_of_ne_reader, same]
      · simp [pushed_of_ne_reader, same]
  | refused | nodeReceived | droppedClient | failed | nodeSent | closed =>
      simp [pushed_of_ne_reader]

theorem registered_of_moves {state next : State} {label : Label}
    (moves : Moves state label next) (once : OneFrame state) {index : Nat}
    (registered : (state.callers index).point.registered = true) :
    (next.callers index).point.registered = true := by
  cases moves.place index with
  | kept _ point => exact point ▸ registered
  | moved action => exact action.registered_of_registered registered
  | cancelled id before => simp [before, Point.registered] at registered
  | called op fresh | watched fresh =>
      rw [once.fresh index fresh.ge] at registered
      exact absurd registered Bool.false_ne_true

theorem receiverDropped_of_moves {state next : State} {label : Label}
    (moves : Moves state label next)
    (fresh : (state.callers state.total).receiverDropped = false) (index : Nat) :
    (next.callers index).receiverDropped = (state.callers index).receiverDropped ∨
      (next.callers index).point.registered = true ∧
        (next.callers index).receiverDropped = true := by
  have started (watch : Bool) (point : Point) :
      (Function.update state.callers state.total (newCaller watch point) index).receiverDropped =
        (state.callers index).receiverDropped := by
    by_cases same : index = state.total
    · simp [same, fresh, newCaller]
    · simp [same]
  cases moves with
  | reader _ moves => exact .inl (receiverDropped_of_readerMoves moves index)
  | caller other _ moves =>
      rcases moves.receiverDropped_cases index with same | ⟨point, dropped⟩
      · exact .inl same
      · exact .inr ⟨by rw [point]; rfl, dropped⟩
  | writer _ moves => exact .inl (by cases moves <;> rfl)
  | called op => exact .inl (started false (.checking op))
  | watched => exact .inl (started true .watchChecking)
  | cancelled other id point =>
      by_cases same : index = other
      · exact .inl (by simp [same])
      · exact .inl (by simp [same])
  | droppedReceiver other point =>
      by_cases same : index = other
      · exact .inr (by simp [same, point, Point.registered])
      · exact .inl (by simp [same])
  | refused | nodeReceived | droppedClient | failed | nodeSent | closed => exact .inl rfl

theorem running_of_moves {state next : State} {label : Label} (moves : Moves state label next)
    (running : next.reader ≠ .finished) : state.reader ≠ .finished := by
  cases moves with
  | reader _ moves => exact running_of_readerMoves moves
  | caller _ _ moves => exact moves.reader_eq ▸ running
  | writer _ moves => cases moves <;> exact running
  | failed reader => simp [reader]
  | called | watched | cancelled | droppedReceiver | refused | nodeReceived | droppedClient
  | nodeSent | closed => exact running

/-- The step puts the caller's sender into the list of subscribers. -/
structure Registers (state : State) (label : Label) (next : State) (index : Nat) : Prop where
  label_eq : label = .caller index
  point : (state.callers index).point = .registering
  point_next : (next.callers index).point = .confirming
  others : ∀ other, other ≠ index → next.callers other = state.callers other
  subscribers : next.subscribers = state.subscribers ++ [index]

/-- The step registers nobody, and it removes no sender whose receiver exists
unless it is the reader's drain. -/
structure KeepsStreams (state next : State) : Prop where
  sublist : next.subscribers.Sublist state.subscribers
  kept : ∀ index ∈ state.subscribers, (state.callers index).receiverDropped = false →
    next.reader ≠ .finished → index ∈ next.subscribers
  subscribed : ∀ index, (next.callers index).point.subscribed = true →
    (state.callers index).point.subscribed = true

theorem KeepsStreams.of_eq {state next : State} (same : next.subscribers = state.subscribers)
    (subscribed : ∀ index, (next.callers index).point.subscribed = true →
      (state.callers index).point.subscribed = true) : KeepsStreams state next where
  sublist := by rw [same]
  kept index member _ _ := same ▸ member
  subscribed := subscribed

theorem registers_or_keepsStreams {state next : State} {label : Label}
    (moves : Moves state label next) :
    (∃ index, Registers state label next index) ∨ KeepsStreams state next := by
  have started (watch : Bool) (point : Point) (unsubscribed : point.subscribed = false)
      (index : Nat)
      (subscribed : (Function.update state.callers state.total (newCaller watch point)
        index).point.subscribed = true) : (state.callers index).point.subscribed = true := by
    by_cases same : index = state.total
    · simp [same, newCaller, unsubscribed] at subscribed
    · simpa [same] using subscribed
  cases moves with
  | caller index _ moves =>
      rcases moves.subscribers_cases with ⟨same, subscribed⟩ | ⟨point, after, added⟩
      · refine .inr (.of_eq same fun other now => ?_)
        by_cases own : other = index
        · subst own
          exact subscribed now
        · exact moves.callers_of_ne own ▸ now
      · exact .inl ⟨index, rfl, point, after, fun _ => moves.callers_of_ne, added⟩
  | reader _ moves =>
      refine .inr ⟨sublist_of_readerMoves moves, fun index member held running =>
        mem_subscribers_of_readerMoves moves member held running, fun index subscribed => ?_⟩
      rw [moves.point_eq] at subscribed
      exact subscribed
  | writer _ moves =>
      cases moves <;> exact .inr (.of_eq rfl fun _ subscribed => subscribed)
  | called op => exact .inr (.of_eq rfl (started false (.checking op) rfl))
  | watched => exact .inr (.of_eq rfl (started true .watchChecking rfl))
  | cancelled other id point =>
      refine .inr (.of_eq rfl fun index subscribed => ?_)
      by_cases same : index = other
      · simp [same, Point.subscribed] at subscribed
      · simpa [same] using subscribed
  | droppedReceiver other point =>
      refine .inr (.of_eq rfl fun index subscribed => ?_)
      by_cases same : index = other
      · simp [same, point, Point.subscribed]
      · simpa [same] using subscribed
  | refused | nodeReceived | droppedClient | failed | nodeSent | closed =>
      exact .inr (.of_eq rfl fun _ subscribed => subscribed)

theorem heard_concat {state middle : State} {trace : List Label} {label : Label}
    (reached : execute step state trace = some middle) :
    heard state (trace ++ [label]) = heard state trace ++ pushed middle label :=
  emitted_concat reached

/-- The run from the registration to the present state. -/
theorem execute_of_split {trace before after : List Label} {state registering registered : State}
    {index : Nat} (reached : execute step initial trace = some state)
    (split : trace = before ++ .caller index :: after)
    (first : execute step initial before = some registering)
    (stepped : step registering (.caller index) = some registered) :
    execute step registered after = some state := by
  rw [split, execute_append, first, Option.bind_some, execute_cons, stepped] at reached
  exact reached

/-- One more step: the stream gets what the reader processes, as long as its
receiver is held. -/
theorem Follows.concat {trace : List Label} {state next : State} {label : Label} {index : Nat}
    (follows : Follows trace state index) (reached : execute step initial trace = some state)
    (grows : (state.callers index).receiverDropped = false →
      (next.callers index).inbox = (state.callers index).inbox ++ pushed state label)
    (keeps : (state.callers index).receiverDropped = true →
      (next.callers index).inbox = (state.callers index).inbox ∧
        (next.callers index).receiverDropped = true) :
    Follows (trace ++ [label]) next index := by
  obtain ⟨before, after, registering, registered, split, first, point, stepped, part, whole⟩ :=
    follows
  have later := execute_of_split reached split first stepped
  refine ⟨before, after ++ [label], registering, registered, by simp [split], first, point,
    stepped, ?_, ?_⟩
  · rw [heard_concat later]
    cases dropped : (state.callers index).receiverDropped with
    | false => rw [grows dropped, whole dropped]
    | true =>
        rw [(keeps dropped).1]
        exact part.trans (List.prefix_append _ _)
  · intro held
    rw [heard_concat later]
    cases dropped : (state.callers index).receiverDropped with
    | false => rw [grows dropped, whole dropped]
    | true =>
        rw [(keeps dropped).2] at held
        exact absurd held.symm Bool.false_ne_true

theorem streaming_initial : Streaming [] initial where
  reached := rfl
  once := oneFrame_initial
  nodup := List.nodup_nil
  silent _ _ := ⟨List.not_mem_nil, rfl, rfl⟩
  listed _ subscribed _ _ := absurd subscribed Bool.false_ne_true
  follows _ subscribed := absurd subscribed Bool.false_ne_true

theorem Streaming.silent_of_moves {trace : List Label} {state next : State} {label : Label}
    (streaming : Streaming trace state) (moves : Moves state label next) {index : Nat}
    (unregistered : (next.callers index).point.registered = false) :
    index ∉ next.subscribers ∧ (next.callers index).inbox = [] ∧
      (next.callers index).receiverDropped = false := by
  have fresh := streaming.silent state.total (by rw [streaming.once.fresh _ le_rfl]; rfl)
  have before : (state.callers index).point.registered = false := by
    by_contra registered
    have after := registered_of_moves moves streaming.once (Bool.not_eq_false _ ▸ registered)
    exact absurd (after.symm.trans unregistered) (by decide)
  obtain ⟨absent, empty, held⟩ := streaming.silent index before
  refine ⟨?_, ?_, ?_⟩
  · rcases registers_or_keepsStreams moves with ⟨other, registers⟩ | keeps
    · rw [registers.subscribers, List.mem_append, List.mem_singleton]
      rintro (member | rfl)
      · exact absent member
      · rw [registers.point_next] at unregistered
        exact absurd unregistered (by decide)
    · exact fun member => absent (keeps.sublist.subset member)
  · rw [inbox_of_moves moves fresh.2.1, empty, if_neg fun live => absent live.1]
    rfl
  · rcases receiverDropped_of_moves moves fresh.2.2 index with same | ⟨registered, -⟩
    · exact same.trans held
    · exact absurd (registered.symm.trans unregistered) (by decide)

theorem Streaming.follows_of_moves {trace : List Label} {state next : State} {label : Label}
    (streaming : Streaming trace state) (moves : Moves state label next) {index : Nat}
    (subscribed : (state.callers index).point.subscribed = true) :
    Follows (trace ++ [label]) next index := by
  have fresh := streaming.silent state.total (by rw [streaming.once.fresh _ le_rfl]; rfl)
  have grown := inbox_of_moves moves fresh.2.1 index
  apply (streaming.follows index subscribed).concat streaming.reached
  · intro held
    by_cases running : state.reader = .finished
    · have nothing : pushed state label = [] := by
        cases label with
        | reader => simp [pushed, routed, running]
        | _ => rfl
      simpa [nothing] using grown
    · rwa [if_pos ⟨streaming.listed index subscribed held running, held⟩] at grown
  · intro dropped
    rw [if_neg (by simp [dropped]), List.append_nil] at grown
    refine ⟨grown, ?_⟩
    rcases receiverDropped_of_moves moves fresh.2.2 index with same | ⟨-, now⟩
    · exact same.trans dropped
    · exact now

theorem Streaming.of_moves {trace : List Label} {state next : State} {label : Label}
    (streaming : Streaming trace state) (stepped : step state label = some next) :
    Streaming (trace ++ [label]) next := by
  have moves := moves_of_step stepped
  have fresh := streaming.silent state.total (by rw [streaming.once.fresh _ le_rfl]; rfl)
  have held {index : Nat} (now : (next.callers index).receiverDropped = false) :
      (state.callers index).receiverDropped = false := by
    rcases receiverDropped_of_moves moves fresh.2.2 index with same | ⟨-, dropped⟩
    · exact same ▸ now
    · exact absurd (dropped.symm.trans now) (by decide)
  refine ⟨execute_concat_eq_some.mpr ⟨state, streaming.reached, stepped⟩,
    oneFrame_of_moves streaming.once moves, ?_, fun _ => streaming.silent_of_moves moves, ?_, ?_⟩
  · rcases registers_or_keepsStreams moves with ⟨index, registers⟩ | keeps
    · have absent := (streaming.silent index (by rw [registers.point]; rfl)).1
      rw [registers.subscribers]
      refine List.nodup_append.mpr ⟨streaming.nodup, List.pairwise_singleton _ index, ?_⟩
      intro other member own isOwn same
      exact absent (List.mem_singleton.mp isOwn ▸ same ▸ member)
    · exact streaming.nodup.sublist keeps.sublist
  · intro index subscribed now running
    have before := running_of_moves moves running
    rcases registers_or_keepsStreams moves with ⟨other, registers⟩ | keeps
    · rw [registers.subscribers]
      by_cases same : index = other
      · simp [same]
      · rw [registers.others index same] at subscribed
        exact List.mem_append_left _ (streaming.listed index subscribed (held now) before)
    · exact keeps.kept index
        (streaming.listed index (keeps.subscribed index subscribed) (held now) before)
        (held now) running
  · intro index subscribed
    rcases registers_or_keepsStreams moves with ⟨other, registers⟩ | keeps
    · by_cases same : index = other
      · subst same
        obtain rfl := registers.label_eq
        obtain ⟨absent, empty, -⟩ := streaming.silent index (by rw [registers.point]; rfl)
        have inbox : (next.callers index).inbox = [] := by
          rw [inbox_of_moves moves fresh.2.1, empty, if_neg fun live => absent live.1]
          rfl
        refine ⟨trace, [], state, next, rfl, streaming.reached, registers.point, stepped, ?_, ?_⟩
        · exact inbox ▸ List.nil_prefix
        · exact fun _ => inbox
      · rw [registers.others index same] at subscribed
        exact streaming.follows_of_moves moves subscribed
    · exact streaming.follows_of_moves moves (keeps.subscribed index subscribed)

theorem streaming_of_execute {trace : List Label} {final : State}
    (reached : execute step initial trace = some final) : Streaming trace final :=
  invariant_of_execute Streaming streaming_initial
    (fun _ _ _ _ streaming stepped => streaming.of_moves stepped) reached

/-- The reader has set the dead flag. -/
def Reader.marked : Reader → Bool
  | .closing | .clearing | .ending | .finished => true
  | _ => false

/-- The flag is up before the list is drained, so no caller that registers
later returns its receiver. -/
structure Ended (state : State) : Prop where
  dead : state.reader.marked = true → state.dead = true
  gone : state.reader = .finished → ∀ index, (state.callers index).point = .watching →
    index ∉ state.subscribers

theorem marked_of_moves {state next : State} {label : Label} (moves : Moves state label next)
    (ended : Ended state) (marked : next.reader.marked = true) : next.dead = true := by
  cases moves with
  | reader _ moves =>
      cases moves with
      | marked reader => rfl
      | closed reader | cleared reader | ended reader =>
          exact ended.dead (by rw [reader]; rfl)
      | took | garbled | pushed | matched | unmatched | answered =>
          exact absurd marked Bool.false_ne_true
  | caller _ _ moves =>
      exact dead_of_moves (.caller _ _ moves) (ended.dead (moves.reader_eq ▸ marked))
  | writer _ moves =>
      exact dead_of_moves (.writer _ moves) (ended.dead (by cases moves <;> exact marked))
  | failed reader => exact absurd marked Bool.false_ne_true
  | called | watched | cancelled | droppedReceiver | refused | nodeReceived | droppedClient
  | nodeSent | closed => exact ended.dead marked

/-- A receiver is returned only by the check that finds the lane alive. -/
theorem watching_of_moves {state next : State} {label : Label} (moves : Moves state label next)
    {index : Nat} (watching : (next.callers index).point = .watching) :
    (state.callers index).point = .watching ∨ state.dead = false := by
  cases moves.place index with
  | kept _ point => exact .inl (point ▸ watching)
  | moved action =>
      cases action with
      | confirmed point alive => exact .inr alive
      | foundDead | withdrawn | answered | orphaned =>
          have subscribed := congrArg Point.subscribed watching
          simp only [moveTo_callers_self, resume_subscribed] at subscribed
          exact absurd subscribed Bool.false_ne_true
      | started | notStarted | foundAlive | allocated | inserted | sent | notSent | marked
      | registered | raced => simp at watching
  | cancelled _ _ point => simp [point] at watching
  | called op fresh place | watched fresh place => simp [place, newCaller] at watching

/-- The drain itself is the step after which the reader has finished. -/
theorem finished_of_moves {state next : State} {label : Label} (moves : Moves state label next)
    (finished : next.reader = .finished) :
    state.reader = .finished ∨ next.subscribers = [] := by
  cases moves with
  | reader _ moves =>
      cases moves with
      | ended reader => exact .inr rfl
      | took | garbled | pushed | matched | unmatched | answered | marked | closed | cleared =>
          simp at finished
  | caller _ _ moves => exact .inl (moves.reader_eq ▸ finished)
  | writer _ moves => exact .inl (by cases moves <;> exact finished)
  | failed reader => simp at finished
  | called | watched | cancelled | droppedReceiver | refused | nodeReceived | droppedClient
  | nodeSent | closed => exact .inl finished

theorem ended_of_moves {state next : State} {label : Label} (ended : Ended state)
    (moves : Moves state label next) : Ended next where
  dead := marked_of_moves moves ended
  gone finished index watching member := by
    rcases finished_of_moves moves finished with before | drained
    · have absent : index ∉ state.subscribers := by
        rcases watching_of_moves moves watching with same | alive
        · exact ended.gone before index same
        · have dead := ended.dead (by rw [before]; rfl)
          exact absurd (dead.symm.trans alive) (by decide)
      rcases registers_or_keepsStreams moves with ⟨other, registers⟩ | keeps
      · rw [registers.subscribers, List.mem_append, List.mem_singleton] at member
        rcases member with member | rfl
        · exact absent member
        · simp [registers.point_next] at watching
      · exact absent (keeps.sublist.subset member)
    · simp [drained] at member

theorem ended_of_execute {trace : List Label} {final : State}
    (reached : execute step initial trace = some final) : Ended final := by
  refine stateInvariant_of_execute Ended ⟨?_, ?_⟩ ?_ reached
  · exact fun marked => absurd marked Bool.false_ne_true
  · exact fun finished => by simp [initial] at finished
  · exact fun state label next ended stepped => ended_of_moves ended (moves_of_step stepped)

/-- A receiver that `watch_stream` returned gets exactly the events that the
reader processes from its registration on, and its sender is gone once the
reader has finished. -/
theorem delivered_of_watching {trace : List Label} {final : State}
    (reached : execute step initial trace = some final) (index : Nat)
    (watching : (final.callers index).point = .watching) :
    Follows trace final index ∧ final.subscribers.Nodup ∧
      (final.reader = .finished → index ∉ final.subscribers) := by
  have streaming := streaming_of_execute reached
  refine ⟨streaming.follows index (by rw [watching]; rfl), streaming.nodup, fun finished => ?_⟩
  exact (ended_of_execute reached).gone finished index watching

/-- The first Watch operation up to the node's acknowledgement. -/
def watchRun : List Label :=
  [.watch, .caller 0, .caller 0, .caller 0, .caller 0, .caller 0, .writer, .writer, .nodeReceive,
    .nodeSend (some ⟨1, .ok .done⟩), .reader]

/-- The event that the runs below push. -/
def ping : Msg := ⟨[7], "ping", [1], 5, none⟩

/-- The caller registers, gets one event, and the lane closes. -/
def streamRun : List Label :=
  watchRun ++ [.reader, .reader, .caller 0, .caller 0, .caller 0, .caller 0,
    .nodeSend (some ⟨0, .ok (.event ping)⟩), .reader, .reader, .close, .readerFailed,
    .reader, .reader, .reader, .reader]

theorem delivered_of_watching_streamRun :
    let final := (execute step initial streamRun).get (by decide)
    (final.callers 0).inbox = [ping] ∧ Follows streamRun final 0 ∧ 0 ∉ final.subscribers := by
  intro final
  have reached : execute step initial streamRun = some final := (Option.some_get _).symm
  obtain ⟨follows, -, ended⟩ := delivered_of_watching reached 0 rfl
  exact ⟨rfl, follows, ended rfl⟩

end CeRs.Lane
