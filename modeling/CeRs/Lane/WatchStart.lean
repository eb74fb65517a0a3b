import CeRs.Lane.Pending
import CeRs.Lane.Streams

/-!
# Events at the start of a watch

The node pushes events as soon as it has acknowledged the Watch operation, and
acknowledgement and events reach the reader thread in that order.  The reader
only wakes the caller of `watch_stream`, which puts its sender into the list of
subscribers some steps later.  An event that the reader processes in between
finds the sender missing and is dropped.
-/

namespace CeRs.Lane

open Transition

/-- The reader processes an event while the caller's sender has not yet been
registered. -/
def Early (index : Nat) (state : State) : Label → Prop
  | .reader => pushed state .reader ≠ [] ∧ (state.callers index).point.registered = false
  | _ => False

instance (index : Nat) (state : State) : DecidablePred (Early index state)
  | .reader => inferInstanceAs (Decidable (_ ∧ _))
  | .caller _ | .call _ | .watch | .cancel _ | .dropReceiver _ | .dropClient | .writer
  | .writerRefused | .readerFailed | .nodeReceive | .nodeSend _ | .close => isFalse id

theorem not_early_iff {index : Nat} {state : State} {label : Label}
    (unregistered : (state.callers index).point.registered = false) :
    ¬ Early index state label ↔ pushed state label = [] := by
  cases label with
  | reader => simp [Early, unregistered]
  | _ => simp [Early, pushed_of_ne_reader]

theorem not_early_of_registered {index : Nat} {state : State} {label : Label}
    (registered : (state.callers index).point.registered = true) :
    ¬ Early index state label := by
  cases label with
  | reader => simp [Early, registered]
  | _ => exact id

theorem registered_of_execute {state final : State} {trace : List Label} {index : Nat}
    (once : OneFrame state) (registered : (state.callers index).point.registered = true)
    (reached : execute step state trace = some final) :
    (final.callers index).point.registered = true := by
  have holds : OneFrame final ∧ (final.callers index).point.registered = true := by
    refine stateInvariant_of_execute
      (fun state => OneFrame state ∧ (state.callers index).point.registered = true)
      ⟨once, registered⟩ ?_ reached
    rintro state label next ⟨once, registered⟩ stepped
    have moves := moves_of_step stepped
    exact ⟨oneFrame_of_moves once moves, registered_of_moves moves once registered⟩
  exact holds.2

theorem registered_of_step {state next : State} {index : Nat}
    (point : (state.callers index).point = .registering)
    (stepped : step state (.caller index) = some next) :
    (next.callers index).point.registered = true := by
  simp only [step, stepCaller, point, Option.some.injEq] at stepped
  simp [← stepped, Point.registered]

theorem Point.registered_eq_false {point : Point} (phase : point.phase = 2) :
    point.registered = false := by
  cases point with
  | sending | withdrawing | awaiting | cancelled => rfl
  | _ => simp [Point.phase] at phase

/-- The caller whose answer the reader has just taken is not registered. -/
theorem unregistered_of_answering {trace : List Label} {state next : State} {index : Nat}
    {answer : Answer} (accounted : Accounted trace state)
    (stepped : step state .reader = some next)
    (answering : next.reader = .answering index answer) :
    (state.callers index).point.registered = false := by
  rcases answering_of_moves (moves_of_step stepped) answering with ⟨before, other⟩ |
    ⟨response, entry, -, -, -, found, rfl, -, -⟩
  · exact absurd rfl other
  · have member := List.mem_of_find?_eq_some found
    exact Point.registered_eq_false (accounted.pending entry member).2.1

/-- The registration comes after the acknowledgement: what happens in between is
a run of its own. -/
theorem registration_after {before after : List Label} {middle next final : State} {index : Nat}
    {answer : Answer} (reached : execute step initial before = some middle)
    (acknowledged : step middle .reader = some next)
    (answering : next.reader = .answering index answer)
    (follows : Follows (before ++ .reader :: after) final index) :
    ∃ gap rest registering registered,
      after = gap ++ .caller index :: rest ∧
      execute step next gap = some registering ∧
      (registering.callers index).point = .registering ∧
      step registering (.caller index) = some registered ∧
      ((final.callers index).receiverDropped = false →
        (final.callers index).inbox = heard registered rest) := by
  obtain ⟨early, rest, registering, registered, split, first, point, stepped, -, whole⟩ := follows
  rcases List.append_eq_append_iff.mp split with ⟨gap, rfl, tail⟩ | ⟨gap, rfl, tail⟩
  · cases gap with
    | nil => simp at tail
    | cons label gap =>
        obtain ⟨rfl, rfl⟩ := List.cons.inj tail
        rw [execute_append, reached, Option.bind_some, execute_cons, acknowledged,
          Option.bind_some] at first
        exact ⟨gap, rest, registering, registered, rfl, first, point, stepped, whole⟩
  · cases gap with
    | nil => simp at tail
    | cons label gap =>
        obtain ⟨rfl, -⟩ := List.cons.inj tail
        have accounted := accounted_of_execute reached
        have unregistered := unregistered_of_answering accounted acknowledged answering
        rw [execute_append, first, Option.bind_some, execute_cons, stepped,
          Option.bind_some] at reached
        have once := (accounted_of_execute first).once
        have there := registered_of_step point stepped
        have onceThen := oneFrame_of_moves once (moves_of_step stepped)
        have still := registered_of_execute onceThen there reached
        exact absurd (still.symm.trans unregistered) (by decide)

theorem nil_of_registrations {before gap rest : List Label} {first second registered : State}
    {index : Nat} {after : List Label} (reached : execute step initial before = some first)
    (point : (first.callers index).point = .registering)
    (stepped : step first (.caller index) = some registered)
    (split : .caller index :: after = gap ++ .caller index :: rest)
    (again : execute step initial (before ++ gap) = some second)
    (pointAgain : (second.callers index).point = .registering) : gap = [] := by
  cases gap with
  | nil => rfl
  | cons label gap =>
      obtain ⟨rfl, -⟩ := List.cons.inj split
      rw [execute_append, reached, Option.bind_some, execute_cons, stepped,
        Option.bind_some] at again
      have once := oneFrame_of_moves (accounted_of_execute reached).once (moves_of_step stepped)
      have still := registered_of_execute once (registered_of_step point stepped) again
      rw [pointAgain] at still
      exact absurd still Bool.false_ne_true

/-- What a stream that was returned has got since its registration. -/
theorem inbox_of_registration {before after : List Label} {registering registered final : State}
    {index : Nat} (reached : execute step initial before = some registering)
    (point : (registering.callers index).point = .registering)
    (stepped : step registering (.caller index) = some registered)
    (later : execute step registered after = some final)
    (watching : (final.callers index).point = .watching)
    (held : (final.callers index).receiverDropped = false) :
    (final.callers index).inbox = heard registered after := by
  have whole : execute step initial (before ++ .caller index :: after) = some final := by
    rw [execute_append, reached, Option.bind_some, execute_cons, stepped]
    exact later
  obtain ⟨other, rest, first, second, split, reachedFirst, pointFirst, steppedFirst, -, complete⟩ :=
    (streaming_of_execute whole).follows index (by rw [watching]; rfl)
  have same : before = other ∧ after = rest := by
    rcases List.append_eq_append_iff.mp split with ⟨gap, rfl, tail⟩ | ⟨gap, rfl, tail⟩
    · obtain rfl := nil_of_registrations reached point stepped tail reachedFirst pointFirst
      exact ⟨(List.append_nil _).symm, (List.cons.inj tail).2⟩
    · obtain rfl := nil_of_registrations reachedFirst pointFirst steppedFirst tail reached point
      exact ⟨List.append_nil _, (List.cons.inj tail).2.symm⟩
  obtain ⟨rfl, rfl⟩ := same
  obtain rfl := Option.some.inj (reached.symm.trans reachedFirst)
  obtain rfl := Option.some.inj (stepped.symm.trans steppedFirst)
  exact complete held

/-- Everything the node sent after the acknowledgement and the reader has dealt
with, by the order of the ring. -/
theorem sent_of_acknowledged {before after : List Label} {middle next final : State}
    {ack : NodeResp} (reached : execute step initial before = some middle)
    (reading : middle.reader = .routing ack) (acknowledged : step middle .reader = some next)
    (later : execute step next after = some final) :
    sent initial (before ++ .reader :: after) =
      dealt initial before ++ some ack :: (dealt next after ++ (final.reading ++ final.down)) := by
  have first := fifo_of_execute reached
  have second : execute step middle (.reader :: after) = some final := by
    rw [execute_cons, acknowledged]
    exact later
  have rest := fifo_of_execute second
  have dealing : dealt middle (.reader :: after) = some ack :: dealt next after := by
    simp only [dealt, emitted, acknowledged, List.map_append, routed_of_routing reading]
    rfl
  rw [dealing] at rest
  calc
    sent initial (before ++ .reader :: after) =
        sent initial before ++ sent middle (.reader :: after) := emitted_append _ reached
    _ = dealt initial before ++
          (middle.reading ++ middle.down ++ sent middle (.reader :: after)) := by
        rw [← List.append_assoc, ← first]
        rfl
    _ = _ := by rw [rest, List.cons_append]

theorem oneFrame_of_execute {state final : State} {trace : List Label} (once : OneFrame state)
    (reached : execute step state trace = some final) : OneFrame final :=
  stateInvariant_of_execute OneFrame once
    (fun _ _ _ once stepped => oneFrame_of_moves once (moves_of_step stepped)) reached

theorem everyStep_of_registered {rest : List Label} {registered : State} {index : Nat}
    (once : OneFrame registered)
    (there : (registered.callers index).point.registered = true) :
    EveryStep step (fun state label => ¬ Early index state label) registered rest := by
  intro before label after state split reached
  exact not_early_of_registered (registered_of_execute once there reached)

theorem everyStep_gap_iff {gap : List Label} {next registering : State} {index : Nat}
    (once : OneFrame next) (reached : execute step next gap = some registering)
    (point : (registering.callers index).point = .registering) :
    EveryStep step (fun state label => ¬ Early index state label) next gap ↔
      heard next gap = [] := by
  rw [heard, emitted_eq_nil_iff reached]
  have unregistered : ∀ before label after state, gap = before ++ label :: after →
      execute step next before = some state →
        (state.callers index).point.registered = false := by
    intro before label after state split first
    by_contra registered
    rw [split, execute_append, first, Option.bind_some] at reached
    have there := registered_of_execute (oneFrame_of_execute once first)
      (Bool.not_eq_false _ ▸ registered) reached
    rw [point] at there
    exact absurd there Bool.false_ne_true
  constructor
  · intro every before label after state split first
    exact (not_early_iff (unregistered before label after state split first)).mp
      (every before label after state split first)
  · intro every before label after state split first
    exact (not_early_iff (unregistered before label after state split first)).mpr
      (every before label after state split first)

/-- The stream of a caller that has started the watch itself is complete since
the acknowledgement, in a run up to any state in which the receiver is held,
exactly if no event was processed before its registration. -/
theorem delivered_since_acknowledged_iff {before after : List Label} {middle next final : State}
    {ack : NodeResp} {index : Nat} (reached : execute step initial before = some middle)
    (reading : middle.reader = .routing ack) (acknowledged : step middle .reader = some next)
    (answering : next.reader = .answering index ack.result)
    (later : execute step next after = some final)
    (watching : (final.callers index).point = .watching)
    (held : (final.callers index).receiverDropped = false) :
    sent initial (before ++ .reader :: after) =
        dealt initial before ++ some ack :: (dealt next after ++ (final.reading ++ final.down)) ∧
      ((final.callers index).inbox = heard next after ↔
        EveryStep step (fun state label => ¬ Early index state label) next after) := by
  refine ⟨sent_of_acknowledged reached reading acknowledged later, ?_⟩
  have whole : execute step initial (before ++ .reader :: after) = some final := by
    rw [execute_append, reached, Option.bind_some, execute_cons, acknowledged]
    exact later
  have follows := (streaming_of_execute whole).follows index (by rw [watching]; rfl)
  obtain ⟨gap, rest, registering, registered, rfl, first, point, stepped, inbox⟩ :=
    registration_after reached acknowledged answering follows
  have once : OneFrame next :=
    oneFrame_of_moves (accounted_of_execute reached).once (moves_of_step acknowledged)
  have onceHere := oneFrame_of_execute once first
  have missed : heard next (gap ++ .caller index :: rest) =
      heard next gap ++ (final.callers index).inbox := by
    rw [inbox held]
    simp only [heard]
    rw [emitted_append _ first, emitted, stepped, pushed_of_ne_reader (by simp)]
    rfl
  have later : EveryStep step (fun state label => ¬ Early index state label) registering
      (.caller index :: rest) := by
    rw [everyStep_cons]
    refine ⟨id, fun other there => ?_⟩
    obtain rfl := Option.some.inj (stepped.symm.trans there)
    exact everyStep_of_registered (oneFrame_of_moves onceHere (moves_of_step stepped))
      (registered_of_step point stepped)
  rw [everyStep_append _ first, everyStep_gap_iff once first point, missed]
  constructor
  · intro same
    exact ⟨List.self_eq_append_left.mp same, later⟩
  · rintro ⟨none, -⟩
    rw [none, List.nil_append]

/-- The caller registers before the node pushes its first event. -/
def punctualRest : List Label :=
  [.reader, .caller 0, .caller 0, .caller 0, .caller 0,
    .nodeSend (some ⟨0, .ok (.event ping)⟩), .reader, .reader]

theorem delivered_since_acknowledged_punctual :
    let middle := (execute step initial watchRun).get (by decide)
    let next := (step middle .reader).get (by decide)
    let final := (execute step next punctualRest).get (by decide)
    (final.callers 0).inbox = [ping] ∧ (final.callers 0).inbox = heard next punctualRest ∧
      EveryStep step (fun state label => ¬ Early 0 state label) next punctualRest := by
  intro middle next final
  have reached : execute step initial watchRun = some middle := (Option.some_get _).symm
  have acknowledged : step middle .reader = some next := (Option.some_get _).symm
  have later : execute step next punctualRest = some final := (Option.some_get _).symm
  have answering : next.reader = .answering 0 (NodeResp.mk 1 (.ok .done)).result := rfl
  have watching : (final.callers 0).point = .watching := rfl
  have delivered : (final.callers 0).inbox = heard next punctualRest := rfl
  obtain ⟨-, complete⟩ :=
    delivered_since_acknowledged_iff reached rfl acknowledged answering later watching rfl
  exact ⟨rfl, delivered, complete.mp delivered⟩

/-- The node pushes an event right behind its acknowledgement, and the reader
processes both before the caller runs again. -/
def hastyRest : List Label :=
  [.nodeSend (some ⟨0, .ok (.event ping)⟩), .reader, .reader, .reader,
    .caller 0, .caller 0, .caller 0, .caller 0]

/-- The event is lost. -/
theorem event_lost_at_watch_start :
    ¬ ∀ before after middle next final ack index,
      execute step initial before = some middle → middle.reader = .routing ack →
      step middle .reader = some next → next.reader = .answering index ack.result →
      execute step next after = some final → (final.callers index).point = .watching →
      (final.callers index).receiverDropped = false →
        (final.callers index).inbox = heard next after := by
  intro claimed
  let middle := (execute step initial watchRun).get (by decide)
  let next := (step middle .reader).get (by decide)
  let final := (execute step next hastyRest).get (by decide)
  have delivered : (final.callers 0).inbox = heard next hastyRest :=
    claimed watchRun hastyRest middle next final ⟨1, .ok .done⟩ 0 (Option.some_get _).symm rfl
      (Option.some_get _).symm rfl (Option.some_get _).symm rfl rfl
  have nothing : (final.callers 0).inbox = [] := rfl
  have pushed : heard next hastyRest = [ping] := rfl
  simp [nothing, pushed] at delivered

end CeRs.Lane
