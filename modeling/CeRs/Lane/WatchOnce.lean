import CeRs.Lane.Pending

/-!
# Starting the watch once

`watch_stream` reads the started marker, asks the node for a watch if it is
unset, and sets the marker once the node has accepted.  Callers that read the
marker in between ask again.  The watch is asked for once in the runs in which
no caller finds the marker unset while another one is asking.
-/

namespace CeRs.Lane

open Transition

/-- The caller goes on to send its request, unless it finds the lane dead. -/
def Point.asking (dead : Bool) : Point → Bool
  | .checking _ => !dead
  | .allocating _ | .inserting _ _ | .sending _ _ => true
  | _ => false

/-- The call asks the node for a watch, or may still do so. -/
def Point.asksWatch : Point → Bool
  | .watchChecking => true
  | .checking op | .allocating op | .inserting op _ | .sending op _ => op == .watch
  | _ => false

/-- The node has accepted the caller's operation. -/
def Caller.accepted (caller : Caller) : Bool :=
  match caller.answer with
  | some (.ok _) => true
  | _ => false

/-- The operation is pending or was accepted. -/
def State.outstanding (state : State) (index : Nat) : Bool :=
  state.senderHeld index || (state.callers index).accepted

/-- A caller of `watch_stream` is about to ask for a watch. -/
def State.asking (state : State) (index : Nat) : Bool :=
  (state.callers index).watch && (state.callers index).point.asking state.dead

/-- A caller of `watch_stream` is about to ask for a watch, has one pending, or
has got one. -/
def State.engaged (state : State) (index : Nat) : Bool :=
  state.asking index || (state.callers index).watch && state.outstanding index

/-- The caller that finds the marker unset while the lane is not dead. -/
def unmarked (state : State) : Label → List Nat
  | .caller index =>
      match (state.callers index).point with
      | .watchChecking => if state.watchStarted || state.dead then [] else [index]
      | _ => []
  | _ => []

/-- The caller whose watch is put into the channel. -/
def watchSent (state : State) : Label → List Nat
  | .caller index =>
      match (state.callers index).point with
      | .sending .watch _ => if state.receiverAlive then [index] else []
      | _ => []
  | _ => []

/-- The callers whose watches a run puts into the channel. -/
def watchesSent (trace : List Label) : List Nat :=
  emitted step watchSent initial trace

/-- No watch is sent while one that was sent before is pending or accepted. -/
def WatchedOnce (trace : List Label) : Prop :=
  ∀ before label after state, trace = before ++ label :: after →
    execute step initial before = some state → watchSent state label ≠ [] →
      ∀ other ∈ watchesSent before, state.outstanding other = false

/-- A caller that finds the marker unset is the only one that asks. -/
def Unraced (state : State) (label : Label) : Prop :=
  ∀ index ∈ unmarked state label, ∀ other < state.total, other ≠ index →
    state.engaged other = false

instance (state : State) (label : Label) : Decidable (Unraced state label) :=
  inferInstanceAs (Decidable (∀ index ∈ unmarked state label, ∀ other < state.total,
    other ≠ index → state.engaged other = false))

theorem mem_unmarked {state : State} {label : Label} {index : Nat} :
    index ∈ unmarked state label ↔
      label = .caller index ∧ (state.callers index).point = .watchChecking ∧
        state.watchStarted = false ∧ state.dead = false := by
  constructor
  · intro member
    cases label with
    | caller caller =>
        simp only [unmarked] at member
        split at member
        case h_1 point =>
            split at member
            case isTrue => simp at member
            case isFalse unset =>
                obtain rfl := List.mem_singleton.mp member
                exact ⟨rfl, point, by simpa using unset⟩
        case h_2 => simp at member
    | _ => simp [unmarked] at member
  · rintro ⟨rfl, point, unset, alive⟩
    simp [unmarked, point, unset, alive]

theorem mem_watchSent {state : State} {label : Label} {index : Nat}
    (member : index ∈ watchSent state label) :
    label = .caller index ∧ (∃ id, (state.callers index).point = .sending .watch id) ∧
      state.receiverAlive = true := by
  cases label with
  | caller caller =>
      simp only [watchSent] at member
      split at member
      case h_1 id point =>
          split at member
          case isTrue alive =>
              obtain rfl := List.mem_singleton.mp member
              exact ⟨rfl, ⟨id, point⟩, alive⟩
          case isFalse => simp at member
      case h_2 => simp at member
  | _ => simp [watchSent] at member

theorem Point.asking_of_dead {point : Point} {before after : Bool}
    (dead : before = true → after = true) (asking : point.asking after = true) :
    point.asking before = true := by
  cases point with
  | checking op =>
      simp only [Point.asking, Bool.not_eq_true', Bool.eq_false_iff] at asking ⊢
      exact fun already => asking (dead already)
  | allocating | inserting | sending => rfl
  | _ => simp [Point.asking] at asking

@[simp] theorem resume_asking (watch dead : Bool) (answer : Option Answer) :
    (resume watch answer).asking dead = false :=
  resume_induction (motive := fun point => point.asking dead = false) rfl rfl (fun _ => rfl) watch
    answer

@[simp] theorem resume_asksWatch (watch : Bool) (answer : Option Answer) :
    (resume watch answer).asksWatch = false :=
  resume_induction (motive := fun point => point.asksWatch = false) rfl rfl (fun _ => rfl) watch
    answer

namespace CallerMoves

variable {state next : State} {index : Nat}

/-- A caller that starts to ask has just found the marker unset. -/
theorem asking_cases (moves : CallerMoves state index next)
    (asking : (next.callers index).point.asking next.dead = true) :
    (state.callers index).point.asking state.dead = true ∨
      index ∈ unmarked state (.caller index) := by
  cases moves with
  | notStarted point started =>
      have alive : state.dead = false := by simpa [Point.asking, State.moveTo] using asking
      exact .inr (mem_unmarked.mpr ⟨rfl, point, started, alive⟩)
  | foundAlive op point alive => exact .inl (by simp [point, Point.asking, alive])
  | allocated _ point | inserted _ _ point => exact .inl (by rw [point]; rfl)
  | foundDead | withdrawn | answered | orphaned => simp at asking
  | started | sent | notSent | marked | registered | raced | confirmed =>
      simp [Point.asking] at asking

theorem asksWatch_cases (moves : CallerMoves state index next)
    (asks : (next.callers index).point.asksWatch = true) :
    (state.callers index).point.asksWatch = true := by
  cases moves with
  | notStarted point => rw [point]; rfl
  | foundAlive op point | allocated op point | inserted op _ point =>
      simpa [point, Point.asksWatch] using asks
  | foundDead | withdrawn | answered | orphaned => simp at asks
  | started | sent | notSent | marked | registered | raced | confirmed =>
      simp [Point.asksWatch] at asks

end CallerMoves

theorem watch_of_moves {state next : State} {label : Label} (moves : Moves state label next)
    {index : Nat} (known : index ≠ state.total) :
    (next.callers index).watch = (state.callers index).watch := by
  cases moves.place index with
  | kept _ _ watch => exact watch
  | moved action => exact action.watch_eq index
  | cancelled _ _ _ watch => exact watch
  | called op fresh | watched fresh => exact absurd fresh known

theorem asking_iff {state : State} {index : Nat} :
    state.asking index = true ↔
      (state.callers index).watch = true ∧
        (state.callers index).point.asking state.dead = true := by
  simp [State.asking]

theorem asking_of_moves {state next : State} {label : Label} (moves : Moves state label next)
    {index : Nat} (asking : next.asking index = true) :
    state.asking index = true ∨ index ∈ unmarked state label := by
  obtain ⟨watch, asks⟩ := asking_iff.mp asking
  cases moves.place index with
  | kept _ point same =>
      rw [point] at asks
      rw [same] at watch
      exact .inl (asking_iff.mpr ⟨watch, Point.asking_of_dead (dead_of_moves moves) asks⟩)
  | moved action =>
      rw [action.watch_eq] at watch
      exact (action.asking_cases asks).imp_left fun before => asking_iff.mpr ⟨watch, before⟩
  | cancelled id before point => simp [point, Point.asking] at asks
  | called op fresh place => simp [place, newCaller] at watch
  | watched fresh place => simp [place, newCaller, Point.asking] at asks

theorem asksWatch_of_moves {state next : State} {label : Label} (moves : Moves state label next)
    (noOther : label ≠ .call .watch)
    (known : ∀ index, (state.callers index).point.asksWatch = true →
      (state.callers index).watch = true)
    {index : Nat} (asks : (next.callers index).point.asksWatch = true) :
    (next.callers index).watch = true := by
  cases moves.place index with
  | kept _ point same =>
      rw [point] at asks
      exact same.trans (known index asks)
  | moved action =>
      exact (action.watch_eq index).trans (known index (action.asksWatch_cases asks))
  | cancelled id before point => simp [point, Point.asksWatch] at asks
  | called op fresh place =>
      obtain rfl : op = .watch := by simpa [place, newCaller, Point.asksWatch] using asks
      exact absurd rfl noOther
  | watched fresh place => simp [place, newCaller]

theorem unsent_of_moves {state next : State} {label : Label} (moves : Moves state label next)
    (once : OneFrame state) {index : Nat} (unsent : (next.callers index).point.unsent = true) :
    (state.callers index).point.unsent = true := by
  cases moves.place index with
  | kept _ point => exact point ▸ unsent
  | moved action =>
      rcases action.framesOf_cases with ⟨-, before⟩ | ⟨before, -⟩
      · exact before unsent
      · exact before
  | cancelled id before point => simp [point, Point.unsent] at unsent
  | called op fresh | watched fresh =>
      rw [once.fresh index fresh.ge]
      rfl

theorem OneFrame.known_of_sent {state : State} (once : OneFrame state) {index : Nat}
    (sent : (state.callers index).point.unsent = false) : index < state.total := by
  by_contra beyond
  rw [once.fresh index (Nat.le_of_not_lt beyond)] at sent
  exact absurd sent.symm Bool.false_ne_true

theorem outstanding_iff {state : State} {index : Nat} :
    state.outstanding index = true ↔
      state.senderHeld index = true ∨ (state.callers index).accepted = true := by
  simp [State.outstanding]

theorem engaged_iff {state : State} {index : Nat} :
    state.engaged index = true ↔
      state.asking index = true ∨
        (state.callers index).watch = true ∧ state.outstanding index = true := by
  simp [State.engaged]

theorem Point.asking_of_phase {point : Point} (phase : point.phase = 1) (dead : Bool) :
    point.asking dead = true := by
  cases point with
  | inserting => rfl
  | _ => simp [Point.phase] at phase

namespace Accounted

variable {trace : List Label} {state next : State} {label : Label} {index : Nat}

theorem phase_of_outstanding (accounted : Accounted trace state)
    (outstanding : state.outstanding index = true) : 2 ≤ (state.callers index).point.phase := by
  rcases outstanding_iff.mp outstanding with held | accepted
  · rcases senderHeld_iff.mp held with ⟨entry, member, rfl⟩ | ⟨answer, answering⟩
    · exact (accounted.pending entry member).2.1.ge
    · exact (accounted.answering index answer answering).1
  · by_contra early
    have none := accounted.blank index (by omega)
    simp [Caller.accepted, none] at accepted

/-- An operation is outstanding from the moment its sender is in the map. -/
theorem outstanding_of_moves (accounted : Accounted trace state) (moves : Moves state label next)
    (outstanding : next.outstanding index = true) :
    state.outstanding index = true ∨ (state.callers index).point.phase = 1 := by
  rcases outstanding_iff.mp outstanding with held | accepted
  · rcases senderHeld_iff.mp held with ⟨entry, member, rfl⟩ | ⟨answer, answering⟩
    · rcases accounted.pending_cases moves member with ⟨before, -⟩ | ⟨phase, -⟩
      · exact .inl (outstanding_iff.mpr (.inl (senderHeld_iff.mpr (.inl ⟨entry, before, rfl⟩))))
      · exact .inr phase
    · left
      refine outstanding_iff.mpr (.inl (senderHeld_iff.mpr ?_))
      rcases CeRs.Lane.answering_of_moves moves answering with ⟨before, -⟩ |
        ⟨response, entry, -, -, -, found, owner, -⟩
      · exact .inr ⟨answer, before⟩
      · exact .inl ⟨entry, List.mem_of_find?_eq_some found, owner⟩
  · left
    rcases answer_of_moves moves accounted.fresh index with same | ⟨answer, -, answering, -⟩
    · rw [Caller.accepted, same] at accepted
      exact outstanding_iff.mpr (.inr accepted)
    · exact outstanding_iff.mpr (.inl (senderHeld_iff.mpr (.inr ⟨answer, answering⟩)))

theorem engaged_of_moves (accounted : Accounted trace state) (moves : Moves state label next)
    (engaged : next.engaged index = true) :
    state.engaged index = true ∨ index ∈ unmarked state label := by
  rcases engaged_iff.mp engaged with asking | ⟨watch, outstanding⟩
  · exact (asking_of_moves moves asking).imp_left fun before => engaged_iff.mpr (.inl before)
  · left
    have known (phase : 0 < (state.callers index).point.phase) :
        (state.callers index).watch = true := by
      rw [← watch_of_moves moves ?_]
      · exact watch
      · rintro rfl
        rw [accounted.once.fresh _ le_rfl] at phase
        exact absurd phase (lt_irrefl 0)
    rcases accounted.outstanding_of_moves moves outstanding with before | phase
    · have posted := accounted.phase_of_outstanding before
      exact engaged_iff.mpr (.inr ⟨known (by omega), before⟩)
    · have asks := Point.asking_of_phase phase state.dead
      exact engaged_iff.mpr (.inl (asking_iff.mpr ⟨known (by omega), asks⟩))

theorem known_of_engaged (accounted : Accounted trace state)
    (engaged : state.engaged index = true) : index < state.total := by
  by_contra beyond
  have idle := accounted.once.fresh index (Nat.le_of_not_lt beyond)
  rcases engaged_iff.mp engaged with asking | ⟨-, outstanding⟩
  · have asks := (asking_iff.mp asking).2
    rw [idle] at asks
    exact absurd asks Bool.false_ne_true
  · have posted := accounted.phase_of_outstanding outstanding
    rw [idle] at posted
    exact absurd posted (by decide)

end Accounted

/-- What holds after a run in which no caller finds the marker unset while
another one is engaged. -/
structure Alone (trace : List Label) (state : State) : Prop where
  accounted : Accounted trace state
  asks : ∀ index, (state.callers index).point.asksWatch = true →
    (state.callers index).watch = true
  sent : ∀ index ∈ watchesSent trace, (state.callers index).watch = true ∧
    (state.callers index).point.unsent = false
  alone : ∀ index, state.asking index = true → ∀ other, other ≠ index →
    state.engaged other = false

theorem alone_initial : Alone [] initial where
  accounted := accounted_initial
  asks _ asks := by simp [initial, newCaller, Point.asksWatch] at asks
  sent _ member := absurd member List.not_mem_nil
  alone _ asking := by simp [initial, newCaller, State.asking] at asking

namespace Alone

variable {trace : List Label} {state next : State} {label : Label}

/-- The caller that sends a watch is the only one that is engaged. -/
theorem not_outstanding (holds : Alone trace state) {index : Nat}
    (member : index ∈ watchSent state label) :
    ∀ other ∈ watchesSent trace, state.outstanding other = false := by
  obtain ⟨-, ⟨id, point⟩, -⟩ := mem_watchSent member
  intro other before
  obtain ⟨watch, sent⟩ := holds.sent other before
  have different : other ≠ index := by
    rintro rfl
    rw [point] at sent
    exact absurd sent.symm Bool.false_ne_true
  have asking : state.asking index = true :=
    asking_iff.mpr ⟨holds.asks index (by rw [point]; rfl), by rw [point]; rfl⟩
  have idle := holds.alone index asking other different
  simpa [State.engaged, watch] using (Bool.or_eq_false_iff.mp idle).2

theorem of_moves (holds : Alone trace state) (noOther : label ≠ .call .watch)
    (unraced : Unraced state label) (stepped : step state label = some next) :
    Alone (trace ++ [label]) next := by
  have accounted := holds.accounted
  have moves := moves_of_step stepped
  constructor
  case accounted => exact accounted.of_moves stepped
  case asks => exact fun index => asksWatch_of_moves moves noOther holds.asks
  case sent =>
    intro index member
    rw [watchesSent, emitted_concat accounted.reached, List.mem_append] at member
    rcases member with before | now
    · obtain ⟨watch, sent⟩ := holds.sent index before
      refine ⟨(watch_of_moves moves (accounted.once.known_of_sent sent).ne).trans watch, ?_⟩
      rw [← Bool.not_eq_true] at sent ⊢
      exact fun unsent => sent (unsent_of_moves moves accounted.once unsent)
    · obtain ⟨rfl, ⟨id, point⟩, alive⟩ := mem_watchSent now
      have asks : (state.callers index).point.asksWatch = true := by rw [point]; rfl
      simp only [step, stepCaller, point, alive, if_true, Option.some.injEq] at stepped
      simp [← stepped, State.moveTo, holds.asks index asks, Point.unsent]
  case alone =>
    intro index asking other different
    rw [← Bool.not_eq_true]
    intro engaged
    rcases asking_of_moves moves asking with before | found
    · rcases accounted.engaged_of_moves moves engaged with already | found
      · exact absurd already (by simp [holds.alone index before other different])
      · have busy := engaged_iff.mpr (.inl before)
        have free := unraced other found index (accounted.known_of_engaged busy) different.symm
        exact absurd busy (by simp [free])
    · rcases accounted.engaged_of_moves moves engaged with already | again
      · have free := unraced index found other (accounted.known_of_engaged already) different
        exact absurd already (by simp [free])
      · have same := (mem_unmarked.mp found).1.symm.trans (mem_unmarked.mp again).1
        exact absurd (Label.caller.inj same).symm different

end Alone

theorem alone_of_execute {trace : List Label} {final : State}
    (fromStreams : ∀ label ∈ trace, label ≠ .call .watch)
    (every : EveryStep step Unraced initial trace)
    (reached : execute step initial trace = some final) : Alone trace final := by
  have both : EveryStep step (fun state label => label ≠ .call .watch ∧ Unraced state label)
      initial trace := by
    intro before label after state split first
    exact ⟨fromStreams label (by simp [split]), every before label after state split first⟩
  refine invariant_of_everyStep _ Alone alone_initial ?_ both reached
  rintro trace state label next holds ⟨noOther, unraced⟩ stepped
  exact holds.of_moves noOther unraced stepped

/-- In a run in which no caller of `watch_stream` finds the marker unset while
another one is about to ask for a watch, has one pending or has got one, no watch
is sent while an earlier one is pending or accepted. -/
theorem watchedOnce_of_unraced {trace : List Label}
    (fromStreams : ∀ label ∈ trace, label ≠ .call .watch)
    (every : EveryStep step Unraced initial trace) : WatchedOnce trace := by
  intro before label after state split first sent
  subst split
  obtain ⟨index, member⟩ := List.exists_mem_of_ne_nil _ sent
  have known : ∀ label ∈ before, label ≠ .call .watch := fun label member =>
    fromStreams label (List.mem_append_left _ member)
  exact (alone_of_execute known ((everyStep_append _ first).mp every).1 first).not_outstanding
    member

/-- The first caller starts the watch; the second one comes when the marker is
set, and subscribes without asking. -/
def watchedInTurn : List Label :=
  [.watch, .caller 0, .caller 0, .caller 0, .caller 0, .caller 0, .writer, .writer, .nodeReceive,
    .nodeSend (some ⟨1, .ok .done⟩), .reader, .reader, .reader, .caller 0, .caller 0,
    .watch, .caller 0, .caller 0, .caller 1, .caller 1, .caller 1]

theorem watchedOnce_of_unraced_in_turn :
    watchesSent watchedInTurn = [0] ∧
      (execute step initial watchedInTurn).map State.subscribers = some [0, 1] ∧
      WatchedOnce watchedInTurn :=
  ⟨by decide, by decide, watchedOnce_of_unraced (by simp [watchedInTurn]) (by decide)⟩

/-- Both callers read the marker before either has asked; the second is about to
send its watch when that of the first is pending. -/
def watchedAtOnce : List Label :=
  [.watch, .watch, .caller 0, .caller 1, .caller 0, .caller 0, .caller 0, .caller 0,
    .caller 1, .caller 1, .caller 1]

/-- Two watches are sent on one lane. -/
theorem watch_started_twice :
    ¬ ∀ trace, (∀ label ∈ trace, label ≠ .call .watch) → WatchedOnce trace := by
  intro claimed
  let state := (execute step initial watchedAtOnce).get (by decide)
  have reached : execute step initial watchedAtOnce = some state := (Option.some_get _).symm
  have second : watchSent state (.caller 1) = [1] := by decide
  have pending := claimed (watchedAtOnce ++ [.caller 1]) (by simp [watchedAtOnce])
    watchedAtOnce (.caller 1) [] state rfl reached (by simp [second]) 0 (by decide)
  exact absurd pending (by decide)

end CeRs.Lane
