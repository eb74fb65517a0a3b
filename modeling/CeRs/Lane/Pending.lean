import CeRs.Lane.Frames
import CeRs.Transition
import Mathlib.Data.List.Nodup

/-!
# The pending map

Every operation allocates one id and puts one sender into the pending map under
it.  As long as the sender is there, its caller has not returned and its oneshot
is empty; the sender leaves the map when the reader takes it for an answer, when
its caller withdraws it, or when the map is drained.
-/

namespace CeRs.Lane

open Transition

/-- How far a call has come: before its id, before its sender, with its sender
handed over, and past its operation. -/
def Point.phase : Point → Nat
  | .idle | .watchChecking | .checking _ | .allocating _ => 0
  | .inserting _ _ => 1
  | .sending _ _ | .withdrawing _ | .awaiting _ | .cancelled => 2
  | .returned _ | .marking | .registering | .confirming | .watching | .refused => 3

/-- The id of the operation that is under way. -/
def Point.id? : Point → Option UInt64
  | .inserting _ id | .sending _ id | .withdrawing id | .awaiting id => some id
  | _ => none

/-- The caller and the id that a step allocates. -/
def allocated (state : State) : Label → List (Nat × UInt64)
  | .caller index =>
      match (state.callers index).point with
      | .allocating _ => [(index, state.nextId)]
      | _ => []
  | _ => []

/-- The ids that a run allocates. -/
def allocations (trace : List Label) : List (Nat × UInt64) :=
  emitted step allocated initial trace

@[simp] theorem resume_phase (watch : Bool) (answer : Option Answer) :
    (resume watch answer).phase = 3 :=
  resume_induction (motive := fun point => point.phase = 3) rfl rfl (fun _ => rfl) watch
    answer

@[simp] theorem resume_id? (watch : Bool) (answer : Option Answer) :
    (resume watch answer).id? = none :=
  resume_induction (motive := fun point => point.id? = none) rfl rfl (fun _ => rfl) watch
    answer

theorem Point.phase_le_three (point : Point) : point.phase ≤ 3 := by
  cases point <;> simp [Point.phase]

namespace CallerMoves

variable {state next : State} {index : Nat}

theorem phase_le (moves : CallerMoves state index next) (other : Nat) :
    (state.callers other).point.phase ≤ (next.callers other).point.phase := by
  by_cases same : other = index
  · subst same
    cases moves with
    | foundDead | withdrawn | answered | orphaned =>
        simp only [moveTo_callers_self, resume_phase]
        exact Point.phase_le_three _
    | started point | notStarted point | foundAlive _ point | allocated _ point
    | inserted _ _ point | sent _ _ point | notSent _ _ point | marked point
    | registered point | raced point | confirmed point => simp [point, Point.phase]
  · rw [moves.callers_of_ne same]

theorem answer_eq (moves : CallerMoves state index next) (other : Nat) :
    (next.callers other).answer = (state.callers other).answer := by
  by_cases same : other = index
  · subst same
    cases moves <;> simp
  · rw [moves.callers_of_ne same]

theorem id?_cases (moves : CallerMoves state index next) {other : Nat} {id : UInt64}
    (own : (next.callers other).point.id? = some id) :
    (state.callers other).point.id? = some id ∨
      (other, id) ∈ CeRs.Lane.allocated state (.caller index) := by
  by_cases same : other = index
  · subst same
    cases moves with
    | allocated op point =>
        refine .inr ?_
        simpa [CeRs.Lane.allocated, point, Point.id?, eq_comm] using own
    | inserted _ _ point | sent _ _ point | notSent _ _ point =>
        exact .inl (by simpa [point, Point.id?] using own)
    | foundDead | withdrawn | answered | orphaned => simp at own
    | started | notStarted | foundAlive | marked | registered | raced | confirmed =>
        simp [Point.id?] at own
  · exact .inl (moves.callers_of_ne same ▸ own)

/-- A sender enters the map under the id of its caller. -/
theorem pending_cases (moves : CallerMoves state index next) {entry : UInt64 × Nat}
    (member : entry ∈ next.pending) :
    entry ∈ state.pending ∨
      entry.2 = index ∧ (state.callers index).point.phase = 1 ∧
        (next.callers index).point.phase = 2 ∧
        (state.callers index).point.id? = some entry.1 := by
  cases moves with
  | inserted op id point =>
      rcases List.mem_cons.mp member with rfl | member
      · exact .inr ⟨rfl, by rw [point]; rfl, by simp [Point.phase], by rw [point]; rfl⟩
      · exact .inl (List.mem_filter.mp member).1
  | withdrawn id point => exact .inl (List.mem_filter.mp member).1
  | started | notStarted | foundDead | foundAlive | allocated | sent | notSent | answered
  | orphaned | marked | registered | raced | confirmed => exact .inl member

theorem phase_of_pending (moves : CallerMoves state index next) {entry : UInt64 × Nat}
    (before : entry ∈ state.pending) (after : entry ∈ next.pending)
    (phase : (state.callers entry.2).point.phase = 2)
    (unanswered : (state.callers entry.2).answer = none)
    (own : ∀ id, (state.callers entry.2).point.id? = some id → id = entry.1) :
    (next.callers entry.2).point.phase = 2 := by
  by_cases same : entry.2 = index
  · subst same
    cases moves with
    | sent op id point | notSent op id point => simp [Point.phase]
    | withdrawn id point =>
        have key := own id (by rw [point]; rfl)
        have kept := (List.mem_filter.mp after).2
        simp [key] at kept
    | answered id answer point value =>
        rw [unanswered] at value
        simp at value
    | orphaned id point value unheld =>
        have held := senderHeld_iff.mpr (.inl ⟨entry, before, rfl⟩)
        exact absurd (held.symm.trans unheld) (by decide)
    | started point | notStarted point | foundDead _ point | foundAlive _ point
    | allocated _ point | inserted _ _ point | marked point | registered point
    | raced point | confirmed point => simp [point, Point.phase] at phase
  · rw [moves.callers_of_ne same]
    exact phase

end CallerMoves

theorem mem_allocated {state next : State} {label : Label} {index : Nat} {id : UInt64}
    (moves : Moves state label next) (member : (index, id) ∈ allocated state label) :
    label = .caller index ∧ id = state.nextId ∧ (state.callers index).point.phase = 0 ∧
      (next.callers index).point.phase = 1 ∧ allocated state label = [(index, id)] := by
  cases moves with
  | caller other _ moves =>
      simp only [allocated] at member ⊢
      split at member
      case h_1 op point =>
          obtain ⟨rfl, rfl⟩ := Prod.mk.inj (List.mem_singleton.mp member)
          refine ⟨rfl, rfl, by rw [point]; rfl, ?_, by rfl⟩
          cases moves with
          | allocated _ own => simp [Point.phase]
          | started own | notStarted own | foundDead _ own | foundAlive _ own
          | inserted _ _ own | sent _ _ own | notSent _ _ own | withdrawn _ own
          | answered _ _ own | orphaned _ own | marked own | registered own | raced own
          | confirmed own => simp [own] at point
      case h_2 => simp at member
  | called | watched | cancelled | droppedReceiver | droppedClient | writer | refused | reader
  | failed | nodeReceived | nodeSent | closed => simp [allocated] at member

theorem phase_le_of_moves {state next : State} {label : Label}
    (moves : Moves state label next) (once : OneFrame state) (index : Nat) :
    (state.callers index).point.phase ≤ (next.callers index).point.phase := by
  cases moves.place index with
  | kept _ point => rw [point]
  | moved action => exact action.phase_le index
  | cancelled id before point =>
      rw [before, point]
      exact le_rfl
  | called op fresh | watched fresh =>
      rw [once.fresh index fresh.ge]
      exact Nat.zero_le _

theorem id?_of_moves {state next : State} {label : Label} (moves : Moves state label next)
    {index : Nat} {id : UInt64} (own : (next.callers index).point.id? = some id) :
    (state.callers index).point.id? = some id ∨ (index, id) ∈ allocated state label := by
  cases moves.place index with
  | kept _ point => exact .inl (point ▸ own)
  | moved action => exact action.id?_cases own
  | cancelled _ _ point => simp [point, Point.id?] at own
  | called op fresh place | watched fresh place => simp [place, newCaller, Point.id?] at own

/-- Only the reader puts a value into a oneshot, the one it holds. -/
theorem answer_of_moves {state next : State} {label : Label} (moves : Moves state label next)
    (fresh : (state.callers state.total).answer = none) (index : Nat) :
    (next.callers index).answer = (state.callers index).answer ∨
      ∃ answer, label = .reader ∧ state.reader = .answering index answer ∧
        (next.callers index).answer = some answer := by
  have started (watch : Bool) (point : Point) :
      (Function.update state.callers state.total (newCaller watch point) index).answer =
        (state.callers index).answer := by
    by_cases same : index = state.total
    · simp [same, fresh, newCaller]
    · simp [same]
  cases moves with
  | reader _ moves =>
      cases moves with
      | pushed id message reader =>
          obtain ⟨inbox, kept⟩ := deliver_callers state message index
          exact .inl (by simp [kept])
      | answered caller answer reader =>
          by_cases same : index = caller
          · subst same
            exact .inr ⟨answer, rfl, reader, by simp⟩
          · exact .inl (by simp [same])
      | took | garbled | matched | unmatched | marked | closed | cleared | ended =>
          exact .inl rfl
  | caller _ _ moves => exact .inl (moves.answer_eq index)
  | writer _ moves => exact .inl (by cases moves <;> rfl)
  | called op => exact .inl (started false (.checking op))
  | watched => exact .inl (started true .watchChecking)
  | cancelled other id point =>
      by_cases same : index = other
      · exact .inl (by simp [same])
      · exact .inl (by simp [same])
  | droppedReceiver other point =>
      by_cases same : index = other
      · exact .inl (by simp [same])
      · exact .inl (by simp [same])
  | refused | nodeReceived | droppedClient | failed | nodeSent | closed => exact .inl rfl

theorem answering_of_moves {state next : State} {label : Label}
    (moves : Moves state label next) {index : Nat} {answer : Answer}
    (answering : next.reader = .answering index answer) :
    (state.reader = .answering index answer ∧ label ≠ .reader) ∨
      ∃ response entry, label = .reader ∧ state.reader = .routing response ∧
        (∀ message, response.result ≠ .ok (.event message)) ∧
        state.pending.find? (fun entry => entry.1 == response.id) = some entry ∧
        entry.2 = index ∧ response.result = answer ∧
        next.pending = state.pending.filter (fun other => other.1 != response.id) := by
  cases moves with
  | reader _ moves =>
      cases moves with
      | matched response entry reader notEvent found =>
          obtain ⟨rfl, rfl⟩ := Reader.answering.inj answering
          exact .inr ⟨response, entry, rfl, reader, notEvent, found, rfl, rfl, rfl⟩
      | took | garbled | pushed | unmatched | answered | marked | closed | cleared | ended =>
          simp at answering
  | caller _ _ moves => exact .inl ⟨moves.reader_eq ▸ answering, by simp⟩
  | writer _ moves => exact .inl ⟨by cases moves <;> exact answering, by simp⟩
  | failed reader => simp at answering
  | called | watched | cancelled | droppedReceiver | refused | nodeReceived | droppedClient
  | nodeSent | closed => exact .inl ⟨answering, by simp⟩

/-- What holds of the ids, the senders and the oneshots after a run. -/
structure Accounted (trace : List Label) (state : State) : Prop where
  reached : execute step initial trace = some state
  once : OneFrame state
  early : ∀ index, (state.callers index).point.phase = 0 →
    index ∉ (allocations trace).map Prod.fst
  own : ∀ index id, (state.callers index).point.id? = some id →
    (index, id) ∈ allocations trace
  nodup : ((allocations trace).map Prod.fst).Nodup
  pending : ∀ entry ∈ state.pending, (entry.2, entry.1) ∈ allocations trace ∧
    (state.callers entry.2).point.phase = 2 ∧ (state.callers entry.2).answer = none
  answering : ∀ index answer, state.reader = .answering index answer →
    2 ≤ (state.callers index).point.phase ∧ ∀ entry ∈ state.pending, entry.2 ≠ index
  blank : ∀ index, (state.callers index).point.phase < 2 → (state.callers index).answer = none

namespace Accounted

variable {trace : List Label} {state next : State} {label : Label}

theorem id_unique (accounted : Accounted trace state) {index : Nat} {first second : UInt64}
    (one : (index, first) ∈ allocations trace) (other : (index, second) ∈ allocations trace) :
    first = second :=
  (Prod.mk.inj (List.inj_on_of_nodup_map accounted.nodup one other rfl)).2

theorem fresh (accounted : Accounted trace state) :
    (state.callers state.total).answer = none :=
  accounted.blank _ (by rw [accounted.once.fresh _ le_rfl]; exact Nat.zero_lt_two)

theorem allocations_concat (accounted : Accounted trace state) (label : Label) :
    allocations (trace ++ [label]) = allocations trace ++ allocated state label :=
  emitted_concat accounted.reached

theorem pending_cases (accounted : Accounted trace state) (moves : Moves state label next)
    {entry : UInt64 × Nat} (member : entry ∈ next.pending) :
    (entry ∈ state.pending ∧ (next.callers entry.2).point.phase = 2) ∨
      ((state.callers entry.2).point.phase = 1 ∧ (next.callers entry.2).point.phase = 2 ∧
        (state.callers entry.2).point.id? = some entry.1) := by
  have stays (before : entry ∈ state.pending)
      (same : (next.callers entry.2).point = (state.callers entry.2).point) :
      (entry ∈ state.pending ∧ (next.callers entry.2).point.phase = 2) ∨
        ((state.callers entry.2).point.phase = 1 ∧ (next.callers entry.2).point.phase = 2 ∧
          (state.callers entry.2).point.id? = some entry.1) :=
    .inl ⟨before, same ▸ (accounted.pending entry before).2.1⟩
  have known (before : entry ∈ state.pending) : entry.2 ≠ state.total := by
    intro same
    have phase := (accounted.pending entry before).2.1
    rw [same, accounted.once.fresh _ le_rfl] at phase
    simp [Point.phase] at phase
  cases moves with
  | caller index _ moves =>
      rcases moves.pending_cases member with before | ⟨rfl, phase, after, own⟩
      · obtain ⟨recorded, phase, unanswered⟩ := accounted.pending entry before
        exact .inl ⟨before, moves.phase_of_pending before member phase unanswered
          fun id own => accounted.id_unique (accounted.own _ id own) recorded⟩
      · exact .inr ⟨phase, after, own⟩
  | reader _ moves =>
      have before : entry ∈ state.pending := by
        cases moves with
        | matched => exact (List.mem_filter.mp member).1
        | cleared => simp at member
        | took | garbled | pushed | unmatched | answered | marked | closed | ended =>
            exact member
      exact stays before (by rw [moves.point_eq])
  | writer _ moves =>
      exact stays (by cases moves <;> exact member) (by cases moves <;> rfl)
  | called op => exact stays member (by simp [known member])
  | watched => exact stays member (by simp [known member])
  | cancelled other id point =>
      by_cases same : entry.2 = other
      · exact .inl ⟨member, by simp [same, Point.phase]⟩
      · exact stays member (by simp [same])
  | droppedReceiver other point =>
      by_cases same : entry.2 = other
      · exact stays member (by simp [same])
      · exact stays member (by simp [same])
  | refused | nodeReceived | droppedClient | failed | nodeSent | closed => exact stays member rfl

theorem pending_of_moves (accounted : Accounted trace state) (moves : Moves state label next)
    {entry : UInt64 × Nat} (member : entry ∈ next.pending) :
    (entry.2, entry.1) ∈ allocations (trace ++ [label]) ∧
      (next.callers entry.2).point.phase = 2 ∧ (next.callers entry.2).answer = none := by
  have recorded : (entry.2, entry.1) ∈ allocations trace ∧
      (state.callers entry.2).answer = none ∧ (next.callers entry.2).point.phase = 2 ∧
      ∀ answer, state.reader ≠ .answering entry.2 answer := by
    rcases accounted.pending_cases moves member with ⟨before, after⟩ | ⟨phase, after, own⟩
    · obtain ⟨recorded, -, unanswered⟩ := accounted.pending entry before
      refine ⟨recorded, unanswered, after, fun answer reader => ?_⟩
      exact (accounted.answering _ _ reader).2 entry before rfl
    · refine ⟨accounted.own _ _ own, accounted.blank _ (by omega), after, fun answer reader => ?_⟩
      have posted := (accounted.answering _ _ reader).1
      omega
  obtain ⟨recorded, unanswered, phase, free⟩ := recorded
  refine ⟨?_, phase, ?_⟩
  · rw [accounted.allocations_concat]
    exact List.mem_append_left _ recorded
  · rcases answer_of_moves moves accounted.fresh entry.2 with same | ⟨answer, -, reader, -⟩
    · exact same.trans unanswered
    · exact absurd reader (free answer)

theorem answering_of_moves (accounted : Accounted trace state) (moves : Moves state label next)
    {index : Nat} {answer : Answer} (answering : next.reader = .answering index answer) :
    2 ≤ (next.callers index).point.phase ∧ ∀ entry ∈ next.pending, entry.2 ≠ index := by
  have later := phase_le_of_moves moves accounted.once index
  rcases CeRs.Lane.answering_of_moves moves answering with ⟨before, -⟩ |
    ⟨response, taken, -, -, -, found, rfl, -, pending⟩
  · obtain ⟨posted, free⟩ := accounted.answering index answer before
    refine ⟨posted.trans later, fun entry member => ?_⟩
    rcases accounted.pending_cases moves member with ⟨old, -⟩ | ⟨phase, -, -⟩
    · exact free entry old
    · rintro rfl
      omega
  · have member := List.mem_of_find?_eq_some found
    have key : taken.1 = response.id := by simpa using List.find?_some found
    obtain ⟨recorded, phase, -⟩ := accounted.pending taken member
    refine ⟨phase.ge.trans later, fun entry left same => ?_⟩
    rw [pending, List.mem_filter] at left
    have other := (accounted.pending entry left.1).1
    rw [same] at other
    have equal := accounted.id_unique other recorded
    simp [equal, key] at left

end Accounted

theorem accounted_initial : Accounted [] initial where
  reached := rfl
  once := oneFrame_initial
  early _ _ := List.not_mem_nil
  own _ _ own := by simp [initial, newCaller, Point.id?] at own
  nodup := List.nodup_nil
  pending _ member := by simp [initial] at member
  answering _ _ reader := by simp [initial] at reader
  blank _ _ := rfl

theorem Accounted.of_moves {trace : List Label} {state next : State} {label : Label}
    (accounted : Accounted trace state) (stepped : step state label = some next) :
    Accounted (trace ++ [label]) next := by
  have moves := moves_of_step stepped
  have grows := accounted.allocations_concat label
  have later := phase_le_of_moves moves accounted.once
  constructor
  case reached => exact execute_concat_eq_some.mpr ⟨state, accounted.reached, stepped⟩
  case once => exact oneFrame_of_moves accounted.once moves
  case early =>
    intro index phase member
    have before := later index
    rw [grows, List.map_append, List.mem_append] at member
    rcases member with member | member
    · exact accounted.early index (by omega) member
    · obtain ⟨⟨owner, id⟩, new, same⟩ := List.mem_map.mp member
      obtain rfl : owner = index := same
      have after := (mem_allocated moves new).2.2.2.1
      omega
  case own =>
    intro index id own
    rw [grows, List.mem_append]
    exact (id?_of_moves moves own).imp (accounted.own index id) fun member => member
  case nodup =>
    rw [grows, List.map_append, List.nodup_append]
    cases new : allocated state label with
    | nil => simpa using accounted.nodup
    | cons entry rest =>
        have present : (entry.1, entry.2) ∈ allocated state label := by rw [new]; simp
        obtain ⟨-, -, phase, -, only⟩ := mem_allocated moves present
        obtain rfl : rest = [] := by
          rw [new] at only
          exact (List.cons.inj only).2
        refine ⟨accounted.nodup, List.pairwise_singleton _ _, fun index old other isNew same => ?_⟩
        obtain rfl := List.mem_singleton.mp isNew
        exact accounted.early entry.1 phase (same ▸ old)
  case pending => exact fun entry member => accounted.pending_of_moves moves member
  case answering => exact fun index answer => accounted.answering_of_moves moves
  case blank =>
    intro index phase
    have before := later index
    rcases answer_of_moves moves accounted.fresh index with same | ⟨answer, -, reader, -⟩
    · exact same.trans (accounted.blank index (by omega))
    · have posted := (accounted.answering index answer reader).1
      omega

theorem accounted_of_execute {trace : List Label} {final : State}
    (reached : execute step initial trace = some final) : Accounted trace final :=
  invariant_of_execute Accounted accounted_initial
    (fun _ _ _ _ accounted stepped => accounted.of_moves stepped) reached

end CeRs.Lane
