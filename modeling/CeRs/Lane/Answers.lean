import CeRs.Lane.Pending
import CeRs.Lane.Routed

/-!
# Answers on the lane

The reader matches a response with the sender that is pending under its id, and
an id belongs to one caller as long as the counter has not wrapped.  If the
node's responses carry the id of the request they answer, an operation therefore
resolves only to a response that was given to it.
-/

namespace CeRs.Lane

open Transition

/-- The frames that the reader deals with in a run, each with the caller that
it was matched with. -/
def routings (trace : List Label) : List Routed :=
  emitted step routed initial trace

/-- The response at a position of what the reader has dealt with is the one that
the caller's operation was completed with. -/
def Completes (trace : List Label) (position : Nat) (response : NodeResp) (index : Nat) : Prop :=
  (routings trace)[position]? = some ⟨some response, some index⟩

/-- The node answers by id: `gave` says which caller's request the response at
a position of what it has sent answers, and the node has received that request
under the id that the response carries. -/
def AnswersById (gave : Nat → Nat) (sent : List (Option NodeResp)) (received : List Frame) :
    Prop :=
  ∀ position response, sent[position]? = some (some response) →
    (∀ message, response.result ≠ .ok (.event message)) →
      ∃ frame ∈ received, frame.caller = gave position ∧ frame.request.id = response.id

/-- What holds of ids, frames and answers after a run. -/
structure Matched (trace : List Label) (state : State) : Prop where
  accounted : Accounted trace state
  numbered : ∀ position entry, (allocations trace)[position]? = some entry →
    entry.2 = UInt64.ofNat (position + 1)
  nextId : state.nextId = UInt64.ofNat ((allocations trace).length + 1)
  frames : ∀ frame ∈ state.frames, (frame.caller, frame.request.id) ∈ allocations trace
  routings : ∀ position response index, Completes trace position response index →
    (index, response.id) ∈ allocations trace ∧
      ∀ message, response.result ≠ .ok (.event message)
  answering : ∀ index answer, state.reader = .answering index answer →
    (state.callers index).answer = none ∧
      ∃ position id, Completes trace position ⟨id, answer⟩ index
  answered : ∀ index answer, (state.callers index).answer = some answer →
    ∃ position id, Completes trace position ⟨id, answer⟩ index
  returned : ∀ index answer, (state.callers index).point = .returned (some answer) →
    (state.callers index).answer = some answer

theorem mem_routed {state : State} {label : Label} {response : NodeResp} {index : Nat}
    (member : ⟨some response, some index⟩ ∈ routed state label) :
    (∀ message, response.result ≠ .ok (.event message)) ∧
      ∃ entry ∈ state.pending, entry.1 = response.id ∧ entry.2 = index := by
  cases label with
  | reader =>
      simp only [routed] at member
      split at member
      case h_1 =>
          split at member
          · simp at member
          · split at member <;> simp at member
      case h_2 taken reader =>
          split at member
          case h_1 => simp at member
          case h_2 notEvent =>
              simp only [List.mem_singleton, Routed.mk.injEq, Option.some.injEq] at member
              obtain ⟨rfl, same⟩ := member
              obtain ⟨entry, found, rfl⟩ := Option.map_eq_some_iff.mp same.symm
              refine ⟨fun message => notEvent message, entry, List.mem_of_find?_eq_some found,
                ?_, rfl⟩
              simpa using List.find?_some found
      case h_3 => simp at member
  | _ => simp [routed] at member

theorem nextId_of_moves {state next : State} {label : Label} (moves : Moves state label next) :
    next.nextId = state.nextId + UInt64.ofNat (allocated state label).length := by
  cases moves with
  | caller index _ moves =>
      cases moves with
      | allocated op point => simp [CeRs.Lane.allocated, point]
      | started own | notStarted own | foundDead _ own | foundAlive _ own
      | inserted _ _ own | sent _ _ own | notSent _ _ own | withdrawn _ own
      | answered _ _ own | orphaned _ own | marked own | registered own | raced own
      | confirmed own => simp [CeRs.Lane.allocated, own, State.moveTo]
  | writer _ moves => cases moves <;> simp [allocated]
  | reader _ moves => cases moves <;> simp [allocated, deliver]
  | called | watched | cancelled | droppedReceiver | droppedClient | refused | failed
  | nodeReceived | nodeSent | closed => simp [allocated, State.moveTo]

/-- An operation returns what its oneshot holds. -/
theorem returned_cases {state next : State} {label : Label} (moves : Moves state label next)
    {index : Nat} {answer : Answer}
    (returned : (next.callers index).point = .returned (some answer)) :
    (state.callers index).point = .returned (some answer) ∨
      (state.callers index).answer = some answer := by
  have started (watch : Bool) (point : Point) (other : point ≠ .returned (some answer))
      (now : (Function.update state.callers state.total (newCaller watch point)
        index).point = .returned (some answer)) :
      (state.callers index).point = .returned (some answer) := by
    by_cases same : index = state.total
    · simp [same, newCaller, other] at now
    · simpa [same] using now
  cases moves with
  | caller other _ moves =>
      by_cases same : index = other
      · subst same
        cases moves with
        | answered id value point held =>
            simp only [moveTo_callers_self, resume] at returned
            split at returned
            · split at returned <;> simp at returned
            · obtain rfl := Option.some.inj (Point.returned.inj returned)
              exact .inr held
        | foundDead | withdrawn | orphaned =>
            simp only [moveTo_callers_self, resume] at returned
            split at returned <;> simp at returned
        | started | notStarted | foundAlive | allocated | inserted | sent | notSent | marked
        | registered | raced | confirmed => simp at returned
      · exact .inl (moves.callers_of_ne same ▸ returned)
  | reader _ moves => exact .inl (moves.point_eq index ▸ returned)
  | writer _ moves => exact .inl (by cases moves <;> exact returned)
  | called op => exact .inl (started false (.checking op) (by simp) returned)
  | watched => exact .inl (started true .watchChecking (by simp) returned)
  | cancelled other id point =>
      by_cases same : index = other
      · simp [same] at returned
      · exact .inl (by simpa [same] using returned)
  | droppedReceiver other point =>
      by_cases same : index = other
      · exact .inl (by simpa [same] using returned)
      · exact .inl (by simpa [same] using returned)
  | refused | nodeReceived | droppedClient | failed | nodeSent | closed => exact .inl returned

theorem Completes.concat {trace : List Label} {state : State} {position : Nat}
    {response : NodeResp} {index : Nat} (completes : Completes trace position response index)
    (reached : execute step initial trace = some state) (label : Label) :
    Completes (trace ++ [label]) position response index := by
  unfold Completes routings at completes ⊢
  rw [emitted_concat reached, List.getElem?_append_left]
  · exact completes
  · exact (List.getElem?_eq_some_iff.mp completes).1

theorem completes_concat {trace : List Label} {state : State} {label : Label}
    {response : NodeResp} {index : Nat} (reached : execute step initial trace = some state)
    (new : routed state label = [⟨some response, some index⟩]) :
    Completes (trace ++ [label]) (routings trace).length response index := by
  unfold Completes routings
  rw [emitted_concat reached, new, List.getElem?_append_right le_rfl, Nat.sub_self]
  rfl

theorem matched_initial : Matched [] initial where
  accounted := accounted_initial
  numbered _ _ found := by simp [allocations, emitted] at found
  nextId := rfl
  frames _ member := by simp [initial, State.frames, Writer.held] at member
  routings _ _ _ completes := by simp [Completes, CeRs.Lane.routings, emitted] at completes
  answering _ _ reader := by simp [initial] at reader
  answered _ _ answer := by simp [initial, newCaller] at answer
  returned _ _ point := by simp [initial, newCaller] at point

namespace Matched

variable {trace : List Label} {state next : State} {label : Label}

theorem numbered_of_moves (holds : Matched trace state) (moves : Moves state label next)
    {position : Nat} {entry : Nat × UInt64}
    (found : (allocations (trace ++ [label]))[position]? = some entry) :
    entry.2 = UInt64.ofNat (position + 1) := by
  rw [holds.accounted.allocations_concat, List.getElem?_append] at found
  split at found
  · exact holds.numbered position entry found
  · have member := List.mem_of_getElem? found
    obtain ⟨-, id, -, -, only⟩ := mem_allocated moves member
    rw [only] at found
    have first : position - (allocations trace).length = 0 := by
      have bound := (List.getElem?_eq_some_iff.mp found).1
      simpa using bound
    rw [id, holds.nextId]
    congr 1
    omega

theorem routings_of_moves (holds : Matched trace state) {position : Nat} {response : NodeResp}
    {index : Nat} (completes : Completes (trace ++ [label]) position response index) :
    (index, response.id) ∈ allocations (trace ++ [label]) ∧
      ∀ message, response.result ≠ .ok (.event message) := by
  rw [holds.accounted.allocations_concat]
  unfold Completes CeRs.Lane.routings at completes
  rw [emitted_concat holds.accounted.reached, List.getElem?_append] at completes
  split at completes
  · obtain ⟨recorded, notEvent⟩ := holds.routings position response index completes
    exact ⟨List.mem_append_left _ recorded, notEvent⟩
  · obtain ⟨notEvent, entry, member, key, rfl⟩ := mem_routed (List.mem_of_getElem? completes)
    have recorded := (holds.accounted.pending entry member).1
    exact ⟨List.mem_append_left _ (key ▸ recorded), notEvent⟩

theorem answering_of_moves (holds : Matched trace state) (moves : Moves state label next)
    {index : Nat} {answer : Answer} (answering : next.reader = .answering index answer) :
    (next.callers index).answer = none ∧
      ∃ position id, Completes (trace ++ [label]) position ⟨id, answer⟩ index := by
  rcases CeRs.Lane.answering_of_moves moves answering with ⟨before, other⟩ |
    ⟨response, entry, rfl, reader, notEvent, found, rfl, rfl, -⟩
  · obtain ⟨empty, position, id, completes⟩ := holds.answering index answer before
    refine ⟨?_, position, id, completes.concat holds.accounted.reached label⟩
    rcases answer_of_moves moves holds.accounted.fresh index with same | ⟨_, own, -, -⟩
    · exact same.trans empty
    · exact absurd own other
  · have member := List.mem_of_find?_eq_some found
    have empty := (holds.accounted.pending entry member).2.2
    refine ⟨?_, _, response.id, completes_concat holds.accounted.reached ?_⟩
    · rcases answer_of_moves moves holds.accounted.fresh entry.2 with same | ⟨_, -, busy, -⟩
      · exact same.trans empty
      · simp [reader] at busy
    · rw [routed_of_notEvent reader notEvent, found]
      rfl

end Matched

theorem Matched.of_moves {trace : List Label} {state next : State} {label : Label}
    (holds : Matched trace state) (stepped : step state label = some next) :
    Matched (trace ++ [label]) next := by
  have moves := moves_of_step stepped
  have accounted := holds.accounted
  have grows := accounted.allocations_concat label
  constructor
  case accounted => exact accounted.of_moves stepped
  case numbered => exact fun position entry => holds.numbered_of_moves moves
  case nextId =>
    rw [nextId_of_moves moves, holds.nextId, grows, List.length_append, ← UInt64.ofNat_add]
    congr 1
    omega
  case frames =>
    intro frame member
    rw [grows]
    apply List.mem_append_left
    rcases mem_frames_of_moves moves member with old | sending
    · exact holds.frames frame old
    · exact accounted.own frame.caller frame.request.id (by rw [sending]; rfl)
  case routings => exact fun position response index => holds.routings_of_moves
  case answering => exact fun index answer => holds.answering_of_moves moves
  case answered =>
    intro index answer held
    rcases answer_of_moves moves accounted.fresh index with same | ⟨value, -, reader, now⟩
    · obtain ⟨position, id, completes⟩ := holds.answered index answer (same ▸ held)
      exact ⟨position, id, completes.concat accounted.reached label⟩
    · obtain rfl : value = answer := Option.some.inj (now.symm.trans held)
      obtain ⟨-, position, id, completes⟩ := holds.answering index value reader
      exact ⟨position, id, completes.concat accounted.reached label⟩
  case returned =>
    intro index answer point
    have held : (state.callers index).answer = some answer :=
      (returned_cases moves point).elim (holds.returned index answer) id
    rcases answer_of_moves moves accounted.fresh index with same | ⟨value, -, reader, -⟩
    · exact same.trans held
    · have empty := (holds.answering index value reader).1
      rw [held] at empty
      simp at empty

theorem matched_of_execute {trace : List Label} {final : State}
    (reached : execute step initial trace = some final) : Matched trace final :=
  invariant_of_execute Matched matched_initial
    (fun _ _ _ _ holds stepped => holds.of_moves stepped) reached

/-- An id is allocated once, as long as the counter has not wrapped. -/
theorem Matched.caller_unique {trace : List Label} {state : State} (holds : Matched trace state)
    (fewer : (allocations trace).length < UInt64.size) {first second : Nat} {id : UInt64}
    (one : (first, id) ∈ allocations trace) (other : (second, id) ∈ allocations trace) :
    first = second := by
  obtain ⟨position, bound, here⟩ := List.mem_iff_getElem.mp one
  obtain ⟨later, laterBound, there⟩ := List.mem_iff_getElem.mp other
  have here := List.getElem?_eq_some_iff.mpr ⟨bound, here⟩
  have there := List.getElem?_eq_some_iff.mpr ⟨laterBound, there⟩
  have same : UInt64.ofNat (position + 1) = UInt64.ofNat (later + 1) :=
    (holds.numbered position (first, id) here).symm.trans
      (holds.numbered later (second, id) there)
  have numbers : position + 1 = later + 1 := by
    have numbers := congrArg UInt64.toNat same
    rwa [UInt64.toNat_ofNat_of_lt' (by omega), UInt64.toNat_ofNat_of_lt' (by omega)] at numbers
  obtain rfl : position = later := by omega
  exact (Prod.mk.inj (Option.some.inj (here.symm.trans there))).1

theorem sent_of_completes {trace : List Label} {final : State}
    (reached : execute step initial trace = some final) {position : Nat} {response : NodeResp}
    {index : Nat} (completes : Completes trace position response index) :
    (sent initial trace)[position]? = some (some response) := by
  have order : sent initial trace = dealt initial trace ++ (final.reading ++ final.down) :=
    fifo_of_execute reached
  have here : (dealt initial trace)[position]? = some (some response) := by
    rw [dealt, List.getElem?_map]
    exact congrArg (Option.map Routed.frame) completes
  rw [order, List.getElem?_append_left (List.getElem?_eq_some_iff.mp here).1]
  exact here

/-- If the node answers by id, an operation resolves only to a response that the
node gave to its request, a response completes at most one operation, and an
event completes none. -/
theorem answers_never_cross {trace : List Label} {final : State}
    (reached : execute step initial trace = some final)
    (fewer : (allocations trace).length < UInt64.size) (gave : Nat → Nat)
    (byId : AnswersById gave (sent initial trace) final.received) :
    (∀ index answer, (final.callers index).point = .returned (some answer) →
      (final.callers index).answer = some answer) ∧
    (∀ index answer, (final.callers index).answer = some answer →
      ∃ position id, Completes trace position ⟨id, answer⟩ index) ∧
    (∀ position response index, Completes trace position response index →
      (sent initial trace)[position]? = some (some response) ∧ gave position = index ∧
        (∀ message, response.result ≠ .ok (.event message)) ∧
        ∀ other, Completes trace position response other → other = index) := by
  have holds := matched_of_execute reached
  refine ⟨holds.returned, holds.answered, fun position response index completes => ?_⟩
  have given : (sent initial trace)[position]? = some (some response) :=
    sent_of_completes reached completes
  have answers : ∀ owner, Completes trace position response owner → gave position = owner := by
    intro owner matched
    obtain ⟨recorded, notEvent⟩ := holds.routings position response owner matched
    obtain ⟨frame, received, caller, id⟩ := byId position response given notEvent
    have request := holds.frames frame (List.mem_append_right _ received)
    rw [caller, id] at request
    exact holds.caller_unique fewer request recorded
  refine ⟨given, answers index completes, (holds.routings _ _ _ completes).2, ?_⟩
  intro other matched
  exact (answers other matched).symm.trans (answers index completes)

/-- Two operations are under way and the node answers the second one first. -/
def crossingRun : List Label :=
  [.call .status, .call (.subscribe "topic"),
    .caller 0, .caller 0, .caller 0, .caller 0, .caller 1, .caller 1, .caller 1, .caller 1,
    .writer, .writer, .writer, .writer, .nodeReceive, .nodeReceive,
    .nodeSend (some ⟨2, .ok .done⟩), .nodeSend (some ⟨1, .error "busy"⟩),
    .reader, .reader, .reader, .reader, .reader, .reader, .caller 0, .caller 1]

theorem answers_never_cross_crossingRun :
    let final := (execute step initial crossingRun).get (by decide)
    (final.callers 0).point = .returned (some (.error "busy")) ∧
      (final.callers 1).point = .returned (some (.ok .done)) ∧
      ∃ position id, Completes crossingRun position ⟨id, .ok .done⟩ 1 := by
  intro final
  have reached : execute step initial crossingRun = some final := (Option.some_get _).symm
  have byId : AnswersById (fun position => 1 - position) (sent initial crossingRun)
      final.received := by
    have frames : sent initial crossingRun =
        [some ⟨2, .ok .done⟩, some ⟨1, .error "busy"⟩] := rfl
    have received : final.received =
        [⟨⟨1, .status⟩, 0⟩, ⟨⟨2, .subscribe "topic"⟩, 1⟩] := rfl
    intro position response found _
    rw [received]
    rw [frames] at found
    cases position with
    | zero =>
        obtain rfl := Option.some.inj (Option.some.inj found)
        exact ⟨_, List.mem_cons_of_mem _ (List.mem_singleton_self _), rfl, rfl⟩
    | succ position =>
        cases position with
        | zero =>
            obtain rfl := Option.some.inj (Option.some.inj found)
            exact ⟨_, List.mem_cons_self, rfl, rfl⟩
        | succ position => simp at found
  obtain ⟨held, resolved, -⟩ := answers_never_cross reached (by decide) _ byId
  exact ⟨rfl, rfl, resolved 1 (.ok .done) (held 1 (.ok .done) rfl)⟩

end CeRs.Lane
