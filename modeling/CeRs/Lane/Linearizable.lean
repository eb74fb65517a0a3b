import CeRs.Lane.Answers
import CeRs.Linear
import Mathlib.Data.List.Perm.Subperm

/-!
# Operations on the lane are atomic

The node takes frames off the ring, acts on each of them once, in any order and
at any later time, and answers under the id of the request; it may answer twice
or never, push events, and send what does not decode.  What the callers of one
`LaneClient` see is then a sequential run of the node, although their
operations are pipelined over one ring and the lane may die at any moment.  An
operation that ends with `LaneGone` may or may not have taken effect.
-/

namespace CeRs.Lane

open Transition Linear

/-- A lane and the node at its other end.  `acted` lists the frames that the
node has acted on, by their place among those received, and its answers. -/
structure Node (Object : Type*) where
  lane : State
  object : Object
  acted : List (Nat × Answer)
  history : List (Event Nat NodeOp Answer)

inductive NodeLabel
  | lane (label : Label)
  | act (position : Nat)
  | respond (position : Nat)

variable {Object : Type*}

def Node.initial (object : Object) : Node Object :=
  ⟨CeRs.Lane.initial, object, [], []⟩

/-- What the callers see of a step of the lane.  The return of a stream is not
among it, so no operation is ordered behind a `watch_stream` that returned one. -/
def seen (state : State) (label : Label) (next : State) : List (Event Nat NodeOp Answer) :=
  match label with
  | .call op => [.invoked state.total op]
  | .watch => [.invoked state.total .watch]
  | .caller index =>
      match (next.callers index).point with
      | .returned (some answer) => [.returned index answer]
      | _ => []
  | _ => []

def Node.advance (node : Node Object) (label : Label) : Option (Node Object) :=
  (step node.lane label).map fun next =>
    { node with lane := next, history := node.history ++ seen node.lane label next }

/-- The label sends no answer of the node. -/
def Label.unanswering : Label → Bool
  | .nodeSend (some ⟨_, .ok (.event _)⟩) => true
  | .nodeSend (some _) => false
  | _ => true

variable (apply : Object → NodeOp → Object × Answer)

def Node.step (node : Node Object) : NodeLabel → Option (Node Object)
  | .lane label => if label.unanswering then node.advance label else none
  | .act position =>
      match node.lane.received[position]? with
      | some frame =>
          if position ∈ node.acted.map Prod.fst then none
          else
            let outcome := apply node.object frame.request.op
            some { node with
              object := outcome.1
              acted := node.acted ++ [(position, outcome.2)] }
      | none => none
  | .respond position =>
      match node.lane.received[position]?, node.acted.find? (·.1 == position) with
      | some frame, some entry => node.advance (.nodeSend (some ⟨frame.request.id, entry.2⟩))
      | _, _ => none

/-- Everything a step can do. -/
inductive NodeMoves (node : Node Object) : Node Object → Prop
  | advanced (label : Label) (next : State) (unanswering : label.unanswering = true)
      (stepped : CeRs.Lane.step node.lane label = some next) :
      NodeMoves node
        { node with lane := next, history := node.history ++ seen node.lane label next }
  | acted (position : Nat) (frame : Frame) (here : node.lane.received[position]? = some frame)
      (fresh : position ∉ node.acted.map Prod.fst) :
      NodeMoves node { node with
        object := (apply node.object frame.request.op).1
        acted := node.acted ++ [(position, (apply node.object frame.request.op).2)] }
  | responded (position : Nat) (frame : Frame) (answer : Answer) (next : State)
      (here : node.lane.received[position]? = some frame)
      (own : (position, answer) ∈ node.acted)
      (stepped : CeRs.Lane.step node.lane (.nodeSend (some ⟨frame.request.id, answer⟩)) =
        some next) :
      NodeMoves node { node with
        lane := next
        history := node.history ++ seen node.lane
          (.nodeSend (some ⟨frame.request.id, answer⟩)) next }

variable {apply} {node next : Node Object} {label : NodeLabel}

theorem nodeMoves_of_step (stepped : node.step apply label = some next) :
    NodeMoves apply node next := by
  cases label with
  | lane label =>
      simp only [Node.step] at stepped
      split at stepped
      case isTrue unanswering =>
          obtain ⟨lane, moved, rfl⟩ := Option.map_eq_some_iff.mp stepped
          exact .advanced label lane unanswering moved
      case isFalse => simp at stepped
  | act position =>
      simp only [Node.step] at stepped
      split at stepped
      case h_1 frame here =>
          split at stepped
          case isTrue => simp at stepped
          case isFalse fresh =>
              obtain rfl := Option.some.inj stepped
              exact .acted position frame here fresh
      case h_2 => simp at stepped
  | respond position =>
      simp only [Node.step] at stepped
      split at stepped
      case h_1 frame entry here found =>
          obtain ⟨lane, moved, rfl⟩ := Option.map_eq_some_iff.mp stepped
          obtain ⟨place, answer⟩ := entry
          obtain rfl : place = position := by simpa using List.find?_some found
          exact .responded place frame answer lane here (List.mem_of_find?_eq_some found) moved
      case h_2 => simp at stepped

section Lane

variable {state after : State}

/-- The operation that the caller has not handed over yet. -/
def Point.op? : Point → Option NodeOp
  | .watchChecking => some .watch
  | .checking op | .allocating op | .inserting op _ | .sending op _ => some op
  | _ => none

@[simp] theorem resume_op? (watch : Bool) (answer : Option Answer) :
    (resume watch answer).op? = none :=
  resume_induction (motive := fun point => point.op? = none) rfl rfl (fun _ => rfl) watch answer

theorem CallerMoves.op?_eq {index : Nat} (moves : CallerMoves state index after) {op : NodeOp}
    (own : (after.callers index).point.op? = some op) :
    (state.callers index).point.op? = some op := by
  cases moves with
  | foundDead | withdrawn | answered | orphaned => simp at own
  | notStarted point | foundAlive _ point | allocated _ point | inserted _ _ point =>
      simpa [point, Point.op?] using own
  | started | sent | notSent | marked | registered | raced | confirmed =>
      simp [Point.op?] at own

theorem op?_of_moves {label : Label} (moves : Moves state label after) {index : Nat} {op : NodeOp}
    (own : (after.callers index).point.op? = some op) :
    (state.callers index).point.op? = some op ∨
      index = state.total ∧ (label = .call op ∨ label = .watch ∧ op = .watch) := by
  cases moves.place index with
  | kept _ point => exact .inl (point ▸ own)
  | moved action => exact .inl (action.op?_eq own)
  | cancelled _ _ point => simp [point, Point.op?] at own
  | called asked fresh place =>
      obtain rfl : asked = op := by simpa [place, newCaller, Point.op?] using own
      exact .inr ⟨fresh, .inl rfl⟩
  | watched fresh place =>
      obtain rfl : .watch = op := by simpa [place, newCaller, Point.op?] using own
      exact .inr ⟨fresh, .inr ⟨rfl, rfl⟩⟩

theorem received_of_moves {label : Label} (moves : Moves state label after) :
    ∃ added, after.received = state.received ++ added := by
  cases moves with
  | nodeReceived frame rest up => exact ⟨[frame], rfl⟩
  | caller _ _ moves => exact ⟨[], by cases moves <;> simp [State.moveTo]⟩
  | writer _ moves => exact ⟨[], by cases moves <;> simp⟩
  | reader _ moves => exact ⟨[], by cases moves <;> simp [deliver]⟩
  | called | watched | cancelled | droppedReceiver | droppedClient | refused | failed | nodeSent
  | closed => exact ⟨[], by simp [State.moveTo]⟩

theorem Accounted.allocations_le {trace : List Label} (accounted : Accounted trace state) :
    (allocations trace).length ≤ state.total := by
  have below : ∀ index ∈ (allocations trace).map Prod.fst, index ∈ List.range state.total := by
    intro index member
    by_contra beyond
    have idle := accounted.once.fresh index (by simpa using beyond)
    exact accounted.early index (by rw [idle]; rfl) member
  calc
    (allocations trace).length = ((allocations trace).map Prod.fst).length :=
      (List.length_map _).symm
    _ ≤ (List.range state.total).length := (accounted.nodup.subperm below).length_le
    _ = state.total := List.length_range

/-- What a caller gets has been sent under an id of which the node has received
no frame but the caller's. -/
theorem Matched.returned_sent {trace : List Label} (matched : Matched trace state)
    (fewer : state.total < UInt64.size) {index : Nat} {answer : Answer}
    (returned : (state.callers index).point = .returned (some answer)) :
    ∃ id, some ⟨id, answer⟩ ∈ sent CeRs.Lane.initial trace ∧
      (∀ message, answer ≠ .ok (.event message)) ∧
      ∀ frame ∈ state.received, frame.request.id = id → frame.caller = index := by
  obtain ⟨position, id, completes⟩ := matched.answered index answer
    (matched.returned index answer returned)
  obtain ⟨recorded, notEvent⟩ := matched.routings position ⟨id, answer⟩ index completes
  refine ⟨id, List.mem_of_getElem? (sent_of_completes matched.accounted.reached completes),
    notEvent, ?_⟩
  intro frame received same
  have allocated := matched.frames frame (List.mem_append_right _ received)
  rw [same] at allocated
  have few := matched.accounted.allocations_le.trans_lt fewer
  exact matched.caller_unique few allocated recorded

end Lane

/-- The frames, the answers and the effects speak of the same operations. -/
structure Tied (apply : Object → NodeOp → Object × Answer) (start : Object) (trace : List Label)
    (node : Node Object) (effects : List (Effect Nat NodeOp Answer)) : Prop where
  matched : Matched trace node.lane
  linearizes : Linearizes apply start node.history effects
  object_eq : node.object = objectAfter apply start (effects.map Effect.op)
  known : ∀ index op, .invoked index op ∈ node.history → index < node.lane.total
  asks : ∀ index op, (node.lane.callers index).point.op? = some op →
    .invoked index op ∈ node.history
  frames : ∀ frame ∈ node.lane.frames, .invoked frame.caller frame.request.op ∈ node.history
  acted : ∀ entry ∈ node.acted, ∃ frame, node.lane.received[entry.1]? = some frame ∧
    ⟨frame.caller, frame.request.op, entry.2⟩ ∈ effects
  effective : ∀ effect ∈ effects, ∃ entry ∈ node.acted, ∃ frame,
    node.lane.received[entry.1]? = some frame ∧ frame.caller = effect.id
  sent : ∀ response, some response ∈ sent CeRs.Lane.initial trace →
    (∀ message, response.result ≠ .ok (.event message)) →
      ∃ frame ∈ node.lane.received, frame.request.id = response.id ∧
        ⟨frame.caller, frame.request.op, response.result⟩ ∈ effects

variable {start : Object} {trace : List Label} {effects : List (Effect Nat NodeOp Answer)}

theorem tied_initial : Tied apply start [] (Node.initial start) [] where
  matched := matched_initial
  linearizes := linearizes_nil
  object_eq := rfl
  known := by simp [Node.initial]
  asks := by simp [Node.initial, CeRs.Lane.initial, newCaller, Point.op?]
  frames := by simp [Node.initial, CeRs.Lane.initial, State.frames, Writer.held]
  acted := by simp [Node.initial]
  effective := by simp
  sent := by simp [CeRs.Lane.sent, emitted]

section Advance

variable {label : Label} {state : State}

theorem sent_concat (reached : execute CeRs.Lane.step CeRs.Lane.initial trace = some node.lane)
    (label : Label) :
    sent CeRs.Lane.initial (trace ++ [label]) = sent CeRs.Lane.initial trace ++
      sends node.lane label :=
  emitted_concat reached

/-- What a caller gets is the answer that the node gave when it acted on the
caller's frame. -/
theorem Tied.answered (tied : Tied apply start trace node effects) {index : Nat}
    (matched : Matched (trace ++ [.caller index]) state) (fewer : state.total < UInt64.size)
    (kept : ∀ frame ∈ node.lane.received, frame ∈ state.received)
    {answer : Answer} (returned : (state.callers index).point = .returned (some answer)) :
    ∃ effect ∈ effects, effect.id = index ∧ effect.reply = answer := by
  obtain ⟨id, given, notEvent, own⟩ := matched.returned_sent fewer returned
  rw [sent_concat tied.matched.accounted.reached] at given
  obtain ⟨frame, received, same, effective⟩ :=
    tied.sent ⟨id, answer⟩ (by simpa [sends] using given) notEvent
  exact ⟨_, effective, own frame (kept frame received) same, rfl⟩

theorem Tied.linearizes_seen (tied : Tied apply start trace node effects)
    (matched : Matched (trace ++ [label]) state) (fewer : state.total < UInt64.size)
    (kept : ∀ frame ∈ node.lane.received, frame ∈ state.received) :
    Linearizes apply start (node.history ++ seen node.lane label state) effects := by
  have fresh : ∀ other, .invoked node.lane.total other ∉ node.history := fun other member =>
    absurd (tied.known _ _ member) (Nat.lt_irrefl _)
  cases label with
  | call op => exact tied.linearizes.invoke op fresh
  | watch => exact tied.linearizes.invoke .watch fresh
  | caller index =>
      simp only [seen]
      split
      case h_1 answer returned =>
          obtain ⟨effect, effective, rfl, rfl⟩ := tied.answered matched fewer kept returned
          exact tied.linearizes.answer effective
      case h_2 => simpa using tied.linearizes
  | cancel | dropReceiver | dropClient | writer | writerRefused | reader | readerFailed
  | nodeReceive | nodeSend | close => simpa [seen] using tied.linearizes

theorem Tied.known_seen (tied : Tied apply start trace node effects)
    (moves : Moves node.lane label state) {index : Nat} {op : NodeOp}
    (member : .invoked index op ∈ node.history ++ seen node.lane label state) :
    index < state.total := by
  rcases List.mem_append.mp member with before | new
  · exact (tied.known index op before).trans_le (total_le_of_moves moves)
  · cases moves with
    | called | watched =>
        obtain ⟨rfl, -⟩ := Event.invoked.inj (List.mem_singleton.mp new)
        exact Nat.lt_succ_self _
    | caller other =>
        simp only [seen] at new
        split at new <;> simp at new
    | cancelled | droppedReceiver | droppedClient | writer | refused | reader | failed
    | nodeReceived | nodeSent | closed => simp [seen] at new

theorem Tied.asks_seen (tied : Tied apply start trace node effects)
    (moves : Moves node.lane label state) {index : Nat} {op : NodeOp}
    (own : (state.callers index).point.op? = some op) :
    .invoked index op ∈ node.history ++ seen node.lane label state := by
  rcases op?_of_moves moves own with before | ⟨rfl, rfl | ⟨rfl, rfl⟩⟩
  · exact List.mem_append_left _ (tied.asks index op before)
  · exact List.mem_append_right _ (by simp [seen])
  · exact List.mem_append_right _ (by simp [seen])

theorem Tied.advanced (tied : Tied apply start trace node effects)
    (stepped : CeRs.Lane.step node.lane label = some state) (fewer : state.total < UInt64.size)
    (genuine : ∀ response, some response ∈ sends node.lane label →
      (∀ message, response.result ≠ .ok (.event message)) →
        ∃ frame ∈ node.lane.received, frame.request.id = response.id ∧
          ⟨frame.caller, frame.request.op, response.result⟩ ∈ effects) :
    Tied apply start (trace ++ [label])
      { node with lane := state, history := node.history ++ seen node.lane label state }
      effects := by
  have moves := moves_of_step stepped
  have matched := tied.matched.of_moves stepped
  obtain ⟨added, received⟩ := received_of_moves moves
  have kept : ∀ frame ∈ node.lane.received, frame ∈ state.received := fun frame member =>
    received ▸ List.mem_append_left added member
  have still : ∀ (position : Nat) frame, node.lane.received[position]? = some frame →
      state.received[position]? = some frame := fun position frame =>
    getElem?_of_prefix (received ▸ List.prefix_append ..)
  refine ⟨matched, tied.linearizes_seen matched fewer kept, tied.object_eq,
    fun index op => tied.known_seen moves, fun index op => tied.asks_seen moves, ?_, ?_, ?_, ?_⟩
  · intro frame member
    refine List.mem_append_left _ ?_
    rcases mem_frames_of_moves moves member with before | sending
    · exact tied.frames frame before
    · exact tied.asks frame.caller frame.request.op (by rw [sending]; rfl)
  · intro entry member
    obtain ⟨frame, here, effective⟩ := tied.acted entry member
    exact ⟨frame, still _ frame here, effective⟩
  · intro effect member
    obtain ⟨entry, own, frame, here, caller⟩ := tied.effective effect member
    exact ⟨entry, own, frame, still _ frame here, caller⟩
  · intro response member notEvent
    rw [sent_concat tied.matched.accounted.reached] at member
    have answered : ∃ frame ∈ node.lane.received, frame.request.id = response.id ∧
        ⟨frame.caller, frame.request.op, response.result⟩ ∈ effects := by
      rcases List.mem_append.mp member with before | new
      · exact tied.sent response before notEvent
      · exact genuine response new notEvent
    obtain ⟨frame, present, rest⟩ := answered
    exact ⟨frame, kept frame present, rest⟩

end Advance

theorem position_unique {state : State} (once : OneFrame state) {first second : Nat}
    {one other : Frame} (here : state.received[first]? = some one)
    (there : state.received[second]? = some other) (same : one.caller = other.caller) :
    first = second := by
  have ordered : ∀ {earlier later : Nat} {early late : Frame},
      state.received[earlier]? = some early → state.received[later]? = some late →
        early.caller = late.caller → ¬ earlier < later := by
    intro earlier later early late here there same less
    have front : early ∈ state.received.take later :=
      List.mem_of_getElem? ((List.getElem?_take_of_lt less).trans here)
    have back : late ∈ state.received.drop later := by
      refine List.mem_of_getElem? (i := 0) ?_
      rw [List.getElem?_drop]
      exact there
    have both : [early, late].Sublist state.received := by
      rw [← List.take_append_drop later state.received]
      exact (List.singleton_sublist.mpr front).append (List.singleton_sublist.mpr back)
    have two := both.countP_le (p := fun frame => frame.caller == late.caller)
    have one := once.received_le_one late.caller
    simp [same] at two
    omega
  exact Nat.le_antisymm (Nat.le_of_not_lt (ordered there here same.symm))
    (Nat.le_of_not_lt (ordered here there same))

theorem Tied.act (tied : Tied apply start trace node effects) {position : Nat} {frame : Frame}
    (here : node.lane.received[position]? = some frame)
    (fresh : position ∉ node.acted.map Prod.fst) :
    Tied apply start trace
      { node with
        object := (apply node.object frame.request.op).1
        acted := node.acted ++ [(position, (apply node.object frame.request.op).2)] }
      (effects ++ [⟨frame.caller, frame.request.op, (apply node.object frame.request.op).2⟩]) := by
  have unacted : frame.caller ∉ effects.map Effect.id := by
    intro member
    obtain ⟨effect, effective, same⟩ := List.mem_map.mp member
    obtain ⟨entry, own, other, there, caller⟩ := tied.effective effect effective
    have equal := position_unique tied.matched.accounted.once there here (caller.trans same)
    exact fresh (equal ▸ List.mem_map_of_mem own)
  have present : frame ∈ node.lane.frames := List.mem_append_right _ (List.mem_of_getElem? here)
  refine ⟨tied.matched, ?_, ?_, tied.known, tied.asks, tied.frames, ?_, ?_, ?_⟩
  · have after := tied.linearizes.takeEffect (tied.frames frame present) unacted
    rwa [← tied.object_eq] at after
  · simp [← tied.object_eq]
  · intro entry member
    rcases List.mem_append.mp member with before | last
    · obtain ⟨own, there, effective⟩ := tied.acted entry before
      exact ⟨own, there, List.mem_append_left _ effective⟩
    · obtain rfl := List.mem_singleton.mp last
      exact ⟨frame, here, List.mem_append_right _ (List.mem_singleton_self _)⟩
  · intro effect member
    rcases List.mem_append.mp member with before | last
    · obtain ⟨entry, own, rest⟩ := tied.effective effect before
      exact ⟨entry, List.mem_append_left _ own, rest⟩
    · obtain rfl := List.mem_singleton.mp last
      exact ⟨_, List.mem_append_right _ (List.mem_singleton_self _), frame, here, rfl⟩
  · intro response member notEvent
    obtain ⟨own, received, same, effective⟩ := tied.sent response member notEvent
    exact ⟨own, received, same, List.mem_append_left _ effective⟩

theorem tied_of_moves (tied : Tied apply start trace node effects)
    (fewer : next.lane.total < UInt64.size) (moves : NodeMoves apply node next) :
    ∃ trace' effects', Tied apply start trace' next effects' := by
  cases moves with
  | advanced label state unanswering stepped =>
      refine ⟨_, _, tied.advanced stepped fewer ?_⟩
      intro response sends notEvent
      cases label <;> simp only [CeRs.Lane.sends, List.not_mem_nil, List.mem_singleton] at sends
      case nodeSend frame =>
          subst sends
          obtain ⟨id, result⟩ := response
          cases result with
          | error message => simp [Label.unanswering] at unanswering
          | ok answer =>
              cases answer with
              | event message => exact (notEvent message rfl).elim
              | done | status | reply => simp [Label.unanswering] at unanswering
  | acted position frame here fresh => exact ⟨_, _, tied.act here fresh⟩
  | responded position frame answer state here own stepped =>
      refine ⟨_, _, tied.advanced stepped fewer ?_⟩
      intro response sends notEvent
      obtain ⟨rfl⟩ : response = ⟨frame.request.id, answer⟩ := by
        simpa [CeRs.Lane.sends] using sends
      obtain ⟨other, there, effective⟩ := tied.acted (position, answer) own
      obtain rfl := Option.some.inj (here.symm.trans there)
      exact ⟨frame, List.mem_of_getElem? here, rfl, effective⟩

theorem total_of_moves (moves : NodeMoves apply node next) : node.lane.total ≤ next.lane.total := by
  cases moves with
  | advanced label state unanswering stepped => exact total_le_of_moves (moves_of_step stepped)
  | acted => exact le_rfl
  | responded _ _ _ _ _ _ stepped => exact total_le_of_moves (moves_of_step stepped)

variable {run : List NodeLabel} {final : Node Object}

theorem tied_of_execute
    (reached : execute (Node.step apply) (Node.initial start) run = some final)
    (fewer : final.lane.total < UInt64.size) :
    ∃ trace effects, Tied apply start trace final effects := by
  refine stateInvariant_of_execute
    (fun node => node.lane.total < UInt64.size →
      ∃ trace effects, Tied apply start trace node effects)
    (fun _ => ⟨[], [], tied_initial⟩) ?_ reached fewer
  intro node label next tied stepped fewer
  have moves := nodeMoves_of_step stepped
  obtain ⟨trace, effects, tied⟩ := tied ((total_of_moves moves).trans_lt fewer)
  exact tied_of_moves tied fewer moves

/-- What the callers of a lane see is one sequential run of the node. -/
theorem lane_linearizable_of_execute
    (reached : execute (Node.step apply) (Node.initial start) run = some final)
    (fewer : final.lane.total < UInt64.size) :
    ∃ effects, Linearizes apply start final.history effects ∧
      final.object = objectAfter apply start (effects.map Effect.op) ∧
      ∀ effect ∈ effects, ∃ frame ∈ final.lane.received, frame.caller = effect.id := by
  obtain ⟨trace, effects, tied⟩ := tied_of_execute reached fewer
  refine ⟨effects, tied.linearizes, tied.object_eq, fun effect effective => ?_⟩
  obtain ⟨entry, -, frame, here, caller⟩ := tied.effective effect effective
  exact ⟨frame, List.mem_of_getElem? here, caller⟩

/-- A node that counts what is published. -/
def counting : Nat → NodeOp → Nat × Answer
  | count, .publish _ _ => (count + 1, .ok .done)
  | count, .status => (count, .ok (.status [] (UInt64.ofNat count)))
  | count, _ => (count, .error "unsupported")

/-- Two operations are under way, and the node acts on the second one first. -/
def pipelined : List NodeLabel :=
  (([.call .status, .call (.publish "topic" []),
    .caller 0, .caller 0, .caller 0, .caller 0, .caller 1, .caller 1, .caller 1, .caller 1,
    .writer, .writer, .writer, .writer, .nodeReceive, .nodeReceive] : List Label).map .lane) ++
  [.act 1, .act 0, .respond 0, .respond 1] ++
  (([.reader, .reader, .reader, .reader, .reader, .reader, .caller 1, .caller 0] :
    List Label).map .lane)

def pipelinedHistory : List (Event Nat NodeOp Answer) :=
  [.invoked 0 .status, .invoked 1 (.publish "topic" []), .returned 1 (.ok .done),
    .returned 0 (.ok (.status [] 1))]

theorem lane_linearizable_of_execute_pipelined :
    ∃ effects, Linearizes counting 0 pipelinedHistory effects ∧
      objectAfter counting 0 (effects.map Effect.op) = 1 := by
  have reached : execute (Node.step counting) (Node.initial 0) pipelined = some _ := rfl
  obtain ⟨effects, linearizes, object, -⟩ := lane_linearizable_of_execute reached (by decide)
  exact ⟨effects, linearizes, object.symm⟩

end CeRs.Lane
