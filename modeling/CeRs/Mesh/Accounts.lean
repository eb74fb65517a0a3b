import CeRs.Mesh.Attempts
import CeRs.Mesh.Linearizable

/-!
# How often a located call takes effect

A call may take effect although it fails, and more than once although it
returns one reply.  Its effects are those of its own request at the instances
that it has tried: one for each place of an instance on its list, and one more
at the instance where its lane died.  The reply is that of the effect at the
last of them.  A call that begins after another one has returned takes effect
after the effect that answered it.
-/

namespace CeRs.Calling

open Transition Serve Linear
open Mesh (apply Few Served Grows grows_of_step appended_of_ask returned_of_route)

variable {Client Index Object : Type*} [DecidableEq Client] [DecidableEq Index]
  {config : Index → Config} {handler : Index → Object → Request → Object × List UInt8}
  {objects : Index → Object} {lanes : Client → Bool} {world next : World Client Index Object}
  {mesh : Mesh.World Index Object} {call after : Call Client Index}

/-- The invariant of all calls. -/
structure Accounted (world : World Client Index Object) : Prop where
  tracked : ∀ (id : Nat) call, world.calls[id]? = some call →
    Tracked world.mesh (world.lanes call.client) call
  apart : ∀ (first second : Nat) (one other : Call Client Index), world.calls[first]? = some one →
    world.calls[second]? = some other → ∀ id ∈ one.ids, id ∈ other.ids → first = second
  begun : ∀ id request, .invoked id request ∈ world.history → id < world.calls.length
  returned : ∀ id reply, .returned id reply ∈ world.history →
    ∃ call received, world.calls[id]? = some call ∧ call.phase = .replied received reply
  ordered : ∀ first second, Precedes world.history first second →
    ∀ one other received reply, world.calls[first]? = some one →
      one.phase = .replied received reply → world.calls[second]? = some other →
        ∀ later ∈ other.ids, Precedes world.mesh.history received later

omit [DecidableEq Client] in
theorem accounted_initial :
    Accounted (World.initial objects lanes : World Client Index Object) where
  tracked := by simp [World.initial]
  apart := by simp [World.initial]
  begun := by simp [World.initial]
  returned := by simp [World.initial]
  ordered := fun first second precedes => (not_precedes_nil first second precedes).elim

omit [DecidableEq Client] in
theorem Accounted.begin (accounted : Accounted world) (client : Client) (request : Request)
    (instances : List Index) :
    Accounted { world with
      calls := world.calls ++ [.begin client request instances]
      history := world.history ++ [.invoked world.calls.length request] } := by
  have known : ∀ id call, (world.calls ++ [.begin client request instances])[id]? = some call →
      world.calls[id]? = some call ∨ id = world.calls.length ∧
        call = .begin client request instances := fun id call => getElem?_concat_cases
  have unsent : (Call.begin client request instances).ids = [] := rfl
  refine ⟨?_, ?_, ?_, ?_, ?_⟩
  · intro id call here
    rcases known id call here with old | ⟨-, rfl⟩
    · exact accounted.tracked id call old
    · exact tracked_begin world.mesh client request instances _
  · intro first second one other here there id member shared
    have unique : ∀ (first second : Nat) (one other : Call Client Index),
        world.calls[first]? = some one → world.calls[second]? = some other →
          id ∈ one.ids ∧ id ∈ other.ids → first = second :=
      fun first second one other old old' both =>
        accounted.apart first second one other old old' id both.1 both.2
    exact position_unique_concat unique (by simp [unsent]) here there ⟨member, shared⟩
  · intro id asked member
    rw [List.length_append, List.length_singleton]
    rcases List.mem_append.mp member with earlier | last
    · exact Nat.lt_succ_of_lt (accounted.begun id asked earlier)
    · obtain ⟨rfl, -⟩ := Linear.Event.invoked.inj (List.mem_singleton.mp last)
      exact Nat.lt_succ_self _
  · intro id reply member
    obtain ⟨call, received, here, point⟩ := accounted.returned id reply (by simpa using member)
    refine ⟨call, received, ?_, point⟩
    exact getElem?_of_prefix (List.prefix_append ..) here
  · intro first second precedes one other received reply here point there later member
    rcases known second other there with old | ⟨-, rfl⟩
    · have before : Precedes world.history first second := by
        rcases precedes_concat precedes with before | ⟨op, _, new, -⟩
        · exact before
        · obtain ⟨rfl, -⟩ := Linear.Event.invoked.inj new
          have present := (List.getElem?_eq_some_iff.mp old).1
          exact absurd present (Nat.lt_irrefl _)
      rcases known first one here with earlier | ⟨-, rfl⟩
      · exact accounted.ordered first second before one other received reply earlier point old
          later member
      · cases point
    · simp [unsent] at member

omit [DecidableEq Client] [DecidableEq Index] in
theorem getElem?_setCall {id other : Nat} {found : Call Client Index}
    (here : (world.setCall id after).calls[other]? = some found) :
    other = id ∧ found = after ∨ other ≠ id ∧ world.calls[other]? = some found := by
  rw [World.setCall, List.getElem?_set] at here
  split at here
  case isTrue same =>
      split at here
      case isTrue => exact .inl ⟨same.symm, (Option.some.inj here).symm⟩
      case isFalse => simp at here
  case isFalse different => exact .inr ⟨Ne.symm different, here⟩

omit [DecidableEq Client] in
theorem Accounted.advance (accounted : Accounted world) {id : Nat}
    (here : world.calls[id]? = some call)
    (unanswered : ∀ received reply, call.phase ≠ .replied received reply)
    (grows : Grows world.mesh mesh) (tracked : Tracked mesh (world.lanes after.client) after)
    (new : ∀ later ∈ after.ids, later ∈ call.ids ∨ later = world.mesh.asked.length ∧
      ∃ op, mesh.history = world.mesh.history ++ [.invoked later op]) :
    Accounted { world.setCall id after with mesh := mesh } := by
  have older : ∀ (other : Nat) (found : Call Client Index), world.calls[other]? = some found →
      ∀ later ∈ found.ids, later ∈ after.ids → later ∈ call.ids := by
    intro other found there later member sent
    rcases new later sent with known | ⟨rfl, -⟩
    · exact known
    · exact absurd ((accounted.tracked other found there).id_lt member) (Nat.lt_irrefl _)
  refine ⟨?_, ?_, ?_, ?_, ?_⟩
  · intro other found there
    rcases getElem?_setCall there with ⟨-, rfl⟩ | ⟨-, old⟩
    · exact tracked
    · exact (accounted.tracked other found old).grow grows fun alive => alive
  · intro first second one other there there' later member shared
    rcases getElem?_setCall there with ⟨rfl, rfl⟩ | ⟨-, old⟩ <;>
      rcases getElem?_setCall there' with ⟨rfl, rfl⟩ | ⟨-, old'⟩
    · rfl
    · exact accounted.apart _ _ call other here old' later
        (older second other old' later shared member) shared
    · exact accounted.apart _ _ one call old here later member
        (older first one old later member shared)
    · exact accounted.apart first second one other old old' later member shared
  · intro other request member
    rw [show (world.setCall id after).calls.length = world.calls.length from List.length_set]
    exact accounted.begun other request member
  · intro other reply member
    obtain ⟨found, received, there, point⟩ := accounted.returned other reply member
    refine ⟨found, received, ?_, point⟩
    have different : id ≠ other := by
      rintro rfl
      obtain rfl := Option.some.inj (here.symm.trans there)
      exact unanswered received reply point
    exact (List.getElem?_set_ne different).trans there
  · intro first second precedes one other received reply there point there' later member
    obtain ⟨got, returned⟩ := precedes.returned
    obtain ⟨found, answer, before, answered⟩ := accounted.returned first got returned
    have old : world.calls[first]? = some one := by
      rcases getElem?_setCall there with ⟨rfl, rfl⟩ | ⟨-, old⟩
      · obtain rfl := Option.some.inj (here.symm.trans before)
        exact (unanswered answer got answered).elim
      · exact old
    rcases getElem?_setCall there' with ⟨rfl, rfl⟩ | ⟨-, old'⟩
    · rcases new later member with known | ⟨rfl, op, grown⟩
      · exact (accounted.ordered first second precedes one call received reply old point here
          later known).extend grows.history
      · have stands := (accounted.tracked first one old).stands
        simp only [Stands, point] at stands
        obtain ⟨-, -, -, heard⟩ := stands
        rw [grown]
        exact precedes_of_returned heard op
    · exact (accounted.ordered first second precedes one other received reply old point old'
        later member).extend grows.history

omit [DecidableEq Client] in
theorem Accounted.return (accounted : Accounted world) {id received : Nat} {reply : List UInt8}
    (here : world.calls[id]? = some call) (point : call.phase = .replied received reply) :
    Accounted { world with history := world.history ++ [.returned id reply] } := by
  refine ⟨accounted.tracked, accounted.apart, ?_, ?_, ?_⟩
  · intro other request member
    exact accounted.begun other request (by simpa using member)
  · intro other answer member
    rcases List.mem_append.mp member with earlier | last
    · exact accounted.returned other answer earlier
    · obtain ⟨rfl, rfl⟩ := Linear.Event.returned.inj (List.mem_singleton.mp last)
      exact ⟨call, received, here, point⟩
  · intro first second precedes
    rcases precedes_concat precedes with before | ⟨op, got, new, -⟩
    · exact accounted.ordered first second before
    · cases new

omit [DecidableEq Client] in
theorem Accounted.around (accounted : Accounted world) (grows : Grows world.mesh mesh)
    {later : Client → Bool} (fewer : ∀ client, later client = true → world.lanes client = true) :
    Accounted { world with mesh := mesh, lanes := later } where
  tracked := fun id call here =>
    (accounted.tracked id call here).grow grows (fewer call.client)
  apart := accounted.apart
  begun := accounted.begun
  returned := accounted.returned
  ordered := fun first second precedes one other received reply here point there later member =>
    (accounted.ordered first second precedes one other received reply here point there later
      member).extend grows.history

theorem Accounted.moves (accounted : Accounted world)
    (moves : WorldMoves config handler world next) : Accounted next := by
  cases moves with
  | began client request instances => exact accounted.begin client request instances
  | moved id call after here moves =>
      have tracked := accounted.tracked id call here
      have grows : Grows world.mesh world.mesh := ⟨List.prefix_refl _, List.prefix_refl _⟩
      have going := tracked.moves moves grows (by simp)
      rw [← moves.client_eq] at going
      refine accounted.advance here moves.unanswered grows going fun later member => ?_
      rcases moves.ids member with known | ⟨unasked, -⟩
      · exact .inl known
      · simp at unasked
  | asked id call after here asked moves mesh stepped =>
      have tracked := accounted.tracked id call here
      obtain ⟨sent, history⟩ := appended_of_ask stepped
      have going := tracked.moves moves (grows_of_step stepped) (by simp [sent])
      rw [← moves.client_eq] at going
      refine accounted.advance here moves.unanswered (grows_of_step stepped) going
        fun later member => ?_
      rcases moves.ids member with known | ⟨-, rfl⟩
      · exact .inl known
      · exact .inr ⟨rfl, _, history⟩
  | died client =>
      refine accounted.around ⟨List.prefix_refl _, List.prefix_refl _⟩ fun other alive => ?_
      by_cases same : other = client
      · simp [same] at alive
      · simpa [Function.update_of_ne same] using alive
  | replied id call here target received overLane point reply mesh stepped =>
      let answered := call.reach (.replied received reply)
      have going : Tracked mesh (world.lanes answered.client) answered :=
        (accounted.tracked id call here).replied point (grows_of_step stepped)
          (returned_of_route stepped)
      have unanswered : ∀ received reply, call.phase ≠ .replied received reply := by
        simp [point]
      have after := accounted.advance here unanswered (grows_of_step stepped) going
        fun later member => .inl member
      have present := (List.getElem?_eq_some_iff.mp here).1
      exact after.return (List.getElem?_set_self present) rfl
  | turned label mesh stepped =>
      exact accounted.around (grows_of_step stepped) fun client alive => alive

variable {trace : List (Label Client Index)} {final : World Client Index Object}

theorem accounted_of_execute
    (reached : execute (World.step config handler) (World.initial objects lanes) trace =
      some final) : Accounted final := by
  refine stateInvariant_of_execute Accounted accounted_initial ?_ reached
  intro world label next accounted stepped
  exact accounted.moves (worldMoves_of_step stepped)

/-- A call that has ended has done what `failover` does. -/
theorem failover_of_execute
    (reached : execute (World.step config handler) (World.initial objects lanes) trace =
      some final) (member : call ∈ final.calls) :
    (∀ received reply, call.phase = .replied received reply →
      Capability.failover call.replyAt 0 none call.instances = (call.targets, .ok reply)) ∧
    (call.phase = .failed → ∃ last,
      Capability.failover call.replyAt 0 none call.instances = (call.targets, .error last)) := by
  obtain ⟨id, here⟩ := List.getElem?_of_mem member
  have stands := ((accounted_of_execute reached).tracked id call here).stands
  exact ⟨fun received reply point => stands.failover_of_replied point, stands.failover_of_failed⟩

theorem mesh_of_execute
    (reached : execute (World.step config handler) (World.initial objects lanes) trace =
      some final) :
    ∃ labels, execute (Mesh.World.step config handler) (Mesh.World.initial objects) labels =
      some final.mesh := by
  refine stateInvariant_of_execute (fun world => ∃ labels,
    execute (Mesh.World.step config handler) (Mesh.World.initial objects) labels =
      some world.mesh) ⟨[], rfl⟩ ?_ reached
  rintro world label next ⟨labels, before⟩ stepped
  cases worldMoves_of_step stepped with
  | began | moved | died => exact ⟨labels, before⟩
  | asked _ _ _ _ _ _ mesh turned | replied _ _ _ _ _ _ _ _ mesh turned | turned _ mesh turned =>
      exact ⟨labels ++ [_], execute_concat_eq_some.mpr ⟨world.mesh, before, turned⟩⟩

/-- The effects of the requests of the call. -/
def effectsOf (effects : List (Served Index)) (call : Call Client Index) : List (Served Index) :=
  effects.filter fun effect => effect.id ∈ call.ids

/-- What the effects of a call have to do with it. -/
structure Explains (effects : List (Served Index)) (call : Call Client Index) : Prop where
  own : ∀ effect ∈ effectsOf effects call,
    effect.op.2 = call.request ∧ effect.op.1 ∈ call.targets
  atMost : ∀ target,
    ((effectsOf effects call).map fun effect => effect.op.1).count target ≤ call.allowance target
  answered : ∀ received reply, call.phase = .replied received reply →
    ∃ effect ∈ effectsOf effects call, effect.id = received ∧ effect.reply = reply ∧
      call.targets.getLast? = some effect.op.1
  failed : call.phase = .failed → call.targets = call.instances

omit [DecidableEq Client] in
theorem Tracked.explains {lane : Bool} {effects : List (Served Index)}
    (tracked : Tracked mesh lane call)
    (linked : Mesh.Linked config handler objects mesh effects) : Explains effects call := by
  have sent : ∀ effect ∈ effectsOf effects call,
      (effect.op.1, effect.id) ∈ call.sent ∧ effect.op.2 = call.request := by
    intro effect member
    obtain ⟨effective, own⟩ := List.mem_filter.mp member
    obtain ⟨⟨target, id⟩, sent, same⟩ := List.mem_map.mp (of_decide_eq_true own)
    obtain rfl : id = effect.id := same
    obtain ⟨token, here⟩ := tracked.asked target _ sent
    obtain ⟨asked, there, op⟩ :=
      (linked.invoked_iff _ _).mp (linked.linearizes.invoked effect effective)
    obtain rfl := Option.some.inj (here.symm.trans there)
    exact ⟨by rw [op]; exact sent, by rw [op]⟩
  refine ⟨?_, ?_, ?_, ?_⟩
  · intro effect member
    obtain ⟨went, request⟩ := sent effect member
    exact ⟨request, tracked.target_mem went⟩
  · intro target
    let went := (effectsOf effects call).map fun effect => (effect.op.1, effect.id)
    have once : went.Nodup := by
      refine List.Nodup.of_map Prod.snd ?_
      rw [List.map_map]
      exact linked.linearizes.once.sublist (List.filter_sublist.map _)
    have included : went ⊆ call.sent := by
      intro pair member
      obtain ⟨effect, own, rfl⟩ := List.mem_map.mp member
      exact (sent effect own).1
    obtain ⟨listed, same, within⟩ := List.subperm_of_subset once included
    calc
      _ = (went.map Prod.fst).count target := by rw [List.map_map]; rfl
      _ = (listed.map Prod.fst).count target := ((same.map _).count_eq target).symm
      _ ≤ (call.sent.map Prod.fst).count target := (within.map _).count_le target
      _ ≤ (call.sent.map Prod.fst).count target + call.owed target := Nat.le_add_right _ _
      _ ≤ call.allowance target := tracked.bounded target
  · intro received reply point
    have stands := tracked.stands
    simp only [Stands, point] at stands
    obtain ⟨target, last, went, returned⟩ := stands
    obtain ⟨effect, effective, rfl, rfl⟩ := linked.linearizes.returned received reply returned
    have own : effect ∈ effectsOf effects call :=
      List.mem_filter.mpr ⟨effective, decide_eq_true (List.mem_map_of_mem went)⟩
    refine ⟨effect, own, rfl, rfl, ?_⟩
    obtain ⟨token, here⟩ := tracked.asked target _ went
    obtain ⟨token', here'⟩ := tracked.asked _ _ (sent effect own).1
    obtain rfl : target = effect.op.1 :=
      congrArg Mesh.Asked.target (Option.some.inj (here.symm.trans here'))
    exact last
  · intro point
    have stands := tracked.stands
    simpa only [Stands, point] using stands

/-- All calls are explained by one sequential run of the handlers. -/
structure Explained (handler : Index → Object → Request → Object × List UInt8)
    (objects : Index → Object) (world : World Client Index Object)
    (effects : List (Served Index)) : Prop where
  linearizes : Linearizes (apply handler) objects world.mesh.history effects
  objects_eq : world.mesh.objects = objectAfter (apply handler) objects (effects.map Effect.op)
  each : ∀ call ∈ world.calls, Explains effects call
  apart : ∀ (first second : Nat) one other, world.calls[first]? = some one →
    world.calls[second]? = some other → first ≠ second →
      (effectsOf effects one).Disjoint (effectsOf effects other)
  ordered : ∀ first second, Precedes world.history first second →
    ∀ one other received reply, world.calls[first]? = some one →
      one.phase = .replied received reply → world.calls[second]? = some other →
        ∀ later ∈ effectsOf effects other,
          [received, later.id].Sublist (effects.map Effect.id)

/-- Whatever the lanes, the node and the instances do, the calls take effect in
one sequential run of the handlers: each of them no more often than it may be
sent, with the reply that it returns, and after the calls that had returned. -/
theorem explained_of_execute
    (reached : execute (World.step config handler) (World.initial objects lanes) trace =
      some final)
    (few : Few final.mesh) :
    ∃ effects, Explained handler objects final effects := by
  have accounted := accounted_of_execute reached
  obtain ⟨labels, ran⟩ := mesh_of_execute reached
  obtain ⟨effects, linked⟩ := Mesh.linked_of_execute ran few
  refine ⟨effects, linked.linearizes, linked.objects_eq, ?_, ?_, ?_⟩
  · intro call member
    obtain ⟨id, here⟩ := List.getElem?_of_mem member
    exact (accounted.tracked id call here).explains linked
  · intro first second one other here there different effect member shared
    have mine := of_decide_eq_true (List.mem_filter.mp member).2
    have theirs := of_decide_eq_true (List.mem_filter.mp shared).2
    exact different (accounted.apart first second one other here there _ mine theirs)
  · intro first second precedes one other received reply here point there later member
    obtain ⟨effective, own⟩ := List.mem_filter.mp member
    have before := accounted.ordered first second precedes one other received reply here point
      there later.id (of_decide_eq_true own)
    exact linked.linearizes.ordered received later.id before (List.mem_map_of_mem effective)

/-- The lane dies after the node has received the request, the first instance
handles both copies and stays silent, and the second one replies.  Then another
call asks the first instance. -/
def interrupted : List (Label Unit Bool) :=
  [.mesh (.resume false .openOk), .mesh (.resume true .openOk),
    .begin () Mesh.tick [false, true], .send 0 true (some 1), .mesh (.deliver 0 0),
    .mesh (.handle false), .laneDies (), .land 0, .send 0 false (some 2),
    .mesh (.resume false .replyOk), .mesh (.deliver 1 0), .mesh (.handle false), .fail 0,
    .send 0 false (some 1), .mesh (.deliver 2 0), .mesh (.handle true), .reply 0 [0],
    .mesh (.resume false .replyOk), .begin () Mesh.tick [false], .send 1 false (some 3),
    .mesh (.deliver 3 0), .mesh (.handle false), .reply 1 [2]]

theorem explained_of_execute_interrupted :
    ∃ final : World Unit Bool Nat,
      execute (World.step (fun _ => anyTopic) fun _ => Mesh.counter ())
        (World.initial (fun _ => 0) fun _ => true) interrupted = some final ∧
      final.history =
        [.invoked 0 Mesh.tick, .returned 0 [0], .invoked 1 Mesh.tick, .returned 1 [2]] ∧
      ∃ effects, Explained (fun _ => Mesh.counter ()) (fun _ => 0) final effects := by
  have reached : execute (World.step (fun _ => anyTopic) fun _ => Mesh.counter ())
      (World.initial (fun _ => 0) fun _ => true) interrupted =
        some (_ : World Unit Bool Nat) := rfl
  refine ⟨_, reached, rfl, explained_of_execute reached fun target => ?_⟩
  cases target with
  | false =>
      show 3 ≤ dedupLimit
      decide
  | true =>
      show 1 ≤ dedupLimit
      decide

end CeRs.Calling
