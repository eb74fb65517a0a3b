import CeRs.Capability.Call
import CeRs.Mesh.Calls
import Mathlib.Data.List.Count

/-!
# How often a located call is sent

The node receives the request of a call at most once for each place of an
instance on its list, and once more for the instance where the lane died.  The
invariant below says so of one call at any moment, with what the call waits for
and what it has been answered.  A call that has ended has gone through its
instances as `failover` does.
-/

namespace CeRs.Calling

open Transition Serve
open Mesh (Grows)
open Capability (failover failed_iff)

variable {Client Index Object : Type*}

/-- The requests of the call that the node has received. -/
def Call.ids (call : Call Client Index) : List Nat :=
  call.sent.map Prod.snd

/-- The instances that the loop has come to. -/
def Call.targets (call : Call Client Index) : List Index :=
  call.instances.take call.tried

/-- Where the call stands, with what it has sent and what the node has answered. -/
def Stands (mesh : Mesh.World Index Object) (call : Call Client Index) : Prop :=
  match call.phase with
  | .choosing => True
  | .waiting target received overLane =>
      call.targets.getLast? = some target ∧ (∀ id ∈ received, (target, id) ∈ call.sent) ∧
        (overLane = true → call.fellBack = none)
  | .resending target => call.targets.getLast? = some target
  | .replied received reply => ∃ target, call.targets.getLast? = some target ∧
      (target, received) ∈ call.sent ∧ .returned received reply ∈ mesh.history
  | .failed => call.targets = call.instances

theorem Stands.grow {mesh next : Mesh.World Index Object} {call : Call Client Index}
    (stands : Stands mesh call) (grows : Grows mesh next) : Stands next call := by
  unfold Stands at stands ⊢
  cases point : call.phase with
  | choosing => trivial
  | waiting | resending | failed => simpa only [point] using stands
  | replied received reply =>
      simp only [point] at stands ⊢
      obtain ⟨target, last, sent, returned⟩ := stands
      exact ⟨target, last, sent, grows.history.subset returned⟩

section Moves

variable [DecidableEq Index]

/-- How often the node may receive the request for the instance. -/
def Call.allowance (call : Call Client Index) (target : Index) : Nat :=
  call.targets.count target + if call.fellBack = some target then 1 else 0

/-- The request is about to go out once more. -/
def Call.owed (call : Call Client Index) (target : Index) : Nat :=
  if call.phase = .resending target then 1 else 0

/-- The invariant of one call. -/
structure Tracked (mesh : Mesh.World Index Object) (lane : Bool) (call : Call Client Index) :
    Prop where
  asked : ∀ target id, (target, id) ∈ call.sent →
    ∃ token, mesh.asked[id]? = some ⟨target, call.request, token⟩
  nodup : call.ids.Nodup
  bounded : ∀ target, (call.sent.map Prod.fst).count target + call.owed target ≤
    call.allowance target
  fellBack : ∀ target, call.fellBack = some target → target ∈ call.targets
  lane : lane = true → call.fellBack = none
  stands : Stands mesh call

theorem tracked_begin (mesh : Mesh.World Index Object) (client : Client) (request : Request)
    (instances : List Index) (lane : Bool) :
    Tracked mesh lane (.begin client request instances) where
  asked := by simp [Call.begin]
  nodup := by simp [Call.begin, Call.ids]
  bounded := by simp [Call.begin, Call.owed]
  fellBack := by simp [Call.begin]
  lane := fun _ => rfl
  stands := trivial

section Call

variable {mesh next : Mesh.World Index Object} {lane : Bool} {call : Call Client Index}

theorem Tracked.grow (tracked : Tracked mesh lane call) (grows : Grows mesh next) {later : Bool}
    (fewer : later = true → lane = true) : Tracked next later call where
  asked := fun target id member => by
    obtain ⟨token, here⟩ := tracked.asked target id member
    exact ⟨token, getElem?_of_prefix grows.asked here⟩
  nodup := tracked.nodup
  bounded := tracked.bounded
  fellBack := tracked.fellBack
  lane := fun alive => tracked.lane (fewer alive)
  stands := tracked.stands.grow grows

theorem Tracked.id_lt (tracked : Tracked mesh lane call) {id : Nat} (member : id ∈ call.ids) :
    id < mesh.asked.length := by
  obtain ⟨⟨target, other⟩, sent, rfl⟩ := List.mem_map.mp member
  obtain ⟨token, here⟩ := tracked.asked target _ sent
  exact (List.getElem?_eq_some_iff.mp here).1

theorem Tracked.target_mem (tracked : Tracked mesh lane call) {target : Index} {id : Nat}
    (sent : (target, id) ∈ call.sent) : target ∈ call.targets := by
  by_cases fell : call.fellBack = some target
  · exact tracked.fellBack target fell
  · have listed : 0 < (call.sent.map Prod.fst).count target :=
      List.count_pos_iff.mpr (List.mem_map_of_mem sent)
    have bound := tracked.bounded target
    rw [Call.allowance, if_neg fell] at bound
    exact List.count_pos_iff.mp (by omega)

theorem Tracked.sends (tracked : Tracked mesh lane call) (grows : Grows mesh next)
    {target : Index} {received : Option Nat} {overLane : Bool}
    (asked : ∀ id ∈ received, ∃ token,
      next.asked[id]? = some ⟨target, call.request, token⟩)
    (new : ∀ id ∈ received, mesh.asked.length ≤ id)
    (room : (call.sent.map Prod.fst).count target < call.allowance target)
    (last : call.targets.getLast? = some target)
    (alive : overLane = true → call.fellBack = none) :
    Tracked next lane (call.send target received overLane) := by
  refine ⟨?_, ?_, ?_, tracked.fellBack, tracked.lane, last, ?_, alive⟩
  · intro other id member
    rcases List.mem_append.mp member with earlier | latest
    · exact (tracked.grow grows fun alive => alive).asked other id earlier
    · obtain ⟨same, there, ⟨⟩⟩ := Option.map_eq_some_iff.mp (Option.mem_toList.mp latest)
      exact asked id there
  · cases received with
    | none => simpa [Call.ids, Call.send] using tracked.nodup
    | some id =>
        have fresh : id ∉ call.ids := fun member =>
          absurd (tracked.id_lt member) (Nat.not_lt.mpr (new id rfl))
        have whole : (call.send target (some id) overLane).ids = call.ids ++ [id] := by
          simp [Call.ids, Call.send]
        rw [whole]
        exact List.nodup_append.mpr ⟨tracked.nodup, List.nodup_singleton id, by
          rintro other member _ (_ | ⟨_, ⟨⟩⟩) rfl
          exact fresh member⟩
  · intro other
    have bound := tracked.bounded other
    have free : (call.send target received overLane).owed other = 0 := by
      simp [Call.owed, Call.send]
    rw [free, Nat.add_zero]
    change ((call.sent ++ _).map Prod.fst).count other ≤ call.allowance other
    rw [List.map_append, List.count_append]
    by_cases same : other = target
    · subst same
      cases received with
      | none => simp; omega
      | some id => simp; omega
    · have unsent :
          (((received.map fun id => (target, id)).toList).map Prod.fst).count other = 0 := by
        cases received with
        | none => rfl
        | some id => simp [Ne.symm same]
      omega
  · intro id member
    obtain rfl : received = some id := member
    simp [Call.send]

theorem Tracked.reach (tracked : Tracked mesh lane call) {phase : Phase Index}
    (settled : ∀ target, phase ≠ .resending target)
    (stands : Stands mesh (call.reach phase)) : Tracked mesh lane (call.reach phase) where
  asked := tracked.asked
  nodup := tracked.nodup
  bounded := fun target => by
    have free : (call.reach phase).owed target = 0 := if_neg (settled target)
    have bound := tracked.bounded target
    rw [free]
    exact le_trans (Nat.le_add_right _ _) bound
  fellBack := tracked.fellBack
  lane := tracked.lane
  stands := stands

theorem Tracked.land (tracked : Tracked mesh false call) {target : Index} {received : Option Nat}
    (point : call.phase = .waiting target received true) :
    Tracked mesh false (call.land target) := by
  have stands := tracked.stands
  simp only [Stands, point] at stands
  obtain ⟨last, -, overLane⟩ := stands
  refine ⟨tracked.asked, tracked.nodup, ?_, ?_, fun alive => by simp at alive, last⟩
  · intro other
    have bound := tracked.bounded other
    simp only [Call.owed, Call.allowance, point, overLane trivial, reduceCtorEq, if_false] at bound
    simp only [Call.owed, Call.allowance, Call.land, Call.targets, Phase.resending.injEq,
      Option.some.injEq] at bound ⊢
    omega
  · rintro other ⟨⟩
    exact List.mem_of_getLast? last

omit [DecidableEq Index] in
theorem targets_choose {target : Index} (here : call.instances[call.tried]? = some target) :
    call.choose.targets = call.targets ++ [target] := by
  simp [Call.targets, Call.choose, List.take_add_one, here]

theorem Tracked.choose (tracked : Tracked mesh lane call) (point : call.phase = .choosing)
    {target : Index} (here : call.instances[call.tried]? = some target) :
    Tracked mesh lane call.choose ∧
      (call.sent.map Prod.fst).count target < call.choose.allowance target := by
  have grown : ∀ other, call.choose.allowance other =
      call.allowance other + [target].count other := by
    intro other
    rw [Call.allowance, targets_choose here, List.count_append]
    exact Nat.add_right_comm ..
  have bound := fun other => le_trans (Nat.le_add_right _ _) (tracked.bounded other)
  refine ⟨⟨tracked.asked, tracked.nodup, ?_, ?_, tracked.lane, ?_⟩, ?_⟩
  · intro other
    have kept : call.choose.owed other = call.owed other := rfl
    rw [kept, grown]
    exact le_trans (tracked.bounded other) (Nat.le_add_right _ _)
  · intro other fell
    rw [targets_choose here]
    exact List.mem_append_left _ (tracked.fellBack other fell)
  · simp [Stands, Call.choose, point]
  · rw [grown, List.count_singleton_self]
    exact Nat.lt_succ_of_le (bound target)

end Call

variable {world : World Client Index Object} {mesh : Mesh.World Index Object}
  {call after : Call Client Index} {asked : Option (Mesh.Asked Index)}

omit [DecidableEq Index] in
theorem CallMoves.client_eq (moves : CallMoves world call after asked) :
    after.client = call.client := by
  cases moves <;> rfl

omit [DecidableEq Index] in
theorem CallMoves.unanswered (moves : CallMoves world call after asked) (received : Nat)
    (reply : List UInt8) : call.phase ≠ .replied received reply := by
  cases moves with
  | tries _ _ point | resends _ point | exhausted point | lands _ _ point | fails _ _ _ point =>
      simp [point]

omit [DecidableEq Index] in
theorem CallMoves.ids (moves : CallMoves world call after asked) {id : Nat}
    (member : id ∈ after.ids) :
    id ∈ call.ids ∨ asked.isSome ∧ id = world.mesh.asked.length := by
  cases moves with
  | tries target _ _ _ _ token | resends target _ token =>
      cases token with
      | none => exact .inl (by simpa [Call.ids, Call.send, Call.choose] using member)
      | some token => simpa [Call.ids, Call.send, Call.choose] using member
  | exhausted | lands | fails => exact .inl member

theorem Tracked.moves (tracked : Tracked world.mesh (world.lanes call.client) call)
    (moves : CallMoves world call after asked) (grows : Grows world.mesh mesh)
    (new : ∀ request ∈ asked, mesh.asked[world.mesh.asked.length]? = some request) :
    Tracked mesh (world.lanes call.client) after := by
  cases moves with
  | tries target overLane point here lane token =>
      obtain ⟨chosen, room⟩ := tracked.choose point here
      refine chosen.sends grows ?_ ?_ room ?_ fun alive => tracked.lane (lane alive)
      · intro id member
        cases token with
        | none => simp at member
        | some token =>
            obtain rfl : world.mesh.asked.length = id := by simpa using member
            exact ⟨token, new _ rfl⟩
      · intro id member
        cases token <;> simp at member
        omega
      · simp [targets_choose here]
  | resends target point token =>
      have stands := tracked.stands
      simp only [Stands, point] at stands
      refine tracked.sends grows ?_ ?_ ?_ stands (by simp)
      · intro id member
        cases token with
        | none => simp at member
        | some token =>
            obtain rfl : world.mesh.asked.length = id := by simpa using member
            exact ⟨token, new _ rfl⟩
      · intro id member
        cases token <;> simp at member
        omega
      · have bound := tracked.bounded target
        rw [Call.owed, if_pos point] at bound
        omega
  | exhausted point beyond =>
      have stands : Stands world.mesh (call.reach .failed) := List.take_of_length_le beyond
      exact (tracked.reach (by simp) stands).grow grows fun alive => alive
  | lands target received point dead =>
      rw [dead] at tracked ⊢
      exact (tracked.land point).grow grows fun alive => alive
  | fails target received overLane point =>
      have stands : Stands world.mesh (call.reach .choosing) := trivial
      exact (tracked.reach (by simp) stands).grow grows fun alive => alive

theorem Tracked.replied (tracked : Tracked world.mesh (world.lanes call.client) call)
    {target : Index} {received : Nat} {overLane : Bool}
    (point : call.phase = .waiting target (some received) overLane) {reply : List UInt8}
    (grows : Grows world.mesh mesh) (routed : .returned received reply ∈ mesh.history) :
    Tracked mesh (world.lanes call.client) (call.reach (.replied received reply)) := by
  have stands := tracked.stands
  simp only [Stands, point] at stands
  obtain ⟨last, sent, -⟩ := stands
  exact (tracked.grow grows fun alive => alive).reach (by simp)
    ⟨target, last, sent received rfl, routed⟩

end Moves

section Loop

variable {mesh : Mesh.World Index Object} {call : Call Client Index}

/-- What the instance in this place has replied. -/
def Call.replyAt (call : Call Client Index) (place : Nat) (_ : Index) :
    Except Unit (List UInt8) :=
  match call.phase with
  | .replied _ reply => if place + 1 = call.targets.length then .ok reply else .error ()
  | _ => .error ()

/-- The instances of a call that has a reply are those up to the one that gave it. -/
theorem Stands.failover_of_replied (stands : Stands mesh call) {received : Nat}
    {reply : List UInt8} (point : call.phase = .replied received reply) :
    failover call.replyAt 0 none call.instances = (call.targets, .ok reply) := by
  simp only [Stands, point] at stands
  obtain ⟨target, last, -⟩ := stands
  obtain ⟨before, targets⟩ := List.getLast?_eq_some_iff.mp last
  have split : call.instances = before ++ target :: call.instances.drop call.tried := by
    calc
      _ = call.targets ++ call.instances.drop call.tried := (List.take_append_drop ..).symm
      _ = before ++ target :: call.instances.drop call.tried := by rw [targets]; simp
  rw [split, targets]
  refine Capability.failover_of_replied (failed_iff.mpr fun place node here => ?_) ?_ none
  · have early := (List.getElem?_eq_some_iff.mp here).1
    refine ⟨(), ?_⟩
    simp only [Call.replyAt, point, targets, List.length_append, List.length_singleton]
    exact if_neg (by omega)
  · simp [Call.replyAt, point, targets]

theorem Stands.failover_of_failed (stands : Stands mesh call) (point : call.phase = .failed) :
    ∃ last, failover call.replyAt 0 none call.instances = (call.targets, .error last) := by
  simp only [Stands, point] at stands
  rw [stands]
  exact Capability.failover_of_failed
    (failed_iff.mpr fun place node here => ⟨(), by simp [Call.replyAt, point]⟩) none

end Loop

end CeRs.Calling
