import CeRs.Locate.Distinct

/-!
# How many fault domains a call survives

`call` asks `locate` for at least three instances and sends its request to one
after the other until one replies.  With instances of different fault domains
among them, the call gets a reply although some domains are lost; how many it
can lose is exactly the number of domains that are asked for and that there
are, less one.
-/

namespace CeRs.Locate

open Capability (LocateOpts Sent CallError locateCall failover failover_cases requestsTo
  failed_iff failed_split)
open Memory (Allocator)
open Object (Outcome)

variable {Score : Type}

/-- The options with which `call` locates the instances. -/
def callOpts (opts : LocateOpts) : LocateOpts :=
  { opts with want := max opts.want 3 }

/-- `call`, with the requests it sends. -/
def call [LinearOrder Score] (allocator : Allocator) (scoring : Scoring Score)
    (answers : Answers) (request : Nat → Sent → Except String (List UInt8))
    (service topic : String) (payload : List UInt8) (opts : LocateOpts) (timeoutMs : UInt64) :
    Outcome (List Sent × Except CallError (List UInt8)) :=
  let contact (located : Except String (List String)) :=
    Outcome.ok (locateCall (fun _ => located) request service topic payload opts timeoutMs)
  match locate allocator scoring answers (callOpts opts) with
  | .panic => .panic
  | .err message => contact (.error message)
  | .ok instances => contact (.ok (instances.map Instance.nodeId))

section Requests

variable {Instance Failure Reply : Type} {request : Nat → Instance → Except Failure Reply}

/-- The loop gets a reply if one of the instances replies whenever it is asked. -/
theorem failover_of_reply {instances : List Instance} {node : Instance} (member : node ∈ instances)
    (replies : ∀ attempt, ∃ reply, request attempt node = .ok reply) (last : Option Failure) :
    ∃ contacted reply, failover request 0 last instances = (contacted, .ok reply) := by
  rcases failover_cases request 0 last instances with
    ⟨before, found, after, reply, -, -, -, tried⟩ | ⟨failed, -⟩
  · exact ⟨_, reply, tried⟩
  · obtain ⟨before, after, rfl⟩ := List.append_of_mem member
    obtain ⟨failure, fails⟩ := failed_split failed
    obtain ⟨reply, answered⟩ := replies (0 + before.length)
    rw [answered] at fails
    cases fails

/-- The loop gets no reply if no instance ever replies. -/
theorem failover_of_failed {instances : List Instance}
    (fails : ∀ node ∈ instances, ∀ attempt, ∃ failure, request attempt node = .error failure)
    (last : Option Failure) :
    ∃ final, failover request 0 last instances = (instances, .error final) := by
  refine Capability.failover_of_failed (failed_iff.mpr fun index node here => ?_) last
  exact fails node (List.mem_of_getElem? here) (0 + index)

end Requests

section Calling

variable {nodes : List String} {request : Nat → Sent → Except String (List UInt8)}
  {service topic : String} {payload : List UInt8} {opts : LocateOpts} {timeoutMs : UInt64}

theorem locateCall_of_reply {node : String} (member : node ∈ nodes)
    (replies : ∀ attempt, ∃ reply, request attempt ⟨node, topic, payload, timeoutMs⟩ = .ok reply) :
    ∃ sent reply, locateCall (fun _ => .ok nodes) request service topic payload opts timeoutMs =
      (sent, .ok reply) := by
  have known : (⟨node, topic, payload, timeoutMs⟩ : Sent) ∈
      requestsTo nodes topic payload timeoutMs := List.mem_map_of_mem member
  obtain ⟨contacted, reply, tried⟩ := failover_of_reply known replies none
  refine ⟨contacted, reply, ?_⟩
  simp [locateCall, List.ne_nil_of_mem member, tried]

theorem locateCall_of_failed
    (fails : ∀ node ∈ nodes, ∀ attempt, ∃ failure,
      request attempt ⟨node, topic, payload, timeoutMs⟩ = .error failure) :
    ∃ sent error, locateCall (fun _ => .ok nodes) request service topic payload opts timeoutMs =
      (sent, .error error) := by
  by_cases empty : nodes = []
  · exact ⟨[], .noInstance service, by simp [locateCall, empty]⟩
  · have each : ∀ sent ∈ requestsTo nodes topic payload timeoutMs, ∀ attempt,
        ∃ failure, request attempt sent = .error failure := by
      intro sent member
      obtain ⟨node, listed, rfl⟩ := List.mem_map.mp member
      exact fails node listed
    obtain ⟨final, tried⟩ := failover_of_failed each none
    cases final with
    | none => exact ⟨_, .allFailed service, by simp [locateCall, empty, tried]; rfl⟩
    | some message => exact ⟨_, .request message, by simp [locateCall, empty, tried]; rfl⟩

end Calling

section Domains

variable {scored : List (Instance Score)}

/-- Every instance outside of the lost domains replies whenever it is asked. -/
def OthersReply (scored : List (Instance Score)) (lost : Finset Domain)
    (request : Nat → Sent → Except String (List UInt8)) (topic : String) (payload : List UInt8)
    (timeoutMs : UInt64) : Prop :=
  ∀ position : Fin scored.length, domainAt scored position ∉ lost → ∀ attempt, ∃ reply,
    request attempt ⟨(scored.get position).nodeId, topic, payload, timeoutMs⟩ = .ok reply

/-- The chosen nodes are out of reach. -/
def unreachable (nodes : List String) (_ : Nat) (sent : Sent) : Except String (List UInt8) :=
  if sent.node ∈ nodes then .error "unreachable" else .ok []

variable [LinearOrder Score]

variable (scored) in
/-- The nodes that are asked, in turn. -/
def askedNodes (want : Nat) : List String :=
  (chosen scored want).map fun position => (scored.get position).nodeId

variable {want losses : Nat} {service topic : String} {payload : List UInt8} {opts : LocateOpts}
  {timeoutMs : UInt64}

/-- A choice with more domains than are lost has an instance that replies. -/
theorem reply_of_fewer (fair : Fair scored want (chosen scored want)) {lost : Finset Domain}
    (fewer : lost.card < min want (domainsOf (List.finRange scored.length)).card)
    {request : Nat → Sent → Except String (List UInt8)}
    (replies : OthersReply scored lost request topic payload timeoutMs) :
    ∃ sent reply, locateCall (fun _ => .ok (askedNodes scored want)) request service topic payload
      opts timeoutMs = (sent, .ok reply) := by
  rw [← fair.domains] at fewer
  obtain ⟨domain, present, outside⟩ := Finset.exists_mem_notMem_of_card_lt_card fewer
  obtain ⟨position, taken, rfl⟩ := List.mem_map.mp (List.mem_toFinset.mp present)
  exact locateCall_of_reply (List.mem_map_of_mem taken) (replies position outside)

variable (scored want service topic payload opts timeoutMs) in
/-- The loss of all the domains of a choice is not survived. -/
theorem no_reply_of_unreachable :
    ∃ sent error, locateCall (fun _ => .ok (askedNodes scored want))
      (unreachable (askedNodes scored want)) service topic payload opts timeoutMs =
        (sent, .error error) :=
  locateCall_of_failed fun _ member _ => ⟨"unreachable", if_pos member⟩

theorem othersReply_unreachable
    (distinct : ∀ first second : Fin scored.length,
      (scored.get first).nodeId = (scored.get second).nodeId → first = second) :
    OthersReply scored (domainsOf (chosen scored want)) (unreachable (askedNodes scored want))
      topic payload timeoutMs := by
  intro position outside attempt
  refine ⟨[], if_neg fun member => outside ?_⟩
  obtain ⟨other, taken, same⟩ := List.mem_map.mp member
  obtain rfl := distinct other position same
  exact List.mem_toFinset.mpr (List.mem_map_of_mem taken)

end Domains

section Locating

variable {scoring : Scoring Score} {answers : Answers} {opts : LocateOpts} {ids : List String}
  {atlas : List AtlasEntry} [LinearOrder Score]

/-- Nodes that are listed once have one position each. -/
theorem position_of_nodeId (nodup : ids.Nodup)
    (first second : Fin (ranked (eligible scoring answers opts ids atlas)).length)
    (same : ((ranked (eligible scoring answers opts ids atlas)).get first).nodeId =
      ((ranked (eligible scoring answers opts ids atlas)).get second).nodeId) :
    first = second := by
  have listed : ((eligible scoring answers opts ids atlas).map Instance.nodeId).Nodup := by
    rw [List.Nodup, List.pairwise_map, eligible, List.pairwise_filterMap]
    refine nodup.imp fun different inst found inst' found' same => different ?_
    rwa [nodeId_of_candidate found, nodeId_of_candidate found'] at same
  have perm : ((ranked (eligible scoring answers opts ids atlas)).map Instance.nodeId).Perm
      ((eligible scoring answers opts ids atlas).map Instance.nodeId) :=
    (List.mergeSort_perm _ _).map _
  have injective := List.nodup_iff_injective_get.mp (perm.nodup_iff.mpr listed)
  have indices := @injective (first.cast (List.length_map _).symm)
    (second.cast (List.length_map _).symm) (by simpa using same)
  exact Fin.ext (by simpa using congrArg Fin.val indices)

variable (scoring answers opts ids atlas) in
theorem fair_eligible (want : Nat) :
    Fair (ranked (eligible scoring answers opts ids atlas)) want
      (chosen (ranked (eligible scoring answers opts ids atlas)) want) := by
  refine chosen_fair (fun inst member => ⟨inst.tags, ?_⟩) (pairwise_ranked _) want
  exact faultDomain_of_candidate (mem_eligible.mp (mem_ranked.mp member)).2

theorem call_eq {allocator : Allocator} (scoring : Scoring Score)
    (providers : answers.providers = .ok ids) (entries : answers.atlas = .ok atlas)
    (spreads : opts.spreadDomains = true)
    (granted : allocator.Grants ((callOpts opts).want * instanceSize))
    (request : Nat → Sent → Except String (List UInt8)) (service topic : String)
    (payload : List UInt8) (timeoutMs : UInt64) :
    call allocator scoring answers request service topic payload opts timeoutMs =
      .ok (locateCall
        (fun _ => .ok (askedNodes (ranked (eligible scoring answers (callOpts opts) ids atlas))
          (callOpts opts).want)) request service topic payload opts timeoutMs) := by
  have several : Spreads (callOpts opts) :=
    ⟨(Nat.le_succ 2).trans (Nat.le_max_right opts.want 3), spreads⟩
  have located := locate_eq_selected scoring providers entries fun _ => granted
  rw [selected, if_pos several] at located
  rw [call, located]
  simp only [askedNodes, List.map_map]
  rfl

/-- A call survives the loss of any so many fault domains if and only if there
are more of them among the instances that it asks for. -/
theorem call_survives_iff {allocator : Allocator} (scoring : Scoring Score)
    (providers : answers.providers = .ok ids) (entries : answers.atlas = .ok atlas)
    (nodup : ids.Nodup) (spreads : opts.spreadDomains = true)
    (granted : allocator.Grants ((callOpts opts).want * instanceSize)) (service topic : String)
    (payload : List UInt8) (timeoutMs : UInt64) (losses : Nat) :
    (∀ lost : Finset Domain, lost.card ≤ losses → ∀ request,
        OthersReply (ranked (eligible scoring answers (callOpts opts) ids atlas)) lost request
            topic payload timeoutMs →
          ∃ sent reply,
            call allocator scoring answers request service topic payload opts timeoutMs =
            .ok (sent, .ok reply)) ↔
      losses < min (max opts.want 3) (domainsOf (List.finRange
        (ranked (eligible scoring answers (callOpts opts) ids atlas)).length)).card := by
  have fair := fair_eligible scoring answers (callOpts opts) ids atlas (callOpts opts).want
  have asks := call_eq scoring providers entries spreads granted
  constructor
  · intro survives
    by_contra many
    obtain ⟨sent, reply, answered⟩ := survives _ (fair.domains.trans_le (Nat.le_of_not_lt many)) _
      (othersReply_unreachable (position_of_nodeId nodup))
    obtain ⟨contacted, error, failed⟩ := no_reply_of_unreachable
      (ranked (eligible scoring answers (callOpts opts) ids atlas)) (callOpts opts).want service
      topic payload opts timeoutMs
    rw [asks, failed] at answered
    simp at answered
  · intro fewer lost card request replies
    obtain ⟨sent, reply, tried⟩ := reply_of_fewer fair (card.trans_lt fewer) replies
    exact ⟨sent, reply, (asks ..).trans (congrArg Outcome.ok tried)⟩

end Locating

/-- Only the node in the other region replies. -/
def onlySecond (_ : Nat) (sent : Sent) : Except String (List UInt8) :=
  if sent.node = "b" then .ok [1] else .error "unreachable"

def singleSpread : LocateOpts := ⟨1, [], 120, true⟩

theorem call_survives_iff_crossing :
    ∃ sent reply, call .ample byCores crossing onlySecond "service" "service/rpc" [] singleSpread
      5000 = .ok (sent, .ok reply) := by
  have providers : crossing.providers = .ok ["a", "b", "c"] := rfl
  have entries : crossing.atlas = .ok _ := rfl
  have granted : Allocator.ample.Grants ((callOpts singleSpread).want * instanceSize) :=
    Allocator.grants_ample.mpr (by decide)
  have survives := call_survives_iff byCores providers entries (by decide) rfl granted
    "service" "service/rpc" [] 5000 1
  have listed : live byCores crossing (callOpts singleSpread) = crossingLive := rfl
  rw [← live_eq providers entries, listed, ranked_crossing] at survives
  refine survives.mpr (by decide) {.named "region:eu"} (by decide) onlySecond ?_
  intro position outside attempt
  have second : ∀ position : Fin crossingLive.length,
      domainAt crossingLive position ∉ ({.named "region:eu"} : Finset Domain) →
        (crossingLive.get position).nodeId = "b" := by decide
  exact ⟨[1], if_pos (second position outside)⟩

end CeRs.Locate
