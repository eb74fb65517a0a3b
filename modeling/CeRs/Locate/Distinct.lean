import CeRs.Locate.Redundancy
import CeRs.Locate.Scores

/-!
# Whether the chosen instances are different nodes

A node that is listed twice is a candidate twice.  The chosen instances are
different nodes, and as many as there can be, unless two listings of one node
are among the first in the order of choice.
-/

namespace CeRs.Locate

open Capability (LocateOpts)
open Memory (Allocator)
open Object (Outcome)

section Selecting

variable {Score : Type} [LinearOrder Score]

/-- The positions of the instances that are chosen from a ranked list. -/
def selectedPositions (scored : List (Instance Score)) (opts : LocateOpts) :
    List (Fin scored.length) :=
  if Spreads opts then chosen scored opts.want
  else (List.finRange scored.length).take (max opts.want 1)

/-- How many instances are chosen before the one at a position. -/
def placeOf (scored : List (Instance Score)) (opts : LocateOpts)
    (position : Fin scored.length) : Nat :=
  if Spreads opts then rankOf scored position else position

/-- No two listings of a node are among the first that are chosen. -/
def ChosenOnce (scored : List (Instance Score)) (opts : LocateOpts) : Prop :=
  ∀ first second, first ≠ second → (scored.get first).nodeId = (scored.get second).nodeId →
    placeOf scored opts first < max opts.want 1 → max opts.want 1 ≤ placeOf scored opts second

variable {scored instances : List (Instance Score)} {opts : LocateOpts}

theorem max_want_of_spreads (spreads : Spreads opts) : max opts.want 1 = opts.want := by
  have several := spreads.1
  omega

theorem selected_eq_map :
    selected instances opts =
      (selectedPositions (ranked instances) opts).map (ranked instances).get := by
  rw [selected, selectedPositions]
  split
  · rfl
  · rw [List.map_take, ← List.ofFn_eq_map, List.ofFn_get]

theorem mem_selectedPositions {position : Fin scored.length} :
    position ∈ selectedPositions scored opts ↔
      placeOf scored opts position < max opts.want 1 := by
  rw [selectedPositions, placeOf]
  by_cases spreads : Spreads opts
  · rw [if_pos spreads, if_pos spreads, mem_chosen_iff, max_want_of_spreads spreads]
  · rw [if_neg spreads, if_neg spreads, List.mem_take_iff_getElem]
    constructor
    · rintro ⟨index, bound, rfl⟩
      rw [List.getElem_finRange]
      exact (Nat.lt_min.mp bound).1
    · intro before
      refine ⟨position, Nat.lt_min.mpr ⟨before, by simp⟩, ?_⟩
      rw [List.getElem_finRange]
      rfl

theorem nodup_selectedPositions : (selectedPositions scored opts).Nodup := by
  rw [selectedPositions]
  split
  · have perm := RoundRobin.allRounds_perm (@lists_bucketOrder _ scored _)
    exact (perm.nodup_iff.mpr (List.nodup_finRange _)).sublist (List.take_sublist _ _)
  · exact (List.nodup_finRange _).sublist (List.take_sublist _ _)

theorem length_selectedPositions :
    (selectedPositions scored opts).length = min (max opts.want 1) scored.length := by
  rw [selectedPositions]
  split
  case isTrue spreads =>
      rw [chosen, RoundRobin.length_taken lists_bucketOrder, List.length_finRange,
        max_want_of_spreads spreads]
  case isFalse => rw [List.length_take, List.length_finRange]

/-- The chosen instances are different nodes exactly if each is chosen once. -/
theorem nodup_selected_iff :
    ((selected instances opts).map Instance.nodeId).Nodup ↔
      ChosenOnce (ranked instances) opts := by
  rw [selected_eq_map, List.map_map, List.nodup_map_iff_inj_on nodup_selectedPositions]
  simp only [mem_selectedPositions]
  constructor
  · intro injective first second different same before
    by_contra chosen
    exact different (injective first before second (Nat.not_le.mp chosen) same)
  · intro once first before second before' same
    by_contra different
    exact absurd before' (Nat.not_lt.mpr (once first second different same before))

end Selecting

section Locating

variable {Score : Type} {answers : Answers} {opts : LocateOpts} {ids : List String}
  {atlas : List AtlasEntry}

instance : DecidablePred (Eligible answers opts atlas) := fun _ =>
  decidable_of_iff _ (isSome_candidate_iff ⟨(), fun _ _ _ _ _ _ => ()⟩)

variable (answers opts ids atlas) in
/-- The different nodes that can be chosen. -/
def eligibleNodes : Finset String :=
  ids.toFinset.filter (Eligible answers opts atlas)

theorem toFinset_eligible (scoring : Scoring Score) :
    ((eligible scoring answers opts ids atlas).map Instance.nodeId).toFinset =
      eligibleNodes answers opts ids atlas := by
  ext id
  rw [eligibleNodes, Finset.mem_filter, List.mem_toFinset, List.mem_toFinset, List.mem_map,
    ← isSome_candidate_iff scoring, Option.isSome_iff_exists]
  constructor
  · rintro ⟨inst, member, rfl⟩
    obtain ⟨listed, found⟩ := mem_eligible.mp member
    exact ⟨listed, inst, found⟩
  · rintro ⟨listed, inst, found⟩
    have node := nodeId_of_candidate found
    exact ⟨inst, mem_eligible.mpr ⟨node.symm ▸ listed, node.symm ▸ found⟩, node⟩

variable [LinearOrder Score] {scoring : Scoring Score}

theorem mem_of_mem_selected {instances : List (Instance Score)} {inst : Instance Score}
    (member : inst ∈ selected instances opts) : inst ∈ instances := by
  rw [selected_eq_map] at member
  obtain ⟨position, -, rfl⟩ := List.mem_map.mp member
  exact mem_ranked.mp (List.get_mem _ position)

theorem length_selected
    (nodup : ((selected (eligible scoring answers opts ids atlas) opts).map
      Instance.nodeId).Nodup) :
    (selected (eligible scoring answers opts ids atlas) opts).length =
      min (max opts.want 1) (eligibleNodes answers opts ids atlas).card := by
  have length : (selected (eligible scoring answers opts ids atlas) opts).length =
      min (max opts.want 1) (eligible scoring answers opts ids atlas).length := by
    rw [selected_eq_map, List.length_map, length_selectedPositions, ranked, List.length_mergeSort]
  have few : (selected (eligible scoring answers opts ids atlas) opts).length ≤
      (eligibleNodes answers opts ids atlas).card := by
    rw [← toFinset_eligible scoring, ← List.length_map (f := Instance.nodeId),
      ← List.toFinset_card_of_nodup nodup]
    refine Finset.card_le_card fun id member => ?_
    obtain ⟨inst, chosen, rfl⟩ := List.mem_map.mp (List.mem_toFinset.mp member)
    exact List.mem_toFinset.mpr (List.mem_map_of_mem (mem_of_mem_selected chosen))
  have many : (eligibleNodes answers opts ids atlas).card ≤
      (eligible scoring answers opts ids atlas).length := by
    rw [← toFinset_eligible scoring, ← List.length_map (f := Instance.nodeId)]
    exact List.toFinset_card_le _
  omega

theorem locate_eq_selected {allocator : Allocator} (scoring : Scoring Score)
    (providers : answers.providers = .ok ids) (entries : answers.atlas = .ok atlas)
    (granted : Spreads opts → allocator.Grants (opts.want * instanceSize)) :
    locate allocator scoring answers opts =
      .ok (selected (eligible scoring answers opts ids atlas) opts) := by
  by_cases none : ids = []
  · subst none
    have empty : selected (eligible scoring answers opts [] atlas) opts = [] :=
      List.eq_nil_iff_forall_not_mem.mpr fun inst member =>
        List.not_mem_nil (mem_of_mem_selected member)
    rw [locate, providers, empty]
  · rw [locate_eq_choose providers entries none, live_eq providers entries, choose_eq_selected,
      if_pos granted]

/-- The instances of `locate` are different eligible nodes, and as many as are
wanted or as there are, if and only if no two listings of one node are among the
first that are chosen. -/
theorem locate_distinct_iff {allocator : Allocator} (scoring : Scoring Score)
    (providers : answers.providers = .ok ids) (entries : answers.atlas = .ok atlas)
    (granted : Spreads opts → allocator.Grants (opts.want * instanceSize)) :
    (∃ result, locate allocator scoring answers opts = .ok result ∧
        (result.map Instance.nodeId).Nodup ∧
        (∀ inst ∈ result, inst.nodeId ∈ ids ∧ Eligible answers opts atlas inst.nodeId) ∧
        result.length = min (max opts.want 1) (eligibleNodes answers opts ids atlas).card) ↔
      ChosenOnce (ranked (eligible scoring answers opts ids atlas)) opts := by
  have located := locate_eq_selected scoring providers entries granted
  rw [← nodup_selected_iff]
  constructor
  · rintro ⟨result, returned, nodup, -⟩
    obtain rfl := Outcome.ok.inj (located.symm.trans returned)
    exact nodup
  · intro nodup
    refine ⟨_, located, nodup, fun inst member => ?_, length_selected nodup⟩
    obtain ⟨listed, found⟩ := mem_eligible.mp (mem_of_mem_selected member)
    exact ⟨listed, (isSome_candidate_iff scoring).mp (by rw [found]; rfl)⟩

theorem chosenOnce_of_nodup (nodup : ids.Nodup) :
    ChosenOnce (ranked (eligible scoring answers opts ids atlas)) opts := by
  have listed : ((eligible scoring answers opts ids atlas).map Instance.nodeId).Nodup := by
    rw [List.Nodup, List.pairwise_map, eligible, List.pairwise_filterMap]
    refine nodup.imp fun different inst found inst' found' same => different ?_
    rwa [nodeId_of_candidate found, nodeId_of_candidate found'] at same
  have perm : ((ranked (eligible scoring answers opts ids atlas)).map Instance.nodeId).Perm
      ((eligible scoring answers opts ids atlas).map Instance.nodeId) :=
    (List.mergeSort_perm _ _).map _
  have single := perm.nodup_iff.mpr listed
  rw [List.Nodup, List.pairwise_map, List.pairwise_iff_get] at single
  intro first second different same
  rcases lt_or_gt_of_ne different with less | greater
  · exact (single first second less same).elim
  · exact (single second first greater same.symm).elim

end Locating

/-- One node that is listed twice. -/
def listedTwice : Answers :=
  ⟨.ok ["a", "a"], .ok [larger], none, none, 100⟩

def listedInstance : Instance Nat :=
  ⟨"a", 8, 8, 4096, [], 100, none⟩

/-- Both instances that are chosen are the same node. -/
theorem same_node_chosen :
    (∃ result, locate .ample byCores listedTwice twoSpread = .ok result) ∧
      ¬ ∃ result, locate .ample byCores listedTwice twoSpread = .ok result ∧
        (result.map Instance.nodeId).Nodup := by
  have granted : Spreads twoSpread → Allocator.ample.Grants (twoSpread.want * instanceSize) :=
    fun _ => Allocator.grants_ample.mpr (by decide)
  have providers : listedTwice.providers = .ok ["a", "a"] := rfl
  have entries : listedTwice.atlas = .ok [larger] := rfl
  have listed : eligible byCores listedTwice twoSpread ["a", "a"] [larger] =
      [listedInstance, listedInstance] := rfl
  have located := locate_eq_selected byCores providers entries granted
  rw [listed] at located
  have sorted : ranked [listedInstance, listedInstance] = [listedInstance, listedInstance] :=
    List.mergeSort_of_pairwise (by simp)
  refine ⟨⟨_, located⟩, ?_⟩
  rintro ⟨result, returned, nodup⟩
  obtain rfl := Outcome.ok.inj (located.symm.trans returned)
  have once := nodup_selected_iff.mp nodup
  rw [sorted] at once
  exact absurd (once ⟨0, by decide⟩ ⟨1, by decide⟩ (by decide) rfl (by decide +kernel))
    (by decide +kernel)

/-- Three nodes that are listed once. -/
theorem locate_distinct_iff_crossing :
    ∃ result, locate .ample byCores crossing twoSpread = .ok result ∧
      (result.map Instance.nodeId).Nodup ∧ result.length = 2 := by
  have providers : crossing.providers = .ok ["a", "b", "c"] := rfl
  have granted : Spreads twoSpread → Allocator.ample.Grants (twoSpread.want * instanceSize) :=
    fun _ => Allocator.grants_ample.mpr (by decide)
  have exactly := locate_distinct_iff byCores providers rfl granted
  obtain ⟨result, located, nodup, -, length⟩ := exactly.mpr (chosenOnce_of_nodup (by decide))
  refine ⟨result, located, nodup, length.trans ?_⟩
  decide

end CeRs.Locate
