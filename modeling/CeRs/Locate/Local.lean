import CeRs.Locate.Scores

/-!
# The local instance

The local node is listed with a fixed score and without a fault domain.  Whether
it comes out first depends on the nodes that reach this score, or would exceed
it by their jitter.
-/

namespace CeRs.Locate

open Capability (LocateOpts)
open Memory (Allocator)
open Object (Outcome)
open Grouping (Leads)

section Choosing

variable {Score : Type} {scored : List (Instance Score)}

theorem keyAt_named {position : Fin scored.length} {tag : String}
    (named : (scored.get position).faultDomain = some tag) : keyAt scored position = tag := by
  rw [keyAt_eq, domainAt_eq_named.mpr named]
  rfl

theorem keyAt_alone {position : Fin scored.length}
    (alone : (scored.get position).faultDomain = none) :
    keyAt scored position = (Domain.alone position).key := by
  rw [keyAt, domainKey, alone]
  rfl

theorem place_zero {position : Fin scored.length} (zero : position.val = 0) :
    RoundRobin.place (keyAt scored) (List.finRange scored.length) position = 0 := by
  obtain ⟨leader, earlier, -, place⟩ := exists_leader position
  have same : leader = position := Fin.ext (by omega)
  exact same ▸ place

variable [LinearOrder Score]

/-- Of two positions that are first in their buckets, the one that is chosen
before the other has a higher score or a lower key. -/
theorem ahead_of_head?_chosen {want : Nat} {first position : Fin scored.length}
    (head : first ∈ (chosen scored want).head?) (different : first ≠ position)
    (place : RoundRobin.place (keyAt scored) (List.finRange scored.length) position = 0) :
    (scored.get position).score < (scored.get first).score ∨
      (scored.get first).score = (scored.get position).score ∧
        keyAt scored first < keyAt scored position := by
  rcases RoundRobin.before_of_head?_taken lists_bucketOrder (List.nodup_finRange _)
    pairwise_bucketOrder head (List.mem_finRange position) with same | before
  · exact (different same).elim
  · rw [RoundRobin.Before, place] at before
    obtain ⟨place', ahead⟩ := before.resolve_left (Nat.not_lt_zero _)
    rw [Grouping.Ahead, bestOf_keyAt place, bestOf_keyAt place', WithBot.coe_lt_coe,
      WithBot.coe_inj] at ahead
    exact ahead

/-- A domain goes before an instance of the same score that has none. -/
theorem domainless_of_head?_chosen (derived : Derived scored)
    (sorted : scored.Pairwise fun first second => second.score ≤ first.score) {want : Nat}
    {first position : Fin scored.length} (head : first ∈ (chosen scored want).head?)
    (alone : (scored.get first).faultDomain = none)
    (equal : (scored.get position).score = (scored.get first).score) :
    (scored.get position).faultDomain = none := by
  have own := keyAt_alone alone
  by_contra named
  obtain ⟨tag, named⟩ := Option.ne_none_iff_exists'.mp named
  obtain ⟨tags, found⟩ := derived _ (List.get_mem scored position)
  rw [named] at found
  obtain ⟨leader, earlier, same, place⟩ := exists_leader position
  rw [keyAt_named named] at same
  have apart : first ≠ leader := by
    rintro rfl
    exact key_alone_ne found.symm first (own.symm.trans same)
  have least := score_le_of_le sorted earlier
  rw [equal] at least
  rcases ahead_of_head?_chosen head apart place with less | ⟨-, less⟩
  · exact absurd least (not_le.mpr less)
  · rw [same, own] at less
    exact lt_asymm less (lt_key_alone found.symm first)

/-- Among instances without a domain the first one goes first. -/
theorem eq_zero_of_head?_chosen
    (sorted : scored.Pairwise fun first second => second.score ≤ first.score) {want : Nat}
    {first : Fin scored.length} (head : first ∈ (chosen scored want).head?)
    (none : ∀ position, (scored.get position).score = (scored.get first).score →
      (scored.get position).faultDomain = none) : first.val = 0 := by
  by_contra later
  have bound := Nat.lt_of_le_of_lt (Nat.zero_le _) first.isLt
  have equal : (scored.get ⟨0, bound⟩).score = (scored.get first).score :=
    le_antisymm (score_le_of_head?_chosen sorted head _)
      (score_le_of_le sorted (Fin.mk_le_of_le_val (Nat.zero_le _)))
  have apart : first ≠ ⟨0, bound⟩ := fun same => later (congrArg Fin.val same)
  rcases ahead_of_head?_chosen head apart (place_zero rfl) with less | ⟨-, less⟩
  · exact ne_of_lt less equal
  · rw [keyAt_alone (none _ equal), keyAt_alone (none _ rfl)] at less
    exact lt_asymm less (key_alone_zero_lt (Nat.pos_of_ne_zero later))

theorem head?_chosen_of_zero
    (sorted : scored.Pairwise fun first second => second.score ≤ first.score) {want : Nat}
    (positive : 0 < want) {first : Fin scored.length} (zero : first.val = 0)
    (none : ∀ position, (scored.get position).score = (scored.get first).score →
      (scored.get position).faultDomain = none) : first ∈ (chosen scored want).head? := by
  have nonempty : chosen scored want ≠ [] := by
    rw [← List.length_pos_iff, chosen, RoundRobin.length_taken lists_bucketOrder,
      List.length_finRange]
    exact Nat.lt_min.mpr ⟨positive, Nat.lt_of_le_of_lt (Nat.zero_le _) first.isLt⟩
  obtain ⟨head, rest, listed⟩ := List.exists_cons_of_ne_nil nonempty
  have found : head ∈ (chosen scored want).head? := by simp [listed]
  have same : head = first := by
    by_contra apart
    have highest := score_le_of_le sorted (show first ≤ head by rw [Fin.le_def]; omega)
    rcases ahead_of_head?_chosen found apart (place_zero zero) with less | ⟨equal, less⟩
    · exact absurd highest (not_le.mpr less)
    · rw [keyAt_alone (none head equal), keyAt_alone (none first rfl), zero] at less
      have later : 0 < head.val :=
        Nat.pos_of_ne_zero fun equal => apart (Fin.ext (equal.trans zero.symm))
      exact lt_asymm less (key_alone_zero_lt later)
  exact same ▸ found

/-- An instance without a domain is chosen first exactly if it is ranked first
and no other instance of its score has a domain. -/
theorem head?_chosen_alone_iff (derived : Derived scored)
    (sorted : scored.Pairwise fun first second => second.score ≤ first.score) {want : Nat}
    (positive : 0 < want) {first : Fin scored.length} :
    first ∈ (chosen scored want).head? ∧ (scored.get first).faultDomain = none ↔
      first.val = 0 ∧ ∀ position, (scored.get position).score = (scored.get first).score →
        (scored.get position).faultDomain = none := by
  constructor
  · rintro ⟨head, alone⟩
    have none : ∀ position, (scored.get position).score = (scored.get first).score →
        (scored.get position).faultDomain = none :=
      fun position => domainless_of_head?_chosen derived sorted head alone
    exact ⟨eq_zero_of_head?_chosen sorted head none, none⟩
  · rintro ⟨zero, none⟩
    exact ⟨head?_chosen_of_zero sorted positive zero none, none first rfl⟩

end Choosing

section Leading

variable {Score : Type} {scoring : Scoring Score} {answers : Answers} {opts : LocateOpts}
  {before after : List String} {node : String} {atlas : List AtlasEntry}

/-- The listed instances, with the first one of the local node. -/
theorem eligible_split (self : answers.localId = some node) (untagged : opts.requireTags = []) :
    eligible scoring answers opts (before ++ node :: after) atlas =
      eligible scoring answers opts before atlas ++
        localInstance answers scoring node :: eligible scoring answers opts after atlas := by
  rw [eligible, List.filterMap_append,
    List.filterMap_cons_some (candidate_local self.symm untagged)]
  rfl

theorem eq_localInstance (self : answers.localId = some node) (untagged : opts.requireTags = [])
    {ids : List String} {inst : Instance Score}
    (member : inst ∈ eligible scoring answers opts ids atlas) (own : inst.nodeId = node) :
    inst = localInstance answers scoring node := by
  have found := (mem_eligible.mp member).2
  rw [own, candidate_local self.symm untagged] at found
  exact (Option.some.inj found).symm

/-- The local node is ranked first exactly if it leads. -/
theorem head?_ranked_iff [LinearOrder Score] (self : answers.localId = some node)
    (untagged : opts.requireTags = []) (absent : node ∉ before) :
    (ranked (eligible scoring answers opts (before ++ node :: after) atlas)).head?.map
        Instance.nodeId = some node ↔
      Leads Instance.score (eligible scoring answers opts before atlas)
        (localInstance answers scoring node) (eligible scoring answers opts after atlas) := by
  constructor
  · intro head
    obtain ⟨inst, head, own⟩ := Option.map_eq_some_iff.mp head
    obtain ⟨first, rest, split, leads⟩ := Grouping.exists_leads_of_head? head
    have member : inst ∈ eligible scoring answers opts (before ++ node :: after) atlas := by
      rw [split]
      simp
    obtain rfl := eq_localInstance self untagged member own
    rw [eligible_split self untagged] at split
    rcases List.append_eq_append_iff.mp split with ⟨between, equal, rest'⟩ | ⟨between, equal, rest'⟩
    · cases between with
      | nil =>
          obtain ⟨-, rfl⟩ := List.cons.inj rest'
          rwa [equal, List.append_nil] at leads
      | cons other between =>
          obtain ⟨rfl, -⟩ := List.cons.inj rest'
          exact absurd (leads.1 _ (by simp [equal])) (lt_irrefl _)
    · cases between with
      | nil =>
          obtain ⟨-, rfl⟩ := List.cons.inj rest'
          rw [List.append_nil] at equal
          rwa [equal]
      | cons other between =>
          obtain ⟨rfl, -⟩ := List.cons.inj rest'
          have listed : localInstance answers scoring node ∈
              eligible scoring answers opts before atlas := by simp [equal]
          exact absurd (mem_eligible.mp listed).1 absent
  · intro leads
    rw [ranked, Grouping.head?_mergeSort (eligible_split self untagged) leads]
    rfl

/-- Where the local node leads, the later nodes decide whether one of its score
has a domain. -/
theorem domainless_of_leads [LinearOrder Score] (self : answers.localId = some node)
    (untagged : opts.requireTags = [])
    (leads : Leads Instance.score (eligible scoring answers opts before atlas)
      (localInstance answers scoring node) (eligible scoring answers opts after atlas))
    (none : ∀ inst ∈ eligible scoring answers opts after atlas,
      inst.score = scoring.own → inst.faultDomain = none)
    {inst : Instance Score}
    (member : inst ∈ eligible scoring answers opts (before ++ node :: after) atlas)
    (score : inst.score = scoring.own) : inst.faultDomain = Option.none := by
  rw [eligible_split self untagged] at member
  rcases List.mem_append.mp member with earlier | later
  · exact absurd score (ne_of_lt (leads.1 _ earlier))
  · rcases List.mem_cons.mp later with same | later
    · rw [same]
      rfl
    · exact none _ later score

section Selecting

variable [LinearOrder Score] (self : answers.localId = some node)
  (untagged : opts.requireTags = []) (absent : node ∉ before)

include self untagged absent

/-- A spread choice begins with the local node exactly if the node is ranked first
and no node of its score has a domain. -/
theorem head?_chosen_iff {scored : List (Instance Score)}
    (isRanked : scored = ranked (eligible scoring answers opts (before ++ node :: after) atlas))
    {want : Nat} (positive : 0 < want) :
    ((chosen scored want).map scored.get).head?.map Instance.nodeId = some node ↔
      scored.head?.map Instance.nodeId = some node ∧
        ∀ inst ∈ eligible scoring answers opts after atlas,
          inst.score = scoring.own → inst.faultDomain = none := by
  have listed : ∀ {inst}, inst ∈ scored →
      inst ∈ eligible scoring answers opts (before ++ node :: after) atlas :=
    fun member => mem_ranked.mp (isRanked ▸ member)
  have derived : Derived scored := fun inst member =>
    ⟨inst.tags, faultDomain_of_candidate (mem_eligible.mp (listed member)).2⟩
  have sorted : scored.Pairwise fun first second => second.score ≤ first.score :=
    isRanked ▸ pairwise_ranked _
  constructor
  · intro head
    obtain ⟨inst, found, own⟩ := Option.map_eq_some_iff.mp head
    rw [List.head?_map] at found
    obtain ⟨first, chosenFirst, rfl⟩ := Option.map_eq_some_iff.mp found
    have equal := eq_localInstance self untagged (listed (List.get_mem scored first)) own
    have alone : (scored.get first).faultDomain = none := by
      rw [equal]
      rfl
    obtain ⟨zero, none⟩ := (head?_chosen_alone_iff derived sorted positive).mp ⟨chosenFirst, alone⟩
    refine ⟨?_, fun inst member score => ?_⟩
    · rw [List.head?_eq_getElem?, ← zero, List.getElem?_eq_getElem first.isLt, Option.map_some]
      exact congrArg some own
    · have member' : inst ∈ scored := by
        rw [isRanked, mem_ranked, eligible_split self untagged]
        simp [member]
      obtain ⟨position, rfl⟩ := List.mem_iff_get.mp member'
      refine none position (score.trans ?_)
      rw [equal]
      rfl
  · rintro ⟨head, none⟩
    have leads := (head?_ranked_iff self untagged absent).mp (isRanked ▸ head)
    obtain ⟨inst, found, own⟩ := Option.map_eq_some_iff.mp head
    obtain ⟨rest, rfl⟩ := List.head?_eq_some_iff.mp found
    have equal := eq_localInstance self untagged (listed List.mem_cons_self) own
    let first : Fin (inst :: rest).length := ⟨0, Nat.succ_pos _⟩
    have alone : ∀ position : Fin (inst :: rest).length,
        ((inst :: rest).get position).score = ((inst :: rest).get first).score →
          ((inst :: rest).get position).faultDomain = Option.none :=
      fun position score => domainless_of_leads self untagged leads none
        (listed (List.get_mem (inst :: rest) position))
        (score.trans (congrArg Instance.score equal))
    obtain ⟨chosenFirst, -⟩ :=
      (head?_chosen_alone_iff derived sorted positive).mpr ⟨(rfl : first.val = 0), alone⟩
    rw [List.head?_map, Option.mem_def.mp chosenFirst]
    exact congrArg some own

/-- The local node is chosen first exactly if it leads and, where the choice is
spread, no node of its score has a domain. -/
theorem head?_selected_iff :
    (selected (eligible scoring answers opts (before ++ node :: after) atlas) opts).head?.map
        Instance.nodeId = some node ↔
      Leads Instance.score (eligible scoring answers opts before atlas)
          (localInstance answers scoring node) (eligible scoring answers opts after atlas) ∧
        (Spreads opts → ∀ inst ∈ eligible scoring answers opts after atlas,
          inst.score = scoring.own → inst.faultDomain = none) := by
  rw [← head?_ranked_iff self untagged absent]
  by_cases spreads : Spreads opts
  · have positive : 0 < opts.want := Nat.lt_of_lt_of_le Nat.zero_lt_two spreads.1
    rw [selected, if_pos spreads, head?_chosen_iff self untagged absent rfl positive]
    exact and_congr_right fun _ => ⟨fun none _ => none, fun every => every spreads⟩
  · have positive : max opts.want 1 ≠ 0 := by omega
    rw [selected, if_neg spreads, List.head?_take, if_neg positive]
    exact (and_iff_left fun spread => (spreads spread).elim).symm

end Selecting

end Leading

section Rational

variable {answers : Answers} {opts : LocateOpts} {before after : List String} {node : String}
  {atlas : List AtlasEntry}

theorem located_iff {Score : Type} [LinearOrder Score] {allocator : Allocator}
    {scoring : Scoring Score} {ids : List String} (providers : answers.providers = .ok ids)
    (entries : answers.atlas = .ok atlas) (listed : ids ≠ [])
    (property : List (Instance Score) → Prop) :
    (∃ result, locate allocator scoring answers opts = .ok result ∧ property result) ↔
      (Spreads opts → allocator.Grants (opts.want * instanceSize)) ∧
        property (selected (eligible scoring answers opts ids atlas) opts) := by
  rw [locate_eq_choose providers entries listed, choose_eq_selected, live_eq providers entries]
  by_cases granted : Spreads opts → allocator.Grants (opts.want * instanceSize)
  · rw [if_pos granted]
    constructor
    · rintro ⟨result, equal, holds⟩
      obtain rfl := Outcome.ok.inj equal
      exact ⟨granted, holds⟩
    · rintro ⟨-, holds⟩
      exact ⟨_, rfl, holds⟩
  · rw [if_neg granted]
    refine iff_of_false ?_ fun both => granted both.1
    rintro ⟨result, equal, -⟩
    cases equal

/-- The local node comes out first if and only if the choice can be allocated, no
live node listed before it reaches its score, and no live node listed after it
exceeds it, or reaches it with a domain of its own where the choice is spread. -/
theorem local_first_iff (allocator : Allocator) (jitter : Jitter)
    (providers : answers.providers = .ok (before ++ node :: after))
    (entries : answers.atlas = .ok atlas) (self : answers.localId = some node)
    (untagged : opts.requireTags = []) (absent : node ∉ before) :
    (∃ result, locate allocator (rated jitter) answers opts = .ok result ∧
        result.head?.map Instance.nodeId = some node) ↔
      (Spreads opts → allocator.Grants (opts.want * instanceSize)) ∧
        (∀ id ∈ before, ∀ entry, LiveBy answers opts atlas id entry →
          scoreBy answers opts (rated jitter) id entry < 1) ∧
        ∀ id ∈ after, ∀ entry, LiveBy answers opts atlas id entry →
          scoreBy answers opts (rated jitter) id entry < 1 ∨
            scoreBy answers opts (rated jitter) id entry = 1 ∧
              (Spreads opts → faultDomain entry.tags = none) := by
  rw [located_iff providers entries (by simp), head?_selected_iff self untagged absent]
  refine and_congr_right fun _ => ?_
  have earlier : (∀ inst ∈ eligible (rated jitter) answers opts before atlas, inst.score < 1) ↔
      ∀ id ∈ before, ∀ entry, LiveBy answers opts atlas id entry →
        scoreBy answers opts (rated jitter) id entry < 1 := by
    rw [forall_mem_eligible]
    refine and_iff_right fun id listed own => ?_
    rw [self, Option.some_inj] at own
    exact absurd (own ▸ listed) absent
  have later : (∀ inst ∈ eligible (rated jitter) answers opts after atlas,
        inst.score < 1 ∨ inst.score = 1 ∧ (Spreads opts → inst.faultDomain = none)) ↔
      ∀ id ∈ after, ∀ entry, LiveBy answers opts atlas id entry →
        scoreBy answers opts (rated jitter) id entry < 1 ∨
          scoreBy answers opts (rated jitter) id entry = 1 ∧
            (Spreads opts → faultDomain entry.tags = none) := by
    rw [forall_mem_eligible]
    exact and_iff_right fun id listed own _ => .inr ⟨rfl, fun _ => rfl⟩
  rw [← earlier, ← later]
  constructor
  · rintro ⟨⟨lower, notHigher⟩, none⟩
    refine ⟨lower, fun inst member => ?_⟩
    rcases lt_or_eq_of_le (notHigher inst member) with less | equal
    · exact .inl less
    · exact .inr ⟨equal, fun spreads => none spreads inst member equal⟩
  · rintro ⟨lower, within⟩
    refine ⟨⟨lower, fun inst member => ?_⟩, fun spreads inst member equal => ?_⟩
    · rcases within inst member with less | ⟨equal, -⟩
      · exact le_of_lt less
      · exact le_of_eq equal
    · rcases within inst member with less | ⟨-, none⟩
      · exact absurd equal (ne_of_lt less)
      · exact none spreads

end Rational

/-- The local node and another one that was just seen. -/
def besides (entry : AtlasEntry) : Answers :=
  ⟨.ok ["self", entry.nodeId], .ok [entry], none, some "self", 100⟩

/-- An idle node that reaches both ceilings. -/
def largest : AtlasEntry := ⟨"a", 16, 32768, 0, 100, []⟩

/-- A large idle node comes out before the local one, by its jitter. -/
theorem largest_first :
    ∃ result, locate .ample (rated (favouring "a")) (besides largest) oneOf = .ok result ∧
      result.head?.map Instance.nodeId = some "a" := by
  have leads : Leads Instance.score
      [localInstance (besides largest) (rated (favouring "a")) "self"]
      (instanceBy (besides largest) oneOf (rated (favouring "a")) "a" largest) [] := by
    refine ⟨?_, by simp⟩
    simp only [List.mem_singleton, forall_eq]
    decide +kernel
  have listed : eligible (rated (favouring "a")) (besides largest) oneOf
      ["self", largest.nodeId] [largest] =
      [localInstance (besides largest) (rated (favouring "a")) "self"] ++
        [instanceBy (besides largest) oneOf (rated (favouring "a")) "a" largest] := rfl
  rw [located_iff rfl rfl (by decide) fun result => result.head?.map Instance.nodeId = some "a"]
  refine ⟨fun _ => Allocator.grants_ample.mpr (by decide), ?_⟩
  rw [selected, if_neg (by decide), List.head?_take, if_neg (by decide), ranked,
    Grouping.head?_mergeSort listed leads]
  rfl

theorem local_first_iff_larger :
    ∃ result, locate .ample (rated (favouring "a")) (besides larger) oneOf = .ok result ∧
      result.head?.map Instance.nodeId = some "self" := by
  have providers : (besides larger).providers = .ok ([] ++ "self" :: ["a"]) := rfl
  refine (local_first_iff .ample (favouring "a") providers rfl rfl rfl (by simp)).mpr
    ⟨fun _ => Allocator.grants_ample.mpr (by decide), by simp, fun id listed entry live => .inl ?_⟩
  obtain rfl := List.mem_singleton.mp listed
  obtain rfl : larger = entry := Option.some.inj live.known
  decide +kernel

end CeRs.Locate
