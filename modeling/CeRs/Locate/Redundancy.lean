import CeRs.Locate.Spread

/-!
# What a choice survives

A tag names a region, a zone or an operator.  A choice of instances survives its
loss if one of them does not carry the tag.  Only one tag of an instance, its
derived domain, decides about the choice.
-/

namespace CeRs.Locate

open Capability (LocateOpts)
open Memory (Allocator)
open Object (Outcome)

variable {Score : Type}

/-- The tag names a region, a zone or an operator. -/
def DomainTag (tag : String) : Prop :=
  ∃ start ∈ ["region:", "zone:", "asn:"], startsWith tag start = true

/-- Some of the instances do not carry the tag. -/
def Survives (tag : String) (instances : List (Instance Score)) : Prop :=
  ∃ inst ∈ instances, tag ∉ inst.tags

variable [LinearOrder Score] {scored : List (Instance Score)}

variable (scored) in
/-- The order in which instances are chosen: by the place in their own domain,
then by the best score of the domain, then by its key. -/
def ChosenBefore (first second : Fin scored.length) : Prop :=
  RoundRobin.Before (keyAt scored) (List.finRange scored.length)
    (Grouping.Ahead (bestOf scored)) first second

instance : DecidableRel (ChosenBefore scored) := fun first second =>
  inferInstanceAs (Decidable (RoundRobin.Before _ _ _ first second))

variable (scored) in
/-- How many instances are chosen before this one. -/
def rankOf (position : Fin scored.length) : Nat :=
  ((List.finRange scored.length).filter fun other => ChosenBefore scored other position).length

theorem mem_chosen_iff {want : Nat} {position : Fin scored.length} :
    position ∈ chosen scored want ↔ rankOf scored position < want := by
  have member : position ∈ chosen scored want ↔ _ :=
    RoundRobin.mem_taken_iff lists_bucketOrder (List.nodup_finRange scored.length)
      pairwise_bucketOrder (Grouping.ahead_asymm (bestOf scored))
  exact member.trans (and_iff_right (List.mem_finRange position))

theorem survives_chosen_iff {want : Nat} {tag : String} :
    Survives tag ((chosen scored want).map scored.get) ↔
      ∃ position, tag ∉ (scored.get position).tags ∧ rankOf scored position < want := by
  constructor
  · rintro ⟨inst, member, lacks⟩
    obtain ⟨position, taken, rfl⟩ := List.mem_map.mp member
    exact ⟨position, lacks, mem_chosen_iff.mp taken⟩
  · rintro ⟨position, lacks, few⟩
    exact ⟨_, List.mem_map_of_mem (mem_chosen_iff.mpr few), lacks⟩

/-- A tag that is the derived domain of every instance that carries it is not
carried by all the chosen ones. -/
theorem survives_chosen_of_own {want : Nat} {tag : String} (several : 2 ≤ want)
    (derived : ∀ inst ∈ scored, inst.faultDomain = faultDomain inst.tags)
    (sorted : scored.Pairwise fun first second => second.score ≤ first.score)
    (own : ∀ inst ∈ scored, tag ∈ inst.tags → inst.faultDomain = some tag)
    (survives : Survives tag scored) :
    Survives tag ((chosen scored want).map scored.get) := by
  have fair := chosen_fair (fun inst member => ⟨inst.tags, derived inst member⟩) sorted want
  obtain ⟨other, member, lacks⟩ := survives
  obtain ⟨spare, rfl⟩ := List.mem_iff_get.mp member
  by_contra lost
  have carried : ∀ position ∈ chosen scored want, domainAt scored position = .named tag := by
    intro position taken
    refine domainAt_eq_named.mpr (own _ (List.get_mem ..) ?_)
    by_contra lacks
    exact lost ⟨_, List.mem_map_of_mem taken, lacks⟩
  have outside : domainAt scored spare ≠ .named tag := by
    intro same
    have found := (derived _ (List.get_mem ..)).symm.trans (domainAt_eq_named.mp same)
    obtain ⟨-, -, present, -⟩ := startsWith_of_faultDomain found
    exact lacks present
  have single : domainsOf (chosen scored want) ⊆ {.named tag} := by
    intro domain member
    obtain ⟨position, taken, rfl⟩ := List.mem_map.mp (List.mem_toFinset.mp member)
    exact Finset.mem_singleton.mpr (carried position taken)
  have few : (domainsOf (List.finRange scored.length)).card ≤ 1 := by
    have bound := Finset.card_le_card single
    rw [fair.domains, Finset.card_singleton] at bound
    omega
  have positive : 0 < (chosen scored want).length := by
    rw [fair.length]
    exact Nat.lt_min.mpr ⟨by omega, List.length_pos_of_mem member⟩
  have taken := List.getElem_mem positive
  refine outside ((Finset.card_le_one.mp few _ ?_ _ ?_).trans (carried _ taken))
  · exact List.mem_toFinset.mpr (List.mem_map_of_mem (List.mem_finRange spare))
  · exact List.mem_toFinset.mpr (List.mem_map_of_mem (List.mem_finRange _))

section Locating

variable {allocator : Allocator} {scoring : Scoring Score} {answers : Answers} {opts : LocateOpts}
  {result : List (Instance Score)}

/-- The choice of `locate` survives the loss of what a tag names exactly if,
unless all live instances carry the tag, few enough instances are before the
first one that does not. -/
theorem locate_survives_iff (located : locate allocator scoring answers opts = .ok result)
    (several : 2 ≤ opts.want) (spreads : opts.spreadDomains = true) (tag : String) :
    (Survives tag (live scoring answers opts) → Survives tag result) ↔
      (Survives tag (live scoring answers opts) →
        ∃ position, tag ∉ ((ranked (live scoring answers opts)).get position).tags ∧
          rankOf (ranked (live scoring answers opts)) position < opts.want) := by
  rw [locate_eq_chosen several spreads located, survives_chosen_iff]

/-- The loss of the region, zone or operator that decides about the choice is
survived. -/
theorem locate_survives_of_own (located : locate allocator scoring answers opts = .ok result)
    (several : 2 ≤ opts.want) (spreads : opts.spreadDomains = true) {tag : String}
    (own : ∀ inst ∈ live scoring answers opts, tag ∈ inst.tags → inst.faultDomain = some tag)
    (survives : Survives tag (live scoring answers opts)) : Survives tag result := by
  rw [locate_eq_chosen several spreads located]
  refine survives_chosen_of_own several ?_ (pairwise_ranked _) ?_ ?_
  · exact fun inst member => faultDomain_of_mem_live (mem_ranked.mp member)
  · exact fun inst member => own inst (mem_ranked.mp member)
  · obtain ⟨inst, member, lacks⟩ := survives
    exact ⟨inst, mem_ranked.mpr member, lacks⟩

end Locating

/-- Three nodes, two of one operator and two of one region. -/
def crossing : Answers where
  providers := .ok ["a", "b", "c"]
  atlas := .ok [⟨"a", 9, 4096, 0, 100, ["region:eu", "asn:1"]⟩,
    ⟨"b", 8, 4096, 0, 100, ["region:us", "asn:1"]⟩, ⟨"c", 7, 4096, 0, 100, ["region:eu", "asn:2"]⟩]
  beaconHash := none
  localId := none
  now := 100

/-- Score by free cores. -/
def byCores : Scoring Nat := ⟨0, fun freeCores _ _ _ _ _ => freeCores.toNat⟩

def twoSpread : LocateOpts := ⟨2, [], 120, true⟩

def crossingLive : List (Instance Nat) :=
  [⟨"a", 9, 9, 4096, ["region:eu", "asn:1"], 100, some "region:eu"⟩,
    ⟨"b", 8, 8, 4096, ["region:us", "asn:1"], 100, some "region:us"⟩,
    ⟨"c", 7, 7, 4096, ["region:eu", "asn:2"], 100, some "region:eu"⟩]

theorem live_crossing : live byCores crossing twoSpread = crossingLive := rfl

theorem ranked_crossing : ranked crossingLive = crossingLive :=
  List.mergeSort_of_pairwise (by simp [crossingLive])

theorem locate_crossing :
    locate .ample byCores crossing twoSpread =
      .ok ((chosen crossingLive 2).map crossingLive.get) := by
  change choose .ample (live byCores crossing twoSpread) twoSpread = _
  rw [choose, live_crossing, ranked_crossing]
  have granted : Allocator.ample.Grants (2 * instanceSize) :=
    Allocator.grants_ample.mpr (by decide)
  exact spread_eq granted

/-- Both chosen instances are of one operator, although there is another one. -/
theorem one_operator_chosen :
    ∃ result, locate .ample byCores crossing twoSpread = .ok result ∧ result.length = 2 ∧
      DomainTag "asn:1" ∧ Survives "asn:1" (live byCores crossing twoSpread) ∧
        ¬ Survives "asn:1" result := by
  refine ⟨_, locate_crossing, ?_, ⟨"asn:", by decide, by decide⟩, ?_, ?_⟩
  · rw [List.length_map, chosen, RoundRobin.length_taken lists_bucketOrder]
    rfl
  · exact ⟨⟨"c", 7, 7, 4096, ["region:eu", "asn:2"], 100, some "region:eu"⟩,
      by simp [live_crossing, crossingLive], by decide⟩
  · rw [survives_chosen_iff]
    decide +kernel

/-- The loss of the first region is survived. -/
theorem locate_survives_iff_crossing :
    ∃ result, locate .ample byCores crossing twoSpread = .ok result ∧
      Survives "region:eu" result := by
  refine ⟨_, locate_crossing, ?_⟩
  have exactly := locate_survives_iff locate_crossing (Nat.le_refl 2) rfl "region:eu"
  rw [live_crossing, ranked_crossing] at exactly
  refine exactly.mpr (fun _ => ⟨⟨1, by decide⟩, by decide, by decide +kernel⟩) ?_
  exact ⟨⟨"b", 8, 8, 4096, ["region:us", "asn:1"], 100, some "region:us"⟩,
    by simp [crossingLive], by decide⟩

end CeRs.Locate
