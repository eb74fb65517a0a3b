import CeRs.Locate.Candidates
import Mathlib.Data.List.FinRange

/-!
# Spreading over fault domains

`spread` groups the instances by domain, orders the domains by their best
instance and takes from them in turn.  What it returns is described by the
positions of the chosen instances in the list it is given.
-/

namespace CeRs.Locate

open Capability (LocateOpts)
open Memory (Allocator)
open Object (Outcome)

variable {Score : Type}

section Domains

/-- What counts as the domain of an instance; one without a domain counts as its
own. -/
inductive Domain
  | named (tag : String)
  | alone (position : Nat)
  deriving DecidableEq, Repr

def Domain.key : Domain → String
  | .named tag => tag
  | .alone position => s!"~{position}"

variable (scored : List (Instance Score))

def domainAt (position : Fin scored.length) : Domain :=
  match (scored.get position).faultDomain with
  | some tag => .named tag
  | none => .alone position

/-- The bucket of the instance at a position. -/
def keyAt (position : Fin scored.length) : String :=
  domainKey (scored.get position) position

/-- The domain of each instance is one that `fault_domain` derives. -/
def Derived : Prop :=
  ∀ inst ∈ scored, ∃ tags, inst.faultDomain = faultDomain tags

variable {scored}

theorem keyAt_eq (position : Fin scored.length) :
    keyAt scored position = (domainAt scored position).key := by
  unfold keyAt domainKey domainAt
  cases (scored.get position).faultDomain <;> rfl

theorem domainAt_eq_named {position : Fin scored.length} {tag : String} :
    domainAt scored position = .named tag ↔ (scored.get position).faultDomain = some tag := by
  unfold domainAt
  cases (scored.get position).faultDomain <;> simp

theorem startsWith_of_faultDomain {tags : List String} {tag : String}
    (derived : faultDomain tags = some tag) :
    ∃ start ∈ ["region:", "zone:", "asn:"], tag ∈ tags ∧ startsWith tag start = true := by
  obtain ⟨start, member, found⟩ := List.exists_of_findSome?_eq_some derived
  exact ⟨start, member, List.mem_of_find?_eq_some found,
    List.find?_some (p := fun tag => startsWith tag start) found⟩

theorem toList_key_alone (position : Nat) :
    (Domain.alone position).key.toList = '~' :: Nat.toDigits 10 position := by
  rw [Domain.key, String.toList_append, Nat.toString_eq_ofList_toDigits, String.toList_ofList]
  rfl

theorem key_alone_ne {tags : List String} {tag : String} (derived : faultDomain tags = some tag)
    (position : Nat) : (Domain.alone position).key ≠ tag := by
  rintro rfl
  obtain ⟨start, member, -, starts⟩ := startsWith_of_faultDomain derived
  obtain ⟨rest, equal⟩ := List.isPrefixOf_iff_prefix.mp starts
  rw [toList_key_alone] at equal
  rcases List.mem_cons.mp member with rfl | member
  · simp at equal
  rcases List.mem_cons.mp member with rfl | member
  · simp at equal
  obtain rfl := List.mem_singleton.mp member
  simp at equal

theorem key_alone_inj {first second : Nat}
    (same : (Domain.alone first).key = (Domain.alone second).key) : first = second := by
  have digits := congrArg String.toList same
  rw [toList_key_alone, toList_key_alone] at digits
  rw [← Nat.ofDigitChars_ten_toDigits (n := first), (List.cons.inj digits).2,
    Nat.ofDigitChars_ten_toDigits]

theorem lt_key_alone {tags : List String} {tag : String} (derived : faultDomain tags = some tag)
    (position : Nat) : tag < (Domain.alone position).key := by
  obtain ⟨start, member, -, starts⟩ := startsWith_of_faultDomain derived
  obtain ⟨rest, equal⟩ := List.isPrefixOf_iff_prefix.mp starts
  rw [String.lt_iff_toList_lt, toList_key_alone, ← equal]
  have letter : ∀ start ∈ ["region:", "zone:", "asn:"],
      ∃ first later, start.toList = first :: later ∧ first < '~' := by
    simp
  obtain ⟨first, later, shape, less⟩ := letter start member
  rw [shape]
  exact List.cons_lt_cons_iff.mpr (.inl less)

theorem key_alone_zero_lt {position : Nat} (positive : 0 < position) :
    (Domain.alone 0).key < (Domain.alone position).key := by
  rw [String.lt_iff_toList_lt, toList_key_alone, toList_key_alone, Nat.toDigits_zero]
  refine List.cons_lt_cons_iff.mpr (.inr ⟨rfl, ?_⟩)
  have nonempty : Nat.toDigits 10 position ≠ [] := Nat.toDigits_ne_nil
  obtain ⟨digit, rest, digits⟩ := List.exists_cons_of_ne_nil nonempty
  have isDigit : digit.isDigit := Nat.isDigit_of_mem_toDigits (by decide) (by decide)
    (digits ▸ List.mem_cons_self : digit ∈ Nat.toDigits 10 position)
  rw [digits, List.cons_lt_cons_iff]
  rcases lt_or_eq_of_le (Char.isDigit_iff_toNat.mp isDigit).1 with less | same
  · exact .inl (UInt32.lt_iff_toNat_lt.mpr less)
  · obtain rfl : '0' = digit := Char.toNat_inj.mp same
    refine .inr ⟨rfl, ?_⟩
    cases rest with
    | nil =>
        have zero : (Domain.alone position).key = (Domain.alone 0).key := by
          rw [← String.toList_inj, toList_key_alone, toList_key_alone, digits, Nat.toDigits_zero]
        exact absurd (key_alone_inj zero) positive.ne'
    | cons => exact List.nil_lt_cons _ _

theorem domainAt_cases (derived : Derived scored) (position : Fin scored.length) :
    (∃ tags tag, faultDomain tags = some tag ∧ domainAt scored position = .named tag) ∨
      domainAt scored position = .alone position := by
  obtain ⟨tags, equal⟩ := derived _ (List.get_mem scored position)
  unfold domainAt
  cases named : (scored.get position).faultDomain with
  | none => exact .inr rfl
  | some tag => exact .inl ⟨tags, tag, equal.symm.trans named, rfl⟩

theorem keyAt_inj (derived : Derived scored) {first second : Fin scored.length} :
    keyAt scored first = keyAt scored second ↔ domainAt scored first = domainAt scored second := by
  rw [keyAt_eq, keyAt_eq]
  refine ⟨fun same => ?_, congrArg Domain.key⟩
  rcases domainAt_cases derived first with ⟨tags, tag, found, equal⟩ | equal <;>
    rcases domainAt_cases derived second with ⟨tags', tag', found', equal'⟩ | equal' <;>
    rw [equal, equal'] at same ⊢
  · exact congrArg Domain.named same
  · exact absurd same.symm (key_alone_ne found _)
  · exact absurd same (key_alone_ne found' _)
  · exact congrArg Domain.alone (key_alone_inj same)

end Domains

section Positions

variable (scored : List (Instance Score))

/-- The positions of a bucket. -/
def positionsOf (key : String) : List (Fin scored.length) :=
  RoundRobin.ofKey (keyAt scored) (List.finRange scored.length) key

/-- The score of the first instance of a bucket. -/
def bestOf (key : String) : WithBot Score :=
  best ((positionsOf scored key).map scored.get)

variable {scored}

theorem keyed_eq :
    keyed scored = (List.finRange scored.length).map fun position =>
      (keyAt scored position, scored.get position) := by
  refine List.ext_getElem (by simp [keyed]) fun position bound bound' => ?_
  simp [keyed, keyAt]

theorem itemsOf_keyed (key : String) :
    Grouping.itemsOf (keyed scored) key = (positionsOf scored key).map scored.get := by
  rw [keyed_eq, Grouping.itemsOf, positionsOf, RoundRobin.ofKey, List.filter_map, List.map_map]
  rfl

theorem mem_positionsOf (position : Fin scored.length) :
    position ∈ positionsOf scored (keyAt scored position) :=
  List.mem_filter.mpr ⟨List.mem_finRange position, decide_eq_true rfl⟩

theorem bestOf_keyAt {position : Fin scored.length}
    (first : RoundRobin.place (keyAt scored) (List.finRange scored.length) position = 0) :
    bestOf scored (keyAt scored position) = (scored.get position).score := by
  have own := mem_positionsOf position
  change (positionsOf scored (keyAt scored position)).idxOf position = 0 at first
  cases listed : positionsOf scored (keyAt scored position) with
  | nil => simp [listed] at own
  | cons leader rest =>
      have same : leader = position := by
        by_contra different
        rw [listed, List.idxOf_cons_ne _ different] at first
        cases first
      rw [bestOf, listed, same]
      rfl

theorem exists_leader (position : Fin scored.length) :
    ∃ leader, leader ≤ position ∧ keyAt scored leader = keyAt scored position ∧
      RoundRobin.place (keyAt scored) (List.finRange scored.length) leader = 0 := by
  have own := mem_positionsOf position
  have increasing : (positionsOf scored (keyAt scored position)).Pairwise (· < ·) :=
    (List.pairwise_lt_finRange _).filter _
  cases listed : positionsOf scored (keyAt scored position) with
  | nil => simp [listed] at own
  | cons leader rest =>
      have member : leader ∈ positionsOf scored (keyAt scored position) := by simp [listed]
      have same : keyAt scored leader = keyAt scored position :=
        of_decide_eq_true (List.mem_filter.mp member).2
      rw [listed] at own increasing
      refine ⟨leader, ?_, same, ?_⟩
      · rcases List.mem_cons.mp own with rfl | later
        · exact le_rfl
        · exact le_of_lt (List.rel_of_pairwise_cons increasing later)
      · rw [RoundRobin.place, same]
        change (positionsOf scored (keyAt scored position)).idxOf leader = 0
        rw [listed, List.idxOf_cons_self]

variable [LinearOrder Score]

variable (scored) in
/-- The buckets in the order in which they are taken from. -/
def bucketOrder : List String :=
  (Grouping.collect (keyed scored)).keys.mergeSort fun first second =>
    bestOf scored second ≤ bestOf scored first

variable (scored) in
/-- The positions of the instances that are chosen. -/
def chosen (want : Nat) : List (Fin scored.length) :=
  RoundRobin.taken (keyAt scored) (bucketOrder scored) (List.finRange scored.length) want

theorem lists_bucketOrder :
    RoundRobin.Lists (keyAt scored) (bucketOrder scored) (List.finRange scored.length) := by
  have perm := List.mergeSort_perm (Grouping.collect (keyed scored)).keys fun first second =>
    decide (bestOf scored second ≤ bestOf scored first)
  refine ⟨?_, fun wanted => ?_⟩
  · exact perm.nodup_iff.mpr ((Grouping.pairwise_keys_collect _).imp ne_of_lt)
  · rw [bucketOrder, perm.mem_iff, Grouping.mem_keys_collect, keyed_eq]
    simp

theorem pairwise_bucketOrder :
    (bucketOrder scored).Pairwise (Grouping.Ahead (bestOf scored)) :=
  Grouping.pairwise_ahead_mergeSort _ (Grouping.pairwise_keys_collect _)

/-- The buckets of `spread`, written with positions. -/
theorem buckets_eq :
    ((Grouping.collect (keyed scored)).toList.map Prod.snd).mergeSort
        (fun first second => best second ≤ best first) =
      (RoundRobin.bucketsOf (keyAt scored) (bucketOrder scored)
        (List.finRange scored.length)).map (List.map scored.get) := by
  rw [Grouping.toList_collect, List.map_map, RoundRobin.bucketsOf, bucketOrder, List.map_map]
  rw [List.map_mergeSort (s := fun first second => decide (best second ≤ best first))]
  · congr 1
    exact List.map_congr_left fun key _ => itemsOf_keyed key
  · intro first _ second _
    rfl

theorem spread_eq {allocator : Allocator} {want : Nat}
    (granted : allocator.Grants (want * instanceSize)) :
    spread allocator scored want = .ok ((chosen scored want).map scored.get) := by
  rw [spread, if_pos granted, buckets_eq, RoundRobin.takeRounds_zero,
    RoundRobin.longest_map, RoundRobin.firstRounds_map, ← List.map_take]
  rfl

end Positions

section Fairness

variable {scored : List (Instance Score)}

/-- The positions, of those listed, that are in a domain. -/
def inDomain (positions : List (Fin scored.length)) (domain : Domain) :
    List (Fin scored.length) :=
  RoundRobin.ofKey (domainAt scored) positions domain

/-- A domain is a bucket, or no instance is in it. -/
theorem inDomain_cases (derived : Derived scored) (domain : Domain) :
    (∃ key, ∀ positions, inDomain positions domain =
        RoundRobin.ofKey (keyAt scored) positions key) ∨
      ∀ positions : List (Fin scored.length), inDomain positions domain = [] := by
  by_cases occurs : ∃ position, domainAt scored position = domain
  · obtain ⟨position, rfl⟩ := occurs
    refine .inl ⟨keyAt scored position, fun positions => List.filter_congr fun other _ => ?_⟩
    exact decide_eq_decide.mpr (keyAt_inj derived).symm
  · refine .inr fun positions => List.filter_eq_nil_iff.mpr fun position _ same => ?_
    exact occurs ⟨position, of_decide_eq_true same⟩

/-- The domains of the listed positions. -/
def domainsOf (positions : List (Fin scored.length)) : Finset Domain :=
  (positions.map (domainAt scored)).toFinset

theorem card_domainsOf (derived : Derived scored) (positions : List (Fin scored.length)) :
    (domainsOf positions).card = (positions.map (keyAt scored)).toFinset.card := by
  have keys : (positions.map (keyAt scored)).toFinset =
      (domainsOf positions).image Domain.key := by
    ext key
    simp [domainsOf, keyAt_eq]
  rw [keys, Finset.card_image_of_injOn]
  intro domain member domain' member' same
  obtain ⟨position, -, rfl⟩ := List.mem_map.mp (List.mem_toFinset.mp member)
  obtain ⟨position', -, rfl⟩ := List.mem_map.mp (List.mem_toFinset.mp member')
  exact (keyAt_inj derived).mp (by rw [keyAt_eq, keyAt_eq, same])

variable [LinearOrder Score]

/-- What is to be said of a choice among the instances: the wanted number of
them, or all, each at most once, from as many domains as possible, from each
domain the best, from no domain two more than from one that has instances left,
and an instance of the highest score first. -/
structure Fair (scored : List (Instance Score)) (want : Nat)
    (positions : List (Fin scored.length)) : Prop where
  nodup : positions.Nodup
  length : positions.length = min want scored.length
  domains : (domainsOf positions).card =
    min want (domainsOf (List.finRange scored.length)).card
  best : ∀ domain, inDomain positions domain <+: inDomain (List.finRange scored.length) domain
  balanced : ∀ behind ahead,
    (inDomain positions behind).length + 1 < (inDomain positions ahead).length →
      inDomain positions behind = inDomain (List.finRange scored.length) behind
  first : ∀ first ∈ positions.head?, ∀ position,
    (scored.get position).score ≤ (scored.get first).score

theorem length_bucketOrder (derived : Derived scored) :
    (bucketOrder scored).length = (domainsOf (List.finRange scored.length)).card := by
  rw [card_domainsOf derived, ← List.toFinset_card_of_nodup lists_bucketOrder.nodup]
  congr 1
  ext key
  rw [List.mem_toFinset, lists_bucketOrder.mem_iff]
  simp

theorem score_le_of_le
    (sorted : scored.Pairwise fun first second => second.score ≤ first.score)
    {earlier later : Fin scored.length} (le : earlier ≤ later) :
    (scored.get later).score ≤ (scored.get earlier).score := by
  rcases eq_or_lt_of_le le with rfl | less
  · exact le_rfl
  · exact List.pairwise_iff_get.mp sorted _ _ less

theorem score_le_of_head?_chosen
    (sorted : scored.Pairwise fun first second => second.score ≤ first.score) {want : Nat}
    {first : Fin scored.length} (head : first ∈ (chosen scored want).head?)
    (position : Fin scored.length) :
    (scored.get position).score ≤ (scored.get first).score := by
  obtain ⟨leader, earlier, -, place⟩ := exists_leader position
  have higher := score_le_of_le sorted earlier
  refine higher.trans ?_
  rcases RoundRobin.before_of_head?_taken lists_bucketOrder (List.nodup_finRange _)
    pairwise_bucketOrder head (List.mem_finRange leader) with rfl | before
  · exact le_rfl
  · rw [RoundRobin.Before, place] at before
    obtain ⟨place', ahead⟩ := before.resolve_left (Nat.not_lt_zero _)
    have best : bestOf scored (keyAt scored leader) ≤ bestOf scored (keyAt scored first) := by
      rcases ahead with less | ⟨equal, -⟩
      · exact le_of_lt less
      · exact le_of_eq equal.symm
    rw [bestOf_keyAt place, bestOf_keyAt place'] at best
    exact WithBot.coe_le_coe.mp best

theorem chosen_fair (derived : Derived scored)
    (sorted : scored.Pairwise fun first second => second.score ≤ first.score) (want : Nat) :
    Fair scored want (chosen scored want) where
  nodup := by
    have perm := RoundRobin.allRounds_perm (@lists_bucketOrder _ scored _)
    exact (perm.nodup_iff.mpr (List.nodup_finRange _)).sublist (List.take_sublist _ _)
  length := by
    rw [chosen, RoundRobin.length_taken lists_bucketOrder, List.length_finRange]
  domains := by
    rw [card_domainsOf derived, chosen, RoundRobin.card_keys_taken lists_bucketOrder,
      length_bucketOrder derived]
  best domain := by
    rcases inDomain_cases derived domain with ⟨key, equal⟩ | none
    · rw [equal, equal]
      exact RoundRobin.ofKey_taken_initial lists_bucketOrder want key
    · rw [none]
      exact List.nil_prefix
  balanced behind ahead apart := by
    rcases inDomain_cases derived behind with ⟨key, equal⟩ | none
    · rcases inDomain_cases derived ahead with ⟨key', equal'⟩ | none'
      · rw [equal, equal'] at apart
        rw [equal, equal]
        exact RoundRobin.ofKey_taken_eq lists_bucketOrder apart
      · rw [none'] at apart
        cases apart
    · rw [none, none]
  first _ head := score_le_of_head?_chosen sorted head

/-- Spreading terminates with a fair choice, if the vector for it can be
allocated. -/
theorem spread_fair (derived : Derived scored)
    (sorted : scored.Pairwise fun first second => second.score ≤ first.score)
    {allocator : Allocator} {want : Nat} (granted : allocator.Grants (want * instanceSize)) :
    ∃ positions, spread allocator scored want = .ok (positions.map scored.get) ∧
      Fair scored want positions :=
  ⟨chosen scored want, spread_eq granted, chosen_fair derived sorted want⟩

/-- Two instances in one region, and one that is rated lower in another. -/
def regions : List (Instance Nat) :=
  [⟨"a", 9, 4, 4096, ["region:eu"], 0, some "region:eu"⟩,
    ⟨"b", 8, 4, 4096, ["region:eu"], 0, some "region:eu"⟩,
    ⟨"c", 7, 4, 4096, ["region:us"], 0, some "region:us"⟩]

theorem spread_fair_regions :
    ∃ positions, spread .ample regions 2 = .ok (positions.map regions.get) ∧
      Fair regions 2 positions := by
  refine spread_fair (fun inst member => ⟨inst.tags, ?_⟩) (by simp [regions])
    (Allocator.grants_ample.mpr (by decide))
  simp only [regions, List.mem_cons, List.not_mem_nil, or_false] at member
  rcases member with rfl | rfl | rfl <;> decide

end Fairness

section Locating

variable [LinearOrder Score] {allocator : Allocator} {scoring : Scoring Score} {answers : Answers}
  {opts : LocateOpts} {result : List (Instance Score)}

theorem pairwise_ranked (instances : List (Instance Score)) :
    (ranked instances).Pairwise fun first second => second.score ≤ first.score := by
  have sorted := List.pairwise_mergeSort (Grouping.descending_trans Instance.score)
    (Grouping.descending_total Instance.score) instances
  exact sorted.imp of_decide_eq_true

theorem mem_ranked {instances : List (Instance Score)} {inst : Instance Score} :
    inst ∈ ranked instances ↔ inst ∈ instances :=
  List.mem_mergeSort

/-- More than one instance is wanted, from different domains. -/
def Spreads (opts : LocateOpts) : Prop :=
  2 ≤ opts.want ∧ opts.spreadDomains = true

instance (opts : LocateOpts) : Decidable (Spreads opts) :=
  inferInstanceAs (Decidable (_ ∧ _))

/-- The instances that are chosen, if the vector for them can be allocated. -/
def selected (instances : List (Instance Score)) (opts : LocateOpts) : List (Instance Score) :=
  if Spreads opts then (chosen (ranked instances) opts.want).map (ranked instances).get
  else (ranked instances).take (max opts.want 1)

theorem choose_eq_selected (allocator : Allocator) (instances : List (Instance Score))
    (opts : LocateOpts) :
    choose allocator instances opts =
      if Spreads opts → allocator.Grants (opts.want * instanceSize) then
        .ok (selected instances opts)
      else .panic := by
  by_cases spreads : Spreads opts
  · have want : max opts.want 1 = opts.want := by
      have several := spreads.1
      omega
    have single : ¬ (max opts.want 1 = 1 ∨ opts.spreadDomains = false) := by
      obtain ⟨several, spreadDomains⟩ := spreads
      simp only [spreadDomains, Bool.true_eq_false, or_false]
      omega
    rw [choose, if_neg single, want]
    by_cases granted : allocator.Grants (opts.want * instanceSize)
    · rw [spread_eq granted, if_pos fun _ => granted, selected, if_pos spreads]
    · rw [spread, if_neg granted, if_neg fun grants => granted (grants spreads)]
  · have single : max opts.want 1 = 1 ∨ opts.spreadDomains = false := by
      by_contra several
      obtain ⟨several, spreadDomains⟩ := not_or.mp several
      exact spreads ⟨by omega, Bool.eq_true_of_not_eq_false spreadDomains⟩
    rw [choose, if_pos single, if_pos fun both => (spreads both).elim, selected, if_neg spreads]

/-- What `choose` returns when it spreads. -/
theorem choose_eq_ok {instances result : List (Instance Score)} {opts : LocateOpts}
    (several : 2 ≤ opts.want) (spreads : opts.spreadDomains = true)
    (chose : choose allocator instances opts = .ok result) :
    result = (chosen (ranked instances) opts.want).map (ranked instances).get := by
  rw [choose_eq_selected] at chose
  split at chose
  case isTrue =>
      rw [← Outcome.ok.inj chose, selected, if_pos ⟨several, spreads⟩]
  case isFalse => cases chose

theorem locate_eq_ok (located : locate allocator scoring answers opts = .ok result) :
    live scoring answers opts = [] ∧ result = [] ∨
      choose allocator (live scoring answers opts) opts = .ok result := by
  unfold locate at located
  unfold live
  cases providers : answers.providers with
  | error message => simp [providers] at located
  | ok ids =>
      cases atlas : answers.atlas with
      | error message => cases ids <;> simp_all
      | ok entries =>
          cases ids with
          | nil => simp_all [eligible]
          | cons id rest => exact .inr (by simpa [providers, atlas] using located)

/-- What `locate` returns when it spreads. -/
theorem locate_eq_chosen (several : 2 ≤ opts.want) (spreads : opts.spreadDomains = true)
    (located : locate allocator scoring answers opts = .ok result) :
    result = (chosen (ranked (live scoring answers opts)) opts.want).map
      (ranked (live scoring answers opts)).get := by
  rcases locate_eq_ok located with ⟨none, rfl⟩ | chose
  · refine (List.eq_nil_of_length_eq_zero ?_).symm
    rw [List.length_map, chosen, RoundRobin.length_taken lists_bucketOrder, List.length_finRange,
      ranked, List.length_mergeSort, none, List.length_nil, Nat.min_zero]
  · exact choose_eq_ok several spreads chose

omit [LinearOrder Score] in
theorem faultDomain_of_mem_live {inst : Instance Score}
    (member : inst ∈ live scoring answers opts) : inst.faultDomain = faultDomain inst.tags := by
  unfold live at member
  split at member
  case h_1 ids atlas _ _ =>
      exact faultDomain_of_candidate (mem_eligible.mp member).2
  case h_2 => cases member

/-- The choice of `locate` among the live instances is fair. -/
theorem locate_fair (several : 2 ≤ opts.want) (spreads : opts.spreadDomains = true)
    (located : locate allocator scoring answers opts = .ok result) :
    ∃ positions, result = positions.map (ranked (live scoring answers opts)).get ∧
      Fair (ranked (live scoring answers opts)) opts.want positions := by
  refine ⟨_, locate_eq_chosen several spreads located, chosen_fair ?_ (pairwise_ranked _) _⟩
  exact fun inst member => ⟨inst.tags, faultDomain_of_mem_live (mem_ranked.mp member)⟩

end Locating

end CeRs.Locate
