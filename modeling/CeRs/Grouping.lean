import Mathlib.Data.List.Basic
import Mathlib.Data.List.FinRange
import Mathlib.Order.Lattice

/-!
# Grouping by key

Entries are collected in an ordered map, each item at the end of the group of
its key.  The groups come out in the order of their keys, and no key has an
empty group.  Sorting them by another order keeps that order among equals.
-/

namespace CeRs.Grouping

variable {Key Item : Type*} [LinearOrder Key]

/-- Add an item to the group of its key. -/
def add (groups : Std.TreeMap Key (List Item)) (entry : Key × Item) :
    Std.TreeMap Key (List Item) :=
  groups.alter entry.1 fun group => some (group.getD [] ++ [entry.2])

def collect (entries : List (Key × Item)) : Std.TreeMap Key (List Item) :=
  entries.foldl add ∅

/-- The items of this key, in order. -/
def itemsOf (entries : List (Key × Item)) (key : Key) : List Item :=
  (entries.filter fun entry => entry.1 = key).map Prod.snd

theorem itemsOf_cons (entry : Key × Item) (rest : List (Key × Item)) (key : Key) :
    itemsOf (entry :: rest) key =
      if entry.1 = key then entry.2 :: itemsOf rest key else itemsOf rest key := by
  by_cases same : entry.1 = key <;> simp [itemsOf, same]

theorem itemsOf_eq_nil {entries : List (Key × Item)} {key : Key} :
    itemsOf entries key = [] ↔ key ∉ entries.map Prod.fst := by
  rw [itemsOf, List.map_eq_nil_iff, List.filter_eq_nil_iff]
  constructor
  · intro none present
    obtain ⟨entry, member, same⟩ := List.mem_map.mp present
    exact none entry member (decide_eq_true same)
  · intro absent entry member same
    exact absent (List.mem_map.mpr ⟨entry, member, of_decide_eq_true same⟩)

theorem getElem?_add (groups : Std.TreeMap Key (List Item)) (entry : Key × Item) (key : Key) :
    (add groups entry)[key]? =
      if entry.1 = key then some (groups[key]?.getD [] ++ [entry.2]) else groups[key]? := by
  rw [add, Std.TreeMap.getElem?_alter]
  simp only [Std.LawfulEqCmp.compare_eq_iff_eq]
  split
  case isTrue same => rw [same]
  case isFalse => rfl

theorem getElem?_foldl_add (groups : Std.TreeMap Key (List Item)) (entries : List (Key × Item))
    (key : Key) :
    (entries.foldl add groups)[key]? =
      if itemsOf entries key = [] then groups[key]?
      else some (groups[key]?.getD [] ++ itemsOf entries key) := by
  induction entries generalizing groups with
  | nil => rfl
  | cons entry rest induction =>
      rw [List.foldl_cons, induction, getElem?_add, itemsOf_cons]
      by_cases same : entry.1 = key
      · by_cases none : itemsOf rest key = [] <;> simp [same, none]
      · simp [same]

theorem getElem?_collect (entries : List (Key × Item)) (key : Key) :
    (collect entries)[key]? =
      if itemsOf entries key = [] then none else some (itemsOf entries key) := by
  rw [collect, getElem?_foldl_add]
  simp

theorem mem_keys_collect {entries : List (Key × Item)} {key : Key} :
    key ∈ (collect entries).keys ↔ key ∈ entries.map Prod.fst := by
  rw [Std.TreeMap.mem_keys, Std.TreeMap.mem_iff_isSome_getElem?, getElem?_collect]
  by_cases present : key ∈ entries.map Prod.fst
  · simp [itemsOf_eq_nil.not.mpr (not_not.mpr present), present]
  · simp [itemsOf_eq_nil.mpr present, present]

theorem pairwise_keys_collect (entries : List (Key × Item)) :
    (collect entries).keys.Pairwise (· < ·) :=
  Std.TreeMap.ordered_keys.imp compare_lt_iff_lt.mp

/-- The groups are the items of each key, in the order of the keys. -/
theorem toList_collect (entries : List (Key × Item)) :
    (collect entries).toList =
      (collect entries).keys.map fun key => (key, itemsOf entries key) := by
  rw [← Std.TreeMap.map_fst_toList_eq_keys, List.map_map]
  refine (List.map_id _).symm.trans (List.map_congr_left fun group member => ?_)
  have found := Std.TreeMap.mem_toList_iff_getElem?_eq_some.mp member
  rw [getElem?_collect] at found
  split at found
  case isTrue => cases found
  case isFalse => exact Prod.ext rfl (Option.some.inj found).symm

section Sorting

variable {Rank : Type*} [LinearOrder Rank]

theorem descending_trans (rank : Item → Rank) (first second third : Item)
    (higher : decide (rank second ≤ rank first) = true)
    (lower : decide (rank third ≤ rank second) = true) :
    decide (rank third ≤ rank first) = true :=
  decide_eq_true (le_trans (of_decide_eq_true lower) (of_decide_eq_true higher))

theorem descending_total (rank : Item → Rank) (first second : Item) :
    (decide (rank second ≤ rank first) || decide (rank first ≤ rank second)) = true := by
  simpa using le_total (rank second) (rank first)

variable (rank : Key → Rank)

/-- Higher ranks come first, and lower keys among equal ranks. -/
def Ahead (first second : Key) : Prop :=
  rank second < rank first ∨ rank first = rank second ∧ first < second

instance : DecidableRel (Ahead rank) := fun _ _ =>
  inferInstanceAs (Decidable (_ ∨ _ ∧ _))

theorem ahead_asymm (first second : Key) (ahead : Ahead rank first second) :
    ¬ Ahead rank second first := by
  rintro (higher | ⟨same, less⟩)
  · rcases ahead with lower | ⟨same, -⟩
    · exact lt_asymm higher lower
    · exact ne_of_lt higher same
  · rcases ahead with lower | ⟨-, less'⟩
    · exact ne_of_lt lower same
    · exact lt_asymm less less'

/-- Sorting ordered keys by rank alone leaves equal ranks in the order of the
keys, since the sort is stable. -/
theorem pairwise_ahead_mergeSort {keys : List Key} (ordered : keys.Pairwise (· < ·)) :
    (keys.mergeSort fun first second => rank second ≤ rank first).Pairwise (Ahead rank) := by
  let le : Key → Key → Bool := fun first second => rank second ≤ rank first
  have sorted : (keys.zipIdx.mergeSort (List.zipIdxLE le)).Pairwise (List.zipIdxLE le · ·) :=
    List.pairwise_mergeSort (List.zipIdxLE_trans (descending_trans rank))
      (List.zipIdxLE_total (descending_total rank)) _
  have distinct : (keys.mergeSort le).Nodup :=
    (List.mergeSort_perm _ _).nodup_iff.mpr (ordered.imp ne_of_lt)
  rw [← List.mergeSort_zipIdx, List.Nodup, List.pairwise_map] at distinct
  rw [← List.mergeSort_zipIdx, List.pairwise_map]
  refine (sorted.and distinct).imp_of_mem fun {first second} member member' related => ?_
  obtain ⟨related, different⟩ := related
  have found := List.mem_zipIdx_iff_getElem?.mp (List.mem_mergeSort.mp member)
  have found' := List.mem_zipIdx_iff_getElem?.mp (List.mem_mergeSort.mp member')
  simp only [List.zipIdxLE, le, decide_eq_true_eq] at related
  split at related
  case isFalse => cases related
  case isTrue higher =>
      split at related
      case isFalse strict => exact .inl (not_le.mp strict)
      case isTrue lower =>
          refine .inr ⟨le_antisymm lower higher, ?_⟩
          have apart : first.2 ≠ second.2 := by
            intro same
            rw [same, found'] at found
            exact different (Option.some.inj found).symm
          obtain ⟨bound, equal⟩ := List.getElem?_eq_some_iff.mp found
          obtain ⟨bound', equal'⟩ := List.getElem?_eq_some_iff.mp found'
          rw [← equal, ← equal']
          exact List.pairwise_iff_getElem.mp ordered _ _ bound bound'
            (Nat.lt_of_le_of_ne (of_decide_eq_true related) apart)

end Sorting

section Stable

variable {Rank : Type*} [LinearOrder Rank] (rank : Item → Rank)

/-- The rank of the item at each position. -/
def rankAt (items : List Item) (position : Fin items.length) : Rank :=
  rank (items.get position)

/-- The positions of a list by descending rank. -/
def sortedPositions (items : List Item) : List (Fin items.length) :=
  (List.finRange items.length).mergeSort fun first second =>
    rankAt rank items second ≤ rankAt rank items first

theorem mergeSort_eq_map (items : List Item) :
    items.mergeSort (fun first second => rank second ≤ rank first) =
      (sortedPositions rank items).map items.get := by
  rw [sortedPositions,
    List.map_mergeSort (s := fun first second => decide (rank second ≤ rank first))]
  · rw [← List.ofFn_eq_map, List.ofFn_get]
  · intro first _ second _
    rfl

variable {rank}

/-- Items of higher rank come first, and those of equal rank in their order. -/
theorem pairwise_mergeSort_iff {items : List Item} {relation : Item → Item → Prop} :
    (items.mergeSort fun first second => rank second ≤ rank first).Pairwise relation ↔
      ∀ first second, Ahead (rankAt rank items) first second →
        relation (items.get first) (items.get second) := by
  have perm : (sortedPositions rank items).Perm (List.finRange items.length) :=
    List.mergeSort_perm _ _
  have sorted : (sortedPositions rank items).Pairwise (Ahead (rankAt rank items)) :=
    pairwise_ahead_mergeSort _ (List.pairwise_lt_finRange _)
  rw [mergeSort_eq_map, List.pairwise_map]
  constructor
  · intro related first second ahead
    obtain ⟨index, bound, found⟩ :=
      List.mem_iff_getElem.mp (perm.mem_iff.mpr (List.mem_finRange first))
    obtain ⟨index', bound', found'⟩ :=
      List.mem_iff_getElem.mp (perm.mem_iff.mpr (List.mem_finRange second))
    rcases Nat.lt_trichotomy index index' with less | rfl | greater
    · rw [← found, ← found']
      exact List.pairwise_iff_getElem.mp related _ _ bound bound' less
    · obtain rfl : first = second := found.symm.trans found'
      exact absurd ahead (ahead_asymm _ _ _ ahead)
    · have behind := List.pairwise_iff_getElem.mp sorted _ _ bound' bound greater
      rw [found, found'] at behind
      exact absurd behind (ahead_asymm _ _ _ ahead)
  · intro related
    exact sorted.imp fun ahead => related _ _ ahead

/-- The item is the first one of the highest rank. -/
def Leads (rank : Item → Rank) (before : List Item) (item : Item) (after : List Item) : Prop :=
  (∀ other ∈ before, rank other < rank item) ∧ ∀ other ∈ after, rank other ≤ rank item

theorem Leads.not_behind {before after : List Item} {item other : Item}
    (leads : Leads rank before item after) (member : other ∈ after) : ¬ rank item < rank other :=
  not_lt.mpr (leads.2 other member)

theorem Leads.unique {before after before' after' : List Item} {item item' : Item}
    (leads : Leads rank before item after) (leads' : Leads rank before' item' after')
    (same : before ++ item :: after = before' ++ item' :: after') :
    before = before' ∧ item = item' ∧ after = after' := by
  rcases List.append_eq_append_iff.mp same with ⟨between, equal, rest⟩ | ⟨between, equal, rest⟩
  · cases between with
    | nil =>
        obtain ⟨rfl, rfl⟩ := List.cons.inj rest
        exact ⟨by simpa using equal.symm, rfl, rfl⟩
    | cons first between =>
        obtain ⟨rfl, rfl⟩ := List.cons.inj rest
        exact absurd (leads'.1 item (by simp [equal])) (leads.not_behind (by simp))
  · cases between with
    | nil =>
        obtain ⟨rfl, rfl⟩ := List.cons.inj rest
        exact ⟨by simpa using equal, rfl, rfl⟩
    | cons first between =>
        obtain ⟨rfl, rfl⟩ := List.cons.inj rest
        exact absurd (leads.1 item' (by simp [equal])) (leads'.not_behind (by simp))

theorem exists_leads_of_head? {items : List Item} {item : Item}
    (head : (items.mergeSort fun first second => rank second ≤ rank first).head? = some item) :
    ∃ before after, items = before ++ item :: after ∧ Leads rank before item after := by
  have perm : (sortedPositions rank items).Perm (List.finRange items.length) :=
    List.mergeSort_perm _ _
  have sorted : (sortedPositions rank items).Pairwise (Ahead (rankAt rank items)) :=
    pairwise_ahead_mergeSort _ (List.pairwise_lt_finRange _)
  rw [mergeSort_eq_map] at head
  cases listed : sortedPositions rank items with
  | nil => simp [listed] at head
  | cons leader rest =>
      obtain rfl : items.get leader = item := by simpa [listed] using head
      rw [listed] at perm sorted
      have first : ∀ other, other ≠ leader → Ahead (rankAt rank items) leader other := by
        intro other different
        rcases List.mem_cons.mp (perm.mem_iff.mpr (List.mem_finRange other)) with rfl | member
        · exact (different rfl).elim
        · exact List.rel_of_pairwise_cons sorted member
      refine ⟨items.take leader, items.drop (leader + 1), ?_, ?_, ?_⟩
      · rw [List.get_eq_getElem, List.getElem_cons_drop, List.take_append_drop]
      · intro other member
        obtain ⟨index, bound, rfl⟩ := List.mem_take_iff_getElem.mp member
        have earlier : index < leader := (Nat.lt_min.mp bound).1
        rcases first ⟨index, (Nat.lt_min.mp bound).2⟩ (Fin.ne_of_lt earlier) with higher | ⟨-, less⟩
        · exact higher
        · exact absurd less (Nat.lt_asymm earlier)
      · intro other member
        obtain ⟨index, bound, rfl⟩ := List.mem_drop_iff_getElem.mp member
        have later : leader < leader + 1 + index := by omega
        rcases first ⟨leader + 1 + index, by omega⟩ (Fin.ne_of_gt later) with higher | ⟨same, -⟩
        · exact le_of_lt higher
        · exact le_of_eq same.symm

/-- The first item by descending rank is the first one of the highest rank. -/
theorem head?_mergeSort {items before after : List Item} {item : Item}
    (split : items = before ++ item :: after) (leads : Leads rank before item after) :
    (items.mergeSort fun first second => rank second ≤ rank first).head? = some item := by
  have nonempty : (items.mergeSort fun first second => rank second ≤ rank first) ≠ [] := by
    rw [← List.length_pos_iff, List.length_mergeSort, split, List.length_append, List.length_cons]
    omega
  obtain ⟨other, rest, sorted⟩ := List.exists_cons_of_ne_nil nonempty
  have head := congrArg List.head? sorted
  obtain ⟨before', after', split', leads'⟩ := exists_leads_of_head? head
  obtain ⟨-, rfl, -⟩ := leads.unique leads' (split.symm.trans split')
  exact head

end Stable

end CeRs.Grouping
