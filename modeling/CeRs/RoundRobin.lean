import Mathlib.Data.Finset.Card
import Mathlib.Data.List.Nodup

/-!
# Taking from buckets in turn

In each round one item is taken from every bucket that has one left, until the
wanted number is reached or the buckets are exhausted.  What is taken is a
prefix of the rounds, written out one after the other; when the buckets hold
the items of the different keys, no key gets two items ahead of a key that has
items left.
-/

namespace CeRs.RoundRobin

variable {Item : Type*}

/-- How one pass over the buckets ends: with enough items, or at the last
bucket, having taken an item or not. -/
inductive Pass (Item : Type*)
  | enough (out : List Item)
  | done (out : List Item) (tookAny : Bool)

/-- Take the item of this round from every bucket. -/
def takeRound (want round : Nat) : List (List Item) → List Item → Bool → Pass Item
  | [], out, tookAny => .done out tookAny
  | bucket :: rest, out, tookAny =>
      if want ≤ out.length then .enough out
      else
        match bucket[round]? with
        | some item => takeRound want round rest (out ++ [item]) true
        | none => takeRound want round rest out tookAny

/-- The items of one round. -/
def roundOf (buckets : List (List Item)) (round : Nat) : List Item :=
  buckets.filterMap fun bucket => bucket[round]?

/-- The items of the first rounds. -/
def firstRounds (buckets : List (List Item)) (count : Nat) : List Item :=
  (List.range count).flatMap (roundOf buckets)

/-- The size of the largest bucket. -/
def longest (buckets : List (List Item)) : Nat :=
  (buckets.map List.length).foldr max 0

theorem roundOf_cons (bucket : List Item) (rest : List (List Item)) (round : Nat) :
    roundOf (bucket :: rest) round = bucket[round]?.toList ++ roundOf rest round := by
  cases found : bucket[round]? with
  | none => simp [roundOf, found]
  | some item => simp [roundOf, found]

theorem firstRounds_succ (buckets : List (List Item)) (count : Nat) :
    firstRounds buckets (count + 1) = firstRounds buckets count ++ roundOf buckets count := by
  simp [firstRounds, List.range_succ]

theorem length_le_longest {buckets : List (List Item)} {bucket : List Item}
    (member : bucket ∈ buckets) : bucket.length ≤ longest buckets := by
  induction buckets with
  | nil => cases member
  | cons first rest induction =>
      rcases List.mem_cons.mp member with rfl | member
      · exact le_max_left _ _
      · exact (induction member).trans (le_max_right _ _)

theorem roundOf_eq_nil {buckets : List (List Item)} {round : Nat}
    (exhausted : longest buckets ≤ round) : roundOf buckets round = [] := by
  refine List.filterMap_eq_nil_iff.mpr fun bucket member => List.getElem?_eq_none ?_
  exact (length_le_longest member).trans exhausted

/-- A pass takes the items of the round, as many as are still wanted. -/
theorem takeRound_eq {want round : Nat} {buckets : List (List Item)} {out : List Item}
    (tookAny : Bool) (room : out.length ≤ want) :
    takeRound want round buckets out tookAny =
        .enough ((out ++ roundOf buckets round).take want) ∧
        want ≤ (out ++ roundOf buckets round).length ∨
      takeRound want round buckets out tookAny =
        .done (out ++ roundOf buckets round) (tookAny || !(roundOf buckets round).isEmpty) ∧
        (out ++ roundOf buckets round).length ≤ want := by
  induction buckets generalizing out tookAny with
  | nil => exact .inr (by simpa [takeRound, roundOf] using room)
  | cons bucket rest induction =>
      by_cases full : want ≤ out.length
      · refine .inl ⟨?_, by rw [List.length_append]; omega⟩
        have exact' : out.length = want := by omega
        rw [takeRound, if_pos full, ← exact', List.take_left]
      · rw [takeRound, if_neg full, roundOf_cons]
        cases bucket[round]? with
        | none => simpa using induction tookAny room
        | some item =>
            have room : (out ++ [item]).length ≤ want := by
              rw [List.length_append, List.length_singleton]
              omega
            simpa using induction true room

theorem lt_longest_of_takeRound {want round : Nat} {buckets : List (List Item)}
    {out taken : List Item} (passed : takeRound want round buckets out false = .done taken true) :
    round < longest buckets := by
  by_contra beyond
  have none : roundOf buckets round = [] := roundOf_eq_nil (Nat.le_of_not_lt beyond)
  by_cases room : out.length ≤ want
  · rcases @takeRound_eq _ want round buckets out false room with equal | equal
    · rw [equal.1] at passed
      cases passed
    · rw [equal.1, none] at passed
      simp at passed
  · cases buckets with
    | nil => simp [takeRound] at passed
    | cons bucket rest =>
        rw [takeRound, if_pos (Nat.le_of_lt (Nat.lt_of_not_le room))] at passed
        cases passed

/-- Make passes over the buckets until there are enough items or a pass takes
none. -/
def takeRounds (want : Nat) (buckets : List (List Item)) (round : Nat) (out : List Item) :
    List Item :=
  match passed : takeRound want round buckets out false with
  | .enough taken => taken
  | .done taken false => taken
  | .done taken true => takeRounds want buckets (round + 1) taken
termination_by longest buckets - round
decreasing_by
  have := lt_longest_of_takeRound passed
  omega

theorem firstRounds_initial {buckets : List (List Item)} {fewer more : Nat} (le : fewer ≤ more) :
    firstRounds buckets fewer <+: firstRounds buckets more := by
  induction more, le using Nat.le_induction with
  | base => exact List.prefix_rfl
  | succ more _ induction =>
      rw [firstRounds_succ]
      exact induction.trans (List.prefix_append _ _)

theorem firstRounds_of_longest_le {buckets : List (List Item)} {count : Nat}
    (le : longest buckets ≤ count) :
    firstRounds buckets count = firstRounds buckets (longest buckets) := by
  induction count, le using Nat.le_induction with
  | base => rfl
  | succ more le induction => rw [firstRounds_succ, roundOf_eq_nil le, List.append_nil, induction]

theorem longest_le_of_roundOf_eq_nil {buckets : List (List Item)} {round : Nat}
    (none : roundOf buckets round = []) : longest buckets ≤ round := by
  induction buckets with
  | nil => exact Nat.zero_le round
  | cons bucket rest induction =>
      rw [roundOf_cons, List.append_eq_nil_iff, Option.toList_eq_nil_iff,
        List.getElem?_eq_none_iff] at none
      exact max_le none.1 (induction none.2)

theorem firstRounds_initial_all (buckets : List (List Item)) (count : Nat) :
    firstRounds buckets count <+: firstRounds buckets (longest buckets) := by
  rcases Nat.le_total count (longest buckets) with le | le
  · exact firstRounds_initial le
  · rw [firstRounds_of_longest_le le]

theorem take_firstRounds {want : Nat} {buckets : List (List Item)} {count : Nat}
    (enough : want ≤ (firstRounds buckets count).length) :
    (firstRounds buckets count).take want =
      (firstRounds buckets (longest buckets)).take want := by
  obtain ⟨later, equal⟩ := firstRounds_initial_all buckets count
  rw [← equal, List.take_append_of_le_length enough]

/-- A pass over the buckets, after the earlier rounds. -/
theorem takeRound_firstRounds {want round : Nat} {buckets : List (List Item)}
    (room : (firstRounds buckets round).length ≤ want) :
    takeRound want round buckets (firstRounds buckets round) false =
        .enough ((firstRounds buckets (longest buckets)).take want) ∨
      takeRound want round buckets (firstRounds buckets round) false =
        .done (firstRounds buckets (round + 1)) (!(roundOf buckets round).isEmpty) ∧
        (firstRounds buckets (round + 1)).length ≤ want := by
  have pass := @takeRound_eq _ want round buckets _ false room
  rw [← firstRounds_succ] at pass
  rcases pass with ⟨full, enough⟩ | done
  · rw [take_firstRounds enough] at full
    exact .inl full
  · exact .inr done

/-- What is taken is the first items of the rounds. -/
theorem takeRounds_eq {want : Nat} {buckets : List (List Item)} {round : Nat} {out : List Item}
    (earlier : out = firstRounds buckets round) (room : out.length ≤ want) :
    takeRounds want buckets round out = (firstRounds buckets (longest buckets)).take want := by
  fun_induction takeRounds want buckets round out with
  | case1 round out taken passed =>
      subst earlier
      rcases takeRound_firstRounds room with full | ⟨done, -⟩
      · rw [passed] at full
        exact Pass.enough.inj full
      · rw [passed] at done
        cases done
  | case2 round out taken passed =>
      subst earlier
      rcases takeRound_firstRounds room with full | ⟨done, fits⟩
      · rw [passed] at full
        cases full
      · rw [passed] at done
        obtain ⟨rfl, none⟩ := Pass.done.inj done
        have exhausted : longest buckets ≤ round :=
          longest_le_of_roundOf_eq_nil (by simpa using none)
        rw [firstRounds_of_longest_le (Nat.le_succ_of_le exhausted)] at fits ⊢
        exact (List.take_of_length_le fits).symm
  | case3 round out taken passed induction =>
      subst earlier
      rcases takeRound_firstRounds room with full | ⟨done, fits⟩
      · rw [passed] at full
        cases full
      · rw [passed] at done
        obtain ⟨rfl, -⟩ := Pass.done.inj done
        exact induction rfl fits

theorem takeRounds_zero (want : Nat) (buckets : List (List Item)) :
    takeRounds want buckets 0 [] = (firstRounds buckets (longest buckets)).take want :=
  takeRounds_eq rfl (Nat.zero_le want)

section Maps

variable {Other : Type*} (name : Item → Other)

theorem roundOf_map (buckets : List (List Item)) (round : Nat) :
    roundOf (buckets.map (List.map name)) round = (roundOf buckets round).map name := by
  simp [roundOf, List.filterMap_map, List.map_filterMap]

theorem firstRounds_map (buckets : List (List Item)) (count : Nat) :
    firstRounds (buckets.map (List.map name)) count = (firstRounds buckets count).map name := by
  induction count with
  | zero => rfl
  | succ count induction => rw [firstRounds_succ, firstRounds_succ, induction, roundOf_map,
      List.map_append]

theorem longest_map (buckets : List (List Item)) :
    longest (buckets.map (List.map name)) = longest buckets := by
  simp [longest, Function.comp_def]

end Maps

section Keys

variable {Key : Type*} [DecidableEq Key] (key : Item → Key)

/-- The items of this key. -/
def ofKey (items : List Item) (wanted : Key) : List Item :=
  items.filter fun item => key item = wanted

/-- One bucket for each of the keys. -/
def bucketsOf (keys : List Key) (items : List Item) : List (List Item) :=
  keys.map (ofKey key items)

/-- The items that are taken, given the order of the keys. -/
def taken (keys : List Key) (items : List Item) (want : Nat) : List Item :=
  let buckets := bucketsOf key keys items
  (firstRounds buckets (longest buckets)).take want

variable {key} {keys : List Key} {items : List Item}

variable (key keys items) in
/-- The keys are those of the items, each listed once. -/
structure Lists : Prop where
  nodup : keys.Nodup
  mem_iff : ∀ wanted, wanted ∈ keys ↔ ∃ item ∈ items, key item = wanted

theorem ofKey_eq_nil (lists : Lists key keys items) {wanted : Key} (absent : wanted ∉ keys) :
    ofKey key items wanted = [] := by
  refine List.filter_eq_nil_iff.mpr fun item member same => absent ?_
  exact (lists.mem_iff wanted).mpr ⟨item, member, of_decide_eq_true same⟩

theorem key_of_getElem?_ofKey {wanted : Key} {round : Nat} {item : Item}
    (found : (ofKey key items wanted)[round]? = some item) : key item = wanted :=
  of_decide_eq_true (List.mem_filter.mp (List.mem_of_getElem? found)).2

theorem ofKey_append (first second : List Item) (wanted : Key) :
    ofKey key (first ++ second) wanted = ofKey key first wanted ++ ofKey key second wanted :=
  List.filter_append first second

/-- A round takes at most one item of a key, the next one in order. -/
theorem ofKey_roundOf (nodup : keys.Nodup) (round : Nat) (wanted : Key) :
    ofKey key (roundOf (bucketsOf key keys items) round) wanted =
      if wanted ∈ keys then (ofKey key items wanted)[round]?.toList else [] := by
  induction keys with
  | nil => rfl
  | cons first rest induction =>
      obtain ⟨absent, nodup⟩ := List.nodup_cons.mp nodup
      have own : ofKey key (ofKey key items first)[round]?.toList wanted =
          if first = wanted then (ofKey key items first)[round]?.toList else [] := by
        cases found : (ofKey key items first)[round]? with
        | none => simp [ofKey]
        | some item => by_cases same : first = wanted <;>
            simp [ofKey, key_of_getElem?_ofKey found, same]
      rw [bucketsOf, List.map_cons, roundOf_cons, ofKey_append, own,
        show roundOf (rest.map (ofKey key items)) round =
          roundOf (bucketsOf key rest items) round from rfl, induction nodup]
      by_cases same : first = wanted
      · subst same
        simp [absent]
      · simp [same, Ne.symm same]

theorem ofKey_firstRounds (lists : Lists key keys items) (count : Nat) (wanted : Key) :
    ofKey key (firstRounds (bucketsOf key keys items) count) wanted =
      (ofKey key items wanted).take count := by
  induction count with
  | zero => rfl
  | succ count induction =>
      rw [firstRounds_succ, ofKey_append, induction, ofKey_roundOf lists.nodup, List.take_add_one]
      split
      case isTrue => rfl
      case isFalse absent => simp [ofKey_eq_nil lists absent]

theorem ofKey_allRounds (lists : Lists key keys items) (wanted : Key) :
    ofKey key (firstRounds (bucketsOf key keys items) (longest (bucketsOf key keys items)))
      wanted = ofKey key items wanted := by
  rw [ofKey_firstRounds lists]
  by_cases present : wanted ∈ keys
  · exact List.take_of_length_le (length_le_longest (List.mem_map_of_mem present))
  · rw [ofKey_eq_nil lists present, List.take_nil]

/-- The rounds go through all the items. -/
theorem allRounds_perm (lists : Lists key keys items) :
    (firstRounds (bucketsOf key keys items) (longest (bucketsOf key keys items))).Perm items := by
  classical
  refine List.perm_iff_count.mpr fun item => ?_
  have kept : ∀ list : List Item,
      (ofKey key list (key item)).count item = list.count item :=
    fun list => List.count_filter (decide_eq_true rfl)
  rw [← kept, ofKey_allRounds lists, kept]

theorem length_taken (lists : Lists key keys items) (want : Nat) :
    (taken key keys items want).length = min want items.length := by
  rw [taken, List.length_take, (allRounds_perm lists).length_eq]

theorem ofKey_taken_initial (lists : Lists key keys items) (want : Nat) (wanted : Key) :
    ofKey key (taken key keys items want) wanted <+: ofKey key items wanted := by
  rw [← ofKey_allRounds lists wanted]
  exact (List.take_prefix want _).filter _

theorem exists_round (buckets : List (List Item)) (want count : Nat) :
    ∃ round, firstRounds buckets round <+: (firstRounds buckets count).take want ∧
      (firstRounds buckets count).take want <+: firstRounds buckets (round + 1) := by
  induction count with
  | zero => exact ⟨0, by simp [firstRounds], by simp [firstRounds]⟩
  | succ count induction =>
      rw [firstRounds_succ]
      by_cases enough : want ≤ (firstRounds buckets count).length
      · rwa [List.take_append_of_le_length enough]
      · refine ⟨count, ?_, ?_⟩
        · exact List.prefix_take_iff.mpr ⟨List.prefix_append _ _, by omega⟩
        · rw [firstRounds_succ]
          exact List.take_prefix _ _

/-- A key that is two items behind another one has none left. -/
theorem ofKey_taken_eq (lists : Lists key keys items) {want : Nat} {behind ahead : Key}
    (apart : (ofKey key (taken key keys items want) behind).length + 1 <
      (ofKey key (taken key keys items want) ahead).length) :
    ofKey key (taken key keys items want) behind = ofKey key items behind := by
  obtain ⟨round, least, most⟩ := exists_round (bucketsOf key keys items) want
    (longest (bucketsOf key keys items))
  have few := (least.filter fun item => key item = behind).length_le
  have many := (most.filter fun item => key item = ahead).length_le
  change (ofKey key _ behind).length ≤ (ofKey key (taken key keys items want) behind).length at few
  change (ofKey key (taken key keys items want) ahead).length ≤ (ofKey key _ ahead).length at many
  rw [ofKey_firstRounds lists, List.length_take] at few many
  refine (ofKey_taken_initial lists want behind).eq_of_length_le ?_
  omega

theorem map_key_roundOf_zero (lists : Lists key keys items) :
    (roundOf (bucketsOf key keys items) 0).map key = keys := by
  rw [roundOf, bucketsOf, List.filterMap_map, List.map_filterMap]
  refine (List.filterMap_congr fun wanted member => ?_).trans List.filterMap_some
  obtain ⟨item, present, same⟩ := (lists.mem_iff wanted).mp member
  have own : item ∈ ofKey key items wanted := List.mem_filter.mpr ⟨present, decide_eq_true same⟩
  obtain ⟨first, found⟩ : ∃ first, (ofKey key items wanted)[0]? = some first :=
    ⟨_, List.getElem?_eq_getElem (List.length_pos_of_mem own)⟩
  simp [found, key_of_getElem?_ofKey found]

/-- As many keys are covered as the wanted number allows. -/
theorem card_keys_taken (lists : Lists key keys items) (want : Nat) :
    ((taken key keys items want).map key).toFinset.card = min want keys.length := by
  have first : firstRounds (bucketsOf key keys items) 1 = roundOf (bucketsOf key keys items) 0 := by
    rw [firstRounds_succ]
    rfl
  have size : (firstRounds (bucketsOf key keys items) 1).length = keys.length := by
    rw [first, ← List.length_map (f := key), map_key_roundOf_zero lists]
  rcases Nat.le_total want keys.length with few | many
  · have equal : (taken key keys items want).map key = keys.take want := by
      rw [taken, ← take_firstRounds (size.symm ▸ few), first, List.map_take,
        map_key_roundOf_zero lists]
    rw [equal, List.toFinset_card_of_nodup (lists.nodup.sublist (List.take_sublist _ _)),
      List.length_take]
  · have covered : ((taken key keys items want).map key).toFinset = keys.toFinset := by
      refine List.toFinset.ext fun wanted => ⟨fun member => ?_, fun member => ?_⟩
      · obtain ⟨item, member, same⟩ := List.mem_map.mp member
        have present := (allRounds_perm lists).mem_iff.mp (List.mem_of_mem_take member)
        exact (lists.mem_iff wanted).mpr ⟨item, present, same⟩
      · rw [← map_key_roundOf_zero lists, ← first] at member
        have earliest : firstRounds (bucketsOf key keys items) 1 <+: taken key keys items want := by
          exact List.prefix_take_iff.mpr ⟨firstRounds_initial_all _ 1, size.trans_le many⟩
        exact (earliest.map key).subset member
    rw [covered, List.toFinset_card_of_nodup lists.nodup, Nat.min_eq_right many]

section Order

variable [DecidableEq Item] (order : Key → Key → Prop)

variable (key items) in
/-- How many items of the same key come before this one. -/
def place (item : Item) : Nat :=
  (ofKey key items (key item)).idxOf item

variable (key items) in
/-- The order in which the items are taken. -/
def Before (first second : Item) : Prop :=
  place key items first < place key items second ∨
    place key items first = place key items second ∧ order (key first) (key second)

variable {order}

theorem place_of_mem_roundOf (nodup : items.Nodup) {round : Nat} {item : Item}
    (member : item ∈ roundOf (bucketsOf key keys items) round) :
    place key items item = round := by
  obtain ⟨bucket, listed, found⟩ := List.mem_filterMap.mp member
  obtain ⟨wanted, -, rfl⟩ := List.mem_map.mp listed
  have same := key_of_getElem?_ofKey found
  subst same
  obtain ⟨bound, equal⟩ := List.getElem?_eq_some_iff.mp found
  have own : (ofKey key items (key item)).Nodup := nodup.filter _
  have located := own.idxOf_getElem round bound
  rwa [equal] at located

theorem place_of_mem_firstRounds (nodup : items.Nodup) {count : Nat} {item : Item}
    (member : item ∈ firstRounds (bucketsOf key keys items) count) :
    place key items item < count := by
  obtain ⟨round, bound, member⟩ := List.mem_flatMap.mp member
  rw [place_of_mem_roundOf nodup member]
  exact List.mem_range.mp bound

omit [DecidableEq Item] in
theorem pairwise_roundOf (ordered : keys.Pairwise order) (round : Nat) :
    (roundOf (bucketsOf key keys items) round).Pairwise
      fun first second => order (key first) (key second) := by
  rw [roundOf, bucketsOf, List.filterMap_map, List.pairwise_filterMap]
  refine ordered.imp fun related item found item' found' => ?_
  rwa [key_of_getElem?_ofKey found, key_of_getElem?_ofKey found']

theorem pairwise_firstRounds (nodup : items.Nodup) (ordered : keys.Pairwise order) (count : Nat) :
    (firstRounds (bucketsOf key keys items) count).Pairwise (Before key items order) := by
  induction count with
  | zero => exact List.Pairwise.nil
  | succ count induction =>
      rw [firstRounds_succ]
      refine List.pairwise_append.mpr ⟨induction, ?_, ?_⟩
      · refine (pairwise_roundOf ordered count).imp_of_mem fun member member' related =>
          .inr ⟨?_, related⟩
        rw [place_of_mem_roundOf nodup member, place_of_mem_roundOf nodup member']
      · intro earlier member later member'
        rw [Before, place_of_mem_roundOf nodup member']
        exact .inl (place_of_mem_firstRounds nodup member)

omit [DecidableEq Item] in
/-- In a list that is ordered strictly, the number of earlier elements tells
whether an element is among the first ones. -/
theorem mem_take_iff {before : Item → Item → Prop} [DecidableRel before] {list : List Item}
    (ordered : list.Pairwise before) (asymmetric : ∀ first second, before first second →
      ¬ before second first) {want : Nat} {item : Item} :
    item ∈ list.take want ↔
      item ∈ list ∧ (list.filter fun other => before other item).length < want := by
  have earlier : ∀ front back : List Item, list = front ++ item :: back →
      item ∉ front ∧ (list.filter fun other => before other item) = front := by
    rintro front back rfl
    obtain ⟨-, later, crossed⟩ := List.pairwise_append.mp ordered
    have irreflexive : ¬ before item item := fun self => asymmetric item item self self
    refine ⟨fun repeated => irreflexive (crossed item repeated item (List.mem_cons_self ..)), ?_⟩
    have kept : (front.filter fun other => before other item) = front :=
      List.filter_eq_self.mpr fun other member =>
        decide_eq_true (crossed other member item (List.mem_cons_self ..))
    have dropped : (back.filter fun other => before other item) = [] :=
      List.filter_eq_nil_iff.mpr fun other member self =>
        asymmetric item other (List.rel_of_pairwise_cons later member) (of_decide_eq_true self)
    rw [List.filter_append, kept, List.filter_cons_of_neg (by simpa using irreflexive), dropped,
      List.append_nil]
  constructor
  · intro member
    have listed := List.mem_of_mem_take member
    refine ⟨listed, ?_⟩
    obtain ⟨front, back, equal⟩ := List.append_of_mem listed
    obtain ⟨absent, front_eq⟩ := earlier front back equal
    rw [front_eq]
    by_contra short
    rw [equal, List.take_append_of_le_length (Nat.le_of_not_lt short)] at member
    exact absent (List.mem_of_mem_take member)
  · rintro ⟨listed, few⟩
    obtain ⟨front, back, equal⟩ := List.append_of_mem listed
    rw [(earlier front back equal).2] at few
    rw [equal, List.take_append, List.mem_append]
    refine .inr ?_
    obtain ⟨room, rest⟩ := Nat.exists_eq_add_of_lt few
    rw [show want - front.length = room + 1 by omega, List.take_succ_cons]
    exact List.mem_cons_self ..

instance [DecidableRel order] : DecidableRel (Before key items order) := fun _ _ =>
  inferInstanceAs (Decidable (_ ∨ _))

/-- An item is taken if there are few enough items before it. -/
theorem mem_taken_iff [DecidableRel order] (lists : Lists key keys items) (nodup : items.Nodup)
    (ordered : keys.Pairwise order)
    (asymmetric : ∀ first second, order first second → ¬ order second first) {want : Nat}
    {item : Item} :
    item ∈ taken key keys items want ↔
      item ∈ items ∧
        (items.filter fun other => Before key items order other item).length < want := by
  have perm := allRounds_perm lists
  rw [taken, mem_take_iff (pairwise_firstRounds nodup ordered _) ?_, perm.mem_iff,
    (perm.filter _).length_eq]
  rintro first second (less | ⟨same, related⟩) (less' | ⟨same', related'⟩)
  · omega
  · omega
  · omega
  · exact asymmetric _ _ related related'

/-- The first item that is taken is before all others. -/
theorem before_of_head?_taken (lists : Lists key keys items) (nodup : items.Nodup)
    (ordered : keys.Pairwise order) {want : Nat} {first item : Item}
    (head : first ∈ (taken key keys items want).head?) (member : item ∈ items) :
    first = item ∨ Before key items order first item := by
  have listed := (allRounds_perm lists).mem_iff.mpr member
  have pairwise : (firstRounds (bucketsOf key keys items)
      (longest (bucketsOf key keys items))).Pairwise (Before key items order) :=
    pairwise_firstRounds nodup ordered _
  rw [taken, List.head?_take] at head
  split at head
  case isTrue => cases head
  case isFalse =>
      obtain ⟨rest, equal⟩ := List.head?_eq_some_iff.mp head
      rw [equal] at listed pairwise
      rcases List.mem_cons.mp listed with rfl | later
      · exact .inl rfl
      · exact .inr (List.rel_of_pairwise_cons pairwise later)

end Order

end Keys

end CeRs.RoundRobin
