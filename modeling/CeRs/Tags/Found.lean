import CeRs.Tags.Records
import Mathlib.Data.List.Nodup

/-!
# Whom the searches find

The lookups of a search are made at different times, between which records
expire and are made anew.  A search finds nobody whose records had all expired
when it began.  A node whose `refresh` returns `Ok` often enough is found by
exactly the searches that its tags meet, whatever other rounds of it fail.
-/

namespace CeRs.Tags

open Transition
open Paths (tagService)

section Meeting

variable {Item Image : Type*}

/-- All the items, of which there are some, have the property, or one of them has. -/
def Meets (mode : Mode) (property : Item → Prop) (items : List Item) : Prop :=
  match mode with
  | .all => items ≠ [] ∧ ∀ item ∈ items, property item
  | .any => ∃ item ∈ items, property item

variable {mode : Mode} {first second : Item → Prop} {items : List Item}

theorem Meets.imp (meets : Meets mode first items)
    (implies : ∀ item ∈ items, first item → second item) : Meets mode second items := by
  cases mode with
  | all => exact ⟨meets.1, fun item member => implies item member (meets.2 item member)⟩
  | any =>
      obtain ⟨item, member, holds⟩ := meets
      exact ⟨item, member, implies item member holds⟩

theorem meets_map {property : Image → Prop} (image : Item → Image) :
    Meets mode property (items.map image) ↔
      Meets mode (fun item => property (image item)) items := by
  cases mode <;> simp [Meets]

theorem not_meets_nil : ¬ Meets mode first [] := by
  cases mode <;> simp [Meets]

theorem meets_all_concat {item : Item} :
    Meets .all first (items ++ [item]) ↔ (items = [] ∨ Meets .all first items) ∧ first item := by
  by_cases empty : items = []
  · simp [Meets, empty]
  · simp [Meets, empty, or_imp, forall_and]

theorem meets_any_concat {item : Item} :
    Meets .any first (items ++ [item]) ↔ Meets .any first items ∨ first item := by
  simp [Meets, or_and_right, exists_or]

end Meeting

variable {Node : Type*} [DecidableEq Node]

section Search

theorem mem_foldl_pushNew {node : Node} {out providers : List Node} :
    node ∈ providers.foldl pushNew out ↔ node ∈ out ∨ node ∈ providers := by
  induction providers generalizing out with
  | nil => simp
  | cons provider rest induction =>
      rw [List.foldl_cons, induction, pushNew]
      split
      case isTrue known =>
          have same : node = provider → node ∈ out := fun same => same ▸ known
          rw [List.mem_cons]
          tauto
      case isFalse => simp [or_assoc]

theorem nodup_foldl_pushNew {out : List Node} (nodup : out.Nodup) (providers : List Node) :
    (providers.foldl pushNew out).Nodup := by
  induction providers generalizing out with
  | nil => exact nodup
  | cons provider rest induction =>
      refine induction ?_
      rw [pushNew]
      split
      case isTrue => exact nodup
      case isFalse fresh =>
          exact List.nodup_append.mpr ⟨nodup, List.nodup_singleton provider, by
            rintro node member _ (_ | ⟨_, ⟨⟩⟩) rfl
            exact fresh member⟩

/-- What a search has found is what its answers say. -/
structure Coherent (search : Search Node) : Prop where
  tags : search.tags = search.answers.map Prod.fst ++ search.remaining
  none_iff : search.found = none ↔ search.answers = []
  mem_result : ∀ node, node ∈ search.result ↔
    Meets search.mode (fun answer => node ∈ answer.2) search.answers
  nodup : search.mode = .any → search.result.Nodup

omit [DecidableEq Node] in
theorem coherent_begin (mode : Mode) (tags : List String) :
    Coherent (Search.begin mode tags : Search Node) where
  tags := rfl
  none_iff := by simp [Search.begin]
  mem_result := fun node => by
    simp only [Search.result, Search.begin, Option.getD_none, List.not_mem_nil, false_iff]
    exact not_meets_nil
  nodup := fun _ => List.nodup_nil

theorem Coherent.absorb {search : Search Node} (coherent : Coherent search) {tag : String}
    {rest : List String} (remaining : search.remaining = tag :: rest) (providers : List Node) :
    Coherent (search.absorb tag rest providers) := by
  refine ⟨?_, ?_, ?_, ?_⟩
  · simp [Search.absorb, coherent.tags, remaining]
  · simp [Search.absorb]
  · intro node
    have before := coherent.mem_result node
    have fresh := coherent.none_iff
    simp only [Search.result] at before
    simp only [Search.result, Search.absorb, Option.getD_some]
    cases mode : search.mode with
    | all =>
        rw [mode] at before
        rw [meets_all_concat, ← before, ← fresh]
        cases found : search.found <;> simp [Tags.absorb]
    | any =>
        rw [mode] at before
        rw [meets_any_concat, ← before, Tags.absorb, mem_foldl_pushNew]
  · intro any
    have mode : search.mode = .any := any
    have kept := coherent.nodup mode
    simp only [Search.result, Search.absorb, Option.getD_some, mode]
    exact nodup_foldl_pushNew kept providers

omit [DecidableEq Node] in
theorem Coherent.fail {search : Search Node} (coherent : Coherent search) :
    Coherent { search with failed := true } :=
  ⟨coherent.tags, coherent.none_iff, coherent.mem_result, coherent.nodup⟩

end Search

variable {lifetime : Nat} {carries : Node → List String} {world next : World Node}
  {label : Label Node}

/-- The node has made a record for the tag that had not expired at that time. -/
def Fresh (lifetime : Nat) (world : World Node) (begun : Nat) (node : Node) (tag : String) :
    Prop :=
  ∃ advert ∈ world.adverts, advert.node = node ∧ advert.service = tagService tag ∧
    begun ≤ advert.time + lifetime

theorem adverts_subset (moves : WorldMoves lifetime carries world label next) :
    world.adverts ⊆ next.adverts := by
  cases moves with
  | ticked | began | sought | answered | failed => exact List.Subset.refl _
  | registered | advertised | gaveUp => exact subset_record ..

theorem clock_le (moves : WorldMoves lifetime carries world label next) :
    world.clock ≤ next.clock := by
  cases moves with
  | ticked => exact Nat.le_succ _
  | began | sought | answered | failed => exact le_rfl
  | registered | advertised | gaveUp => exact (clock_record ..).ge

/-- The search is this one, and each of its answers has the property. -/
def Followed (id : Nat) (mode : Mode) (tags : List String)
    (property : World Node → String → List Node → Prop) (world : World Node) : Prop :=
  ∃ search, world.searches[id]? = some search ∧ search.mode = mode ∧ search.tags = tags ∧
    Coherent search ∧ ∀ tag providers, (tag, providers) ∈ search.answers →
      property world tag providers

variable {id : Nat} {mode : Mode} {tags : List String}

theorem Followed.moves {property : World Node → String → List Node → Prop}
    (followed : Followed id mode tags property world)
    (moves : WorldMoves lifetime carries world label next)
    (kept : ∀ tag providers, property world tag providers → property next tag providers)
    (new : ∀ tag providers, (∀ node,
      node ∈ providers ↔ node ∈ world.providers lifetime (tagService tag)) →
        property world tag providers) : Followed id mode tags property next := by
  obtain ⟨search, here, sameMode, sameTags, coherent, each⟩ := followed
  have still := fun tag providers member => kept tag providers (each tag providers member)
  have present := (List.getElem?_eq_some_iff.mp here).1
  cases moves with
  | ticked | began => exact ⟨search, here, sameMode, sameTags, coherent, still⟩
  | registered | advertised | gaveUp =>
      refine ⟨search, ?_, sameMode, sameTags, coherent, still⟩
      simpa [World.setAdvertiser] using here
  | sought otherMode otherTags =>
      refine ⟨search, ?_, sameMode, sameTags, coherent, still⟩
      exact (List.getElem?_append_left present).trans here
  | answered other found there tag rest remaining providers listed =>
      by_cases same : other = id
      · subst same
        obtain rfl := Option.some.inj (here.symm.trans there)
        refine ⟨_, List.getElem?_set_self present, sameMode, sameTags,
          coherent.absorb remaining providers, fun other others member => ?_⟩
        rcases List.mem_append.mp member with earlier | last
        · exact still other others earlier
        · obtain ⟨rfl, rfl⟩ := Prod.mk.inj (List.mem_singleton.mp last)
          exact kept _ _ (new _ _ listed)
      · exact ⟨search, (List.getElem?_set_ne same).trans here, sameMode, sameTags, coherent,
          still⟩
  | failed other found there =>
      by_cases same : other = id
      · subst same
        obtain rfl := Option.some.inj (here.symm.trans there)
        exact ⟨_, List.getElem?_set_self present, sameMode, sameTags, coherent.fail, still⟩
      · exact ⟨search, (List.getElem?_set_ne same).trans here, sameMode, sameTags, coherent,
          still⟩

omit [DecidableEq Node] in
theorem followed_begin (mode : Mode) (tags : List String)
    (property : World Node → String → List Node → Prop) (world : World Node) :
    Followed world.searches.length mode tags property
      { world with searches := world.searches ++ [.begin mode tags] } :=
  ⟨.begin mode tags, List.getElem?_concat_length, rfl, rfl, coherent_begin mode tags,
    by simp [Search.begin]⟩

variable {first rest : List (Label Node)} {middle final : World Node} {search : Search Node}

theorem kept_of_execute
    (reached : execute (World.step lifetime carries) World.initial first = some middle) :
    Kept carries middle := by
  refine stateInvariant_of_execute (Kept carries) kept_initial ?_ reached
  intro world label next kept stepped
  exact kept.moves (worldMoves_of_step stepped)

theorem inTime_of_execute {node : Node}
    (every : EveryStep (World.step lifetime carries) (Timely lifetime node) World.initial first)
    (reached : execute (World.step lifetime carries) World.initial first = some middle) :
    InTime lifetime node middle := by
  refine (invariant_of_everyStep (Timely lifetime node)
    (fun _ world => Kept carries world ∧ InTime lifetime node world)
    ⟨kept_initial, by simp [InTime, World.initial, Advertiser.since]⟩ ?_ every reached).2
  rintro trace world label next ⟨kept, inTime⟩ timely stepped
  have moves := worldMoves_of_step stepped
  exact ⟨kept.moves moves, inTime.moves kept timely moves⟩

/-- The world after a search has begun. -/
def World.seek (world : World Node) (mode : Mode) (tags : List String) : World Node :=
  { world with searches := world.searches ++ [.begin mode tags] }

/-- Every answer is of nodes that have made a record that was fresh when the
search began. -/
theorem followed_fresh
    (reached : execute (World.step lifetime carries) (middle.seek mode tags) rest = some final) :
    Followed middle.searches.length mode tags
      (fun world tag providers => ∀ node ∈ providers, Fresh lifetime world middle.clock node tag)
      final := by
  refine (stateInvariant_of_execute (fun world => middle.clock ≤ world.clock ∧
    Followed middle.searches.length mode tags
      (fun world tag providers => ∀ node ∈ providers, Fresh lifetime world middle.clock node tag)
      world) ⟨le_rfl, followed_begin ..⟩ ?_ reached).2
  rintro world label next ⟨later, followed⟩ stepped
  have moves := worldMoves_of_step stepped
  refine ⟨le_trans later (clock_le moves), followed.moves moves ?_ ?_⟩
  · intro tag providers fresh node member
    obtain ⟨advert, present, rest⟩ := fresh node member
    exact ⟨advert, adverts_subset moves present, rest⟩
  · intro tag providers listed node member
    obtain ⟨advert, present, own, named, alive⟩ := mem_providers.mp ((listed node).mp member)
    exact ⟨advert, present, own, named, le_trans later alive⟩

/-- Every answer has the node that keeps its tags, if the tag is one of them. -/
theorem followed_inTime {node : Node} (kept : Kept carries middle)
    (inTime : InTime lifetime node middle) (ready : (middle.advertisers node).completed.isSome)
    (every : EveryStep (World.step lifetime carries) (Timely lifetime node)
      (middle.seek mode tags) rest)
    (reached : execute (World.step lifetime carries) (middle.seek mode tags) rest = some final) :
    Followed middle.searches.length mode tags
      (fun _ tag providers => tag ∈ carries node → node ∈ providers) final := by
  have start : Kept carries (middle.seek mode tags) :=
    ⟨kept.carried, kept.round, kept.completed⟩
  refine (invariant_of_everyStep (Timely lifetime node) (fun _ world =>
    Kept carries world ∧ InTime lifetime node world ∧
      (world.advertisers node).completed.isSome ∧
      Followed middle.searches.length mode tags
        (fun _ tag providers => tag ∈ carries node → node ∈ providers) world)
    ⟨start, inTime, ready, followed_begin ..⟩ ?_ every reached).2.2.2
  rintro trace world label next ⟨kept, inTime, ready, followed⟩ timely stepped
  have moves := worldMoves_of_step stepped
  refine ⟨kept.moves moves, inTime.moves kept timely moves, completed_of_moves ready moves,
    followed.moves moves (fun _ _ lists => lists) fun tag providers listed member => ?_⟩
  exact (listed node).mpr (mem_providers_of_inTime inTime kept ready member)

omit [DecidableEq Node] in
theorem Coherent.tags_eq {search : Search Node} (coherent : Coherent search)
    (done : search.remaining = []) : search.tags = search.answers.map Prod.fst := by
  rw [coherent.tags, done, List.append_nil]

/-- A search finds only nodes with records that were fresh when it began, and of
the nodes that refresh in time exactly those whose tags it asks for. -/
theorem found_of_execute
    (before : execute (World.step lifetime carries) World.initial first = some middle)
    (reached : execute (World.step lifetime carries) middle (.search mode tags :: rest) =
      some final)
    (here : final.searches[middle.searches.length]? = some search)
    (done : search.remaining = []) :
    (∀ node ∈ search.result, Meets mode (Fresh lifetime final middle.clock node) tags) ∧
      (mode = .any → search.result.Nodup) ∧
      ∀ node, (middle.advertisers node).completed.isSome →
        EveryStep (World.step lifetime carries) (Timely lifetime node) World.initial
          (first ++ .search mode tags :: rest) →
        (node ∈ search.result ↔ Meets mode (· ∈ carries node) tags) := by
  have later : execute (World.step lifetime carries) (middle.seek mode tags) rest = some final :=
    reached
  obtain ⟨_, there, rfl, rfl, coherent, fresh⟩ := followed_fresh later
  obtain rfl := Option.some.inj (here.symm.trans there)
  have sound : ∀ node ∈ search.result,
      Meets search.mode (Fresh lifetime final middle.clock node) search.tags := by
    intro node member
    rw [coherent.tags_eq done, meets_map]
    exact ((coherent.mem_result node).mp member).imp fun answer present listed =>
      fresh answer.1 answer.2 present node listed
  refine ⟨sound, coherent.nodup, fun node ready every => ⟨fun member => ?_, fun meets => ?_⟩⟩
  · refine (sound node member).imp fun tag _ ⟨advert, present, own, named, _⟩ => ?_
    have whole := kept_of_execute (execute_append_eq_some.mpr ⟨middle, before, reached⟩)
    exact own ▸ whole.carried advert present tag named
  · obtain ⟨early, late⟩ := (everyStep_append _ before).mp every
    obtain ⟨-, after⟩ := everyStep_cons.mp late
    obtain ⟨_, there, -, -, -, lists⟩ := followed_inTime (kept_of_execute before)
      (inTime_of_execute early before) ready (after _ rfl) later
    obtain rfl := Option.some.inj (here.symm.trans there)
    rw [coherent.tags_eq done, meets_map] at meets
    exact (coherent.mem_result node).mpr (meets.imp fun answer present carried =>
      lists answer.1 answer.2 present carried)

/-- The first node has both tags, and its second round fails; the second node
has only one of them. -/
def tagged : Bool → List String
  | false => ["gpu", "infer"]
  | true => ["gpu"]

def refreshed : List (Label Bool) :=
  [.refresh false, .advertise false true true, .tick, .advertise false true true, .refresh true,
    .advertise true true true, .refresh false, .advertise false false false]

def looked : List (Label Bool) :=
  [.find 0 (some [true, false]), .tick, .find 0 (some [false])]

theorem found_of_execute_refreshed :
    ∃ (middle final : World Bool) (search : Search Bool),
      execute (World.step 3 tagged) World.initial refreshed = some middle ∧
      execute (World.step 3 tagged) middle (.search .all ["gpu", "infer"] :: looked) =
        some final ∧
      final.searches[middle.searches.length]? = some search ∧ search.result = [false] ∧
      (false ∈ search.result ↔ Meets .all (· ∈ tagged false) ["gpu", "infer"]) := by
  have before : execute (World.step 3 tagged) World.initial refreshed = some _ := rfl
  have timely : EveryStep (World.step 3 tagged) (Timely 3 false) World.initial
      (refreshed ++ .search .all ["gpu", "infer"] :: looked) := by decide
  refine ⟨_, _, _, before, rfl, rfl, rfl, ?_⟩
  exact (@found_of_execute Bool _ 3 tagged .all _ refreshed looked _ _ _ before rfl rfl rfl).2.2
    false rfl timely

end CeRs.Tags
