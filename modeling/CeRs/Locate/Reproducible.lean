import CeRs.Locate.Redundancy

/-!
# The choice does not depend on the order of discovery

If every node has one entry in the atlas and no two instances have the same
score, then the ranked list is the same however the nodes and the entries are
listed, and so is the choice.
-/

namespace CeRs.Locate

open Capability (LocateOpts)

section Entries

variable {atlas atlas' : List AtlasEntry}

theorem entryOf_eq_some_iff (single : (atlas.map AtlasEntry.nodeId).Nodup) {id : String}
    {entry : AtlasEntry} : entryOf atlas id = some entry ↔ entry ∈ atlas ∧ entry.nodeId = id := by
  constructor
  · intro known
    exact ⟨List.mem_reverse.mp (List.mem_of_find?_eq_some known), nodeId_of_entryOf known⟩
  · rintro ⟨member, node⟩
    have found : (entryOf atlas id).isSome := by
      rw [entryOf, List.find?_isSome]
      exact ⟨entry, List.mem_reverse.mpr member, by simpa using node⟩
    obtain ⟨other, known⟩ := Option.isSome_iff_exists.mp found
    have member' := List.mem_reverse.mp (List.mem_of_find?_eq_some known)
    have same : other = entry :=
      List.inj_on_of_nodup_map single member' member ((nodeId_of_entryOf known).trans node.symm)
    rw [known, same]

theorem entryOf_perm (perm : atlas'.Perm atlas) (single : (atlas.map AtlasEntry.nodeId).Nodup)
    (id : String) : entryOf atlas' id = entryOf atlas id := by
  have single' : (atlas'.map AtlasEntry.nodeId).Nodup :=
    (perm.map AtlasEntry.nodeId).nodup_iff.mpr single
  ext entry
  rw [entryOf_eq_some_iff single', entryOf_eq_some_iff single, perm.mem_iff]

end Entries

variable {Score : Type} {scoring : Scoring Score} {answers : Answers} {opts : LocateOpts}
  {ids ids' : List String} {atlas atlas' : List AtlasEntry}

theorem candidate_perm (perm : atlas'.Perm atlas)
    (single : (atlas.map AtlasEntry.nodeId).Nodup) (id : String) :
    candidate scoring answers opts atlas' id = candidate scoring answers opts atlas id := by
  have entry := entryOf_perm perm single id
  unfold entryOf at entry
  rw [candidate, candidate, entry]

theorem eligible_perm (idsPerm : ids'.Perm ids) (atlasPerm : atlas'.Perm atlas)
    (single : (atlas.map AtlasEntry.nodeId).Nodup) :
    (eligible scoring answers opts ids' atlas').Perm (eligible scoring answers opts ids atlas) := by
  have same : eligible scoring answers opts ids' atlas' =
      eligible scoring answers opts ids' atlas :=
    List.filterMap_congr fun id _ => candidate_perm atlasPerm single id
  rw [same]
  exact idsPerm.filterMap _

variable [LinearOrder Score]

/-- Instances with different scores are ranked in only one way. -/
theorem ranked_perm {instances instances' : List (Instance Score)}
    (perm : instances'.Perm instances) (distinct : (instances.map Instance.score).Nodup) :
    ranked instances' = ranked instances := by
  have perm' : (ranked instances').Perm (ranked instances) :=
    ((List.mergeSort_perm _ _).trans perm).trans (List.mergeSort_perm _ _).symm
  refine perm'.eq_of_pairwise ?_ (pairwise_ranked instances') (pairwise_ranked instances)
  intro first second member member' lower higher
  exact List.inj_on_of_nodup_map distinct (perm.mem_iff.mp (mem_ranked.mp member))
    (mem_ranked.mp member') (le_antisymm higher lower)

theorem choose_perm {allocator : Memory.Allocator} {instances instances' : List (Instance Score)}
    (perm : instances'.Perm instances) (distinct : (instances.map Instance.score).Nodup) :
    choose allocator instances' opts = choose allocator instances opts := by
  rw [choose, choose, ranked_perm perm distinct]

theorem locate_listed (allocator : Memory.Allocator) (scoring : Scoring Score)
    (answers : Answers) (opts : LocateOpts) (atlas : List AtlasEntry) (listed : ids ≠ []) :
    locate allocator scoring { answers with providers := .ok ids, atlas := .ok atlas } opts =
      choose allocator (eligible scoring answers opts ids atlas) opts := by
  rw [locate_eq_choose rfl rfl listed, live_eq rfl rfl]
  rfl

/-- `locate` returns the same for every order of the providers and of the atlas. -/
theorem locate_perm (allocator : Memory.Allocator) (scoring : Scoring Score) (answers : Answers)
    (opts : LocateOpts) (idsPerm : ids'.Perm ids) (atlasPerm : atlas'.Perm atlas)
    (single : (atlas.map AtlasEntry.nodeId).Nodup)
    (distinct : ((eligible scoring answers opts ids atlas).map Instance.score).Nodup) :
    locate allocator scoring { answers with providers := .ok ids', atlas := .ok atlas' } opts =
      locate allocator scoring { answers with providers := .ok ids, atlas := .ok atlas } opts := by
  by_cases none : ids = []
  · subst none
    rw [idsPerm.eq_nil]
    rfl
  · have none' : ids' ≠ [] := fun empty => none (List.Perm.eq_nil (empty ▸ idsPerm.symm))
    rw [locate_listed allocator scoring answers opts atlas' none',
      locate_listed allocator scoring answers opts atlas none]
    exact choose_perm (eligible_perm idsPerm atlasPerm single) distinct

/-- Two nodes with different scores, listed the other way round. -/
theorem locate_perm_pair :
    locate .ample byCores { crossing with
        providers := .ok ["b", "a"]
        atlas := .ok [⟨"b", 8, 4096, 0, 100, ["zone:x"]⟩, ⟨"a", 9, 4096, 0, 100, []⟩] } twoSpread =
      locate .ample byCores { crossing with
        providers := .ok ["a", "b"]
        atlas := .ok [⟨"a", 9, 4096, 0, 100, []⟩, ⟨"b", 8, 4096, 0, 100, ["zone:x"]⟩] } twoSpread :=
  locate_perm .ample byCores crossing twoSpread (List.Perm.swap ..) (List.Perm.swap ..) (by decide)
    (by decide)

end CeRs.Locate
