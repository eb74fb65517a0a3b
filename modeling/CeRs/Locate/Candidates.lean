import CeRs.Locate.Select

/-!
# The live instances among the listed nodes

A listed node is the local one, or it needs an entry in the atlas that is
recent enough and has the required tags.
-/

namespace CeRs.Locate

open Capability (LocateOpts)

section Entries

variable (answers : Answers) (opts : LocateOpts) (atlas : List AtlasEntry)

/-- The entry that the map has for a node. -/
def entryOf (id : String) : Option AtlasEntry :=
  atlas.reverse.find? fun entry => entry.nodeId == id

def ageOf (entry : AtlasEntry) : UInt64 :=
  UInt64.ofNat (answers.now.toNat - entry.lastSeenSecs.toNat)

def freeCoresOf (entry : AtlasEntry) : UInt32 :=
  UInt32.ofNat (entry.cpuCores.toNat - entry.runningJobs.toNat)

/-- The node is another one than the local one, and live by this entry. -/
structure LiveBy (id : String) (entry : AtlasEntry) : Prop where
  remote : some id ≠ answers.localId
  known : entryOf atlas id = some entry
  recent : ageOf answers entry ≤ opts.maxStaleSecs
  tagged : opts.requireTags.all entry.hasTag = true

/-- The node can be chosen: it is the local one, if no tags are required, or it
is live. -/
def Eligible (id : String) : Prop :=
  some id = answers.localId ∧ opts.requireTags = [] ∨
    ∃ entry, LiveBy answers opts atlas id entry

variable {Score : Type} (scoring : Scoring Score)

def localInstance (id : String) : Instance Score :=
  ⟨id, scoring.own, 0, 0, [], answers.now, none⟩

def scoreBy (id : String) (entry : AtlasEntry) : Score :=
  scoring.rate (freeCoresOf entry) entry.memMb (ageOf answers entry) opts.maxStaleSecs id
    (answers.beaconHash.getD "")

def instanceBy (id : String) (entry : AtlasEntry) : Instance Score :=
  ⟨id, scoreBy answers opts scoring id entry, entry.cpuCores, entry.memMb, entry.tags,
    entry.lastSeenSecs, faultDomain entry.tags⟩

end Entries

variable {Score : Type} {scoring : Scoring Score} {answers : Answers} {opts : LocateOpts}
  {atlas : List AtlasEntry} {id : String}

theorem LiveBy.unique {entry entry' : AtlasEntry} (live : LiveBy answers opts atlas id entry)
    (live' : LiveBy answers opts atlas id entry') : entry = entry' :=
  Option.some.inj (live.known.symm.trans live'.known)

theorem nodeId_of_entryOf {entry : AtlasEntry} (known : entryOf atlas id = some entry) :
    entry.nodeId = id := by
  simpa using List.find?_some known

theorem candidate_local (self : some id = answers.localId) (untagged : opts.requireTags = []) :
    candidate scoring answers opts atlas id = some (localInstance answers scoring id) := by
  rw [candidate, if_pos self, if_neg (not_not.mpr untagged)]
  rfl

theorem candidate_live {entry : AtlasEntry} (live : LiveBy answers opts atlas id entry) :
    candidate scoring answers opts atlas id = some (instanceBy answers opts scoring id entry) := by
  have known : atlas.reverse.find? (fun entry => entry.nodeId == id) = some entry := live.known
  have recent : ¬ opts.maxStaleSecs < UInt64.ofNat (answers.now.toNat - entry.lastSeenSecs.toNat) :=
    UInt64.not_lt.mpr live.recent
  rw [candidate, if_neg live.remote, known]
  simp only [if_neg recent, live.tagged, Bool.true_eq_false, if_false]
  rfl

theorem candidate_eq_some {inst : Instance Score} :
    candidate scoring answers opts atlas id = some inst ↔
      some id = answers.localId ∧ opts.requireTags = [] ∧
          inst = localInstance answers scoring id ∨
        ∃ entry, LiveBy answers opts atlas id entry ∧
          inst = instanceBy answers opts scoring id entry := by
  constructor
  · intro found
    by_cases self : some id = answers.localId
    · by_cases untagged : opts.requireTags = []
      · rw [candidate_local self untagged] at found
        exact .inl ⟨self, untagged, (Option.some.inj found).symm⟩
      · rw [candidate, if_pos self, if_pos untagged] at found
        cases found
    · simp only [candidate, if_neg self] at found
      split at found
      case h_1 => cases found
      case h_2 entry known =>
          split at found
          case isTrue => cases found
          case isFalse recent =>
              split at found
              case isTrue => cases found
              case isFalse tagged =>
                  refine .inr ⟨entry, ⟨self, known, UInt64.not_lt.mp recent, ?_⟩,
                    (Option.some.inj found).symm⟩
                  exact Bool.eq_true_of_not_eq_false tagged
  · rintro (⟨self, untagged, rfl⟩ | ⟨entry, live, rfl⟩)
    · exact candidate_local self untagged
    · exact candidate_live live

theorem nodeId_of_candidate {inst : Instance Score}
    (found : candidate scoring answers opts atlas id = some inst) : inst.nodeId = id := by
  rcases candidate_eq_some.mp found with ⟨-, -, rfl⟩ | ⟨entry, -, rfl⟩ <;> rfl

variable (scoring) in
theorem isSome_candidate_iff :
    (candidate scoring answers opts atlas id).isSome = true ↔ Eligible answers opts atlas id := by
  rw [Option.isSome_iff_exists]
  constructor
  · rintro ⟨inst, found⟩
    rcases candidate_eq_some.mp found with ⟨self, untagged, -⟩ | ⟨entry, live, -⟩
    · exact .inl ⟨self, untagged⟩
    · exact .inr ⟨entry, live⟩
  · rintro (⟨self, untagged⟩ | ⟨entry, live⟩)
    · exact ⟨_, candidate_local self untagged⟩
    · exact ⟨_, candidate_live live⟩

theorem mem_eligible {ids : List String} {inst : Instance Score} :
    inst ∈ eligible scoring answers opts ids atlas ↔
      inst.nodeId ∈ ids ∧ candidate scoring answers opts atlas inst.nodeId = some inst := by
  rw [eligible, List.mem_filterMap]
  constructor
  · rintro ⟨id, listed, found⟩
    obtain rfl := nodeId_of_candidate found
    exact ⟨listed, found⟩
  · rintro ⟨listed, found⟩
    exact ⟨_, listed, found⟩

theorem forall_mem_eligible {ids : List String} {property : Instance Score → Prop} :
    (∀ inst ∈ eligible scoring answers opts ids atlas, property inst) ↔
      (∀ id ∈ ids, some id = answers.localId → opts.requireTags = [] →
          property (localInstance answers scoring id)) ∧
        ∀ id ∈ ids, ∀ entry, LiveBy answers opts atlas id entry →
          property (instanceBy answers opts scoring id entry) := by
  constructor
  · intro every
    refine ⟨fun id listed self untagged => every _ ?_, fun id listed entry live => every _ ?_⟩
    · exact mem_eligible.mpr ⟨listed, candidate_local self untagged⟩
    · exact mem_eligible.mpr ⟨listed, candidate_live live⟩
  · rintro ⟨own, remote⟩ inst member
    obtain ⟨listed, found⟩ := mem_eligible.mp member
    rcases candidate_eq_some.mp found with ⟨self, untagged, equal⟩ | ⟨entry, live, equal⟩
    · rw [equal]
      exact own _ listed self untagged
    · rw [equal]
      exact remote _ listed entry live

theorem faultDomain_of_candidate {inst : Instance Score}
    (found : candidate scoring answers opts atlas id = some inst) :
    inst.faultDomain = faultDomain inst.tags := by
  rcases candidate_eq_some.mp found with ⟨-, -, rfl⟩ | ⟨entry, -, rfl⟩ <;> rfl

theorem live_eq {ids : List String} (providers : answers.providers = .ok ids)
    (entries : answers.atlas = .ok atlas) :
    live scoring answers opts = eligible scoring answers opts ids atlas := by
  rw [live, providers, entries]

theorem locate_eq_choose [LinearOrder Score] {allocator : Memory.Allocator} {ids : List String}
    (providers : answers.providers = .ok ids) (entries : answers.atlas = .ok atlas)
    (listed : ids ≠ []) :
    locate allocator scoring answers opts = choose allocator (live scoring answers opts) opts := by
  rw [locate, live_eq providers entries, providers, entries]
  cases ids with
  | nil => exact (listed rfl).elim
  | cons id rest => rfl

end CeRs.Locate
