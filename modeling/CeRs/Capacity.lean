import CeRs.Locate.Spread
import CeRs.Object.Reassemble
import CeRs.Transition

/-!
# Sizes that others choose

A manifest's total size and the wanted number of instances are capacities of
vectors that are allocated before anything else is checked.  Where the allocator
refuses one, the program ends: with a panic beyond what a vector can hold, with
an abort below that.
-/

namespace CeRs.Capacity

open Capability (LocateOpts)
open Memory (Allocator)
open Object Transition

/-- The call has returned, with a result or an error. -/
def Returns {Value : Type} (outcome : Outcome Value) : Prop :=
  (∃ value, outcome = .ok value) ∨ ∃ message, outcome = .err message

theorem returns_iff {Value : Type} {outcome : Outcome Value} :
    Returns outcome ↔ outcome ≠ .panic := by
  cases outcome <;> simp [Returns]

section Reassembling

variable {allocator : Allocator} {sha256 : List UInt8 → List UInt8} {World : Type}
  {fetch : World → String → Except String (List UInt8) × World}

variable (sha256 fetch) in
/-- The chunks that are served before the first one that is not, or has another
address. -/
def verified : World → List String → List (List UInt8)
  | _, [] => []
  | world, chunkCid :: rest =>
      match fetch world chunkCid with
      | (.error _, _) => []
      | (.ok bytes, next) =>
          if cid sha256 bytes = chunkCid then bytes :: verified next rest else []

theorem reassembleLoop_eq_panic {world : World} {capacity : Nat} {out : List UInt8}
    {cids : List String} :
    reassembleLoop allocator sha256 fetch world capacity out cids = .panic ↔
      allocator.takes capacity out.length (verified sha256 fetch world cids) = false := by
  induction cids generalizing world capacity out with
  | nil => simp [reassembleLoop, verified, Allocator.takes]
  | cons chunkCid rest induction =>
      rcases asked : fetch world chunkCid with ⟨message | bytes, next⟩
      case error => simp [reassembleLoop, verified, asked, Allocator.takes]
      case ok =>
          rw [reassembleLoop, verified]
          by_cases genuine : cid sha256 bytes = chunkCid
          case neg => simp [asked, genuine, Allocator.takes]
          case pos =>
              cases reserved : allocator.reserve capacity (out.length + bytes.length) with
              | none => simp [asked, genuine, Allocator.takes, reserved]
              | some grown =>
                  have later : reassembleLoop allocator sha256 fetch next grown (out ++ bytes)
                      rest = .panic ↔ _ := induction
                  rw [List.length_append] at later
                  simpa [asked, genuine, Allocator.takes, reserved] using later

theorem reassemble_eq_panic {world : World} {manifest : Manifest} :
    reassemble allocator sha256 fetch world manifest = .panic ↔
      manifest.isV1 = true ∧ allocator.collects manifest.totalSize.toNat
        (verified sha256 fetch world manifest.chunks) = false := by
  rw [reassemble]
  by_cases isV1 : manifest.isV1 = true
  case neg => simp [isV1]
  case pos =>
      cases reserved : allocator.reserve 0 manifest.totalSize.toNat with
      | none => simp [isV1, reserved, Allocator.collects]
      | some capacity =>
          have looped : reassembleLoop allocator sha256 fetch world capacity [] manifest.chunks =
              .panic ↔ _ := reassembleLoop_eq_panic
          rw [List.length_nil] at looped
          simp only [isV1, if_true, reserved, Allocator.collects, true_and, ← looped]
          cases reassembleLoop allocator sha256 fetch world capacity [] manifest.chunks with
          | ok out =>
              dsimp only
              split <;> simp
          | err message => simp
          | panic => simp

theorem verified_of_supplies {world : World} {cids : List String} {chunks : List (List UInt8)}
    (supplied : Supplies sha256 fetch world cids chunks) :
    verified sha256 fetch world cids = chunks := by
  induction cids generalizing world chunks with
  | nil => exact (supplies_nil.mp supplied).symm
  | cons chunkCid rest induction =>
      obtain ⟨bytes, others, rfl, first, address, later⟩ := supplies_cons.mp supplied
      rw [verified]
      split
      case h_1 message next asked => simp [asked] at first
      case h_2 received next asked =>
          obtain rfl : received = bytes := by simpa [asked] using first
          rw [asked] at later
          rw [if_pos address, induction later]

variable (allocator sha256 fetch) in
/-- `reassemble` returns, and refuses chunks whose total size is not the
recorded one. -/
def ReassembleReturns (world : World) (manifest : Manifest) : Prop :=
  Returns (reassemble allocator sha256 fetch world manifest) ∧
    ∀ chunks, Supplies sha256 fetch world manifest.chunks chunks →
      chunks.flatten.length ≠ manifest.totalSize.toNat →
        ∃ message, reassemble allocator sha256 fetch world manifest = .err message

theorem reassemble_returns_iff {world : World} {manifest : Manifest} :
    ReassembleReturns allocator sha256 fetch world manifest ↔
      (manifest.isV1 = true → allocator.collects manifest.totalSize.toNat
        (verified sha256 fetch world manifest.chunks) = true) := by
  have panics : Returns (reassemble allocator sha256 fetch world manifest) ↔
      (manifest.isV1 = true → allocator.collects manifest.totalSize.toNat
        (verified sha256 fetch world manifest.chunks) = true) := by
    rw [returns_iff, Ne, reassemble_eq_panic, not_and, Bool.not_eq_false]
  rw [ReassembleReturns, ← panics]
  refine and_iff_left_of_imp fun returns chunks supplied differ => ?_
  rcases returns with ⟨out, result⟩ | failed
  · obtain ⟨-, others, supplied', rfl, size, -⟩ := reassemble_eq_ok.mp result
    rw [← verified_of_supplies supplied, verified_of_supplies supplied'] at differ
    exact absurd size differ
  · exact failed

end Reassembling

section Joining

variable {allocator : Allocator} {sha256 : List UInt8 → List UInt8} {codec : Codec} {World : Type}
  {store : Store World} {objectCid : String}

variable (allocator) in
/-- What a join allocates is granted. -/
def JoinGranted (state : GetState World) (label : GetLabel) : Prop :=
  label = .join → ∀ manifest pool chunks, state.phase = .fetching manifest pool →
    pool.result = some (.ok chunks) →
      allocator.collects manifest.totalSize.toNat chunks = true

theorem joinGranted_iff {state : GetState World} {manifest : Manifest}
    {pool : Buffered.Pool String (List UInt8) String}
    (phase : state.phase = .fetching manifest pool) :
    JoinGranted allocator state .join ↔ ∀ chunks, pool.result = some (.ok chunks) →
      allocator.collects manifest.totalSize.toNat chunks = true := by
  constructor
  · intro granted chunks complete
    exact granted rfl manifest pool chunks phase complete
  · intro granted _ manifest' pool' chunks phase' complete
    obtain ⟨rfl, rfl⟩ := GetPhase.fetching.inj (phase.symm.trans phase')
    exact granted chunks complete

theorem joinChunks_eq_panic {manifest : Manifest} {chunks : List (List UInt8)} :
    joinChunks allocator manifest chunks = .panic ↔
      allocator.collects manifest.totalSize.toNat chunks = false := by
  simp only [joinChunks]
  split
  case isTrue refused => simpa using refused
  case isFalse collected =>
      split
      case isTrue => simpa using collected
      case isFalse => simpa using collected

theorem getStep_finished {state : GetState World} {outcome : Outcome (List UInt8)}
    (finished : state.phase = .finished outcome) (label : GetLabel) :
    getStep allocator sha256 codec store objectCid state label = none := by
  cases label <;> simp [getStep, finished]

/-- A step panics exactly if it is a join for which there is no memory. -/
theorem panics_iff_of_step {state next : GetState World} {label : GetLabel}
    (stepped : getStep allocator sha256 codec store objectCid state label = some next) :
    next.phase ≠ .finished .panic ↔ JoinGranted allocator state label := by
  cases label with
  | resolve =>
      refine iff_of_true ?_ (fun absurd => by cases absurd)
      cases getMoves_of_step allocator sha256 codec store stepped with
      | unresolved | resolved => simp
      | fetched _ _ _ _ phase | fetchFailed _ _ _ phase | joined _ _ _ phase =>
          simp [getStep, phase] at stepped
  | fetch action =>
      refine iff_of_true ?_ (fun absurd => by cases absurd)
      simp only [getStep] at stepped
      split at stepped
      case h_1 manifest pool phase =>
          obtain ⟨moved, -, rfl⟩ := Option.map_eq_some_iff.mp stepped
          simp
      case h_2 => cases stepped
  | join =>
      obtain ⟨manifest, pool, phase, ⟨message, failed, rfl⟩ | ⟨chunks, complete, rfl⟩⟩ :=
        join_cases allocator sha256 codec store stepped
      · rw [joinGranted_iff phase]
        simp [failed]
      · rw [joinGranted_iff phase, complete]
        simp [joinChunks_eq_panic]

theorem run_panics_iff {world : World} {trace : List GetLabel} {final : GetState World}
    (reached : execute (getStep allocator sha256 codec store objectCid) (getInitial world) trace =
      some final) :
    final.phase ≠ .finished .panic ↔
      EveryStep (getStep allocator sha256 codec store objectCid) (JoinGranted allocator)
        (getInitial world) trace := by
  induction trace using List.reverseRecOn generalizing final with
  | nil =>
      obtain rfl : getInitial world = final := by simpa using reached
      simp [getInitial]
  | append_singleton trace label induction =>
      obtain ⟨middle, before, stepped⟩ := execute_concat_eq_some.mp reached
      have running : middle.phase ≠ .finished .panic := by
        intro finished
        rw [getStep_finished finished] at stepped
        cases stepped
      rw [everyStep_concat before, panics_iff_of_step stepped]
      exact (and_iff_right ((induction before).mp running)).symm

/-- However the downloads overlap, a run ends, and until it has returned it can
go on. -/
theorem run_halts (allocator : Allocator) (sha256 : List UInt8 → List UInt8) (codec : Codec)
    (store : Store World) (objectCid : String) (world : World) :
    ∃ bound, ∀ trace final,
      execute (getStep allocator sha256 codec store objectCid) (getInitial world) trace =
          some final →
        trace.length ≤ bound ∧
          ((∃ label, (getStep allocator sha256 codec store objectCid final label).isSome = true) ∨
            ∃ outcome, final.phase = .finished outcome) := by
  obtain ⟨count, few⟩ : ∃ count, ∀ manifestBytes manifest,
      (getBlob store world objectCid).1 = .ok manifestBytes →
      codec.fromSlice manifestBytes = .ok manifest → manifest.chunks.length ≤ count := by
    rcases getBlob store world objectCid with ⟨message | manifestBytes, next⟩
    · exact ⟨0, by simp⟩
    · cases decoded : codec.fromSlice manifestBytes with
      | error problem =>
          refine ⟨0, fun received manifest answer listed => ?_⟩
          obtain rfl := Except.ok.inj answer
          rw [decoded] at listed
          cases listed
      | ok manifest =>
          refine ⟨manifest.chunks.length, fun received manifest' answer listed => ?_⟩
          obtain rfl := Except.ok.inj answer
          obtain rfl := Except.ok.inj (decoded.symm.trans listed)
          exact Nat.le_refl _
  refine ⟨(getInitial world).remaining count, fun trace final reached =>
    ⟨?_, getStep_isSome_or_finished sha256 codec store objectCid final⟩⟩
  have bound := length_add_measure_le
    (fun state : GetState World => state.phase = .resolving → state.world = world)
    (GetState.remaining count) (fun _ => rfl)
    (fun state label next _ stepped => ?_) (fun state label next started stepped => ?_) reached
  · exact (Nat.le_add_right _ _).trans bound
  · intro resolving
    cases getMoves_of_step allocator sha256 codec store stepped <;> cases resolving
  · refine getRemaining_lt sha256 (getMoves_of_step allocator sha256 codec store stepped) ?_
    intro manifestBytes manifest resolving answer
    rw [started resolving] at answer
    exact few manifestBytes manifest answer

variable (allocator sha256 codec store objectCid) in
/-- The run of `get_object` does not end in a panic, and a join refuses chunks
whose total size is not the recorded one. -/
def GetObjectReturns (world : World) (trace : List GetLabel) (final : GetState World) : Prop :=
  (∀ outcome, final.phase = .finished outcome → Returns outcome) ∧
    ∀ before middle manifest pool chunks, trace = before ++ [.join] →
      execute (getStep allocator sha256 codec store objectCid) (getInitial world) before =
        some middle →
      middle.phase = .fetching manifest pool → pool.result = some (.ok chunks) →
      chunks.flatten.length ≠ manifest.totalSize.toNat →
        ∃ message, final.phase = .finished (.err message)

theorem getObject_returns_iff {world : World} {trace : List GetLabel} {final : GetState World}
    (reached : execute (getStep allocator sha256 codec store objectCid) (getInitial world) trace =
      some final) :
    GetObjectReturns allocator sha256 codec store objectCid world trace final ↔
      EveryStep (getStep allocator sha256 codec store objectCid) (JoinGranted allocator)
        (getInitial world) trace := by
  have panics : (∀ outcome, final.phase = .finished outcome → Returns outcome) ↔
      final.phase ≠ .finished .panic := by
    constructor
    · intro returns finished
      exact returns_iff.mp (returns .panic finished) rfl
    · rintro running outcome finished
      exact returns_iff.mpr fun panic => running (panic ▸ finished)
  rw [GetObjectReturns, ← run_panics_iff reached, ← panics]
  refine and_iff_left_of_imp fun returns => ?_
  rintro before middle manifest pool chunks rfl earlier phase complete differ
  obtain ⟨middle', earlier', stepped⟩ := execute_concat_eq_some.mp reached
  obtain rfl := Option.some.inj (earlier.symm.trans earlier')
  simp only [getStep, phase, complete] at stepped
  obtain rfl := Option.some.inj stepped
  rcases returns _ rfl with ⟨out, joined⟩ | ⟨message, joined⟩
  · obtain ⟨rfl, size, -⟩ := joinChunks_eq_ok.mp joined
    exact absurd size differ
  · exact ⟨message, by rw [joined]⟩

end Joining

section Locating

open Locate

variable {allocator : Allocator} {Score : Type} [LinearOrder Score]

theorem choose_returns_iff {instances : List (Instance Score)} {opts : LocateOpts} :
    (∃ result, choose allocator instances opts = .ok result) ↔
      opts.want ≤ 1 ∨ opts.spreadDomains = false ∨
        allocator.Grants (opts.want * instanceSize) := by
  rw [choose_eq_selected]
  split
  case isTrue granted =>
    refine iff_of_true ⟨_, rfl⟩ ?_
    by_contra others
    obtain ⟨several, spreads, refused⟩ := not_or.mp others |>.imp_right not_or.mp
    exact refused (granted ⟨Nat.not_le.mp several, Bool.not_eq_false _ ▸ spreads⟩)
  case isFalse refused =>
    refine iff_of_false (by simp) fun others => refused fun spreads => ?_
    rcases others with single | off | granted
    · exact absurd spreads.1 (Nat.not_le.mpr (Nat.lt_succ_of_le single))
    · exact absurd spreads.2 (by simp [off])
    · exact granted

/-- `locate` returns a list exactly if no node advertises the service or what it
allocates is granted. -/
theorem locate_returns_iff {scoring : Scoring Score} {answers : Answers} {opts : LocateOpts}
    {ids : List String} {entries : List AtlasEntry} (providers : answers.providers = .ok ids)
    (atlas : answers.atlas = .ok entries) :
    (∃ result, locate allocator scoring answers opts = .ok result) ↔
      ids = [] ∨ opts.want ≤ 1 ∨ opts.spreadDomains = false ∨
        allocator.Grants (opts.want * instanceSize) := by
  rw [locate, providers, atlas]
  cases ids with
  | nil => simp
  | cons id rest => simpa using choose_returns_iff

end Locating

/-- All three calls return exactly if what they allocate is granted: the total
size and the chunks of the manifest for `reassemble` and `get_object`, and the
wanted instances for `locate`. -/
theorem all_return_iff (allocator : Allocator) (sha256 : List UInt8 → List UInt8)
    (codec : Codec) :
    (∀ (World : Type) (fetch : World → String → Except String (List UInt8) × World)
        (world : World) (manifest : Manifest),
      ReassembleReturns allocator sha256 fetch world manifest ↔
        (manifest.isV1 = true → allocator.collects manifest.totalSize.toNat
          (verified sha256 fetch world manifest.chunks) = true)) ∧
    (∀ (World : Type) (store : Store World) (objectCid : String) (world : World),
      (∃ bound, ∀ trace final,
        execute (getStep allocator sha256 codec store objectCid) (getInitial world) trace =
            some final →
          trace.length ≤ bound ∧
            ((∃ label,
                (getStep allocator sha256 codec store objectCid final label).isSome = true) ∨
              ∃ outcome, final.phase = .finished outcome)) ∧
      ∀ trace final,
        execute (getStep allocator sha256 codec store objectCid) (getInitial world) trace =
            some final →
          (GetObjectReturns allocator sha256 codec store objectCid world trace final ↔
            EveryStep (getStep allocator sha256 codec store objectCid) (JoinGranted allocator)
              (getInitial world) trace)) ∧
    ∀ (Score : Type) [LinearOrder Score] (scoring : Locate.Scoring Score)
        (answers : Locate.Answers) (opts : LocateOpts) (ids : List String)
        (entries : List Locate.AtlasEntry),
      answers.providers = .ok ids → answers.atlas = .ok entries →
        ((∃ result, Locate.locate allocator scoring answers opts = .ok result) ↔
          ids = [] ∨ opts.want ≤ 1 ∨ opts.spreadDomains = false ∨
            allocator.Grants (opts.want * Locate.instanceSize)) := by
  refine ⟨fun World fetch world manifest => reassemble_returns_iff,
    fun World store objectCid world =>
      ⟨run_halts allocator sha256 codec store objectCid world, ?_⟩, ?_⟩
  · exact fun trace final => getObject_returns_iff
  · exact fun Score _ scoring answers opts ids entries => locate_returns_iff

/-- A manifest of the greeting that records another total size. -/
def missized (totalSize : UInt64) : Manifest :=
  { greetingManifest with totalSize }

/-- All instances are rated alike. -/
def evenly : Locate.Scoring Nat :=
  ⟨0, fun _ _ _ _ _ _ => 0⟩

/-- One node, of which nothing is known, advertises the service. -/
def unknownNode : Locate.Answers :=
  ⟨.ok ["a"], .ok [], none, none, 100⟩

/-- Eight gigabytes. -/
def household : Allocator :=
  .upTo (2 ^ 33) (by decide)

/-- A size that is wrong and too large for every vector, or for the memory, and a
wanted number that is too large. -/
theorem huge_sizes_panic :
    reassemble .ample greetingSha256 servesGreeting () (missized 18446744073709551615) = .panic ∧
      reassemble household greetingSha256 servesGreeting () (missized 100000000000) = .panic ∧
      Locate.locate .ample evenly unknownNode ⟨18446744073709551615, [], 120, true⟩ = .panic := by
  refine ⟨reassemble_eq_panic.mpr ⟨by decide, ?_⟩, reassemble_eq_panic.mpr ⟨by decide, ?_⟩, ?_⟩
  · decide
  · decide
  · have refused : ¬ Allocator.ample.Grants (18446744073709551615 * Locate.instanceSize) :=
      fun granted => absurd (Allocator.le_isizeMax_of_grants granted) (by decide)
    simp [Locate.locate, unknownNode, Locate.choose, Locate.spread, refused]

/-- A size that is wrong and granted is refused, and a wanted number that is
granted is no problem. -/
theorem all_return_iff_greeting :
    Returns (reassemble household greetingSha256 servesGreeting () (missized 3)) ∧
      ∃ result, Locate.locate household evenly unknownNode ⟨3, [], 120, true⟩ = .ok result := by
  obtain ⟨reassembles, -, locates⟩ := all_return_iff household greetingSha256 greetingCodec
  refine ⟨((reassembles Unit servesGreeting () _).mpr fun _ => by decide).1, ?_⟩
  exact (locates Nat _ unknownNode _ ["a"] [] rfl rfl).mpr (by decide)

end CeRs.Capacity
