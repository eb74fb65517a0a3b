import CeRs.Object.Store
import CeRs.Transition
import Mathlib.Logic.Function.Basic

/-!
# Storing an object and fetching it back

Against a store that keeps bytes under their address, `put_object` and then
`get_object` return the object, in whatever order the concurrent requests are
answered: every schedule is finite, none gets stuck, and each ends in `Ok`.
-/

namespace CeRs.Object

open Transition
open Memory (Allocator isizeMax)

variable (sha256 : List UInt8 → List UInt8) (codec : Codec)

/-- What an honest store keeps. -/
abbrev Blobs := String → Option (List UInt8)

/-- A store that keeps bytes under their address, returns the address, and
returns the bytes it keeps. -/
def honest : Store Blobs where
  get blobs hash :=
    match blobs hash with
    | some bytes => (.response "200 OK" true (.ok bytes), blobs)
    | none => (.response "404 Not Found" false (.ok []), blobs)
  post blobs bytes :=
    (.response "200 OK" true ⟨cid sha256 bytes, .ok (some (cid sha256 bytes))⟩,
      Function.update blobs (cid sha256 bytes) (some bytes))

/-- The store keeps the chunk. -/
def Kept (blobs : Blobs) (chunk : List UInt8) : Prop :=
  blobs (cid sha256 chunk) = some chunk

variable {sha256 codec}

@[simp] theorem putBlob_honest (blobs : Blobs) (bytes : List UInt8) :
    putBlob (honest sha256) blobs bytes =
      (.ok (cid sha256 bytes), Function.update blobs (cid sha256 bytes) (some bytes)) := rfl

theorem getBlob_honest {blobs : Blobs} {hash : String} {bytes : List UInt8}
    (kept : blobs hash = some bytes) :
    getBlob (honest sha256) blobs hash = (.ok bytes, blobs) := by
  simp [getBlob, honest, kept]

theorem kept_self (blobs : Blobs) (bytes : List UInt8) :
    Kept sha256 (Function.update blobs (cid sha256 bytes) (some bytes)) bytes :=
  Function.update_self _ _ _

/-- Storing more keeps what is stored, in the absence of collisions. -/
theorem Kept.update {blobs : Blobs} {chunk bytes : List UInt8} {stored : Set (List UInt8)}
    (kept : Kept sha256 blobs chunk) (free : CollisionFree sha256 stored)
    (member : chunk ∈ stored) (member' : bytes ∈ stored) :
    Kept sha256 (Function.update blobs (cid sha256 bytes) (some bytes)) chunk := by
  unfold Kept
  by_cases same : cid sha256 chunk = cid sha256 bytes
  · rw [same, Function.update_self, free member member' same]
  · rw [Function.update_of_ne same]
    exact kept

/-- The chunks as `put_object` uploads them. -/
def jobsOf (sha256 : List UInt8 → List UInt8) (chunks : List (List UInt8)) :
    List (String × List UInt8) :=
  chunks.map fun chunk => (cid sha256 chunk, chunk)

/-- An upload has succeeded and its chunk is kept. -/
def Uploaded (sha256 : List UInt8 → List UInt8) (blobs : Blobs) (job : String × List UInt8)
    (answer : Except String Unit) : Prop :=
  answer = .ok () ∧ Kept sha256 blobs job.2

theorem uploadChunk_honest (blobs : Blobs) (chunk : List UInt8) :
    uploadChunk (honest sha256) blobs (cid sha256 chunk, chunk) =
      (.ok (), Function.update blobs (cid sha256 chunk) (some chunk)) := by
  simp [uploadChunk]

theorem serves_uploaded {chunks : List (List UInt8)} {stored : Set (List UInt8)}
    (free : CollisionFree sha256 stored)
    (subset : ∀ chunk ∈ chunks, chunk ∈ stored) :
    Buffered.Serves (uploadChunk (honest sha256)) (jobsOf sha256 chunks) (fun _ => True)
      (Uploaded sha256) where
  keeps _ _ _ _ := trivial
  answers blobs job member _ := by
    obtain ⟨chunk, -, rfl⟩ := List.mem_map.mp member
    rw [uploadChunk_honest]
    exact ⟨rfl, kept_self blobs chunk⟩
  stable blobs job member other member' answer _ uploaded := by
    obtain ⟨chunk, own, rfl⟩ := List.mem_map.mp member
    obtain ⟨chunk', own', rfl⟩ := List.mem_map.mp member'
    rw [uploadChunk_honest]
    exact ⟨uploaded.1, uploaded.2.update free (subset chunk' own') (subset chunk own)⟩

/-- What holds throughout a run of `put_object`: at its end every chunk and the
manifest are kept, and the manifest's address is returned. -/
def Putting (sha256 : List UInt8 → List UInt8) (manifest : Manifest)
    (chunks : List (List UInt8)) (manifestBytes : List UInt8) (state : PutState Blobs) : Prop :=
  match state.phase with
  | .uploading current pool =>
      current = manifest ∧
        Buffered.Valid false (fun _ => True) (Uploaded sha256) (jobsOf sha256 chunks) pool
          state.world
  | .finished (.ok hash) =>
      hash = cid sha256 manifestBytes ∧ Kept sha256 state.world manifestBytes ∧
        ∀ chunk ∈ chunks, Kept sha256 state.world chunk
  | .finished _ => False

theorem putting_of_moves {manifest : Manifest} {chunks : List (List UInt8)}
    {manifestBytes : List UInt8} {state next : PutState Blobs}
    (free : CollisionFree sha256 {bytes | bytes = manifestBytes ∨ bytes ∈ chunks})
    (encoded : codec.toVec manifest = .ok manifestBytes)
    (putting : Putting sha256 manifest chunks manifestBytes state)
    (moves : PutMoves codec (honest sha256) state next) :
    Putting sha256 manifest chunks manifestBytes next := by
  cases moves with
  | uploaded current pool pool' after phase moves =>
      simp only [Putting, phase] at putting
      exact ⟨putting.1, Buffered.valid_of_moves
        (serves_uploaded free fun chunk member => .inr member) putting.2 moves⟩
  | uploadFailed current pool message phase failed =>
      simp only [Putting, phase] at putting
      obtain ⟨job, -, absurd, -⟩ := Buffered.good_of_error putting.2 failed
      simp at absurd
  | encodingFailed current pool message done phase complete failed =>
      simp only [Putting, phase] at putting
      obtain ⟨rfl, -⟩ := putting
      simp [encoded] at failed
  | manifestFailed current pool bytes message done after phase complete encoded' stored =>
      simp at stored
  | manifestStored current pool bytes hash done after phase complete encoded' stored =>
      simp only [Putting, phase] at putting
      obtain ⟨rfl, valid⟩ := putting
      obtain rfl := Except.ok.inj (encoded.symm.trans encoded')
      obtain ⟨equal, rfl⟩ := Prod.mk.inj stored
      obtain rfl := Except.ok.inj equal
      refine ⟨rfl, kept_self _ _, fun chunk member => ?_⟩
      obtain ⟨result, -, kept⟩ := Buffered.good_of_result valid complete
        (List.mem_map_of_mem member)
      exact kept.update free (.inr member) (.inl rfl)

theorem exists_putStep {manifest : Manifest} {chunks : List (List UInt8)}
    {manifestBytes : List UInt8} {state : PutState Blobs}
    (putting : Putting sha256 manifest chunks manifestBytes state) :
    (∃ label, (putStep codec (honest sha256) state label).isSome = true) ∨
      state.phase = .finished (.ok (cid sha256 manifestBytes)) := by
  rcases putStep_isSome_or_finished codec (honest sha256) state with enabled | ⟨outcome, phase⟩
  · exact .inl enabled
  · simp only [Putting, phase] at putting
    cases outcome with
    | ok hash => exact .inr (by rw [phase, putting.1])
    | err message => exact putting.elim
    | panic => exact putting.elim

/-- The answer, for the address of one of the chunks, is that chunk. -/
def FetchedFrom (sha256 : List UInt8 → List UInt8) (chunks : List (List UInt8)) (_ : Blobs)
    (chunkCid : String) (answer : Except String (List UInt8)) : Prop :=
  ∀ chunk ∈ chunks, cid sha256 chunk = chunkCid → answer = .ok chunk

theorem serves_fetchedFrom {blobs : Blobs} {chunks : List (List UInt8)}
    (kept : ∀ chunk ∈ chunks, Kept sha256 blobs chunk) :
    Buffered.Serves (fetchChunk sha256 (honest sha256)) (chunks.map (cid sha256)) (· = blobs)
      (FetchedFrom sha256 chunks) where
  keeps world chunkCid member sound := by
    obtain ⟨chunk, own, rfl⟩ := List.mem_map.mp member
    subst sound
    simp [fetchChunk, getBlob_honest (kept chunk own)]
  answers world chunkCid member sound := by
    subst sound
    rintro chunk own rfl
    simp [fetchChunk, getBlob_honest (kept chunk own)]
  stable _ _ _ _ _ _ _ fetched := fetched

theorem eq_of_fetchedFrom {blobs : Blobs} {chunks wanted parts : List (List UInt8)}
    (subset : ∀ chunk ∈ wanted, chunk ∈ chunks)
    (fetched : List.Forall₂
      (fun chunkCid part => FetchedFrom sha256 chunks blobs chunkCid (.ok part))
      (wanted.map (cid sha256)) parts) : parts = wanted := by
  induction wanted generalizing parts with
  | nil => simpa using fetched
  | cons chunk rest induction =>
      cases fetched with
      | cons head tail =>
          obtain rfl := Except.ok.inj (head chunk (subset chunk (by simp)) rfl)
          rw [induction (fun other member => subset other (List.mem_cons_of_mem _ member)) tail]

/-- The store keeps an object: its chunks, and the manifest that lists them. -/
structure Stored (sha256 : List UInt8 → List UInt8) (codec : Codec) (blobs : Blobs)
    (manifest : Manifest) (chunks : List (List UInt8)) (manifestBytes : List UInt8) : Prop where
  kept : ∀ chunk ∈ chunks, Kept sha256 blobs chunk
  root : Kept sha256 blobs manifestBytes
  decoded : codec.fromSlice manifestBytes = .ok manifest
  isV1 : manifest.isV1 = true
  listed : manifest.chunks = chunks.map (cid sha256)
  size : chunks.flatten.length = manifest.totalSize.toNat
  small : chunks.flatten.length ≤ isizeMax

/-- What holds throughout a run of `get_object` on such a store. -/
def Getting (sha256 : List UInt8 → List UInt8) (blobs : Blobs) (manifest : Manifest)
    (chunks : List (List UInt8)) (state : GetState Blobs) : Prop :=
  match state.phase with
  | .resolving => state.world = blobs
  | .fetching current pool =>
      current = manifest ∧
        Buffered.Valid true (· = blobs) (FetchedFrom sha256 chunks) (chunks.map (cid sha256)) pool
          state.world
  | .finished (.ok out) => out = chunks.flatten
  | .finished _ => False

section Get

variable {allocator : Allocator} {blobs : Blobs} {manifest : Manifest} {chunks : List (List UInt8)}
variable {manifestBytes : List UInt8} {state next : GetState Blobs}

theorem getting_of_moves (stored : Stored sha256 codec blobs manifest chunks manifestBytes)
    (granted : allocator.Grants chunks.flatten.length)
    (getting : Getting sha256 blobs manifest chunks state)
    (moves : GetMoves allocator sha256 codec (honest sha256) (cid sha256 manifestBytes) state
      next) :
    Getting sha256 blobs manifest chunks next := by
  cases moves with
  | unresolved message after phase unusable =>
      simp only [Getting, phase] at getting
      have unknown := unusable manifestBytes manifest
        (by rw [getting, getBlob_honest stored.root]) stored.decoded
      simp [stored.isV1] at unknown
  | resolved received current after phase answer decoded isV1 =>
      simp only [Getting, phase] at getting
      rw [getting, getBlob_honest stored.root] at answer
      obtain ⟨equal, rfl⟩ := Prod.mk.inj answer
      obtain rfl := Except.ok.inj equal
      obtain rfl := Except.ok.inj (stored.decoded.symm.trans decoded)
      refine ⟨rfl, ?_⟩
      rw [stored.listed]
      exact Buffered.valid_init rfl
  | fetched current pool pool' after phase moves =>
      simp only [Getting, phase] at getting
      exact ⟨getting.1, Buffered.valid_of_moves (serves_fetchedFrom stored.kept) getting.2 moves⟩
  | fetchFailed current pool message phase failed =>
      simp only [Getting, phase] at getting
      obtain ⟨chunkCid, member, fetched⟩ := Buffered.good_of_error getting.2 failed
      obtain ⟨chunk, own, rfl⟩ := List.mem_map.mp member
      simpa using fetched chunk own rfl
  | joined current pool parts phase complete =>
      simp only [Getting, phase] at getting
      obtain ⟨rfl, valid⟩ := getting
      obtain rfl := eq_of_fetchedFrom (fun _ member => member)
        (Buffered.forall₂_of_result valid complete)
      have joined : joinChunks allocator current parts = .ok parts.flatten :=
        joinChunks_eq_ok.mpr ⟨rfl, stored.size, granted⟩
      simp [Getting, joined]

theorem exists_getStep (getting : Getting sha256 blobs manifest chunks state) :
    (∃ label, (getStep allocator sha256 codec (honest sha256) (cid sha256 manifestBytes) state
      label).isSome = true) ∨ state.phase = .finished (.ok chunks.flatten) := by
  rcases getStep_isSome_or_finished sha256 codec (honest sha256) (cid sha256 manifestBytes) state
    with enabled | ⟨outcome, phase⟩
  · exact .inl enabled
  · simp only [Getting, phase] at getting
    cases outcome with
    | ok out => exact .inr (by rw [phase, getting])
    | err message => exact getting.elim
    | panic => exact getting.elim

theorem chunks_of_stored (stored : Stored sha256 codec blobs manifest chunks manifestBytes)
    (getting : Getting sha256 blobs manifest chunks state) {received : List UInt8}
    {current : Manifest} (phase : state.phase = .resolving)
    (answer : (getBlob (honest sha256) state.world (cid sha256 manifestBytes)).1 = .ok received)
    (decoded : codec.fromSlice received = .ok current) :
    current.chunks.length ≤ chunks.length := by
  simp only [Getting, phase] at getting
  rw [getting, getBlob_honest stored.root] at answer
  obtain rfl := Except.ok.inj answer
  obtain rfl := Except.ok.inj (stored.decoded.symm.trans decoded)
  rw [stored.listed, List.length_map]

/-- Fetching an object the store keeps returns it, under every schedule, if there
is memory for it. -/
theorem getObject_of_stored (stored : Stored sha256 codec blobs manifest chunks manifestBytes)
    (granted : allocator.Grants chunks.flatten.length) {trace : List GetLabel}
    {final : GetState Blobs}
    (reached : execute (getStep allocator sha256 codec (honest sha256) (cid sha256 manifestBytes))
      (getInitial blobs) trace = some final) :
    trace.length ≤ 3 * chunks.length + 2 ∧
      ((∃ label, (getStep allocator sha256 codec (honest sha256) (cid sha256 manifestBytes) final
        label).isSome = true) ∨ final.phase = .finished (.ok chunks.flatten)) := by
  have initial : Getting sha256 blobs manifest chunks (getInitial blobs) := rfl
  have preserved : ∀ (state : GetState Blobs) (label : GetLabel) (next : GetState Blobs),
      Getting sha256 blobs manifest chunks state →
      getStep allocator sha256 codec (honest sha256) (cid sha256 manifestBytes) state label =
        some next →
      Getting sha256 blobs manifest chunks next := fun _ _ _ getting stepped =>
    getting_of_moves stored granted getting (getMoves_of_step allocator sha256 codec _ stepped)
  have bound := length_add_measure_le (Getting sha256 blobs manifest chunks)
    (GetState.remaining chunks.length) initial preserved
    (fun _ _ _ getting stepped => getRemaining_lt sha256
      (getMoves_of_step allocator sha256 codec _ stepped)
      fun _ _ => chunks_of_stored stored getting) reached
  refine ⟨?_, exists_getStep (stateInvariant_of_execute (Getting sha256 blobs manifest chunks)
    initial preserved reached)⟩
  exact (Nat.le_add_right _ _).trans bound

end Get

section Put

variable {manifest : Manifest} {chunks : List (List UInt8)} {manifestBytes : List UInt8}

/-- Storing an object ends in the address of its manifest, under every
schedule, and everything it stored is kept. -/
theorem putObject_of_encoded {start final : PutState Blobs} {trace : List PutLabel}
    (free : CollisionFree sha256 {bytes | bytes = manifestBytes ∨ bytes ∈ chunks})
    (encoded : codec.toVec manifest = .ok manifestBytes)
    (initial : Putting sha256 manifest chunks manifestBytes start)
    (reached : execute (putStep codec (honest sha256)) start trace = some final) :
    trace.length ≤ start.remaining ∧
      ((∃ label, (putStep codec (honest sha256) final label).isSome = true) ∨
        final.phase = .finished (.ok (cid sha256 manifestBytes)) ∧
          Kept sha256 final.world manifestBytes ∧
          ∀ chunk ∈ chunks, Kept sha256 final.world chunk) := by
  have preserved : ∀ (state : PutState Blobs) (label : PutLabel) (next : PutState Blobs),
      Putting sha256 manifest chunks manifestBytes state →
      putStep codec (honest sha256) state label = some next →
      Putting sha256 manifest chunks manifestBytes next := fun _ _ _ putting stepped =>
    putting_of_moves free encoded putting (putMoves_of_step codec _ stepped)
  have putting := stateInvariant_of_execute (Putting sha256 manifest chunks manifestBytes)
    initial preserved reached
  have bound := length_add_measure_le (Putting sha256 manifest chunks manifestBytes)
    PutState.remaining initial preserved
    (fun _ _ _ _ stepped => putRemaining_lt (putMoves_of_step codec _ stepped)) reached
  refine ⟨(Nat.le_add_right _ _).trans bound, ?_⟩
  rcases exists_putStep putting with enabled | finished
  · exact .inl enabled
  · simp only [Putting, finished] at putting
    exact .inr ⟨finished, putting.2⟩

end Put

/-- Under every order of uploads `put_object` ends in `Ok`, and from the store
it leaves `get_object` ends in `Ok` with the object, under every order of
downloads: no run is longer than the bound, and none is stuck before its end.
The memory for the result is granted. -/
theorem object_round_trip {allocator : Allocator} {sha256 : List UInt8 → List UInt8}
    {codec : Codec} {bytes : Slice} {blobs : Blobs} {manifest : Manifest}
    {chunks : List (String × List UInt8)} {manifestBytes : List UInt8}
    (built : chunkObject sha256 bytes defaultChunkSize = some (manifest, chunks))
    (encoded : codec.toVec manifest = .ok manifestBytes)
    (decoded : codec.fromSlice manifestBytes = .ok manifest)
    (free : CollisionFree sha256
      {stored | stored = manifestBytes ∨ stored ∈ chunks.map Prod.snd})
    (granted : allocator.Grants bytes.bytes.length) {uploads : List PutLabel}
    {stored : PutState Blobs}
    (put : execute (putStep codec (honest sha256)) (putInitial sha256 bytes blobs) uploads =
      some stored) :
    uploads.length ≤ 3 * chunks.length + 1 ∧
      ((∃ label, (putStep codec (honest sha256) stored label).isSome = true) ∨
        ∃ hash, stored.phase = .finished (.ok hash) ∧
          ∀ downloads final,
            execute (getStep allocator sha256 codec (honest sha256) hash) (getInitial stored.world)
                downloads = some final →
              downloads.length ≤ 3 * chunks.length + 2 ∧
                ((∃ label, (getStep allocator sha256 codec (honest sha256) hash final
                    label).isSome = true) ∨
                  final.phase = .finished (.ok bytes.bytes))) := by
  obtain ⟨isV1, total, listed, paired, whole⟩ := chunkObject_eq_some sha256 built
  have start : putInitial sha256 bytes blobs = ⟨.uploading manifest (.init chunks), blobs⟩ := by
    simp [putInitial, built]
  have jobs : jobsOf sha256 (chunks.map Prod.snd) = chunks := paired.symm
  have initial : Putting sha256 manifest (chunks.map Prod.snd) manifestBytes
      (putInitial sha256 bytes blobs) := by
    rw [start]
    refine ⟨rfl, ?_⟩
    rw [jobs]
    exact Buffered.valid_init trivial
  obtain ⟨bound, outcome⟩ := putObject_of_encoded free encoded initial put
  refine ⟨?_, ?_⟩
  · rw [start] at bound
    simpa [PutState.remaining, Buffered.remaining_init] using bound
  · rcases outcome with enabled | ⟨finished, root, kept⟩
    · exact .inl enabled
    · refine .inr ⟨_, finished, fun downloads final reached => ?_⟩
      have addresses : manifest.chunks = (chunks.map Prod.snd).map (cid sha256) := by
        rw [listed, paired]
        simp [Function.comp_def]
      have object : Stored sha256 codec stored.world manifest (chunks.map Prod.snd)
          manifestBytes :=
        ⟨kept, root, decoded, isV1, addresses, by rw [whole, total],
          by rw [whole]; exact bytes.inMemory⟩
      have fetched := getObject_of_stored object (by rwa [whole]) reached
      rwa [whole, List.length_map] at fetched

def noBlobs : Blobs := fun _ => none

/-- Storing the object `hi` into an empty store. -/
theorem object_round_trip_greeting :
    ∃ (stored : PutState Blobs) (hash : String),
      execute (putStep greetingCodec (honest greetingSha256))
        (putInitial greetingSha256 greeting noBlobs)
        [.upload .start, .upload (.serve 0), .upload (.yield 0), .storeManifest] = some stored ∧
      stored.phase = .finished (.ok hash) ∧
      ∀ downloads final,
        execute (getStep .ample greetingSha256 greetingCodec (honest greetingSha256) hash)
            (getInitial stored.world) downloads = some final →
          downloads.length ≤ 5 ∧
            ((∃ label, (getStep .ample greetingSha256 greetingCodec (honest greetingSha256) hash
              final label).isSome = true) ∨ final.phase = .finished (.ok [104, 105])) := by
  have start : putInitial greetingSha256 greeting noBlobs =
      ⟨.uploading greetingManifest (.init [(cid greetingSha256 [104, 105], [104, 105])]),
        noBlobs⟩ := by
    simp [putInitial, chunkObject_greeting]
  have put : ∃ stored, execute (putStep greetingCodec (honest greetingSha256))
      (putInitial greetingSha256 greeting noBlobs)
      [.upload .start, .upload (.serve 0), .upload (.yield 0), .storeManifest] = some stored ∧
      stored.phase = .finished (.ok (cid greetingSha256 greetingManifestBytes)) := by
    rw [start]
    exact ⟨_, rfl, rfl⟩
  obtain ⟨stored, put, finished⟩ := put
  have free : CollisionFree greetingSha256
      {other | other = greetingManifestBytes ∨
        other ∈ [(cid greetingSha256 [104, 105], ([104, 105] : List UInt8))].map Prod.snd} := by
    have different : cid greetingSha256 greetingManifestBytes ≠ cid greetingSha256 [104, 105] := by
      decide
    rintro first (rfl | member) second (rfl | member') equal
    · rfl
    · obtain rfl := List.mem_singleton.mp member'
      exact absurd equal different
    · obtain rfl := List.mem_singleton.mp member
      exact absurd equal.symm different
    · exact (List.mem_singleton.mp member).trans (List.mem_singleton.mp member').symm
  obtain ⟨-, ⟨label, enabled⟩ | ⟨hash, returned, fetched⟩⟩ := object_round_trip
    chunkObject_greeting (by decide) (by decide) free (Allocator.grants_ample.mpr (by decide)) put
  · cases label <;> simp [putStep, finished] at enabled
  · exact ⟨stored, hash, put, returned, fetched⟩

end CeRs.Object
