import CeRs.Object.Store
import CeRs.Transition

/-!
# What `get_object` verifies

Every chunk is checked against its address in the manifest, so the bytes
returned are determined by the manifest bytes.  The manifest bytes themselves
are not checked against the address of the object: a store can answer the first
request with any complete manifest.
-/

namespace CeRs.Object

open Transition
open Memory (Allocator isizeMax)

variable (sha256 : List UInt8 → List UInt8) (codec : Codec)

/-- A run of `get_object` against some store, up to its return of `Ok`. -/
structure Fetch (objectCid : String) where
  allocator : Allocator
  World : Type
  store : Store World
  world : World
  trace : List GetLabel
  final : GetState World
  out : List UInt8
  reached : execute (getStep allocator sha256 codec store objectCid) (getInitial world) trace =
    some final
  returned : final.phase = .finished (.ok out)

variable {sha256 codec}

/-- What the store answers the first request with. -/
def Fetch.root {objectCid : String} (fetch : Fetch sha256 codec objectCid) :
    Except String (List UInt8) :=
  (getBlob fetch.store fetch.world objectCid).1

/-- The manifest bytes have the object's address, and the result is the
concatenation of chunks with the addresses they list. -/
def Fetch.Verified {objectCid : String} (fetch : Fetch sha256 codec objectCid)
    (manifestBytes : List UInt8) : Prop :=
  cid sha256 manifestBytes = objectCid ∧
    ∃ manifest, codec.fromSlice manifestBytes = .ok manifest ∧
      fetch.final.fetched.map (cid sha256) = manifest.chunks ∧
      fetch.out = fetch.final.fetched.flatten

variable (sha256 codec)

/-- The bytes decode to a manifest that some byte strings complete. -/
def Servable (manifestBytes : List UInt8) : Prop :=
  ∃ (manifest : Manifest) (chunks : List (List UInt8)),
    codec.fromSlice manifestBytes = .ok manifest ∧ manifest.isV1 = true ∧
    chunks.map (cid sha256) = manifest.chunks ∧
    chunks.flatten.length = manifest.totalSize.toNat ∧ chunks.flatten.length ≤ isizeMax

variable {sha256 codec}

/-- The answer, if it is a chunk, has the address that was asked for. -/
def Addressed (sha256 : List UInt8 → List UInt8) {World : Type} (_ : World) (chunkCid : String)
    (answer : Except String (List UInt8)) : Prop :=
  ∀ chunk, answer = .ok chunk → cid sha256 chunk = chunkCid

theorem serves_addressed {World : Type} (store : Store World) (cids : List String) :
    Buffered.Serves (fetchChunk sha256 store) cids (fun _ => True) (Addressed sha256) where
  keeps _ _ _ _ := trivial
  answers _ _ _ _ _ fetched := cid_of_fetchChunk sha256 store fetched
  stable _ _ _ _ _ _ _ addressed := addressed

/-- What holds throughout a run whose first answer is `manifestBytes`. -/
def Anchored (allocator : Allocator) (sha256 : List UInt8 → List UInt8) (codec : Codec)
    {World : Type} (world : World) (manifestBytes : List UInt8) (state : GetState World) : Prop :=
  match state.phase with
  | .resolving => state.world = world
  | .fetching manifest pool =>
      codec.fromSlice manifestBytes = .ok manifest ∧ manifest.isV1 = true ∧
        Buffered.Valid true (fun _ => True) (Addressed sha256) manifest.chunks pool state.world
  | .finished (.ok out) =>
      ∃ manifest, codec.fromSlice manifestBytes = .ok manifest ∧ manifest.isV1 = true ∧
        state.fetched.map (cid sha256) = manifest.chunks ∧
        joinChunks allocator manifest state.fetched = .ok out
  | .finished _ => True

theorem map_cid_of_addressed {World : Type} {world : World} {cids : List String}
    {chunks : List (List UInt8)}
    (addressed : List.Forall₂
      (fun chunkCid chunk => Addressed sha256 world chunkCid (.ok chunk)) cids chunks) :
    chunks.map (cid sha256) = cids := by
  induction addressed with
  | nil => rfl
  | cons head _ induction => rw [List.map_cons, head _ rfl, induction]

theorem anchored_of_moves {allocator : Allocator} {World : Type} {store : Store World}
    {world : World} {objectCid : String} {manifestBytes : List UInt8} {state next : GetState World}
    (root : (getBlob store world objectCid).1 = .ok manifestBytes)
    (anchored : Anchored allocator sha256 codec world manifestBytes state)
    (moves : GetMoves allocator sha256 codec store objectCid state next) :
    Anchored allocator sha256 codec world manifestBytes next := by
  cases moves with
  | unresolved message after phase unusable => trivial
  | resolved received manifest after phase answer decoded isV1 =>
      simp only [Anchored, phase] at anchored
      rw [anchored] at answer
      obtain rfl : received = manifestBytes := by simpa [answer] using root
      exact ⟨decoded, isV1, Buffered.valid_init trivial⟩
  | fetched manifest pool pool' after phase moves =>
      simp only [Anchored, phase] at anchored
      obtain ⟨decoded, isV1, valid⟩ := anchored
      exact ⟨decoded, isV1,
        Buffered.valid_of_moves (serves_addressed store manifest.chunks) valid moves⟩
  | fetchFailed manifest pool message phase failed => trivial
  | joined manifest pool chunks phase complete =>
      simp only [Anchored, phase] at anchored
      obtain ⟨decoded, isV1, valid⟩ := anchored
      simp only [Anchored]
      split
      case h_1 absurd => simp at absurd
      case h_2 absurd => simp at absurd
      case h_3 out joined =>
          refine ⟨manifest, decoded, isV1, ?_, by simpa using joined⟩
          exact map_cid_of_addressed (Buffered.forall₂_of_result valid complete)
      case h_4 => trivial

/-- Every result is made of chunks with the addresses in the manifest bytes
that the store answered with, and of the size they record. -/
theorem Fetch.joined {objectCid : String} (fetch : Fetch sha256 codec objectCid)
    {manifestBytes : List UInt8} (root : fetch.root = .ok manifestBytes) :
    ∃ manifest, codec.fromSlice manifestBytes = .ok manifest ∧ manifest.isV1 = true ∧
      fetch.final.fetched.map (cid sha256) = manifest.chunks ∧
      joinChunks fetch.allocator manifest fetch.final.fetched = .ok fetch.out := by
  have start : Anchored fetch.allocator sha256 codec fetch.world manifestBytes
      (getInitial fetch.world) := rfl
  have anchored : Anchored fetch.allocator sha256 codec fetch.world manifestBytes fetch.final :=
    stateInvariant_of_execute (Anchored fetch.allocator sha256 codec fetch.world manifestBytes)
      start
      (fun _ _ _ holds stepped => anchored_of_moves root holds
        (getMoves_of_step fetch.allocator sha256 codec fetch.store stepped))
      fetch.reached
  simpa only [Anchored, fetch.returned] using anchored

theorem Fetch.servable {objectCid : String} (fetch : Fetch sha256 codec objectCid)
    {manifestBytes : List UInt8} (root : fetch.root = .ok manifestBytes) :
    Servable sha256 codec manifestBytes := by
  obtain ⟨manifest, decoded, isV1, addresses, joined⟩ := fetch.joined root
  obtain ⟨equal, size, granted⟩ := joinChunks_eq_ok.mp joined
  rw [equal] at size granted
  exact ⟨manifest, fetch.final.fetched, decoded, isV1, addresses, size,
    Allocator.le_isizeMax_of_grants granted⟩

theorem Fetch.verified_of_root {objectCid : String} (fetch : Fetch sha256 codec objectCid)
    {manifestBytes : List UInt8} (root : fetch.root = .ok manifestBytes)
    (address : cid sha256 manifestBytes = objectCid) : fetch.Verified manifestBytes := by
  obtain ⟨manifest, decoded, -, addresses, joined⟩ := fetch.joined root
  exact ⟨address, manifest, decoded, addresses, (joinChunks_eq_ok.mp joined).1⟩

/-- A store that answers requests with a fixed sequence of bodies, whatever is
asked for. -/
def scripted : Store (List (List UInt8)) where
  get world _ :=
    match world with
    | [] => (.failed "connection closed", [])
    | body :: rest => (.response "200 OK" true (.ok body), rest)
  post world _ := (.failed "connection closed", world)

theorem fetchChunk_scripted (chunk : List UInt8) (rest : List (List UInt8)) :
    fetchChunk sha256 scripted (chunk :: rest) (cid sha256 chunk) = (.ok chunk, rest) := by
  simp [fetchChunk, getBlob, scripted]

/-- Chunks that the manifest lists can be fetched one after the other. -/
theorem execute_scripted (allocator : Allocator) (sha256 : List UInt8 → List UInt8)
    (codec : Codec) (objectCid : String) (manifest : Manifest) (chunks : List (List UInt8))
    (out : List (String × List UInt8)) :
    ∃ trace, execute (getStep allocator sha256 codec scripted objectCid)
        ⟨.fetching manifest ⟨chunks.map (cid sha256), [], out, none⟩, chunks, []⟩ trace =
      some ⟨.fetching manifest
        ⟨[], [], out ++ chunks.map fun chunk => (cid sha256 chunk, chunk), none⟩, [], []⟩ := by
  induction chunks generalizing out with
  | nil => exact ⟨[], by simp⟩
  | cons chunk rest induction =>
      obtain ⟨trace, reached⟩ := induction (out ++ [(cid sha256 chunk, chunk)])
      refine ⟨.fetch .start :: .fetch (.serve 0) :: .fetch (.yield 0) :: trace, ?_⟩
      simpa [getStep, Buffered.step, objectChunkConcurrency, fetchChunk_scripted] using reached

/-- A servable manifest is accepted under every address. -/
theorem exists_fetch_of_servable {manifestBytes : List UInt8}
    (servable : Servable sha256 codec manifestBytes) (objectCid : String) :
    ∃ fetch : Fetch sha256 codec objectCid, fetch.root = .ok manifestBytes := by
  obtain ⟨manifest, chunks, decoded, isV1, addresses, size, small⟩ := servable
  obtain ⟨trace, reached⟩ := execute_scripted .ample sha256 codec objectCid manifest chunks []
  have joined : joinChunks .ample manifest chunks = .ok chunks.flatten :=
    joinChunks_eq_ok.mpr ⟨rfl, size, Allocator.grants_ample.mpr small⟩
  refine ⟨⟨.ample, _, scripted, manifestBytes :: chunks, .resolve :: (trace ++ [.join]),
    ⟨.finished (.ok chunks.flatten), [], chunks⟩, chunks.flatten, ?_, rfl⟩, rfl⟩
  rw [execute_cons]
  have resolved : getStep .ample sha256 codec scripted objectCid
      (getInitial (manifestBytes :: chunks)) .resolve =
      some ⟨.fetching manifest ⟨chunks.map (cid sha256), [], [], none⟩, chunks, []⟩ := by
    simp [getStep, getInitial, getBlob, scripted, decoded, isV1, Buffered.Pool.init, addresses]
  rw [resolved, Option.bind_some, execute_append_eq_some]
  refine ⟨_, reached, ?_⟩
  simp [getStep, Buffered.Pool.result, joined, Function.comp_def]

/-- Two verified results for one address are equal. -/
theorem Fetch.out_eq_of_verified {objectCid : String}
    (first second : Fetch sha256 codec objectCid) {manifestBytes others : List UInt8}
    (verified : first.Verified manifestBytes) (verified' : second.Verified others)
    (free : CollisionFree sha256
      {bytes | bytes = manifestBytes ∨ bytes = others ∨ bytes ∈ first.final.fetched ∨
        bytes ∈ second.final.fetched}) :
    first.out = second.out := by
  obtain ⟨address, manifest, decoded, chunks, out⟩ := verified
  obtain ⟨address', manifest', decoded', chunks', out'⟩ := verified'
  obtain rfl : manifestBytes = others :=
    free (by simp) (by simp) (address.trans address'.symm)
  obtain rfl := Except.ok.inj (decoded.symm.trans decoded')
  have same : first.final.fetched = second.final.fetched :=
    eq_of_map_cid_eq (free.mono fun bytes member => .inr (.inr member)) (chunks.trans chunks'.symm)
  rw [out, out', same]

/-- A verified result for the address of the manifest that `put_object` builds
is the object it was built from. -/
theorem Fetch.out_eq_of_putObject {objectCid : String} (fetch : Fetch sha256 codec objectCid)
    {manifestBytes encoded : List UInt8} {bytes : Slice} {manifest : Manifest}
    {chunks : List (String × List UInt8)} (verified : fetch.Verified manifestBytes)
    (built : chunkObject sha256 bytes defaultChunkSize = some (manifest, chunks))
    (decodes : codec.fromSlice encoded = .ok manifest) (address : cid sha256 encoded = objectCid)
    (free : CollisionFree sha256
      {other | other = manifestBytes ∨ other = encoded ∨ other ∈ fetch.final.fetched ∨
        other ∈ chunks.map Prod.snd}) :
    fetch.out = bytes.bytes := by
  obtain ⟨address', manifest', decoded, addresses, out⟩ := verified
  obtain rfl : manifestBytes = encoded := free (by simp) (by simp) (address'.trans address.symm)
  obtain rfl := Except.ok.inj (decoded.symm.trans decodes)
  obtain ⟨-, -, listed, paired, whole⟩ := chunkObject_eq_some sha256 built
  have same : fetch.final.fetched = chunks.map Prod.snd := by
    apply eq_of_map_cid_eq (free.mono fun other member => .inr (.inr member))
    rw [addresses, listed, paired]
    simp [Function.comp_def]
  rw [out, same, whole]

/-- Every result of `get_object` is verified exactly if the manifest bytes the
store answers with have the object's address or are not those of a manifest
that can be completed.  Verified results for one address are equal, and equal
to the object that `put_object` stored under it. -/
theorem getObject_verified_iff (sha256 : List UInt8 → List UInt8) (codec : Codec) :
    (∀ objectCid manifestBytes,
      (∀ fetch : Fetch sha256 codec objectCid, fetch.root = .ok manifestBytes →
          fetch.Verified manifestBytes) ↔
        cid sha256 manifestBytes = objectCid ∨ ¬ Servable sha256 codec manifestBytes) ∧
      (∀ objectCid (first second : Fetch sha256 codec objectCid) manifestBytes others,
        first.root = .ok manifestBytes → second.root = .ok others →
        cid sha256 manifestBytes = objectCid → cid sha256 others = objectCid →
        CollisionFree sha256
          {bytes | bytes = manifestBytes ∨ bytes = others ∨ bytes ∈ first.final.fetched ∨
            bytes ∈ second.final.fetched} →
        first.out = second.out) ∧
      ∀ objectCid (fetch : Fetch sha256 codec objectCid) manifestBytes bytes manifest chunks
          encoded,
        chunkObject sha256 bytes defaultChunkSize = some (manifest, chunks) →
        codec.fromSlice encoded = .ok manifest → cid sha256 encoded = objectCid →
        fetch.root = .ok manifestBytes → cid sha256 manifestBytes = objectCid →
        CollisionFree sha256
          {other | other = manifestBytes ∨ other = encoded ∨ other ∈ fetch.final.fetched ∨
            other ∈ chunks.map Prod.snd} →
        fetch.out = bytes.bytes := by
  refine ⟨fun objectCid manifestBytes => ⟨fun verified => ?_, fun condition fetch root => ?_⟩,
    ?_, ?_⟩
  · by_cases servable : Servable sha256 codec manifestBytes
    · obtain ⟨fetch, root⟩ := exists_fetch_of_servable servable objectCid
      exact .inl (verified fetch root).1
    · exact .inr servable
  · rcases condition with address | unservable
    · exact fetch.verified_of_root root address
    · exact absurd (fetch.servable root) unservable
  · intro objectCid first second manifestBytes others root root' address address' free
    exact first.out_eq_of_verified second (first.verified_of_root root address)
      (second.verified_of_root root' address') free
  · intro objectCid fetch manifestBytes bytes manifest chunks encoded built decodes address root
      address' free
    exact fetch.out_eq_of_putObject (fetch.verified_of_root root address') built decodes address
      free

/-- A store that keeps the object `hi` and nothing else. -/
def greetingStore : Store Unit where
  get world hash :=
    if hash = cid greetingSha256 greetingManifestBytes then
      (.response "200 OK" true (.ok greetingManifestBytes), world)
    else if hash = cid greetingSha256 greeting.bytes then
      (.response "200 OK" true (.ok greeting.bytes), world)
    else (.response "404 Not Found" false (.ok []), world)
  post world _ := (.failed "read only", world)

/-- The object is fetched from a store. -/
def greetingFetch {World : Type} (store : Store World) (world rest : World)
    (reached : execute (getStep .ample greetingSha256 greetingCodec store
        (cid greetingSha256 greetingManifestBytes)) (getInitial world)
        [.resolve, .fetch .start, .fetch (.serve 0), .fetch (.yield 0), .join] =
      some ⟨.finished (.ok greeting.bytes), rest, [greeting.bytes]⟩) :
    Fetch greetingSha256 greetingCodec (cid greetingSha256 greetingManifestBytes) :=
  ⟨.ample, World, store, world, _, _, greeting.bytes, reached, rfl⟩

/-- Two stores give the object, and it is what was stored. -/
theorem getObject_verified_iff_greeting :
    ∃ first second : Fetch greetingSha256 greetingCodec
        (cid greetingSha256 greetingManifestBytes),
      first.World = Unit ∧ second.World = List (List UInt8) ∧
      first.out = second.out ∧ first.out = greeting.bytes := by
  let first := greetingFetch greetingStore () () rfl
  let second := greetingFetch scripted [greetingManifestBytes, greeting.bytes] [] rfl
  obtain ⟨-, alike, stored⟩ := getObject_verified_iff greetingSha256 greetingCodec
  refine ⟨first, second, rfl, rfl, ?_, ?_⟩
  · refine alike _ first second greetingManifestBytes greetingManifestBytes rfl rfl rfl rfl
      (collisionFree_greeting.mono ?_)
    rintro bytes (rfl | rfl | member | member)
    · exact .inl rfl
    · exact .inl rfl
    · exact .inr (List.mem_singleton.mp member)
    · exact .inr (List.mem_singleton.mp member)
  · refine stored _ first greetingManifestBytes greeting greetingManifest _ greetingManifestBytes
      chunkObject_greeting (by decide) rfl rfl rfl (collisionFree_greeting.mono ?_)
    rintro bytes (rfl | rfl | member | member)
    · exact .inl rfl
    · exact .inl rfl
    · exact .inr (List.mem_singleton.mp member)
    · exact .inr (List.mem_singleton.mp member)

/-- Asked for the empty object, a store can answer with the manifest of
another one, and that object is returned. -/
theorem other_object_returned :
    ¬ ∀ objectCid (fetch : Fetch greetingSha256 greetingCodec objectCid) manifestBytes,
      fetch.root = .ok manifestBytes → fetch.Verified manifestBytes := by
  intro claimed
  have servable : Servable greetingSha256 greetingCodec greetingManifestBytes :=
    ⟨greetingManifest, [greeting.bytes], by decide, by decide, by decide, by decide, by decide⟩
  obtain ⟨fetch, root⟩ := exists_fetch_of_servable servable
    "297bc307c13aa4d127c319632962275f44f2a7371c94041d6897bbcfe2780923"
  have address := (claimed _ fetch greetingManifestBytes root).1
  exact absurd address (by decide)

end CeRs.Object
