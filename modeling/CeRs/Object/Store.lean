import CeRs.Buffered
import CeRs.Http
import CeRs.Object.Data

/-!
# Objects over a blob store

`put_object` uploads the chunks of an object and then its manifest;
`get_object` fetches the manifest and then the chunks it lists.  The blob store
is any pair of stateful functions, so it can answer every request as it likes.
A label is one thing that can happen next: an action of the pool of concurrent
chunk requests, or the sequential part before or after it.
-/

namespace CeRs.Object

open Memory (Allocator)

/-- `OBJECT_CHUNK_CONCURRENCY`. -/
def objectChunkConcurrency : Nat := 8

/-- How a store answers `GET /blobs/:hash` and `POST /blobs`; reading the body
of an answer can fail. -/
structure Store (World : Type) where
  get : World → String → Http.Answer (Except String (List UInt8)) × World
  post : World → List UInt8 → Http.Answer Http.Json × World

/-- The encoding of manifests as JSON. -/
structure Codec where
  toVec : Manifest → Except String (List UInt8)
  fromSlice : List UInt8 → Except String Manifest

/-- `panic` also stands for the abort that a refused allocation is. -/
inductive Outcome (Value : Type)
  | ok (value : Value)
  | err (message : String)
  | panic

section Blobs

variable {World : Type} (store : Store World)

def putBlob (world : World) (bytes : List UInt8) : Except String String × World :=
  let answered := store.post world bytes
  (Http.jsonText answered.1, answered.2)

def getBlob (world : World) (hash : String) : Except String (List UInt8) × World :=
  let answered := store.get world hash
  match answered.1 with
  | .failed message => (.error message, answered.2)
  | .response status success body =>
      if success then (body, answered.2)
      else (.error s!"CE API {status}: blob not found", answered.2)

end Blobs

variable (allocator : Allocator) (sha256 : List UInt8 → List UInt8) (codec : Codec)
variable {World : Type} (store : Store World)

inductive PutPhase
  | uploading (manifest : Manifest) (pool : Buffered.Pool (String × List UInt8) Unit String)
  | finished (outcome : Outcome String)

structure PutState (World : Type) where
  phase : PutPhase
  world : World

inductive PutLabel
  | upload (action : Buffered.Action)
  | storeManifest
  deriving DecidableEq, Repr

/-- One upload of `put_object`. -/
def uploadChunk (world : World) (job : String × List UInt8) : Except String Unit × World :=
  let (chunkCid, chunk) := job
  match putBlob store world chunk with
  | (.error message, next) => (.error message, next)
  | (.ok stored, next) =>
      if stored ≠ chunkCid then
        (.error s!"blob store returned hash {stored} for chunk {chunkCid} (hashing mismatch)", next)
      else (.ok (), next)

def putInitial (bytes : Slice) (world : World) : PutState World :=
  match chunkObject sha256 bytes defaultChunkSize with
  | some (manifest, chunks) => ⟨.uploading manifest (.init chunks), world⟩
  | none => ⟨.finished .panic, world⟩

def putStep (state : PutState World) : PutLabel → Option (PutState World)
  | .upload action =>
      match state.phase with
      | .uploading manifest pool =>
          (Buffered.step false objectChunkConcurrency (uploadChunk store)
              (pool, state.world) action).map
            fun result => ⟨.uploading manifest result.1, result.2⟩
      | .finished _ => none
  | .storeManifest =>
      match state.phase with
      | .uploading manifest pool =>
          match pool.result with
          | none => none
          | some (.error message) => some { state with phase := .finished (.err message) }
          | some (.ok _) =>
              match codec.toVec manifest with
              | .error message => some { state with phase := .finished (.err message) }
              | .ok manifestBytes =>
                  match putBlob store state.world manifestBytes with
                  | (.error message, next) => some ⟨.finished (.err message), next⟩
                  | (.ok hash, next) => some ⟨.finished (.ok hash), next⟩
      | .finished _ => none

inductive GetPhase
  | resolving
  | fetching (manifest : Manifest) (pool : Buffered.Pool String (List UInt8) String)
  | finished (outcome : Outcome (List UInt8))

/-- `fetched` are the chunks that were joined. -/
structure GetState (World : Type) where
  phase : GetPhase
  world : World
  fetched : List (List UInt8)

inductive GetLabel
  | resolve
  | fetch (action : Buffered.Action)
  | join
  deriving DecidableEq, Repr

/-- One download of `get_object`. -/
def fetchChunk (world : World) (chunkCid : String) : Except String (List UInt8) × World :=
  match getBlob store world chunkCid with
  | (.error message, next) => (.error message, next)
  | (.ok chunk, next) =>
      let got := cid sha256 chunk
      if got ≠ chunkCid then
        (.error s!"chunk verification failed: expected {chunkCid}, got {got}", next)
      else (.ok chunk, next)

/-- The end of `get_object`: `Vec::with_capacity` for the recorded size, and the
loop that extends the vector by the chunks. -/
def joinChunks (manifest : Manifest) (chunks : List (List UInt8)) : Outcome (List UInt8) :=
  let out := chunks.flatten
  let size := out.length
  let total := manifest.totalSize
  if allocator.collects total.toNat chunks = false then .panic
  else if size ≠ total.toNat then
    .err s!"reassembled size {size} != manifest total_size {total}"
  else .ok out

def getInitial (world : World) : GetState World :=
  ⟨.resolving, world, []⟩

def getStep (objectCid : String) (state : GetState World) : GetLabel → Option (GetState World)
  | .resolve =>
      match state.phase with
      | .resolving =>
          match getBlob store state.world objectCid with
          | (.error message, next) => some ⟨.finished (.err message), next, []⟩
          | (.ok manifestBytes, next) =>
              match codec.fromSlice manifestBytes with
              | .error problem =>
                  some ⟨.finished (.err s!"{objectCid} is not a v1 object manifest: {problem}"),
                    next, []⟩
              | .ok manifest =>
                  if manifest.isV1 then some ⟨.fetching manifest (.init manifest.chunks), next, []⟩
                  else
                    let kind := manifest.kind
                    some ⟨.finished (.err s!"unsupported manifest kind: {kind}"), next, []⟩
      | _ => none
  | .fetch action =>
      match state.phase with
      | .fetching manifest pool =>
          (Buffered.step true objectChunkConcurrency (fetchChunk sha256 store)
              (pool, state.world) action).map
            fun result => { state with phase := .fetching manifest result.1, world := result.2 }
      | _ => none
  | .join =>
      match state.phase with
      | .fetching manifest pool =>
          match pool.result with
          | none => none
          | some (.error message) => some { state with phase := .finished (.err message) }
          | some (.ok chunks) =>
              some { state with
                phase := .finished (joinChunks allocator manifest chunks)
                fetched := chunks }
      | _ => none

theorem uploadChunk_snd (world : World) (entry : String × List UInt8) :
    (uploadChunk store world entry).2 = (store.post world entry.2).2 := by
  obtain ⟨chunkCid, chunk⟩ := entry
  cases answered : putBlob store world chunk with
  | mk answer after =>
      have same : (store.post world chunk).2 = after := congrArg Prod.snd answered
      cases answer with
      | error message => simp [uploadChunk, answered, same]
      | ok stored =>
          simp only [uploadChunk, answered]
          split <;> exact same.symm

theorem getBlob_snd (world : World) (hash : String) :
    (getBlob store world hash).2 = (store.get world hash).2 := by
  simp only [getBlob]
  split
  case h_1 => rfl
  case h_2 => split <;> rfl

theorem fetchChunk_snd (world : World) (chunkCid : String) :
    (fetchChunk sha256 store world chunkCid).2 = (store.get world chunkCid).2 := by
  rw [← getBlob_snd]
  cases answered : getBlob store world chunkCid with
  | mk answer after =>
      cases answer with
      | error message => simp [fetchChunk, answered]
      | ok chunk =>
          simp only [fetchChunk, answered]
          split <;> rfl

/-- Everything a step of `put_object` can do. -/
inductive PutMoves (state : PutState World) : PutState World → Prop
  | uploaded (manifest : Manifest) (pool next : Buffered.Pool (String × List UInt8) Unit String)
      (after : World) (phase : state.phase = .uploading manifest pool)
      (moves : Buffered.Moves false objectChunkConcurrency (uploadChunk store) pool state.world
        next after) :
      PutMoves state ⟨.uploading manifest next, after⟩
  | uploadFailed (manifest : Manifest) (pool : Buffered.Pool (String × List UInt8) Unit String)
      (message : String) (phase : state.phase = .uploading manifest pool)
      (failed : pool.result = some (.error message)) :
      PutMoves state { state with phase := .finished (.err message) }
  | encodingFailed (manifest : Manifest) (pool : Buffered.Pool (String × List UInt8) Unit String)
      (message : String) (done : List Unit) (phase : state.phase = .uploading manifest pool)
      (complete : pool.result = some (.ok done)) (encoded : codec.toVec manifest = .error message) :
      PutMoves state { state with phase := .finished (.err message) }
  | manifestFailed (manifest : Manifest) (pool : Buffered.Pool (String × List UInt8) Unit String)
      (manifestBytes : List UInt8) (message : String) (done : List Unit) (after : World)
      (phase : state.phase = .uploading manifest pool) (complete : pool.result = some (.ok done))
      (encoded : codec.toVec manifest = .ok manifestBytes)
      (stored : putBlob store state.world manifestBytes = (.error message, after)) :
      PutMoves state ⟨.finished (.err message), after⟩
  | manifestStored (manifest : Manifest) (pool : Buffered.Pool (String × List UInt8) Unit String)
      (manifestBytes : List UInt8) (hash : String) (done : List Unit) (after : World)
      (phase : state.phase = .uploading manifest pool) (complete : pool.result = some (.ok done))
      (encoded : codec.toVec manifest = .ok manifestBytes)
      (stored : putBlob store state.world manifestBytes = (.ok hash, after)) :
      PutMoves state ⟨.finished (.ok hash), after⟩

/-- The last step of `put_object`: an upload has failed, or all have succeeded
and the manifest is encoded and posted. -/
theorem storeManifest_cases {state next : PutState World}
    (stepped : putStep codec store state .storeManifest = some next) :
    ∃ manifest pool, state.phase = .uploading manifest pool ∧
      ((∃ message, pool.result = some (.error message) ∧
          next = ⟨.finished (.err message), state.world⟩) ∨
        ∃ done, pool.result = some (.ok done) ∧
          ((∃ message, codec.toVec manifest = .error message ∧
              next = ⟨.finished (.err message), state.world⟩) ∨
            ∃ manifestBytes, codec.toVec manifest = .ok manifestBytes ∧
              ((∃ message after, putBlob store state.world manifestBytes = (.error message, after) ∧
                  next = ⟨.finished (.err message), after⟩) ∨
                ∃ hash after, putBlob store state.world manifestBytes = (.ok hash, after) ∧
                  next = ⟨.finished (.ok hash), after⟩))) := by
  simp only [putStep] at stepped
  split at stepped
  case h_2 => simp at stepped
  case h_1 manifest pool phase =>
      refine ⟨manifest, pool, phase, ?_⟩
      split at stepped
      case h_1 => simp at stepped
      case h_2 message failed => exact .inl ⟨message, failed, (Option.some.inj stepped).symm⟩
      case h_3 done complete =>
          refine .inr ⟨done, complete, ?_⟩
          split at stepped
          case h_1 message encoded =>
              exact .inl ⟨message, encoded, (Option.some.inj stepped).symm⟩
          case h_2 manifestBytes encoded =>
              refine .inr ⟨manifestBytes, encoded, ?_⟩
              split at stepped
              case h_1 message after stored =>
                  exact .inl ⟨message, after, stored, (Option.some.inj stepped).symm⟩
              case h_2 hash after stored =>
                  exact .inr ⟨hash, after, stored, (Option.some.inj stepped).symm⟩

theorem putMoves_of_step {state next : PutState World} {label : PutLabel}
    (stepped : putStep codec store state label = some next) : PutMoves codec store state next := by
  cases label with
  | upload action =>
      simp only [putStep] at stepped
      split at stepped
      case h_1 manifest pool phase =>
          obtain ⟨⟨pool', after⟩, moved, rfl⟩ := Option.map_eq_some_iff.mp stepped
          exact .uploaded manifest pool pool' after phase (Buffered.moves_of_step moved)
      case h_2 => simp at stepped
  | storeManifest =>
      obtain ⟨manifest, pool, phase, ⟨message, failed, rfl⟩ | ⟨done, complete, concluded⟩⟩ :=
        storeManifest_cases codec store stepped
      · exact .uploadFailed manifest pool message phase failed
      rcases concluded with ⟨message, encoded, rfl⟩ | ⟨manifestBytes, encoded, concluded⟩
      · exact .encodingFailed manifest pool message done phase complete encoded
      rcases concluded with ⟨message, after, stored, rfl⟩ | ⟨hash, after, stored, rfl⟩
      · exact .manifestFailed manifest pool manifestBytes message done after phase complete
          encoded stored
      · exact .manifestStored manifest pool manifestBytes hash done after phase complete
          encoded stored

/-- Everything a step of `get_object` can do. -/
inductive GetMoves (objectCid : String) (state : GetState World) : GetState World → Prop
  | unresolved (message : String) (after : World) (phase : state.phase = .resolving)
      (unusable : ∀ manifestBytes manifest,
        (getBlob store state.world objectCid).1 = .ok manifestBytes →
        codec.fromSlice manifestBytes = .ok manifest → manifest.isV1 = false) :
      GetMoves objectCid state ⟨.finished (.err message), after, []⟩
  | resolved (manifestBytes : List UInt8) (manifest : Manifest) (after : World)
      (phase : state.phase = .resolving)
      (answer : getBlob store state.world objectCid = (.ok manifestBytes, after))
      (decoded : codec.fromSlice manifestBytes = .ok manifest) (isV1 : manifest.isV1 = true) :
      GetMoves objectCid state ⟨.fetching manifest (.init manifest.chunks), after, []⟩
  | fetched (manifest : Manifest) (pool next : Buffered.Pool String (List UInt8) String)
      (after : World) (phase : state.phase = .fetching manifest pool)
      (moves : Buffered.Moves true objectChunkConcurrency (fetchChunk sha256 store) pool
        state.world next after) :
      GetMoves objectCid state { state with phase := .fetching manifest next, world := after }
  | fetchFailed (manifest : Manifest) (pool : Buffered.Pool String (List UInt8) String)
      (message : String) (phase : state.phase = .fetching manifest pool)
      (failed : pool.result = some (.error message)) :
      GetMoves objectCid state { state with phase := .finished (.err message) }
  | joined (manifest : Manifest) (pool : Buffered.Pool String (List UInt8) String)
      (chunks : List (List UInt8)) (phase : state.phase = .fetching manifest pool)
      (complete : pool.result = some (.ok chunks)) :
      GetMoves objectCid state
        { state with phase := .finished (joinChunks allocator manifest chunks), fetched := chunks }

/-- The last step of `get_object`: a download has failed, or all have succeeded
and the chunks are joined. -/
theorem join_cases {objectCid : String} {state next : GetState World}
    (stepped : getStep allocator sha256 codec store objectCid state .join = some next) :
    ∃ manifest pool, state.phase = .fetching manifest pool ∧
      ((∃ message, pool.result = some (.error message) ∧
          next = { state with phase := .finished (.err message) }) ∨
        ∃ chunks, pool.result = some (.ok chunks) ∧
          next = { state with
            phase := .finished (joinChunks allocator manifest chunks)
            fetched := chunks }) := by
  simp only [getStep] at stepped
  split at stepped
  case h_2 => simp at stepped
  case h_1 manifest pool phase =>
      refine ⟨manifest, pool, phase, ?_⟩
      split at stepped
      case h_1 => simp at stepped
      case h_2 message failed => exact .inl ⟨message, failed, (Option.some.inj stepped).symm⟩
      case h_3 chunks complete => exact .inr ⟨chunks, complete, (Option.some.inj stepped).symm⟩

theorem getMoves_of_step {objectCid : String} {state next : GetState World} {label : GetLabel}
    (stepped : getStep allocator sha256 codec store objectCid state label = some next) :
    GetMoves allocator sha256 codec store objectCid state next := by
  cases label with
  | resolve =>
      simp only [getStep] at stepped
      split at stepped
      case h_2 => simp at stepped
      case h_1 phase =>
          split at stepped
          case h_1 message after answer =>
              refine Option.some.inj stepped ▸ .unresolved _ after phase ?_
              intro manifestBytes manifest received
              simp [answer] at received
          case h_2 manifestBytes after answer =>
              split at stepped
              case h_1 problem undecodable =>
                  refine Option.some.inj stepped ▸ .unresolved _ after phase ?_
                  intro other manifest received decoded
                  obtain rfl : manifestBytes = other := by simpa [answer] using received
                  simp [undecodable] at decoded
              case h_2 manifest decoded =>
                  split at stepped
                  case isTrue isV1 =>
                      exact Option.some.inj stepped ▸
                        .resolved manifestBytes manifest after phase answer decoded isV1
                  case isFalse unknown =>
                      refine Option.some.inj stepped ▸ .unresolved _ after phase ?_
                      intro other manifest' received decoded'
                      obtain rfl : manifestBytes = other := by simpa [answer] using received
                      obtain rfl := Except.ok.inj (decoded.symm.trans decoded')
                      simpa using unknown
  | fetch action =>
      simp only [getStep] at stepped
      split at stepped
      case h_1 manifest pool phase =>
          obtain ⟨⟨pool', after⟩, moved, rfl⟩ := Option.map_eq_some_iff.mp stepped
          exact .fetched manifest pool pool' after phase (Buffered.moves_of_step moved)
      case h_2 => simp at stepped
  | join =>
      obtain ⟨manifest, pool, phase, ⟨message, failed, rfl⟩ | ⟨chunks, complete, rfl⟩⟩ :=
        join_cases allocator sha256 codec store stepped
      · exact .fetchFailed manifest pool message phase failed
      · exact .joined manifest pool chunks phase complete

section Progress

variable {allocator} {codec} {store}

/-- How many steps `put_object` can still take. -/
def PutState.remaining (state : PutState World) : Nat :=
  match state.phase with
  | .uploading _ pool => pool.remaining + 1
  | .finished _ => 0

theorem putRemaining_lt {state next : PutState World} (moves : PutMoves codec store state next) :
    next.remaining < state.remaining := by
  cases moves with
  | uploaded manifest pool pool' after phase moves =>
      have lower := Buffered.remaining_lt moves
      simpa [PutState.remaining, phase] using lower
  | uploadFailed _ _ _ phase | encodingFailed _ _ _ _ phase | manifestFailed _ _ _ _ _ _ phase
  | manifestStored _ _ _ _ _ _ phase =>
      simp [PutState.remaining, phase]

theorem putStep_isSome_or_finished (codec : Codec) (store : Store World)
    (state : PutState World) :
    (∃ label, (putStep codec store state label).isSome = true) ∨
      ∃ outcome, state.phase = .finished outcome := by
  cases phase : state.phase with
  | uploading manifest pool =>
      left
      cases result : pool.result with
      | none =>
          obtain ⟨action, moved⟩ := Buffered.exists_step false (uploadChunk store) state.world
            (by decide : 0 < objectChunkConcurrency) result
          exact ⟨.upload action, by simpa [putStep, phase] using moved⟩
      | some collected =>
          refine ⟨.storeManifest, ?_⟩
          simp only [putStep, phase, result]
          cases collected with
          | error message => rfl
          | ok done =>
              dsimp only
              split
              · rfl
              · split <;> rfl
  | finished outcome => exact .inr ⟨outcome, rfl⟩

/-- How many steps `get_object` can still take, for an object of at most so
many chunks. -/
def GetState.remaining (count : Nat) (state : GetState World) : Nat :=
  match state.phase with
  | .resolving => 3 * count + 2
  | .fetching _ pool => pool.remaining + 1
  | .finished _ => 0

theorem getRemaining_lt {objectCid : String} {state next : GetState World} {count : Nat}
    (moves : GetMoves allocator sha256 codec store objectCid state next)
    (few : ∀ manifestBytes manifest, state.phase = .resolving →
      (getBlob store state.world objectCid).1 = .ok manifestBytes →
      codec.fromSlice manifestBytes = .ok manifest → manifest.chunks.length ≤ count) :
    next.remaining count < state.remaining count := by
  cases moves with
  | unresolved message after phase unusable => simp [GetState.remaining, phase]
  | resolved manifestBytes manifest after phase answer decoded isV1 =>
      have bound := few manifestBytes manifest phase (by rw [answer]) decoded
      simp only [GetState.remaining, phase, Buffered.remaining_init]
      omega
  | fetched manifest pool pool' after phase moves =>
      have lower := Buffered.remaining_lt moves
      simpa [GetState.remaining, phase] using lower
  | fetchFailed manifest pool message phase failed => simp [GetState.remaining, phase]
  | joined manifest pool chunks phase complete => simp [GetState.remaining, phase]

theorem getStep_isSome_or_finished (codec : Codec) (store : Store World) (objectCid : String)
    (state : GetState World) :
    (∃ label, (getStep allocator sha256 codec store objectCid state label).isSome = true) ∨
      ∃ outcome, state.phase = .finished outcome := by
  cases phase : state.phase with
  | resolving =>
      refine .inl ⟨.resolve, ?_⟩
      simp only [getStep, phase]
      split
      · rfl
      · split
        · rfl
        · split <;> rfl
  | fetching manifest pool =>
      left
      cases result : pool.result with
      | none =>
          obtain ⟨action, moved⟩ := Buffered.exists_step true (fetchChunk sha256 store)
            state.world (by decide : 0 < objectChunkConcurrency) result
          exact ⟨.fetch action, by simpa [getStep, phase] using moved⟩
      | some collected =>
          refine ⟨.join, ?_⟩
          cases collected with
          | error message => simp [getStep, phase, result]
          | ok chunks => simp [getStep, phase, result]
  | finished outcome => exact .inr ⟨outcome, rfl⟩

end Progress

/-- A chunk that passes the check has the address it was asked for under. -/
theorem cid_of_fetchChunk {world : World} {chunkCid : String} {chunk : List UInt8}
    (fetched : (fetchChunk sha256 store world chunkCid).1 = .ok chunk) :
    cid sha256 chunk = chunkCid := by
  unfold fetchChunk at fetched
  split at fetched
  case h_1 => simp at fetched
  case h_2 received next answer =>
      by_cases matching : cid sha256 received = chunkCid
      · have equal : received = chunk := by simpa [matching] using fetched
        exact equal ▸ matching
      · simp [matching] at fetched

theorem joinChunks_eq_ok {allocator : Allocator} {manifest : Manifest}
    {chunks : List (List UInt8)} {out : List UInt8} :
    joinChunks allocator manifest chunks = .ok out ↔
      out = chunks.flatten ∧ out.length = manifest.totalSize.toNat ∧
        allocator.Grants out.length := by
  simp only [joinChunks]
  split
  case isTrue refused =>
      constructor
      · intro absurd
        cases absurd
      · rintro ⟨rfl, size, granted⟩
        rw [(Allocator.collects_iff_of_length size).mpr (size ▸ granted)] at refused
        cases refused
  case isFalse collected =>
      split
      case isTrue differ =>
          constructor
          · intro absurd
            cases absurd
          · rintro ⟨rfl, same, -⟩
            exact (differ same).elim
      case isFalse same =>
          have size := not_not.mp same
          constructor
          · intro equal
            obtain rfl := Outcome.ok.inj equal
            have granted := (Allocator.collects_iff_of_length size).mp (by simpa using collected)
            exact ⟨rfl, size, size ▸ granted⟩
          · rintro ⟨rfl, -, -⟩
            rfl

section Greeting

/-- The object `hi`. -/
def greeting : Slice :=
  ⟨[104, 105], by decide⟩

def greetingManifest : Manifest :=
  ⟨"ce-object-v1", 1048576, 2,
    ["8f434346648f6b96df89dda901c5176b10a6d83961dd3c1ac88b59b2dc327aa4"]⟩

/-- The JSON text of the manifest. -/
def greetingManifestBytes : List UInt8 :=
  [123, 34, 107, 105, 110, 100, 34, 58, 34, 99, 101, 45, 111, 98, 106, 101, 99, 116, 45, 118, 49,
   34, 44, 34, 99, 104, 117, 110, 107, 95, 115, 105, 122, 101, 34, 58, 49, 48, 52, 56, 53, 55, 54,
   44, 34, 116, 111, 116, 97, 108, 95, 115, 105, 122, 101, 34, 58, 50, 44, 34, 99, 104, 117, 110,
   107, 115, 34, 58, 91, 34, 56, 102, 52, 51, 52, 51, 52, 54, 54, 52, 56, 102, 54, 98, 57, 54,
   100, 102, 56, 57, 100, 100, 97, 57, 48, 49, 99, 53, 49, 55, 54, 98, 49, 48, 97, 54, 100, 56,
   51, 57, 54, 49, 100, 100, 51, 99, 49, 97, 99, 56, 56, 98, 53, 57, 98, 50, 100, 99, 51, 50, 55,
   97, 97, 52, 34, 93, 125]

/-- SHA-256 on the object and on its manifest. -/
def greetingSha256 (bytes : List UInt8) : List UInt8 :=
  if bytes = greeting.bytes then
    [143, 67, 67, 70, 100, 143, 107, 150, 223, 137, 221, 169, 1, 197, 23, 107, 16, 166, 216, 57,
     97, 221, 60, 26, 200, 139, 89, 178, 220, 50, 122, 164]
  else if bytes = greetingManifestBytes then
    [213, 136, 47, 225, 118, 173, 253, 254, 204, 105, 44, 142, 103, 205, 131, 193, 25, 9, 91, 124,
     218, 114, 48, 22, 191, 128, 22, 209, 225, 31, 186, 106]
  else List.replicate 32 0

/-- The JSON encoding on the manifest. -/
def greetingCodec : Codec where
  toVec manifest :=
    if manifest = greetingManifest then .ok greetingManifestBytes else .error "another manifest"
  fromSlice bytes :=
    if bytes = greetingManifestBytes then .ok greetingManifest
    else .error "expected value at line 1 column 1"

theorem chunksOf_greeting : chunksOf defaultChunkSize greeting.bytes = [[104, 105]] := by
  rw [chunksOf_of_ne_nil (by decide) (by decide)]
  exact congrArg ([104, 105] :: ·) (chunksOf_nil _)

theorem chunkObject_greeting :
    chunkObject greetingSha256 greeting defaultChunkSize =
      some (greetingManifest, [(cid greetingSha256 [104, 105], [104, 105])]) := by
  simp only [chunkObject, chunksOf_greeting]
  decide

/-- The blobs of the object. -/
def greetingStored : Set (List UInt8) :=
  {content | content = greetingManifestBytes ∨ content = [104, 105]}

theorem collisionFree_greeting : CollisionFree greetingSha256 greetingStored := by
  have different : cid greetingSha256 greetingManifestBytes ≠ cid greetingSha256 [104, 105] := by
    decide
  rintro first (rfl | rfl) second (rfl | rfl) equal
  · rfl
  · exact absurd equal different
  · exact absurd equal.symm different
  · rfl

end Greeting

end CeRs.Object
