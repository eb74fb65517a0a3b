import CeRs.Object.RoundTrip
import CeRs.Object.Upload
import CeRs.Paced

/-!
# How many requests an object takes

Against any store and under any schedule, `put_object` and `get_object` have at
most `OBJECT_CHUNK_CONCURRENCY` requests open, ask for no listed chunk twice, and
never run further ahead than that of the chunks that have gone through: a large
or faulty object cannot draw more requests.
-/

namespace CeRs.Object

open Transition Buffered
open Memory (Allocator)

variable {allocator : Allocator} {sha256 : List UInt8 → List UInt8} {codec : Codec} {World : Type}
  {store : Store World}

section Get

variable (allocator) (sha256) (store)

/-- The answers to requests for chunks that a step of `get_object` gets. -/
def chunkAnswers (state : GetState World) : GetLabel →
    List (String × Except String (List UInt8))
  | .fetch action =>
      match state.phase with
      | .fetching _ pool => answering (fetchChunk sha256 store) pool state.world action
      | _ => []
  | _ => []

/-- The answers to requests for chunks in a run of `get_object`. -/
def chunksFetched (codec : Codec) (objectCid : String) (world : World)
    (trace : List GetLabel) : List (String × Except String (List UInt8)) :=
  emitted (getStep allocator sha256 codec store objectCid) (chunkAnswers sha256 store)
    (getInitial world) trace

variable {allocator} {sha256} {store}

section Requests

variable {objectCid : String} {state : GetState World}

variable (sha256) (store) (objectCid) in
/-- What a step of `get_object` asks the store for. -/
def gets (state : GetState World) : GetLabel → List String
  | .resolve =>
      match state.phase with
      | .resolving => [objectCid]
      | _ => []
  | label => (chunkAnswers sha256 store state label).map Prod.fst

/-- The store is asked for the manifest and for the chunks, and for nothing else. -/
theorem world_of_gets {final : GetState World} {trace : List GetLabel}
    (reached : execute (getStep allocator sha256 codec store objectCid) state trace =
      some final) :
    final.world = (emitted (getStep allocator sha256 codec store objectCid)
      (gets sha256 store objectCid) state trace).foldl
        (fun world hash => (store.get world hash).2) state.world := by
  refine foldl_emitted GetState.world (fun state label next stepped => ?_) reached
  cases label with
  | resolve =>
      cases phase : state.phase with
      | fetching | finished => simp [getStep, phase] at stepped
      | resolving =>
          simp only [gets, phase, List.foldl_cons, List.foldl_nil, ← getBlob_snd]
          simp only [getStep, phase] at stepped
          split at stepped
          case h_1 message after answered =>
              obtain rfl := Option.some.inj stepped
              rw [answered]
          case h_2 manifestBytes after answered =>
              rw [answered]
              split at stepped
              case h_1 => exact Option.some.inj stepped ▸ rfl
              case h_2 => split at stepped <;> exact Option.some.inj stepped ▸ rfl
  | fetch action =>
      cases phase : state.phase with
      | resolving | finished => simp [getStep, phase] at stepped
      | fetching manifest pool =>
          simp only [getStep, phase] at stepped
          obtain ⟨⟨pool', after⟩, moved, rfl⟩ := Option.map_eq_some_iff.mp stepped
          simp only [gets, chunkAnswers, phase, answering, List.map_map, Function.comp_def,
            List.map_id', ← fetchChunk_snd sha256]
          exact world_of_step moved
  | join =>
      simp only [getStep] at stepped
      split at stepped
      case h_2 => simp at stepped
      case h_1 manifest pool phase =>
          split at stepped
          case h_1 => simp at stepped
          case h_2 | h_3 => exact Option.some.inj stepped ▸ rfl

end Requests

/-- How a fetch of the listed chunks stands, with so many delivered. -/
structure FetchProgress (chunks : List String)
    (log : List (String × Except String (List UInt8))) (delivered : Nat) : Prop where
  ahead : (log.map Prod.fst).Subperm (chunks.take (delivered + objectChunkConcurrency))
  verified : ∀ chunkCid ∈ chunks.take delivered, ∃ chunk, (chunkCid, .ok chunk) ∈ log

/-- A fetch ends with all chunks asked for once, or with the error of the first one
that is not delivered. -/
def FetchEnded (chunks : List String) (log : List (String × Except String (List UInt8)))
    (delivered : Nat) (outcome : Outcome (List UInt8)) : Prop :=
  delivered = chunks.length ∧ (log.map Prod.fst).Perm chunks ∨
    ∃ chunkCid message, chunks[delivered]? = some chunkCid ∧
      (chunkCid, .error message) ∈ log ∧ outcome = .err message

/-- The manifest that the store's first answer decodes to. -/
def Resolves (codec : Codec) (store : Store World) (objectCid : String) (world : World)
    (manifest : Manifest) : Prop :=
  ∃ manifestBytes, (getBlob store world objectCid).1 = .ok manifestBytes ∧
    codec.fromSlice manifestBytes = .ok manifest

/-- What holds of the requests in a run of `get_object`. -/
def GetPaced (codec : Codec) (store : Store World) (objectCid : String) (world : World)
    (log : List (String × Except String (List UInt8))) (state : GetState World) : Prop :=
  match state.phase with
  | .resolving => log = [] ∧ state.world = world
  | .fetching manifest pool =>
      Resolves codec store objectCid world manifest ∧
        ∃ started dropped,
          Paced true objectChunkConcurrency manifest.chunks log pool started dropped
  | .finished outcome =>
      (log = [] ∧ ∀ manifest, Resolves codec store objectCid world manifest →
        manifest.isV1 = false) ∨
      ∃ manifest delivered, Resolves codec store objectCid world manifest ∧
        FetchProgress manifest.chunks log delivered ∧
        FetchEnded manifest.chunks log delivered outcome

theorem fetchProgress_of_paced {chunks : List String}
    {log : List (String × Except String (List UInt8))}
    {pool : Pool String (List UInt8) String} {started : List String}
    {dropped : List (String × String)}
    (paced : Paced true objectChunkConcurrency chunks log pool started dropped) :
    FetchProgress chunks log pool.out.length where
  ahead := paced.subperm
  verified chunkCid member := by
    rw [← paced.delivered_eq] at member
    obtain ⟨entry, delivered, rfl⟩ := List.mem_map.mp member
    exact ⟨entry.2, paced.mem_log delivered⟩

theorem getPaced_of_step {objectCid : String} {world : World}
    {log : List (String × Except String (List UInt8))} {state next : GetState World}
    {label : GetLabel} (paced : GetPaced codec store objectCid world log state)
    (stepped : getStep allocator sha256 codec store objectCid state label = some next) :
    GetPaced codec store objectCid world (log ++ chunkAnswers sha256 store state label) next := by
  cases phase : state.phase with
  | finished outcome => cases label <;> simp [getStep, phase] at stepped
  | resolving =>
      simp only [GetPaced, phase] at paced
      obtain ⟨rfl, rfl⟩ := paced
      have quiet : chunkAnswers sha256 store state label = [] := by
        cases label <;> simp [chunkAnswers, phase]
      rw [quiet]
      cases getMoves_of_step allocator sha256 codec store stepped with
      | unresolved message after _ unusable =>
          refine .inl ⟨rfl, fun manifest resolves => ?_⟩
          obtain ⟨manifestBytes, received, decoded⟩ := resolves
          exact unusable manifestBytes manifest received decoded
      | resolved manifestBytes manifest after _ answer decoded isV1 =>
          exact ⟨⟨manifestBytes, by rw [answer], decoded⟩, [], [], paced_init _ _ _⟩
      | fetched manifest pool pool' after fetching => simp [phase] at fetching
      | fetchFailed manifest pool message fetching => simp [phase] at fetching
      | joined manifest pool chunks fetching => simp [phase] at fetching
  | fetching manifest pool =>
      simp only [GetPaced, phase] at paced
      obtain ⟨resolves, started, dropped, paced⟩ := paced
      cases label with
      | resolve => simp [getStep, phase] at stepped
      | fetch action =>
          simp only [getStep, phase] at stepped
          obtain ⟨⟨pool', after⟩, moved, rfl⟩ := Option.map_eq_some_iff.mp stepped
          simp only [chunkAnswers, phase]
          exact ⟨resolves, paced.of_step moved⟩
      | join =>
          have progress := fetchProgress_of_paced paced
          obtain ⟨current, pool', fetching, concluded⟩ :=
            join_cases allocator sha256 codec store stepped
          obtain ⟨rfl, rfl⟩ := GetPhase.fetching.inj (phase.symm.trans fetching)
          have quiet : chunkAnswers sha256 store state .join = [] := rfl
          rw [quiet, List.append_nil]
          rcases concluded with ⟨message, failed, rfl⟩ | ⟨chunks, complete, rfl⟩
          · obtain ⟨chunkCid, -, answer, place⟩ := paced.of_failed (failed_of_result failed)
            exact .inr ⟨manifest, pool.out.length, resolves, progress,
              .inr ⟨chunkCid, message, place rfl, answer, rfl⟩⟩
          · obtain ⟨all, done⟩ := paced.of_result complete
            exact .inr ⟨manifest, pool.out.length, resolves, progress, .inl ⟨done, all⟩⟩

/-- The requests of `get_object`, in every run against every store: none before the
manifest is known, and then at most a window of them ahead of the verified chunks. -/
theorem getObject_paced (codec : Codec) (store : Store World) (objectCid : String)
    (world : World) {trace : List GetLabel} {final : GetState World}
    (reached : execute (getStep allocator sha256 codec store objectCid) (getInitial world) trace =
      some final) :
    (∀ manifest pool, final.phase = .fetching manifest pool →
      pool.inFlight.length ≤ objectChunkConcurrency) ∧
    ((chunksFetched allocator sha256 store codec objectCid world trace = [] ∧
        (final.phase = .resolving ∨
          ∀ manifest, Resolves codec store objectCid world manifest → manifest.isV1 = false)) ∨
      ∃ manifest delivered, Resolves codec store objectCid world manifest ∧
        FetchProgress manifest.chunks
          (chunksFetched allocator sha256 store codec objectCid world trace) delivered ∧
        ∀ outcome, final.phase = .finished outcome →
          FetchEnded manifest.chunks
            (chunksFetched allocator sha256 store codec objectCid world trace) delivered
            outcome) := by
  have run : GetPaced codec store objectCid world
      (chunksFetched allocator sha256 store codec objectCid world trace) final := by
    refine (invariant_of_execute (fun trace state =>
      execute (getStep allocator sha256 codec store objectCid) (getInitial world) trace =
        some state ∧
        GetPaced codec store objectCid world
          (chunksFetched allocator sha256 store codec objectCid world trace) state)
      ⟨rfl, rfl, rfl⟩ ?_ reached).2
    rintro trace state label next ⟨before, paced⟩ stepped
    refine ⟨execute_concat_eq_some.mpr ⟨state, before, stepped⟩, ?_⟩
    rw [chunksFetched, emitted_concat before]
    exact getPaced_of_step paced stepped
  cases phase : final.phase with
  | resolving =>
      simp only [GetPaced, phase] at run
      exact ⟨fun _ _ equal => by simp at equal, .inl ⟨run.1, .inl rfl⟩⟩
  | fetching manifest pool =>
      simp only [GetPaced, phase] at run
      obtain ⟨resolves, started, dropped, paced⟩ := run
      refine ⟨fun current pool' equal => ?_, .inr ⟨manifest, pool.out.length, resolves,
        fetchProgress_of_paced paced, fun outcome equal => by simp at equal⟩⟩
      obtain ⟨rfl, rfl⟩ := GetPhase.fetching.inj equal
      exact (Nat.le_add_left _ _).trans paced.room
  | finished outcome =>
      simp only [GetPaced, phase] at run
      refine ⟨fun _ _ equal => by simp at equal, ?_⟩
      rcases run with ⟨quiet, unknown⟩ | ⟨manifest, delivered, resolves, progress, ended⟩
      · exact .inl ⟨quiet, .inr unknown⟩
      · refine .inr ⟨manifest, delivered, resolves, progress, fun other equal => ?_⟩
        obtain rfl := GetPhase.finished.inj equal
        exact ended

/-- A store that has lost the chunk of the object `hi`. -/
def lossy : Blobs :=
  Function.update noBlobs (cid greetingSha256 greetingManifestBytes) (some greetingManifestBytes)

theorem getObject_paced_lossy :
    ∃ final, execute (getStep .ample greetingSha256 greetingCodec (honest greetingSha256)
        (cid greetingSha256 greetingManifestBytes)) (getInitial lossy)
        [.resolve, .fetch .start, .fetch (.serve 0), .fetch (.yield 0), .join] = some final ∧
      ∃ manifest delivered, Resolves greetingCodec (honest greetingSha256)
          (cid greetingSha256 greetingManifestBytes) lossy manifest ∧
        FetchEnded manifest.chunks
          [(cid greetingSha256 [104, 105], .error "CE API 404 Not Found: blob not found")]
          delivered (.err "CE API 404 Not Found: blob not found") := by
  have reached : ∃ final, execute (getStep .ample greetingSha256 greetingCodec
      (honest greetingSha256) (cid greetingSha256 greetingManifestBytes)) (getInitial lossy)
      [.resolve, .fetch .start, .fetch (.serve 0), .fetch (.yield 0), .join] = some final ∧
      final.phase = .finished (.err "CE API 404 Not Found: blob not found") := ⟨_, rfl, rfl⟩
  obtain ⟨final, reached, phase⟩ := reached
  refine ⟨final, reached, ?_⟩
  rcases (getObject_paced greetingCodec (honest greetingSha256) _ lossy reached).2 with
    ⟨quiet, -⟩ | ⟨manifest, delivered, resolves, -, ended⟩
  · exact absurd quiet (by decide)
  · exact ⟨manifest, delivered, resolves, ended _ phase⟩

end Get

section Put

variable (store)

/-- The answers to uploads of chunks that a step of `put_object` gets. -/
def uploadAnswers (state : PutState World) : PutLabel →
    List ((String × List UInt8) × Except String Unit)
  | .upload action =>
      match state.phase with
      | .uploading _ pool => answering (uploadChunk store) pool state.world action
      | _ => []
  | .storeManifest => []

/-- The answers to uploads of chunks in a run of `put_object`. -/
def chunksUploaded (codec : Codec) (start : PutState World) (trace : List PutLabel) :
    List ((String × List UInt8) × Except String Unit) :=
  emitted (putStep codec store) (uploadAnswers store) start trace

variable {store}

/-- The chunk of a post. -/
def Post.entry? : Post → Option (String × List UInt8)
  | .chunk entry _ => some entry
  | .manifest _ => none

/-- The uploads are the posts of chunks. -/
theorem chunksUploaded_eq (start : PutState World) (trace : List PutLabel) :
    (chunksUploaded store codec start trace).map Prod.fst =
      (posted codec store start trace).filterMap Post.entry? := by
  have same : ∀ (state : PutState World) label,
      (uploadAnswers store state label).map Prod.fst =
        (posts codec store state label).filterMap Post.entry? := by
    intro state label
    cases label with
    | upload action =>
        cases phase : state.phase with
        | finished outcome => simp [uploadAnswers, posts, phase]
        | uploading manifest pool =>
            simp [uploadAnswers, posts, phase, answering, Post.entry?, Function.comp_def]
    | storeManifest =>
        simp only [uploadAnswers, posts]
        split
        case h_1 => split <;> simp [Post.entry?]
        case h_2 => rfl
  rw [chunksUploaded, posted]
  induction trace generalizing start with
  | nil => rfl
  | cons label rest induction =>
      simp only [emitted, List.map_append, List.filterMap_append, same]
      cases putStep codec store start label with
      | none => rfl
      | some next => rw [induction]

/-- How the uploads stand, with so many done: at most a window of chunks beyond
these has been sent, and each chunk at most once. -/
structure UploadProgress (chunks : List (String × List UInt8))
    (log : List ((String × List UInt8) × Except String Unit)) (done : Nat) : Prop where
  ahead : (log.map Prod.fst).Subperm (chunks.take (done + objectChunkConcurrency))
  stored : done ≤ log.countP fun entry => entry.2.isOk

/-- The uploads end with all chunks sent once, or with the error of one of them. -/
def UploadEnded (chunks : List (String × List UInt8))
    (log : List ((String × List UInt8) × Except String Unit))
    (outcome : Outcome String) : Prop :=
  (log.map Prod.fst).Perm chunks ∨
    ∃ chunk ∈ chunks, ∃ message, (chunk, .error message) ∈ log ∧ outcome = .err message

/-- What holds of the uploads in a run of `put_object`. -/
def PutPaced (chunks : List (String × List UInt8))
    (log : List ((String × List UInt8) × Except String Unit)) (state : PutState World) : Prop :=
  match state.phase with
  | .uploading _ pool =>
      ∃ started dropped, Paced false objectChunkConcurrency chunks log pool started dropped
  | .finished outcome =>
      ∃ done, UploadProgress chunks log done ∧ UploadEnded chunks log outcome

theorem uploadProgress_of_paced {chunks : List (String × List UInt8)}
    {log : List ((String × List UInt8) × Except String Unit)}
    {pool : Pool (String × List UInt8) Unit String} {started : List (String × List UInt8)}
    {dropped : List ((String × List UInt8) × String)}
    (paced : Paced false objectChunkConcurrency chunks log pool started dropped) :
    UploadProgress chunks log pool.out.length where
  ahead := paced.subperm
  stored := by
    rw [← paced.answers.countP_eq, List.countP_append, Pool.delivered, List.countP_map]
    refine le_trans (Nat.le_of_eq ?_) (Nat.le_add_right _ _)
    symm
    exact List.countP_eq_length.mpr fun entry _ => rfl

theorem putPaced_of_step {chunks : List (String × List UInt8)}
    {log : List ((String × List UInt8) × Except String Unit)} {state next : PutState World}
    {label : PutLabel} (paced : PutPaced chunks log state)
    (stepped : putStep codec store state label = some next) :
    PutPaced chunks (log ++ uploadAnswers store state label) next := by
  cases phase : state.phase with
  | finished outcome => cases label <;> simp [putStep, phase] at stepped
  | uploading manifest pool =>
      simp only [PutPaced, phase] at paced
      obtain ⟨started, dropped, paced⟩ := paced
      cases label with
      | upload action =>
          simp only [putStep, phase] at stepped
          obtain ⟨⟨pool', after⟩, moved, rfl⟩ := Option.map_eq_some_iff.mp stepped
          simp only [uploadAnswers, phase]
          exact paced.of_step moved
      | storeManifest =>
          have progress := uploadProgress_of_paced paced
          obtain ⟨current, pool', uploading, concluded⟩ :=
            storeManifest_cases codec store stepped
          obtain ⟨rfl, rfl⟩ := PutPhase.uploading.inj (phase.symm.trans uploading)
          rw [uploadAnswers, List.append_nil]
          rcases concluded with ⟨message, failed, rfl⟩ | ⟨done, complete, concluded⟩
          · obtain ⟨chunk, member, answer, -⟩ := paced.of_failed (failed_of_result failed)
            exact ⟨_, progress, .inr ⟨chunk, member, message, answer, rfl⟩⟩
          · obtain ⟨all, -⟩ := paced.of_result complete
            rcases concluded with ⟨message, -, rfl⟩ |
              ⟨bytes, -, ⟨message, after, -, rfl⟩ | ⟨hash, after, -, rfl⟩⟩
            · exact ⟨_, progress, .inl all⟩
            · exact ⟨_, progress, .inl all⟩
            · exact ⟨_, progress, .inl all⟩

/-- The uploads of `put_object`, in every run against every store. -/
theorem putObject_paced (codec : Codec) (store : Store World) {bytes : Slice} {world : World}
    {manifest : Manifest} {chunks : List (String × List UInt8)}
    (built : chunkObject sha256 bytes defaultChunkSize = some (manifest, chunks))
    {trace : List PutLabel} {final : PutState World}
    (reached : execute (putStep codec store) (putInitial sha256 bytes world) trace =
      some final) :
    (∀ current pool, final.phase = .uploading current pool →
      pool.inFlight.length ≤ objectChunkConcurrency) ∧
    ∃ done,
      UploadProgress chunks
        (chunksUploaded store codec (putInitial sha256 bytes world) trace) done ∧
      ∀ outcome, final.phase = .finished outcome →
        UploadEnded chunks
          (chunksUploaded store codec (putInitial sha256 bytes world) trace) outcome := by
  have start : putInitial sha256 bytes world = ⟨.uploading manifest (.init chunks), world⟩ := by
    simp [putInitial, built]
  have run : PutPaced chunks
      (chunksUploaded store codec (putInitial sha256 bytes world) trace) final := by
    refine (invariant_of_execute (fun trace state =>
      execute (putStep codec store) (putInitial sha256 bytes world) trace = some state ∧
        PutPaced chunks (chunksUploaded store codec (putInitial sha256 bytes world) trace) state)
      ⟨rfl, ?_⟩ ?_ reached).2
    · rw [start]
      exact ⟨[], [], paced_init _ _ _⟩
    · rintro trace state label next ⟨before, paced⟩ stepped
      refine ⟨execute_concat_eq_some.mpr ⟨state, before, stepped⟩, ?_⟩
      rw [chunksUploaded, emitted_concat before]
      exact putPaced_of_step paced stepped
  cases phase : final.phase with
  | uploading current pool =>
      simp only [PutPaced, phase] at run
      obtain ⟨started, dropped, paced⟩ := run
      refine ⟨fun other pool' equal => ?_, pool.out.length, uploadProgress_of_paced paced,
        fun outcome equal => by simp at equal⟩
      obtain ⟨rfl, rfl⟩ := PutPhase.uploading.inj equal
      exact (Nat.le_add_left _ _).trans paced.room
  | finished outcome =>
      simp only [PutPaced, phase] at run
      obtain ⟨done, progress, ended⟩ := run
      refine ⟨fun _ _ equal => by simp at equal, done, progress, fun other equal => ?_⟩
      obtain rfl := PutPhase.finished.inj equal
      exact ended

theorem putObject_paced_greeting :
    ∃ final, execute (putStep greetingCodec (honest greetingSha256))
        (putInitial greetingSha256 greeting noBlobs)
        [.upload .start, .upload (.serve 0), .upload (.yield 0)] = some final ∧
      ∃ done, UploadProgress [(cid greetingSha256 [104, 105], [104, 105])]
        (chunksUploaded (honest greetingSha256) greetingCodec
          (putInitial greetingSha256 greeting noBlobs)
          [.upload .start, .upload (.serve 0), .upload (.yield 0)]) done := by
  have start : putInitial greetingSha256 greeting noBlobs =
      ⟨.uploading greetingManifest (.init [(cid greetingSha256 [104, 105], [104, 105])]),
        noBlobs⟩ := by
    simp [putInitial, chunkObject_greeting]
  have reached : ∃ final, execute (putStep greetingCodec (honest greetingSha256))
      (putInitial greetingSha256 greeting noBlobs)
      [.upload .start, .upload (.serve 0), .upload (.yield 0)] = some final := by
    rw [start]
    exact ⟨_, rfl⟩
  obtain ⟨final, reached⟩ := reached
  obtain ⟨-, done, progress, -⟩ :=
    putObject_paced greetingCodec (honest greetingSha256) chunkObject_greeting reached
  exact ⟨final, reached, done, progress⟩

end Put

end CeRs.Object
