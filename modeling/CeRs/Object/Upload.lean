import CeRs.Object.Store
import CeRs.Transition

/-!
# What `put_object` posts and returns

The chunks are posted concurrently and each acknowledgement is checked against
the address of its chunk; the manifest is posted last, and only if every chunk
has been acknowledged.  The acknowledgement of the manifest is not checked: it
is what `put_object` returns.
-/

namespace CeRs.Object

open Transition

variable {sha256 : List UInt8 → List UInt8} {codec : Codec}
variable {World : Type} {store : Store World} {state next : PutState World}

/-- The acknowledgement of the manifest that the next step receives names
another address. -/
def Misnames (sha256 : List UInt8 → List UInt8) (codec : Codec) (store : Store World)
    (state : PutState World) : PutLabel → Prop
  | .upload _ => False
  | .storeManifest =>
      ∃ manifest pool done manifestBytes hash, state.phase = .uploading manifest pool ∧
        pool.result = some (.ok done) ∧ codec.toVec manifest = .ok manifestBytes ∧
        (putBlob store state.world manifestBytes).1 = .ok hash ∧ hash ≠ cid sha256 manifestBytes

/-- A step returns a wrong address exactly if it receives one. -/
theorem misnames_iff {label : PutLabel} {manifest : Manifest}
    {pool : Buffered.Pool (String × List UInt8) Unit String}
    (phase : state.phase = .uploading manifest pool)
    (stepped : putStep codec store state label = some next) :
    Misnames sha256 codec store state label ↔
      ∃ hash, next.phase = .finished (.ok hash) ∧
        ∀ manifestBytes, codec.toVec manifest = .ok manifestBytes →
          hash ≠ cid sha256 manifestBytes := by
  cases label with
  | upload action =>
      simp only [putStep, phase] at stepped
      obtain ⟨_, -, rfl⟩ := Option.map_eq_some_iff.mp stepped
      simp [Misnames]
  | storeManifest =>
      obtain ⟨current, others, phase', concluded⟩ := storeManifest_cases codec store stepped
      obtain ⟨rfl, rfl⟩ := PutPhase.uploading.inj (phase.symm.trans phase')
      rcases concluded with ⟨message, failed, rfl⟩ | ⟨done, complete, concluded⟩
      · simp [Misnames, phase, failed]
      rcases concluded with ⟨message, encoded, rfl⟩ | ⟨manifestBytes, encoded, concluded⟩
      · simp [Misnames, phase, encoded]
      rcases concluded with ⟨message, after, stored, rfl⟩ | ⟨hash, after, stored, rfl⟩
      · simp [Misnames, phase, encoded, stored]
      · simp [Misnames, phase, complete, encoded, stored]

section Address

variable {manifest : Manifest} {start : PutState World}

/-- The result is the address of the object's manifest. -/
def Trustworthy (sha256 : List UInt8 → List UInt8) (codec : Codec) (manifest : Manifest)
    (state : PutState World) : Prop :=
  ∀ hash, state.phase = .finished (.ok hash) →
    ∃ manifestBytes, codec.toVec manifest = .ok manifestBytes ∧ hash = cid sha256 manifestBytes

/-- What holds of the result after a run. -/
structure Returning (sha256 : List UInt8 → List UInt8) (codec : Codec) (store : Store World)
    (manifest : Manifest) (start : PutState World) (trace : List PutLabel)
    (state : PutState World) : Prop where
  reached : execute (putStep codec store) start trace = some state
  own : ∀ current pool, state.phase = .uploading current pool → current = manifest
  exact : Trustworthy sha256 codec manifest state ↔
    EveryStep (putStep codec store) (fun state label => ¬ Misnames sha256 codec store state label)
      start trace

theorem Returning.of_step {trace : List PutLabel} {label : PutLabel}
    (returning : Returning sha256 codec store manifest start trace state)
    (stepped : putStep codec store state label = some next) :
    Returning sha256 codec store manifest start (trace ++ [label]) next := by
  cases phase : state.phase with
  | finished outcome => cases label <;> simp [putStep, phase] at stepped
  | uploading current pool =>
      obtain rfl := returning.own current pool phase
      have running : Trustworthy sha256 codec current state := by
        intro hash absurd
        simp [phase] at absurd
      refine ⟨execute_concat_eq_some.mpr ⟨state, returning.reached, stepped⟩, ?_, ?_⟩
      · intro other others phase'
        cases putMoves_of_step codec store stepped with
        | uploaded manifest pool' _ _ before =>
            rw [phase] at before
            obtain ⟨rfl, -⟩ := PutPhase.uploading.inj before
            exact (PutPhase.uploading.inj phase').1.symm
        | uploadFailed | encodingFailed | manifestFailed | manifestStored => cases phase'
      · rw [everyStep_concat returning.reached, ← returning.exact, misnames_iff phase stepped,
          Trustworthy]
        simp [running]

/-- Storing an object returns the address of its manifest exactly if the store
does not acknowledge the manifest under another one. -/
theorem putObject_address_iff {bytes : Slice} {world : World} {manifest : Manifest}
    {chunks : List (String × List UInt8)}
    (built : chunkObject sha256 bytes defaultChunkSize = some (manifest, chunks))
    {trace : List PutLabel} {final : PutState World}
    (reached : execute (putStep codec store) (putInitial sha256 bytes world) trace =
      some final) :
    (∀ hash, final.phase = .finished (.ok hash) →
        ∃ manifestBytes, codec.toVec manifest = .ok manifestBytes ∧
          hash = cid sha256 manifestBytes) ↔
      EveryStep (putStep codec store) (fun state label => ¬ Misnames sha256 codec store state label)
        (putInitial sha256 bytes world) trace := by
  have start : putInitial sha256 bytes world = ⟨.uploading manifest (.init chunks), world⟩ := by
    simp [putInitial, built]
  have initial : Returning sha256 codec store manifest (putInitial sha256 bytes world) []
      (putInitial sha256 bytes world) := by
    refine ⟨rfl, fun current pool phase => ?_, ?_⟩
    · rw [start] at phase
      exact (PutPhase.uploading.inj phase).1.symm
    · simp [start, Trustworthy]
  exact (invariant_of_execute
    (Returning sha256 codec store manifest (putInitial sha256 bytes world)) initial
    (fun _ _ _ _ returning stepped => returning.of_step stepped) reached).exact

/-- A store that acknowledges every upload with the hash that `names` gives it. -/
def naming (names : List UInt8 → Option String) : Store Unit where
  get world _ := (.failed "write only", world)
  post world bytes := (.response "200 OK" true ⟨"", .ok (names bytes)⟩, world)

/-- The object `hi` is uploaded, then its manifest. -/
def greetingUpload : List PutLabel :=
  [.upload .start, .upload (.serve 0), .upload (.yield 0), .storeManifest]

theorem putInitial_greeting :
    putInitial greetingSha256 greeting () = ⟨.uploading greetingManifest
      (.init [(cid greetingSha256 [104, 105], [104, 105])]), ()⟩ := by
  simp [putInitial, chunkObject_greeting]

theorem putObject_address_iff_greeting :
    ∃ final, execute (putStep greetingCodec (naming (some ∘ cid greetingSha256)))
        (putInitial greetingSha256 greeting ()) greetingUpload = some final ∧
      final.phase = .finished (.ok (cid greetingSha256 greetingManifestBytes)) ∧
      EveryStep (putStep greetingCodec (naming (some ∘ cid greetingSha256)))
        (fun state label => ¬ Misnames greetingSha256 greetingCodec
          (naming (some ∘ cid greetingSha256)) state label)
        (putInitial greetingSha256 greeting ()) greetingUpload := by
  have stored : ∃ final, execute (putStep greetingCodec (naming (some ∘ cid greetingSha256)))
      (putInitial greetingSha256 greeting ()) greetingUpload = some final ∧
      final.phase = .finished (.ok (cid greetingSha256 greetingManifestBytes)) := by
    rw [putInitial_greeting]
    exact ⟨_, rfl, rfl⟩
  obtain ⟨final, reached, phase⟩ := stored
  refine ⟨final, reached, phase, ?_⟩
  apply (putObject_address_iff chunkObject_greeting reached).mp
  intro hash finished
  obtain rfl : cid greetingSha256 greetingManifestBytes = hash := by simpa [phase] using finished
  exact ⟨greetingManifestBytes, by decide, rfl⟩

/-- The manifest is acknowledged without a hash, and the empty string is
returned as the address of the object. -/
theorem wrong_address_returned :
    ¬ ∀ (sha256 : List UInt8 → List UInt8) (codec : Codec) (World : Type) (store : Store World)
        (bytes : Slice) (world : World) (manifest : Manifest)
        (chunks : List (String × List UInt8)) (trace : List PutLabel) (final : PutState World)
        (hash : String),
      chunkObject sha256 bytes defaultChunkSize = some (manifest, chunks) →
      execute (putStep codec store) (putInitial sha256 bytes world) trace = some final →
      final.phase = .finished (.ok hash) →
        ∃ manifestBytes, codec.toVec manifest = .ok manifestBytes ∧
          hash = cid sha256 manifestBytes := by
  intro claimed
  let names (bytes : List UInt8) : Option String :=
    if bytes = greetingManifestBytes then none else some (cid greetingSha256 bytes)
  have stored : ∃ final, execute (putStep greetingCodec (naming names))
      (putInitial greetingSha256 greeting ()) greetingUpload = some final ∧
      final.phase = .finished (.ok "") := by
    rw [putInitial_greeting]
    exact ⟨_, rfl, rfl⟩
  obtain ⟨final, reached, phase⟩ := stored
  obtain ⟨manifestBytes, encoded, address⟩ := claimed greetingSha256 greetingCodec Unit
    (naming names) greeting () greetingManifest _ greetingUpload final "" chunkObject_greeting
    reached phase
  obtain rfl : greetingManifestBytes = manifestBytes := by
    simpa [greetingCodec] using encoded
  exact absurd address (by decide)

end Address

section Order

/-- What `put_object` posts, with the acknowledgement of a chunk. -/
inductive Post
  | chunk (entry : String × List UInt8) (acknowledged : Except String String)
  | manifest (bytes : List UInt8)
  deriving DecidableEq

/-- The post that a step gets an answer to. -/
def posts (codec : Codec) (store : Store World) (state : PutState World) : PutLabel → List Post
  | .upload action =>
      match state.phase with
      | .uploading _ pool =>
          (pool.asked action).map fun entry =>
            .chunk entry (putBlob store state.world entry.2).1
      | .finished _ => []
  | .storeManifest =>
      match state.phase with
      | .uploading manifest pool =>
          match pool.result, codec.toVec manifest with
          | some (.ok _), .ok manifestBytes => [.manifest manifestBytes]
          | _, _ => []
      | .finished _ => []

/-- What is posted in a run, in order. -/
def posted (codec : Codec) (store : Store World) (start : PutState World)
    (trace : List PutLabel) : List Post :=
  emitted (putStep codec store) (posts codec store) start trace

def Post.bytes : Post → List UInt8
  | .chunk entry _ => entry.2
  | .manifest bytes => bytes

/-- The store, with the bodies of the posts that it has received. -/
def Store.recording (store : Store World) : Store (World × List (List UInt8)) where
  get world hash :=
    let answered := store.get world.1 hash
    (answered.1, answered.2, world.2)
  post world bytes :=
    let answered := store.post world.1 bytes
    (answered.1, answered.2, world.2 ++ [bytes])

/-- The store has received what was posted, and nothing else. -/
theorem world_of_posted {start final : PutState World} {trace : List PutLabel}
    (reached : execute (putStep codec store) start trace = some final) :
    final.world = (posted codec store start trace).foldl
      (fun world post => (store.post world post.bytes).2) start.world := by
  refine foldl_emitted PutState.world (fun state label next stepped => ?_) reached
  cases label with
  | upload action =>
      cases phase : state.phase with
      | finished outcome => simp [putStep, phase] at stepped
      | uploading manifest pool =>
          simp only [putStep, phase] at stepped
          obtain ⟨⟨pool', after⟩, moved, rfl⟩ := Option.map_eq_some_iff.mp stepped
          simp only [posts, phase, List.foldl_map, Post.bytes, ← uploadChunk_snd]
          exact Buffered.world_of_step moved
  | storeManifest =>
      obtain ⟨manifest, pool, phase, concluded⟩ := storeManifest_cases codec store stepped
      rcases concluded with ⟨message, failed, rfl⟩ | ⟨done, complete, concluded⟩
      · simp [posts, phase, failed]
      rcases concluded with ⟨message, encoded, rfl⟩ | ⟨manifestBytes, encoded, concluded⟩
      · simp [posts, phase, encoded]
      rcases concluded with ⟨message, after, stored, rfl⟩ | ⟨hash, after, stored, rfl⟩
      · simpa [posts, phase, complete, encoded, Post.bytes, putBlob] using
          (congrArg Prod.snd stored).symm
      · simpa [posts, phase, complete, encoded, Post.bytes, putBlob] using
          (congrArg Prod.snd stored).symm

theorem recorded_of_posted {start final : PutState (World × List (List UInt8))}
    {trace : List PutLabel}
    (reached : execute (putStep codec store.recording) start trace = some final) :
    final.world.2 = start.world.2 ++ (posted codec store.recording start trace).map Post.bytes := by
  have appended : ∀ (posts : List Post) (world : World × List (List UInt8)),
      (posts.foldl (fun world post => (store.recording.post world post.bytes).2) world).2 =
        world.2 ++ posts.map Post.bytes := by
    intro posts
    induction posts with
    | nil => simp
    | cons post rest induction =>
        intro world
        rw [List.foldl_cons, induction]
        simp [Store.recording]
  rw [world_of_posted reached, appended]

/-- The chunks, each acknowledged under its own address. -/
def acknowledged (chunks : List (String × List UInt8)) : List Post :=
  chunks.map fun entry => .chunk entry (.ok entry.1)

theorem isOk_uploadChunk (world : World) (entry : String × List UInt8) :
    (uploadChunk store world entry).1.isOk =
      decide ((putBlob store world entry.2).1 = .ok entry.1) := by
  obtain ⟨chunkCid, chunk⟩ := entry
  unfold uploadChunk
  cases answered : putBlob store world chunk with
  | mk answer after =>
      cases answer with
      | error message => simp [answered, Except.isOk, Except.toBool]
      | ok stored =>
          by_cases same : stored = chunkCid
          · simp [answered, same, Except.isOk, Except.toBool]
          · simp [answered, same, Except.isOk, Except.toBool]

/-- The acknowledgements of the chunks that were posted are those in the pool. -/
def Acknowledges (acks : List ((String × List UInt8) × Except String String))
    (pool : Buffered.Pool (String × List UInt8) Unit String) : Prop :=
  pool.failed = none →
    (acks.map fun ack => (ack.1, decide (ack.2 = .ok ack.1.1))).Perm
      (pool.answers.map fun answer => (answer.1, answer.2.isOk))

/-- What was posted up to a state: chunks while they are uploaded; at the end
also the manifest behind all chunks, or an error and no manifest. -/
def Posting (codec : Codec) (manifest : Manifest) (chunks : List (String × List UInt8))
    (history : List Post) (state : PutState World) : Prop :=
  match state.phase with
  | .uploading current pool =>
      current = manifest ∧
        Buffered.Valid false (fun _ => True) (fun _ _ _ => True) chunks pool state.world ∧
        ∃ acks, history = acks.map (fun ack => .chunk ack.1 ack.2) ∧ Acknowledges acks pool
  | .finished outcome =>
      (∃ before manifestBytes, history = before ++ [.manifest manifestBytes] ∧
          codec.toVec manifest = .ok manifestBytes ∧ before.Perm (acknowledged chunks)) ∨
        (∀ manifestBytes, .manifest manifestBytes ∉ history) ∧
          ∃ message, outcome = .err message

variable {manifest : Manifest} {chunks : List (String × List UInt8)}

/-- Once the pool has collected its results, every chunk was acknowledged under
its own address. -/
theorem perm_acknowledged {pool : Buffered.Pool (String × List UInt8) Unit String}
    {world : World} {done : List Unit}
    {acks : List ((String × List UInt8) × Except String String)}
    (valid : Buffered.Valid false (fun _ => True) (fun _ _ _ => True) chunks pool world)
    (complete : pool.result = some (.ok done)) (acknowledges : Acknowledges acks pool) :
    (acks.map fun ack => Post.chunk ack.1 ack.2).Perm (acknowledged chunks) := by
  obtain ⟨running, allOut, -⟩ := Buffered.result_eq_ok complete
  have perm := acknowledges running
  rw [Buffered.answers_of_result complete, List.map_map] at perm
  have genuine : ∀ ack ∈ acks, ack.2 = .ok ack.1.1 := by
    intro ack member
    have inPool := perm.mem_iff.mp (List.mem_map_of_mem member)
    obtain ⟨entry, -, same⟩ := List.mem_map.mp inPool
    simpa [Except.isOk, Except.toBool] using (congrArg Prod.snd same).symm
  have entries : (acks.map Prod.fst).Perm chunks := by
    have jobs : (acks.map Prod.fst).Perm (pool.out.map Prod.fst) := by
      simpa [Function.comp_def] using perm.map Prod.fst
    exact jobs.trans (allOut ▸ valid.complete running)
  have same : (acks.map fun ack => Post.chunk ack.1 ack.2) = acknowledged (acks.map Prod.fst) := by
    rw [acknowledged, List.map_map]
    exact List.map_congr_left fun ack member => by rw [Function.comp_apply, genuine ack member]
  rw [same]
  exact entries.map _

theorem serves_any (chunks : List (String × List UInt8)) :
    Buffered.Serves (uploadChunk store) chunks (fun _ => True) (fun _ _ _ => True) where
  keeps _ _ _ _ := trivial
  answers _ _ _ _ := trivial
  stable _ _ _ _ _ _ _ _ := trivial

theorem posting_of_step {history : List Post} {label : PutLabel}
    (posting : Posting codec manifest chunks history state)
    (stepped : putStep codec store state label = some next) :
    Posting codec manifest chunks (history ++ posts codec store state label) next := by
  cases phase : state.phase with
  | finished outcome => cases label <;> simp [putStep, phase] at stepped
  | uploading current pool =>
      simp only [Posting, phase] at posting
      obtain ⟨rfl, valid, acks, rfl, acknowledges⟩ := posting
      cases label with
      | upload action =>
          simp only [putStep, phase] at stepped
          obtain ⟨⟨pool', after⟩, moved, rfl⟩ := Option.map_eq_some_iff.mp stepped
          refine ⟨rfl, Buffered.valid_of_moves (serves_any chunks) valid
            (Buffered.moves_of_step moved), acks ++ (pool.asked action).map fun entry =>
              (entry, (putBlob store state.world entry.2).1), ?_, fun running => ?_⟩
          · simp [posts, phase, Function.comp_def]
          · have alive := (Buffered.jobs_of_moves (Buffered.moves_of_step moved)).1
            have answers := (Buffered.answers_of_step moved running).map
              fun answer => (answer.1, answer.2.isOk)
            refine .trans ?_ answers.symm
            rw [List.map_append, List.map_append, List.map_map, List.map_map]
            refine (acknowledges alive).append (.of_eq (List.map_congr_left fun entry _ => ?_))
            simp [isOk_uploadChunk]
      | storeManifest =>
          obtain ⟨manifest', pool', phase', concluded⟩ := storeManifest_cases codec store stepped
          obtain ⟨rfl, rfl⟩ := PutPhase.uploading.inj (phase.symm.trans phase')
          rcases concluded with ⟨message, failed, rfl⟩ | ⟨done, complete, concluded⟩
          · exact .inr ⟨by simp [posts, phase, failed], message, rfl⟩
          rcases concluded with ⟨message, encoded, rfl⟩ | ⟨manifestBytes, encoded, concluded⟩
          · exact .inr ⟨by simp [posts, phase, encoded], message, rfl⟩
          have posts : posts codec store state .storeManifest = [.manifest manifestBytes] := by
            simp [posts, phase, complete, encoded]
          have perm := perm_acknowledged valid complete acknowledges
          rw [posts]
          rcases concluded with ⟨message, after, stored, rfl⟩ | ⟨hash, after, stored, rfl⟩
          · exact .inl ⟨_, manifestBytes, rfl, encoded, perm⟩
          · exact .inl ⟨_, manifestBytes, rfl, encoded, perm⟩

theorem acknowledged_of_mem {before : List Post}
    (perm : before.Perm (acknowledged chunks)) {post : Post} (member : post ∈ before) :
    ∃ entry, post = .chunk entry (.ok entry.1) := by
  obtain ⟨entry, -, rfl⟩ := List.mem_map.mp (perm.mem_iff.mp member)
  exact ⟨entry, rfl⟩

theorem last_of_posting {history before after : List Post} {manifestBytes : List UInt8}
    (posting : Posting codec manifest chunks history state)
    (split : history = before ++ .manifest manifestBytes :: after) :
    after = [] ∧ codec.toVec manifest = .ok manifestBytes ∧
      before.Perm (acknowledged chunks) := by
  have member : .manifest manifestBytes ∈ history := by simp [split]
  cases phase : state.phase with
  | uploading current pool =>
      simp only [Posting, phase] at posting
      obtain ⟨-, -, acks, rfl, -⟩ := posting
      simp at member
  | finished outcome =>
      simp only [Posting, phase] at posting
      rcases posting with ⟨all, bytes, rfl, encoded, perm⟩ | ⟨unposted, -⟩
      · rcases List.eq_nil_or_concat after with rfl | ⟨rest, last, rfl⟩
        · obtain ⟨rfl, same⟩ := List.append_inj' split rfl
          obtain rfl : bytes = manifestBytes := by simpa using same
          exact ⟨rfl, encoded, perm⟩
        · have shape : all ++ [.manifest bytes] =
              (before ++ .manifest manifestBytes :: rest) ++ [last] := by
            simpa using split
          obtain ⟨rfl, -⟩ := List.append_inj' shape rfl
          obtain ⟨entry, absurd⟩ := acknowledged_of_mem perm
            (List.mem_append_right before List.mem_cons_self)
          cases absurd
      · exact absurd member (unposted manifestBytes)

theorem failed_of_posting {history : List Post}
    (posting : Posting codec manifest chunks history state) {entry : String × List UInt8}
    {answer : Except String String} (member : .chunk entry answer ∈ history)
    (failed : answer ≠ .ok entry.1) :
    (∀ manifestBytes, .manifest manifestBytes ∉ history) ∧
      ∀ outcome, state.phase = .finished outcome → ∃ message, outcome = .err message := by
  cases phase : state.phase with
  | uploading current pool =>
      simp only [Posting, phase] at posting
      obtain ⟨-, -, acks, rfl, -⟩ := posting
      simp
  | finished outcome =>
      simp only [Posting, phase] at posting
      rcases posting with ⟨before, bytes, rfl, -, perm⟩ | ⟨unposted, ended⟩
      · have inside : .chunk entry answer ∈ before := by simpa using member
        obtain ⟨other, same⟩ := acknowledged_of_mem perm inside
        obtain ⟨rfl, rfl⟩ := Post.chunk.inj same
        exact absurd rfl failed
      · refine ⟨unposted, fun other same => ?_⟩
        obtain rfl := PutPhase.finished.inj same
        exact ended

/-- The manifest is the last thing that is posted, behind one acknowledged
upload of each chunk; and a run with an upload that failed or was acknowledged
under another hash never posts it, and can only end in an error. -/
theorem manifest_posted_last {bytes : Slice} {world : World}
    (built : chunkObject sha256 bytes defaultChunkSize = some (manifest, chunks))
    {trace : List PutLabel} {final : PutState World}
    (reached : execute (putStep codec store) (putInitial sha256 bytes world) trace =
      some final) :
    (∀ before manifestBytes after,
        posted codec store (putInitial sha256 bytes world) trace =
          before ++ .manifest manifestBytes :: after →
        after = [] ∧ codec.toVec manifest = .ok manifestBytes ∧
          before.Perm (chunks.map fun entry => .chunk entry (.ok entry.1))) ∧
      ((∃ entry acknowledged,
          .chunk entry acknowledged ∈ posted codec store (putInitial sha256 bytes world) trace ∧
            acknowledged ≠ .ok entry.1) →
        (∀ manifestBytes,
            .manifest manifestBytes ∉ posted codec store (putInitial sha256 bytes world) trace) ∧
          ((∃ label, (putStep codec store final label).isSome = true) ∨
            ∃ message, final.phase = .finished (.err message))) ∧
      trace.length ≤ 3 * chunks.length + 1 := by
  have start : putInitial sha256 bytes world = ⟨.uploading manifest (.init chunks), world⟩ := by
    simp [putInitial, built]
  have initial : Posting codec manifest chunks [] (putInitial sha256 bytes world) := by
    rw [start]
    exact ⟨rfl, Buffered.valid_init trivial, [], rfl, fun _ => .refl _⟩
  have posting : Posting codec manifest chunks
      (posted codec store (putInitial sha256 bytes world) trace) final := by
    refine (invariant_of_execute (fun trace state =>
      execute (putStep codec store) (putInitial sha256 bytes world) trace = some state ∧
        Posting codec manifest chunks
          (posted codec store (putInitial sha256 bytes world) trace) state)
      ⟨rfl, initial⟩ ?_ reached).2
    rintro trace state label next ⟨reached, posting⟩ stepped
    refine ⟨execute_concat_eq_some.mpr ⟨state, reached, stepped⟩, ?_⟩
    rw [posted, emitted_concat reached]
    exact posting_of_step posting stepped
  refine ⟨fun before manifestBytes after => last_of_posting posting, ?_, ?_⟩
  · rintro ⟨entry, answer, member, failed⟩
    obtain ⟨unposted, ended⟩ := failed_of_posting posting member failed
    refine ⟨unposted, (putStep_isSome_or_finished codec store final).imp_right ?_⟩
    rintro ⟨outcome, phase⟩
    obtain ⟨message, rfl⟩ := ended outcome phase
    exact ⟨message, phase⟩
  · have bound := length_add_measure_le (fun _ => True) PutState.remaining trivial
      (fun _ _ _ _ _ => trivial)
      (fun _ _ _ _ stepped => putRemaining_lt (putMoves_of_step codec store stepped)) reached
    rw [start] at bound
    simp only [PutState.remaining, Buffered.remaining_init] at bound
    omega

/-- The chunk is acknowledged without a hash. -/
theorem manifest_posted_last_greeting :
    ∃ final message, execute (putStep greetingCodec (naming fun _ => none))
        (putInitial greetingSha256 greeting ()) greetingUpload = some final ∧
      final.phase = .finished (.err message) ∧
      ∀ manifestBytes, .manifest manifestBytes ∉
        posted greetingCodec (naming fun _ => none) (putInitial greetingSha256 greeting ())
          greetingUpload := by
  have stored : ∃ final message, execute (putStep greetingCodec (naming fun _ => none))
      (putInitial greetingSha256 greeting ()) greetingUpload = some final ∧
      final.phase = .finished (.err message) := by
    rw [putInitial_greeting]
    exact ⟨_, _, rfl, rfl⟩
  obtain ⟨final, message, reached, phase⟩ := stored
  obtain ⟨-, failed, -⟩ := manifest_posted_last chunkObject_greeting reached
  have history : .chunk (cid greetingSha256 [104, 105], [104, 105]) (.ok "") ∈
      posted greetingCodec (naming fun _ => none) (putInitial greetingSha256 greeting ())
        greetingUpload := by
    rw [putInitial_greeting]
    decide
  exact ⟨final, message, reached, phase, (failed ⟨_, _, history, by decide⟩).1⟩

end Order

end CeRs.Object
