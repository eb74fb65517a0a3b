import CeRs.Object.RoundTrip

/-!
# Many clients of one store

Any number of `put_object` and `get_object` calls run at once against one store
that keeps bytes under their address.  A step starts a call or lets one call
take its next step, so requests of all calls reach the store in any order.  Each
call has an allocator of its own.
-/

namespace CeRs.Object

open Transition
open Memory (Allocator)

variable (memory : Nat → Allocator) (sha256 : List UInt8 → List UInt8) (codec : Codec)

/-- A call, as far as it has come. -/
inductive Call
  | putting (bytes : Slice) (phase : PutPhase)
  | getting (hash : String) (phase : GetPhase) (fetched : List (List UInt8))

/-- The calls in the order in which they were started, and the shared store. -/
structure Clients where
  calls : List Call
  world : Blobs

inductive ClientLabel
  | put (bytes : Slice)
  | get (hash : String)
  | uploads (index : Nat) (label : PutLabel)
  | downloads (index : Nat) (label : GetLabel)

/-- Memory for every call. -/
def plenty : Nat → Allocator := fun _ => .ample

def Clients.initial (blobs : Blobs) : Clients :=
  ⟨[], blobs⟩

def Clients.step (state : Clients) : ClientLabel → Option Clients
  | .put bytes =>
      let started := putInitial sha256 bytes state.world
      some ⟨state.calls ++ [.putting bytes started.phase], started.world⟩
  | .get hash =>
      let started := getInitial state.world
      some ⟨state.calls ++ [.getting hash started.phase started.fetched], started.world⟩
  | .uploads index label =>
      match state.calls[index]? with
      | some (.putting bytes phase) =>
          (putStep codec (honest sha256) ⟨phase, state.world⟩ label).map fun next =>
            ⟨state.calls.set index (.putting bytes next.phase), next.world⟩
      | _ => none
  | .downloads index label =>
      match state.calls[index]? with
      | some (.getting hash phase fetched) =>
          (getStep (memory index) sha256 codec (honest sha256) hash ⟨phase, state.world, fetched⟩
              label).map fun next =>
            ⟨state.calls.set index (.getting hash next.phase next.fetched), next.world⟩
      | _ => none

/-- Everything a step can do. -/
inductive ClientMoves (state : Clients) : ClientLabel → Clients → Prop
  | putStarted (bytes : Slice) :
      ClientMoves state (.put bytes)
        ⟨state.calls ++ [.putting bytes (putInitial sha256 bytes state.world).phase],
          (putInitial sha256 bytes state.world).world⟩
  | getStarted (hash : String) :
      ClientMoves state (.get hash)
        ⟨state.calls ++ [.getting hash .resolving []], state.world⟩
  | uploaded (index : Nat) (label : PutLabel) (bytes : Slice) (phase : PutPhase)
      (next : PutState Blobs) (call : state.calls[index]? = some (.putting bytes phase))
      (moves : PutMoves codec (honest sha256) ⟨phase, state.world⟩ next) :
      ClientMoves state (.uploads index label)
        ⟨state.calls.set index (.putting bytes next.phase), next.world⟩
  | downloaded (index : Nat) (label : GetLabel) (hash : String) (phase : GetPhase)
      (fetched : List (List UInt8)) (next : GetState Blobs)
      (call : state.calls[index]? = some (.getting hash phase fetched))
      (moved : getStep (memory index) sha256 codec (honest sha256) hash
        ⟨phase, state.world, fetched⟩ label = some next) :
      ClientMoves state (.downloads index label)
        ⟨state.calls.set index (.getting hash next.phase next.fetched), next.world⟩

variable {memory sha256 codec} {state next : Clients} {label : ClientLabel}

theorem clientMoves_of_step (stepped : Clients.step memory sha256 codec state label = some next) :
    ClientMoves memory sha256 codec state label next := by
  cases label with
  | put bytes =>
      exact Option.some.inj stepped ▸ .putStarted bytes
  | get hash =>
      exact Option.some.inj stepped ▸ .getStarted hash
  | uploads index label =>
      simp only [Clients.step] at stepped
      split at stepped
      case h_1 bytes phase call =>
          obtain ⟨after, moved, rfl⟩ := Option.map_eq_some_iff.mp stepped
          exact .uploaded index label bytes phase after call (putMoves_of_step codec _ moved)
      case h_2 => simp at stepped
  | downloads index label =>
      simp only [Clients.step] at stepped
      split at stepped
      case h_1 hash phase fetched call =>
          obtain ⟨after, moved, rfl⟩ := Option.map_eq_some_iff.mp stepped
          exact .downloaded index label hash phase fetched after call moved
      case h_2 => simp at stepped

/-- What is kept of some byte strings stays kept. -/
def Grows (sha256 : List UInt8 → List UInt8) (stored : Set (List UInt8))
    (before after : Blobs) : Prop :=
  ∀ bytes ∈ stored, Kept sha256 before bytes → Kept sha256 after bytes

theorem Grows.refl (stored : Set (List UInt8)) (blobs : Blobs) :
    Grows sha256 stored blobs blobs :=
  fun _ _ kept => kept

theorem grows_update {stored : Set (List UInt8)} (free : CollisionFree sha256 stored)
    (blobs : Blobs) {bytes : List UInt8} (member : bytes ∈ stored) :
    Grows sha256 stored blobs (Function.update blobs (cid sha256 bytes) (some bytes)) :=
  fun _ own kept => kept.update free own member

/-- The object can be stored: its manifest is encoded so that it can be decoded
again, and its chunks and its manifest are among the given byte strings. -/
structure Encodes (sha256 : List UInt8 → List UInt8) (codec : Codec)
    (stored : Set (List UInt8)) (bytes : Slice) (manifest : Manifest)
    (chunks : List (List UInt8)) (manifestBytes : List UInt8) : Prop where
  built : chunkObject sha256 bytes defaultChunkSize = some (manifest, jobsOf sha256 chunks)
  encoded : codec.toVec manifest = .ok manifestBytes
  decoded : codec.fromSlice manifestBytes = .ok manifest
  root : manifestBytes ∈ stored
  members : ∀ chunk ∈ chunks, chunk ∈ stored

def Storable (sha256 : List UInt8 → List UInt8) (codec : Codec) (stored : Set (List UInt8))
    (bytes : Slice) : Prop :=
  ∃ manifest chunks manifestBytes,
    Encodes sha256 codec stored bytes manifest chunks manifestBytes

section Steps

variable {stored : Set (List UInt8)} {bytes : Slice} {manifest : Manifest}
  {chunks : List (List UInt8)} {manifestBytes : List UInt8}

theorem Encodes.mem (encodes : Encodes sha256 codec stored bytes manifest chunks manifestBytes)
    {content : List UInt8} (part : content = manifestBytes ∨ content ∈ chunks) :
    content ∈ stored := by
  rcases part with rfl | member
  · exact encodes.root
  · exact encodes.members content member

theorem Encodes.free (encodes : Encodes sha256 codec stored bytes manifest chunks manifestBytes)
    (free : CollisionFree sha256 stored) :
    CollisionFree sha256 {other | other = manifestBytes ∨ other ∈ chunks} :=
  free.mono fun _ part => encodes.mem part

theorem Encodes.putting
    (encodes : Encodes sha256 codec stored bytes manifest chunks manifestBytes)
    (blobs : Blobs) :
    Putting sha256 manifest chunks manifestBytes (putInitial sha256 bytes blobs) := by
  have start : putInitial sha256 bytes blobs =
      ⟨.uploading manifest (.init (jobsOf sha256 chunks)), blobs⟩ := by
    simp [putInitial, encodes.built]
  rw [start]
  exact ⟨rfl, Buffered.valid_init trivial⟩

/-- A put whose manifest has been stored has left the object in the store. -/
theorem Encodes.isStored
    (encodes : Encodes sha256 codec stored bytes manifest chunks manifestBytes)
    {blobs : Blobs} (root : Kept sha256 blobs manifestBytes)
    (kept : ∀ chunk ∈ chunks, Kept sha256 blobs chunk) :
    Stored sha256 codec blobs manifest chunks manifestBytes ∧ chunks.flatten = bytes.bytes := by
  obtain ⟨isV1, total, listed, -, whole⟩ := chunkObject_eq_some sha256 encodes.built
  have same : (jobsOf sha256 chunks).map Prod.snd = chunks := by
    simp [jobsOf, Function.comp_def]
  rw [same] at whole
  refine ⟨⟨kept, root, encodes.decoded, isV1, ?_, by rw [whole, total], ?_⟩, whole⟩
  · rw [listed]
    simp [jobsOf, Function.comp_def]
  · rw [whole]
    exact bytes.inMemory

theorem world_of_putMoves {state next : PutState Blobs}
    (encodes : Encodes sha256 codec stored bytes manifest chunks manifestBytes)
    (putting : Putting sha256 manifest chunks manifestBytes state)
    (moves : PutMoves codec (honest sha256) state next) :
    next.world = state.world ∨
      ∃ content, (content = manifestBytes ∨ content ∈ chunks) ∧
        next.world = Function.update state.world (cid sha256 content) (some content) := by
  cases moves with
  | uploaded current pool pool' after phase moves =>
      simp only [Putting, phase] at putting
      cases moves with
      | served before rest job running inFlight =>
          have present : (job, none) ∈ pool.inFlight := by simp [inFlight]
          have own := putting.2.members job (Buffered.mem_jobs_of_inFlight present)
          obtain ⟨chunk, member, rfl⟩ := List.mem_map.mp own
          exact .inr ⟨chunk, .inr member, by rw [uploadChunk_honest]⟩
      | started | yielded | failed => exact .inl rfl
  | uploadFailed | encodingFailed => exact .inl rfl
  | manifestFailed current pool other message done after phase complete encoded answered =>
      simp at answered
  | manifestStored current pool other hash done after phase complete encoded answered =>
      simp only [Putting, phase] at putting
      obtain ⟨rfl, -⟩ := putting
      obtain rfl := Except.ok.inj (encodes.encoded.symm.trans encoded)
      obtain ⟨-, rfl⟩ := Prod.mk.inj answered
      exact .inr ⟨manifestBytes, .inl rfl, rfl⟩

theorem grows_of_putMoves {state next : PutState Blobs} (free : CollisionFree sha256 stored)
    (encodes : Encodes sha256 codec stored bytes manifest chunks manifestBytes)
    (putting : Putting sha256 manifest chunks manifestBytes state)
    (moves : PutMoves codec (honest sha256) state next) :
    Grows sha256 stored state.world next.world := by
  rcases world_of_putMoves encodes putting moves with same | ⟨content, part, added⟩
  · rw [same]
    exact Grows.refl _ _
  · rw [added]
    exact grows_update free _ (encodes.mem part)

/-- What another call adds to the store does not disturb a put. -/
theorem putting_of_grows {phase : PutPhase} {before after : Blobs}
    (encodes : Encodes sha256 codec stored bytes manifest chunks manifestBytes)
    (putting : Putting sha256 manifest chunks manifestBytes ⟨phase, before⟩)
    (grows : Grows sha256 stored before after) :
    Putting sha256 manifest chunks manifestBytes ⟨phase, after⟩ := by
  cases phase with
  | uploading current pool =>
      refine ⟨putting.1, putting.2.of_good trivial fun job member answer uploaded => ?_⟩
      obtain ⟨chunk, own, rfl⟩ := List.mem_map.mp member
      exact ⟨uploaded.1, grows chunk (encodes.members chunk own) uploaded.2⟩
  | finished outcome =>
      cases outcome with
      | ok hash =>
          obtain ⟨same, root, kept⟩ := putting
          exact ⟨same, grows _ encodes.root root,
            fun chunk member => grows chunk (encodes.members chunk member) (kept chunk member)⟩
      | err message => exact putting
      | panic => exact putting

variable (sha256) in
@[simp] theorem getBlob_honest_world (blobs : Blobs) (hash : String) :
    (getBlob (honest sha256) blobs hash).2 = blobs := by
  cases found : blobs hash <;> simp [getBlob, honest, found]

@[simp] theorem fetchChunk_honest_world (blobs : Blobs) (hash : String) :
    (fetchChunk sha256 (honest sha256) blobs hash).2 = blobs := by
  have same := getBlob_honest_world sha256 blobs hash
  rw [fetchChunk]
  split
  case h_1 message after answer => simpa [answer] using same
  case h_2 chunk after answer =>
      rw [answer] at same
      dsimp only
      split <;> exact same

theorem world_of_getStep {hash : String} {state next : GetState Blobs} {label : GetLabel}
    (stepped : getStep allocator sha256 codec (honest sha256) hash state label = some next) :
    next.world = state.world := by
  cases label with
  | resolve =>
      have same := getBlob_honest_world sha256 state.world hash
      simp only [getStep] at stepped
      split at stepped
      case h_2 => simp at stepped
      case h_1 =>
          split at stepped
          case h_1 message after answer =>
              rw [answer] at same
              exact Option.some.inj stepped ▸ same
          case h_2 received after answer =>
              rw [answer] at same
              split at stepped
              case h_1 => exact Option.some.inj stepped ▸ same
              case h_2 =>
                  split at stepped
                  case isTrue => exact Option.some.inj stepped ▸ same
                  case isFalse => exact Option.some.inj stepped ▸ same
  | fetch action =>
      simp only [getStep] at stepped
      split at stepped
      case h_2 => simp at stepped
      case h_1 current pool phase =>
          obtain ⟨⟨pool', after⟩, moved, rfl⟩ := Option.map_eq_some_iff.mp stepped
          cases Buffered.moves_of_step moved with
          | served before rest job running inFlight => exact fetchChunk_honest_world _ _
          | started | yielded | failed => rfl
  | join =>
      obtain ⟨current, pool, -, ⟨message, -, rfl⟩ | ⟨parts, -, rfl⟩⟩ :=
        join_cases allocator sha256 codec _ stepped
      · rfl
      · rfl

/-- What the calls rely on does not change for a get when the store changes. -/
theorem getting_of_world {phase : GetPhase} {fetched : List (List UInt8)} {before after : Blobs}
    (getting : Getting sha256 before manifest chunks ⟨phase, before, fetched⟩) :
    Getting sha256 after manifest chunks ⟨phase, after, fetched⟩ := by
  cases phase with
  | resolving => rfl
  | fetching current pool =>
      exact ⟨getting.1, getting.2.of_good rfl fun _ _ _ answer => answer⟩
  | finished outcome =>
      cases outcome with
      | ok out => exact getting
      | err message => exact getting
      | panic => exact getting

theorem Stored.of_grows {before after : Blobs}
    (encodes : Encodes sha256 codec stored bytes manifest chunks manifestBytes)
    (object : Stored sha256 codec before manifest chunks manifestBytes)
    (grows : Grows sha256 stored before after) :
    Stored sha256 codec after manifest chunks manifestBytes :=
  { object with
    kept := fun chunk member => grows chunk (encodes.members chunk member)
      (object.kept chunk member)
    root := grows _ encodes.root object.root }

/-- The call is on its way to `Ok`, or has got there. -/
def OnCourse (sha256 : List UInt8 → List UInt8) (codec : Codec) (stored : Set (List UInt8))
    (world : Blobs) : Call → Prop
  | .putting bytes phase =>
      ∃ manifest chunks manifestBytes,
        Encodes sha256 codec stored bytes manifest chunks manifestBytes ∧
          Putting sha256 manifest chunks manifestBytes ⟨phase, world⟩
  | .getting _ _ _ => True

theorem OnCourse.of_grows {before after : Blobs} {call : Call}
    (onCourse : OnCourse sha256 codec stored before call)
    (grows : Grows sha256 stored before after) : OnCourse sha256 codec stored after call := by
  cases call with
  | putting bytes phase =>
      obtain ⟨manifest, chunks, manifestBytes, encodes, putting⟩ := onCourse
      exact ⟨manifest, chunks, manifestBytes, encodes, putting_of_grows encodes putting grows⟩
  | getting => trivial

/-- Every put is on its way to `Ok`. -/
def AllOnCourse (sha256 : List UInt8 → List UInt8) (codec : Codec) (stored : Set (List UInt8))
    (state : Clients) : Prop :=
  ∀ call ∈ state.calls, OnCourse sha256 codec stored state.world call

/-- Whatever call takes the next step, the store only grows, and every put stays
on its way. -/
theorem onCourse_of_moves (free : CollisionFree sha256 stored)
    (storable : ∀ bytes, label = .put bytes → Storable sha256 codec stored bytes)
    (onCourse : AllOnCourse sha256 codec stored state)
    (moves : ClientMoves memory sha256 codec state label next) :
    AllOnCourse sha256 codec stored next ∧ Grows sha256 stored state.world next.world := by
  cases moves with
  | putStarted bytes =>
      obtain ⟨manifest, chunks, manifestBytes, encodes⟩ := storable bytes rfl
      have start : putInitial sha256 bytes state.world =
          ⟨.uploading manifest (.init (jobsOf sha256 chunks)), state.world⟩ := by
        simp [putInitial, encodes.built]
      have putting := encodes.putting state.world
      rw [start] at putting ⊢
      refine ⟨fun call member => ?_, Grows.refl _ _⟩
      rcases List.mem_append.mp member with earlier | new
      · exact onCourse call earlier
      · obtain rfl := List.mem_singleton.mp new
        exact ⟨manifest, chunks, manifestBytes, encodes, putting⟩
  | getStarted hash =>
      refine ⟨fun call member => ?_, Grows.refl _ _⟩
      rcases List.mem_append.mp member with earlier | new
      · exact onCourse call earlier
      · obtain rfl := List.mem_singleton.mp new
        trivial
  | uploaded index label bytes phase after call moves =>
      obtain ⟨manifest, chunks, manifestBytes, encodes, putting⟩ :=
        onCourse _ (List.mem_of_getElem? call)
      have grows := grows_of_putMoves free encodes putting moves
      refine ⟨fun other member => ?_, grows⟩
      rcases List.mem_or_eq_of_mem_set member with earlier | rfl
      · exact (onCourse other earlier).of_grows grows
      · exact ⟨manifest, chunks, manifestBytes, encodes,
          putting_of_moves (encodes.free free) encodes.encoded putting moves⟩
  | downloaded index label hash phase fetched after call moved =>
      have same : after.world = state.world := world_of_getStep moved
      refine ⟨fun other member => ?_, fun _ _ kept => by rwa [same]⟩
      rw [same]
      rcases List.mem_or_eq_of_mem_set member with earlier | rfl
      · exact onCourse other earlier
      · trivial

end Steps

end CeRs.Object
