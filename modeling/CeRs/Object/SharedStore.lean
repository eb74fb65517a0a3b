import CeRs.Object.Clients
import Mathlib.Data.List.Nodup

/-!
# Objects in a shared store

Whatever other calls run at the same time, and in whatever order the store
answers them all: a put ends in `Ok` after so many steps of its own, an object
that has been put can be read from then on, and two puts return the same
address exactly if they store the same bytes.
-/

namespace CeRs.Object

open Transition
open Memory (Allocator)

variable {memory : Nat → Allocator} {sha256 : List UInt8 → List UInt8} {codec : Codec}
  {stored : Set (List UInt8)} {state next start final : Clients} {label : ClientLabel}
  {trace : List ClientLabel} {blobs : Blobs} {bytes : Slice} {manifest : Manifest}
  {chunks : List (List UInt8)} {manifestBytes : List UInt8}

/-- The step is one of the call's own. -/
def ClientLabel.acts (index : Nat) : ClientLabel → Bool
  | .uploads other _ | .downloads other _ => other == index
  | _ => false

/-- What a label puts can be stored. -/
def ClientLabel.Storable (sha256 : List UInt8 → List UInt8) (codec : Codec)
    (stored : Set (List UInt8)) (label : ClientLabel) : Prop :=
  ∀ bytes, label = .put bytes → Object.Storable sha256 codec stored bytes

theorem onCourse_of_execute (free : CollisionFree sha256 stored)
    (storable : ∀ label ∈ trace, label.Storable sha256 codec stored)
    (onCourse : AllOnCourse sha256 codec stored start)
    (reached : execute (Clients.step memory sha256 codec) start trace = some final) :
    AllOnCourse sha256 codec stored final ∧ Grows sha256 stored start.world final.world := by
  refine invariant_of_everyStep _
    (fun _ state => AllOnCourse sha256 codec stored state ∧
      Grows sha256 stored start.world state.world) ⟨onCourse, Grows.refl _ _⟩ ?_
    (everyStep_of_forall_mem storable start) reached
  rintro trace state label next ⟨before, grown⟩ admitted stepped
  obtain ⟨after, grows⟩ := onCourse_of_moves free admitted before (clientMoves_of_step stepped)
  exact ⟨after, fun bytes member kept => grows bytes member (grown bytes member kept)⟩

theorem allOnCourse_initial (blobs : Blobs) :
    AllOnCourse sha256 codec stored (Clients.initial blobs) := by
  intro call member
  simp [Clients.initial] at member

theorem putInitial_world (bytes : Slice) (blobs : Blobs) :
    (putInitial sha256 bytes blobs).world = blobs := by
  rw [putInitial]
  split <;> rfl

/-- What a step does to a call that has been started: it is the call's own step,
or the call is as it was. -/
theorem call_of_moves {index : Nat} (started : index < state.calls.length)
    (moves : ClientMoves memory sha256 codec state label next) (apart : label.acts index = false) :
    next.calls[index]? = state.calls[index]? := by
  cases moves with
  | putStarted | getStarted => exact List.getElem?_append_left started
  | uploaded other | downloaded other =>
      exact List.getElem?_set_ne (by simpa [ClientLabel.acts] using apart)

/-- What holds of a put while calls run: it is on its way, with so many steps of
its own behind it. -/
structure PutTurns (sha256 : List UInt8 → List UInt8) (codec : Codec)
    (stored : Set (List UInt8)) (bytes : Slice) (manifest : Manifest)
    (chunks : List (List UInt8)) (manifestBytes : List UInt8) (index : Nat)
    (trace : List ClientLabel) (state : Clients) : Prop where
  onCourse : AllOnCourse sha256 codec stored state
  call : ∃ phase, state.calls[index]? = some (.putting bytes phase) ∧
    Putting sha256 manifest chunks manifestBytes ⟨phase, state.world⟩ ∧
    trace.countP (ClientLabel.acts index) +
      PutState.remaining (⟨phase, state.world⟩ : PutState Blobs) ≤ 3 * chunks.length + 1

theorem PutTurns.of_moves {index : Nat} (free : CollisionFree sha256 stored)
    (encodes : Encodes sha256 codec stored bytes manifest chunks manifestBytes)
    (turns : PutTurns sha256 codec stored bytes manifest chunks manifestBytes index trace state)
    (storable : label.Storable sha256 codec stored)
    (moves : ClientMoves memory sha256 codec state label next) :
    PutTurns sha256 codec stored bytes manifest chunks manifestBytes index (trace ++ [label])
      next := by
  obtain ⟨onCourse, phase, call, putting, bound⟩ := turns
  obtain ⟨after, grows⟩ := onCourse_of_moves free storable onCourse moves
  have started : index < state.calls.length := (List.getElem?_eq_some_iff.mp call).1
  refine ⟨after, ?_⟩
  cases own : label.acts index with
  | false =>
      refine ⟨phase, (call_of_moves started moves own).trans call,
        putting_of_grows encodes putting grows, ?_⟩
      have same : PutState.remaining (⟨phase, next.world⟩ : PutState Blobs) =
          PutState.remaining (⟨phase, state.world⟩ : PutState Blobs) := rfl
      simpa [List.countP_append, own, same] using bound
  | true =>
      cases moves with
      | putStarted | getStarted => simp [ClientLabel.acts] at own
      | uploaded other label bytes' phase' after' call' moves =>
          obtain rfl : other = index := by simpa [ClientLabel.acts] using own
          obtain ⟨rfl, rfl⟩ := Call.putting.inj (Option.some.inj (call'.symm.trans call))
          have lower : PutState.remaining (⟨after'.phase, after'.world⟩ : PutState Blobs) <
              PutState.remaining (⟨phase', state.world⟩ : PutState Blobs) :=
            putRemaining_lt moves
          refine ⟨after'.phase, by simp [started],
            putting_of_moves (encodes.free free) encodes.encoded putting moves, ?_⟩
          simp only [List.countP_append, List.countP_singleton, own, if_true]
          omega
      | downloaded other label hash phase' fetched after' call' moved =>
          obtain rfl : other = index := by simpa [ClientLabel.acts] using own
          simp [call] at call'

/-- What holds of a get of a stored object while calls run. -/
structure GetTurns (sha256 : List UInt8 → List UInt8) (codec : Codec)
    (stored : Set (List UInt8)) (manifest : Manifest) (chunks : List (List UInt8))
    (manifestBytes : List UInt8) (index : Nat) (trace : List ClientLabel)
    (state : Clients) : Prop where
  onCourse : AllOnCourse sha256 codec stored state
  object : Stored sha256 codec state.world manifest chunks manifestBytes
  call : ∃ phase fetched,
    state.calls[index]? = some (.getting (cid sha256 manifestBytes) phase fetched) ∧
    Getting sha256 state.world manifest chunks ⟨phase, state.world, fetched⟩ ∧
    trace.countP (ClientLabel.acts index) +
      GetState.remaining chunks.length (⟨phase, state.world, fetched⟩ : GetState Blobs) ≤
        3 * chunks.length + 2

theorem GetTurns.of_moves {index : Nat} (free : CollisionFree sha256 stored)
    (encodes : Encodes sha256 codec stored bytes manifest chunks manifestBytes)
    (turns : GetTurns sha256 codec stored manifest chunks manifestBytes index trace state)
    (granted : (memory index).Grants chunks.flatten.length)
    (storable : label.Storable sha256 codec stored)
    (moves : ClientMoves memory sha256 codec state label next) :
    GetTurns sha256 codec stored manifest chunks manifestBytes index (trace ++ [label])
      next := by
  obtain ⟨onCourse, object, phase, fetched, call, getting, bound⟩ := turns
  obtain ⟨after, grows⟩ := onCourse_of_moves free storable onCourse moves
  have started : index < state.calls.length := (List.getElem?_eq_some_iff.mp call).1
  refine ⟨after, object.of_grows encodes grows, ?_⟩
  cases own : label.acts index with
  | false =>
      refine ⟨phase, fetched, (call_of_moves started moves own).trans call,
        getting_of_world getting, ?_⟩
      have same : GetState.remaining chunks.length
          (⟨phase, next.world, fetched⟩ : GetState Blobs) =
            GetState.remaining chunks.length (⟨phase, state.world, fetched⟩ : GetState Blobs) :=
        rfl
      simpa [List.countP_append, own, same] using bound
  | true =>
      cases moves with
      | putStarted | getStarted => simp [ClientLabel.acts] at own
      | uploaded other label bytes' phase' after' call' moves =>
          obtain rfl : other = index := by simpa [ClientLabel.acts] using own
          simp [call] at call'
      | downloaded other label hash phase' fetched' after' call' moved =>
          obtain rfl : other = index := by simpa [ClientLabel.acts] using own
          obtain ⟨rfl, rfl, rfl⟩ := Call.getting.inj (Option.some.inj (call'.symm.trans call))
          have moves := getMoves_of_step (memory _) sha256 codec _ moved
          have world : after'.world = state.world := world_of_getStep moved
          have goes := getting_of_moves object granted getting moves
          have lower : GetState.remaining chunks.length
              (⟨after'.phase, after'.world, after'.fetched⟩ : GetState Blobs) <
                GetState.remaining chunks.length
                  (⟨phase', state.world, fetched'⟩ : GetState Blobs) :=
            getRemaining_lt sha256 moves fun _ _ => chunks_of_stored object getting
          refine ⟨after'.phase, after'.fetched, by simp [started], ?_, ?_⟩
          · rw [← world] at goes
            exact goes
          · simp only [List.countP_append, List.countP_singleton, own, if_true]
            omega

/-- The store keeps the object under the address. -/
def Holds (sha256 : List UInt8 → List UInt8) (codec : Codec) (blobs : Blobs) (hash : String)
    (bytes : Slice) : Prop :=
  ∃ manifest chunks manifestBytes, Stored sha256 codec blobs manifest chunks manifestBytes ∧
    hash = cid sha256 manifestBytes ∧ chunks.flatten = bytes.bytes

theorem chunks_length_of_encodes
    (encodes : Encodes sha256 codec stored bytes manifest chunks manifestBytes) :
    chunks.length = (chunksOf defaultChunkSize bytes.bytes).length := by
  have built := encodes.built
  rw [chunkObject, if_neg (by decide)] at built
  have equal := congrArg List.length (Prod.mk.inj (Option.some.inj built)).2
  simpa [jobsOf] using equal.symm

theorem holds_of_putting {hash : String}
    (encodes : Encodes sha256 codec stored bytes manifest chunks manifestBytes)
    (putting : Putting sha256 manifest chunks manifestBytes ⟨.finished (.ok hash), blobs⟩) :
    hash = cid sha256 manifestBytes ∧
      Stored sha256 codec blobs manifest chunks manifestBytes ∧
      chunks.flatten = bytes.bytes := by
  obtain ⟨same, root, kept⟩ := putting
  exact ⟨same, encodes.isStored root kept⟩

section Greeting

/-- The object `hi` is put twice at once. -/
def greetingPuts : List ClientLabel :=
  [.put greeting, .put greeting, .uploads 0 (.upload .start), .uploads 1 (.upload .start),
    .uploads 1 (.upload (.serve 0)), .uploads 0 (.upload (.serve 0)),
    .uploads 0 (.upload (.yield 0)), .uploads 0 .storeManifest,
    .uploads 1 (.upload (.yield 0)), .uploads 1 .storeManifest]

def greetingHash : String := cid greetingSha256 greetingManifestBytes

/-- What the store keeps of it. -/
def greetingBlobs : Blobs :=
  Function.update (Function.update (Function.update (Function.update noBlobs
    (cid greetingSha256 [104, 105]) (some [104, 105])) (cid greetingSha256 [104, 105])
    (some [104, 105])) greetingHash (some greetingManifestBytes)) greetingHash
    (some greetingManifestBytes)

def greetingClients : Clients :=
  ⟨[.putting greeting (.finished (.ok greetingHash)),
    .putting greeting (.finished (.ok greetingHash))], greetingBlobs⟩

/-- It is read while it is put once more. -/
def greetingReads : List ClientLabel :=
  [.put greeting, .downloads 2 .resolve, .downloads 2 (.fetch .start),
    .uploads 3 (.upload .start), .downloads 2 (.fetch (.serve 0)),
    .downloads 2 (.fetch (.yield 0)), .downloads 2 .join]

theorem encodes_greeting :
    Encodes greetingSha256 greetingCodec greetingStored greeting greetingManifest [[104, 105]]
      greetingManifestBytes where
  built := chunkObject_greeting
  encoded := by decide
  decoded := by decide
  root := .inl rfl
  members chunk member := .inr (List.mem_singleton.mp member)

theorem storable_greeting (label : ClientLabel) (puts : ∀ bytes, label = .put bytes →
    bytes = greeting) : label.Storable greetingSha256 greetingCodec greetingStored := by
  intro bytes put
  rw [puts bytes put]
  exact ⟨_, _, _, encodes_greeting⟩

theorem step_put_greeting (calls : List Call) (blobs : Blobs) :
    Clients.step plenty greetingSha256 greetingCodec ⟨calls, blobs⟩ (.put greeting) =
      some ⟨calls ++ [.putting greeting
        (.uploading greetingManifest (.init (jobsOf greetingSha256 [[104, 105]])))], blobs⟩ := by
  have start : putInitial greetingSha256 greeting blobs =
      ⟨.uploading greetingManifest (.init (jobsOf greetingSha256 [[104, 105]])), blobs⟩ := by
    simp [putInitial, chunkObject_greeting, jobsOf]
  simp [Clients.step, start]

theorem execute_greetingPuts :
    execute (Clients.step plenty greetingSha256 greetingCodec) (Clients.initial noBlobs)
        greetingPuts =
      some greetingClients := by
  rw [greetingPuts, Clients.initial, execute_cons, step_put_greeting, Option.bind_some,
    execute_cons, step_put_greeting, Option.bind_some]
  rfl

end Greeting

/-- A put takes so many steps of its own, is never stuck before it returns, and
returns the address under which the store then keeps the object, whatever other
calls run meanwhile. -/
theorem put_among_clients (free : CollisionFree sha256 stored)
    {before after : List ClientLabel} {middle : Clients}
    (storable : ∀ label ∈ before ++ .put bytes :: after, label.Storable sha256 codec stored)
    (reached : execute (Clients.step memory sha256 codec) (Clients.initial blobs) before =
      some middle)
    (continued : execute (Clients.step memory sha256 codec) middle (.put bytes :: after) =
      some final) :
    after.countP (ClientLabel.acts middle.calls.length) ≤
        3 * (chunksOf defaultChunkSize bytes.bytes).length + 1 ∧
      ∃ phase, final.calls[middle.calls.length]? = some (.putting bytes phase) ∧
        ((∃ label, (Clients.step memory sha256 codec final
            (.uploads middle.calls.length label)).isSome = true) ∨
          ∃ hash, phase = .finished (.ok hash) ∧
            Holds sha256 codec final.world hash bytes) := by
  rw [List.forall_mem_append, List.forall_mem_cons] at storable
  obtain ⟨earlier, now, later⟩ := storable
  obtain ⟨manifest, chunks, manifestBytes, encodes⟩ := now bytes rfl
  obtain ⟨started, stepped, continued⟩ := Option.bind_eq_some_iff.mp continued
  have onCourse := (onCourse_of_execute free earlier (allOnCourse_initial blobs) reached).1
  have begun : PutTurns sha256 codec stored bytes manifest chunks manifestBytes
      middle.calls.length [] started := by
    obtain ⟨still, -⟩ := onCourse_of_moves free now onCourse (clientMoves_of_step stepped)
    refine ⟨still, ?_⟩
    obtain rfl := Option.some.inj stepped
    refine ⟨_, List.getElem?_concat_length, encodes.putting middle.world, ?_⟩
    have start : putInitial sha256 bytes middle.world =
        ⟨.uploading manifest (.init (jobsOf sha256 chunks)), middle.world⟩ := by
      simp [putInitial, encodes.built]
    simp [start, PutState.remaining, Buffered.remaining_init, jobsOf]
  obtain ⟨-, phase, call, putting, bound⟩ := invariant_of_everyStep _
    (PutTurns sha256 codec stored bytes manifest chunks manifestBytes middle.calls.length) begun
    (fun _ _ _ _ turns admitted moved =>
      turns.of_moves free encodes admitted (clientMoves_of_step moved))
    (everyStep_of_forall_mem later started) continued
  refine ⟨?_, phase, call, ?_⟩
  · rw [← chunks_length_of_encodes encodes]
    omega
  · rcases exists_putStep putting with ⟨label, enabled⟩ | finished
    · exact .inl ⟨label, by simpa [Clients.step, call] using enabled⟩
    · obtain rfl : phase = .finished (.ok (cid sha256 manifestBytes)) := finished
      obtain ⟨same, object, whole⟩ := holds_of_putting encodes putting
      exact .inr ⟨_, rfl, manifest, chunks, manifestBytes, object, same, whole⟩

theorem put_among_clients_greeting :
    Holds greetingSha256 greetingCodec greetingBlobs greetingHash greeting := by
  have nothing : execute (Clients.step plenty greetingSha256 greetingCodec)
      (Clients.initial noBlobs) [] =
      some (Clients.initial noBlobs) := rfl
  obtain ⟨-, phase, call, outcome⟩ := put_among_clients collisionFree_greeting
    (fun label member => storable_greeting label fun bytes put => by
      subst put
      simpa [greetingPuts] using member)
    nothing execute_greetingPuts
  obtain ⟨-, rfl⟩ := Call.putting.inj (Option.some.inj call)
  rcases outcome with ⟨label, enabled⟩ | ⟨hash, equal, holds⟩
  · cases label <;> simp [Clients.step, Clients.initial, greetingClients, putStep] at enabled
  · obtain rfl := Outcome.ok.inj (PutPhase.finished.inj equal)
    exact holds

/-- An object that has been put can be read: a get that is started after the put
has returned, and that is granted the memory for it, takes so many steps of its
own, is never stuck before it returns, and returns the bytes that were put,
whatever other calls run meanwhile. -/
theorem get_after_put (free : CollisionFree sha256 stored)
    {before after : List ClientLabel} {middle : Clients} {index : Nat} {hash : String}
    (storable : ∀ label ∈ before ++ after, label.Storable sha256 codec stored)
    (reached : execute (Clients.step memory sha256 codec) (Clients.initial blobs) before =
      some middle)
    (granted : (memory middle.calls.length).Grants bytes.bytes.length)
    (returned : middle.calls[index]? = some (.putting bytes (.finished (.ok hash))))
    (continued : execute (Clients.step memory sha256 codec) middle (.get hash :: after) =
      some final) :
    after.countP (ClientLabel.acts middle.calls.length) ≤
        3 * (chunksOf defaultChunkSize bytes.bytes).length + 2 ∧
      ∃ phase fetched,
        final.calls[middle.calls.length]? = some (.getting hash phase fetched) ∧
        ((∃ label, (Clients.step memory sha256 codec final
            (.downloads middle.calls.length label)).isSome = true) ∨
          phase = .finished (.ok bytes.bytes)) := by
  rw [List.forall_mem_append] at storable
  obtain ⟨earlier, later⟩ := storable
  have onCourse := (onCourse_of_execute free earlier (allOnCourse_initial blobs) reached).1
  obtain ⟨manifest, chunks, manifestBytes, encodes, putting⟩ :=
    onCourse _ (List.mem_of_getElem? returned)
  obtain ⟨rfl, object, whole⟩ := holds_of_putting encodes putting
  obtain ⟨started, stepped, continued⟩ := Option.bind_eq_some_iff.mp continued
  have begun : GetTurns sha256 codec stored manifest chunks manifestBytes
      middle.calls.length [] started := by
    obtain ⟨still, -⟩ := onCourse_of_moves free (fun bytes equal => by cases equal) onCourse
      (clientMoves_of_step stepped)
    refine ⟨still, ?_, ?_⟩
    · obtain rfl := Option.some.inj stepped
      exact object
    · obtain rfl := Option.some.inj stepped
      refine ⟨_, _, List.getElem?_concat_length, rfl, ?_⟩
      simp [getInitial, GetState.remaining]
  obtain ⟨-, object, phase, fetched, call, getting, bound⟩ := invariant_of_everyStep _
    (GetTurns sha256 codec stored manifest chunks manifestBytes middle.calls.length) begun
    (fun _ _ _ _ turns admitted moved =>
      turns.of_moves free encodes (by rwa [whole]) admitted (clientMoves_of_step moved))
    (everyStep_of_forall_mem later started) continued
  refine ⟨?_, phase, fetched, call, ?_⟩
  · rw [← chunks_length_of_encodes encodes]
    omega
  · have goes : (∃ label, (getStep (memory middle.calls.length) sha256 codec (honest sha256)
        (cid sha256 manifestBytes) ⟨phase, final.world, fetched⟩ label).isSome = true) ∨ _ :=
      exists_getStep getting
    rcases goes with ⟨label, enabled⟩ | finished
    · exact .inl ⟨label, by simpa [Clients.step, call] using enabled⟩
    · exact .inr (by rw [← whole]; exact finished)

theorem get_after_put_greeting :
    ∃ final, execute (Clients.step plenty greetingSha256 greetingCodec) greetingClients
        (.get greetingHash :: greetingReads) = some final ∧
      greetingReads.countP (ClientLabel.acts 2) ≤
        3 * (chunksOf defaultChunkSize greeting.bytes).length + 2 ∧
      ∃ phase fetched, final.calls[2]? = some (.getting greetingHash phase fetched) ∧
        ((∃ label, (Clients.step plenty greetingSha256 greetingCodec final
            (.downloads 2 label)).isSome = true) ∨ phase = .finished (.ok greeting.bytes)) := by
  have started : Clients.step plenty greetingSha256 greetingCodec greetingClients
      (.get greetingHash) =
      some ⟨greetingClients.calls ++ [.getting greetingHash .resolving []], greetingBlobs⟩ := rfl
  have continued : ∃ final, execute (Clients.step plenty greetingSha256 greetingCodec)
      greetingClients (.get greetingHash :: greetingReads) = some final := by
    rw [execute_cons, started, Option.bind_some, greetingReads, execute_cons,
      step_put_greeting, Option.bind_some]
    exact ⟨_, rfl⟩
  obtain ⟨final, continued⟩ := continued
  have returned : greetingClients.calls[0]? =
      some (.putting greeting (.finished (.ok greetingHash))) := rfl
  refine ⟨final, continued, get_after_put collisionFree_greeting ?_ execute_greetingPuts
    (Allocator.grants_ample.mpr (by decide)) returned continued⟩
  intro label member
  refine storable_greeting label fun bytes put => ?_
  subst put
  simpa [greetingPuts, greetingReads] using member

/-- Two puts that have returned, returned the same address exactly if they put the
same bytes. -/
theorem hash_eq_iff_of_puts (free : CollisionFree sha256 stored)
    (storable : ∀ label ∈ trace, label.Storable sha256 codec stored)
    (reached : execute (Clients.step memory sha256 codec) (Clients.initial blobs) trace =
      some final)
    {first second : Nat} {other : Slice} {hash hash' : String}
    (returned : final.calls[first]? = some (.putting bytes (.finished (.ok hash))))
    (returned' : final.calls[second]? = some (.putting other (.finished (.ok hash')))) :
    hash = hash' ↔ bytes.bytes = other.bytes := by
  have onCourse := (onCourse_of_execute free storable (allOnCourse_initial blobs) reached).1
  obtain ⟨manifest, chunks, manifestBytes, encodes, putting⟩ :=
    onCourse _ (List.mem_of_getElem? returned)
  obtain ⟨manifest', chunks', manifestBytes', encodes', putting'⟩ :=
    onCourse _ (List.mem_of_getElem? returned')
  obtain ⟨rfl, object, whole⟩ := holds_of_putting encodes putting
  obtain ⟨rfl, object', whole'⟩ := holds_of_putting encodes' putting'
  constructor
  · intro same
    obtain rfl := free encodes.root encodes'.root same
    obtain rfl := Except.ok.inj (object.decoded.symm.trans object'.decoded)
    have alike : chunks = chunks' := by
      refine eq_of_map_cid_eq (free.mono ?_) (object.listed.symm.trans object'.listed)
      rintro chunk (member | member)
      · exact encodes.members chunk member
      · exact encodes'.members chunk member
    rw [← whole, ← whole', alike]
  · intro same
    obtain ⟨content, inMemory⟩ := bytes
    obtain ⟨content', inMemory'⟩ := other
    obtain rfl : content = content' := same
    obtain ⟨rfl, -⟩ := Prod.mk.inj (Option.some.inj (encodes.built.symm.trans encodes'.built))
    obtain rfl := Except.ok.inj (encodes.encoded.symm.trans encodes'.encoded)
    rfl

/-- The object without bytes, next to the object `hi`. -/
def emptyObject : Slice :=
  ⟨[], by decide⟩

def emptyManifest : Manifest :=
  ⟨"ce-object-v1", 1048576, 0, []⟩

/-- The JSON text of its manifest. -/
def emptyManifestBytes : List UInt8 :=
  [123, 34, 107, 105, 110, 100, 34, 58, 34, 99, 101, 45, 111, 98, 106, 101, 99, 116, 45, 118, 49,
   34, 44, 34, 99, 104, 117, 110, 107, 95, 115, 105, 122, 101, 34, 58, 49, 48, 52, 56, 53, 55, 54,
   44, 34, 116, 111, 116, 97, 108, 95, 115, 105, 122, 101, 34, 58, 48, 44, 34, 99, 104, 117, 110,
   107, 115, 34, 58, 91, 93, 125]

/-- SHA-256 on the two objects. -/
def pairSha256 (bytes : List UInt8) : List UInt8 :=
  if bytes = emptyManifestBytes then
    [41, 123, 195, 7, 193, 58, 164, 209, 39, 195, 25, 99, 41, 98, 39, 95, 68, 242, 167, 55, 28, 148,
     4, 29, 104, 151, 187, 207, 226, 120, 9, 35]
  else greetingSha256 bytes

def pairCodec : Codec where
  toVec manifest :=
    if manifest = emptyManifest then .ok emptyManifestBytes else greetingCodec.toVec manifest
  fromSlice bytes :=
    if bytes = emptyManifestBytes then .ok emptyManifest else greetingCodec.fromSlice bytes

def pairStored : Set (List UInt8) :=
  {content | content ∈ [greetingManifestBytes, [104, 105], emptyManifestBytes]}

/-- The two are put at once. -/
def pairPuts : List ClientLabel :=
  [.put greeting, .put emptyObject, .uploads 0 (.upload .start), .uploads 1 .storeManifest,
    .uploads 0 (.upload (.serve 0)), .uploads 0 (.upload (.yield 0)), .uploads 0 .storeManifest]

theorem encodes_pair_greeting :
    Encodes pairSha256 pairCodec pairStored greeting greetingManifest [[104, 105]]
      greetingManifestBytes where
  built := by
    simp only [chunkObject, chunksOf_greeting]
    decide
  encoded := by decide
  decoded := by decide
  root := by simp [pairStored]
  members chunk member := by simp [pairStored, List.mem_singleton.mp member]

theorem encodes_pair_empty :
    Encodes pairSha256 pairCodec pairStored emptyObject emptyManifest [] emptyManifestBytes where
  built := by
    have chunks : chunksOf defaultChunkSize emptyObject.bytes = [] := chunksOf_nil _
    simp only [chunkObject, chunks]
    decide
  encoded := by decide
  decoded := by decide
  root := by simp [pairStored]
  members chunk member := by simp at member

theorem collisionFree_pair : CollisionFree pairSha256 pairStored := by
  have apart : ([greetingManifestBytes, [104, 105], emptyManifestBytes].map
      (cid pairSha256)).Nodup := by
    decide
  exact fun first member second member' equal =>
    List.inj_on_of_nodup_map apart member member' equal

theorem hash_eq_iff_of_puts_pair :
    ∃ final hash hash', execute (Clients.step plenty pairSha256 pairCodec)
        (Clients.initial noBlobs) pairPuts = some final ∧
      final.calls[0]? = some (.putting greeting (.finished (.ok hash))) ∧
      final.calls[1]? = some (.putting emptyObject (.finished (.ok hash'))) ∧
      (hash = hash' ↔ greeting.bytes = emptyObject.bytes) := by
  have stepped : ∃ final hash hash', execute (Clients.step plenty pairSha256 pairCodec)
      (Clients.initial noBlobs) pairPuts = some final ∧
      final.calls[0]? = some (.putting greeting (.finished (.ok hash))) ∧
      final.calls[1]? = some (.putting emptyObject (.finished (.ok hash'))) := by
    have first : putInitial pairSha256 greeting noBlobs =
        ⟨.uploading greetingManifest (.init (jobsOf pairSha256 [[104, 105]])), noBlobs⟩ := by
      simp [putInitial, encodes_pair_greeting.built]
    have second : putInitial pairSha256 emptyObject noBlobs =
        ⟨.uploading emptyManifest (.init (jobsOf pairSha256 [])), noBlobs⟩ := by
      simp [putInitial, encodes_pair_empty.built]
    have put : Clients.step plenty pairSha256 pairCodec (Clients.initial noBlobs)
        (.put greeting) = some ⟨[.putting greeting (.uploading greetingManifest
          (.init (jobsOf pairSha256 [[104, 105]])))], noBlobs⟩ := by
      simp [Clients.step, Clients.initial, first]
    have both : ∀ calls, Clients.step plenty pairSha256 pairCodec ⟨calls, noBlobs⟩
        (.put emptyObject) = some ⟨calls ++ [.putting emptyObject (.uploading emptyManifest
          (.init (jobsOf pairSha256 [])))], noBlobs⟩ := by
      intro calls
      simp [Clients.step, second]
    rw [pairPuts, execute_cons, put, Option.bind_some, execute_cons, both, Option.bind_some]
    exact ⟨_, _, _, rfl, rfl, rfl⟩
  obtain ⟨final, hash, hash', reached, returned, returned'⟩ := stepped
  refine ⟨final, hash, hash', reached, returned, returned',
    hash_eq_iff_of_puts collisionFree_pair (fun label member bytes put => ?_) reached returned
      returned'⟩
  subst put
  have put : bytes = greeting ∨ bytes = emptyObject := by simpa [pairPuts] using member
  rcases put with rfl | rfl
  · exact ⟨_, _, _, encodes_pair_greeting⟩
  · exact ⟨_, _, _, encodes_pair_empty⟩

/-- The bytes are a chunk or the manifest of the object. -/
def PartOf (sha256 : List UInt8 → List UInt8) (codec : Codec) (stored : Set (List UInt8))
    (bytes : Slice) (content : List UInt8) : Prop :=
  ∃ manifest chunks manifestBytes,
    Encodes sha256 codec stored bytes manifest chunks manifestBytes ∧
      (content = manifestBytes ∨ content ∈ chunks)

/-- Where what the store keeps comes from. -/
structure Provenance (sha256 : List UInt8 → List UInt8) (codec : Codec)
    (stored : Set (List UInt8)) (blobs : Blobs) (trace : List ClientLabel)
    (state : Clients) : Prop where
  onCourse : AllOnCourse sha256 codec stored state
  asked : ∀ bytes phase, .putting bytes phase ∈ state.calls → .put bytes ∈ trace
  kept : ∀ hash content, state.world hash = some content →
    blobs hash = some content ∨
      cid sha256 content = hash ∧
        ∃ bytes, .put bytes ∈ trace ∧ PartOf sha256 codec stored bytes content

theorem Provenance.of_moves (free : CollisionFree sha256 stored)
    (provenance : Provenance sha256 codec stored blobs trace state)
    (storable : label.Storable sha256 codec stored)
    (moves : ClientMoves memory sha256 codec state label next) :
    Provenance sha256 codec stored blobs (trace ++ [label]) next := by
  obtain ⟨onCourse, asked, kept⟩ := provenance
  obtain ⟨after, -⟩ := onCourse_of_moves free storable onCourse moves
  have before : ∀ hash content, state.world hash = some content →
      blobs hash = some content ∨
        cid sha256 content = hash ∧
          ∃ bytes, .put bytes ∈ trace ++ [label] ∧
            PartOf sha256 codec stored bytes content := by
    intro hash content found
    rcases kept hash content found with initial | ⟨address, bytes, put, part⟩
    · exact .inl initial
    · exact .inr ⟨address, bytes, List.mem_append_left _ put, part⟩
  refine ⟨after, ?_, ?_⟩
  · intro bytes phase member
    cases moves with
    | putStarted other =>
        rcases List.mem_append.mp member with earlier | new
        · exact List.mem_append_left _ (asked bytes phase earlier)
        · obtain ⟨rfl, -⟩ := Call.putting.inj (List.mem_singleton.mp new)
          simp
    | getStarted hash =>
        rcases List.mem_append.mp member with earlier | new
        · exact List.mem_append_left _ (asked bytes phase earlier)
        · simp at new
    | uploaded index label other phase' next' call =>
        rcases List.mem_or_eq_of_mem_set member with earlier | new
        · exact List.mem_append_left _ (asked bytes phase earlier)
        · obtain ⟨rfl, -⟩ := Call.putting.inj new
          exact List.mem_append_left _ (asked bytes phase' (List.mem_of_getElem? call))
    | downloaded =>
        rcases List.mem_or_eq_of_mem_set member with earlier | new
        · exact List.mem_append_left _ (asked bytes phase earlier)
        · simp at new
  · cases moves with
    | putStarted other =>
        rw [putInitial_world]
        exact before
    | getStarted => exact before
    | uploaded index label bytes phase next' call moves =>
        obtain ⟨manifest, chunks, manifestBytes, encodes, putting⟩ :=
          onCourse _ (List.mem_of_getElem? call)
        rcases world_of_putMoves encodes putting moves with same | ⟨added, part, grown⟩
        · rw [same]
          exact before
        · intro hash content found
          replace found : Function.update state.world (cid sha256 added) (some added) hash =
              some content := by rwa [← grown]
          by_cases here : hash = cid sha256 added
          · rw [here, Function.update_self] at found
            obtain rfl := Option.some.inj found
            refine .inr ⟨here.symm, bytes, ?_, manifest, chunks, manifestBytes, encodes, part⟩
            exact List.mem_append_left _ (asked bytes phase (List.mem_of_getElem? call))
          · rw [Function.update_of_ne here] at found
            exact before hash content found
    | downloaded index label hash phase fetched next' call moved =>
        rw [world_of_getStep moved]
        exact before

/-- Beyond what was there, the store keeps chunks and manifests of objects that were
put, each under its own address. -/
theorem provenance_of_execute (free : CollisionFree sha256 stored)
    (storable : ∀ label ∈ trace, label.Storable sha256 codec stored)
    (reached : execute (Clients.step memory sha256 codec) (Clients.initial blobs) trace =
      some final) :
    ∀ hash content, final.world hash = some content →
      blobs hash = some content ∨
        cid sha256 content = hash ∧
          ∃ bytes, .put bytes ∈ trace ∧ PartOf sha256 codec stored bytes content := by
  refine (invariant_of_everyStep _ (Provenance sha256 codec stored blobs)
    ⟨allOnCourse_initial blobs, ?_, fun _ _ => .inl⟩
    (fun _ _ _ _ provenance admitted moved =>
      provenance.of_moves free admitted (clientMoves_of_step moved))
    (everyStep_of_forall_mem storable _) reached).kept
  intro bytes phase member
  simp [Clients.initial] at member

theorem provenance_of_execute_greeting :
    cid greetingSha256 greetingManifestBytes = greetingHash ∧
      ∃ bytes, .put bytes ∈ greetingPuts ∧
        PartOf greetingSha256 greetingCodec greetingStored bytes greetingManifestBytes := by
  have kept : greetingClients.world greetingHash = some greetingManifestBytes := by
    simp [greetingClients, greetingBlobs]
  rcases provenance_of_execute collisionFree_greeting
    (fun label member => storable_greeting label fun bytes put => by
      subst put
      simpa [greetingPuts] using member)
    execute_greetingPuts _ _ kept with initial | added
  · simp [noBlobs] at initial
  · exact added

end CeRs.Object
