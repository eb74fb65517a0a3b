import CeRs.Object.Reassemble
import CeRs.Transition

/-!
# Concurrent and sequential reassembly

`get_object` fetches the chunks with a pool of concurrent requests and joins
them at the end; `reassemble` fetches and checks them one after the other.
Against a store whose answers depend only on the address, both return the same
bytes or both return none, in whatever order the concurrent requests are
answered.
-/

namespace CeRs.Object

open Transition
open Memory (Allocator)

/-- A store whose answers depend only on the address. -/
def fixed (lookup : String → Http.Answer (Except String (List UInt8))) : Store Unit where
  get world hash := (lookup hash, world)
  post world _ := (.failed "read only", world)

section Fetch

variable {sha256 : List UInt8 → List UInt8} {World : Type} {store : Store World}

theorem fetchChunk_eq_ok {world : World} {chunkCid : String} {chunk : List UInt8} :
    (fetchChunk sha256 store world chunkCid).1 = .ok chunk ↔
      (getBlob store world chunkCid).1 = .ok chunk ∧ cid sha256 chunk = chunkCid := by
  constructor
  · intro fetched
    refine ⟨?_, cid_of_fetchChunk sha256 store fetched⟩
    unfold fetchChunk at fetched
    split at fetched
    case h_1 => simp at fetched
    case h_2 received next answer =>
        dsimp only at fetched
        split at fetched
        case isTrue => simp at fetched
        case isFalse => rwa [answer]
  · rintro ⟨answer, rfl⟩
    cases asked : getBlob store world (cid sha256 chunk) with
    | mk received next =>
        obtain rfl : received = .ok chunk := by simpa [asked] using answer
        simp [fetchChunk, asked]

end Fetch

section Fixed

variable {allocator : Allocator} {sha256 : List UInt8 → List UInt8} {codec : Codec}
variable {lookup : String → Http.Answer (Except String (List UInt8))} {manifest : Manifest}

/-- The answer of a download is the one that the store always gives. -/
def Same (sha256 : List UInt8 → List UInt8)
    (lookup : String → Http.Answer (Except String (List UInt8))) (_ : Unit) (chunkCid : String)
    (answer : Except String (List UInt8)) : Prop :=
  answer = (fetchChunk sha256 (fixed lookup) () chunkCid).1

theorem serves_same (cids : List String) :
    Buffered.Serves (fetchChunk sha256 (fixed lookup)) cids (fun _ => True)
      (Same sha256 lookup) where
  keeps _ _ _ _ := trivial
  answers _ _ _ _ := rfl
  stable _ _ _ _ _ _ _ same := same

/-- The chunks that the sequential reassembly is supplied with are those that
every download of their addresses gives. -/
theorem supplies_fixed_iff {cids : List String} {chunks : List (List UInt8)} :
    Supplies sha256 (getBlob (fixed lookup)) () cids chunks ↔
      List.Forall₂ (fun chunkCid chunk => Same sha256 lookup () chunkCid (.ok chunk))
        cids chunks := by
  induction cids generalizing chunks with
  | nil => rw [supplies_nil, List.forall₂_nil_left_iff]
  | cons chunkCid rest induction =>
      rw [supplies_cons, List.forall₂_cons_left_iff]
      simp only [Same, eq_comm (a := Except.ok _), fetchChunk_eq_ok, induction]
      constructor
      · rintro ⟨bytes, others, rfl, answer, address, later⟩
        exact ⟨bytes, others, ⟨answer, address⟩, later, rfl⟩
      · rintro ⟨bytes, others, ⟨answer, address⟩, later, rfl⟩
        exact ⟨bytes, others, rfl, answer, address, later⟩

theorem same_of_supplies {cids : List String} {chunks : List (List UInt8)}
    (supplied : Supplies sha256 (getBlob (fixed lookup)) () cids chunks) {chunkCid : String}
    (member : chunkCid ∈ cids) : ∃ chunk, Same sha256 lookup () chunkCid (.ok chunk) := by
  have pairs := supplies_fixed_iff.mp supplied
  clear supplied
  induction pairs with
  | nil => simp at member
  | cons head _ induction =>
      rcases List.mem_cons.mp member with rfl | later
      · exact ⟨_, head⟩
      · exact induction later

theorem eq_of_supplies {cids : List String} {first second : List (List UInt8)}
    (supplied : Supplies sha256 (getBlob (fixed lookup)) () cids first)
    (supplied' : Supplies sha256 (getBlob (fixed lookup)) () cids second) : first = second := by
  have equal := supplied.1.symm.trans supplied'.1
  rwa [List.map_inj_right fun _ _ => Except.ok.inj] at equal

/-- What holds throughout a run of `get_object`: its result, if any, is that of
the sequential reassembly. -/
def Agreeing (allocator : Allocator) (sha256 : List UInt8 → List UInt8)
    (lookup : String → Http.Answer (Except String (List UInt8))) (manifest : Manifest)
    (state : GetState Unit) : Prop :=
  match state.phase with
  | .resolving => True
  | .fetching current pool =>
      current = manifest ∧ manifest.isV1 = true ∧
        Buffered.Valid true (fun _ => True) (Same sha256 lookup) manifest.chunks pool state.world
  | .finished outcome =>
      ∀ out, outcome = .ok out ↔
        reassemble allocator sha256 (getBlob (fixed lookup)) () manifest = .ok out

variable {objectCid : String} {manifestBytes : List UInt8} {state next : GetState Unit}

theorem agreeing_of_moves (root : (getBlob (fixed lookup) () objectCid).1 = .ok manifestBytes)
    (decoded : codec.fromSlice manifestBytes = .ok manifest)
    (agreeing : Agreeing allocator sha256 lookup manifest state)
    (moves : GetMoves allocator sha256 codec (fixed lookup) objectCid state next) :
    Agreeing allocator sha256 lookup manifest next := by
  cases moves with
  | unresolved message after phase unusable =>
      have unknown := unusable manifestBytes manifest root decoded
      simp [Agreeing, reassemble_eq_ok, unknown]
  | resolved received current after phase answer decoded' isV1 =>
      obtain rfl : received = manifestBytes := by simpa [answer] using root
      obtain rfl := Except.ok.inj (decoded.symm.trans decoded')
      exact ⟨rfl, isV1, Buffered.valid_init trivial⟩
  | fetched current pool pool' after phase moves =>
      simp only [Agreeing, phase] at agreeing
      obtain ⟨rfl, isV1, valid⟩ := agreeing
      exact ⟨rfl, isV1, Buffered.valid_of_moves (serves_same current.chunks) valid moves⟩
  | fetchFailed current pool message phase failed =>
      simp only [Agreeing, phase] at agreeing
      obtain ⟨rfl, -, valid⟩ := agreeing
      obtain ⟨chunkCid, member, broken⟩ := Buffered.good_of_error valid failed
      intro out
      constructor
      · intro absurd
        cases absurd
      · intro reassembled
        obtain ⟨-, chunks, supplied, -⟩ := reassemble_eq_ok.mp reassembled
        obtain ⟨chunk, same⟩ := same_of_supplies supplied member
        exact absurd (same.trans broken.symm) (by simp)
  | joined current pool chunks phase complete =>
      simp only [Agreeing, phase] at agreeing
      obtain ⟨rfl, isV1, valid⟩ := agreeing
      have supplied : Supplies sha256 (getBlob (fixed lookup)) () current.chunks chunks :=
        supplies_fixed_iff.mpr (Buffered.forall₂_of_result valid complete)
      intro out
      rw [joinChunks_eq_ok, reassemble_eq_ok]
      constructor
      · rintro ⟨rfl, size, small⟩
        exact ⟨isV1, chunks, supplied, rfl, size, small⟩
      · rintro ⟨-, others, supplied', rfl, size, small⟩
        obtain rfl := eq_of_supplies supplied supplied'
        exact ⟨rfl, size, small⟩

/-- Against a store whose answers depend only on the address, every run of
`get_object` on a manifest comes to an end, and returns the same bytes as
`reassemble` with that store, or none where it returns none. -/
theorem getObject_agrees {allocator : Allocator} {sha256 : List UInt8 → List UInt8}
    {codec : Codec} {lookup : String → Http.Answer (Except String (List UInt8))}
    {objectCid : String} {manifestBytes : List UInt8} {manifest : Manifest}
    (root : (getBlob (fixed lookup) () objectCid).1 = .ok manifestBytes)
    (decoded : codec.fromSlice manifestBytes = .ok manifest) {trace : List GetLabel}
    {final : GetState Unit}
    (reached : execute (getStep allocator sha256 codec (fixed lookup) objectCid) (getInitial ())
      trace = some final) :
    trace.length ≤ 3 * manifest.chunks.length + 2 ∧
      ((∃ label, (getStep allocator sha256 codec (fixed lookup) objectCid final label).isSome =
          true) ∨
        ∃ outcome, final.phase = .finished outcome ∧
          ∀ out, outcome = .ok out ↔
            reassemble allocator sha256 (getBlob (fixed lookup)) () manifest = .ok out) := by
  have initial : Agreeing allocator sha256 lookup manifest (getInitial ()) := trivial
  have preserved : ∀ (state : GetState Unit) (label : GetLabel) (next : GetState Unit),
      Agreeing allocator sha256 lookup manifest state →
      getStep allocator sha256 codec (fixed lookup) objectCid state label = some next →
      Agreeing allocator sha256 lookup manifest next := fun _ _ _ agreeing stepped =>
    agreeing_of_moves root decoded agreeing (getMoves_of_step allocator sha256 codec _ stepped)
  have agreeing := stateInvariant_of_execute (Agreeing allocator sha256 lookup manifest)
    initial preserved reached
  have bound := length_add_measure_le (Agreeing allocator sha256 lookup manifest)
    (GetState.remaining manifest.chunks.length) initial preserved
    (fun _ _ _ _ stepped => getRemaining_lt sha256
      (getMoves_of_step allocator sha256 codec _ stepped)
      fun received current _ answer decoded' => by
        obtain rfl : manifestBytes = received := Except.ok.inj (root.symm.trans answer)
        rw [Except.ok.inj (decoded.symm.trans decoded')]) reached
  refine ⟨(Nat.le_add_right _ _).trans bound, ?_⟩
  rcases getStep_isSome_or_finished sha256 codec (fixed lookup) objectCid final with
    enabled | ⟨outcome, phase⟩
  · exact .inl enabled
  · simp only [Agreeing, phase] at agreeing
    exact .inr ⟨outcome, phase, agreeing⟩

end Fixed

/-- A store that keeps the object `hi` and answers nothing else. -/
def greetingLookup (hash : String) : Http.Answer (Except String (List UInt8)) :=
  if hash = cid greetingSha256 greetingManifestBytes then
    .response "200 OK" true (.ok greetingManifestBytes)
  else if hash = cid greetingSha256 greeting.bytes then
    .response "200 OK" true (.ok greeting.bytes)
  else .response "404 Not Found" false (.ok [])

theorem getObject_agrees_greeting :
    ∃ final, execute (getStep .ample greetingSha256 greetingCodec (fixed greetingLookup)
        (cid greetingSha256 greetingManifestBytes)) (getInitial ())
        [.resolve, .fetch .start, .fetch (.serve 0), .fetch (.yield 0), .join] = some final ∧
      final.phase = .finished (.ok [104, 105]) ∧
      reassemble .ample greetingSha256 (getBlob (fixed greetingLookup)) () greetingManifest =
        .ok [104, 105] := by
  have root : (getBlob (fixed greetingLookup) () (cid greetingSha256 greetingManifestBytes)).1 =
      .ok greetingManifestBytes := by
    simp [getBlob, fixed, greetingLookup]
  have reached : ∃ final, execute (getStep .ample greetingSha256 greetingCodec
      (fixed greetingLookup) (cid greetingSha256 greetingManifestBytes)) (getInitial ())
      [.resolve, .fetch .start, .fetch (.serve 0), .fetch (.yield 0), .join] = some final ∧
      final.phase = .finished (.ok [104, 105]) := ⟨_, rfl, rfl⟩
  obtain ⟨final, reached, phase⟩ := reached
  have decoded : greetingCodec.fromSlice greetingManifestBytes = .ok greetingManifest := by decide
  refine ⟨final, reached, phase, ?_⟩
  obtain ⟨-, ⟨label, enabled⟩ | ⟨outcome, phase', agree⟩⟩ :=
    getObject_agrees root decoded reached
  · cases label <;> simp [getStep, phase] at enabled
  · obtain rfl : .ok [104, 105] = outcome := by simpa [phase] using phase'
    exact (agree _).mp rfl

end CeRs.Object
