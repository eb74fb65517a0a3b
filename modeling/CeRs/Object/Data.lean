import CeRs.Hex
import CeRs.Memory
import Mathlib.Algebra.Group.Nat.Defs
import Mathlib.Data.Set.Function

/-!
# Chunked objects

An object is cut into chunks, each addressed by the hash of its bytes, and a
manifest lists the addresses in order.  The hash function is a parameter: the
code takes it from a library.
-/

namespace CeRs.Object

open Memory (isizeMax)

/-- A byte slice in memory. -/
structure Slice where
  bytes : List UInt8
  inMemory : bytes.length ≤ isizeMax

/-- `DEFAULT_CHUNK_SIZE`, 1 MiB. -/
def defaultChunkSize : Nat := 1024 * 1024

structure Manifest where
  kind : String
  chunkSize : UInt64
  totalSize : UInt64
  chunks : List String
  deriving DecidableEq, Repr

/-- `MANIFEST_KIND_V1`. -/
def manifestKindV1 : String := "ce-object-v1"

def Manifest.isV1 (manifest : Manifest) : Bool :=
  manifest.kind == manifestKindV1

/-- The chunks of a slice, as `slice::chunks` cuts them; the size is positive. -/
def chunksOf (size : Nat) (bytes : List UInt8) : List (List UInt8) :=
  if bytes = [] ∨ size = 0 then []
  else bytes.take size :: chunksOf size (bytes.drop size)
termination_by bytes.length
decreasing_by
  rename_i proper
  have nonempty : 0 < bytes.length := List.length_pos_of_ne_nil fun empty => proper (.inl empty)
  have positive : size ≠ 0 := fun zero => proper (.inr zero)
  rw [List.length_drop]
  omega

variable (sha256 : List UInt8 → List UInt8)

/-- The lower-case hexadecimal hash of the bytes. -/
def cid (bytes : List UInt8) : String :=
  Hex.encode (sha256 bytes)

/-- `chunk_object`; `none` is the failed assertion on the chunk size. -/
def chunkObject (bytes : Slice) (chunkSize : Nat) :
    Option (Manifest × List (String × List UInt8)) :=
  if chunkSize = 0 then none
  else
    let chunks := (chunksOf chunkSize bytes.bytes).map fun slice => (cid sha256 slice, slice)
    some (⟨manifestKindV1, UInt64.ofNat chunkSize, UInt64.ofNat bytes.bytes.length,
      chunks.map Prod.fst⟩, chunks)

theorem chunksOf_nil (size : Nat) : chunksOf size [] = [] := by
  rw [chunksOf]
  simp

theorem chunksOf_of_ne_nil {size : Nat} {bytes : List UInt8} (nonempty : bytes ≠ [])
    (positive : 0 < size) :
    chunksOf size bytes = bytes.take size :: chunksOf size (bytes.drop size) := by
  rw [chunksOf, if_neg]
  rintro (empty | zero)
  · exact nonempty empty
  · exact Nat.ne_of_gt positive zero

theorem flatten_chunksOf {size : Nat} (positive : 0 < size) (bytes : List UInt8) :
    (chunksOf size bytes).flatten = bytes := by
  induction bytes using chunksOf.induct size with
  | case1 bytes degenerate =>
      obtain rfl : bytes = [] := degenerate.resolve_right (Nat.ne_of_gt positive)
      rw [chunksOf_nil, List.flatten_nil]
  | case2 bytes proper induction =>
      rw [chunksOf_of_ne_nil (fun empty => proper (.inl empty)) positive, List.flatten_cons,
        induction, List.take_append_drop]

/-- The manifest lists the addresses of the chunks, which are the whole object. -/
theorem chunkObject_eq_some {bytes : Slice} {chunkSize : Nat} {manifest : Manifest}
    {chunks : List (String × List UInt8)}
    (built : chunkObject sha256 bytes chunkSize = some (manifest, chunks)) :
    manifest.isV1 = true ∧ manifest.totalSize.toNat = bytes.bytes.length ∧
      manifest.chunks = chunks.map Prod.fst ∧
      chunks = (chunks.map Prod.snd).map (fun chunk => (cid sha256 chunk, chunk)) ∧
      (chunks.map Prod.snd).flatten = bytes.bytes := by
  unfold chunkObject at built
  split at built
  case isTrue => simp at built
  case isFalse positive =>
      obtain ⟨rfl, rfl⟩ := Prod.mk.inj (Option.some.inj built)
      have small : bytes.bytes.length < 2 ^ 64 := by
        have bound := bytes.inMemory
        simp only [isizeMax] at bound
        omega
      refine ⟨by simp [Manifest.isV1], UInt64.toNat_ofNat_of_lt' small, rfl, ?_, ?_⟩
      · simp [Function.comp_def]
      · simpa [Function.comp_def] using
          flatten_chunksOf (Nat.pos_of_ne_zero positive) bytes.bytes

/-- No two of the byte strings have the same address. -/
def CollisionFree (involved : Set (List UInt8)) : Prop :=
  Set.InjOn (cid sha256) involved

variable {sha256}

theorem eq_of_map_cid_eq {first second : List (List UInt8)}
    (free : CollisionFree sha256 {bytes | bytes ∈ first ∨ bytes ∈ second})
    (equal : first.map (cid sha256) = second.map (cid sha256)) : first = second := by
  induction first generalizing second with
  | nil => exact (List.map_eq_nil_iff.mp equal.symm).symm
  | cons chunk rest induction =>
      cases second with
      | nil => simp at equal
      | cons other others =>
          obtain ⟨same, tails⟩ := List.cons.inj equal
          obtain rfl : chunk = other := free (by simp) (by simp) same
          refine congrArg (chunk :: ·) (induction (free.mono fun bytes member => ?_) tails)
          rcases member with member | member
          · exact .inl (List.mem_cons_of_mem _ member)
          · exact .inr (List.mem_cons_of_mem _ member)

end CeRs.Object
