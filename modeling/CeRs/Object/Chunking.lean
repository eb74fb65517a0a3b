import CeRs.Object.Reassemble
import Mathlib.Data.List.Induction
import Mathlib.Logic.Function.Basic

/-!
# The shape of chunked objects

All chunks but the last have the chunk size, the last is not empty, and their
number is the quotient, rounded up.  A map from addresses to chunks keeps equal
chunks once, and the object is reassembled from it.
-/

namespace CeRs.Object

open Memory (Allocator)

theorem length_chunksOf {size : Nat} (positive : 0 < size) (bytes : List UInt8) :
    (chunksOf size bytes).length = (bytes.length + size - 1) / size := by
  induction bytes using chunksOf.induct size with
  | case1 bytes degenerate =>
      obtain rfl : bytes = [] := degenerate.resolve_right (Nat.ne_of_gt positive)
      rw [chunksOf_nil, List.length_nil, List.length_nil, Nat.zero_add]
      exact (Nat.div_eq_of_lt (Nat.sub_lt positive Nat.one_pos)).symm
  | case2 bytes proper induction =>
      have nonempty : bytes ≠ [] := fun empty => proper (.inl empty)
      have one : 0 < bytes.length := List.length_pos_of_ne_nil nonempty
      have whole : (bytes.length + size - 1) / size = (bytes.length - 1) / size + 1 := by
        rw [← Nat.add_div_right _ positive]
        congr 1
        omega
      rw [chunksOf_of_ne_nil nonempty positive, List.length_cons, induction, whole,
        List.length_drop]
      congr 1
      by_cases more : size ≤ bytes.length
      · congr 1
        omega
      · rw [Nat.div_eq_of_lt (by omega), Nat.div_eq_of_lt (by omega)]

theorem mem_chunksOf {size : Nat} (positive : 0 < size) {bytes chunk : List UInt8}
    (member : chunk ∈ chunksOf size bytes) : chunk ≠ [] ∧ chunk.length ≤ size := by
  induction bytes using chunksOf.induct size with
  | case1 bytes degenerate =>
      obtain rfl : bytes = [] := degenerate.resolve_right (Nat.ne_of_gt positive)
      simp [chunksOf_nil] at member
  | case2 bytes proper induction =>
      have nonempty : bytes ≠ [] := fun empty => proper (.inl empty)
      rw [chunksOf_of_ne_nil nonempty positive] at member
      rcases List.mem_cons.mp member with rfl | later
      · refine ⟨?_, List.length_take_le size bytes⟩
        simp [nonempty, Nat.ne_of_gt positive]
      · exact induction later

theorem length_of_mem_dropLast_chunksOf {size : Nat} (positive : 0 < size)
    {bytes chunk : List UInt8} (member : chunk ∈ (chunksOf size bytes).dropLast) :
    chunk.length = size := by
  induction bytes using chunksOf.induct size with
  | case1 bytes degenerate =>
      obtain rfl : bytes = [] := degenerate.resolve_right (Nat.ne_of_gt positive)
      simp [chunksOf_nil] at member
  | case2 bytes proper induction =>
      have nonempty : bytes ≠ [] := fun empty => proper (.inl empty)
      rw [chunksOf_of_ne_nil nonempty positive] at member
      by_cases rest : bytes.drop size = []
      · simp [rest, chunksOf_nil] at member
      · have later : chunksOf size (bytes.drop size) ≠ [] := by
          rw [chunksOf_of_ne_nil rest positive]
          exact List.cons_ne_nil _ _
        rw [List.dropLast_cons_of_ne_nil later] at member
        rcases List.mem_cons.mp member with rfl | member
        · have more : size < bytes.length := by simpa using rest
          rw [List.length_take, Nat.min_eq_left more.le]
        · exact induction member

/-- The map that is collected from entries: a later entry replaces an earlier
one under the same key. -/
def collected (entries : List (String × List UInt8)) : String → Option (List UInt8) :=
  entries.foldl (fun store entry => Function.update store entry.1 (some entry.2)) fun _ => none

/-- Fetching from a map. -/
def fetchFrom (store : String → Option (List UInt8)) (world : Unit) (hash : String) :
    Except String (List UInt8) × Unit :=
  match store hash with
  | some bytes => (.ok bytes, world)
  | none => (.error s!"missing {hash}", world)

theorem collected_eq_some {entries : List (String × List UInt8)} {entry : String × List UInt8}
    (consistent : ∀ first ∈ entries, ∀ second ∈ entries, first.1 = second.1 → first.2 = second.2)
    (member : entry ∈ entries) : collected entries entry.1 = some entry.2 := by
  induction entries using List.reverseRecOn with
  | nil => simp at member
  | append_singleton entries last induction =>
      rw [collected, List.foldl_append, List.foldl_cons, List.foldl_nil]
      by_cases same : entry.1 = last.1
      · rw [same, Function.update_self,
          consistent entry member last (List.mem_concat_self) same]
      · have earlier : entry ∈ entries := by
          rcases List.mem_append.mp member with earlier | here
          · exact earlier
          · exact absurd (congrArg Prod.fst (List.mem_singleton.mp here)) same
        rw [Function.update_of_ne same]
        exact induction (fun first here second there =>
          consistent first (List.mem_append_left _ here) second (List.mem_append_left _ there))
          earlier

variable {sha256 : List UInt8 → List UInt8}

/-- A map that keeps chunks under their addresses supplies them. -/
theorem supplies_fetchFrom {store : String → Option (List UInt8)} {chunks : List (List UInt8)}
    (kept : ∀ chunk ∈ chunks, store (cid sha256 chunk) = some chunk) :
    Supplies sha256 (fetchFrom store) () (chunks.map (cid sha256)) chunks := by
  induction chunks with
  | nil => exact supplies_nil.mpr rfl
  | cons chunk rest induction =>
      rw [List.map_cons]
      refine supplies_cons.mpr ⟨chunk, rest, rfl, ?_, rfl, ?_⟩
      · simp [fetchFrom, kept chunk (List.mem_cons_self)]
      · exact induction fun other member => kept other (List.mem_cons_of_mem _ member)

/-- Cutting an object gives as many chunks as the rounded quotient says, each
with its address, in the order of the manifest; and the map collected from them
gives the object back, in the absence of collisions and if there is memory for
it. -/
theorem chunkObject_reassembles (allocator : Allocator) (sha256 : List UInt8 → List UInt8) 
    (bytes : Slice) {chunkSize : Nat} (positive : 0 < chunkSize) :
    ∃ manifest chunks, chunkObject sha256 bytes chunkSize = some (manifest, chunks) ∧
      chunks.length = (bytes.bytes.length + chunkSize - 1) / chunkSize ∧
      (∀ entry ∈ chunks, entry.2 ≠ [] ∧ entry.2.length ≤ chunkSize ∧
        entry.1 = cid sha256 entry.2) ∧
      (∀ entry ∈ chunks.dropLast, entry.2.length = chunkSize) ∧
      manifest.chunks = chunks.map Prod.fst ∧
      (chunks.map Prod.snd).flatten = bytes.bytes ∧
      manifest.totalSize.toNat = bytes.bytes.length ∧
      (CollisionFree sha256 {chunk | chunk ∈ chunks.map Prod.snd} →
        allocator.Grants bytes.bytes.length →
        reassemble allocator sha256 (fetchFrom (collected chunks)) () manifest =
          .ok bytes.bytes) := by
  obtain ⟨⟨manifest, chunks⟩, built⟩ : ∃ both, chunkObject sha256 bytes chunkSize = some both := by
    rw [chunkObject, if_neg (Nat.ne_of_gt positive)]
    exact ⟨_, rfl⟩
  obtain ⟨isV1, total, listed, paired, whole⟩ := chunkObject_eq_some sha256 built
  have cut : chunks.map Prod.snd = chunksOf chunkSize bytes.bytes := by
    rw [chunkObject, if_neg (Nat.ne_of_gt positive)] at built
    obtain ⟨-, rfl⟩ := Prod.mk.inj (Option.some.inj built)
    simp [Function.comp_def]
  have addressed : ∀ entry ∈ chunks, entry.1 = cid sha256 entry.2 := by
    intro entry member
    rw [paired] at member
    obtain ⟨chunk, -, rfl⟩ := List.mem_map.mp member
    rfl
  refine ⟨manifest, chunks, built, ?_, fun entry member => ?_, fun entry member => ?_, listed,
    whole, total, fun free granted => ?_⟩
  · rw [← List.length_map (f := Prod.snd), cut, length_chunksOf positive]
  · have inside : entry.2 ∈ chunksOf chunkSize bytes.bytes := cut ▸ List.mem_map_of_mem member
    obtain ⟨nonempty, bound⟩ := mem_chunksOf positive inside
    exact ⟨nonempty, bound, addressed entry member⟩
  · apply @length_of_mem_dropLast_chunksOf _ positive bytes.bytes
    rw [← cut, ← List.map_dropLast]
    exact List.mem_map_of_mem member
  · have consistent : ∀ first ∈ chunks, ∀ second ∈ chunks, first.1 = second.1 →
        first.2 = second.2 := by
      intro first here second there same
      apply free (List.mem_map_of_mem here) (List.mem_map_of_mem there)
      rw [← addressed first here, ← addressed second there, same]
    have supplied : Supplies sha256 (fetchFrom (collected chunks)) () manifest.chunks
        (chunks.map Prod.snd) := by
      have addresses : manifest.chunks = (chunks.map Prod.snd).map (cid sha256) := by
        rw [listed, List.map_map]
        exact List.map_congr_left addressed
      rw [addresses]
      apply supplies_fetchFrom
      intro chunk member
      obtain ⟨entry, here, rfl⟩ := List.mem_map.mp member
      rw [← addressed entry here]
      exact collected_eq_some consistent here
    exact reassemble_eq_ok.mpr
      ⟨isV1, _, supplied, whole.symm, total.symm, granted⟩

/-- An object of two equal chunks. -/
def repeated : Slice :=
  ⟨[104, 105, 104, 105], by decide⟩

theorem chunkObject_reassembles_repeated :
    ∃ manifest chunks, chunkObject greetingSha256 repeated 2 = some (manifest, chunks) ∧
      chunks.length = 2 ∧
      reassemble .ample greetingSha256 (fetchFrom (collected chunks)) () manifest =
        .ok [104, 105, 104, 105] := by
  obtain ⟨manifest, chunks, built, length, -, -, -, -, -, whole⟩ :=
    chunkObject_reassembles .ample greetingSha256 repeated (by decide : 0 < 2)
  refine ⟨manifest, chunks, built, length, whole ?_ (Allocator.grants_ample.mpr (by decide))⟩
  have cut : chunksOf 2 repeated.bytes = [[104, 105], [104, 105]] := by
    rw [chunksOf_of_ne_nil (by decide) (by decide)]
    refine congrArg ([104, 105] :: ·) ?_
    rw [chunksOf_of_ne_nil (by decide) (by decide)]
    exact congrArg ([104, 105] :: ·) (chunksOf_nil 2)
  obtain ⟨-, rfl⟩ : _ ∧ _ = chunks := by simpa [chunkObject, cut] using built
  intro first member second member' _
  have first : first = [104, 105] := by simpa using member
  have second : second = [104, 105] := by simpa using member'
  rw [first, second]

end CeRs.Object
