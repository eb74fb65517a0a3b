import CeRs.Utf8

/-!
# Byte strings cut into chunks

A way of cutting a string is a list of chunks; each element is marked if it is
the first of its chunk.  Decoding the chunks of an encoded text one by one
keeps every character that lies in one chunk, and turns a character that is cut
into at least two replacement characters.
-/

namespace CeRs.Chunks

open Utf8

variable {Element : Type*}

/-- Mark the first element of a chunk. -/
def markChunk : List Element → List (Element × Bool)
  | [] => []
  | first :: rest => (first, true) :: rest.map fun element => (element, false)

/-- The elements of all chunks, each with whether it is the first of its
chunk. -/
def marked (chunks : List (List Element)) : List (Element × Bool) :=
  chunks.flatMap markChunk

@[simp] theorem map_fst_markChunk (chunk : List Element) :
    (markChunk chunk).map Prod.fst = chunk := by
  cases chunk with
  | nil => rfl
  | cons first rest => simp [markChunk, Function.comp_def]

@[simp] theorem map_fst_marked (chunks : List (List Element)) :
    (marked chunks).map Prod.fst = chunks.flatten := by
  induction chunks with
  | nil => rfl
  | cons chunk rest induction =>
      simpa [marked] using induction

/-- Leave out the empty chunks at the front. -/
def dropEmpty : List (List Element) → List (List Element)
  | [] :: rest => dropEmpty rest
  | chunks => chunks

theorem marked_dropEmpty (chunks : List (List Element)) :
    marked (dropEmpty chunks) = marked chunks := by
  induction chunks with
  | nil => rfl
  | cons chunk rest induction =>
      cases chunk with
      | nil => exact induction
      | cons first chunk => rfl

theorem dropEmpty_of_flatten {chunks : List (List Element)} {first : Element}
    {later : List Element} (flatten : chunks.flatten = first :: later) :
    ∃ chunk rest, dropEmpty chunks = (first :: chunk) :: rest ∧ later = chunk ++ rest.flatten := by
  induction chunks with
  | nil => simp at flatten
  | cons chunk rest induction =>
      cases chunk with
      | nil => exact induction (by simpa using flatten)
      | cons head chunk =>
          obtain ⟨rfl, rfl⟩ := List.cons.inj flatten
          exact ⟨chunk, rest, rfl, rfl⟩

/-- Which bytes are the first of their chunk. -/
def starts (chunks : List (List Element)) : List Bool :=
  (marked chunks).map Prod.snd

theorem starts_dropEmpty (chunks : List (List Element)) :
    starts (dropEmpty chunks) = starts chunks :=
  congrArg (List.map Prod.snd) (marked_dropEmpty chunks)

/-- Decode each chunk on its own. -/
def decodeEach (chunks : List (List UInt8)) : List Char :=
  chunks.flatMap fromUtf8Lossy

theorem decodeEach_dropEmpty (chunks : List (List UInt8)) :
    decodeEach (dropEmpty chunks) = decodeEach chunks := by
  induction chunks with
  | nil => rfl
  | cons chunk rest induction =>
      cases chunk with
      | nil => exact induction
      | cons first chunk => rfl

/-- The first cut strictly inside a character, given the marks of its bytes. -/
def firstCut (flags : List Bool) : Option Nat :=
  (flags.tail.findIdx? id).map (· + 1)

/-- Each character with the first cut inside it, given the marks of the bytes. -/
def cuts : List Char → List Bool → List (Char × Option Nat)
  | [], _ => []
  | character :: rest, flags =>
      let size := (String.utf8EncodeChar character).length
      (character, firstCut (flags.take size)) :: cuts rest (flags.drop size)

/-- What a character becomes: itself, or one replacement for its first part
and one for each byte of the rest. -/
def damage : Char × Option Nat → List Char
  | (character, none) => [character]
  | (character, some cut) =>
      List.replicate (1 + ((String.utf8EncodeChar character).length - cut)) replacement

theorem length_utf8EncodeChar_pos (character : Char) :
    0 < (String.utf8EncodeChar character).length :=
  List.length_pos_of_ne_nil String.utf8EncodeChar_ne_nil

@[simp] theorem map_fst_cuts (text : List Char) (flags : List Bool) :
    (cuts text flags).map Prod.fst = text := by
  induction text generalizing flags with
  | nil => rfl
  | cons character rest induction => simp [cuts, induction]

theorem firstCut_range {flags : List Bool} {cut : Nat} (found : firstCut flags = some cut) :
    0 < cut ∧ cut < flags.length := by
  obtain ⟨position, located, rfl⟩ := Option.map_eq_some_iff.mp found
  have bound : position < flags.tail.length := (List.findIdx?_eq_some_iff_getElem.mp located).1
  rw [List.length_tail] at bound
  omega

/-- The cut, if any, lies inside the character. -/
def Inside (character : Char × Option Nat) : Prop :=
  ∀ cut, character.2 = some cut → 0 < cut ∧ cut < (String.utf8EncodeChar character.1).length

theorem inside_of_mem_cuts {text : List Char} {flags : List Bool} {character : Char × Option Nat}
    (member : character ∈ cuts text flags) : Inside character := by
  induction text generalizing flags with
  | nil => simp [cuts] at member
  | cons first rest induction =>
      rcases List.mem_cons.mp member with rfl | member
      · intro cut found
        obtain ⟨positive, bound⟩ := firstCut_range found
        exact ⟨positive, Nat.lt_of_lt_of_le bound (List.length_take_le _ _)⟩
      · exact induction member

theorem damage_ascii {character : Char × Option Nat} (inside : Inside character)
    (ascii : character.1.toNat < 0x80) : damage character = [character.1] := by
  obtain ⟨character, cut⟩ := character
  cases cut with
  | none => rfl
  | some cut =>
      obtain ⟨positive, proper⟩ : 0 < cut ∧ cut < (String.utf8EncodeChar character).length :=
        inside cut rfl
      have size : (String.utf8EncodeChar character).length = 1 := by
        rw [String.length_utf8EncodeChar, Char.utf8Size_eq_one_iff, UInt32.le_iff_toNat_le]
        exact Nat.le_of_lt_succ ascii
      omega

theorem length_damage {character : Char × Option Nat} (inside : Inside character) :
    1 ≤ (damage character).length ∧ ((damage character).length = 1 ↔ character.2 = none) := by
  obtain ⟨character, cut⟩ := character
  cases cut with
  | none => simp [damage]
  | some cut =>
      obtain ⟨positive, proper⟩ : 0 < cut ∧ cut < (String.utf8EncodeChar character).length :=
        inside cut rfl
      simp only [damage, List.length_replicate, reduceCtorEq, iff_false]
      omega

/-- Whether a boundary lies before the first byte does not matter. -/
theorem cuts_congr (text : List Char) {first second : List Bool}
    (same : first.drop 1 = second.drop 1) : cuts text first = cuts text second := by
  cases text with
  | nil => rfl
  | cons character rest =>
      have positive := length_utf8EncodeChar_pos character
      obtain ⟨size, length⟩ : ∃ size, (String.utf8EncodeChar character).length = 1 + size :=
        ⟨_, (Nat.add_sub_cancel' positive).symm⟩
      have flags : (first.take (1 + size)).drop 1 = (second.take (1 + size)).drop 1 := by
        rw [List.drop_take, List.drop_take, same]
      have later : first.drop (1 + size) = second.drop (1 + size) := by
        rw [← List.drop_drop, ← List.drop_drop, same]
      simp only [cuts, length, firstCut, ← List.drop_one, flags, later]

/-- Reading on after some bytes: what is left of the chunks, whose marks agree
but for the first. -/
structure Rest (chunks : List (List UInt8)) (read : Nat) (later : List UInt8)
    (left : List (List UInt8)) : Prop where
  flatten : left.flatten = later
  starts : ((starts chunks).drop read).drop 1 = (starts left).drop 1

theorem starts_cons (chunk : List Element) (rest : List (List Element)) :
    starts (chunk :: rest) = (markChunk chunk).map Prod.snd ++ starts rest := by
  simp [starts, marked]

theorem map_snd_markChunk (first : Element) (rest : List Element) :
    (markChunk (first :: rest)).map Prod.snd = true :: List.replicate rest.length false := by
  simp [markChunk, Function.comp_def]

theorem starts_append (first second : List Element) (rest : List (List Element)) :
    ((starts ((first ++ second) :: rest)).drop first.length).drop 1 =
      (starts (second :: rest)).drop 1 := by
  cases first with
  | nil => rfl
  | cons head first =>
      cases second with
      | nil => simp [starts_cons, markChunk]
      | cons next second =>
          have shape : starts ((head :: first ++ next :: second) :: rest) =
              (true :: List.replicate first.length false) ++
                (false :: List.replicate second.length false ++ starts rest) := by
            simp [starts_cons, markChunk, Function.comp_def]
          rw [shape, List.drop_left' (by simp), starts_cons, map_snd_markChunk]
          rfl

theorem Rest.trans {chunks middle left : List (List UInt8)} {first second : Nat}
    {between later : List UInt8} (one : Rest chunks first between middle)
    (two : Rest middle second later left) : Rest chunks (first + second) later left where
  flatten := two.flatten
  starts := by
    have flags := two.starts
    rw [List.drop_drop, Nat.add_comm second 1, ← List.drop_drop, ← one.starts] at flags
    rw [← flags]
    simp only [List.drop_drop]
    congr 1
    omega

/-- Part of the first chunk is read. -/
theorem Rest.of_append {chunks : List (List UInt8)} {first second : List UInt8}
    {rest : List (List UInt8)} (shape : dropEmpty chunks = (first ++ second) :: rest) :
    Rest chunks first.length (second ++ rest.flatten) (second :: rest) where
  flatten := rfl
  starts := by
    rw [← starts_dropEmpty, shape]
    exact starts_append first second rest

/-- Stray continuation bytes at the front become replacement characters. -/
theorem decodeEach_continuations {chunks : List (List UInt8)} {stray later : List UInt8}
    (continues : ∀ byte ∈ stray, Continuation byte) (flatten : chunks.flatten = stray ++ later) :
    ∃ left, Rest chunks stray.length later left ∧
      decodeEach chunks = List.replicate stray.length replacement ++ decodeEach left := by
  induction stray generalizing chunks with
  | nil => exact ⟨chunks, ⟨flatten, rfl⟩, rfl⟩
  | cons byte stray induction =>
      obtain ⟨chunk, rest, shape, split⟩ := dropEmpty_of_flatten flatten
      obtain ⟨left, read, decoded⟩ := induction
        (fun other member => continues other (List.mem_cons_of_mem _ member))
        (show (chunk :: rest).flatten = stray ++ later from split.symm)
      have one : Rest chunks 1 (chunk ++ rest.flatten) (chunk :: rest) :=
        Rest.of_append (show dropEmpty chunks = ([byte] ++ chunk) :: rest from shape)
      refine ⟨left, ?_, ?_⟩
      · rw [List.length_cons, Nat.add_comm]
        exact one.trans read
      · rw [← decodeEach_dropEmpty, shape, List.length_cons, List.replicate_succ, decodeEach,
          List.flatMap_cons, fromUtf8Lossy_continuation (continues byte (by simp)),
          List.cons_append, List.cons_append, ← decoded]
        rfl

theorem starts_of_shape {chunks rest : List (List UInt8)} {byte : UInt8} {chunk : List UInt8}
    (shape : dropEmpty chunks = (byte :: chunk) :: rest) :
    starts chunks = true :: (List.replicate chunk.length false ++ starts rest) := by
  rw [← starts_dropEmpty, shape, starts_cons, map_snd_markChunk]
  rfl

theorem starts_of_flatten {chunks : List (List UInt8)} {byte : UInt8} {later : List UInt8}
    (flatten : chunks.flatten = byte :: later) : ∃ flags, starts chunks = true :: flags := by
  obtain ⟨chunk, rest, shape, -⟩ := dropEmpty_of_flatten flatten
  exact ⟨_, starts_of_shape shape⟩

theorem firstCut_none (count : Nat) : firstCut (true :: List.replicate count false) = none := by
  simp [firstCut]

theorem firstCut_some (count : Nat) (flags : List Bool) :
    firstCut (true :: (List.replicate count false ++ true :: flags)) = some (count + 1) := by
  induction count with
  | zero => rfl
  | succ count induction =>
      simp only [firstCut, List.tail_cons] at induction ⊢
      rw [List.replicate_succ, List.cons_append, List.findIdx?_cons]
      simpa using induction

theorem whole_or_cut {bytes later chunk flat : List UInt8}
    (split : bytes ++ later = chunk ++ flat) :
    (∃ second, chunk = bytes ++ second ∧ later = second ++ flat) ∨
      ∃ next stray, bytes = chunk ++ next :: stray ∧ flat = next :: stray ++ later := by
  rcases List.append_eq_append_iff.mp split with whole | ⟨stray, equal, remaining⟩
  · exact .inl whole
  · cases stray with
    | nil => exact .inl ⟨[], by simpa using equal.symm, by simpa using remaining.symm⟩
    | cons next stray => exact .inr ⟨next, stray, equal, remaining⟩

/-- The first character of an encoded text, decoded from the chunks. -/
theorem decodeEach_character {chunks : List (List UInt8)} {character : Char} {later : List UInt8}
    (flatten : chunks.flatten = String.utf8EncodeChar character ++ later) :
    ∃ left, Rest chunks (String.utf8EncodeChar character).length later left ∧
      decodeEach chunks =
        damage (character,
          firstCut ((starts chunks).take (String.utf8EncodeChar character).length)) ++
          decodeEach left := by
  obtain ⟨byte, bytes, encoded⟩ :=
    List.exists_cons_of_ne_nil (String.utf8EncodeChar_ne_nil (c := character))
  have flat : chunks.flatten = byte :: (bytes ++ later) := by rw [flatten, encoded]; rfl
  obtain ⟨chunk, rest, shape, split⟩ := dropEmpty_of_flatten flat
  rcases whole_or_cut split with ⟨second, rfl, rfl⟩ | ⟨next, stray, rfl, remaining⟩
  · -- The character ends in the chunk it starts in.
    have shape' : dropEmpty chunks = (String.utf8EncodeChar character ++ second) :: rest := by
      rw [shape, encoded]
      rfl
    refine ⟨second :: rest, .of_append shape', ?_⟩
    have uncut : firstCut ((starts chunks).take (String.utf8EncodeChar character).length) =
        none := by
      rw [starts_of_shape shape, encoded, List.length_cons, List.take_succ_cons, List.length_append,
        List.replicate_add, List.append_assoc, List.take_left' (List.length_replicate ..)]
      exact firstCut_none bytes.length
    rw [uncut, ← decodeEach_dropEmpty, shape', decodeEach, List.flatMap_cons,
      fromUtf8Lossy_utf8EncodeChar_append]
    rfl
  · -- The chunk ends inside the character.
    have size : (String.utf8EncodeChar character).length =
        (byte :: chunk).length + (next :: stray).length := by
      rw [encoded, ← List.length_append]
      rfl
    have head : byte :: chunk = (String.utf8EncodeChar character).take (chunk.length + 1) := by
      rw [encoded, List.take_succ_cons, List.take_left]
    have tail : next :: stray = (String.utf8EncodeChar character).drop (chunk.length + 1) := by
      rw [encoded, List.drop_succ_cons, List.drop_left]
    have shape' : dropEmpty chunks = (byte :: chunk ++ []) :: rest := by
      rw [shape, List.append_nil]
    obtain ⟨left, read, decoded⟩ := decodeEach_continuations
      (tail ▸ continuation_drop_utf8EncodeChar character (Nat.succ_pos _))
      (show ([] :: rest).flatten = next :: stray ++ later from remaining)
    refine ⟨left, ?_, ?_⟩
    · rw [size]
      exact (Rest.of_append shape').trans read
    · obtain ⟨flags, starts_rest⟩ := starts_of_flatten remaining
      have cut : firstCut ((starts chunks).take (String.utf8EncodeChar character).length) =
          some (chunk.length + 1) := by
        have prefixed : (true :: (List.replicate chunk.length false ++ true :: flags)).take
            ((byte :: chunk).length + (next :: stray).length) =
            true :: (List.replicate chunk.length false ++ true :: flags.take stray.length) := by
          rw [List.length_cons, List.length_cons, Nat.add_right_comm, List.take_succ_cons,
            List.take_append, List.take_of_length_le (by simp), List.length_replicate,
            Nat.add_sub_cancel_left, List.take_succ_cons]
        rw [starts_of_shape shape, size, starts_rest, prefixed]
        exact firstCut_some chunk.length _
      have count : 1 + ((String.utf8EncodeChar character).length - (chunk.length + 1)) =
          (next :: stray).length + 1 := by
        rw [size, List.length_cons]
        omega
      rw [cut, damage, count, List.replicate_succ, List.cons_append, ← decoded,
        ← decodeEach_dropEmpty chunks, shape, decodeEach, List.flatMap_cons, head,
        fromUtf8Lossy_take_utf8EncodeChar character (Nat.succ_pos _) (by rw [size]; simp)]
      rfl

/-- What an encoded text becomes when its chunks are decoded one by one. -/
theorem decodeEach_encode (text : List Char) {chunks : List (List UInt8)}
    (flatten : chunks.flatten = encode text) :
    decodeEach chunks = (cuts text (starts chunks)).flatMap damage := by
  induction text generalizing chunks with
  | nil =>
      have empty : ∀ chunk ∈ chunks, chunk = [] := List.flatten_eq_nil_iff.mp flatten
      exact List.flatMap_eq_nil_iff.mpr fun chunk member => by rw [empty chunk member]; rfl
  | cons character rest induction =>
      obtain ⟨left, read, decoded⟩ := decodeEach_character
        (show chunks.flatten = String.utf8EncodeChar character ++ encode rest from flatten)
      rw [decoded, induction read.flatten, cuts, List.flatMap_cons, cuts_congr rest read.starts]

end CeRs.Chunks
