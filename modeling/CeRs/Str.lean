import CeRs.Utf8

/-!
# Strings that are sliced at byte indices

A string is the bytes of a text.  It may only be sliced at the boundaries of its
characters; a slice at any other index panics.
-/

namespace CeRs.Utf8

/-- Bytes that are valid UTF-8. -/
structure Str where
  bytes : List UInt8
  valid : ∃ text, encode text = bytes

/-- The index is inside a character or behind the end. -/
inductive Panic
  | notCharBoundary (index : Nat)
  deriving DecidableEq, Repr

instance (byte : UInt8) : Decidable (Continuation byte) :=
  inferInstanceAs (Decidable (_ ∧ _))

theorem exists_of_bind_ok {Error First Second : Type} {first : Except Error First}
    {next : First → Except Error Second} {result : Second} (ok : first >>= next = .ok result) :
    ∃ value, first = .ok value ∧ next value = .ok result := by
  cases first with
  | error => cases ok
  | ok value => exact ⟨value, rfl, ok⟩

/-- `str::is_char_boundary`. -/
def isCharBoundary (bytes : List UInt8) (index : Nat) : Bool :=
  index == 0 ||
    match bytes[index]? with
    | some byte => !decide (Continuation byte)
    | none => index == bytes.length

theorem eq_of_ascii_mem {character : Char} {byte : UInt8} (ascii : byte.toNat < 0x80)
    (member : byte ∈ String.utf8EncodeChar character) : character = Char.ofNat byte.toNat := by
  have passes := passes_utf8EncodeChar character
  generalize String.utf8EncodeChar character = bytes at passes member
  cases passes with
  | last _ first emits =>
      obtain rfl := List.mem_singleton.mp member
      rw [step, lead_ascii ascii] at emits
      simpa using emits.symm
  | more _ first rest needed lower upper value waits continues _ =>
      rcases List.mem_cons.mp member with rfl | later
      · rw [step, lead_ascii ascii] at waits
        simp at waits
      · have high := (continues byte later).1
        omega

theorem not_continuation_head (character : Char) :
    ∀ byte ∈ (String.utf8EncodeChar character).head?, ¬ Continuation byte := by
  by_cases replaced : character = replacement
  · have first : (String.utf8EncodeChar replacement).head? = some 0xEF := by decide
    simp [replaced, first, Continuation]
  · have passes := passes_utf8EncodeChar character
    generalize String.utf8EncodeChar character = bytes at passes
    rintro byte first continues
    cases passes with
    | last _ other emits =>
        obtain rfl := Option.some.inj first
        rw [step, lead_continuation continues] at emits
        exact replaced (by simpa using emits.symm)
    | more _ other rest needed lower upper value waits _ _ =>
        obtain rfl := Option.some.inj first
        rw [step, lead_continuation continues] at waits
        simp at waits

theorem head?_encode_cons (character : Char) (text : List Char) :
    (encode (character :: text)).head? = (String.utf8EncodeChar character).head? := by
  rw [encode_cons, List.head?_append_of_ne_nil _ String.utf8EncodeChar_ne_nil]

theorem isCharBoundary_append (first second : List Char) :
    isCharBoundary (encode (first ++ second)) (encode first).length = true := by
  have next : (encode (first ++ second))[(encode first).length]? = (encode second).head? := by
    rw [encode_append, List.getElem?_append_right (Nat.le_refl _), Nat.sub_self,
      List.head?_eq_getElem?]
  rw [isCharBoundary, next]
  cases second with
  | nil => simp [encode]
  | cons character second =>
      rw [head?_encode_cons]
      cases head : (String.utf8EncodeChar character).head? with
      | none => exact absurd (List.head?_eq_none_iff.mp head) String.utf8EncodeChar_ne_nil
      | some byte => simp [not_continuation_head character byte head]

theorem not_isCharBoundary {character : Char} (text : List Char) {index : Nat}
    (positive : 0 < index) (inside : index < (String.utf8EncodeChar character).length) :
    isCharBoundary (encode (character :: text)) index = false := by
  have byte : (encode (character :: text))[index]? =
      some (String.utf8EncodeChar character)[index] := by
    rw [encode_cons, List.getElem?_append_left inside, List.getElem?_eq_getElem inside]
  have continues : Continuation (String.utf8EncodeChar character)[index] := by
    apply continuation_drop_utf8EncodeChar character positive
    rw [List.drop_eq_getElem_cons inside]
    exact List.mem_cons_self
  simp [isCharBoundary, byte, continues, Nat.ne_of_gt positive]

theorem isCharBoundary_of_cons {character : Char} {text : List Char} {later : Nat}
    (nonzero : (String.utf8EncodeChar character).length + later ≠ 0)
    (boundary : isCharBoundary (encode (character :: text))
      ((String.utf8EncodeChar character).length + later) = true) :
    isCharBoundary (encode text) later = true := by
  rw [isCharBoundary, beq_false_of_ne nonzero, Bool.false_or, encode_cons,
    List.getElem?_append_right (Nat.le_add_right _ _), Nat.add_sub_cancel_left] at boundary
  rw [isCharBoundary, Bool.or_eq_true]
  right
  cases byte : (encode text)[later]? with
  | none => simpa [byte] using boundary
  | some byte => simpa [byte] using boundary

theorem exists_of_isCharBoundary {text : List Char} {index : Nat}
    (boundary : isCharBoundary (encode text) index = true) :
    ∃ first second, text = first ++ second ∧ index = (encode first).length := by
  induction text generalizing index with
  | nil => exact ⟨[], [], rfl, by simpa [isCharBoundary, encode] using boundary⟩
  | cons character text induction =>
      rcases Nat.eq_zero_or_pos index with rfl | positive
      · exact ⟨[], character :: text, rfl, rfl⟩
      · by_cases inside : index < (String.utf8EncodeChar character).length
        · rw [not_isCharBoundary text positive inside] at boundary
          cases boundary
        · obtain ⟨later, rfl⟩ := Nat.exists_eq_add_of_le (Nat.le_of_not_lt inside)
          have rest := isCharBoundary_of_cons (Nat.ne_of_gt positive) boundary
          obtain ⟨first, second, rfl, rfl⟩ := induction rest
          exact ⟨character :: first, second, rfl, by simp [encode_cons]⟩

namespace Str

def ofText (text : List Char) : Str :=
  ⟨encode text, text, rfl⟩

@[simp] theorem bytes_ofText (text : List Char) : (ofText text).bytes = encode text := rfl

theorem exists_ofText (string : Str) : ∃ text, string = ofText text := by
  obtain ⟨bytes, text, rfl⟩ := string
  exact ⟨text, rfl⟩

/-- A string is cut at a boundary into two texts. -/
theorem exists_cut (string : Str) {index : Nat}
    (boundary : isCharBoundary string.bytes index = true) :
    ∃ first second, string.bytes = encode first ++ encode second ∧
      index = (encode first).length := by
  obtain ⟨text, rfl⟩ := string.exists_ofText
  obtain ⟨first, second, rfl, rfl⟩ := exists_of_isCharBoundary boundary
  exact ⟨first, second, encode_append first second, rfl⟩

theorem valid_take (string : Str) {index : Nat}
    (boundary : isCharBoundary string.bytes index = true) :
    ∃ text, encode text = string.bytes.take index := by
  obtain ⟨first, second, bytes, rfl⟩ := string.exists_cut boundary
  exact ⟨first, by simp [bytes]⟩

theorem valid_drop (string : Str) {index : Nat}
    (boundary : isCharBoundary string.bytes index = true) :
    ∃ text, encode text = string.bytes.drop index := by
  obtain ⟨first, second, bytes, rfl⟩ := string.exists_cut boundary
  exact ⟨second, by simp [bytes]⟩

/-- `&s[..index]`. -/
def upTo (string : Str) (index : Nat) : Except Panic Str :=
  if boundary : isCharBoundary string.bytes index = true then
    .ok ⟨string.bytes.take index, string.valid_take boundary⟩
  else .error (.notCharBoundary index)

/-- `&s[index..]`. -/
def beyond (string : Str) (index : Nat) : Except Panic Str :=
  if boundary : isCharBoundary string.bytes index = true then
    .ok ⟨string.bytes.drop index, string.valid_drop boundary⟩
  else .error (.notCharBoundary index)

theorem isCharBoundary_ofText (first second : List Char) :
    isCharBoundary (ofText (first ++ second)).bytes (encode first).length = true :=
  isCharBoundary_append first second

theorem upTo_ofText (first second : List Char) :
    (ofText (first ++ second)).upTo (encode first).length = .ok (ofText first) := by
  rw [upTo, dif_pos (isCharBoundary_ofText first second)]
  simp [ofText, encode_append]

theorem beyond_ofText (first second : List Char) :
    (ofText (first ++ second)).beyond (encode first).length = .ok (ofText second) := by
  rw [beyond, dif_pos (isCharBoundary_ofText first second)]
  simp [ofText, encode_append]

theorem bytes_of_beyond {string rest : Str} {index : Nat}
    (sliced : string.beyond index = .ok rest) : rest.bytes = string.bytes.drop index := by
  rw [beyond] at sliced
  split at sliced
  · obtain rfl := Except.ok.inj sliced
    rfl
  · cases sliced

end Str

end CeRs.Utf8
