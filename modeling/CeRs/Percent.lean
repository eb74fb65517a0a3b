import CeRs.Hex
import CeRs.Utf8
import Mathlib.Data.List.Flatten

/-!
# Percent-encoding

A triple, a percent sign and two hexadecimal digits, stands for one byte.
Decoding leaves everything else as it is, so a text without triples decodes to
its own bytes, and escaping characters never changes what a text decodes to.
-/

namespace CeRs.Percent

/-- Three characters that stand for a byte. -/
def isTriple (first high low : Char) : Bool :=
  first == '%' && (Hex.digitValue high).isSome && (Hex.digitValue low).isSome

theorem isTriple_iff {first high low : Char} :
    isTriple first high low = true ↔ first = '%' ∧ (Hex.digitValue high).isSome = true ∧
      (Hex.digitValue low).isSome = true := by
  rw [isTriple, Bool.and_eq_true, Bool.and_eq_true, beq_iff_eq, and_assoc]

/-- The byte that two digits stand for. -/
def byteOf (high low : Char) : UInt8 :=
  UInt8.ofNat (16 * (Hex.digitValue high).getD 0 + (Hex.digitValue low).getD 0)

def decode : List Char → List UInt8
  | [] => []
  | first :: high :: low :: rest =>
      if isTriple first high low then byteOf high low :: decode rest
      else String.utf8EncodeChar first ++ decode (high :: low :: rest)
  | first :: rest => String.utf8EncodeChar first ++ decode rest

def hasTriple : List Char → Bool
  | first :: high :: low :: rest => isTriple first high low || hasTriple (high :: low :: rest)
  | _ => false

/-- The upper-case digit of a value below sixteen. -/
def digit (value : Nat) : Char :=
  if value < 10 then Char.ofNat (48 + value) else Char.ofNat (55 + value)

def encodeByte (byte : UInt8) : List Char :=
  ['%', digit (byte.toNat / 16), digit (byte.toNat % 16)]

/-- Escape the bytes of the characters that are to be escaped. -/
def escape (escaped : Char → Bool) (text : List Char) : List Char :=
  text.flatMap fun character =>
    if escaped character then (String.utf8EncodeChar character).flatMap encodeByte
    else [character]

/-- The text goes on so that this character does not begin a triple. -/
def NoTriple (first : Char) (text : List Char) : Prop :=
  ∀ high low rest, text = high :: low :: rest → isTriple first high low = false

theorem decode_cons {first : Char} {text : List Char} (no : NoTriple first text) :
    decode (first :: text) = String.utf8EncodeChar first ++ decode text := by
  rcases text with - | ⟨high, - | ⟨low, rest⟩⟩
  · rfl
  · rfl
  · rw [decode, no high low rest rfl]
    rfl

theorem noTriple_of_ne {first : Char} (other : first ≠ '%') (text : List Char) :
    NoTriple first text := by
  intro high low rest _
  simp [isTriple, other]

theorem noTriple_of_plain {first high low : Char} {rest : List Char}
    (plain : isTriple first high low = false) : NoTriple first (high :: low :: rest) := by
  intro high' low' rest' equal
  obtain ⟨same, equal⟩ := List.cons.inj equal
  obtain ⟨same', -⟩ := List.cons.inj equal
  rw [← same, ← same', plain]

theorem decode_triple {high low : Char} (text : List Char)
    (triple : isTriple '%' high low = true) :
    decode ('%' :: high :: low :: text) = byteOf high low :: decode text := by
  rw [decode, if_pos triple]

theorem length_encode_cons (first : Char) (text : List Char) :
    (Utf8.encode text).length < (Utf8.encode (first :: text)).length := by
  have positive : 0 < (String.utf8EncodeChar first).length :=
    List.length_pos_of_ne_nil String.utf8EncodeChar_ne_nil
  rw [Utf8.encode_cons, List.length_append]
  omega

theorem length_encode_triple (first high low : Char) (text : List Char) :
    (Utf8.encode text).length + 2 < (Utf8.encode (first :: high :: low :: text)).length := by
  have one := length_encode_cons low text
  have two := length_encode_cons high (low :: text)
  have three := length_encode_cons first (high :: low :: text)
  omega

theorem eq_of_length_encode_le {part text : List Char} (sublist : part.Sublist text)
    (long : (Utf8.encode text).length ≤ (Utf8.encode part).length) : part = text := by
  induction sublist with
  | slnil => rfl
  | @cons part text first sublist induction =>
      have shorter := (sublist.flatMap String.utf8EncodeChar).length_le
      have longer := length_encode_cons first text
      change (Utf8.encode part).length ≤ (Utf8.encode text).length at shorter
      omega
  | @cons_cons part text first sublist induction =>
      rw [Utf8.encode_cons, Utf8.encode_cons, List.length_append, List.length_append] at long
      rw [induction (by omega)]

theorem length_decode_le (text : List Char) :
    (decode text).length ≤ (Utf8.encode text).length := by
  fun_induction decode text with
  | case1 => exact Nat.le_refl 0
  | case2 first high low rest triple induction =>
      have longer := length_encode_triple first high low rest
      rw [List.length_cons]
      omega
  | case3 first high low rest plain induction =>
      rw [Utf8.encode_cons, List.length_append, List.length_append]
      omega
  | case4 first rest short induction =>
      rw [Utf8.encode_cons, List.length_append, List.length_append]
      omega

/-- A text decodes to its own bytes exactly if it has no triple: each triple
makes the result shorter. -/
theorem decode_eq_encode_iff {text : List Char} :
    decode text = Utf8.encode text ↔ hasTriple text = false := by
  fun_induction decode text with
  | case1 => simp [hasTriple, Utf8.encode]
  | case2 first high low rest triple induction =>
      refine iff_of_false (fun equal => ?_) (by simp [hasTriple, triple])
      have size := congrArg List.length equal
      have bound := length_decode_le rest
      have longer := length_encode_triple first high low rest
      rw [List.length_cons] at size
      omega
  | case3 first high low rest plain induction =>
      rw [Utf8.encode_cons, List.append_cancel_left_eq, induction]
      simp [hasTriple, plain]
  | case4 first rest short induction =>
      rw [Utf8.encode_cons, List.append_cancel_left_eq, induction]
      rcases rest with - | ⟨high, - | ⟨low, rest⟩⟩
      · simp [hasTriple]
      · simp [hasTriple]
      · exact absurd rfl (short high low rest)

section Escaping

theorem digitValue_digit {value : Nat} (small : value < 16) :
    Hex.digitValue (digit value) = some value := by
  have each : ∀ value : Fin 16, Hex.digitValue (digit value) = some value.val := by decide
  exact each ⟨value, small⟩

theorem isTriple_encodeByte (byte : UInt8) :
    isTriple '%' (digit (byte.toNat / 16)) (digit (byte.toNat % 16)) = true := by
  have bound := byte.toNat_lt
  simp [isTriple, digitValue_digit (show byte.toNat / 16 < 16 by omega),
    digitValue_digit (show byte.toNat % 16 < 16 by omega)]

theorem byteOf_digits (byte : UInt8) :
    byteOf (digit (byte.toNat / 16)) (digit (byte.toNat % 16)) = byte := by
  have bound := byte.toNat_lt
  rw [byteOf, digitValue_digit (by omega), digitValue_digit (by omega), Option.getD_some,
    Option.getD_some, Nat.div_add_mod, UInt8.ofNat_toNat]

theorem decode_flatMap_encodeByte (bytes : List UInt8) (text : List Char) :
    decode (bytes.flatMap encodeByte ++ text) = bytes ++ decode text := by
  induction bytes with
  | nil => rfl
  | cons byte rest induction =>
      change decode ('%' :: digit (byte.toNat / 16) :: digit (byte.toNat % 16) ::
        (rest.flatMap encodeByte ++ text)) = _
      rw [decode_triple _ (isTriple_encodeByte byte), byteOf_digits, induction, List.cons_append]

/-- Bytes of which some are kept as characters and the others encoded decode to
themselves. -/
theorem decode_flatMap_kept {keeps : UInt8 → Bool}
    (plain : ∀ byte, keeps byte = true → Char.ofNat byte.toNat ≠ '%' ∧
      String.utf8EncodeChar (Char.ofNat byte.toNat) = [byte]) (bytes : List UInt8) :
    decode (bytes.flatMap fun byte =>
      if keeps byte then [Char.ofNat byte.toNat] else encodeByte byte) = bytes := by
  induction bytes with
  | nil => rfl
  | cons byte rest induction =>
      rw [List.flatMap_cons]
      cases kept : keeps byte with
      | true =>
          obtain ⟨other, encoded⟩ := plain byte kept
          rw [if_pos rfl, List.singleton_append, decode_cons (noTriple_of_ne other _), encoded,
            induction, List.singleton_append]
      | false =>
          have encoded := decode_flatMap_encodeByte [byte] (rest.flatMap fun byte =>
            if keeps byte then [Char.ofNat byte.toNat] else encodeByte byte)
          rw [List.flatMap_singleton, induction] at encoded
          rw [if_neg Bool.false_ne_true, encoded, List.singleton_append]

/-- Percent signs and digits are not escaped. -/
structure KeepsTriples (escaped : Char → Bool) : Prop where
  percent : escaped '%' = false
  digits : ∀ character, (Hex.digitValue character).isSome = true → escaped character = false

variable {escaped : Char → Bool}

theorem escape_cons (first : Char) (text : List Char) :
    escape escaped (first :: text) =
      (if escaped first then (String.utf8EncodeChar first).flatMap encodeByte else [first]) ++
        escape escaped text := rfl

theorem escape_eq_self {text : List Char} (kept : ∀ character ∈ text, escaped character = false) :
    escape escaped text = text := by
  induction text with
  | nil => rfl
  | cons first rest induction =>
      rw [escape_cons, kept first (List.mem_cons_self ..),
        induction fun character member => kept character (List.mem_cons_of_mem _ member)]
      rfl

theorem escape_eq_cons {first : Char} {text rest : List Char}
    (digit : (Hex.digitValue first).isSome = true) (equal : escape escaped text = first :: rest) :
    ∃ later, text = first :: later ∧ rest = escape escaped later := by
  cases text with
  | nil => cases equal
  | cons head later =>
      rw [escape_cons] at equal
      by_cases replaced : escaped head = true
      · rw [if_pos replaced] at equal
        obtain ⟨byte, bytes, split⟩ := List.exists_cons_of_ne_nil
          (String.utf8EncodeChar_ne_nil (c := head))
        rw [split, List.flatMap_cons] at equal
        obtain ⟨rfl, -⟩ := List.cons.inj equal
        exact absurd digit (by decide)
      · rw [if_neg replaced] at equal
        obtain ⟨rfl, rfl⟩ := List.cons.inj equal
        exact ⟨later, rfl, rfl⟩

/-- Escaping makes no new triple: what is escaped begins with a percent sign,
which is no digit. -/
theorem noTriple_escape {first : Char} {text : List Char} (no : NoTriple first text) :
    NoTriple first (escape escaped text) := by
  intro high low rest equal
  refine Bool.eq_false_iff.mpr fun triple => ?_
  obtain ⟨-, upper, lower⟩ := isTriple_iff.mp triple
  obtain ⟨later, rfl, equal'⟩ := escape_eq_cons upper equal
  obtain ⟨after, rfl, -⟩ := escape_eq_cons lower equal'.symm
  exact Bool.false_ne_true ((no high low after rfl).symm.trans triple)

theorem decode_escape_cons {first : Char} {text : List Char} (no : NoTriple first text) :
    decode (escape escaped (first :: text)) =
      String.utf8EncodeChar first ++ decode (escape escaped text) := by
  rw [escape_cons]
  split
  · rw [decode_flatMap_encodeByte]
  · exact decode_cons (noTriple_escape no)

/-- Escaping does not change what a text decodes to. -/
theorem decode_escape (keeps : KeepsTriples escaped) (text : List Char) :
    decode (escape escaped text) = decode text := by
  fun_induction decode text with
  | case1 => rfl
  | case2 first high low rest triple induction =>
      obtain ⟨rfl, upper, lower⟩ := isTriple_iff.mp triple
      rw [escape_cons, escape_cons, escape_cons, keeps.percent, keeps.digits high upper,
        keeps.digits low lower]
      exact (decode_triple _ triple).trans (congrArg _ induction)
  | case3 first high low rest plain induction =>
      rw [decode_escape_cons (noTriple_of_plain (Bool.eq_false_iff.mpr plain)), induction]
  | case4 first rest short induction =>
      rw [decode_escape_cons, induction]
      intro high low after equal
      exact absurd equal (short high low after)

end Escaping

end CeRs.Percent
