import CeRs.Sse.Written
import CeRs.Str

/-!
# Lines of a string

`take_line` looks for a terminator byte by byte and slices the string around
it; `push` repeats this on what is left.  No slice is inside a character, and
the lines are those of the text: between them stand the terminators, and a
carriage return is a terminator of its own only where no line feed follows.
-/

namespace CeRs.Sse

open Utf8 (Str Panic encode)

/-- The loop of `take_line` from an index on. -/
def takeLineFrom (string : Str) (index : Nat) : Except Panic (Option (Str × Str)) :=
  if inside : index < string.bytes.length then
    let byte := string.bytes[index]
    if byte = 10 ∨ byte = 13 then do
      let line ← string.upTo index
      -- Collapse a carriage return and its line feed.
      let next := if byte = 13 ∧ string.bytes[index + 1]? = some 10 then index + 2 else index + 1
      let rest ← string.beyond next
      return some (line, rest)
    else takeLineFrom string (index + 1)
  else .ok none
termination_by string.bytes.length - index

/-- `take_line`. -/
def takeLineOf (string : Str) : Except Panic (Option (Str × Str)) :=
  takeLineFrom string 0

theorem length_of_takeLineFrom {string line rest : Str} {index : Nat}
    (split : takeLineFrom string index = .ok (some (line, rest))) :
    rest.bytes.length < string.bytes.length := by
  induction index using takeLineFrom.induct string with
  | case1 index inside byte terminator =>
      rw [takeLineFrom, dif_pos inside, if_pos terminator] at split
      obtain ⟨_, -, split⟩ := Utf8.exists_of_bind_ok split
      obtain ⟨_, sliced, split⟩ := Utf8.exists_of_bind_ok split
      obtain ⟨-, rfl⟩ := Prod.mk.inj (Option.some.inj (Except.ok.inj split))
      rw [Str.bytes_of_beyond sliced, List.length_drop]
      split <;> omega
  | case2 index inside byte noTerminator induction =>
      rw [takeLineFrom, dif_pos inside, if_neg noTerminator] at split
      exact induction split
  | case3 index outside =>
      rw [takeLineFrom, dif_neg outside] at split
      cases split

/-- The loop of `push` on the buffer: the lines it feeds, and the buffer it
leaves. -/
def drain (buffer : Str) : Except Panic (List Str × Str) :=
  match _split : takeLineOf buffer with
  | .error panic => .error panic
  | .ok none => .ok ([], buffer)
  | .ok (some (line, rest)) => do
      let (lines, remainder) ← drain rest
      return (line :: lines, remainder)
termination_by buffer.bytes.length
decreasing_by exact length_of_takeLineFrom _split

/-- What comes behind a terminator does not make it longer. -/
def LineEnding.Whole (ending : LineEnding) (rest : Text) : Prop :=
  ending = .cr → rest.head? ≠ some '\n'

/-- The text of lines, each with its terminator. -/
def joined (parts : List (Text × LineEnding)) : Text :=
  parts.flatMap fun part => part.1 ++ part.2.text

/-- The lines and the incomplete one make up the text, and no terminator is cut
in two. -/
structure Decomposes (text : Text) (parts : List (Text × LineEnding)) (remainder : Text) :
    Prop where
  whole : joined parts ++ remainder = text
  plain : ∀ part ∈ parts, Plain part.1
  incomplete : Plain remainder
  whole_parts : ∀ before part after, parts = before ++ part :: after →
    part.2.Whole (joined after ++ remainder)

theorem LineEnding.whole_of_ne {ending : LineEnding} (other : ending ≠ .cr) (rest : Text) :
    ending.Whole rest :=
  fun cr => absurd cr other

theorem LineEnding.takeLine_text {ending : LineEnding} {rest : Text} (whole : ending.Whole rest) :
    takeLine (ending.text ++ rest) = some ([], rest) := by
  cases ending with
  | lf | crLf => simp [LineEnding.text, takeLine]
  | cr => exact takeLine_cr (whole rfl)

theorem LineEnding.text_inj {first second : LineEnding} (equal : first.text = second.text) :
    first = second := by
  cases first <;> cases second <;> first | rfl | cases equal

theorem takeLine_append {line rest : Text} {ending : LineEnding} (plain : Plain line)
    (whole : ending.Whole rest) :
    takeLine (line ++ (ending.text ++ rest)) = some (line, rest) := by
  induction line with
  | nil => exact LineEnding.takeLine_text whole
  | cons character line induction =>
      obtain ⟨noLf, noCr⟩ := plain character (by simp)
      rw [List.cons_append, takeLine_of_ne noLf noCr,
        induction fun other member => plain other (List.mem_cons_of_mem _ member)]
      rfl

theorem takeLine_plain {text : Text} (plain : Plain text) : takeLine text = none := by
  induction text with
  | nil => rfl
  | cons character text induction =>
      obtain ⟨noLf, noCr⟩ := plain character (by simp)
      rw [takeLine_of_ne noLf noCr,
        induction fun other member => plain other (List.mem_cons_of_mem _ member)]
      rfl

/-- Everything that `take_line` can find in a text. -/
theorem takeLine_cases (text : Text) :
    (takeLine text = none ∧ Plain text) ∨
      ∃ line, ∃ ending : LineEnding, ∃ rest, takeLine text = some (line, rest) ∧ Plain line ∧
        ending.Whole rest ∧ text = line ++ (ending.text ++ rest) := by
  induction text using takeLine.induct with
  | case1 => exact .inl ⟨rfl, by simp [Plain]⟩
  | case2 rest =>
      have whole := LineEnding.whole_of_ne (show LineEnding.lf ≠ .cr by decide) rest
      exact .inr ⟨[], .lf, rest, by simp [takeLine], by simp [Plain], whole, rfl⟩
  | case3 rest =>
      have whole := LineEnding.whole_of_ne (show LineEnding.crLf ≠ .cr by decide) rest
      exact .inr ⟨[], .crLf, rest, by simp [takeLine], by simp [Plain], whole, rfl⟩
  | case4 rest noLf =>
      have alone := head?_ne_lf noLf
      exact .inr ⟨[], .cr, rest, takeLine_cr alone, by simp [Plain], fun _ => alone, rfl⟩
  | case5 character text noLf noCrLf noCr induction =>
      have plain {line : Text} (isPlain : Plain line) : Plain (character :: line) :=
        List.forall_mem_cons.mpr ⟨⟨noLf, noCr⟩, isPlain⟩
      rcases induction with ⟨none, isPlain⟩ | ⟨line, ending, rest, found, isPlain, whole, shape⟩
      · exact .inl ⟨by rw [takeLine_of_ne noLf noCr, none]; rfl, plain isPlain⟩
      · refine .inr ⟨character :: line, ending, rest, ?_, plain isPlain, whole, ?_⟩
        · rw [takeLine_of_ne noLf noCr, found]
          rfl
        · rw [shape, List.cons_append]

/-- A text is drained line by line. -/
theorem induction_takeLine {motive : Text → Prop}
    (plain : ∀ text, Plain text → motive text)
    (terminated : ∀ line rest, ∀ ending : LineEnding, Plain line → ending.Whole rest →
      motive rest → motive (line ++ (ending.text ++ rest)))
    (text : Text) : motive text := by
  rcases takeLine_cases text with ⟨-, isPlain⟩ | ⟨line, ending, rest, found, isPlain, whole, shape⟩
  · exact plain text isPlain
  · rw [shape]
    exact terminated line rest ending isPlain whole (induction_takeLine plain terminated rest)
termination_by text.length
decreasing_by exact length_of_takeLine found

theorem ne_of_mem_encode {text : Text} (plain : Plain text) :
    ∀ byte ∈ encode text, byte ≠ 10 ∧ byte ≠ 13 := by
  intro byte member
  obtain ⟨character, inside, member⟩ := List.mem_flatMap.mp member
  obtain ⟨noLf, noCr⟩ := plain character inside
  constructor
  · rintro rfl
    exact noLf (Utf8.eq_of_ascii_mem (by decide) member)
  · rintro rfl
    exact noCr (Utf8.eq_of_ascii_mem (by decide) member)

theorem head?_of_encode {text : Text} (lf : (encode text).head? = some 10) :
    text.head? = some '\n' := by
  cases text with
  | nil => cases lf
  | cons character text =>
      rw [Utf8.head?_encode_cons] at lf
      have equal := Utf8.eq_of_ascii_mem (by decide) (List.mem_of_mem_head? lf)
      rw [equal]
      rfl

/-- The bytes before the first terminator are passed. -/
theorem takeLineFrom_append {string : Str} (before : List UInt8) {passed : List UInt8}
    (after : List UInt8) (bytes : string.bytes = before ++ (passed ++ after))
    (noTerminator : ∀ byte ∈ passed, byte ≠ 10 ∧ byte ≠ 13) :
    takeLineFrom string before.length = takeLineFrom string (before ++ passed).length := by
  induction passed generalizing before with
  | nil => simp
  | cons byte passed induction =>
      obtain ⟨noLf, noCr⟩ := noTerminator byte (by simp)
      have inside : before.length < string.bytes.length := by simp [bytes]
      have here : string.bytes[before.length] = byte := by simp [bytes]
      have next := induction (before ++ [byte]) (by simp [bytes])
        fun other member => noTerminator other (List.mem_cons_of_mem _ member)
      rw [takeLineFrom, dif_pos inside, if_neg (by simp [here, noLf, noCr])]
      simpa using next

theorem takeLineFrom_terminator {string line rest : Str} {index next : Nat} {byte : UInt8}
    (here : string.bytes[index]? = some byte) (terminator : byte = 10 ∨ byte = 13)
    (collapse : (if byte = 13 ∧ string.bytes[index + 1]? = some 10 then index + 2
      else index + 1) = next)
    (before : string.upTo index = .ok line) (behind : string.beyond next = .ok rest) :
    takeLineFrom string index = .ok (some (line, rest)) := by
  obtain ⟨inside, rfl⟩ := List.getElem?_eq_some_iff.mp here
  rw [takeLineFrom, dif_pos inside, if_pos terminator, before, collapse]
  change (string.beyond next >>= fun rest => pure (some (line, rest))) = _
  rw [behind]
  rfl

theorem takeLineFrom_ending (line : Text) {rest : Text} {ending : LineEnding}
    (whole : ending.Whole rest) :
    takeLineFrom (.ofText (line ++ (ending.text ++ rest))) (encode line).length =
      .ok (some (.ofText line, .ofText rest)) := by
  have behind := Str.beyond_ofText (line ++ ending.text) rest
  rw [List.append_assoc] at behind
  have later (count : Nat) : (Str.ofText (line ++ (ending.text ++ rest))).bytes[
      (encode line).length + count]? = (encode (ending.text ++ rest))[count]? := by
    rw [Str.bytes_ofText, Utf8.encode_append, List.getElem?_append_right (Nat.le_add_right _ _),
      Nat.add_sub_cancel_left]
  have here : (Str.ofText (line ++ (ending.text ++ rest))).bytes[(encode line).length]? =
      some ((encode ending.text).headD 0) := by
    rw [← Nat.add_zero (encode line).length, later]
    cases ending <;> rfl
  refine takeLineFrom_terminator here ?_ ?_ (Str.upTo_ofText line _) behind
  · cases ending <;> decide
  · have length : (encode (line ++ ending.text)).length =
        (encode line).length + ending.text.length := by
      rw [Utf8.encode_append, List.length_append]
      cases ending <;> rfl
    rw [later, length]
    cases ending with
    | lf => exact if_neg fun both => absurd both.1 (by decide)
    | cr =>
        refine if_neg fun both => whole rfl (head?_of_encode ?_)
        have second : (encode rest)[0]? = some 10 := both.2
        rwa [List.head?_eq_getElem?]
    | crLf => exact if_pos ⟨rfl, rfl⟩

/-- The scan over the bytes takes the line of the text off, and its slices are
between characters. -/
theorem takeLineOf_ofText (text : Text) :
    takeLineOf (.ofText text) =
      .ok ((takeLine text).map fun split => (.ofText split.1, .ofText split.2)) := by
  rcases takeLine_cases text with ⟨none, plain⟩ | ⟨line, ending, rest, found, plain, whole, shape⟩
  · have bytes : (Str.ofText text).bytes = [] ++ (encode text ++ []) := by simp
    have passed := takeLineFrom_append [] [] bytes (ne_of_mem_encode plain)
    rw [takeLineOf, ← List.length_nil, passed, takeLineFrom, dif_neg (by simp), none]
    rfl
  · have bytes : (Str.ofText text).bytes =
        [] ++ (encode line ++ encode (ending.text ++ rest)) := by
      simp [shape, Utf8.encode_append]
    have passed := takeLineFrom_append [] _ bytes (ne_of_mem_encode plain)
    rw [takeLineOf, ← List.length_nil, passed, List.nil_append, found, shape,
      takeLineFrom_ending line whole]
    rfl

theorem drain_of_none {buffer : Str} (none : takeLineOf buffer = .ok none) :
    drain buffer = .ok ([], buffer) := by
  rw [drain]
  split
  case h_1 panic error => simp [none] at error
  case h_2 => rfl
  case h_3 line rest some => simp [none] at some

theorem drain_of_some {buffer line rest : Str}
    (some : takeLineOf buffer = .ok (some (line, rest))) {lines : List Str} {remainder : Str}
    (later : drain rest = .ok (lines, remainder)) :
    drain buffer = .ok (line :: lines, remainder) := by
  rw [drain]
  split
  case h_1 panic error => simp [some] at error
  case h_2 none => simp [some] at none
  case h_3 other rest' same =>
      obtain ⟨rfl, rfl⟩ : line = other ∧ rest = rest' := by simpa [some] using same
      rw [later]
      rfl

theorem decomposes_plain {text : Text} (plain : Plain text) : Decomposes text [] text where
  whole := rfl
  plain := by simp
  incomplete := plain
  whole_parts before part after equal := by simp at equal

section Decomposition

variable {text remainder : Text} {parts : List (Text × LineEnding)}

theorem Decomposes.cons {line rest : Text} {ending : LineEnding} (plain : Plain line)
    (whole : ending.Whole rest) (later : Decomposes rest parts remainder) :
    Decomposes (line ++ (ending.text ++ rest)) ((line, ending) :: parts) remainder where
  whole := by simp [joined, ← later.whole]
  plain := List.forall_mem_cons.mpr ⟨plain, later.plain⟩
  incomplete := later.incomplete
  whole_parts before part after equal := by
    cases before with
    | nil =>
        obtain ⟨rfl, rfl⟩ := List.cons.inj equal
        rwa [later.whole]
    | cons first before =>
        exact later.whole_parts before part after (List.cons.inj equal).2

/-- The first part is the line that is taken off first. -/
theorem Decomposes.exists_cons {line : Text} {ending : LineEnding}
    (decomposes : Decomposes text ((line, ending) :: parts) remainder) :
    ∃ rest, text = line ++ (ending.text ++ rest) ∧ takeLine text = some (line, rest) ∧
      Decomposes rest parts remainder := by
  have shape : text = line ++ (ending.text ++ (joined parts ++ remainder)) := by
    simp [joined, ← decomposes.whole]
  have whole := decomposes.whole_parts [] (line, ending) parts rfl
  have plain := List.forall_mem_cons.mp decomposes.plain
  refine ⟨joined parts ++ remainder, shape, ?_, rfl, plain.2, decomposes.incomplete, ?_⟩
  · rw [shape]
    exact takeLine_append plain.1 whole
  · intro before part after equal
    exact decomposes.whole_parts ((line, ending) :: before) part after (by rw [equal]; rfl)

theorem Decomposes.nil (decomposes : Decomposes text [] remainder) :
    text = remainder ∧ takeLine text = none := by
  obtain rfl : remainder = text := decomposes.whole
  exact ⟨rfl, takeLine_plain decomposes.incomplete⟩

/-- A text has one decomposition. -/
theorem Decomposes.unique {others : List (Text × LineEnding)} {rest : Text}
    (decomposes : Decomposes text parts remainder) (other : Decomposes text others rest) :
    others = parts ∧ rest = remainder := by
  induction parts generalizing text others with
  | nil =>
      obtain ⟨rfl, none⟩ := decomposes.nil
      cases others with
      | nil => exact ⟨rfl, other.nil.1.symm⟩
      | cons part others =>
          obtain ⟨_, -, found, -⟩ := other.exists_cons
          simp [none] at found
  | cons part parts induction =>
      obtain ⟨line, ending⟩ := part
      obtain ⟨behind, shape, found, later⟩ := decomposes.exists_cons
      cases others with
      | nil => simp [other.nil.2] at found
      | cons part others =>
          obtain ⟨line', ending'⟩ := part
          obtain ⟨behind', shape', found', later'⟩ := other.exists_cons
          obtain ⟨rfl, rfl⟩ : line' = line ∧ behind' = behind := by simpa [found'] using found
          have endings : ending'.text = ending.text :=
            List.append_cancel_right (List.append_cancel_left (shape'.symm.trans shape))
          obtain rfl := LineEnding.text_inj endings
          obtain ⟨rfl, rfl⟩ := induction later later'
          exact ⟨rfl, rfl⟩

end Decomposition

/-- The loop of `push` takes a text apart into its lines. -/
theorem exists_decomposes (text : Text) :
    ∃ parts remainder,
      drain (.ofText text) = .ok (parts.map fun part => .ofText part.1, .ofText remainder) ∧
        linesOf [] text = (parts.map Prod.fst, remainder) ∧ Decomposes text parts remainder := by
  induction text using induction_takeLine with
  | plain text isPlain =>
      have none := takeLine_plain isPlain
      refine ⟨[], text, drain_of_none ?_, ?_, decomposes_plain isPlain⟩
      · rw [takeLineOf_ofText, none]
        rfl
      · rw [linesOf_takeLine, none]
        rfl
  | terminated line rest ending isPlain whole induction =>
      obtain ⟨parts, remainder, drained, lines, decomposes⟩ := induction
      have found := takeLine_append isPlain whole
      refine ⟨(line, ending) :: parts, remainder, drain_of_some ?_ drained, ?_,
        decomposes.cons isPlain whole⟩
      · rw [takeLineOf_ofText, found]
        rfl
      · have taken := linesOf_takeLine [] (line ++ (ending.text ++ rest))
        rw [found] at taken
        simpa [lines] using taken

/-- On every text the loop of `push` ends without a slice inside a character.
The lines it feeds have no terminator in them, nor has what is left in the
buffer, and with one terminator behind each line they are the text; no other
decomposition has these properties. -/
theorem take_line_lossless (text : Text) :
    ∃ parts remainder,
      drain (.ofText text) = .ok (parts.map fun part => .ofText part.1, .ofText remainder) ∧
        Decomposes text parts remainder ∧
        (∀ others rest, Decomposes text others rest → others = parts ∧ rest = remainder) ∧
        ∀ decoder chunk, decoder.buffer ++ Utf8.fromUtf8Lossy chunk = text →
          push decoder chunk =
              feedEach { decoder with buffer := remainder } (parts.map Prod.fst) ∧
            (push decoder chunk).2.buffer = remainder := by
  obtain ⟨parts, remainder, drained, lines, decomposes⟩ := exists_decomposes text
  refine ⟨parts, remainder, drained, decomposes, fun _ _ => decomposes.unique, ?_⟩
  rintro decoder chunk rfl
  have pushed : push decoder chunk =
      feedEach { decoder with buffer := remainder } (parts.map Prod.fst) := by
    rw [push, feedLines_eq]
    simp only [lines]
  exact ⟨pushed, by rw [pushed, feedEach_setBuffer]⟩

end CeRs.Sse
