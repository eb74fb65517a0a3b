import Mathlib.Data.List.Basic

/-!
# Lossy decoding of UTF-8

The decoder reads one byte at a time.  While a character is incomplete it keeps
the range in which the next byte must lie; a byte outside the range, or the end
of the input, turns the incomplete character into one replacement character,
and the byte is read again as the first of a character.

An encoded character decodes to itself.  Cut in two, its first part decodes to
one replacement character and every byte of the rest to another.
-/

namespace CeRs.Utf8

/-- U+FFFD. -/
def replacement : Char := Char.ofNat 0xFFFD

/-- Between characters, or inside one of which `needed` bytes are missing, the
next of them in the given range. -/
inductive State
  | start
  | pending (needed lower upper value : Nat)
  deriving DecidableEq, Repr

/-- The first byte of a character. -/
def lead (byte : UInt8) : List Char × State :=
  let code := byte.toNat
  if code < 0x80 then ([Char.ofNat code], .start)
  else if code < 0xC2 then ([replacement], .start)
  else if code < 0xE0 then ([], .pending 1 0x80 0xBF (code - 0xC0))
  else if code < 0xF0 then
    ([], .pending 2 (if code = 0xE0 then 0xA0 else 0x80) (if code = 0xED then 0x9F else 0xBF)
      (code - 0xE0))
  else if code < 0xF5 then
    ([], .pending 3 (if code = 0xF0 then 0x90 else 0x80) (if code = 0xF4 then 0x8F else 0xBF)
      (code - 0xF0))
  else ([replacement], .start)

def step : State → UInt8 → List Char × State
  | .start, byte => lead byte
  | .pending needed lower upper value, byte =>
      if lower ≤ byte.toNat ∧ byte.toNat ≤ upper then
        let extended := 64 * value + (byte.toNat - 0x80)
        if needed = 1 then ([Char.ofNat extended], .start)
        else ([], .pending (needed - 1) 0x80 0xBF extended)
      else
        let restarted := lead byte
        (replacement :: restarted.1, restarted.2)

/-- The characters that bytes complete, and the state they leave. -/
def run : State → List UInt8 → List Char × State
  | state, [] => ([], state)
  | state, byte :: rest =>
      let stepped := step state byte
      let later := run stepped.2 rest
      (stepped.1 ++ later.1, later.2)

/-- What the end of the input adds. -/
def State.finish : State → List Char
  | .start => []
  | .pending .. => [replacement]

/-- `String::from_utf8_lossy`. -/
def fromUtf8Lossy (bytes : List UInt8) : List Char :=
  let complete := run .start bytes
  complete.1 ++ complete.2.finish

/-- The bytes of a text. -/
def encode (text : List Char) : List UInt8 :=
  text.flatMap String.utf8EncodeChar

theorem encode_cons (first : Char) (text : List Char) :
    encode (first :: text) = String.utf8EncodeChar first ++ encode text := rfl

theorem encode_append (first second : List Char) :
    encode (first ++ second) = encode first ++ encode second :=
  List.flatMap_append

theorem run_append (state : State) (first second : List UInt8) :
    run state (first ++ second) =
      ((run state first).1 ++ (run (run state first).2 second).1,
        (run (run state first).2 second).2) := by
  induction first generalizing state with
  | nil => rfl
  | cons byte rest induction => simp [run, induction]

theorem fromUtf8Lossy_append {first : List UInt8} (second : List UInt8)
    (complete : (run .start first).2 = .start) :
    fromUtf8Lossy (first ++ second) = (run .start first).1 ++ fromUtf8Lossy second := by
  simp [fromUtf8Lossy, run_append, complete]

/-- A byte that can only continue a character. -/
def Continuation (byte : UInt8) : Prop :=
  0x80 ≤ byte.toNat ∧ byte.toNat < 0xC0

theorem lead_ascii {byte : UInt8} (ascii : byte.toNat < 0x80) :
    lead byte = ([Char.ofNat byte.toNat], .start) := by
  simp [lead, ascii]

theorem lead_continuation {byte : UInt8} (continues : Continuation byte) :
    lead byte = ([replacement], .start) := by
  obtain ⟨low, high⟩ := continues
  have large : ¬ byte.toNat < 0x80 := by omega
  have small : byte.toNat < 0xC2 := by omega
  simp [lead, large, small]

theorem fromUtf8Lossy_continuation {byte : UInt8} (continues : Continuation byte)
    (rest : List UInt8) : fromUtf8Lossy (byte :: rest) = replacement :: fromUtf8Lossy rest := by
  have complete : run .start [byte] = ([replacement], .start) := by
    simp [run, step, lead_continuation continues]
  have split := fromUtf8Lossy_append rest (congrArg Prod.snd complete)
  rw [complete] at split
  exact split

theorem fromUtf8Lossy_ascii {bytes : List UInt8} (ascii : ∀ byte ∈ bytes, byte.toNat < 0x80) :
    fromUtf8Lossy bytes = bytes.map fun byte => Char.ofNat byte.toNat := by
  induction bytes with
  | nil => rfl
  | cons byte rest induction =>
      have complete : run .start [byte] = ([Char.ofNat byte.toNat], .start) := by
        simp [run, step, lead_ascii (ascii byte (by simp))]
      have split := fromUtf8Lossy_append rest (congrArg Prod.snd complete)
      rw [complete, induction fun other member => ascii other (List.mem_cons_of_mem _ member)]
        at split
      exact split

/-- How the decoder passes through the bytes of one character: it keeps a
pending state up to the last byte and then emits the character. -/
inductive Passes (character : Char) : State → List UInt8 → Prop
  | last (state : State) (byte : UInt8) (emits : step state byte = ([character], .start)) :
      Passes character state [byte]
  | more (state : State) (byte : UInt8) (rest : List UInt8) (needed lower upper value : Nat)
      (waits : step state byte = ([], .pending needed lower upper value))
      (continues : ∀ later ∈ rest, Continuation later)
      (passes : Passes character (.pending needed lower upper value) rest) :
      Passes character state (byte :: rest)

theorem run_of_passes {character : Char} {state : State} {bytes : List UInt8}
    (passes : Passes character state bytes) : run state bytes = ([character], .start) := by
  induction passes with
  | last state byte emits => simp [run, emits]
  | more state byte rest needed lower upper value waits _ _ induction =>
      simp [run, waits, induction]

theorem run_take_of_passes {character : Char} {state : State} {bytes : List UInt8}
    (passes : Passes character state bytes) {count : Nat} (positive : 0 < count)
    (proper : count < bytes.length) :
    ∃ needed lower upper value, run state (bytes.take count) =
      ([], .pending needed lower upper value) := by
  induction passes generalizing count with
  | last state byte emits =>
      simp only [List.length_singleton] at proper
      omega
  | more state byte rest needed lower upper value waits _ _ induction =>
      obtain ⟨count, rfl⟩ := Nat.exists_eq_succ_of_ne_zero (Nat.ne_of_gt positive)
      rw [List.take_succ_cons]
      cases count with
      | zero => exact ⟨needed, lower, upper, value, by simp [run, waits]⟩
      | succ count =>
          obtain ⟨needed', lower', upper', value', reached⟩ :=
            induction (Nat.succ_pos count) (by simpa using proper)
          exact ⟨needed', lower', upper', value', by simp [run, waits, reached]⟩

theorem toNat_ofNat_of_lt {value : Nat} (small : value < 256) : (UInt8.ofNat value).toNat = value :=
  Nat.mod_eq_of_lt small

theorem continuation_ofNat {digit : Nat} (small : digit < 64) :
    Continuation (UInt8.ofNat (digit + 0x80)) := by
  rw [Continuation, toNat_ofNat_of_lt (by omega)]
  omega

theorem step_lead_two {value : Nat} (low : 2 ≤ value) (high : value < 32) :
    step .start (UInt8.ofNat (value + 0xC0)) = ([], .pending 1 0x80 0xBF value) := by
  have code := toNat_ofNat_of_lt (by omega : value + 0xC0 < 256)
  simp only [step, lead, code]
  rw [if_neg (by omega), if_neg (by omega), if_pos (by omega), Nat.add_sub_cancel]

theorem step_lead_three {value : Nat} (high : value < 16) :
    step .start (UInt8.ofNat (value + 0xE0)) =
      ([], .pending 2 (if value = 0 then 0xA0 else 0x80) (if value = 13 then 0x9F else 0xBF)
        value) := by
  have code := toNat_ofNat_of_lt (by omega : value + 0xE0 < 256)
  simp only [step, lead, code]
  rw [if_neg (by omega), if_neg (by omega), if_neg (by omega), if_pos (by omega),
    Nat.add_sub_cancel]
  simp only [Nat.add_eq_right, Nat.reduceEqDiff]

theorem step_lead_four {value : Nat} (high : value < 5) :
    step .start (UInt8.ofNat (value + 0xF0)) =
      ([], .pending 3 (if value = 0 then 0x90 else 0x80) (if value = 4 then 0x8F else 0xBF)
        value) := by
  have code := toNat_ofNat_of_lt (by omega : value + 0xF0 < 256)
  simp only [step, lead, code]
  rw [if_neg (by omega), if_neg (by omega), if_neg (by omega), if_neg (by omega),
    if_pos (by omega), Nat.add_sub_cancel]
  simp only [Nat.add_eq_right, Nat.reduceEqDiff]

theorem step_pending {needed lower upper value digit : Nat} (small : digit < 64)
    (low : lower ≤ digit + 0x80) (high : digit + 0x80 ≤ upper) :
    step (.pending (needed + 2) lower upper value) (UInt8.ofNat (digit + 0x80)) =
      ([], .pending (needed + 1) 0x80 0xBF (64 * value + digit)) := by
  have code := toNat_ofNat_of_lt (by omega : digit + 0x80 < 256)
  simp only [step, code]
  rw [if_pos ⟨low, high⟩, if_neg (by omega), Nat.add_sub_cancel]
  rfl

theorem step_pending_last {lower upper value digit : Nat} {character : Char} (small : digit < 64)
    (low : lower ≤ digit + 0x80) (high : digit + 0x80 ≤ upper)
    (code : character.toNat = 64 * value + digit) :
    step (.pending 1 lower upper value) (UInt8.ofNat (digit + 0x80)) =
      ([character], .start) := by
  have byte := toNat_ofNat_of_lt (by omega : digit + 0x80 < 256)
  simp only [step, byte]
  rw [if_pos ⟨low, high⟩, if_pos trivial, Nat.add_sub_cancel, ← code, Char.ofNat_toNat]

theorem passes_two {character : Char} {high low : Nat} (code : character.toNat = 64 * high + low)
    (small : low < 64) (range : 2 ≤ high ∧ high < 32) :
    Passes character .start [UInt8.ofNat (high + 0xC0), UInt8.ofNat (low + 0x80)] := by
  refine .more _ _ _ _ _ _ _ (step_lead_two range.1 range.2) ?_ ?_
  · exact List.forall_mem_singleton.mpr (continuation_ofNat small)
  · exact .last _ _ (step_pending_last small (by omega) (by omega) code)

theorem passes_three {character : Char} {high middle low : Nat}
    (code : character.toNat = 64 * (64 * high + middle) + low) (small : middle < 64 ∧ low < 64)
    (range : high < 16) (overlong : high = 0 → 32 ≤ middle) (surrogate : high = 13 → middle < 32) :
    Passes character .start
      [UInt8.ofNat (high + 0xE0), UInt8.ofNat (middle + 0x80), UInt8.ofNat (low + 0x80)] := by
  refine .more _ _ _ _ _ _ _ (step_lead_three range) ?_ ?_
  · exact List.forall_mem_cons.mpr ⟨continuation_ofNat small.1,
      List.forall_mem_singleton.mpr (continuation_ofNat small.2)⟩
  · refine .more _ _ _ _ _ _ _ (step_pending small.1 ?_ ?_) ?_ ?_
    · split <;> omega
    · split <;> omega
    · exact List.forall_mem_singleton.mpr (continuation_ofNat small.2)
    · exact .last _ _ (step_pending_last small.2 (by omega) (by omega) code)

theorem passes_four {character : Char} {top high middle low : Nat}
    (code : character.toNat = 64 * (64 * (64 * top + high) + middle) + low)
    (small : high < 64 ∧ middle < 64 ∧ low < 64) (range : top < 5)
    (overlong : top = 0 → 16 ≤ high) (large : top = 4 → high < 16) :
    Passes character .start
      [UInt8.ofNat (top + 0xF0), UInt8.ofNat (high + 0x80), UInt8.ofNat (middle + 0x80),
        UInt8.ofNat (low + 0x80)] := by
  refine .more _ _ _ _ _ _ _ (step_lead_four range) ?_ ?_
  · exact List.forall_mem_cons.mpr ⟨continuation_ofNat small.1,
      List.forall_mem_cons.mpr ⟨continuation_ofNat small.2.1,
        List.forall_mem_singleton.mpr (continuation_ofNat small.2.2)⟩⟩
  · refine .more _ _ _ _ _ _ _ (step_pending small.1 ?_ ?_) ?_ ?_
    · split <;> omega
    · split <;> omega
    · exact List.forall_mem_cons.mpr ⟨continuation_ofNat small.2.1,
        List.forall_mem_singleton.mpr (continuation_ofNat small.2.2)⟩
    · refine .more _ _ _ _ _ _ _ (step_pending small.2.1 (by omega) (by omega)) ?_ ?_
      · exact List.forall_mem_singleton.mpr (continuation_ofNat small.2.2)
      · exact .last _ _ (step_pending_last small.2.2 (by omega) (by omega) code)

/-- The decoder passes through the encoding of every character. -/
theorem passes_utf8EncodeChar (character : Char) :
    Passes character .start (String.utf8EncodeChar character) := by
  have valid : character.toNat < 0xD800 ∨ 0xDFFF < character.toNat ∧ character.toNat < 0x110000 :=
    character.valid
  generalize value : character.toNat = code at valid
  have bytes : String.utf8EncodeChar character =
      if code ≤ 0x7F then [UInt8.ofNat code]
      else if code ≤ 0x7FF then
        [UInt8.ofNat (code / 64 % 0x20 + 0xC0), UInt8.ofNat (code % 0x40 + 0x80)]
      else if code ≤ 0xFFFF then
        [UInt8.ofNat (code / 4096 % 0x10 + 0xE0), UInt8.ofNat (code / 64 % 0x40 + 0x80),
          UInt8.ofNat (code % 0x40 + 0x80)]
      else
        [UInt8.ofNat (code / 262144 % 0x08 + 0xF0), UInt8.ofNat (code / 4096 % 0x40 + 0x80),
          UInt8.ofNat (code / 64 % 0x40 + 0x80), UInt8.ofNat (code % 0x40 + 0x80)] := by
    rw [← value]
    rfl
  rw [bytes]
  split
  case isTrue one =>
      apply Passes.last
      have byte := toNat_ofNat_of_lt (by omega : code < 256)
      rw [step, lead_ascii (by omega), byte, ← value, Char.ofNat_toNat]
  case isFalse one =>
      split
      case isTrue two => exact passes_two (by omega) (by omega) (by omega)
      case isFalse two =>
          split
          case isTrue three =>
              exact passes_three (by omega) (by omega) (by omega) (by omega) (by omega)
          case isFalse three =>
              exact passes_four (by omega) (by omega) (by omega) (by omega) (by omega)

theorem run_utf8EncodeChar (character : Char) :
    run .start (String.utf8EncodeChar character) = ([character], .start) :=
  run_of_passes (passes_utf8EncodeChar character)

theorem fromUtf8Lossy_utf8EncodeChar_append (character : Char) (rest : List UInt8) :
    fromUtf8Lossy (String.utf8EncodeChar character ++ rest) = character :: fromUtf8Lossy rest := by
  have split := fromUtf8Lossy_append rest (congrArg Prod.snd (run_utf8EncodeChar character))
  rw [run_utf8EncodeChar] at split
  exact split

theorem fromUtf8Lossy_encode (text : List Char) : fromUtf8Lossy (encode text) = text := by
  induction text with
  | nil => rfl
  | cons character rest induction =>
      have first := fromUtf8Lossy_utf8EncodeChar_append character (encode rest)
      rw [induction] at first
      exact first

/-- The first part of a character cut in two decodes to one replacement. -/
theorem fromUtf8Lossy_take_utf8EncodeChar (character : Char) {count : Nat} (positive : 0 < count)
    (proper : count < (String.utf8EncodeChar character).length) :
    fromUtf8Lossy ((String.utf8EncodeChar character).take count) = [replacement] := by
  obtain ⟨needed, lower, upper, value, reached⟩ :=
    run_take_of_passes (passes_utf8EncodeChar character) positive proper
  simp [fromUtf8Lossy, reached, State.finish]

theorem continuation_of_passes {character : Char} {state : State} {bytes : List UInt8}
    (passes : Passes character state bytes) : ∀ byte ∈ bytes.drop 1, Continuation byte := by
  cases passes with
  | last _ byte emits => simp
  | more _ byte rest needed lower upper value waits continues passes => simpa using continues

/-- The other part of it consists of stray continuation bytes. -/
theorem continuation_drop_utf8EncodeChar (character : Char) {count : Nat} (positive : 0 < count) :
    ∀ byte ∈ (String.utf8EncodeChar character).drop count, Continuation byte := by
  intro byte member
  apply continuation_of_passes (passes_utf8EncodeChar character) byte
  obtain ⟨rest, rfl⟩ := Nat.exists_eq_add_of_lt positive
  rw [Nat.zero_add, Nat.add_comm rest 1, ← List.drop_drop] at member
  exact List.mem_of_mem_drop member

/-- Inside a character no ASCII byte continues it, and what it becomes is no
control character. -/
def State.Inside : State → Prop
  | .start => True
  | .pending _ lower _ value => 0x80 ≤ lower ∧ 16 ≤ 64 * value + (lower - 0x80)

theorem inside_start : State.start.Inside :=
  trivial

theorem inside_lead (byte : UInt8) : (lead byte).2.Inside := by
  simp only [lead]
  split_ifs <;> simp only [State.Inside] <;> omega

theorem inside_step {state : State} (inside : state.Inside) (byte : UInt8) :
    (step state byte).2.Inside := by
  cases state with
  | start => exact inside_lead byte
  | pending needed lower upper value =>
      obtain ⟨high, large⟩ := inside
      rw [step]
      split_ifs with range last
      · trivial
      · simp only [State.Inside]
        omega
      · exact inside_lead byte

theorem inside_run {state : State} (inside : state.Inside) (bytes : List UInt8) :
    (run state bytes).2.Inside := by
  induction bytes generalizing state with
  | nil => exact inside
  | cons byte rest induction => exact induction (inside_step inside byte)

/-- An ASCII byte ends what is incomplete and stands for itself. -/
theorem step_ascii {state : State} (inside : state.Inside) {byte : UInt8}
    (ascii : byte.toNat < 0x80) :
    step state byte = (state.finish ++ [Char.ofNat byte.toNat], .start) := by
  cases state with
  | start => exact lead_ascii ascii
  | pending needed lower upper value =>
      have outside : ¬ (lower ≤ byte.toNat ∧ byte.toNat ≤ upper) := by
        have high := inside.1
        omega
      rw [step, if_neg outside, lead_ascii ascii]
      rfl

/-- The bytes behind an ASCII byte are decoded on their own. -/
theorem fromUtf8Lossy_append_ascii (first : List UInt8) {byte : UInt8}
    (ascii : byte.toNat < 0x80) (rest : List UInt8) :
    fromUtf8Lossy (first ++ byte :: rest) =
      fromUtf8Lossy first ++ Char.ofNat byte.toNat :: fromUtf8Lossy rest := by
  have inside : (run .start first).2.Inside := inside_run inside_start first
  simp [fromUtf8Lossy, run_append, run, step_ascii inside ascii]

theorem toNat_ofNat_or (code : Nat) :
    (Char.ofNat code).toNat = code ∨ (Char.ofNat code).toNat = 0 := by
  by_cases valid : code.isValidChar
  · rw [Char.ofNat, dif_pos valid]
    exact .inl rfl
  · rw [Char.ofNat, dif_neg valid]
    exact .inr rfl

theorem ne_replacement {character : Char} (control : character.toNat < 16) :
    character ≠ replacement := by
  rintro rfl
  exact absurd control (by decide)

section Control

variable {character : Char} (positive : 0 < character.toNat) (control : character.toNat < 16)

include control

/-- A control character other than U+0000 is its own byte. -/
theorem eq_of_mem_lead {byte : UInt8} (member : character ∈ (lead byte).1) :
    character = Char.ofNat byte.toNat := by
  simp only [lead] at member
  split_ifs at member <;> simp_all [ne_replacement control]

include positive

theorem eq_of_mem_step {state : State} (inside : state.Inside) {byte : UInt8}
    (member : character ∈ (step state byte).1) : character = Char.ofNat byte.toNat := by
  cases state with
  | start => exact eq_of_mem_lead control member
  | pending needed lower upper value =>
      obtain ⟨high, large⟩ := inside
      rw [step] at member
      split_ifs at member with range last
      · have equal := List.mem_singleton.mp member
        have code := toNat_ofNat_or (64 * value + (byte.toNat - 0x80))
        rw [← equal] at code
        omega
      · exact (List.not_mem_nil member).elim
      · rcases List.mem_cons.mp member with replaced | restarted
        · exact (ne_replacement control replaced).elim
        · exact eq_of_mem_lead control restarted

theorem exists_of_mem_run {state : State} (inside : state.Inside) {bytes : List UInt8}
    (member : character ∈ (run state bytes).1) :
    ∃ byte ∈ bytes, character = Char.ofNat byte.toNat := by
  induction bytes generalizing state with
  | nil => exact (List.not_mem_nil member).elim
  | cons byte rest induction =>
      rcases List.mem_append.mp member with now | later
      · exact ⟨byte, by simp, eq_of_mem_step positive control inside now⟩
      · obtain ⟨other, found, equal⟩ := induction (inside_step inside byte) later
        exact ⟨other, List.mem_cons_of_mem _ found, equal⟩

theorem exists_of_mem_fromUtf8Lossy {bytes : List UInt8}
    (member : character ∈ fromUtf8Lossy bytes) :
    ∃ byte ∈ bytes, character = Char.ofNat byte.toNat := by
  rcases List.mem_append.mp member with complete | ending
  · exact exists_of_mem_run positive control inside_start complete
  · cases state : (run .start bytes).2 with
    | start => simp [state, State.finish] at ending
    | pending =>
        rw [state] at ending
        exact (ne_replacement control (List.mem_singleton.mp ending)).elim

end Control

end CeRs.Utf8
