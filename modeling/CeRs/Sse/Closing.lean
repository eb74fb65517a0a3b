import CeRs.Sse.Frames
import CeRs.Sse.Stream
import Mathlib.Data.List.DropRight

/-!
# A connection that is cut inside a line

What is behind the last line terminator is an incomplete line.  `finish` feeds
it like a complete one before it dispatches the frame, so the line can end up in
the last event.
-/

namespace CeRs.Sse

section Cut

/-- A line feed or a carriage return. -/
def isTerminator (byte : UInt8) : Bool :=
  byte == 10 || byte == 13

/-- The chunks without the bytes behind the last line terminator. -/
def terminated : List (List UInt8) → List (List UInt8)
  | [] => []
  | chunk :: rest =>
      if rest.any (·.any isTerminator) then chunk :: terminated rest
      else [chunk.rdropWhile fun byte => !isTerminator byte]

/-- The bytes behind the last line terminator, in the chunks that bring them. -/
def unterminated : List (List UInt8) → List (List UInt8)
  | [] => []
  | chunk :: rest =>
      if rest.any (·.any isTerminator) then unterminated rest
      else chunk.rtakeWhile (fun byte => !isTerminator byte) :: rest

/-- The incomplete line does not change the event of the frame it is in. -/
def Discarded (decoder : SseDecoder) : Prop :=
  decoder.buffer ≠ [] →
    match fieldOf decoder.buffer with
    | .data _ => False
    | .event value =>
        decoder.sawData = true → decoder.eventType.getD "message".toList = value
    | .id value => decoder.sawData = true → decoder.lastEventId = some value
    | .ignored => True

/-- The first items of `decode_stream` over a body that yields these chunks and
ends, and whether the stream has ended before them. -/
def handedOut {Value : Type} (decode : Text → Option Value) (count : Nat)
    (chunks : List (List UInt8)) : Option (List (Except ItemError Value) × Bool) :=
  (EventStream.new.firstItems decode count (chunks.map .chunk ++ [.ended])).map
    fun taken => (taken.1, taken.2.1)

end Cut

theorem linesOf_lf (line text : Text) : (linesOf line (text ++ ['\n'])).2 = [] := by
  induction line, text using linesOf.induct with
  | case1 line => rfl
  | case2 line rest induction | case3 line rest induction => simpa [linesOf] using induction
  | case4 line rest noLf induction =>
      cases rest with
      | nil => rfl
      | cons character rest =>
          have before : (character :: rest).head? ≠ some '\n' := head?_ne_lf noLf
          have alone : (character :: rest ++ ['\n']).head? ≠ some '\n' := before
          rw [List.cons_append, linesOf_cr alone]
          exact induction
  | case5 line character rest noLf noCrLf noCr induction =>
      rwa [List.cons_append, linesOf_of_ne noLf noCr]

theorem linesOf_terminated (line text : Text) {terminator : Char}
    (ends : terminator = '\n' ∨ terminator = '\r') :
    (linesOf line (text ++ [terminator])).2 = [] := by
  rcases ends with rfl | rfl
  · exact linesOf_lf line text
  · rw [linesOf_append line (by simp)]
    rfl

theorem linesOf_plain (line : Text) {plain : Text} (isPlain : Plain plain) :
    linesOf line plain = ([], line ++ plain) := by
  have lines := linesOf_append_plain line isPlain []
  rwa [List.append_nil] at lines

theorem head?_plain {text plain : Text} (isPlain : Plain plain) :
    ¬ (text.getLast? = some '\r' ∧ plain.head? = some '\n') := by
  rintro ⟨-, head⟩
  exact (isPlain '\n' (List.mem_of_mem_head? head)).1 rfl

theorem isTerminator_iff {byte : UInt8} :
    isTerminator byte = true ↔ byte.toNat = 10 ∨ byte.toNat = 13 := by
  simp [isTerminator, ← UInt8.toNat_inj]

/-- Bytes without a terminator decode to a text without one. -/
theorem plain_fromUtf8Lossy {bytes : List UInt8} (none : ∀ byte ∈ bytes, ¬ isTerminator byte) :
    Plain (Utf8.fromUtf8Lossy bytes) := by
  have absent : ∀ character : Char, character.toNat = 10 ∨ character.toNat = 13 →
      character ∉ Utf8.fromUtf8Lossy bytes := by
    intro character code member
    obtain ⟨byte, found, rfl⟩ :=
      Utf8.exists_of_mem_fromUtf8Lossy (by omega) (by omega) member
    refine none byte found (isTerminator_iff.mpr ?_)
    have same := Utf8.toNat_ofNat_or byte.toNat
    omega
  exact fun character member =>
    ⟨fun lf => absent character (lf ▸ .inl rfl) member,
      fun cr => absent character (cr ▸ .inr rfl) member⟩

/-- The last terminator of a chunk, and what is behind it. -/
theorem exists_last_terminator {chunk : List UInt8} (some : chunk.any isTerminator = true) :
    ∃ before byte after, chunk = before ++ byte :: after ∧ isTerminator byte = true ∧
      (∀ other ∈ after, ¬ isTerminator other) ∧
      chunk.rdropWhile (fun byte => !isTerminator byte) = before ++ [byte] := by
  induction chunk using List.reverseRecOn with
  | nil => simp at some
  | append_singleton chunk byte induction =>
      by_cases terminator : isTerminator byte
      · refine ⟨chunk, byte, [], rfl, terminator, by simp, ?_⟩
        exact List.rdropWhile_concat_neg _ _ _ (by simp [terminator])
      · obtain ⟨before, last, after, rfl, isLast, none, dropped⟩ :=
          induction (by simpa [terminator] using some)
        refine ⟨before, last, after ++ [byte], by simp, isLast, ?_, ?_⟩
        · intro other member
          rcases List.mem_append.mp member with member | member
          · exact none other member
          · rwa [List.mem_singleton.mp member]
        · rw [List.rdropWhile_concat_pos _ _ _ (by simp [terminator]), dropped]

/-- What is behind the last terminator of a chunk makes up the incomplete line. -/
theorem linesOf_chunk (line : Text) {chunk : List UInt8} (some : chunk.any isTerminator = true) :
    linesOf line (Utf8.fromUtf8Lossy (chunk.rdropWhile fun byte => !isTerminator byte)) =
        ((linesOf line (Utf8.fromUtf8Lossy chunk)).1, []) ∧
      (linesOf line (Utf8.fromUtf8Lossy chunk)).2 =
        Utf8.fromUtf8Lossy (chunk.rtakeWhile fun byte => !isTerminator byte) := by
  obtain ⟨before, byte, after, rfl, isLast, none, dropped⟩ := exists_last_terminator some
  have code := isTerminator_iff.mp isLast
  have ascii : byte.toNat < 0x80 := by omega
  have ends : Char.ofNat byte.toNat = '\n' ∨ Char.ofNat byte.toNat = '\r' := by
    rcases code with lf | cr
    · exact .inl (lf ▸ rfl)
    · exact .inr (cr ▸ rfl)
  have start : Utf8.fromUtf8Lossy (before ++ [byte]) =
      Utf8.fromUtf8Lossy before ++ [Char.ofNat byte.toNat] :=
    Utf8.fromUtf8Lossy_append_ascii before ascii []
  have whole : Utf8.fromUtf8Lossy (before ++ byte :: after) =
      Utf8.fromUtf8Lossy before ++ [Char.ofNat byte.toNat] ++ Utf8.fromUtf8Lossy after := by
    rw [Utf8.fromUtf8Lossy_append_ascii before ascii, List.append_cons]
  have isPlain := plain_fromUtf8Lossy none
  have closed := linesOf_terminated line (Utf8.fromUtf8Lossy before) ends
  have taken : (before ++ byte :: after).rtakeWhile (fun byte => !isTerminator byte) = after := by
    have split : (before ++ byte :: after).rdropWhile (fun byte => !isTerminator byte) ++
        (before ++ byte :: after).rtakeWhile (fun byte => !isTerminator byte) =
          before ++ byte :: after := List.rdropWhile_append_rtakeWhile
    rw [dropped, List.append_assoc] at split
    exact (List.cons.inj (List.append_cancel_left split)).2
  rw [dropped, taken, start, whole, linesOf_append line (head?_plain isPlain), closed,
    linesOf_plain [] isPlain, List.append_nil]
  exact ⟨Prod.ext rfl closed, rfl⟩

theorem linesOfChunks_unterminated (line : Text) {chunks : List (List UInt8)}
    (none : chunks.any (·.any isTerminator) = false) :
    linesOfChunks line (chunks.map Utf8.fromUtf8Lossy) =
      ([], line ++ chunks.flatMap Utf8.fromUtf8Lossy) := by
  induction chunks generalizing line with
  | nil => simp [linesOfChunks]
  | cons chunk rest induction =>
      rw [List.any_cons, Bool.or_eq_false_iff] at none
      have isPlain : Plain (Utf8.fromUtf8Lossy chunk) :=
        plain_fromUtf8Lossy (by simpa using none.1)
      rw [List.map_cons, linesOfChunks, linesOf_plain line isPlain, induction _ none.2,
        List.flatMap_cons, List.append_assoc]
      rfl

/-- The lines of the chunks are those of the terminated ones. -/
theorem linesOfChunks_terminated (line : Text) (chunks : List (List UInt8)) :
    linesOfChunks line ((terminated chunks).map Utf8.fromUtf8Lossy) =
      ((linesOfChunks line (chunks.map Utf8.fromUtf8Lossy)).1,
        if chunks.any (·.any isTerminator) then [] else line) := by
  induction chunks generalizing line with
  | nil => rfl
  | cons chunk rest induction =>
      rw [terminated, List.any_cons]
      by_cases later : rest.any (·.any isTerminator)
      · rw [if_pos later, List.map_cons, linesOfChunks, induction, if_pos later, later,
          Bool.or_true, if_pos rfl]
        rfl
      · have quiet := Bool.eq_false_iff.mpr later
        rw [if_neg later, List.map_cons, List.map_nil, linesOfChunks_singleton, quiet,
          Bool.or_false, List.map_cons, linesOfChunks,
          linesOfChunks_unterminated _ quiet, List.append_nil]
        by_cases here : chunk.any isTerminator
        · rw [if_pos here, (linesOf_chunk line here).1]
        · have none : ∀ byte ∈ chunk, ¬ isTerminator byte := by simpa using here
          have emptied : chunk.rdropWhile (fun byte => !isTerminator byte) = [] :=
            List.rdropWhile_eq_nil_iff.mpr (by simpa using none)
          rw [if_neg here, emptied, linesOf_plain line (plain_fromUtf8Lossy none)]
          rfl

/-- Chunks are pushed line by line; what is incomplete stays in the buffer. -/
theorem pushAll_lines (chunks : List (List UInt8)) :
    pushAll .new chunks =
      let lines := linesOfChunks [] (chunks.map Utf8.fromUtf8Lossy)
      ((feedEach .new lines.1).1, { (feedEach .new lines.1).2 with buffer := lines.2 }) := by
  rw [pushAll_eq .new (by simp [Plain, SseDecoder.new]) chunks, feedEach_setBuffer]
  rfl

/-- Without the bytes behind the last terminator the decoder is the same, but for
an empty buffer. -/
theorem pushAll_terminated (chunks : List (List UInt8)) :
    pushAll .new (terminated chunks) =
      ((pushAll .new chunks).1, { (pushAll .new chunks).2 with buffer := [] }) := by
  rw [pushAll_lines, pushAll_lines, linesOfChunks_terminated, ite_self]

/-- The incomplete line is made of the bytes behind the last terminator. -/
theorem linesOfChunks_snd (line : Text) (chunks : List (List UInt8)) :
    (linesOfChunks line (chunks.map Utf8.fromUtf8Lossy)).2 =
      (if chunks.any (·.any isTerminator) then [] else line) ++
        (unterminated chunks).flatMap Utf8.fromUtf8Lossy := by
  induction chunks generalizing line with
  | nil => simp [linesOfChunks, unterminated]
  | cons chunk rest induction =>
      rw [unterminated, List.any_cons]
      by_cases later : rest.any (·.any isTerminator)
      · rw [if_pos later, List.map_cons, linesOfChunks, induction, if_pos later, later,
          Bool.or_true, if_pos rfl]
      · have none := Bool.eq_false_iff.mpr later
        rw [if_neg later, List.map_cons, linesOfChunks, linesOfChunks_unterminated _ none, none,
          Bool.or_false, List.flatMap_cons]
        by_cases here : chunk.any isTerminator
        · rw [if_pos here, (linesOf_chunk line here).2, List.nil_append]
        · have plain : ∀ byte ∈ chunk, ¬ isTerminator byte := by simpa using here
          have whole : chunk.rtakeWhile (fun byte => !isTerminator byte) = chunk :=
            List.rtakeWhile_eq_self_iff.mpr (by simpa using plain)
          rw [if_neg here, whole, linesOf_plain line (plain_fromUtf8Lossy plain),
            List.append_assoc]

/-- In terms of what is received: the decoder is that of the terminated chunks,
with the bytes behind the last terminator in its buffer. -/
theorem discarded_iff (chunks : List (List UInt8)) :
    Discarded (pushAll .new chunks).2 ↔
      Discarded { (pushAll .new (terminated chunks)).2 with
        buffer := (unterminated chunks).flatMap Utf8.fromUtf8Lossy } := by
  have buffer : (pushAll .new chunks).2.buffer =
      (unterminated chunks).flatMap Utf8.fromUtf8Lossy := by
    rw [pushAll_lines]
    simp [linesOfChunks_snd]
  rw [← buffer, pushAll_terminated]

/-- A decoder with data has lines of it. -/
def Filled (decoder : SseDecoder) : Prop :=
  decoder.sawData = true → decoder.dataLines ≠ []

theorem filled_feedLine {decoder : SseDecoder} (filled : Filled decoder) (line : Text) :
    Filled (feedLine decoder line).2 := by
  by_cases blank : line = []
  · rw [blank, feedLine_nil, flush]
    split
    · simp [Filled]
    · next dry => exact fun saw => (dry saw).elim
  · rw [feedLine_of_ne_nil decoder blank]
    cases fieldOf line with
    | data value => simp [Filled]
    | event value | id value | ignored => exact filled

theorem filled_feedEach {decoder : SseDecoder} (filled : Filled decoder) (lines : List Text) :
    Filled (feedEach decoder lines).2 := by
  induction lines generalizing decoder with
  | nil => exact filled
  | cons line rest induction => exact induction (filled_feedLine filled line)

theorem filled_pushAll (chunks : List (List UInt8)) : Filled (pushAll .new chunks).2 := by
  rw [pushAll_lines]
  have new : Filled .new := by simp [Filled, SseDecoder.new]
  exact filled_feedEach new _

theorem intercalate_concat {lines : List Text} (nonempty : lines ≠ []) (separator value : Text) :
    List.intercalate separator (lines ++ [value]) =
      List.intercalate separator lines ++ separator ++ value := by
  induction lines with
  | nil => exact (nonempty rfl).elim
  | cons line rest induction =>
      cases rest with
      | nil => simp [List.intercalate_cons_cons]
      | cons next rest =>
          have later := induction (List.cons_ne_nil _ _)
          rw [List.cons_append] at later
          rw [List.cons_append, List.cons_append, List.intercalate_cons_cons, later,
            List.intercalate_cons_cons]
          simp

theorem fst_flush (decoder : SseDecoder) :
    (flush decoder).1 =
      if decoder.sawData then
        some ⟨decoder.eventType.getD "message".toList,
          List.intercalate ['\n'] decoder.dataLines, decoder.lastEventId⟩
      else none := by
  unfold flush
  split <;> rfl

/-- What is dispatched at the end, and what would be without the incomplete line. -/
theorem finish_eq_flush_iff {decoder : SseDecoder} (filled : Filled decoder) :
    (finish decoder).1 = (flush decoder).1 ↔ Discarded decoder := by
  by_cases blank : decoder.buffer = []
  · simp [finish, Discarded, blank]
  rw [finish, if_pos blank, feedLine_of_ne_nil _ blank, Discarded, fst_flush, fst_flush]
  simp only [ne_eq, blank, not_false_eq_true, forall_const]
  cases fieldOf decoder.buffer with
  | data value =>
      refine iff_of_false ?_ id
      by_cases saw : decoder.sawData
      · simp [saw, intercalate_concat (filled saw)]
      · simp [saw]
  | event value =>
      by_cases saw : decoder.sawData
      · simp [saw, eq_comm]
      · simp [saw]
  | id value =>
      by_cases saw : decoder.sawData
      · simp [saw, eq_comm]
      · simp [saw]
  | ignored => exact iff_of_true rfl trivial

theorem handedOut_eq {Value : Type} (decode : Text → Option Value) (count : Nat)
    (chunks : List (List UInt8)) :
    handedOut decode count chunks =
      let items := imageOf decode .new [] chunks .ended
      some (items.take count, decide (items.length < count)) := by
  obtain ⟨left, taken, -⟩ :=
    firstItems_of_ahead count (ahead_new decode .ended [] chunks)
  have body : chunks.map Body.chunk ++ [Body.ended] =
      chunks.map .chunk ++ [Ending.ended.body] := rfl
  rw [handedOut, body, taken]
  rfl

/-- The event of `finish` and all items of the stream are as if the bytes behind
the last line terminator had not been received, if and only if the incomplete
line they are has no part in the event. -/
theorem cut_discarded_iff (chunks : List (List UInt8)) :
    ((finish (pushAll .new chunks).2).1 = (finish (pushAll .new (terminated chunks)).2).1 ∧
      ∀ (Value : Type) (decode : Text → Option Value) (count : Nat),
        handedOut decode count chunks = handedOut decode count (terminated chunks)) ↔
      Discarded (pushAll .new chunks).2 := by
  have closed : (finish (pushAll .new (terminated chunks)).2).1 =
      (flush (pushAll .new chunks).2).1 := by
    rw [pushAll_terminated, finish, if_neg (by simp), fst_flush, fst_flush]
  rw [closed, ← finish_eq_flush_iff (filled_pushAll chunks)]
  refine ⟨And.left, fun same => ⟨same, fun Value decode count => ?_⟩⟩
  have image : imageOf decode .new [] chunks .ended =
      imageOf decode .new [] (terminated chunks) .ended := by
    simp only [imageOf, Ending.items, closed, same]
    rw [pushAll_terminated]
  rw [handedOut_eq, handedOut_eq, image]

/-- `data: 12`, the first part of `data: 123` and a blank line. -/
def cutNumber : List UInt8 :=
  [100, 97, 116, 97, 58, 32, 49, 50]

/-- The number is delivered without its last digit. -/
theorem number_truncated :
    (finish (pushAll .new [cutNumber]).2).1 = some ⟨"message".toList, "12".toList, none⟩ ∧
      (finish (pushAll .new (terminated [cutNumber])).2).1 = none := by
  rw [pushAll_terminated, pushAll_lines]
  decide

end CeRs.Sse
