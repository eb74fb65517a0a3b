import CeRs.Utf8

/-!
# The event stream decoder

`SseDecoder` decodes each chunk of bytes on its own, appends the characters to
its buffer and feeds every complete line of it to the frame under construction.
`linesOf` computes these lines by one pass over the characters.
-/

namespace CeRs.Sse

abbrev Text := List Char

structure SseEvent where
  event : Text
  data : Text
  id : Option Text
  deriving DecidableEq, Repr

structure SseDecoder where
  buffer : Text
  dataLines : List Text
  eventType : Option Text
  lastEventId : Option Text
  sawData : Bool
  deriving DecidableEq, Repr

/-- `SseDecoder::new`. -/
def SseDecoder.new : SseDecoder :=
  ⟨[], [], none, none, false⟩

/-- Dispatch the frame on a blank line, if it has data. -/
def flush (decoder : SseDecoder) : Option SseEvent × SseDecoder :=
  if decoder.sawData then
    (some ⟨decoder.eventType.getD "message".toList, List.intercalate ['\n'] decoder.dataLines,
        decoder.lastEventId⟩,
      { decoder with dataLines := [], eventType := none, sawData := false })
  else (none, { decoder with dataLines := [], eventType := none })

/-- `str::split_once` at the first colon. -/
def splitOnce (line : Text) : Option (Text × Text) :=
  match line.span (· ≠ ':') with
  | (field, _ :: value) => some (field, value)
  | (_, []) => none

/-- `str::strip_prefix` of one space. -/
def stripSpace : Text → Text
  | ' ' :: value => value
  | value => value

def feedLine (decoder : SseDecoder) (line : Text) : Option SseEvent × SseDecoder :=
  if line = [] then flush decoder
  else if line.head? = some ':' then (none, decoder)
  else
    let (field, raw) := (splitOnce line).getD (line, [])
    let value := stripSpace raw
    if field = "data".toList then
      (none, { decoder with dataLines := decoder.dataLines ++ [value], sawData := true })
    else if field = "event".toList then (none, { decoder with eventType := some value })
    else if field = "id".toList then
      (none, if Char.ofNat 0 ∈ value then decoder else { decoder with lastEventId := some value })
    else (none, decoder)

/-- The first complete line and what follows its terminator. -/
def takeLine : Text → Option (Text × Text)
  | [] => none
  | '\n' :: rest => some ([], rest)
  | '\r' :: '\n' :: rest => some ([], rest)
  | '\r' :: rest => some ([], rest)
  | character :: rest =>
      (takeLine rest).map fun split => (character :: split.1, split.2)

theorem length_of_takeLine {text line rest : Text} (split : takeLine text = some (line, rest)) :
    rest.length < text.length := by
  induction text using takeLine.induct generalizing line with
  | case1 => simp [takeLine] at split
  | case2 later =>
      obtain ⟨-, rfl⟩ : [] = line ∧ later = rest := by simpa [takeLine] using split
      exact Nat.lt_succ_self _
  | case3 later =>
      obtain ⟨-, rfl⟩ : [] = line ∧ later = rest := by simpa [takeLine] using split
      exact Nat.lt_succ_of_lt (Nat.lt_succ_self _)
  | case4 later noLf =>
      obtain ⟨-, rfl⟩ : [] = line ∧ later = rest := by simpa [takeLine] using split
      exact Nat.lt_succ_self _
  | case5 character later noLf noCrLf noCr induction =>
      simp only [takeLine, Option.map_eq_some_iff, Prod.mk.injEq] at split
      obtain ⟨⟨first, remaining⟩, found, -, rfl⟩ := split
      exact Nat.lt_trans (induction found) (Nat.lt_succ_self _)

@[simp] theorem buffer_flush (decoder : SseDecoder) :
    (flush decoder).2.buffer = decoder.buffer := by
  unfold flush
  split <;> rfl

@[simp] theorem buffer_feedLine (decoder : SseDecoder) (line : Text) :
    (feedLine decoder line).2.buffer = decoder.buffer := by
  simp only [feedLine]
  split
  · exact buffer_flush decoder
  · split
    · rfl
    · split
      · rfl
      · split
        · rfl
        · split
          · split <;> rfl
          · rfl

/-- The loop of `push` over the complete lines of the buffer. -/
def feedLines (decoder : SseDecoder) : List SseEvent × SseDecoder :=
  match _split : takeLine decoder.buffer with
  | none => ([], decoder)
  | some (line, rest) =>
      let fed := feedLine { decoder with buffer := rest } line
      let later := feedLines fed.2
      (fed.1.toList ++ later.1, later.2)
termination_by decoder.buffer.length
decreasing_by
  rw [buffer_feedLine]
  exact length_of_takeLine _split

def push (decoder : SseDecoder) (bytes : List UInt8) : List SseEvent × SseDecoder :=
  feedLines { decoder with buffer := decoder.buffer ++ Utf8.fromUtf8Lossy bytes }

/-- The rest of the buffer is fed as a line, and the frame dispatched. -/
def finish (decoder : SseDecoder) : Option SseEvent × SseDecoder :=
  if decoder.buffer ≠ [] then
    flush (feedLine { decoder with buffer := [] } decoder.buffer).2
  else flush decoder

def pushAll (decoder : SseDecoder) : List (List UInt8) → List SseEvent × SseDecoder
  | [] => ([], decoder)
  | chunk :: rest =>
      let pushed := push decoder chunk
      let later := pushAll pushed.2 rest
      (pushed.1 ++ later.1, later.2)

/-- A text without a line terminator. -/
def Plain (text : Text) : Prop :=
  ∀ character ∈ text, character ≠ '\n' ∧ character ≠ '\r'

/-- The lines of a text that continues the line read so far, and the incomplete
line that is left. -/
def linesOf (line : Text) : Text → List Text × Text
  | [] => ([], line)
  | '\n' :: rest => (line :: (linesOf [] rest).1, (linesOf [] rest).2)
  | '\r' :: '\n' :: rest => (line :: (linesOf [] rest).1, (linesOf [] rest).2)
  | '\r' :: rest => (line :: (linesOf [] rest).1, (linesOf [] rest).2)
  | character :: rest => linesOf (line ++ [character]) rest

theorem linesOf_of_ne {line rest : Text} {character : Char} (noLf : character ≠ '\n')
    (noCr : character ≠ '\r') :
    linesOf line (character :: rest) = linesOf (line ++ [character]) rest := by
  rw [linesOf]
  · exact noLf
  · exact fun _ equal => (noCr equal).elim
  · exact noCr

theorem linesOf_cr {line rest : Text} (alone : rest.head? ≠ some '\n') :
    linesOf line ('\r' :: rest) = (line :: (linesOf [] rest).1, (linesOf [] rest).2) := by
  cases rest with
  | nil => rfl
  | cons character rest =>
      rw [linesOf]
      rintro _ equal
      obtain ⟨rfl, -⟩ := List.cons.inj equal
      exact alone rfl

theorem takeLine_of_ne {character : Char} {rest : Text} (noLf : character ≠ '\n')
    (noCr : character ≠ '\r') :
    takeLine (character :: rest) =
      (takeLine rest).map fun split => (character :: split.1, split.2) := by
  rw [takeLine]
  · exact noLf
  · exact fun _ equal => (noCr equal).elim
  · exact noCr

theorem takeLine_cr {rest : Text} (alone : rest.head? ≠ some '\n') :
    takeLine ('\r' :: rest) = some ([], rest) := by
  rw [takeLine]
  rintro later rfl
  exact alone rfl

theorem head?_ne_lf {text : Text} (noLf : ∀ rest, text = '\n' :: rest → False) :
    text.head? ≠ some '\n' := by
  intro lf
  obtain ⟨rest, equal⟩ := List.head?_eq_some_iff.mp lf
  exact noLf rest equal

theorem linesOf_append_plain (line : Text) {plain : Text} (isPlain : Plain plain) (rest : Text) :
    linesOf line (plain ++ rest) = linesOf (line ++ plain) rest := by
  induction plain generalizing line with
  | nil => simp
  | cons character plain induction =>
      obtain ⟨noLf, noCr⟩ := isPlain character (by simp)
      rw [List.cons_append, linesOf_of_ne noLf noCr,
        induction _ fun other member => isPlain other (List.mem_cons_of_mem _ member),
        List.append_assoc]
      rfl

theorem whole_of_cons {character : Char} {first second : Text}
    (whole : ¬ ((character :: first).getLast? = some '\r' ∧ second.head? = some '\n')) :
    ¬ (first.getLast? = some '\r' ∧ second.head? = some '\n') := by
  rintro ⟨last, lf⟩
  exact whole ⟨by simp [List.getLast?_cons, last], lf⟩

/-- Texts are split into lines one after the other, unless a line end is cut. -/
theorem linesOf_append (line : Text) {first second : Text}
    (whole : ¬ (first.getLast? = some '\r' ∧ second.head? = some '\n')) :
    linesOf line (first ++ second) =
      ((linesOf line first).1 ++ (linesOf (linesOf line first).2 second).1,
        (linesOf (linesOf line first).2 second).2) := by
  induction line, first using linesOf.induct with
  | case1 line => rfl
  | case2 line rest induction =>
      simp only [List.cons_append, linesOf, induction (whole_of_cons whole)]
  | case3 line rest induction =>
      simp only [List.cons_append, linesOf, induction (whole_of_cons (whole_of_cons whole))]
  | case4 line rest alone induction =>
      have before := head?_ne_lf alone
      have next : (rest ++ second).head? ≠ some '\n' := by
        cases rest with
        | nil => exact fun lf => whole ⟨rfl, lf⟩
        | cons character rest => exact before
      simp only [List.cons_append, linesOf_cr next, linesOf_cr before,
        induction (whole_of_cons whole)]
  | case5 line character rest noLf noCrLf noCr induction =>
      rw [List.cons_append, linesOf_of_ne noLf noCr, linesOf_of_ne noLf noCr,
        induction (whole_of_cons whole)]

/-- Only a carriage return needs to know what follows it. -/
theorem linesOf_append_noCr (line : Text) {first : Text} (noCr : '\r' ∉ first) (second : Text) :
    linesOf line (first ++ second) =
      ((linesOf line first).1 ++ (linesOf (linesOf line first).2 second).1,
        (linesOf (linesOf line first).2 second).2) :=
  linesOf_append line fun cut => noCr (List.mem_of_getLast? cut.1)

theorem plain_linesOf {line : Text} (isPlain : Plain line) (text : Text) :
    Plain (linesOf line text).2 := by
  induction line, text using linesOf.induct with
  | case1 line => exact isPlain
  | case2 line rest induction | case3 line rest induction | case4 line rest noLf induction =>
      simpa [linesOf] using induction (by simp [Plain])
  | case5 line character rest noLf noCrLf noCr induction =>
      rw [linesOf_of_ne noLf noCr]
      apply induction
      intro other member
      rcases List.mem_append.mp member with member | member
      · exact isPlain other member
      · obtain rfl := List.mem_singleton.mp member
        exact ⟨noLf, noCr⟩

theorem linesOf_takeLine (line text : Text) :
    linesOf line text =
      match takeLine text with
      | none => ([], line ++ text)
      | some (first, rest) => ((line ++ first) :: (linesOf [] rest).1, (linesOf [] rest).2) := by
  induction line, text using linesOf.induct with
  | case1 line => simp [linesOf, takeLine]
  | case2 line rest induction | case3 line rest induction | case4 line rest noLf induction =>
      simp [linesOf, takeLine]
  | case5 line character rest noLf noCrLf noCr induction =>
      rw [linesOf_of_ne noLf noCr, induction, takeLine_of_ne noLf noCr]
      cases takeLine rest with
      | none => simp
      | some split => simp

/-- Feed the lines one after the other. -/
def feedEach (decoder : SseDecoder) : List Text → List SseEvent × SseDecoder
  | [] => ([], decoder)
  | line :: rest =>
      let fed := feedLine decoder line
      let later := feedEach fed.2 rest
      (fed.1.toList ++ later.1, later.2)

theorem feedEach_append (decoder : SseDecoder) (first second : List Text) :
    feedEach decoder (first ++ second) =
      ((feedEach decoder first).1 ++ (feedEach (feedEach decoder first).2 second).1,
        (feedEach (feedEach decoder first).2 second).2) := by
  induction first generalizing decoder with
  | nil => simp [feedEach]
  | cons line rest induction => simp [feedEach, induction]

theorem feedLine_setBuffer (decoder : SseDecoder) (line buffer : Text) :
    feedLine { decoder with buffer } line =
      ((feedLine decoder line).1, { (feedLine decoder line).2 with buffer }) := by
  simp only [feedLine, flush]
  split
  · split <;> rfl
  · split
    · rfl
    · split
      · rfl
      · split
        · rfl
        · split
          · split <;> rfl
          · rfl

theorem feedEach_setBuffer (decoder : SseDecoder) (lines : List Text) (buffer : Text) :
    feedEach { decoder with buffer } lines =
      ((feedEach decoder lines).1, { (feedEach decoder lines).2 with buffer }) := by
  induction lines generalizing decoder with
  | nil => rfl
  | cons line rest induction => simp only [feedEach, feedLine_setBuffer, induction]

theorem feedLines_of_none {decoder : SseDecoder} (none : takeLine decoder.buffer = none) :
    feedLines decoder = ([], decoder) := by
  rw [feedLines]
  split
  case h_1 => rfl
  case h_2 line rest some => simp [none] at some

theorem feedLines_of_some {decoder : SseDecoder} {line rest : Text}
    (found : takeLine decoder.buffer = some (line, rest)) :
    feedLines decoder =
      ((feedLine { decoder with buffer := rest } line).1.toList ++
          (feedLines (feedLine { decoder with buffer := rest } line).2).1,
        (feedLines (feedLine { decoder with buffer := rest } line).2).2) := by
  rw [feedLines]
  split
  case h_1 none => simp [none] at found
  case h_2 other remaining some =>
      obtain ⟨rfl, rfl⟩ : line = other ∧ rest = remaining := by simpa [found] using some
      rfl

/-- The loop of `push` feeds the complete lines of the buffer. -/
theorem feedLines_eq (decoder : SseDecoder) :
    feedLines decoder =
      feedEach { decoder with buffer := (linesOf [] decoder.buffer).2 }
        (linesOf [] decoder.buffer).1 := by
  induction decoder using feedLines.induct with
  | case1 decoder none =>
      rw [feedLines_of_none none]
      simp only [linesOf_takeLine, none]
      simp [feedEach]
  | case2 decoder line rest found fed induction =>
      rw [feedLines_of_some found, induction]
      simp only [linesOf_takeLine [] decoder.buffer, found, List.nil_append, feedEach, fed,
        feedLine_setBuffer, feedEach_setBuffer]

theorem push_eq (decoder : SseDecoder) (isPlain : Plain decoder.buffer) (bytes : List UInt8) :
    push decoder bytes =
      feedEach
        { decoder with buffer := (linesOf decoder.buffer (Utf8.fromUtf8Lossy bytes)).2 }
        (linesOf decoder.buffer (Utf8.fromUtf8Lossy bytes)).1 := by
  rw [push, feedLines_eq]
  simp only [linesOf_append_plain [] isPlain, List.nil_append]

/-- The lines of texts that arrive one after the other. -/
def linesOfChunks (line : Text) : List Text → List Text × Text
  | [] => ([], line)
  | chunk :: rest =>
      let first := linesOf line chunk
      let later := linesOfChunks first.2 rest
      (first.1 ++ later.1, later.2)

theorem linesOfChunks_singleton (line text : Text) :
    linesOfChunks line [text] = linesOf line text := by
  simp [linesOfChunks]

/-- Without carriage returns the lines do not depend on the chunks. -/
theorem linesOfChunks_noCr (line : Text) {chunks : List Text} (noCr : '\r' ∉ chunks.flatten) :
    linesOfChunks line chunks = linesOf line chunks.flatten := by
  induction chunks generalizing line with
  | nil => rfl
  | cons chunk rest induction =>
      rw [List.flatten_cons, List.mem_append, not_or] at noCr
      rw [linesOfChunks, induction _ noCr.2, List.flatten_cons, linesOf_append_noCr line noCr.1]

/-- Pushing chunks feeds their lines. -/
theorem pushAll_eq (decoder : SseDecoder) (isPlain : Plain decoder.buffer)
    (chunks : List (List UInt8)) :
    pushAll decoder chunks =
      feedEach
        { decoder with
          buffer := (linesOfChunks decoder.buffer (chunks.map Utf8.fromUtf8Lossy)).2 }
        (linesOfChunks decoder.buffer (chunks.map Utf8.fromUtf8Lossy)).1 := by
  induction chunks generalizing decoder with
  | nil => rfl
  | cons chunk rest induction =>
      have pushed := push_eq decoder isPlain chunk
      have buffer : (push decoder chunk).2.buffer =
          (linesOf decoder.buffer (Utf8.fromUtf8Lossy chunk)).2 := by
        rw [pushed, feedEach_setBuffer]
      have remains : Plain (push decoder chunk).2.buffer := by
        rw [buffer]
        exact plain_linesOf isPlain _
      simp only [pushAll, induction _ remains, buffer, List.map_cons, linesOfChunks,
        feedEach_append]
      rw [pushed]
      simp only [feedEach_setBuffer]

theorem push_new (bytes : List UInt8) :
    (push .new bytes).1 = (feedEach .new (linesOf [] (Utf8.fromUtf8Lossy bytes)).1).1 := by
  rw [push_eq .new (by simp [Plain, SseDecoder.new]) bytes, feedEach_setBuffer]
  rfl

theorem pushAll_new (chunks : List (List UInt8)) :
    (pushAll .new chunks).1 =
      (feedEach .new (linesOfChunks [] (chunks.map Utf8.fromUtf8Lossy)).1).1 := by
  rw [pushAll_eq .new (by simp [Plain, SseDecoder.new]) chunks, feedEach_setBuffer]
  rfl

/-- The events of a stream that arrives in these chunks and then ends. -/
def decodeAll (chunks : List (List UInt8)) : List SseEvent :=
  let pushed := pushAll .new chunks
  pushed.1 ++ (finish pushed.2).1.toList

/-- What `finish` feeds: the incomplete line, and a blank one. -/
def closing (line : Text) : List Text :=
  if line = [] then [[]] else [line, []]

theorem feedLine_nil (decoder : SseDecoder) : feedLine decoder [] = flush decoder := by
  simp [feedLine]

theorem fst_feedLine_of_ne_nil (decoder : SseDecoder) {line : Text} (nonblank : line ≠ []) :
    (feedLine decoder line).1 = none := by
  simp only [feedLine, if_neg nonblank]
  split
  · rfl
  · split
    · rfl
    · split
      · rfl
      · split <;> rfl

theorem finish_eq (decoder : SseDecoder) :
    (finish decoder).1.toList = (feedEach decoder (closing decoder.buffer)).1 := by
  unfold finish closing
  by_cases blank : decoder.buffer = []
  · simp [blank, feedEach, feedLine_nil]
  · rw [if_pos blank, if_neg blank]
    simp only [feedEach, fst_feedLine_of_ne_nil decoder blank, Option.toList_none,
      List.nil_append, List.append_nil, ← feedLine_nil, feedLine_setBuffer]

/-- The events of a stream are those of its lines and of the closing ones. -/
theorem decodeAll_eq (chunks : List (List UInt8)) :
    decodeAll chunks =
      (feedEach .new
        ((linesOfChunks [] (chunks.map Utf8.fromUtf8Lossy)).1 ++
          closing (linesOfChunks [] (chunks.map Utf8.fromUtf8Lossy)).2)).1 := by
  have pushed := pushAll_eq .new (by simp [Plain, SseDecoder.new]) chunks
  simp only [decodeAll, finish_eq, pushed, feedEach_append, feedEach_setBuffer]
  rfl

end CeRs.Sse
