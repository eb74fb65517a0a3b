import CeRs.Sse.Frames

/-!
# The reference interpretation of an event stream

The reference algorithm cuts the text into lines, keeps a data buffer, an event
type buffer and a last event identifier, and dispatches on every blank line.
The decoder agrees with it but for one value: it keeps an empty event type
where the reference falls back to `message`.
-/

namespace CeRs.Sse

namespace Reference

/-- Every line ending becomes one line feed. -/
def normalize : Text → Text
  | [] => []
  | '\r' :: '\n' :: rest => '\n' :: normalize rest
  | '\r' :: rest => '\n' :: normalize rest
  | character :: rest => character :: normalize rest

/-- The lines that have an ending. -/
def completeLines (text : Text) : List Text :=
  ((normalize text).splitOn '\n').dropLast

/-- The data buffer, the event type buffer and the last event identifier. -/
structure Buffers where
  data : Text
  eventType : Text
  lastEventId : Option Text

def Buffers.empty : Buffers := ⟨[], [], none⟩

/-- The name of a line's field: what precedes its first colon. -/
def fieldName (line : Text) : Text :=
  line.takeWhile (· ≠ ':')

/-- The value of a line's field: what follows its first colon and one space. -/
def fieldValue (line : Text) : Text :=
  match (line.dropWhile (· ≠ ':')).tail with
  | ' ' :: value => value
  | value => value

def processField (buffers : Buffers) (name value : Text) : Buffers :=
  if name = "event".toList then { buffers with eventType := value }
  else if name = "data".toList then { buffers with data := buffers.data ++ value ++ ['\n'] }
  else if name = "id".toList then
    if Char.ofNat 0 ∈ value then buffers else { buffers with lastEventId := some value }
  else buffers

/-- Without data nothing is dispatched; the last line feed of the data is not
part of it. -/
def dispatch (buffers : Buffers) : List SseEvent × Buffers :=
  if buffers.data = [] then ([], { buffers with eventType := [] })
  else
    ([⟨if buffers.eventType = [] then "message".toList else buffers.eventType,
        buffers.data.dropLast, buffers.lastEventId⟩],
      { buffers with data := [], eventType := [] })

def processLine (buffers : Buffers) (line : Text) : List SseEvent × Buffers :=
  if line = [] then dispatch buffers
  else if line.head? = some ':' then ([], buffers)
  else ([], processField buffers (fieldName line) (fieldValue line))

def processLines (buffers : Buffers) : List Text → List SseEvent
  | [] => []
  | line :: rest => (processLine buffers line).1 ++ processLines (processLine buffers line).2 rest

/-- The events of a text. -/
def interpret (text : Text) : List SseEvent :=
  processLines .empty (completeLines text)

end Reference

open Reference

/-- The decoder reads the same lines. -/
theorem splitOn_normalize {line : Text} (noLf : '\n' ∉ line) (text : Text) :
    (line ++ Reference.normalize text).splitOn '\n' =
      (linesOf line text).1 ++ [(linesOf line text).2] := by
  induction line, text using linesOf.induct with
  | case1 line => simp [Reference.normalize, linesOf, List.splitOn_eq_singleton noLf]
  | case2 line rest induction =>
      rw [Reference.normalize, List.splitOn_append_cons_self_of_not_mem noLf, linesOf]
      · exact congrArg (line :: ·) (induction (by simp))
      · simp
      · simp
  | case3 line rest induction =>
      rw [Reference.normalize, List.splitOn_append_cons_self_of_not_mem noLf, linesOf]
      exact congrArg (line :: ·) (induction (by simp))
  | case4 line rest alone induction =>
      rw [Reference.normalize, List.splitOn_append_cons_self_of_not_mem noLf, linesOf]
      · exact congrArg (line :: ·) (induction (by simp))
      · exact alone
      · exact alone
  | case5 line character rest isLf noCrLf noCr induction =>
      have together : line ++ character :: Reference.normalize rest =
          (line ++ [character]) ++ Reference.normalize rest := by simp
      rw [Reference.normalize, linesOf_of_ne isLf noCr, together]
      · apply induction
        simpa [noLf] using Ne.symm isLf
      · exact noCrLf
      · exact noCr

theorem completeLines_eq (text : Text) : completeLines text = (linesOf [] text).1 := by
  have cut : (Reference.normalize text).splitOn '\n' =
      (linesOf [] text).1 ++ [(linesOf [] text).2] :=
    splitOn_normalize List.not_mem_nil text
  rw [completeLines, cut, List.dropLast_concat]

/-- The buffers hold what the decoder has collected. -/
structure Mirrors (decoder : SseDecoder) (buffers : Buffers) : Prop where
  data : buffers.data = decoder.dataLines.flatMap (· ++ ['\n'])
  eventType : buffers.eventType = decoder.eventType.getD []
  lastEventId : buffers.lastEventId = decoder.lastEventId
  sawData : decoder.sawData = true ↔ decoder.dataLines ≠ []

/-- The event as the reference names it. -/
def named (event : SseEvent) : SseEvent :=
  { event with event := if event.event = [] then "message".toList else event.event }

theorem flatMap_concat_eq {separator : Char} {values : List Text} (some : values ≠ []) :
    values.flatMap (· ++ [separator]) = List.intercalate [separator] values ++ [separator] := by
  induction values with
  | nil => exact absurd rfl some
  | cons value rest induction =>
      cases rest with
      | nil => simp
      | cons next rest =>
          rw [List.flatMap_cons, induction (by simp), List.intercalate_cons_cons]
          simp

theorem mirrors_new : Mirrors .new .empty where
  data := rfl
  eventType := rfl
  lastEventId := rfl
  sawData := by simp [SseDecoder.new]

theorem fieldValue_eq (line : Text) :
    fieldValue line = stripSpace (line.dropWhile (· ≠ ':')).tail := rfl

theorem processField_eq (buffers : Buffers) (line : Text) (noComment : line.head? ≠ some ':') :
    processField buffers (fieldName line) (fieldValue line) =
      match fieldOf line with
      | .data value => { buffers with data := buffers.data ++ value ++ ['\n'] }
      | .event value => { buffers with eventType := value }
      | .id value => { buffers with lastEventId := some value }
      | .ignored => buffers := by
  have head : line.head?.map (fun character => character) = line.head? := Option.map_id'
  simp only [fieldOf, fieldBy, head, if_neg noComment, List.map_id', stripSpaceBy_self,
    ← fieldValue_eq, processField]
  by_cases data : fieldName line = "data".toList
  · have notEvent : fieldName line ≠ "event".toList := by rw [data]; decide
    rw [if_neg notEvent, if_pos data]
    rw [fieldName] at data
    rw [if_pos data]
  by_cases event : fieldName line = "event".toList
  · rw [if_pos event]
    rw [fieldName] at data event
    rw [if_neg data, if_pos event]
  by_cases id : fieldName line = "id".toList
  · rw [if_neg event, if_neg data, if_pos id]
    rw [fieldName] at data event id
    rw [if_neg data, if_neg event, if_pos id]
    split <;> rfl
  · rw [if_neg event, if_neg data, if_neg id]
    rw [fieldName] at data event id
    rw [if_neg data, if_neg event, if_neg id]

theorem mirrors_dispatch {decoder : SseDecoder} {buffers : Buffers}
    (mirrors : Mirrors decoder buffers) :
    (dispatch buffers).1 = (flush decoder).1.toList.map named ∧
      Mirrors (flush decoder).2 (dispatch buffers).2 := by
  have empty : buffers.data = [] ↔ decoder.dataLines = [] := by
    rw [mirrors.data]
    cases decoder.dataLines with
    | nil => simp
    | cons value rest => simp
  by_cases none : decoder.dataLines = []
  · have unseen : ¬ decoder.sawData = true := by
      rw [mirrors.sawData]
      exact not_not.mpr none
    rw [dispatch, if_pos (empty.mpr none), flush, if_neg unseen]
    refine ⟨rfl, empty.mpr none, rfl, mirrors.lastEventId, ?_⟩
    exact ⟨fun seen => absurd seen unseen, fun some => absurd rfl some⟩
  · have seen : decoder.sawData = true := mirrors.sawData.mpr none
    rw [dispatch, if_neg (empty.not.mpr none), flush, if_pos seen]
    refine ⟨?_, rfl, rfl, mirrors.lastEventId, ?_⟩
    · rw [mirrors.data, flatMap_concat_eq none, List.dropLast_concat, mirrors.eventType,
        mirrors.lastEventId]
      cases decoder.eventType with
      | none => rfl
      | some value => rfl
    · exact ⟨fun seen => absurd seen Bool.false_ne_true, fun some => absurd rfl some⟩

theorem mirrors_processLine {decoder : SseDecoder} {buffers : Buffers}
    (mirrors : Mirrors decoder buffers) (line : Text) :
    (processLine buffers line).1 = (feedLine decoder line).1.toList.map named ∧
      Mirrors (feedLine decoder line).2 (processLine buffers line).2 := by
  by_cases blank : line = []
  · rw [processLine, if_pos blank, blank, feedLine_nil]
    exact mirrors_dispatch mirrors
  by_cases comment : line.head? = some ':'
  · have ignored : fieldOf line = .ignored := by simp [fieldOf, fieldBy, comment]
    rw [processLine, if_neg blank, if_pos comment, feedLine_of_ne_nil decoder blank, ignored]
    exact ⟨rfl, mirrors⟩
  rw [processLine, if_neg blank, if_neg comment, feedLine_of_ne_nil decoder blank,
    processField_eq buffers line comment]
  refine ⟨rfl, ?_⟩
  cases fieldOf line with
  | data value =>
      refine ⟨?_, mirrors.eventType, mirrors.lastEventId, by simp⟩
      simp [mirrors.data]
  | event value => exact ⟨mirrors.data, rfl, mirrors.lastEventId, mirrors.sawData⟩
  | id value => exact ⟨mirrors.data, mirrors.eventType, rfl, mirrors.sawData⟩
  | ignored => exact mirrors

/-- The reference and the decoder run over the same lines. -/
theorem processLines_eq {decoder : SseDecoder} {buffers : Buffers}
    (mirrors : Mirrors decoder buffers) (lines : List Text) :
    processLines buffers lines = (feedEach decoder lines).1.map named := by
  induction lines generalizing decoder buffers with
  | nil => rfl
  | cons line rest induction =>
      obtain ⟨now, later⟩ := mirrors_processLine mirrors line
      rw [processLines, feedEach, now, induction later, List.map_append]

theorem interpret_eq (text : Text) :
    interpret text = (push .new (Utf8.encode text)).1.map named := by
  rw [interpret, completeLines_eq, processLines_eq mirrors_new, push_new,
    Utf8.fromUtf8Lossy_encode]

theorem map_named_eq_iff (events : List SseEvent) :
    events = events.map named ↔ ∀ event ∈ events, event.event ≠ [] := by
  induction events with
  | nil => simp
  | cons event rest induction =>
      rw [List.map_cons, List.cons.injEq, induction, List.forall_mem_cons]
      apply and_congr_left
      intro _
      obtain ⟨type, data, id⟩ := event
      by_cases empty : type = []
      · simp [named, empty]
      · simp [named, empty]

/-- The decoder names an event with the empty text exactly if the frame says so. -/
theorem forall_framesEvents_iff (id : Option Text) (frames : List (List Text)) :
    (∀ event ∈ framesEvents id frames, event.event ≠ []) ↔
      ∀ frame ∈ frames, dataOf frame ≠ [] → eventOf frame ≠ some [] := by
  induction frames generalizing id with
  | nil => simp [framesEvents]
  | cons frame rest induction =>
      rw [framesEvents, List.forall_mem_append, induction, List.forall_mem_cons]
      apply and_congr_left
      intro _
      by_cases data : dataOf frame = []
      · simp [frameEvent, data]
      · cases type : eventOf frame <;> simp [frameEvent, typeOf, data, type]

/-- For a text pushed at once, the events are those of the reference exactly if
no frame with data names an empty event type last. -/
theorem push_interprets_iff (text : Text) :
    (push .new (Utf8.encode text)).1 = interpret text ↔
      ∀ frame ∈ framesOf (completeLines text),
        dataOf frame ≠ [] → eventOf frame ≠ some [] := by
  rw [interpret_eq, map_named_eq_iff, push_new, Utf8.fromUtf8Lossy_encode, completeLines_eq,
    feedEach_new]
  exact forall_framesEvents_iff none _

/-- An empty event field in front of the data. -/
def emptyTypeText : Text := "event:\ndata: x\n\n".toList

theorem empty_type_kept :
    ¬ ∀ text : Text, (push .new (Utf8.encode text)).1 = interpret text := by
  intro claimed
  have same := claimed emptyTypeText
  rw [push_new, Utf8.fromUtf8Lossy_encode] at same
  revert same
  decide

end CeRs.Sse
