import CeRs.Sse.Frames

/-!
# Reading back what was written

A frame is written as an event type, an identifier and one data line for each
line of its data, followed by a blank line; comments may stand between any two
lines.  Whatever line ending is used, and wherever the stream is cut between two
characters (but not between a carriage return and its line feed), the decoder
reads back the frames that were written.
-/

namespace CeRs.Sse

/-- A frame as it can be written. -/
structure WrittenFrame where
  eventType : Option Text
  id : Option Text
  data : Text
  eventType_plain : ∀ value ∈ eventType, value ≠ [] ∧ Plain value
  id_plain : ∀ value ∈ id, Plain value ∧ Char.ofNat 0 ∉ value
  data_noCr : '\r' ∉ data

def fieldLine (name value : Text) : Text :=
  name ++ ": ".toList ++ value

/-- The field lines of a frame. -/
def WrittenFrame.fields (frame : WrittenFrame) : List Text :=
  frame.eventType.toList.map (fieldLine "event".toList) ++
    frame.id.toList.map (fieldLine "id".toList) ++
    (frame.data.splitOn '\n').map (fieldLine "data".toList)

/-- The lines of a frame, with the blank one that ends it. -/
def WrittenFrame.lines (frame : WrittenFrame) : List Text :=
  frame.fields ++ [[]]

def isComment (line : Text) : Bool :=
  line.head? == some ':'

/-- Comments may be inserted between the lines. -/
structure Commented (lines written : List Text) : Prop where
  others : (lines.filter fun line => !isComment line) = written
  comments : ∀ line ∈ lines, isComment line = true → Plain line

inductive LineEnding
  | lf
  | cr
  | crLf
  deriving DecidableEq, Repr

def LineEnding.text : LineEnding → Text
  | .lf => ['\n']
  | .cr => ['\r']
  | .crLf => ['\r', '\n']

/-- The text of these lines. -/
def LineEnding.render (ending : LineEnding) (lines : List Text) : Text :=
  lines.flatMap fun line => line ++ ending.text

/-- No chunk ends between a carriage return and a line feed. -/
def KeepsCrLf : List Text → Prop
  | [] => True
  | chunk :: rest =>
      ¬ (chunk.getLast? = some '\r' ∧ rest.flatten.head? = some '\n') ∧ KeepsCrLf rest

instance decidableKeepsCrLf : (chunks : List Text) → Decidable (KeepsCrLf chunks)
  | [] => isTrue trivial
  | _ :: rest =>
      have : Decidable (KeepsCrLf rest) := decidableKeepsCrLf rest
      inferInstanceAs (Decidable (_ ∧ _))

/-- The events of the frames, each with the identifier written last. -/
def writtenEvents (id : Option Text) : List WrittenFrame → List SseEvent
  | [] => []
  | frame :: rest =>
      ⟨frame.eventType.getD "message".toList, frame.data, frame.id.or id⟩ ::
        writtenEvents (frame.id.or id) rest

theorem linesOfChunks_eq (line : Text) {chunks : List Text} (keeps : KeepsCrLf chunks) :
    linesOfChunks line chunks = linesOf line chunks.flatten := by
  induction chunks generalizing line with
  | nil => rfl
  | cons chunk rest induction =>
      obtain ⟨whole, later⟩ := keeps
      rw [linesOfChunks, induction _ later, List.flatten_cons, linesOf_append line whole]

theorem LineEnding.head?_render_cr {lines : List Text} (plain : ∀ line ∈ lines, Plain line) :
    (LineEnding.cr.render lines).head? ≠ some '\n' := by
  cases lines with
  | nil => simp [LineEnding.render]
  | cons line rest =>
      cases line with
      | nil => simp [LineEnding.render, LineEnding.text]
      | cons character line =>
          have first := (plain (character :: line) (by simp) character (by simp)).1
          simpa [LineEnding.render] using first

theorem LineEnding.linesOf_render (ending : LineEnding) {lines : List Text}
    (plain : ∀ line ∈ lines, Plain line) : linesOf [] (ending.render lines) = (lines, []) := by
  induction lines with
  | nil => rfl
  | cons line rest induction =>
      rw [List.forall_mem_cons] at plain
      have text : ending.render (line :: rest) =
          line ++ (ending.text ++ ending.render rest) := by
        simp [LineEnding.render]
      rw [text, linesOf_append_plain [] plain.1, List.nil_append]
      cases ending with
      | lf => simp [LineEnding.text, linesOf, induction plain.2]
      | cr =>
          rw [LineEnding.text, List.singleton_append,
            linesOf_cr (LineEnding.head?_render_cr plain.2),
            induction plain.2]
      | crLf => simp [LineEnding.text, linesOf, induction plain.2]

theorem fieldOf_comment {line : Text} (comment : isComment line = true) :
    fieldOf line = .ignored := by
  have head : line.head? = some ':' := by simpa [isComment] using comment
  simp [fieldOf, fieldBy, head]

theorem filterMap_comments {Value : Type} (value? : Field Text → Option Value)
    (ignored : value? .ignored = none) (lines : List Text) :
    (lines.filter fun line => !isComment line).filterMap (fun line => value? (fieldOf line)) =
      lines.filterMap fun line => value? (fieldOf line) := by
  rw [List.filterMap_filter]
  apply List.filterMap_congr
  intro line _
  cases comment : isComment line with
  | true => simp [fieldOf_comment comment, ignored]
  | false => rfl

theorem idOf_comments (id : Option Text) (frame : List Text) :
    idOf id (frame.filter fun line => !isComment line) = idOf id frame := by
  rw [idOf, filterMap_comments Field.id? rfl, idOf]

theorem frameEvent_comments (id : Option Text) (frame : List Text) :
    frameEvent id (frame.filter fun line => !isComment line) = frameEvent id frame := by
  rw [frameEvent, frameEvent, idOf_comments, typeOf, typeOf, eventOf, eventOf, dataOf, dataOf,
    filterMap_comments Field.event? rfl, filterMap_comments Field.data? rfl]

theorem framesOf_comments (lines : List Text) :
    framesOf (lines.filter fun line => !isComment line) =
      (framesOf lines).map (List.filter fun line => !isComment line) := by
  induction lines with
  | nil => rfl
  | cons line rest induction =>
      by_cases blank : line = []
      · have kept : isComment [] = false := rfl
        simp [blank, kept, framesOf, induction]
      · cases comment : isComment line with
        | true =>
            rw [List.filter_cons_of_neg (by simp [comment]), induction, framesOf, if_neg blank]
            cases framesOf rest with
            | nil => rfl
            | cons frame later => simp [comment]
        | false =>
            rw [List.filter_cons_of_pos (by simp [comment]), framesOf, framesOf, if_neg blank,
              if_neg blank, induction]
            cases framesOf rest with
            | nil => rfl
            | cons frame later => simp [comment]

theorem framesEvents_comments (id : Option Text) (frames : List (List Text)) :
    framesEvents id (frames.map (List.filter fun line => !isComment line)) =
      framesEvents id frames := by
  induction frames generalizing id with
  | nil => rfl
  | cons frame rest induction =>
      rw [List.map_cons, framesEvents, framesEvents, frameEvent_comments, idOf_comments,
        induction]

/-- Inserted comments change no event. -/
theorem Commented.framesEvents_eq {lines written : List Text}
    (commented : Commented lines written) (id : Option Text) :
    framesEvents id (framesOf lines) = framesEvents id (framesOf written) := by
  rw [← commented.others, framesOf_comments, framesEvents_comments]

theorem framesOf_append_blank {body : List Text} (nonblank : [] ∉ body) (rest : List Text) :
    framesOf (body ++ [] :: rest) = body :: framesOf rest := by
  induction body with
  | nil => simp [framesOf]
  | cons line body induction =>
      rw [List.mem_cons, not_or] at nonblank
      rw [List.cons_append, framesOf, if_neg (Ne.symm nonblank.1), induction nonblank.2]

theorem mem_of_mem_splitOn {separator : Char} {text part : Text}
    (member : part ∈ text.splitOn separator) :
    ∀ character ∈ part, character ≠ separator ∧ character ∈ text := by
  induction text generalizing part with
  | nil =>
      obtain rfl : part = [] := by simpa using member
      simp
  | cons first rest induction =>
      rw [List.splitOn_cons_eq_if_modifyHead] at member
      split at member
      case isTrue here =>
          intro character inside
          rcases List.mem_cons.mp member with rfl | member
          · simp at inside
          · obtain ⟨other, within⟩ := induction member character inside
            exact ⟨other, List.mem_cons_of_mem _ within⟩
      case isFalse here =>
          have other : first ≠ separator := by simpa using here
          obtain ⟨head, tail, parts⟩ :=
            List.exists_cons_of_ne_nil (List.splitOn_ne_nil separator rest)
          rw [parts, List.modifyHead_cons, List.mem_cons] at member
          rw [parts] at induction
          intro character inside
          rcases member with rfl | member
          · rcases List.mem_cons.mp inside with rfl | inside
            · exact ⟨other, List.mem_cons_self⟩
            · obtain ⟨different, within⟩ := induction List.mem_cons_self character inside
              exact ⟨different, List.mem_cons_of_mem _ within⟩
          · obtain ⟨different, within⟩ :=
              induction (List.mem_cons_of_mem _ member) character inside
            exact ⟨different, List.mem_cons_of_mem _ within⟩

namespace WrittenFrame

theorem plain_data (frame : WrittenFrame) {part : Text} (member : part ∈ frame.data.splitOn '\n') :
    Plain part := by
  intro character inside
  obtain ⟨noLf, within⟩ := mem_of_mem_splitOn member character inside
  refine ⟨noLf, ?_⟩
  rintro rfl
  exact frame.data_noCr within

theorem plain_fieldLine {name value : Text} (plainName : Plain name) (plain : Plain value) :
    Plain (fieldLine name value) := by
  intro character inside
  simp only [fieldLine, List.mem_append] at inside
  rcases inside with (inside | inside) | inside
  · exact plainName character inside
  · have : character = ':' ∨ character = ' ' := by simpa using inside
    rcases this with rfl | rfl <;> decide
  · exact plain character inside

theorem mem_fields {frame : WrittenFrame} {line : Text} (member : line ∈ frame.fields) :
    ∃ name ∈ ["event".toList, "id".toList, "data".toList], ∃ value, Plain value ∧
      line = fieldLine name value := by
  simp only [fields, List.mem_append, List.mem_map, Option.mem_toList] at member
  rcases member with (⟨value, there, rfl⟩ | ⟨value, there, rfl⟩) | ⟨value, there, rfl⟩
  · exact ⟨_, by simp, value, (frame.eventType_plain value there).2, rfl⟩
  · exact ⟨_, by simp, value, (frame.id_plain value there).1, rfl⟩
  · exact ⟨_, by simp, value, frame.plain_data there, rfl⟩

theorem plain_fields {frame : WrittenFrame} {line : Text} (member : line ∈ frame.fields) :
    Plain line := by
  obtain ⟨name, names, value, plain, rfl⟩ := mem_fields member
  apply plain_fieldLine _ plain
  have all : ∀ name ∈ ["event".toList, "id".toList, "data".toList], Plain name := by
    simp [Plain]
  exact all name names

theorem nil_notMem_fields (frame : WrittenFrame) : [] ∉ frame.fields := by
  intro member
  obtain ⟨name, -, value, -, blank⟩ := mem_fields member
  simp [fieldLine] at blank

theorem fieldOf_data (value : Text) : fieldOf (fieldLine "data".toList value) = .data value := by
  simp [fieldOf, fieldBy, fieldLine, stripSpaceBy]

theorem fieldOf_event (value : Text) :
    fieldOf (fieldLine "event".toList value) = .event value := by
  simp [fieldOf, fieldBy, fieldLine, stripSpaceBy]

theorem fieldOf_id {value : Text} (noNul : Char.ofNat 0 ∉ value) :
    fieldOf (fieldLine "id".toList value) = .id value := by
  simp [fieldOf, fieldBy, fieldLine, stripSpaceBy, noNul]

theorem filterMap_fields (frame : WrittenFrame) (value? : Field Text → Option Text) :
    (frame.fields.filterMap fun line => value? (fieldOf line)) =
      (frame.eventType.toList.filterMap fun value => value? (.event value)) ++
        (frame.id.toList.filterMap fun value => value? (.id value)) ++
        (frame.data.splitOn '\n').filterMap fun value => value? (.data value) := by
  have ids : (frame.id.toList.filterMap fun value =>
      value? (fieldOf (fieldLine "id".toList value))) =
        frame.id.toList.filterMap fun value => value? (.id value) := by
    apply List.filterMap_congr
    intro value member
    rw [fieldOf_id (frame.id_plain value (Option.mem_toList.mp member)).2]
  simp only [fields, List.filterMap_append, List.filterMap_map, Function.comp_def,
    fieldOf_event, fieldOf_data, ids]

theorem idOf_fields (frame : WrittenFrame) (id : Option Text) :
    idOf id frame.fields = frame.id.or id := by
  rw [idOf, filterMap_fields]
  cases frame.id <;> simp [Field.id?]

theorem frameEvent_fields (frame : WrittenFrame) (id : Option Text) :
    frameEvent id frame.fields =
      [⟨frame.eventType.getD "message".toList, frame.data, frame.id.or id⟩] := by
  have data : dataOf frame.fields = frame.data.splitOn '\n' := by
    rw [dataOf, filterMap_fields]
    simp [Field.data?]
  have eventType : eventOf frame.fields = frame.eventType := by
    rw [eventOf, filterMap_fields]
    cases frame.eventType <;> simp [Field.event?]
  rw [frameEvent, data, if_neg (List.splitOn_ne_nil _ _), typeOf, eventType, idOf_fields,
    List.intercalate_splitOn]

end WrittenFrame

theorem framesOf_lines (frames : List WrittenFrame) (rest : List Text) :
    framesOf (frames.flatMap WrittenFrame.lines ++ rest) =
      frames.map WrittenFrame.fields ++ framesOf rest := by
  induction frames with
  | nil => rfl
  | cons frame later induction =>
      have shape : (frame :: later).flatMap WrittenFrame.lines ++ rest =
          frame.fields ++ [] :: (later.flatMap WrittenFrame.lines ++ rest) := by
        simp [WrittenFrame.lines]
      rw [shape, framesOf_append_blank frame.nil_notMem_fields, induction]
      rfl

theorem framesEvents_written (id : Option Text) (frames : List WrittenFrame) :
    framesEvents id (frames.map WrittenFrame.fields) = writtenEvents id frames := by
  induction frames generalizing id with
  | nil => rfl
  | cons frame rest induction =>
      rw [List.map_cons, framesEvents, frame.frameEvent_fields, frame.idOf_fields, induction]
      rfl

theorem Commented.plain {lines : List Text} {frames : List WrittenFrame}
    (commented : Commented lines (frames.flatMap WrittenFrame.lines)) :
    ∀ line ∈ lines, Plain line := by
  intro line member
  cases comment : isComment line with
  | true => exact commented.comments line member comment
  | false =>
      have written : line ∈ frames.flatMap WrittenFrame.lines := by
        rw [← commented.others, List.mem_filter]
        exact ⟨member, by simp [comment]⟩
      obtain ⟨frame, -, inside⟩ := List.mem_flatMap.mp written
      rcases List.mem_append.mp inside with field | blank
      · exact WrittenFrame.plain_fields field
      · obtain rfl := List.mem_singleton.mp blank
        simp [Plain]

/-- The decoder reads back exactly the frames that were written, and nothing is
left for the end of the stream. -/
theorem decodes_written (ending : LineEnding) (frames : List WrittenFrame) {lines : List Text}
    (commented : Commented lines (frames.flatMap WrittenFrame.lines)) {chunks : List Text}
    (cut : chunks.flatten = ending.render lines) (keeps : KeepsCrLf chunks) :
    (pushAll .new (chunks.map Utf8.encode)).1 = writtenEvents none frames ∧
      decodeAll (chunks.map Utf8.encode) = writtenEvents none frames := by
  have texts : (chunks.map Utf8.encode).map Utf8.fromUtf8Lossy = chunks := by
    simp [List.map_map, Function.comp_def, Utf8.fromUtf8Lossy_encode]
  have read : linesOfChunks [] chunks = (lines, []) := by
    rw [linesOfChunks_eq [] keeps, cut, ending.linesOf_render commented.plain]
  constructor
  · rw [pushAll_new, texts, read, feedEach_new, commented.framesEvents_eq]
    have whole := framesOf_lines frames []
    rw [List.append_nil] at whole
    rw [whole, framesOf, List.append_nil, framesEvents_written]
  · rw [decodeAll_eq, texts, read, feedEach_new]
    have closed : Commented (lines ++ [[]]) (frames.flatMap WrittenFrame.lines ++ [[]]) := by
      refine ⟨by rw [List.filter_append, commented.others]; rfl, ?_⟩
      intro line member comment
      rcases List.mem_append.mp member with member | blank
      · exact commented.comments line member comment
      · obtain rfl := List.mem_singleton.mp blank
        simp [Plain]
    rw [closing, if_pos rfl, closed.framesEvents_eq, framesOf_lines, framesEvents_append,
      framesEvents_written]
    simp [framesOf, framesEvents, frameEvent]

/-- Two frames, with a comment between the lines of the second. -/
def greetingFrames : List WrittenFrame :=
  [{ eventType := some "greeting".toList, id := some "7".toList, data := " a:\nb".toList
     eventType_plain := by simp [Plain], id_plain := by simp [Plain], data_noCr := by simp },
   { eventType := none, id := none, data := []
     eventType_plain := by simp, id_plain := by simp, data_noCr := by simp }]

theorem decodes_written_greeting :
    (pushAll .new
        (["event: greeting\r\nid: 7\r\nda".toList, "ta:  a:\r\ndata: b\r\n\r\n".toList,
          ": ping\r\ndata: \r\n\r\n".toList].map Utf8.encode)).1 =
      [⟨"greeting".toList, " a:\nb".toList, some "7".toList⟩,
        ⟨"message".toList, [], some "7".toList⟩] := by
  have commented : Commented
      (["event: greeting", "id: 7", "data:  a:", "data: b", "", ": ping", "data: ", ""].map
        String.toList) (greetingFrames.flatMap WrittenFrame.lines) :=
    ⟨by decide, by simp [isComment, Plain]⟩
  exact (decodes_written .crLf greetingFrames commented (by decide) (by decide)).1

end CeRs.Sse
