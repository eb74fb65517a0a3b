import CeRs.Chunks
import CeRs.Sse.Frames

/-!
# Line endings and chunk boundaries

A carriage return at the end of a chunk ends its line at once, so the line feed
of a CRLF that comes with the next chunk ends a second, blank line.  A frame
with such cuts falls into pieces that are dispatched one by one.  The events
are those of the whole stream exactly if, in every frame with data, one piece
has all the data and is dispatched with the type and identifier of the frame.
-/

namespace CeRs.Sse

open Chunks

/-- The text of ASCII bytes. -/
def asciiText (bytes : List UInt8) : Text :=
  bytes.map fun byte => Char.ofNat byte.toNat

/-- The lines of a text whose characters are marked where a chunk begins, each
with whether the CRLF that ends it is cut. -/
def markedLines (line : Text) : List (Char × Bool) → List (Text × Bool) × Text
  | [] => ([], line)
  | ('\n', _) :: rest => ((line, false) :: (markedLines [] rest).1, (markedLines [] rest).2)
  | ('\r', _) :: ('\n', cut) :: rest =>
      ((line, cut) :: (markedLines [] rest).1, (markedLines [] rest).2)
  | ('\r', _) :: rest => ((line, false) :: (markedLines [] rest).1, (markedLines [] rest).2)
  | (character, _) :: rest => markedLines (line ++ [character]) rest

/-- A line that ends in a cut CRLF is followed by a blank line. -/
def expand : Text × Bool → List Text
  | (line, true) => [line, []]
  | (line, false) => [line]

def addLine (line : Text) : List (List Text) → List (List Text)
  | [] => [[line]]
  | piece :: later => (line :: piece) :: later

/-- The frames that a sequence of lines completes, each as the list of its
pieces: a piece ends where a CRLF is cut. -/
def piecesOf : List (Text × Bool) → List (List (List Text))
  | [] => []
  | (line, cut) :: rest =>
      if line = [] then (if cut then [[], []] else [[]]) :: piecesOf rest
      else
        match piecesOf rest with
        | [] => []
        | frame :: later => (if cut then [line] :: frame else addLine line frame) :: later

/-- The frames of a stream that arrives in chunks, in pieces. -/
def cutFrames (chunks : List Text) : List (List (List Text)) :=
  let lines := markedLines [] (marked chunks)
  piecesOf (lines.1 ++ (closing lines.2).map fun line => (line, false))

/-- Where a piece has data no other piece of the frame has, and it is
dispatched with the type and the identifier of the whole frame. -/
def Unharmed (id : Option Text) (frame : List (List Text)) : Prop :=
  ∀ before piece after, frame = before ++ piece :: after → dataOf piece ≠ [] →
    (∀ other ∈ before ++ after, dataOf other = []) ∧ typeOf piece = typeOf frame.flatten ∧
      idOf id (before.flatten ++ piece) = idOf id frame.flatten

def AllUnharmed (id : Option Text) : List (List (List Text)) → Prop
  | [] => True
  | frame :: rest => Unharmed id frame ∧ AllUnharmed (idOf id frame.flatten) rest

theorem unharmed_iff (id : Option Text) (frame : List (List Text)) :
    Unharmed id frame ↔ ∀ index : Fin frame.length, dataOf frame[index] ≠ [] →
      (∀ other ∈ frame.take index ++ frame.drop (index + 1), dataOf other = []) ∧
        typeOf frame[index] = typeOf frame.flatten ∧
        idOf id ((frame.take index).flatten ++ frame[index]) = idOf id frame.flatten := by
  constructor
  · intro unharmed index data
    refine unharmed _ _ _ ?_ data
    rw [Fin.getElem_fin, ← List.drop_eq_getElem_cons index.isLt, List.take_append_drop]
  · rintro unharmed before piece after rfl data
    have inside : before.length < (before ++ piece :: after).length := by simp
    simpa using unharmed ⟨before.length, inside⟩ (by simpa using data)

instance (id : Option Text) (frame : List (List Text)) : Decidable (Unharmed id frame) :=
  decidable_of_iff _ (unharmed_iff id frame).symm

instance decidableAllUnharmed (id : Option Text) :
    (frames : List (List (List Text))) → Decidable (AllUnharmed id frames)
  | [] => isTrue trivial
  | frame :: rest =>
      have := decidableAllUnharmed (idOf id frame.flatten) rest
      inferInstanceAs (Decidable (_ ∧ _))

theorem markedLines_of_ne {line : Text} {rest : List (Char × Bool)} {character : Char}
    {mark : Bool} (noLf : character ≠ '\n') (noCr : character ≠ '\r') :
    markedLines line ((character, mark) :: rest) = markedLines (line ++ [character]) rest := by
  rw [markedLines]
  · exact fun equal => noLf equal
  · intros
    contradiction
  · exact fun equal => noCr equal

theorem markedLines_cr {line : Text} {rest : List (Char × Bool)} {mark : Bool}
    (alone : (rest.map Prod.fst).head? ≠ some '\n') :
    markedLines line (('\r', mark) :: rest) =
      ((line, false) :: (markedLines [] rest).1, (markedLines [] rest).2) := by
  cases rest with
  | nil => rfl
  | cons next rest =>
      rw [markedLines]
      rintro cut later equal
      obtain ⟨rfl, -⟩ := List.cons.inj equal
      exact alone rfl

theorem exists_of_head?_lf {rest : List (Char × Bool)}
    (lf : (rest.map Prod.fst).head? = some '\n') : ∃ cut later, rest = ('\n', cut) :: later := by
  cases rest with
  | nil => simp at lf
  | cons next later =>
      obtain ⟨character, cut⟩ := next
      obtain rfl : character = '\n' := by simpa using lf
      exact ⟨cut, later, rfl⟩

theorem markedLines_first (line : Text) (character : Char) (first second : Bool)
    (rest : List (Char × Bool)) :
    markedLines line ((character, first) :: rest) =
      markedLines line ((character, second) :: rest) := by
  by_cases lf : character = '\n'
  · subst lf
    rfl
  by_cases cr : character = '\r'
  · subst cr
    by_cases alone : (rest.map Prod.fst).head? = some '\n'
    · obtain ⟨cut, later, rfl⟩ := exists_of_head?_lf alone
      rfl
    · rw [markedLines_cr alone, markedLines_cr alone]
  · rw [markedLines_of_ne lf cr, markedLines_of_ne lf cr]

theorem markedLines_map_fst (line : Text) (text : List (Char × Bool)) :
    (markedLines line text).1.map Prod.fst = (linesOf line (text.map Prod.fst)).1 ∧
      (markedLines line text).2 = (linesOf line (text.map Prod.fst)).2 := by
  induction line, text using markedLines.induct with
  | case1 line => exact ⟨rfl, rfl⟩
  | case2 line mark rest induction | case3 line mark cut rest induction =>
      simpa [markedLines, linesOf] using induction
  | case4 line mark rest noLf induction =>
      have alone : (rest.map Prod.fst).head? ≠ some '\n' := by
        intro lf
        obtain ⟨cut, later, equal⟩ := exists_of_head?_lf lf
        exact noLf cut later equal
      rw [markedLines_cr alone, List.map_cons (l := rest), linesOf_cr alone]
      simpa using induction
  | case5 line character mark rest noLf noCrLf noCr induction =>
      rw [markedLines_of_ne noLf noCr, List.map_cons, linesOf_of_ne noLf noCr]
      exact induction

/-- One chunk of the lines, whose rest begins with a marked character. -/
theorem markedLines_append (line text : Text) {rest : List (Char × Bool)}
    (boundary : ∀ first later, rest = first :: later → first.2 = true) :
    (markedLines line (text.map (fun character => (character, false)) ++ rest)).1.flatMap expand =
        (linesOf line text).1 ++ (markedLines (linesOf line text).2 rest).1.flatMap expand ∧
      (markedLines line (text.map (fun character => (character, false)) ++ rest)).2 =
        (markedLines (linesOf line text).2 rest).2 := by
  induction line, text using linesOf.induct with
  | case1 line => exact ⟨rfl, rfl⟩
  | case2 line later induction | case3 line later induction =>
      simpa [markedLines, linesOf, expand] using induction
  | case4 line later noLf induction =>
      have alone := head?_ne_lf noLf
      by_cases follows :
          ((later.map (fun character => (character, false)) ++ rest).map Prod.fst).head? = some '\n'
      · -- The line feed comes with the next chunk.
        cases later with
        | cons next later => simp at follows alone; exact absurd follows alone
        | nil =>
            obtain ⟨cut, tail, rfl⟩ := exists_of_head?_lf follows
            obtain rfl : cut = true := boundary _ _ rfl
            simp [markedLines, linesOf, expand]
      · rw [List.map_cons, List.cons_append, markedLines_cr follows, linesOf_cr alone]
        simpa [expand] using induction
  | case5 line character later noLf noCrLf noCr induction =>
      rw [List.map_cons, List.cons_append, markedLines_of_ne noLf noCr, linesOf_of_ne noLf noCr]
      exact induction

theorem marked_boundary {Element : Type*} (chunks : List (List Element)) :
    ∀ first later, marked chunks = first :: later → first.2 = true := by
  induction chunks with
  | nil =>
      intro first later equal
      simp [marked] at equal
  | cons chunk rest induction =>
      intro first later equal
      cases chunk with
      | nil => exact induction first later (by simpa [marked, markChunk] using equal)
      | cons head chunk =>
          obtain ⟨rfl, -⟩ := List.cons.inj
            (show (head, true) :: _ = first :: later by simpa [marked, markChunk] using equal)
          rfl

/-- The lines of chunks are those of the whole text, with a blank line after
each cut CRLF. -/
theorem markedLines_marked (line : Text) (chunks : List Text) :
    (markedLines line (marked chunks)).1.flatMap expand = (linesOfChunks line chunks).1 ∧
      (markedLines line (marked chunks)).2 = (linesOfChunks line chunks).2 := by
  induction chunks generalizing line with
  | nil => exact ⟨rfl, rfl⟩
  | cons chunk rest induction =>
      have first : markedLines line (marked (chunk :: rest)) =
          markedLines line (chunk.map (fun character => (character, false)) ++ marked rest) := by
        cases chunk with
        | nil => rfl
        | cons character chunk => exact markedLines_first line character true false _
      obtain ⟨lines, left⟩ := markedLines_append line chunk (marked_boundary rest)
      obtain ⟨lines', left'⟩ := induction (linesOf line chunk).2
      rw [first, lines, left, lines', left']
      exact ⟨rfl, rfl⟩

/-- Put together, the pieces are the frames of the whole lines. -/
theorem framesOf_map_fst (lines : List (Text × Bool)) :
    framesOf (lines.map Prod.fst) = (piecesOf lines).map List.flatten := by
  induction lines with
  | nil => rfl
  | cons first rest induction =>
      obtain ⟨line, cut⟩ := first
      by_cases blank : line = []
      · cases cut <;> simp [framesOf, piecesOf, blank, induction]
      · simp only [List.map_cons, framesOf, piecesOf, if_neg blank, induction]
        cases piecesOf rest with
        | nil => rfl
        | cons frame later =>
            cases cut with
            | true => simp
            | false => cases frame <;> simp [addLine]

theorem ne_nil_of_mem_piecesOf {lines : List (Text × Bool)} {frame : List (List Text)}
    (member : frame ∈ piecesOf lines) : frame ≠ [] := by
  induction lines generalizing frame with
  | nil => simp [piecesOf] at member
  | cons first rest induction =>
      obtain ⟨line, cut⟩ := first
      rw [piecesOf] at member
      split at member
      case isTrue blank =>
          rcases List.mem_cons.mp member with rfl | member
          · cases cut <;> simp
          · exact induction member
      case isFalse nonblank =>
          split at member
          case h_1 => simp at member
          case h_2 previous later pieces =>
              rcases List.mem_cons.mp member with rfl | member
              · cases cut with
                | true => simp
                | false => cases previous <;> simp [addLine]
              · exact induction (pieces ▸ List.mem_cons_of_mem _ member)

/-- One by one, the pieces are the frames of the lines of the chunks. -/
theorem framesOf_flatMap_expand (init : List (Text × Bool)) :
    framesOf ((init ++ [([], false)]).flatMap expand) =
        (piecesOf (init ++ [([], false)])).flatten ∧
      piecesOf (init ++ [([], false)]) ≠ [] := by
  induction init with
  | nil => exact ⟨rfl, by simp [piecesOf]⟩
  | cons first rest induction =>
      obtain ⟨line, cut⟩ := first
      rw [List.cons_append, List.flatMap_cons]
      generalize rest ++ [([], false)] = lines at induction ⊢
      obtain ⟨frames, nonempty⟩ := induction
      by_cases blank : line = []
      · cases cut <;> simp [framesOf, piecesOf, expand, blank, frames]
      · obtain ⟨frame, later, pieces⟩ := List.exists_cons_of_ne_nil nonempty
        have member : frame ∈ piecesOf lines := by simp [pieces]
        obtain ⟨piece, others, rfl⟩ :=
          List.exists_cons_of_ne_nil (ne_nil_of_mem_piecesOf member)
        rw [pieces] at frames
        cases cut <;> simp [framesOf, piecesOf, expand, addLine, blank, frames, pieces]

theorem framesEvents_eq_nil_iff (id : Option Text) (frames : List (List Text)) :
    framesEvents id frames = [] ↔ ∀ frame ∈ frames, dataOf frame = [] := by
  induction frames generalizing id with
  | nil => simp [framesEvents]
  | cons frame rest induction =>
      have first : frameEvent id frame = [] ↔ dataOf frame = [] := by
        unfold frameEvent
        split <;> simp_all
      simp [framesEvents, induction, first]

theorem dataOf_flatten_eq_nil {pieces : List (List Text)}
    (empty : ∀ piece ∈ pieces, dataOf piece = []) : dataOf pieces.flatten = [] := by
  induction pieces with
  | nil => rfl
  | cons piece rest induction =>
      rw [List.flatten_cons, dataOf_append, empty piece (by simp),
        induction fun other member => empty other (List.mem_cons_of_mem _ member)]
      rfl

/-- A frame dispatches no more as a whole than in pieces. -/
theorem length_frameEvent_le (id : Option Text) (frame : List (List Text)) :
    (frameEvent id frame.flatten).length ≤ (framesEvents id frame).length := by
  unfold frameEvent
  split
  case isTrue => exact Nat.zero_le _
  case isFalse data =>
      apply List.length_pos_of_ne_nil
      intro empty
      apply data
      exact dataOf_flatten_eq_nil ((framesEvents_eq_nil_iff id frame).mp empty)

theorem framesEvents_split (id : Option Text) (before after : List (List Text))
    (piece : List Text) :
    framesEvents id (before ++ piece :: after) =
      framesEvents id before ++ (frameEvent (idOf id before.flatten) piece ++
        framesEvents (idOf (idOf id before.flatten) piece) after) := by
  rw [framesEvents_append, framesEvents]

/-- A frame dispatches the same in pieces exactly if it is unharmed. -/
theorem framesEvents_eq_frameEvent_iff (id : Option Text) (frame : List (List Text)) :
    frameEvent id frame.flatten = framesEvents id frame ↔ Unharmed id frame := by
  constructor
  · rintro same before piece after rfl data
    have whole : dataOf (before ++ piece :: after).flatten ≠ [] := by
      simp only [List.flatten_append, List.flatten_cons, dataOf_append]
      exact fun empty => data (List.append_eq_nil_iff.mp (List.append_eq_nil_iff.mp empty).2).1
    rw [framesEvents_split, frameEvent, if_neg whole, frameEvent, if_neg data] at same
    have lengths := congrArg List.length same
    simp only [List.length_append, List.length_singleton] at lengths
    have first : framesEvents id before = [] := List.eq_nil_of_length_eq_zero (by omega)
    have last : framesEvents (idOf (idOf id before.flatten) piece) after = [] :=
      List.eq_nil_of_length_eq_zero (by omega)
    rw [first, last] at same
    obtain ⟨type, -, final⟩ := SseEvent.mk.inj (List.singleton_inj.mp same)
    refine ⟨fun other member => ?_, type.symm, ?_⟩
    · rcases List.mem_append.mp member with member | member
      · exact (framesEvents_eq_nil_iff _ _).mp first other member
      · exact (framesEvents_eq_nil_iff _ _).mp last other member
    · rw [idOf_append]
      exact final.symm
  · intro unharmed
    by_cases data : ∃ piece ∈ frame, dataOf piece ≠ []
    · obtain ⟨piece, member, data⟩ := data
      obtain ⟨before, after, rfl⟩ := List.append_of_mem member
      obtain ⟨others, type, last⟩ := unharmed before piece after rfl data
      have first : ∀ other ∈ before, dataOf other = [] := fun other member =>
        others other (List.mem_append_left _ member)
      have second : ∀ other ∈ after, dataOf other = [] := fun other member =>
        others other (List.mem_append_right _ member)
      have whole : dataOf (before ++ piece :: after).flatten = dataOf piece := by
        simp [dataOf_append, dataOf_flatten_eq_nil first, dataOf_flatten_eq_nil second]
      rw [framesEvents_split, (framesEvents_eq_nil_iff _ _).mpr first,
        (framesEvents_eq_nil_iff _ _).mpr second, frameEvent, frameEvent, whole, if_neg data,
        if_neg data, type, ← last, idOf_append]
      rfl
    · have empty : ∀ piece ∈ frame, dataOf piece = [] := by simpa using data
      rw [(framesEvents_eq_nil_iff id frame).mpr empty, frameEvent,
        if_pos (dataOf_flatten_eq_nil empty)]

/-- The frames dispatch the same in pieces exactly if all are unharmed. -/
theorem framesEvents_flatten_iff (id : Option Text) (frames : List (List (List Text))) :
    (framesEvents id (frames.map List.flatten)).length ≤ (framesEvents id frames.flatten).length ∧
      (framesEvents id (frames.map List.flatten) = framesEvents id frames.flatten ↔
        AllUnharmed id frames) := by
  induction frames generalizing id with
  | nil => simp [framesEvents, AllUnharmed]
  | cons frame rest induction =>
      obtain ⟨shorter, same⟩ := induction (idOf id frame.flatten)
      have first := length_frameEvent_le id frame
      rw [List.map_cons, List.flatten_cons, framesEvents, framesEvents_append]
      refine ⟨by simp only [List.length_append]; omega, ?_⟩
      rw [AllUnharmed, ← framesEvents_eq_frameEvent_iff, ← same]
      constructor
      · intro equal
        have lengths := congrArg List.length equal
        simp only [List.length_append] at lengths
        exact List.append_inj equal (by omega)
      · rintro ⟨equal, equal'⟩
        rw [equal, equal']

theorem map_fromUtf8Lossy {chunks : List (List UInt8)}
    (ascii : ∀ chunk ∈ chunks, ∀ byte ∈ chunk, byte.toNat < 0x80) :
    chunks.map Utf8.fromUtf8Lossy = chunks.map asciiText :=
  List.map_congr_left fun chunk member => Utf8.fromUtf8Lossy_ascii (ascii chunk member)

theorem closing_lines (line : Text) :
    ∃ init, (closing line).map (fun line => (line, false)) = init ++ [(([] : Text), false)] := by
  unfold closing
  split
  · exact ⟨[], rfl⟩
  · exact ⟨[(line, false)], rfl⟩

theorem flatMap_expand_closing (line : Text) :
    ((closing line).map fun line => (line, false)).flatMap expand = closing line := by
  unfold closing
  split <;> rfl

theorem framesOf_linesOfChunks (chunks : List Text) :
    framesOf ((linesOfChunks [] chunks).1 ++ closing (linesOfChunks [] chunks).2) =
      (cutFrames chunks).flatten := by
  obtain ⟨lines, left⟩ := markedLines_marked [] chunks
  obtain ⟨init, shape⟩ := closing_lines (markedLines [] (marked chunks)).2
  have frames := (framesOf_flatMap_expand ((markedLines [] (marked chunks)).1 ++ init)).1
  rw [List.append_assoc, ← shape, List.flatMap_append, lines, flatMap_expand_closing, left]
    at frames
  rw [frames, cutFrames, left]

theorem framesOf_linesOf (chunks : List Text) :
    framesOf ((linesOf [] chunks.flatten).1 ++ closing (linesOf [] chunks.flatten).2) =
      (cutFrames chunks).map List.flatten := by
  obtain ⟨lines, left⟩ := markedLines_map_fst [] (marked chunks)
  rw [map_fst_marked] at lines left
  rw [cutFrames, ← framesOf_map_fst, List.map_append, lines, List.map_map, left]
  simp [Function.comp_def]

/-- The events of an ASCII stream are those of its frames in pieces if it is
fed chunk by chunk, and of the whole frames if it is fed at once. -/
theorem decodeAll_cutFrames {chunks : List (List UInt8)}
    (ascii : ∀ chunk ∈ chunks, ∀ byte ∈ chunk, byte.toNat < 0x80) :
    decodeAll chunks = framesEvents none (cutFrames (chunks.map asciiText)).flatten ∧
      decodeAll [chunks.flatten] =
        framesEvents none ((cutFrames (chunks.map asciiText)).map List.flatten) := by
  have whole : ∀ chunk ∈ [chunks.flatten], ∀ byte ∈ chunk, byte.toNat < 0x80 := by
    intro chunk member byte inside
    obtain rfl := List.mem_singleton.mp member
    obtain ⟨part, known, inside⟩ := List.mem_flatten.mp inside
    exact ascii part known byte inside
  have flat : asciiText chunks.flatten = (chunks.map asciiText).flatten := List.map_flatten
  constructor
  · rw [decodeAll_eq, feedEach_new, map_fromUtf8Lossy ascii, framesOf_linesOfChunks]
  · rw [decodeAll_eq, feedEach_new, map_fromUtf8Lossy whole, List.map_singleton,
      linesOfChunks_singleton, flat, framesOf_linesOf]

/-- Feeding an ASCII stream chunk by chunk gives the events of feeding it at
once exactly if no frame is harmed by the CRLFs that the chunks cut. -/
theorem decodeAll_chunks_iff {chunks : List (List UInt8)}
    (ascii : ∀ chunk ∈ chunks, ∀ byte ∈ chunk, byte.toNat < 0x80) :
    decodeAll chunks = decodeAll [chunks.flatten] ↔
      AllUnharmed none (cutFrames (chunks.map asciiText)) := by
  obtain ⟨split, whole⟩ := decodeAll_cutFrames ascii
  rw [split, whole, ← (framesEvents_flatten_iff none _).2, eq_comm]

/-- `data: a`, with the CRLF cut, and a blank line. -/
def harmlessCut : List (List UInt8) :=
  [[100, 97, 116, 97, 58, 32, 97, 13], [10, 13, 10]]

/-- The cut ends the frame of `harmlessCut` early, and nothing is lost. -/
theorem decodeAll_chunks_iff_harmlessCut :
    decodeAll harmlessCut = decodeAll [harmlessCut.flatten] :=
  (decodeAll_chunks_iff (by simp [harmlessCut])).mpr (by decide)

/-- `data: a` and `data: b` in one frame, with the CRLF between them cut. -/
def cutFrame : List (List UInt8) :=
  [[100, 97, 116, 97, 58, 32, 97, 13], [10, 100, 97, 116, 97, 58, 32, 98, 13, 10, 13, 10]]

/-- The frame is dispatched as two. -/
theorem frame_split_at_cut :
    ¬ ∀ chunks : List (List UInt8), (∀ chunk ∈ chunks, ∀ byte ∈ chunk, byte.toNat < 0x80) →
      decodeAll chunks = decodeAll [chunks.flatten] := by
  intro claimed
  have ascii : ∀ chunk ∈ cutFrame, ∀ byte ∈ chunk, byte.toNat < 0x80 := by simp [cutFrame]
  have same := claimed cutFrame ascii
  obtain ⟨split, whole⟩ := decodeAll_cutFrames ascii
  rw [split, whole] at same
  exact absurd same (by decide)

end CeRs.Sse
