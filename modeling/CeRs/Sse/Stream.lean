import CeRs.Sse.Decoder

/-!
# The typed stream

`decode_stream` hands out the frames that the decoder has completed, one item
after the other, and reads the next chunk of the response body only when none
is left.  A frame whose data does not decode becomes an error item, and the
stream goes on behind it.
-/

namespace CeRs.Sse

/-- Why an item of the stream is an error. -/
inductive ItemError
  | frame (data : Text)
  | transport
  deriving DecidableEq, Repr

/-- The state of the unfold: what the decoder holds, the frames not yet handed
out, and whether the body has ended. -/
structure EventStream where
  decoder : SseDecoder
  pending : List SseEvent
  done : Bool
  deriving DecidableEq, Repr

def EventStream.new : EventStream :=
  ⟨.new, [], false⟩

/-- What the response body yields next. -/
inductive Body
  | chunk (bytes : List UInt8)
  | failed
  | ended
  deriving DecidableEq, Repr

/-- What a read of the body does; a failed one is an item at once. -/
def EventStream.read (stream : EventStream) : Body → Option ItemError × EventStream
  | .chunk bytes =>
      let pushed := push stream.decoder bytes
      (none, { stream with decoder := pushed.2, pending := stream.pending ++ pushed.1 })
  | .failed => (some .transport, { stream with done := true })
  | .ended =>
      let last := finish stream.decoder
      (none, ⟨last.2, stream.pending ++ last.1.toList, true⟩)

section Items

variable {Value : Type} (decode : Text → Option Value)

/-- The item of a frame. -/
def itemOf (event : SseEvent) : Except ItemError Value :=
  match decode event.data with
  | some value => .ok value
  | none => .error (.frame event.data)

/-- Poll the stream: the next item or its end, unless it has to read first. -/
def EventStream.poll (stream : EventStream) :
    Option (Option (Except ItemError Value) × EventStream) :=
  match stream.pending with
  | event :: rest => some (some (itemOf decode event), { stream with pending := rest })
  | [] => if stream.done then some (none, stream) else none

/-- The items that are handed out while the body yields these chunks: those of
the frames that are waiting, and then those of what is read. -/
def EventStream.items (stream : EventStream) : List (List UInt8) → List (Except ItemError Value)
  | [] => stream.pending.map (itemOf decode)
  | chunk :: rest =>
      let drained : EventStream := { stream with pending := [] }
      stream.pending.map (itemOf decode) ++
        EventStream.items (drained.read (.chunk chunk)).2 rest

end Items

theorem items_eq {Value : Type} (decode : Text → Option Value) (stream : EventStream)
    (chunks : List (List UInt8)) :
    stream.items decode chunks =
      (stream.pending ++ (pushAll stream.decoder chunks).1).map (itemOf decode) := by
  induction chunks generalizing stream with
  | nil => simp [EventStream.items, pushAll]
  | cons chunk rest induction =>
      simp [EventStream.items, EventStream.read, pushAll, induction]

/-- A fresh stream hands out the frames that the chunks complete. -/
theorem items_new {Value : Type} (decode : Text → Option Value) (chunks : List (List UInt8)) :
    EventStream.new.items decode chunks = (pushAll .new chunks).1.map (itemOf decode) :=
  items_eq decode .new chunks

section Polls

variable {Value : Type} (decode : Text → Option Value)

/-- What the stream is polled for: it reads the body until it has an item or is
done, and waits if the body yields nothing more. -/
def EventStream.next (stream : EventStream) :
    List Body → Option (Option (Except ItemError Value) × EventStream × List Body)
  | [] => (stream.poll decode).map fun polled => (polled.1, polled.2, [])
  | result :: rest =>
      match stream.poll decode with
      | some (item, drained) => some (item, drained, result :: rest)
      | none =>
          match stream.read result with
          | (some error, read) => some (some (.error error), read, rest)
          | (none, read) => EventStream.next read rest

/-- The items of so many polls, whether the stream ended before them, and what
is left unread of the body. -/
def EventStream.firstItems :
    Nat → EventStream → List Body → Option (List (Except ItemError Value) × Bool × List Body)
  | 0, _, body => some ([], false, body)
  | count + 1, stream, body =>
      match stream.next decode body with
      | none => none
      | some (none, _, left) => some ([], true, left)
      | some (some item, later, left) =>
          (EventStream.firstItems count later left).map fun taken => (item :: taken.1, taken.2)

/-- How the body ends. -/
inductive Ending
  | ended
  | failed
  deriving DecidableEq, Repr

def Ending.body : Ending → Body
  | .ended => .ended
  | .failed => .failed

/-- The items behind those of the chunks. -/
def Ending.items (decoder : SseDecoder) : Ending → List (Except ItemError Value)
  | .ended => (finish decoder).1.toList.map (itemOf decode)
  | .failed => [.error .transport]

/-- The image of the decoder's events. -/
def imageOf (decoder : SseDecoder) (pending : List SseEvent) (chunks : List (List UInt8))
    (ending : Ending) : List (Except ItemError Value) :=
  (pending ++ (pushAll decoder chunks).1).map (itemOf decode) ++
    ending.items decode (pushAll decoder chunks).2

/-- A stream, what its body still yields, and the items that are ahead of it. -/
inductive Ahead (ending : Ending) (unread : List Body) :
    EventStream → List Body → List (Except ItemError Value) → Prop
  | reading (decoder : SseDecoder) (pending : List SseEvent) (chunks : List (List UInt8)) :
      Ahead ending unread ⟨decoder, pending, false⟩
        (chunks.map .chunk ++ ending.body :: unread) (imageOf decode decoder pending chunks ending)
  | done (decoder : SseDecoder) (pending : List SseEvent) :
      Ahead ending unread ⟨decoder, pending, true⟩ unread (pending.map (itemOf decode))

variable {decode} {ending : Ending} {unread : List Body}

theorem next_of_poll {stream drained : EventStream} {item : Option (Except ItemError Value)}
    (polled : stream.poll decode = some (item, drained)) (body : List Body) :
    stream.next decode body = some (item, drained, body) := by
  cases body with
  | nil => rw [EventStream.next, polled, Option.map_some]
  | cons result rest => rw [EventStream.next, polled]

theorem imageOf_cons (decoder : SseDecoder) (chunk : List UInt8) (rest : List (List UInt8)) :
    imageOf decode decoder [] (chunk :: rest) ending =
      imageOf decode (push decoder chunk).2 (push decoder chunk).1 rest ending := by
  simp [imageOf, pushAll]

/-- What the first poll gives, if these are the items ahead and the stream ends
with everything behind the end of the body unread. -/
def Polled (decode : Text → Option Value) (ending : Ending) (unread : List Body)
    (polled : Option (Option (Except ItemError Value) × EventStream × List Body)) :
    List (Except ItemError Value) → Prop
  | [] => ∃ later, polled = some (none, later, unread)
  | item :: rest => ∃ later left, polled = some (some item, later, left) ∧
      Ahead decode ending unread later left rest

theorem polled_done (decoder : SseDecoder) (pending : List SseEvent) :
    Polled decode ending unread (EventStream.next decode ⟨decoder, pending, true⟩ unread)
      (pending.map (itemOf decode)) := by
  cases pending with
  | nil => exact ⟨_, next_of_poll rfl _⟩
  | cons event rest => exact ⟨_, _, next_of_poll rfl _, .done decoder rest⟩

theorem polled_reading (decoder : SseDecoder) (pending : List SseEvent)
    (chunks : List (List UInt8)) :
    Polled decode ending unread
      (EventStream.next decode ⟨decoder, pending, false⟩
        (chunks.map .chunk ++ ending.body :: unread))
      (imageOf decode decoder pending chunks ending) := by
  induction chunks generalizing decoder pending with
  | nil =>
      cases pending with
      | cons event rest => exact ⟨_, _, next_of_poll rfl _, .reading decoder rest []⟩
      | nil =>
          cases ending with
          | ended => exact polled_done (finish decoder).2 (finish decoder).1.toList
          | failed => exact ⟨_, _, rfl, .done decoder []⟩
  | cons chunk rest induction =>
      cases pending with
      | cons event later => exact ⟨_, _, next_of_poll rfl _, .reading decoder later (chunk :: rest)⟩
      | nil =>
          rw [imageOf_cons]
          exact induction (push decoder chunk).2 (push decoder chunk).1

theorem polled_of_ahead {stream : EventStream} {body : List Body}
    {items : List (Except ItemError Value)} (ahead : Ahead decode ending unread stream body items) :
    Polled decode ending unread (stream.next decode body) items := by
  cases ahead with
  | reading decoder pending chunks => exact polled_reading decoder pending chunks
  | done decoder pending => exact polled_done decoder pending

theorem Ahead.unread_suffix {stream : EventStream} {body : List Body}
    {items : List (Except ItemError Value)} (ahead : Ahead decode ending unread stream body items) :
    unread <:+ body := by
  cases ahead with
  | reading decoder pending chunks =>
      exact (List.suffix_cons _ _).trans (List.suffix_append _ _)
  | done decoder pending => exact List.suffix_rfl

/-- The polls hand out the items that are ahead, in order, and then the end. -/
theorem firstItems_of_ahead (count : Nat) {stream : EventStream} {body : List Body}
    {items : List (Except ItemError Value)} (ahead : Ahead decode ending unread stream body items) :
    ∃ left, stream.firstItems decode count body =
        some (items.take count, decide (items.length < count), left) ∧
      unread <:+ left ∧ (items.length < count → left = unread) := by
  induction count generalizing stream body items with
  | zero => exact ⟨body, by simp [EventStream.firstItems], ahead.unread_suffix, by simp⟩
  | succ count induction =>
      cases items with
      | nil =>
          obtain ⟨later, polled⟩ := polled_of_ahead ahead
          exact ⟨unread, by simp [EventStream.firstItems, polled], List.suffix_rfl, fun _ => rfl⟩
      | cons item rest =>
          obtain ⟨later, left, polled, remaining⟩ := polled_of_ahead ahead
          obtain ⟨final, taken, suffix, atEnd⟩ := induction remaining
          refine ⟨final, ?_, suffix, fun longer => atEnd (Nat.lt_of_succ_lt_succ longer)⟩
          simp [EventStream.firstItems, polled, taken]

variable (decode ending unread) in
theorem ahead_new (chunks : List (List UInt8)) :
    Ahead decode ending unread .new (chunks.map .chunk ++ ending.body :: unread)
      (imageOf decode .new [] chunks ending) :=
  .reading .new [] chunks

end Polls

/-- The stream yields the image of the events of the chunks, in order, and then
the item of `finish` or one transport error, and ends; what is behind the end of
the body is never read. -/
theorem firstItems_new {Value : Type} (decode : Text → Option Value)
    (chunks : List (List UInt8)) (ending : Ending) (unread : List Body) (count : Nat) :
    ∃ items left,
      items = (pushAll .new chunks).1.map (itemOf decode) ++
          (match ending with
          | .ended => (finish (pushAll .new chunks).2).1.toList.map (itemOf decode)
          | .failed => [.error .transport]) ∧
        EventStream.new.firstItems decode count (chunks.map .chunk ++ ending.body :: unread) =
          some (items.take count, decide (items.length < count), left) ∧
        unread <:+ left ∧ (items.length < count → left = unread) := by
  obtain ⟨left, taken, suffix, atEnd⟩ :=
    firstItems_of_ahead count (ahead_new decode ending unread chunks)
  refine ⟨imageOf decode .new [] chunks ending, left, ?_, taken, suffix, atEnd⟩
  cases ending <;> rfl

end CeRs.Sse
