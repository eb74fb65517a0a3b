import CeRs.Lane.WatchStart
import CeRs.Serve.Loop
import CeRs.Sse.Stream
import CeRs.Sse.TextChunks

/-!
# The stream of inbound messages

`messages_stream_for` rides the lane if `watch_stream` returns a receiver, and
opens the node's event stream otherwise.  The path of the event stream names
the topics, and the node leaves out all others, as it reads them there; for
topics without a comma these are the same (`Topics.streamed_eq_iff`).  Over the
lane the node pushes every message, and nothing on this side looks at its topic.
-/

namespace CeRs.MessageStream

open Chunks Sse Transition
open Serve (AppMessage)

/-- The bytes that `urlencode` keeps. -/
def kept (byte : UInt8) : Bool :=
  (65 ≤ byte && byte ≤ 90) || (97 ≤ byte && byte ≤ 122) || (48 ≤ byte && byte ≤ 57) ||
    byte == 45 || byte == 95 || byte == 46 || byte == 126 || byte == 44

/-- The upper-case digit of a value below sixteen. -/
def upperDigit (value : Nat) : Char :=
  if value < 10 then Char.ofNat (48 + value) else Char.ofNat (55 + value)

/-- `urlencode`, percent-encoding a query-string value. -/
def urlencode (text : String) : String :=
  String.ofList ((Utf8.encode text.toList).flatMap fun byte =>
    if kept byte then [Char.ofNat byte.toNat]
    else ['%', upperDigit (byte.toNat / 16), upperDigit (byte.toNat % 16)])

/-- The path of the event stream of these topics. -/
def streamPath (topics : List String) : String :=
  if topics = [] then "/mesh/messages/stream"
  else "/mesh/messages/stream?topics=" ++ urlencode (",".intercalate topics)

/-- The message of a pushed event. -/
def appMessage (message : Lane.Msg) : AppMessage :=
  ⟨Hex.encode message.sender, message.topic, Hex.encode message.payload, message.receivedAt,
    message.replyToken⟩

/-- `messages_stream_for`: the items of the receiver that `watch_stream`
returned, or else of the body that `open_sse` returns for the path, if any. -/
def messagesStreamFor (decode : Text → Option AppMessage) (topics : List String)
    (watched : Option (List Lane.Msg)) (openSse : String → Option (List (List UInt8))) :
    Option (List (Except ItemError AppMessage)) :=
  match watched with
  | some inbox => some (inbox.map fun message => .ok (appMessage message))
  | none => (openSse (streamPath topics)).map (EventStream.new.items decode)

/-- Every message that is yielded is of a declared topic. -/
def Declared (topics : List String) (items : Option (List (Except ItemError AppMessage))) : Prop :=
  ∀ yielded ∈ items, ∀ message, .ok message ∈ yielded → message.topic ∈ topics

/-- The text of an event stream whose frames with data hold these messages, one
on each data line. -/
def Carries (encode : AppMessage → Text) (text : Text) (messages : List AppMessage) : Prop :=
  '\r' ∉ text ∧
    ((framesOf (linesOf [] text).1).map dataOf).filter (· ≠ []) =
      messages.map fun message => [encode message]

/-- A text some of whose characters were cut on their way. -/
def Mangled (text arrived : Text) : Prop :=
  ∃ value : List CutChar, value.map Prod.fst = text ∧ (∀ character ∈ value, Inside character) ∧
    ¬ Whole value ∧ arrived = value.flatMap damage

/-- No data value of the frames has a character that is cut. -/
def WholeData (text : Text) (chunks : List (List UInt8)) : Prop :=
  ∀ frame ∈ cutFramesOf text chunks, ∀ value ∈ cutData frame, Whole value

instance decidableWholeData (text : Text) (chunks : List (List UInt8)) :
    Decidable (WholeData text chunks) :=
  inferInstanceAs (Decidable (∀ frame ∈ cutFramesOf text chunks,
    ∀ value ∈ cutData frame, Whole value))

theorem not_mangled_of_ascii {text arrived : Text}
    (ascii : ∀ character ∈ text, character.toNat < 0x80) : ¬ Mangled text arrived := by
  rintro ⟨value, rfl, inside, cut, -⟩
  apply cut
  intro character member
  have small := ascii character.1 (List.mem_map_of_mem member)
  apply (length_damage (inside character member)).2.mp
  rw [damage_ascii (inside character member) small]
  rfl

theorem data_framesEvents (id : Option Text) (frames : List (List Text)) :
    (framesEvents id frames).map SseEvent.data =
      ((frames.map dataOf).filter (· ≠ [])).map (List.intercalate ['\n']) := by
  induction frames generalizing id with
  | nil => rfl
  | cons frame rest induction =>
      rw [framesEvents, List.map_append, induction, List.map_cons, frameEvent]
      by_cases empty : dataOf frame = []
      · simp [empty]
      · simp [empty]

/-- The item of a frame with this data. -/
def dataItem (decode : Text → Option AppMessage) (data : Text) : Except ItemError AppMessage :=
  match decode data with
  | some message => .ok message
  | none => .error (.frame data)

theorem itemOf_eq (decode : Text → Option AppMessage) (event : SseEvent) :
    itemOf decode event = dataItem decode event.data := by
  unfold itemOf dataItem
  cases decode event.data <;> rfl

theorem dataItem_eq_ok {decode : Text → Option AppMessage} {data : Text} {message : AppMessage} :
    dataItem decode data = .ok message ↔ decode data = some message := by
  unfold dataItem
  cases decode data <;> simp

section Http

variable {encode : AppMessage → Text} {decode : Text → Option AppMessage}

/-- The data values of the frames that have some, as they arrive. -/
def dataValues (text : Text) (chunks : List (List UInt8)) : List (List (List CutChar)) :=
  ((cutFramesOf text chunks).map cutData).filter (· ≠ [])

theorem wholeData_iff {text : Text} {chunks : List (List UInt8)} :
    WholeData text chunks ↔
      ∀ values ∈ dataValues text chunks, ∀ value ∈ values, Whole value := by
  simp only [WholeData, dataValues, List.mem_filter, List.mem_map, decide_eq_true_iff]
  constructor
  · rintro whole values ⟨⟨frame, member, rfl⟩, -⟩
    exact whole frame member
  · intro whole frame member value inside
    exact whole _ ⟨⟨frame, member, rfl⟩, List.ne_nil_of_mem inside⟩ value inside

theorem filter_dataOf_render {render : CutChar → Text} {frames : List (List (List CutChar))}
    (faithful : ∀ frame ∈ frames, ∀ line ∈ frame, ∀ character ∈ line, Faithful render character) :
    ((frames.map (List.map (List.flatMap render))).map dataOf).filter (· ≠ []) =
      ((frames.map cutData).filter (· ≠ [])).map (List.map (List.flatMap render)) := by
  have data : (frames.map (List.map (List.flatMap render))).map dataOf =
      (frames.map cutData).map (List.map (List.flatMap render)) := by
    rw [List.map_map, List.map_map]
    apply List.map_congr_left
    intro frame member
    exact dataOf_render (faithful frame member)
  rw [data, List.filter_map]
  congr 1
  apply List.filter_congr
  intro values _
  simp

/-- The items that come out of the chunks. -/
theorem items_eq_dataValues {text : Text} {chunks : List (List UInt8)} (noCr : '\r' ∉ text)
    (encoded : chunks.flatten = Utf8.encode text) :
    EventStream.new.items decode chunks =
      (dataValues text chunks).map fun values =>
        dataItem decode (List.intercalate ['\n'] (values.map (List.flatMap damage))) := by
  have item : itemOf decode = dataItem decode ∘ SseEvent.data := by
    funext event
    exact itemOf_eq decode event
  rw [items_new, pushAll_cutFramesOf noCr encoded, item, ← List.map_map, data_framesEvents,
    filter_dataOf_render fun frame member =>
      faithful_damage_lines (inside_cutFramesOf member)]
  simp [dataValues]

theorem map_dataValues {text : Text} {chunks : List (List UInt8)} {messages : List AppMessage}
    (carries : Carries encode text messages) :
    (dataValues text chunks).map (List.map (List.flatMap plain)) =
      messages.map fun message => [encode message] := by
  rw [← carries.2, framesOf_plain carries.1 chunks,
    filter_dataOf_render fun frame _ => faithful_plain_lines frame, dataValues]

theorem inside_dataValues {text : Text} {chunks : List (List UInt8)} :
    ∀ values ∈ dataValues text chunks, ∀ value ∈ values, ∀ character ∈ value,
      Inside character := by
  intro values member
  obtain ⟨frame, inText, rfl⟩ := List.mem_map.mp (List.mem_filter.mp member).1
  exact inside_filterMap (inside_cutFramesOf inText) value?_of_data?

/-- A message arrives exactly if its value is whole. -/
theorem dataItem_damage_iff {value : List CutChar} {message : AppMessage}
    (roundTrip : decode (encode message) = some message)
    (distinct : ∀ arrived, Mangled (encode message) arrived → decode arrived ≠ some message)
    (inside : ∀ character ∈ value, Inside character) (text : value.flatMap plain = encode message) :
    dataItem decode (value.flatMap damage) = .ok message ↔ Whole value := by
  rw [dataItem_eq_ok]
  constructor
  · intro decoded
    by_contra cut
    exact distinct _ ⟨value, by rw [← text, flatMap_plain], inside, cut, rfl⟩ decoded
  · intro whole
    rw [(plain_eq_damage_iff inside).mpr whole, text, roundTrip]

/-- The messages arrive exactly if all values are whole. -/
theorem map_dataItem_iff {values : List (List (List CutChar))} {messages : List AppMessage}
    (roundTrip : ∀ message ∈ messages, decode (encode message) = some message)
    (distinct : ∀ message ∈ messages, ∀ arrived, Mangled (encode message) arrived →
      decode arrived ≠ some message)
    (inside : ∀ parts ∈ values, ∀ value ∈ parts, ∀ character ∈ value, Inside character)
    (texts : values.map (List.map (List.flatMap plain)) =
      messages.map fun message => [encode message]) :
    (values.map fun parts =>
        dataItem decode (List.intercalate ['\n'] (parts.map (List.flatMap damage)))) =
        messages.map .ok ↔
      ∀ parts ∈ values, ∀ value ∈ parts, Whole value := by
  induction values generalizing messages with
  | nil =>
      obtain rfl : messages = [] := by simpa using texts.symm
      simp
  | cons parts rest induction =>
      cases messages with
      | nil => simp at texts
      | cons message messages =>
          obtain ⟨own, others⟩ := List.cons.inj texts
          obtain ⟨value, rfl, text⟩ := List.map_eq_singleton_iff.mp own
          rw [List.forall_mem_cons] at roundTrip distinct inside ⊢
          have first := dataItem_damage_iff roundTrip.1 distinct.1 (inside.1 value (by simp)) text
          have later := induction roundTrip.2 distinct.2 inside.2 others
          rw [List.forall_mem_singleton, ← first, ← later, List.map_cons, List.map_cons,
            List.map_cons, List.cons.injEq, List.map_nil, List.intercalate_singleton]

/-- Over HTTP exactly these messages arrive if and only if none is cut. -/
theorem items_eq_iff_wholeData {text : Text} {chunks : List (List UInt8)}
    {messages : List AppMessage} (carries : Carries encode text messages)
    (encoded : chunks.flatten = Utf8.encode text)
    (roundTrip : ∀ message ∈ messages, decode (encode message) = some message)
    (distinct : ∀ message ∈ messages, ∀ arrived, Mangled (encode message) arrived →
      decode arrived ≠ some message) :
    EventStream.new.items decode chunks = messages.map .ok ↔ WholeData text chunks := by
  rw [items_eq_dataValues carries.1 encoded, wholeData_iff]
  exact map_dataItem_iff roundTrip distinct inside_dataValues (map_dataValues carries)

end Http

/-- A stream over the lane and one over HTTP, opened for the same topics while
the same messages come in, yield the same messages, all of declared topics,
exactly if every message is of a declared topic and none is cut. -/
theorem lane_and_http_agree_iff {encode : AppMessage → Text} {decode : Text → Option AppMessage}
    {topics : List String} {inbound : List Lane.Msg}
    -- The receiver is registered, and the node pushes what comes in.
    {before after : List Lane.Label} {registering registered final : Lane.State} {index : Nat}
    (reached : execute Lane.step Lane.initial before = some registering)
    (point : (registering.callers index).point = .registering)
    (stepped : Lane.step registering (.caller index) = some registered)
    (later : execute Lane.step registered after = some final)
    (watching : (final.callers index).point = .watching)
    (held : (final.callers index).receiverDropped = false)
    (pushes : Lane.heard registered after = inbound)
    -- The event stream carries the messages of the topics.
    (openSse : String → Option (List (List UInt8))) {chunks : List (List UInt8)} {text : Text}
    (opened : openSse (streamPath topics) = some chunks)
    (encoded : chunks.flatten = Utf8.encode text)
    (carries : Carries encode text
      ((inbound.map appMessage).filter fun message => message.topic ∈ topics))
    (roundTrip : ∀ message ∈ inbound.map appMessage, decode (encode message) = some message)
    (distinct : ∀ message ∈ inbound.map appMessage, ∀ arrived,
      Mangled (encode message) arrived → decode arrived ≠ some message) :
    let lane := messagesStreamFor decode topics (some (final.callers index).inbox) openSse
    let http := messagesStreamFor decode topics none openSse
    (lane = http ∧ Declared topics lane ∧ Declared topics http) ↔
      (∀ message ∈ inbound, message.topic ∈ topics) ∧ WholeData text chunks := by
  intro lane http
  have lane_eq : lane = some ((inbound.map appMessage).map .ok) := by
    have inbox := Lane.inbox_of_registration reached point stepped later watching held
    simp only [lane, messagesStreamFor, inbox, pushes, List.map_map]
    rfl
  have http_eq : http = some (EventStream.new.items decode chunks) := by
    simp only [http, messagesStreamFor, opened, Option.map_some]
  have arrives := items_eq_iff_wholeData carries encoded
    (fun message member => roundTrip message (List.mem_of_mem_filter member))
    (fun message member => distinct message (List.mem_of_mem_filter member))
  have declared_iff : Declared topics lane ↔ ∀ message ∈ inbound, message.topic ∈ topics := by
    simp [Declared, lane_eq, appMessage]
  have all_of_declared (declared : ∀ message ∈ inbound, message.topic ∈ topics) :
      (inbound.map appMessage).filter (fun message => message.topic ∈ topics) =
        inbound.map appMessage := by
    rw [List.filter_eq_self]
    intro message member
    obtain ⟨pushed, inside, rfl⟩ := List.mem_map.mp member
    exact decide_eq_true (declared pushed inside)
  constructor
  · rintro ⟨same, declared, -⟩
    have all := declared_iff.mp declared
    rw [all_of_declared all] at arrives
    refine ⟨all, arrives.mp ?_⟩
    rw [lane_eq, http_eq] at same
    exact (Option.some.inj same).symm
  · rintro ⟨all, whole⟩
    rw [all_of_declared all] at arrives
    have same : lane = http := by rw [lane_eq, http_eq, arrives.mpr whole]
    exact ⟨same, declared_iff.mpr all, same ▸ declared_iff.mpr all⟩

/-- A call of `watch_stream` up to the registration of its receiver. -/
def registrationRun : List Lane.Label :=
  Lane.watchRun ++ [.reader, .reader, .caller 0, .caller 0]

/-- The receiver is returned, and a message is pushed to it. -/
def pingRun : List Lane.Label :=
  [.caller 0, .nodeSend (some ⟨0, .ok (.event Lane.ping)⟩), .reader, .reader]

/-- The JSON text of the message. -/
def pingText : Text :=
  ["\x7b\"from\":", "\"07\",", "\"topic\":", "\"ping\",", "\"payload_hex\":", "\"01\",",
    "\"received_at\":5\x7d"].flatMap String.toList

theorem pingText_ascii : ∀ character ∈ pingText, character.toNat < 0x80 := by
  have all : pingText.all (fun character => decide (character.toNat < 0x80)) = true := by
    decide +kernel
  simpa using all

def encodePing (message : AppMessage) : Text :=
  if message = appMessage Lane.ping then pingText else []

/-- A decoder that knows this text. -/
def decodePing (text : Text) : Option AppMessage :=
  if text = pingText then some (appMessage Lane.ping) else none

theorem decodePing_encodePing :
    ∀ message ∈ [Lane.ping].map appMessage, decodePing (encodePing message) = some message := by
  intro message member
  obtain rfl : message = appMessage Lane.ping := by simpa using member
  rw [encodePing, if_pos rfl, decodePing, if_pos rfl]

theorem not_mangled_encodePing :
    ∀ message ∈ [Lane.ping].map appMessage, ∀ arrived,
      Mangled (encodePing message) arrived → decodePing arrived ≠ some message := by
  intro message member arrived mangled
  obtain rfl : message = appMessage Lane.ping := by simpa using member
  rw [encodePing, if_pos rfl] at mangled
  exact absurd mangled (not_mangled_of_ascii pingText_ascii)

/-- The message as the event stream carries it. -/
def pingFrame : Text :=
  "data: ".toList ++ pingText ++ ['\n', '\n']

theorem lane_and_http_agree_iff_ping :
    let final := (execute Lane.step Lane.initial (registrationRun ++ .caller 0 :: pingRun)).get
      (by decide)
    (∀ message ∈ [Lane.ping], message.topic ∈ ["ping"]) ∧
      WholeData pingFrame [Utf8.encode pingFrame] ∧
      messagesStreamFor decodePing ["ping"] (some (final.callers 0).inbox)
          (fun _ => some [Utf8.encode pingFrame]) =
        messagesStreamFor decodePing ["ping"] none (fun _ => some [Utf8.encode pingFrame]) := by
  intro final
  let registering := (execute Lane.step Lane.initial registrationRun).get (by decide)
  let registered := (Lane.step registering (.caller 0)).get (by decide)
  have later : execute Lane.step registered pingRun = some final := (Option.some_get _).symm
  have carries : Carries encodePing pingFrame
      (([Lane.ping].map appMessage).filter fun message => message.topic ∈ ["ping"]) :=
    ⟨by decide +kernel, by decide +kernel⟩
  have agree := lane_and_http_agree_iff (Option.some_get _).symm rfl (Option.some_get _).symm later
    rfl rfl rfl (fun _ => some [Utf8.encode pingFrame]) rfl (by simp) carries
    decodePing_encodePing not_mangled_encodePing
  have both : (∀ message ∈ [Lane.ping], message.topic ∈ ["ping"]) ∧
      WholeData pingFrame [Utf8.encode pingFrame] := by
    decide +kernel
  exact ⟨both.1, both.2, (agree.mpr both).1⟩

/-- A client that asked for another topic gets the message over the lane. -/
theorem undeclared_topic_over_lane :
    ¬ ∀ (encode : AppMessage → Text) (decode : Text → Option AppMessage) (topics : List String)
        (inbound : List Lane.Msg) (before after : List Lane.Label)
        (registering registered final : Lane.State) (index : Nat)
        (openSse : String → Option (List (List UInt8))) (chunks : List (List UInt8)) (text : Text),
      topics ≠ [] →
      execute Lane.step Lane.initial before = some registering →
      (registering.callers index).point = .registering →
      Lane.step registering (.caller index) = some registered →
      execute Lane.step registered after = some final →
      (final.callers index).point = .watching →
      (final.callers index).receiverDropped = false →
      Lane.heard registered after = inbound →
      openSse (streamPath topics) = some chunks → chunks.flatten = Utf8.encode text →
      Carries encode text ((inbound.map appMessage).filter fun message => message.topic ∈ topics) →
      (∀ message ∈ inbound.map appMessage, decode (encode message) = some message) →
      (∀ message ∈ inbound.map appMessage, ∀ arrived, Mangled (encode message) arrived →
        decode arrived ≠ some message) →
      let lane := messagesStreamFor decode topics (some (final.callers index).inbox) openSse
      let http := messagesStreamFor decode topics none openSse
      lane = http ∧ Declared topics lane ∧ Declared topics http := by
  intro claimed
  let registering := (execute Lane.step Lane.initial registrationRun).get (by decide)
  let registered := (Lane.step registering (.caller 0)).get (by decide)
  let final := (execute Lane.step registered pingRun).get (by decide)
  have agree := claimed encodePing decodePing ["app/rpc"] [Lane.ping] registrationRun pingRun
    registering registered final 0 (fun _ => some []) [] [] (by simp) (Option.some_get _).symm rfl
    (Option.some_get _).symm (Option.some_get _).symm rfl rfl rfl rfl rfl
    ⟨by simp, by decide⟩ decodePing_encodePing not_mangled_encodePing
  have yielded : (final.callers 0).inbox = [Lane.ping] := rfl
  obtain ⟨same, -⟩ := agree
  simp only [messagesStreamFor, yielded, Option.map_some, Option.some.injEq] at same
  exact absurd same (by simp [EventStream.items, EventStream.new])

end CeRs.MessageStream
