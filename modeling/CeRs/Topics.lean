import CeRs.MessageStream
import CeRs.Url

/-!
# The topics a service declares

`serve` passes the topics it serves to `messages_stream_for`, which joins them
with commas, encodes the text, and asks the node for the stream of these topics.
The node decodes the text and splits it at the commas, so a topic that contains
one does not reach it.
-/

namespace CeRs.Topics

open MessageStream Percent
open Serve (AppMessage Config)
open Sse (Text)

section Node

/-- What is behind the equals sign of the query of a path. -/
def topicsValue (path : String) : Option Text :=
  (Url.cut '?' path.toList).2.bind fun query => (Url.cut '=' query).2

/-- The topics that the node reads in the value of the parameter. -/
def topicsOf (value : Text) : List Text :=
  (Utf8.fromUtf8Lossy (decode value)).splitOn ','

/-- A stream without the parameter has all messages. -/
def Admits (path topic : String) : Prop :=
  ∀ value ∈ topicsValue path, topic.toList ∈ topicsOf value

instance (path topic : String) : Decidable (Admits path topic) :=
  inferInstanceAs (Decidable (∀ value ∈ topicsValue path, topic.toList ∈ topicsOf value))

/-- The messages that the node puts on the event stream of the topics. -/
def streamed (topics : List String) (messages : List AppMessage) : List AppMessage :=
  messages.filter fun message => Admits (streamPath topics) message.topic

end Node

/-- The call that `serve` makes of `serve_where_signal`. -/
def serveConfig (topics : List String) : Config :=
  ⟨topics, fun topic => topics.contains topic, false⟩

/-- An enumeration of the set of the topics, in any order. -/
structure Enumerates (topics declared : List String) : Prop where
  nodup : declared.Nodup
  mem_iff : ∀ topic, topic ∈ declared ↔ topic ∈ topics

/-- A byte that is kept is a character of its own, and no percent sign. -/
theorem plain_of_kept (byte : UInt8) (keeps : kept byte = true) :
    Char.ofNat byte.toNat ≠ '%' ∧ String.utf8EncodeChar (Char.ofNat byte.toNat) = [byte] := by
  have each : ∀ code : Fin 256, kept (UInt8.ofNat code) = true →
      Char.ofNat code ≠ '%' ∧ String.utf8EncodeChar (Char.ofNat code) = [UInt8.ofNat code] := by
    decide +kernel
  have found := each ⟨byte.toNat, byte.toNat_lt⟩
  rw [UInt8.ofNat_toNat] at found
  exact found keeps

theorem decode_urlencode (text : String) :
    decode (urlencode text).toList = Utf8.encode text.toList := by
  rw [urlencode, String.toList_ofList]
  exact decode_flatMap_kept plain_of_kept _

theorem topicsValue_streamPath {topics : List String} (nonempty : topics ≠ []) :
    topicsValue (streamPath topics) = some (urlencode (",".intercalate topics)).toList := by
  rw [streamPath, if_neg nonempty, topicsValue, String.toList_append]
  rfl

theorem topicsOf_urlencode (topics : List String) :
    topicsOf (urlencode (",".intercalate topics)).toList =
      (List.intercalate [','] (topics.map String.toList)).splitOn ',' := by
  rw [topicsOf, decode_urlencode, Utf8.fromUtf8Lossy_encode, String.toList_intercalate]
  rfl

/-- What is read at the node has no comma. -/
theorem notMem_of_mem_topicsOf {value topic : Text} (member : topic ∈ topicsOf value) :
    ',' ∉ topic := by
  intro comma
  rw [topicsOf, List.splitOn_eq_splitOnP] at member
  exact absurd ((Url.sublist_of_mem_splitOnP member).2 ',' comma) (by decide)

/-- The list is read as it was declared if no topic has a comma. -/
theorem topicsOf_eq {topics : List String} (nonempty : topics ≠ [])
    (whole : ∀ topic ∈ topics, ',' ∉ topic.toList) :
    topicsOf (urlencode (",".intercalate topics)).toList = topics.map String.toList := by
  rw [topicsOf_urlencode]
  refine List.splitOn_intercalate ',' ?_ (by simpa using nonempty)
  intro text member
  obtain ⟨topic, declared, rfl⟩ := List.mem_map.mp member
  exact whole topic declared

theorem admits_iff {topics : List String} (nonempty : topics ≠ []) (topic : String) :
    Admits (streamPath topics) topic ↔
      topic.toList ∈ topicsOf (urlencode (",".intercalate topics)).toList := by
  rw [Admits, topicsValue_streamPath nonempty]
  simp

theorem not_admits_of_comma {topics : List String} {topic : String} (nonempty : topics ≠ [])
    (comma : ',' ∈ topic.toList) : ¬ Admits (streamPath topics) topic := by
  rw [admits_iff nonempty]
  exact fun member => notMem_of_mem_topicsOf member comma

theorem admits_iff_mem {topics : List String} (nonempty : topics ≠ [])
    (whole : ∀ topic ∈ topics, ',' ∉ topic.toList) (topic : String) :
    Admits (streamPath topics) topic ↔ topic ∈ topics := by
  rw [admits_iff nonempty, topicsOf_eq nonempty whole]
  exact List.mem_map_of_injective fun _ _ => String.toList_injective

/-- The event stream has the messages of the declared topics if and only if no
topic has a comma. -/
theorem streamed_eq_iff {topics : List String} (nonempty : topics ≠ []) :
    (∀ messages, streamed topics messages =
        messages.filter fun message => message.topic ∈ topics) ↔
      ∀ topic ∈ topics, ',' ∉ topic.toList := by
  constructor
  · intro same topic member comma
    let message : AppMessage := ⟨"", topic, "", 0, none⟩
    have kept : message ∈ streamed topics [message] := by
      rw [same]
      simpa [message] using member
    have admitted := of_decide_eq_true (List.mem_filter.mp kept).2
    exact not_admits_of_comma nonempty comma admitted
  · intro whole messages
    refine List.filter_congr fun message _ => ?_
    rw [decide_eq_decide]
    exact admits_iff_mem nonempty whole message.topic

/-- The node reads exactly the declared topics, and admits every message that a
service accepts, if and only if no topic has a comma. -/
theorem topics_intact_iff {topics : List String} (nonempty : topics ≠ []) :
    ((topicsValue (streamPath topics)).map topicsOf = some (topics.map String.toList) ↔
        ∀ topic ∈ topics, ',' ∉ topic.toList) ∧
      ∀ declared, Enumerates topics declared →
        ((∀ topic, (serveConfig topics).accept topic = true →
            Admits (streamPath declared) topic) ↔
          ∀ topic ∈ topics, ',' ∉ topic.toList) := by
  constructor
  · rw [topicsValue_streamPath nonempty, Option.map_some, Option.some_inj]
    constructor
    · intro intact topic member
      apply notMem_of_mem_topicsOf
      rw [intact]
      exact List.mem_map_of_mem member
    · exact topicsOf_eq nonempty
  · intro declared enumerates
    simp only [serveConfig, List.contains_iff_mem]
    constructor
    · intro admits topic member comma
      have listed := (enumerates.mem_iff topic).mpr member
      exact not_admits_of_comma (List.ne_nil_of_mem listed) comma (admits topic member)
    · intro whole topic member
      have listed := (enumerates.mem_iff topic).mpr member
      have nonempty := List.ne_nil_of_mem listed
      exact (admits_iff_mem nonempty (fun other inside =>
        whole other ((enumerates.mem_iff other).mp inside)) topic).mpr listed

theorem topics_intact_iff_plain :
    (topicsValue (streamPath ["app/rpc", "a b"])).map topicsOf =
        some (["app/rpc", "a b"].map String.toList) ∧
      Admits (streamPath ["a b", "app/rpc"]) "a b" := by
  obtain ⟨intact, admitted⟩ := topics_intact_iff (List.cons_ne_nil "app/rpc" ["a b"])
  have whole : ∀ topic ∈ ["app/rpc", "a b"], ',' ∉ topic.toList := by simp
  have enumerates : Enumerates ["app/rpc", "a b"] ["a b", "app/rpc"] :=
    ⟨by simp, fun topic => by simp [or_comm]⟩
  exact ⟨intact.mpr whole, (admitted _ enumerates).mpr whole "a b" (by decide)⟩

/-- The node splits a topic with a comma in two, and leaves its messages out. -/
theorem comma_topic_lost :
    (topicsValue (streamPath ["a,b"])).map topicsOf = some [['a'], ['b']] ∧
      (serveConfig ["a,b"]).accept "a,b" = true ∧ ¬ Admits (streamPath ["a,b"]) "a,b" := by
  have read : (topicsValue (streamPath ["a,b"])).map topicsOf = some [['a'], ['b']] := by
    rw [topicsValue_streamPath (by simp), Option.map_some, topicsOf_urlencode]
    decide
  refine ⟨read, by decide, fun admits => ?_⟩
  obtain ⟨value, found, split⟩ := Option.map_eq_some_iff.mp read
  have member := admits value found
  rw [split] at member
  exact absurd member (by decide)

end CeRs.Topics
