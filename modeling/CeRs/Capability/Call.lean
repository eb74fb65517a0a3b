import CeRs.Capability.Provide
import CeRs.Utf8

/-!
# Calling a capability

`call_with` encodes the request, lets `locate::call` send it to the located
instances in the order of their rank, and decodes the reply.  Only a request
that fails in transport moves on to the next instance: what goes wrong at the
provider travels back inside the reply.
-/

namespace CeRs.Capability

/-- The errors of a call, by the place that makes them; the source keeps their
text only. -/
inductive CallError
  | encoding (name problem : String)
  | locating (message : String)
  | noInstance (service : String)
  | request (message : String)
  | allFailed (service : String)
  | decoding (name problem : String)
  | provider (name message : String)
  deriving DecidableEq, Repr

def CallError.text : CallError → String
  | .encoding name problem => s!"encoding request for '{name}': {problem}"
  | .locating message => message
  | .noInstance service => s!"no live instance of service '{service}' found"
  | .request message => message
  | .allFailed service => s!"all instances of '{service}' failed"
  | .decoding name problem => s!"decoding reply from '{name}': {problem}"
  | .provider name message => s!"capability '{name}' returned error: {message}"

/-- No instance has replied. -/
def CallError.transport : CallError → Bool
  | .locating _ | .noInstance _ | .request _ | .allFailed _ => true
  | _ => false

/-- How values of a type are written to bytes and read back. -/
structure Codec (Value : Type) where
  encode : Value → Except String (List UInt8)
  decode : List UInt8 → Except String Value

/-- `Wire`, the envelope of a reply. -/
inductive Wire (Value : Type)
  | ok (value : Value)
  | err (message : String)
  deriving DecidableEq, Repr

/-- `Caller`; `sender` is the source's `from`. -/
structure Caller where
  sender : String
  deriving DecidableEq, Repr

/-- The codecs of a capability.  The last one encodes the reply that stands in
for one that does not encode. -/
structure Codecs (Req Resp : Type) where
  requests : Codec Req
  replies : Codec (Wire Resp)
  units : Codec (Wire Unit)

/-- Decoding undoes encoding, and an error is encoded whatever the type of the
response. -/
structure Codecs.Lawful {Req Resp : Type} (codecs : Codecs Req Resp) : Prop where
  requests : ∀ req bytes, codecs.requests.encode req = .ok bytes →
    codecs.requests.decode bytes = .ok req
  replies : ∀ reply bytes, codecs.replies.encode reply = .ok bytes →
    codecs.replies.decode bytes = .ok reply
  errors : ∀ message, ∃ bytes, codecs.replies.encode (.err message) = .ok bytes ∧
    codecs.units.encode (.err message) = .ok bytes

/-- `LocateOpts`. -/
structure LocateOpts where
  want : Nat
  requireTags : List String
  maxStaleSecs : UInt64
  spreadDomains : Bool
  deriving DecidableEq, Repr

/-- A request that is sent to an instance. -/
structure Sent where
  node : String
  topic : String
  payload : List UInt8
  timeoutMs : UInt64
  deriving DecidableEq, Repr

/-- The request for each of the instances. -/
def requestsTo (instances : List String) (topic : String) (payload : List UInt8)
    (timeoutMs : UInt64) : List Sent :=
  instances.map fun node => ⟨node, topic, payload, timeoutMs⟩

section Failover

variable {Instance Failure Reply : Type*} (request : Nat → Instance → Except Failure Reply)

/-- The loop over the instances: those that were contacted, and the first reply
or the last failure. -/
def failover (attempt : Nat) (last : Option Failure) :
    List Instance → List Instance × Except (Option Failure) Reply
  | [] => ([], .error last)
  | node :: rest =>
      match request attempt node with
      | .ok reply => ([node], .ok reply)
      | .error failure =>
          let tried := failover (attempt + 1) (some failure) rest
          (node :: tried.1, tried.2)

/-- The attempts from this one on have all failed. -/
def Failed (attempt : Nat) : List Instance → Prop
  | [] => True
  | node :: rest =>
      (∃ failure, request attempt node = .error failure) ∧ Failed (attempt + 1) rest

/-- The first instance that replies is the last one contacted, and without one
all instances are. -/
theorem failover_cases (attempt : Nat) (last : Option Failure) (instances : List Instance) :
    (∃ before node after reply, instances = before ++ node :: after ∧
        Failed request attempt before ∧ request (attempt + before.length) node = .ok reply ∧
        failover request attempt last instances = (before ++ [node], .ok reply)) ∨
      Failed request attempt instances ∧
        ∃ final, failover request attempt last instances = (instances, .error final) := by
  induction instances generalizing attempt last with
  | nil => exact .inr ⟨trivial, last, rfl⟩
  | cons node rest induction =>
      cases outcome : request attempt node with
      | ok reply =>
          exact .inl ⟨[], node, rest, reply, rfl, trivial, outcome, by simp [failover, outcome]⟩
      | error failure =>
          rcases induction (attempt + 1) (some failure) with
            ⟨before, found, after, reply, rfl, failed, replied, tried⟩ | ⟨failed, final, tried⟩
          · refine .inl ⟨node :: before, found, after, reply, rfl, ⟨⟨failure, outcome⟩, failed⟩,
              ?_, by simp [failover, outcome, tried]⟩
            rw [← replied, List.length_cons]
            congr 1
            omega
          · exact .inr ⟨⟨⟨failure, outcome⟩, failed⟩, final, by simp [failover, outcome, tried]⟩

variable {request} in
theorem failover_of_replied {attempt : Nat} {before after : List Instance} {node : Instance}
    {reply : Reply} (failed : Failed request attempt before)
    (replied : request (attempt + before.length) node = .ok reply) (last : Option Failure) :
    failover request attempt last (before ++ node :: after) = (before ++ [node], .ok reply) := by
  induction before generalizing attempt last with
  | nil =>
      have first : request attempt node = .ok reply := replied
      simp [failover, first]
  | cons head rest induction =>
      obtain ⟨⟨failure, fails⟩, later⟩ := failed
      have further : request (attempt + 1 + rest.length) node = .ok reply := by
        rw [← replied, List.length_cons]
        congr 1
        omega
      simp [failover, fails, induction later further]

variable {request}

theorem failed_iff {attempt : Nat} {instances : List Instance} :
    Failed request attempt instances ↔ ∀ (index : Nat) node, instances[index]? = some node →
      ∃ failure, request (attempt + index) node = .error failure := by
  induction instances generalizing attempt with
  | nil => simp [Failed]
  | cons head rest induction =>
      have shift : ∀ index, attempt + 1 + index = attempt + (index + 1) := fun index => by omega
      simp only [Failed, induction, shift]
      constructor
      · rintro ⟨fails, later⟩ index node here
        cases index with
        | zero => exact Option.some.inj here ▸ fails
        | succ index => exact later index node here
      · intro fails
        exact ⟨fails 0 head rfl, fun index => fails (index + 1)⟩

theorem failed_split {attempt : Nat} {before after : List Instance} {node : Instance}
    (failed : Failed request attempt (before ++ node :: after)) :
    ∃ failure, request (attempt + before.length) node = .error failure :=
  failed_iff.mp failed before.length node (by simp)

theorem failover_of_failed {attempt : Nat} {instances : List Instance}
    (failed : Failed request attempt instances) (last : Option Failure) :
    ∃ final, failover request attempt last instances = (instances, .error final) := by
  rcases failover_cases request attempt last instances with
    ⟨before, node, after, reply, rfl, -, replied, -⟩ | ⟨-, tried⟩
  · obtain ⟨failure, fails⟩ := failed_split failed
    rw [replied] at fails
    cases fails
  · exact tried

end Failover

section Calling

variable {Req Resp : Type}

/-- What the handler replies: the value `reply` of `CapHandler::handle`. -/
def reply (codecs : Codecs Req Resp) (provider : Req → Caller → Except String Resp)
    (request : Serve.Request) : Wire Resp :=
  match codecs.requests.decode request.payload with
  | .ok typed =>
      match provider typed ⟨request.sender⟩ with
      | .ok resp => .ok resp
      | .error message => .err message
  | .error problem => .err s!"bad request: {problem}"

def encodeReply (codecs : Codecs Req Resp) (reply : Wire Resp) : List UInt8 :=
  match codecs.replies.encode reply with
  | .ok bytes => bytes
  | .error _ =>
      match codecs.units.encode (.err "reply encode failed") with
      | .ok bytes => bytes
      | .error _ => []

/-- `CapHandler::handle`. -/
def handle (codecs : Codecs Req Resp) (provider : Req → Caller → Except String Resp)
    (request : Serve.Request) : List UInt8 :=
  encodeReply codecs (reply codecs provider request)

def decodeReply (codecs : Codecs Req Resp) (name : String) (bytes : List UInt8) :
    Except CallError Resp :=
  match codecs.replies.decode bytes with
  | .ok (.ok resp) => .ok resp
  | .ok (.err message) => .error (.provider name message)
  | .error problem => .error (.decoding name problem)

/-- `locate::call`, with the requests it sends. -/
def locateCall (locate : LocateOpts → Except String (List String))
    (request : Nat → Sent → Except String (List UInt8)) (service topic : String)
    (payload : List UInt8) (opts : LocateOpts) (timeoutMs : UInt64) :
    List Sent × Except CallError (List UInt8) :=
  match locate { opts with want := max opts.want 3 } with
  | .error message => ([], .error (.locating message))
  | .ok instances =>
      if instances = [] then ([], .error (.noInstance service))
      else
        match failover request 0 none (requestsTo instances topic payload timeoutMs) with
        | (contacted, .ok reply) => (contacted, .ok reply)
        | (contacted, .error (some message)) => (contacted, .error (.request message))
        | (contacted, .error none) => (contacted, .error (.allFailed service))

/-- The mesh as a caller of the capability finds it: its own authenticated
identity, the instances it locates, the attempts that fail in transport, and
the provider at each instance. -/
structure Mesh (Req Resp : Type) where
  name : String
  codecs : Codecs Req Resp
  self : String
  locate : LocateOpts → Except String (List String)
  failure : Nat → Sent → Option String
  provider : String → Req → Caller → Except String Resp

/-- A request that does not fail in transport is answered by the handler of the
instance. -/
def Mesh.request (mesh : Mesh Req Resp) (attempt : Nat) (sent : Sent) :
    Except String (List UInt8) :=
  match mesh.failure attempt sent with
  | some message => .error message
  | none =>
      .ok (handle mesh.codecs (mesh.provider sent.node) ⟨mesh.self, sent.topic, sent.payload⟩)

/-- `call_with`, with the requests it sends. -/
def callWith (mesh : Mesh Req Resp) (req : Req) (opts : LocateOpts) (timeoutMs : UInt64) :
    List Sent × Except CallError Resp :=
  match mesh.codecs.requests.encode req with
  | .error problem => ([], .error (.encoding mesh.name problem))
  | .ok payload =>
      match locateCall mesh.locate mesh.request mesh.name (topic mesh.name) payload opts
          timeoutMs with
      | (sent, .ok bytes) => (sent, decodeReply mesh.codecs mesh.name bytes)
      | (sent, .error error) => (sent, .error error)

/-- The reply encodes. -/
def Codecs.Encodes (codecs : Codecs Req Resp) (reply : Wire Resp) : Prop :=
  ∃ bytes, codecs.replies.encode reply = .ok bytes

/-- Some instance has replied to a request that was sent. -/
def Replied (mesh : Mesh Req Resp) (sent : List Sent) (request : Sent) : Prop :=
  ∃ before after, sent = before ++ request :: after ∧ mesh.failure before.length request = none

/-- What a call does and returns, in terms of the provider. -/
structure Contract (mesh : Mesh Req Resp) (req : Req) (opts : LocateOpts) (timeoutMs : UInt64)
    (sent : List Sent) (result : Except CallError Resp) : Prop where
  ranked : sent = [] ∨ ∃ payload instances, mesh.codecs.requests.encode req = .ok payload ∧
    mesh.locate { opts with want := max opts.want 3 } = .ok instances ∧
      sent <+: requestsTo instances (topic mesh.name) payload timeoutMs
  stops : ∀ before request after, sent = before ++ request :: after →
    mesh.failure before.length request = none → after = []
  ok_iff : ∀ resp, result = .ok resp ↔ ∃ request, Replied mesh sent request ∧
    mesh.provider request.node req ⟨mesh.self⟩ = .ok resp ∧ mesh.codecs.Encodes (.ok resp)
  refused : ∀ request message, Replied mesh sent request →
    mesh.provider request.node req ⟨mesh.self⟩ = .error message →
      result = .error (.provider mesh.name message)
  unencodable : ∀ request resp, Replied mesh sent request →
    mesh.provider request.node req ⟨mesh.self⟩ = .ok resp → ¬ mesh.codecs.Encodes (.ok resp) →
      result = .error (.provider mesh.name "reply encode failed")
  transport_iff : (∃ error, result = .error error ∧ error.transport = true) ↔
    ∃ payload, mesh.codecs.requests.encode req = .ok payload ∧
      ((∀ instances, mesh.locate { opts with want := max opts.want 3 } = .ok instances →
          instances = []) ∨
        ∃ instances, mesh.locate { opts with want := max opts.want 3 } = .ok instances ∧
          sent = requestsTo instances (topic mesh.name) payload timeoutMs ∧
            ∀ request, ¬ Replied mesh sent request)

theorem request_eq_ok {mesh : Mesh Req Resp} {attempt : Nat} {sent : Sent} {bytes : List UInt8} :
    mesh.request attempt sent = .ok bytes ↔ mesh.failure attempt sent = none ∧
      bytes = handle mesh.codecs (mesh.provider sent.node)
        ⟨mesh.self, sent.topic, sent.payload⟩ := by
  unfold Mesh.request
  cases mesh.failure attempt sent <;> simp [eq_comm]

theorem request_eq_error {mesh : Mesh Req Resp} {attempt : Nat} {sent : Sent} {message : String} :
    mesh.request attempt sent = .error message ↔ mesh.failure attempt sent = some message := by
  unfold Mesh.request
  cases mesh.failure attempt sent <;> simp

theorem not_replied_nil (mesh : Mesh Req Resp) (request : Sent) : ¬ Replied mesh [] request := by
  rintro ⟨before, after, split, -⟩
  simp at split

theorem not_replied_of_failed {mesh : Mesh Req Resp} {sent : List Sent}
    (failed : Failed mesh.request 0 sent) (request : Sent) : ¬ Replied mesh sent request := by
  rintro ⟨before, after, rfl, replied⟩
  obtain ⟨message, last⟩ := failed_split failed
  rw [Nat.zero_add, request_eq_error, replied] at last
  cases last

/-- Where the last request is the first to be replied to, no other is. -/
theorem eq_of_replied {mesh : Mesh Req Resp} {sent before after : List Sent} {last request : Sent}
    (failed : Failed mesh.request 0 sent) (split : sent ++ [last] = before ++ request :: after)
    (replied : mesh.failure before.length request = none) : after = [] ∧ request = last := by
  rcases List.eq_nil_or_concat after with rfl | ⟨rest, final, rfl⟩
  · obtain ⟨-, same⟩ := List.append_inj' split rfl
    exact ⟨rfl, (List.singleton_inj.mp same).symm⟩
  · have shape : before ++ request :: rest.concat final =
        (before ++ request :: rest) ++ [final] := by
      simp
    obtain ⟨inside, -⟩ := List.append_inj' (split.trans shape) rfl
    exact absurd ⟨before, rest, inside, replied⟩ (not_replied_of_failed failed request)

/-- A reply that is sent is read back, or else the error that stands in for it. -/
theorem decode_encodeReply {codecs : Codecs Req Resp} (lawful : codecs.Lawful)
    (reply : Wire Resp) :
    codecs.Encodes reply ∧ codecs.replies.decode (encodeReply codecs reply) = .ok reply ∨
      ¬ codecs.Encodes reply ∧
        codecs.replies.decode (encodeReply codecs reply) = .ok (.err "reply encode failed") := by
  unfold encodeReply Codecs.Encodes
  cases encoded : codecs.replies.encode reply with
  | ok bytes => exact .inl ⟨⟨bytes, rfl⟩, lawful.replies _ _ encoded⟩
  | error problem =>
      obtain ⟨bytes, error, unit⟩ := lawful.errors "reply encode failed"
      refine .inr ⟨by simp, ?_⟩
      simp only [unit]
      exact lawful.replies _ _ error

theorem handle_decodes {codecs : Codecs Req Resp} (lawful : codecs.Lawful)
    (provider : Req → Caller → Except String Resp) (request : Serve.Request) :
    ∃ reply, codecs.replies.decode (handle codecs provider request) = .ok reply := by
  rcases decode_encodeReply lawful (reply codecs provider request) with ⟨-, read⟩ | ⟨-, read⟩
  · exact ⟨_, read⟩
  · exact ⟨_, read⟩

/-- What the caller makes of a reply, in terms of what the provider returned. -/
structure Answers (codecs : Codecs Req Resp) (name : String) (provided : Except String Resp)
    (result : Except CallError Resp) : Prop where
  ok_iff : ∀ resp, result = .ok resp ↔ provided = .ok resp ∧ codecs.Encodes (.ok resp)
  refused : ∀ message, provided = .error message → result = .error (.provider name message)
  unencodable : ∀ resp, provided = .ok resp → ¬ codecs.Encodes (.ok resp) →
    result = .error (.provider name "reply encode failed")
  arrived : ∀ error, result = .error error → error.transport = false

theorem answers_handle {codecs : Codecs Req Resp} (lawful : codecs.Lawful) {req : Req}
    {payload : List UInt8} (encoded : codecs.requests.encode req = .ok payload)
    (provider : Req → Caller → Except String Resp) (name sender topic : String) :
    Answers codecs name (provider req ⟨sender⟩)
      (decodeReply codecs name (handle codecs provider ⟨sender, topic, payload⟩)) := by
  have read := decode_encodeReply lawful (reply codecs provider ⟨sender, topic, payload⟩)
  simp only [decodeReply, handle]
  simp only [reply, lawful.requests req payload encoded] at read ⊢
  cases provided : provider req ⟨sender⟩ with
  | ok resp =>
      simp only [provided] at read ⊢
      rcases read with ⟨encodes, read⟩ | ⟨fails, read⟩
      · rw [read]
        exact ⟨by simp_all, by simp, by simp_all, by simp⟩
      · rw [read]
        exact ⟨by simp_all, by simp, by simp, by simp [CallError.transport]⟩
  | error message =>
      obtain ⟨bytes, written, -⟩ := lawful.errors message
      simp only [provided] at read ⊢
      rcases read with ⟨-, read⟩ | ⟨fails, -⟩
      · rw [read]
        exact ⟨by simp, by simp, by simp, by simp [CallError.transport]⟩
      · exact absurd ⟨bytes, written⟩ fails

theorem contract_of_unsent {mesh : Mesh Req Resp} {req : Req} {opts : LocateOpts}
    {timeoutMs : UInt64} {error : CallError}
    (transport : error.transport = true ↔
      ∃ payload, mesh.codecs.requests.encode req = .ok payload ∧
        ∀ instances, mesh.locate { opts with want := max opts.want 3 } = .ok instances →
          instances = []) :
    Contract mesh req opts timeoutMs [] (.error error) where
  ranked := .inl rfl
  stops before request after split := by simp at split
  ok_iff resp := by simp [not_replied_nil]
  refused request message replied := absurd replied (not_replied_nil mesh request)
  unencodable request resp replied := absurd replied (not_replied_nil mesh request)
  transport_iff := by
    simp only [Except.error.injEq, exists_eq_left', transport]
    constructor
    · rintro ⟨payload, encoded, none⟩
      exact ⟨payload, encoded, .inl none⟩
    · rintro ⟨payload, encoded, none | ⟨instances, located, empty, -⟩⟩
      · exact ⟨payload, encoded, none⟩
      · refine ⟨payload, encoded, fun others again => ?_⟩
        obtain rfl := Except.ok.inj (located.symm.trans again)
        simpa [requestsTo] using empty.symm

theorem contract_of_failed {mesh : Mesh Req Resp} {req : Req} {opts : LocateOpts}
    {timeoutMs : UInt64} {payload : List UInt8} {instances : List String} {error : CallError}
    (encoded : mesh.codecs.requests.encode req = .ok payload)
    (located : mesh.locate { opts with want := max opts.want 3 } = .ok instances)
    (failed : Failed mesh.request 0 (requestsTo instances (topic mesh.name) payload timeoutMs))
    (transport : error.transport = true) :
    Contract mesh req opts timeoutMs (requestsTo instances (topic mesh.name) payload timeoutMs)
      (.error error) where
  ranked := .inr ⟨payload, instances, encoded, located, List.prefix_rfl⟩
  stops before request after split replied :=
    absurd ⟨before, after, split, replied⟩ (not_replied_of_failed failed request)
  ok_iff resp := by simp [not_replied_of_failed failed]
  refused request message replied := absurd replied (not_replied_of_failed failed request)
  unencodable request resp replied := absurd replied (not_replied_of_failed failed request)
  transport_iff := by
    simp only [Except.error.injEq, exists_eq_left', transport, true_iff]
    exact ⟨payload, encoded, .inr ⟨instances, located, rfl, not_replied_of_failed failed⟩⟩

theorem contract_of_replied {mesh : Mesh Req Resp} {req : Req} {opts : LocateOpts}
    {timeoutMs : UInt64} {payload : List UInt8} {instances : List String}
    {before after : List Sent} {last : Sent} {result : Except CallError Resp}
    (encoded : mesh.codecs.requests.encode req = .ok payload)
    (located : mesh.locate { opts with want := max opts.want 3 } = .ok instances)
    (split : requestsTo instances (topic mesh.name) payload timeoutMs = before ++ last :: after)
    (failed : Failed mesh.request 0 before) (replied : mesh.failure before.length last = none)
    (answers : Answers mesh.codecs mesh.name (mesh.provider last.node req ⟨mesh.self⟩) result) :
    Contract mesh req opts timeoutMs (before ++ [last]) result := by
  have replied_iff (request : Sent) : Replied mesh (before ++ [last]) request ↔ request = last := by
    constructor
    · rintro ⟨early, late, shape, answered⟩
      exact (eq_of_replied failed shape answered).2
    · rintro rfl
      exact ⟨before, [], rfl, replied⟩
  refine ⟨.inr ⟨payload, instances, encoded, located, ?_⟩, ?_, ?_, ?_, ?_, ?_⟩
  · rw [split]
    exact ⟨after, by simp⟩
  · intro early request late shape answered
    exact (eq_of_replied failed shape answered).1
  · intro resp
    simp only [replied_iff, exists_eq_left]
    exact answers.ok_iff resp
  · intro request message there provided
    obtain rfl := (replied_iff request).mp there
    exact answers.refused message provided
  · intro request resp there provided fails
    obtain rfl := (replied_iff request).mp there
    exact answers.unencodable resp provided fails
  · constructor
    · rintro ⟨error, rfl, transport⟩
      rw [answers.arrived error rfl] at transport
      cases transport
    · rintro ⟨-, -, none | ⟨-, -, -, none⟩⟩
      · rw [none instances located] at split
        simp [requestsTo] at split
      · exact absurd ((replied_iff last).mpr rfl) (none last)

/-- A call is the function of the provider that was reached: the request goes
to the instances in the order of their rank up to the first that replies, and
every error but those of the transport comes from there. -/
theorem call_with_contract (mesh : Mesh Req Resp) (lawful : mesh.codecs.Lawful) (req : Req)
    (opts : LocateOpts) (timeoutMs : UInt64) :
    Contract mesh req opts timeoutMs (callWith mesh req opts timeoutMs).1
        (callWith mesh req opts timeoutMs).2 ∧
      ∀ (provider : Req → Caller → Except String Resp) (request : Serve.Request),
        ∃ reply, mesh.codecs.replies.decode (handle mesh.codecs provider request) = .ok reply := by
  refine ⟨?_, handle_decodes lawful⟩
  unfold callWith locateCall
  cases encoded : mesh.codecs.requests.encode req with
  | error problem => exact contract_of_unsent (by simp [CallError.transport, encoded])
  | ok payload =>
      cases located : mesh.locate { opts with want := max opts.want 3 } with
      | error message => exact contract_of_unsent (by simp [CallError.transport, encoded, located])
      | ok instances =>
          by_cases empty : instances = []
          · simp only [empty, if_pos]
            exact contract_of_unsent (by simp [CallError.transport, encoded, located, empty])
          · simp only [if_neg empty]
            rcases failover_cases mesh.request 0 none
                (requestsTo instances (topic mesh.name) payload timeoutMs) with
              ⟨before, last, after, bytes, split, failed, replied, tried⟩ | ⟨failed, final, tried⟩
            · rw [Nat.zero_add, request_eq_ok] at replied
              obtain ⟨arrived, rfl⟩ := replied
              have member : last ∈ requestsTo instances (topic mesh.name) payload timeoutMs := by
                simp [split]
              obtain ⟨node, -, rfl⟩ := List.mem_map.mp member
              simp only [tried]
              exact contract_of_replied encoded located split failed arrived
                (answers_handle lawful encoded _ _ _ _)
            · cases final with
              | none =>
                  simp only [tried]
                  exact contract_of_failed encoded located failed rfl
              | some message =>
                  simp only [tried]
                  exact contract_of_failed encoded located failed rfl

end Calling

/-- A response that is a map with byte strings as keys, which JSON lacks. -/
abbrev Counts := List (List UInt8 × Nat)

def emptyText : List Char := "\x7b\"Ok\":\x7b\x7d\x7d".toList

def errorOpening : List Char := "\x7b\"Err\":\"".toList

/-- The JSON text of an error, for a message without characters to escape. -/
def errorText (message : String) : List Char :=
  errorOpening ++ (message.toList ++ ['"', '\x7d'])

def countReplies : Codec (Wire Counts) where
  encode
    | .ok [] => .ok (Utf8.encode emptyText)
    | .ok (_ :: _) => .error "key must be a string"
    | .err message => .ok (Utf8.encode (errorText message))
  decode bytes :=
    let text := Utf8.fromUtf8Lossy bytes
    if text = emptyText then .ok (.ok [])
    else if errorOpening <+: text then
      .ok (.err (String.ofList ((text.drop 8).dropLast.dropLast)))
    else .error "unknown variant"

/-- Requests are truth values. -/
def countCodecs : Codecs Bool Counts where
  requests :=
    { encode := fun req => .ok (Utf8.encode (toString req).toList)
      decode := fun bytes =>
        if bytes = Utf8.encode "true".toList then .ok true
        else if bytes = Utf8.encode "false".toList then .ok false
        else .error "expected a boolean" }
  replies := countReplies
  units :=
    { encode := fun
        | .ok _ => .ok (Utf8.encode "\x7b\"Ok\":null\x7d".toList)
        | .err message => .ok (Utf8.encode (errorText message))
      decode := fun _ => .error "unused" }

theorem countReplies_err (message : String) :
    countReplies.decode (Utf8.encode (errorText message)) = .ok (.err message) := by
  have opening : errorOpening.length = 8 := by decide
  have differs : errorText message ≠ emptyText := by
    intro same
    have third := congrArg (fun text => text[2]?) same
    rw [errorText, List.getElem?_append_left (by rw [opening]; decide)] at third
    exact absurd third (by decide)
  have begins : errorOpening <+: errorText message := List.prefix_append _ _
  have inside : (errorText message).drop 8 = message.toList ++ ['"', '\x7d'] := by
    rw [errorText, ← opening, List.drop_left]
  simp only [countReplies, Utf8.fromUtf8Lossy_encode, if_neg differs, if_pos begins, inside]
  simp

theorem countCodecs_lawful : countCodecs.Lawful where
  requests req bytes encoded := by
    obtain rfl := Except.ok.inj encoded
    cases req <;> decide
  replies reply bytes encoded := by
    match reply, encoded with
    | .ok [], encoded =>
        obtain rfl := Except.ok.inj encoded
        decide
    | .err message, encoded =>
        obtain rfl := Except.ok.inj encoded
        exact countReplies_err message
  errors message := ⟨_, rfl, rfl⟩

/-- Two instances, the first of them out of reach. -/
def countMesh (response : Counts) : Mesh Bool Counts where
  name := "stats.count"
  codecs := countCodecs
  self := "caller"
  locate _ := .ok ["first", "second"]
  failure _ sent := if sent.node = "first" then some "unreachable" else none
  provider _ _ _ := .ok response

def defaultOpts : LocateOpts := ⟨1, [], 120, true⟩

/-- The request that a call sends to this instance. -/
def countRequest (node : String) : Sent :=
  ⟨node, "cap/stats.count", Utf8.encode "true".toList, 15000⟩

theorem replied_countMesh (response : Counts) :
    Replied (countMesh response) (callWith (countMesh response) true defaultOpts 15000).1
      (countRequest "second") :=
  ⟨[countRequest "first"], [], by rfl, rfl⟩

theorem call_with_contract_countMesh :
    (callWith (countMesh []) true defaultOpts 15000).2 = .ok [] := by
  have contract := (call_with_contract (countMesh []) countCodecs_lawful true defaultOpts 15000).1
  apply (contract.ok_iff []).mpr
  exact ⟨countRequest "second", replied_countMesh [], rfl, _, rfl⟩

/-- The provider returns a response that does not encode. -/
theorem response_not_returned :
    ¬ ∀ (Req Resp : Type) (mesh : Mesh Req Resp) (req : Req) (opts : LocateOpts)
        (timeoutMs : UInt64) (request : Sent) (resp : Resp), mesh.codecs.Lawful →
      Replied mesh (callWith mesh req opts timeoutMs).1 request →
      mesh.provider request.node req ⟨mesh.self⟩ = .ok resp →
        (callWith mesh req opts timeoutMs).2 = .ok resp := by
  intro claimed
  have returned := claimed Bool Counts (countMesh [([255], 1)]) true defaultOpts 15000
    (countRequest "second") [([255], 1)] countCodecs_lawful (replied_countMesh _) rfl
  exact absurd returned (by decide)

end CeRs.Capability
