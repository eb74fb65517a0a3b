import CeRs.Capability.Call
import CeRs.Mesh.Linearizable

/-!
# Providers with a state of their own

A provider may keep a state that its requests read and change.  Seen through
the codecs, with `decodeReply` at the callers and the capability's handler at
the instances, the calls of all callers are linearizable with respect to the
provider itself: no request, reply or retry of the transport shows.
-/

namespace CeRs.Capability

open Transition Serve Linear CeRs.Mesh

variable {Index Object Req Resp : Type*}

section Calling

variable {Req Resp : Type} (codecs : Codecs Req Resp) (name : String)
  (provider : Index → Object → Req → Caller → Object × Except String Resp)

/-- The handler of an instance: a request that does not decode changes nothing. -/
def serveRequest (index : Index) (object : Object) (request : Serve.Request) :
    Object × List UInt8 :=
  (match codecs.requests.decode request.payload with
    | .ok typed => (provider index object typed ⟨request.sender⟩).1
    | .error _ => object,
    handle codecs (fun typed caller => (provider index object typed caller).2) request)

/-- A call, as the provider sees it. -/
structure TypedCall (Index Req : Type*) where
  target : Index
  caller : Caller
  request : Except String Req

def typedCall (op : Index × Serve.Request) : TypedCall Index Req :=
  ⟨op.1, ⟨op.2.sender⟩, codecs.requests.decode op.2.payload⟩

/-- What a caller is told of a result of the provider. -/
def told : Except String Resp → Except CallError Resp
  | .ok resp =>
      match codecs.replies.encode (.ok resp) with
      | .ok _ => .ok resp
      | .error _ => .error (.provider name "reply encode failed")
  | .error message => .error (.provider name message)

variable [DecidableEq Index]

/-- The providers as one object of typed calls. -/
def provide (objects : Index → Object) (call : TypedCall Index Req) :
    (Index → Object) × Except CallError Resp :=
  match call.request with
  | .ok req =>
      let outcome := provider call.target (objects call.target) req call.caller
      (Function.update objects call.target outcome.1, told codecs name outcome.2)
  | .error problem => (objects, .error (.provider name s!"bad request: {problem}"))

variable {codecs} {provider}

/-- The caller reads the provider's result off the reply. -/
theorem decodeReply_encodeReply (lawful : codecs.Lawful) (provided : Except String Resp) :
    decodeReply codecs name (encodeReply codecs
        (match provided with
          | .ok resp => .ok resp
          | .error message => .err message)) =
      told codecs name provided := by
  cases provided with
  | ok resp =>
      rcases decode_encodeReply lawful (.ok resp) with ⟨⟨bytes, encodes⟩, read⟩ | ⟨fails, read⟩
      · simp [decodeReply, read, told, encodes]
      · cases encoded : codecs.replies.encode (.ok resp) with
        | ok bytes => exact (fails ⟨bytes, encoded⟩).elim
        | error problem => simp [decodeReply, read, told, encoded]
  | error message =>
      obtain ⟨bytes, encoded, -⟩ := lawful.errors message
      rcases decode_encodeReply lawful (.err message) with ⟨-, read⟩ | ⟨fails, -⟩
      · simp [decodeReply, read, told]
      · exact (fails ⟨bytes, encoded⟩).elim

/-- The handlers do to requests what the providers do to calls. -/
theorem provide_typedCall (lawful : codecs.Lawful) (objects : Index → Object)
    (op : Index × Serve.Request) :
    provide codecs name provider objects (typedCall codecs op) =
      ((apply (serveRequest codecs provider) objects op).1,
        decodeReply codecs name (apply (serveRequest codecs provider) objects op).2) := by
  obtain ⟨target, request⟩ := op
  cases decoded : codecs.requests.decode request.payload with
  | ok req =>
      have read := decodeReply_encodeReply name lawful
        (provider target (objects target) req ⟨request.sender⟩).2
      cases provided : (provider target (objects target) req ⟨request.sender⟩).2 <;>
        simp_all [provide, typedCall, apply, serveRequest, handle, reply]
  | error problem =>
      have read := decodeReply_encodeReply name lawful
        (.error s!"bad request: {problem}" : Except String Resp)
      simp_all [provide, typedCall, apply, serveRequest, handle, reply, told]

variable {config : Index → Config} {objects : Index → Object} {trace : List (Mesh.Label Index)}
  {final : World Index Object}

/-- Callers of a capability see one sequential run of its providers. -/
theorem typed_calls_linearizable (lawful : codecs.Lawful)
    (reached : execute (World.step config (serveRequest codecs provider))
      (World.initial objects) trace = some final) (few : Few final) :
    ∃ effects : List (Effect Nat (TypedCall Index Req) (Except CallError Resp)),
      Linearizes (provide codecs name provider) objects
        (final.history.map (Linear.Event.translate (typedCall codecs) (decodeReply codecs name)))
        effects ∧
      final.objects = objectAfter (provide codecs name provider) objects
        (effects.map Effect.op) ∧
      (∀ (id : Nat) (asked : Asked Index) (req : Req), final.asked[id]? = some asked →
        codecs.requests.encode req = .ok asked.request.payload →
          .invoked id ⟨asked.target, ⟨asked.request.sender⟩, .ok req⟩ ∈
            final.history.map
              (Linear.Event.translate (typedCall codecs) (decodeReply codecs name))) ∧
      ∀ (id : Nat) (asked : Asked Index), final.asked[id]? = some asked →
        (Delivered config final asked ↔ id ∈ effects.map Effect.id ∨
          (final.loops asked.target).point = .handling asked.token asked.request) := by
  obtain ⟨effects, linked⟩ := linked_of_execute reached few
  refine ⟨effects.map (Effect.translate (typedCall codecs) (decodeReply codecs name)),
    linked.linearizes.translate (provide_typedCall name lawful), ?_, ?_, ?_⟩
  · rw [map_op_translate, objectAfter_translate (provide_typedCall name lawful)]
    exact linked.objects_eq
  · intro id asked req here encoded
    have invoked := (linked.invoked_iff id (asked.target, asked.request)).mpr ⟨asked, here, rfl⟩
    refine List.mem_map.mpr ⟨_, invoked, ?_⟩
    simp [Linear.Event.translate, typedCall, lawful.requests req _ encoded]
  · intro id asked here
    rw [map_id_translate]
    exact linked.delivered_iff here

end Calling

/-- A provider that counts its calls, and refuses the second one. -/
def countingProvider : Unit → Nat → Bool → Caller → Nat × Except String Counts :=
  fun _ count _ _ => (count + 1, if count = 1 then .error "busy" else .ok [])

def countCall : Serve.Request := ⟨"caller", "cap/stats.count", Utf8.encode "true".toList⟩

/-- Two calls; the first one is delivered again, on the next connection. -/
def countCalls : List (Mesh.Label Unit) :=
  [.resume () .openOk, .ask () countCall 1, .ask () countCall 2, .deliver 0 0, .handle (),
    .resume () .replyOk, .resume () .streamEnd, .resume () .openOk, .deliver 0 0, .deliver 1 0,
    .handle (), .route 0 (Utf8.encode emptyText), .route 1 (Utf8.encode (errorText "busy"))]

/-- What the two callers see. -/
def countHistory : List (Linear.Event Nat (TypedCall Unit Bool) (Except CallError Counts)) :=
  [.invoked 0 ⟨(), ⟨"caller"⟩, .ok true⟩, .invoked 1 ⟨(), ⟨"caller"⟩, .ok true⟩,
    .returned 0 (.ok []), .returned 1 (.error (.provider "stats.count" "busy"))]

theorem typed_calls_linearizable_counting :
    ∃ effects, Linearizes (provide countCodecs "stats.count" countingProvider) (fun _ => 0)
      countHistory effects := by
  have reached : execute (World.step (fun _ => anyTopic)
      (serveRequest countCodecs countingProvider)) (World.initial fun _ => 0)
      countCalls = some _ := rfl
  have few : ∀ _ : Unit, 2 ≤ dedupLimit := fun _ => by decide
  obtain ⟨effects, linearizes, -⟩ :=
    typed_calls_linearizable "stats.count" countCodecs_lawful reached few
  exact ⟨effects, linearizes⟩

end CeRs.Capability
