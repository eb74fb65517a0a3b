import CeRs.Linear
import CeRs.Serve.Dedup
import Mathlib.Logic.Function.Basic

/-!
# Requests over the mesh

Any number of callers send requests to any number of serve loops.  The node
gives each request that it brings to an instance a reply token of its own
there, puts it on the message stream of the instance's node as often as it
likes or never, and routes a posted reply to the request that the token names,
now or later.  A request is what a call of `CeClient::request` hands to the
node over one transport; one that fails over from the lane to HTTP is a second
request.  The handler of each instance keeps a state of its own.  `history`
records what the callers see; neither the source nor the node keeps it.
-/

namespace CeRs.Mesh

open Transition Serve Linear

/-- A request that has been sent to an instance, and the token it goes by there. -/
structure Asked (Index : Type*) where
  target : Index
  request : Request
  token : UInt64
  deriving DecidableEq, Repr

variable {Index Object : Type*}

/-- The message that brings the request to the instance. -/
def Asked.message (asked : Asked Index) (receivedAt : UInt64) : AppMessage where
  sender := asked.request.sender
  topic := asked.request.topic
  payloadHex := Hex.encode asked.request.payload
  receivedAt := receivedAt
  replyToken := some asked.token

@[simp] theorem Asked.payload_message (asked : Asked Index) (receivedAt : UInt64) :
    (asked.message receivedAt).payload = some asked.request.payload :=
  Hex.decode_encode asked.request.payload

/-- A request by its number, and what it asks of which instance. -/
abbrev Seen (Index : Type*) := Linear.Event Nat (Index × Request) (List UInt8)

/-- The requests go by their numbers; those in `settled` have been answered or
given up. -/
structure World (Index Object : Type*) where
  loops : Index → Serve.State
  objects : Index → Object
  asked : List (Asked Index)
  settled : List Nat
  history : List (Seen Index)

inductive Label (Index : Type*)
  | ask (target : Index) (request : Request) (token : UInt64)
  | deliver (id : Nat) (receivedAt : UInt64)
  | resume (target : Index) (input : Input)
  | handle (target : Index)
  | route (id : Nat) (reply : List UInt8)
  | giveUp (id : Nat)
  deriving DecidableEq, Repr

/-- The inputs that bring no request and no reply of the handler. -/
def Plain : Input → Prop
  | .item message => message.replyToken = none
  | .handlerReturned _ => False
  | _ => True

instance (input : Input) : Decidable (Plain input) := by
  cases input <;> unfold Plain <;> infer_instance

def World.initial (objects : Index → Object) : World Index Object :=
  ⟨fun _ => Serve.initial, objects, [], [], []⟩

variable [DecidableEq Index]

def World.setLoop (mesh : World Index Object) (target : Index) (loop : Serve.State) :
    World Index Object :=
  { mesh with loops := Function.update mesh.loops target loop }

/-- The handlers as one object: a request changes the state of its instance. -/
def apply (handler : Index → Object → Request → Object × List UInt8) (objects : Index → Object)
    (op : Index × Request) : (Index → Object) × List UInt8 :=
  let outcome := handler op.1 (objects op.1) op.2
  (Function.update objects op.1 outcome.1, outcome.2)

variable (config : Index → Config) (handler : Index → Object → Request → Object × List UInt8)

def World.step (mesh : World Index Object) : Label Index → Option (World Index Object)
  | .ask target request token =>
      if ∃ asked ∈ mesh.asked, asked.target = target ∧ asked.token = token then none
      else some { mesh with
        asked := mesh.asked ++ [⟨target, request, token⟩]
        history := mesh.history ++ [.invoked mesh.asked.length (target, request)] }
  | .deliver id receivedAt =>
      match mesh.asked[id]? with
      | some asked =>
          (Serve.step (config asked.target) (mesh.loops asked.target)
            (.item (asked.message receivedAt))).map (mesh.setLoop asked.target)
      | none => none
  | .resume target input =>
      if Plain input then
        (Serve.step (config target) (mesh.loops target) input).map (mesh.setLoop target)
      else none
  | .handle target =>
      match (mesh.loops target).point with
      | .handling _ request =>
          let outcome := apply handler mesh.objects (target, request)
          (Serve.step (config target) (mesh.loops target) (.handlerReturned outcome.2)).map
            fun loop => { mesh.setLoop target loop with objects := outcome.1 }
      | _ => none
  | .route id reply =>
      match mesh.asked[id]? with
      | some asked =>
          if id ∉ mesh.settled ∧
              .posted asked.token reply ∈ (mesh.loops asked.target).history then
            some { mesh with
              settled := id :: mesh.settled
              history := mesh.history ++ [.returned id reply] }
          else none
      | none => none
  | .giveUp id => some { mesh with settled := id :: mesh.settled }

/-- Everything a step can do. -/
inductive MeshMoves (mesh : World Index Object) : World Index Object → Prop
  | sent (target : Index) (request : Request) (token : UInt64)
      (fresh : ∀ asked ∈ mesh.asked, asked.target = target → asked.token ≠ token) :
      MeshMoves mesh { mesh with
        asked := mesh.asked ++ [⟨target, request, token⟩]
        history := mesh.history ++ [.invoked mesh.asked.length (target, request)] }
  | delivered (id : Nat) (asked : Asked Index) (receivedAt : UInt64) (loop : Serve.State)
      (here : mesh.asked[id]? = some asked)
      (moves : Moves (config asked.target) (mesh.loops asked.target)
        (.item (asked.message receivedAt)) loop) :
      MeshMoves mesh (mesh.setLoop asked.target loop)
  | resumed (target : Index) (input : Input) (loop : Serve.State) (plain : Plain input)
      (moves : Moves (config target) (mesh.loops target) input loop) :
      MeshMoves mesh (mesh.setLoop target loop)
  | handled (target : Index) (token : UInt64) (request : Request) (loop : Serve.State)
      (point : (mesh.loops target).point = .handling token request)
      (moves : Moves (config target) (mesh.loops target)
        (.handlerReturned (apply handler mesh.objects (target, request)).2) loop) :
      MeshMoves mesh { mesh.setLoop target loop with
        objects := (apply handler mesh.objects (target, request)).1 }
  | routed (id : Nat) (asked : Asked Index) (reply : List UInt8)
      (here : mesh.asked[id]? = some asked)
      (waiting : id ∉ mesh.settled)
      (posted : .posted asked.token reply ∈ (mesh.loops asked.target).history) :
      MeshMoves mesh { mesh with
        settled := id :: mesh.settled
        history := mesh.history ++ [.returned id reply] }
  | gaveUp (id : Nat) : MeshMoves mesh { mesh with settled := id :: mesh.settled }

variable {config handler} {mesh next : World Index Object} {label : Label Index}

theorem meshMoves_of_step (stepped : World.step config handler mesh label = some next) :
    MeshMoves config handler mesh next := by
  cases label with
  | ask target request token =>
      simp only [World.step] at stepped
      split at stepped
      case isTrue => simp at stepped
      case isFalse fresh =>
          obtain rfl := Option.some.inj stepped
          exact .sent target request token fun asked member here same =>
            fresh ⟨asked, member, here, same⟩
  | deliver id receivedAt =>
      simp only [World.step] at stepped
      split at stepped
      case h_1 asked here =>
          obtain ⟨loop, moved, rfl⟩ := Option.map_eq_some_iff.mp stepped
          exact .delivered id asked receivedAt loop here (moves_of_step moved)
      case h_2 => simp at stepped
  | resume target input =>
      simp only [World.step] at stepped
      split at stepped
      case isTrue plain =>
          obtain ⟨loop, moved, rfl⟩ := Option.map_eq_some_iff.mp stepped
          exact .resumed target input loop plain (moves_of_step moved)
      case isFalse => simp at stepped
  | handle target =>
      simp only [World.step] at stepped
      split at stepped
      case h_1 token request point =>
          obtain ⟨loop, moved, rfl⟩ := Option.map_eq_some_iff.mp stepped
          exact .handled target token request loop point (moves_of_step moved)
      case h_2 => simp at stepped
  | route id reply =>
      simp only [World.step] at stepped
      split at stepped
      case h_1 asked here =>
          split at stepped
          case isTrue routed =>
              obtain rfl := Option.some.inj stepped
              exact .routed id asked reply here routed.1 routed.2
          case isFalse => simp at stepped
      case h_2 => simp at stepped
  | giveUp id =>
      obtain rfl := Option.some.inj stepped
      exact .gaveUp id

/-- The mesh takes up requests and its history goes on. -/
structure Grows (mesh next : World Index Object) : Prop where
  asked : mesh.asked <+: next.asked
  history : mesh.history <+: next.history

theorem grows_of_step {label : Label Index}
    (stepped : World.step config handler mesh label = some next) : Grows mesh next := by
  cases meshMoves_of_step stepped with
  | sent => exact ⟨List.prefix_append .., List.prefix_append ..⟩
  | routed => exact ⟨List.prefix_refl _, List.prefix_append ..⟩
  | delivered | resumed | handled | gaveUp => exact ⟨List.prefix_refl _, List.prefix_refl _⟩

theorem appended_of_ask {target : Index} {request : Request} {token : UInt64}
    (stepped : World.step config handler mesh (.ask target request token) = some next) :
    next.asked = mesh.asked ++ [⟨target, request, token⟩] ∧
      next.history = mesh.history ++ [.invoked mesh.asked.length (target, request)] := by
  simp only [World.step] at stepped
  split at stepped
  case isTrue => simp at stepped
  case isFalse =>
      obtain rfl := Option.some.inj stepped
      exact ⟨rfl, rfl⟩

theorem asked_of_step
    (stepped : World.step config handler mesh label = some next)
    (other : ∀ target request token, label ≠ .ask target request token) :
    next.asked = mesh.asked := by
  cases label with
  | ask target request token => exact (other target request token rfl).elim
  | deliver | resume | handle =>
      simp only [World.step] at stepped
      split at stepped
      · obtain ⟨loop, -, rfl⟩ := Option.map_eq_some_iff.mp stepped
        rfl
      · simp at stepped
  | route =>
      simp only [World.step] at stepped
      split at stepped
      case h_2 => simp at stepped
      case h_1 =>
          split at stepped
          case isTrue =>
              obtain rfl := Option.some.inj stepped
              rfl
          case isFalse => simp at stepped
  | giveUp =>
      obtain rfl := Option.some.inj stepped
      rfl

theorem returned_of_route {id : Nat} {reply : List UInt8}
    (stepped : World.step config handler mesh (.route id reply) = some next) :
    .returned id reply ∈ next.history := by
  simp only [World.step] at stepped
  split at stepped
  case h_2 => simp at stepped
  case h_1 =>
      split at stepped
      case isFalse => simp at stepped
      case isTrue =>
          obtain rfl := Option.some.inj stepped
          simp

end CeRs.Mesh
