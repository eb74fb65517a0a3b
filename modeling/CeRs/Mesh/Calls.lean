import CeRs.Mesh.Requests

/-!
# Located calls over the mesh

Any number of clients run `locate::call`, each call over the instances that
`locate` has returned to it.  The call sends its request to one instance after
the other until one replies.  A client sends over its lane while the lane
lives; a request whose lane dies under it goes to the same instance again, over
HTTP, although the node may have received it.  An instance that has been given
up may still handle the request, and the node may route a reply that the caller
no longer gets.  `sent` and `history` record what happened; the source does not
keep them.
-/

namespace CeRs.Calling

open Transition Serve

/-- Where a call stands in the loop of `call`: between two instances, inside
`CeClient::request` with the number of the request that the node has received,
between the lane and HTTP, or at its end. -/
inductive Phase (Index : Type*)
  | choosing
  | waiting (target : Index) (received : Option Nat) (overLane : Bool)
  | resending (target : Index)
  | replied (request : Nat) (reply : List UInt8)
  | failed
  deriving DecidableEq, Repr

/-- `tried` counts the instances that the loop has come to, and `sent` lists the
requests that the node has received. -/
structure Call (Client Index : Type*) where
  client : Client
  request : Request
  instances : List Index
  tried : Nat
  phase : Phase Index
  fellBack : Option Index
  sent : List (Index × Nat)
  deriving DecidableEq, Repr

variable {Client Index Object : Type*}

/-- The state of the mesh, whether the lane of each client lives, and the calls. -/
structure World (Client Index Object : Type*) where
  mesh : Mesh.World Index Object
  lanes : Client → Bool
  calls : List (Call Client Index)
  history : List (Linear.Event Nat Request (List UInt8))

/-- In a `send`, the token is that of the request if the node receives it.  The
label `mesh` stands for the nodes, the instances and the direct requests of
others. -/
inductive Label (Client Index : Type*)
  | begin (client : Client) (request : Request) (instances : List Index)
  | send (call : Nat) (overLane : Bool) (token : Option UInt64)
  | laneDies (client : Client)
  | land (call : Nat)
  | fail (call : Nat)
  | reply (call : Nat) (reply : List UInt8)
  | mesh (label : Mesh.Label Index)
  deriving DecidableEq, Repr

def World.initial (objects : Index → Object) (lanes : Client → Bool) :
    World Client Index Object :=
  ⟨.initial objects, lanes, [], []⟩

def Call.begin (client : Client) (request : Request) (instances : List Index) :
    Call Client Index :=
  ⟨client, request, instances, 0, .choosing, none, []⟩

/-- The request goes out to the instance. -/
def Call.send (call : Call Client Index) (target : Index) (received : Option Nat)
    (overLane : Bool) : Call Client Index :=
  { call with
    phase := .waiting target received overLane
    sent := call.sent ++ (received.map fun id => (target, id)).toList }

/-- The operation resolves to `LaneGone`. -/
def Call.land (call : Call Client Index) (target : Index) : Call Client Index :=
  { call with phase := .resending target, fellBack := some target }

/-- The loop comes to the instance after the ones that have been tried. -/
def Call.choose (call : Call Client Index) : Call Client Index :=
  { call with tried := call.tried + 1 }

def Call.reach (call : Call Client Index) (phase : Phase Index) : Call Client Index :=
  { call with phase := phase }

def World.setCall (world : World Client Index Object) (id : Nat) (call : Call Client Index) :
    World Client Index Object :=
  { world with calls := world.calls.set id call }

variable [DecidableEq Client] [DecidableEq Index] (config : Index → Config)
  (handler : Index → Object → Request → Object × List UInt8)

/-- `CeClient::request` hands the request to the node, which receives it or does
not. -/
def World.emit (world : World Client Index Object) (id : Nat) (call : Call Client Index)
    (target : Index) (overLane : Bool) : Option UInt64 → Option (World Client Index Object)
  | none => some (world.setCall id (call.send target none overLane))
  | some token =>
      (Mesh.World.step config handler world.mesh (.ask target call.request token)).map
        fun mesh =>
          { world.setCall id (call.send target (some world.mesh.asked.length) overLane) with
            mesh := mesh }

def World.step (world : World Client Index Object) :
    Label Client Index → Option (World Client Index Object)
  | .begin client request instances =>
      some { world with
        calls := world.calls ++ [.begin client request instances]
        history := world.history ++ [.invoked world.calls.length request] }
  | .send id overLane token =>
      match world.calls[id]? with
      | some call =>
          match call.phase with
          | .choosing =>
              match call.instances[call.tried]? with
              | some target =>
                  -- without a binary form the recipient is asked over HTTP
                  if overLane = true → world.lanes call.client = true then
                    world.emit config handler id call.choose target overLane token
                  else none
              | none => some (world.setCall id (call.reach .failed))
          | .resending target =>
              if overLane = false then world.emit config handler id call target false token
              else none
          | _ => none
      | none => none
  | .laneDies client => some { world with lanes := Function.update world.lanes client false }
  | .land id =>
      match world.calls[id]? with
      | some call =>
          match call.phase with
          | .waiting target _ true =>
              if world.lanes call.client = false then some (world.setCall id (call.land target))
              else none
          | _ => none
      | none => none
  | .fail id =>
      match world.calls[id]? with
      | some call =>
          match call.phase with
          | .waiting .. => some (world.setCall id (call.reach .choosing))
          | _ => none
      | none => none
  | .reply id reply =>
      match world.calls[id]? with
      | some call =>
          match call.phase with
          | .waiting _ (some received) _ =>
              (Mesh.World.step config handler world.mesh (.route received reply)).map fun mesh =>
                { world.setCall id (call.reach (.replied received reply)) with
                  mesh := mesh
                  history := world.history ++ [.returned id reply] }
          | _ => none
      | none => none
  | .mesh label =>
      (Mesh.World.step config handler world.mesh label).map fun mesh =>
        { world with mesh := mesh }

/-- What one call can do in a step, other than to begin and to get its reply. -/
inductive CallMoves (world : World Client Index Object) (call : Call Client Index) :
    Call Client Index → Option (Mesh.Asked Index) → Prop
  | tries (target : Index) (overLane : Bool) (point : call.phase = .choosing)
      (here : call.instances[call.tried]? = some target)
      (lane : overLane = true → world.lanes call.client = true) (token : Option UInt64) :
      CallMoves world call
        (call.choose.send target (token.map fun _ => world.mesh.asked.length) overLane)
        (token.map fun token => ⟨target, call.request, token⟩)
  | resends (target : Index) (point : call.phase = .resending target) (token : Option UInt64) :
      CallMoves world call
        (call.send target (token.map fun _ => world.mesh.asked.length) false)
        (token.map fun token => ⟨target, call.request, token⟩)
  | exhausted (point : call.phase = .choosing) (beyond : call.instances.length ≤ call.tried) :
      CallMoves world call (call.reach .failed) none
  | lands (target : Index) (received : Option Nat)
      (point : call.phase = .waiting target received true)
      (dead : world.lanes call.client = false) : CallMoves world call (call.land target) none
  | fails (target : Index) (received : Option Nat) (overLane : Bool)
      (point : call.phase = .waiting target received overLane) :
      CallMoves world call (call.reach .choosing) none

/-- Everything a step can do. -/
inductive WorldMoves (world : World Client Index Object) : World Client Index Object → Prop
  | began (client : Client) (request : Request) (instances : List Index) :
      WorldMoves world { world with
        calls := world.calls ++ [.begin client request instances]
        history := world.history ++ [.invoked world.calls.length request] }
  | moved (id : Nat) (call after : Call Client Index) (here : world.calls[id]? = some call)
      (moves : CallMoves world call after none) : WorldMoves world (world.setCall id after)
  | asked (id : Nat) (call after : Call Client Index) (here : world.calls[id]? = some call)
      (asked : Mesh.Asked Index) (moves : CallMoves world call after (some asked))
      (mesh : Mesh.World Index Object)
      (stepped : Mesh.World.step config handler world.mesh
        (.ask asked.target asked.request asked.token) = some mesh) :
      WorldMoves world { world.setCall id after with mesh := mesh }
  | died (client : Client) :
      WorldMoves world { world with lanes := Function.update world.lanes client false }
  | replied (id : Nat) (call : Call Client Index) (here : world.calls[id]? = some call)
      (target : Index) (received : Nat) (overLane : Bool)
      (point : call.phase = .waiting target (some received) overLane) (reply : List UInt8)
      (mesh : Mesh.World Index Object)
      (stepped : Mesh.World.step config handler world.mesh (.route received reply) = some mesh) :
      WorldMoves world { world.setCall id (call.reach (.replied received reply)) with
        mesh := mesh
        history := world.history ++ [.returned id reply] }
  | turned (label : Mesh.Label Index) (mesh : Mesh.World Index Object)
      (stepped : Mesh.World.step config handler world.mesh label = some mesh) :
      WorldMoves world { world with mesh := mesh }

variable {config handler} {world next : World Client Index Object} {label : Label Client Index}

theorem worldMoves_of_emit {id : Nat} {call sending : Call Client Index}
    (here : world.calls[id]? = some call) {target : Index} {overLane : Bool}
    {token : Option UInt64}
    (moves : CallMoves world call
      (sending.send target (token.map fun _ => world.mesh.asked.length) overLane)
      (token.map fun token => ⟨target, sending.request, token⟩))
    (emitted : world.emit config handler id sending target overLane token = some next) :
    WorldMoves config handler world next := by
  cases token with
  | none =>
      obtain rfl := Option.some.inj emitted
      exact .moved id call _ here moves
  | some token =>
      obtain ⟨mesh, stepped, rfl⟩ := Option.map_eq_some_iff.mp emitted
      exact .asked id call _ here _ moves mesh stepped

theorem worldMoves_of_step (stepped : world.step config handler label = some next) :
    WorldMoves config handler world next := by
  cases label with
  | begin client request instances =>
      obtain rfl := Option.some.inj stepped
      exact .began client request instances
  | send id overLane token =>
      simp only [World.step] at stepped
      split at stepped
      case h_2 => simp at stepped
      case h_1 call here =>
          split at stepped
          case h_1 point =>
              split at stepped
              case h_1 target place =>
                  split at stepped
                  case isTrue lane =>
                      exact worldMoves_of_emit here
                        (.tries target overLane point place lane token) stepped
                  case isFalse => simp at stepped
              case h_2 beyond =>
                  obtain rfl := Option.some.inj stepped
                  have all := List.getElem?_eq_none_iff.mp beyond
                  exact .moved id call _ here (.exhausted point all)
          case h_2 target point =>
              split at stepped
              case isTrue =>
                  exact worldMoves_of_emit here (.resends target point token) stepped
              case isFalse => simp at stepped
          case h_3 => simp at stepped
  | laneDies client =>
      obtain rfl := Option.some.inj stepped
      exact .died client
  | land id =>
      simp only [World.step] at stepped
      split at stepped
      case h_2 => simp at stepped
      case h_1 call here =>
          split at stepped
          case h_2 => simp at stepped
          case h_1 target received point =>
              split at stepped
              case isFalse => simp at stepped
              case isTrue dead =>
                  obtain rfl := Option.some.inj stepped
                  exact .moved id call _ here (.lands target received point dead)
  | fail id =>
      simp only [World.step] at stepped
      split at stepped
      case h_2 => simp at stepped
      case h_1 call here =>
          split at stepped
          case h_2 => simp at stepped
          case h_1 target received overLane point =>
              obtain rfl := Option.some.inj stepped
              exact .moved id call _ here (.fails target received overLane point)
  | reply id reply =>
      simp only [World.step] at stepped
      split at stepped
      case h_2 => simp at stepped
      case h_1 call here =>
          split at stepped
          case h_2 => simp at stepped
          case h_1 target received overLane point =>
              obtain ⟨mesh, routed, rfl⟩ := Option.map_eq_some_iff.mp stepped
              exact .replied id call here target received overLane point reply mesh routed
  | mesh label =>
      obtain ⟨mesh, moved, rfl⟩ := Option.map_eq_some_iff.mp stepped
      exact .turned label mesh moved

end CeRs.Calling
