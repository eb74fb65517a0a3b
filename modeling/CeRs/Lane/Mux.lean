import CeRs.Transition
import Mathlib.Logic.Function.Basic

/-!
# The lane mux

A `LaneClient` is shared by any number of callers and two threads.  Callers put
a oneshot sender into the `pending` map and their request into a channel; the
writer thread moves requests from the channel to the ring; the reader thread
takes frames from the ring and hands answers to the pending senders and events
to the subscribers, and drains both when the lane dies.

A label names the party that moves; each step is one atomic action of the
source: one load or store of a flag, one critical section of a mutex, one
channel or ring operation.  A sender is in exactly one place, so a oneshot is
cancelled exactly when its sender is neither in `pending` nor in the reader's
hands.  No critical section can panic, so the mutexes are never poisoned.  A send
on the ring is a step that is taken once the ring has room.
-/

namespace CeRs.Lane

/-- `NodeOp`, the operations a client asks of the node. -/
inductive NodeOp
  | status
  | watch
  | send (recipient : List UInt8) (topic : String) (payload : List UInt8)
  | publish (topic : String) (payload : List UInt8)
  | request (recipient : List UInt8) (topic : String) (payload : List UInt8)
      (timeoutMs : UInt64)
  | reply (token : UInt64) (payload : List UInt8)
  | subscribe (topic : String)
  deriving DecidableEq, Repr

/-- `Msg`, an inbound message pushed by the node. -/
structure Msg where
  sender : List UInt8
  topic : String
  payload : List UInt8
  receivedAt : UInt64
  replyToken : Option UInt64
  deriving DecidableEq, Repr

inductive NodeOk
  | done
  | status (nodeId : List UInt8) (height : UInt64)
  | reply (payload : List UInt8)
  | event (message : Msg)
  deriving DecidableEq, Repr

/-- The node's answer to an operation, authoritative either way. -/
abbrev Answer := Except String NodeOk

structure NodeReq where
  id : UInt64
  op : NodeOp
  deriving DecidableEq, Repr

structure NodeResp where
  id : UInt64
  result : Answer

/-- A request on its way to the node, with the caller that sent it; the caller
is not part of the encoded frame. -/
structure Frame where
  request : NodeReq
  caller : Nat
  deriving DecidableEq, Repr

/-- Where a caller is in `op` or `watch_stream`.  An `op` has returned with the
node's answer, or with none for `LaneGone`. -/
inductive Point
  | idle
  | watchChecking
  | checking (op : NodeOp)
  | allocating (op : NodeOp)
  | inserting (op : NodeOp) (id : UInt64)
  | sending (op : NodeOp) (id : UInt64)
  | withdrawing (id : UInt64)
  | awaiting (id : UInt64)
  | returned (answer : Option Answer)
  | marking
  | registering
  | confirming
  | watching
  | refused
  | cancelled

/-- A caller: whether it called `watch_stream`, the value its oneshot holds,
and the messages its stream was sent. -/
structure Caller where
  watch : Bool
  point : Point
  answer : Option Answer
  inbox : List Msg
  receiverDropped : Bool

inductive Writer
  | receiving
  | sending (frame : Frame)
  | dying
  | closing
  | dropping
  | exited
  deriving DecidableEq, Repr

/-- The reader after its drain of `pending` is `ending` or `finished`. -/
inductive Reader
  | receiving
  | routing (response : NodeResp)
  | answering (caller : Nat) (answer : Answer)
  | dying
  | closing
  | clearing
  | ending
  | finished

/-- The shared state.  `queue` is the channel to the writer, `up` and `down`
the two directions of the ring, `received` what the node has taken off it. -/
structure State where
  queue : List Frame
  receiverAlive : Bool
  up : List Frame
  received : List Frame
  down : List (Option NodeResp)
  closed : Bool
  dead : Bool
  pending : List (UInt64 × Nat)
  subscribers : List Nat
  nextId : UInt64
  watchStarted : Bool
  clientDropped : Bool
  writer : Writer
  reader : Reader
  total : Nat
  callers : Nat → Caller

/-- The party that moves.  A frame from the node that does not decode is
`nodeSend none`. -/
inductive Label
  | call (op : NodeOp)
  | watch
  | caller (index : Nat)
  | cancel (index : Nat)
  | dropReceiver (index : Nat)
  | dropClient
  | writer
  | writerRefused
  | reader
  | readerFailed
  | nodeReceive
  | nodeSend (frame : Option NodeResp)
  | close

def newCaller (watch : Bool) (point : Point) : Caller :=
  ⟨watch, point, none, [], false⟩

/-- `from_endpoint`. -/
def initial : State where
  queue := []
  receiverAlive := true
  up := []
  received := []
  down := []
  closed := false
  dead := false
  pending := []
  subscribers := []
  nextId := 1
  watchStarted := false
  clientDropped := false
  writer := .receiving
  reader := .receiving
  total := 0
  callers := fun _ => newCaller false .idle

def State.moveTo (state : State) (index : Nat) (point : Point) : State :=
  { state with
    callers := Function.update state.callers index { state.callers index with point } }

/-- Some part of the mux still holds the caller's oneshot sender. -/
def State.senderHeld (state : State) (index : Nat) : Bool :=
  state.pending.any (fun entry => entry.2 == index) ||
    match state.reader with
    | .answering caller _ => caller == index
    | _ => false

/-- Where a caller goes on once its `op` has returned. -/
def resume (watch : Bool) (answer : Option Answer) : Point :=
  if watch then
    match answer with
    | some (.ok _) => .marking
    | _ => .refused
  else .returned answer

/-- The next atomic action of a caller. -/
def stepCaller (state : State) (index : Nat) : Option State :=
  let caller := state.callers index
  match caller.point with
  | .watchChecking =>
      some (state.moveTo index (if state.watchStarted then .registering else .checking .watch))
  | .checking op =>
      some (state.moveTo index
        (if state.dead then resume caller.watch none else .allocating op))
  | .allocating op =>
      some { state.moveTo index (.inserting op state.nextId) with nextId := state.nextId + 1 }
  | .inserting op id =>
      some { state.moveTo index (.sending op id) with
        pending := (id, index) :: state.pending.filter (fun entry => entry.1 != id) }
  | .sending op id =>
      if state.receiverAlive then
        some { state.moveTo index (.awaiting id) with
          queue := state.queue ++ [⟨⟨id, op⟩, index⟩] }
      else some (state.moveTo index (.withdrawing id))
  | .withdrawing id =>
      some { state.moveTo index (resume caller.watch none) with
        pending := state.pending.filter (fun entry => entry.1 != id) }
  | .awaiting _ =>
      match caller.answer with
      | some answer => some (state.moveTo index (resume caller.watch (some answer)))
      | none =>
          if state.senderHeld index then none
          else some (state.moveTo index (resume caller.watch none))
  | .marking => some { state.moveTo index .registering with watchStarted := true }
  | .registering =>
      some { state.moveTo index .confirming with subscribers := state.subscribers ++ [index] }
  | .confirming =>
      if state.dead then
        some { state with
          callers := Function.update state.callers index
            { caller with point := .refused, receiverDropped := true } }
      else some (state.moveTo index .watching)
  | .idle | .returned _ | .watching | .refused | .cancelled => none

/-- The writer thread, apart from a send that the ring refuses. -/
def stepWriter (state : State) : Option State :=
  match state.writer with
  | .receiving =>
      match state.queue with
      | frame :: rest => some { state with writer := .sending frame, queue := rest }
      | [] => if state.clientDropped then some { state with writer := .dying } else none
  | .sending frame =>
      if state.closed then none
      else some { state with writer := .receiving, up := state.up ++ [frame] }
  | .dying => some { state with writer := .closing, dead := true }
  | .closing => some { state with writer := .dropping, closed := true }
  | .dropping => some { state with writer := .exited, receiverAlive := false, queue := [] }
  | .exited => none

/-- Send a message to every subscriber whose receiver still exists. -/
def deliver (state : State) (message : Msg) : State :=
  let live := state.subscribers.filter fun index => !(state.callers index).receiverDropped
  { state with
    subscribers := live
    callers := fun index =>
      if index ∈ live then
        { state.callers index with inbox := (state.callers index).inbox ++ [message] }
      else state.callers index }

/-- One critical section of the reader: events go to the subscribers, every
other response to the sender pending under its id. -/
def route (state : State) (response : NodeResp) : State :=
  match response.result with
  | .ok (.event message) => { deliver state message with reader := .receiving }
  | answer =>
      match state.pending.find? (fun entry => entry.1 == response.id) with
      | some entry =>
          { state with
            reader := .answering entry.2 answer
            pending := state.pending.filter (fun other => other.1 != response.id) }
      | none => { state with reader := .receiving }

/-- The reader thread, apart from a receive that fails. -/
def stepReader (state : State) : Option State :=
  match state.reader with
  | .receiving =>
      if state.closed then none
      else
        match state.down with
        | some response :: rest =>
            some { state with reader := .routing response, down := rest }
        | none :: rest => some { state with reader := .dying, down := rest }
        | [] => none
  | .routing response => some (route state response)
  | .answering index answer =>
      some { state with
        reader := .receiving
        callers := Function.update state.callers index
          { state.callers index with answer := some answer } }
  | .dying => some { state with reader := .closing, dead := true }
  | .closing => some { state with reader := .clearing, closed := true }
  | .clearing => some { state with reader := .ending, pending := [] }
  | .ending => some { state with reader := .finished, subscribers := [] }
  | .finished => none

/-- The caller is not inside a call of the client. -/
def Point.settled : Point → Bool
  | .idle | .returned _ | .watching | .refused | .cancelled => true
  | _ => false

def step (state : State) : Label → Option State
  | .call op =>
      if state.clientDropped then none
      else
        some { state with
          total := state.total + 1
          callers := Function.update state.callers state.total
            (newCaller false (.checking op)) }
  | .watch =>
      if state.clientDropped then none
      else
        some { state with
          total := state.total + 1
          callers := Function.update state.callers state.total
            (newCaller true .watchChecking) }
  | .caller index => stepCaller state index
  -- The only await of both calls is the one on the oneshot.
  | .cancel index =>
      match (state.callers index).point with
      | .awaiting _ => some (state.moveTo index .cancelled)
      | _ => none
  | .dropReceiver index =>
      match (state.callers index).point with
      | .watching =>
          some { state with
            callers := Function.update state.callers index
              { state.callers index with receiverDropped := true } }
      | _ => none
  -- Calls borrow the client, so it is dropped only when none is under way.
  | .dropClient =>
      if ∀ index < state.total, (state.callers index).point.settled = true then
        some { state with clientDropped := true }
      else none
  | .writer => stepWriter state
  -- A closed ring refuses every frame, an open one those it cannot carry.
  | .writerRefused =>
      match state.writer with
      | .sending _ => some { state with writer := .dying }
      | _ => none
  | .reader => stepReader state
  | .readerFailed =>
      match state.reader with
      | .receiving => some { state with reader := .dying }
      | _ => none
  | .nodeReceive =>
      match state.up with
      | frame :: rest =>
          some { state with up := rest, received := state.received ++ [frame] }
      | [] => none
  | .nodeSend frame =>
      if state.closed then none else some { state with down := state.down ++ [frame] }
  | .close => some { state with closed := true }

@[simp] theorem moveTo_callers_self (state : State) (index : Nat) (point : Point) :
    (state.moveTo index point).callers index = { state.callers index with point } := by
  simp [State.moveTo]

@[simp] theorem moveTo_callers_of_ne {state : State} {index other : Nat} {point : Point}
    (different : other ≠ index) :
    (state.moveTo index point).callers other = state.callers other := by
  simp [State.moveTo, different]

theorem senderHeld_iff {state : State} {index : Nat} :
    state.senderHeld index = true ↔
      (∃ entry ∈ state.pending, entry.2 = index) ∨
        ∃ answer, state.reader = .answering index answer := by
  simp only [State.senderHeld, Bool.or_eq_true, List.any_eq_true, beq_iff_eq]
  apply or_congr Iff.rfl
  constructor
  · intro held
    split at held
    case h_1 caller answer reader => exact ⟨answer, by rw [reader, beq_iff_eq.mp held]⟩
    case h_2 => simp at held
  · rintro ⟨answer, reader⟩
    simp [reader]

/-- Everything the next atomic action of a caller can do. -/
inductive CallerMoves (state : State) (index : Nat) : State → Prop
  | started (point : (state.callers index).point = .watchChecking)
      (started : state.watchStarted = true) :
      CallerMoves state index (state.moveTo index .registering)
  | notStarted (point : (state.callers index).point = .watchChecking)
      (started : state.watchStarted = false) :
      CallerMoves state index (state.moveTo index (.checking .watch))
  | foundDead (op : NodeOp) (point : (state.callers index).point = .checking op)
      (dead : state.dead = true) :
      CallerMoves state index (state.moveTo index (resume (state.callers index).watch none))
  | foundAlive (op : NodeOp) (point : (state.callers index).point = .checking op)
      (alive : state.dead = false) :
      CallerMoves state index (state.moveTo index (.allocating op))
  | allocated (op : NodeOp) (point : (state.callers index).point = .allocating op) :
      CallerMoves state index
        { state.moveTo index (.inserting op state.nextId) with nextId := state.nextId + 1 }
  | inserted (op : NodeOp) (id : UInt64) (point : (state.callers index).point = .inserting op id) :
      CallerMoves state index
        { state.moveTo index (.sending op id) with
          pending := (id, index) :: state.pending.filter (fun entry => entry.1 != id) }
  | sent (op : NodeOp) (id : UInt64) (point : (state.callers index).point = .sending op id)
      (alive : state.receiverAlive = true) :
      CallerMoves state index
        { state.moveTo index (.awaiting id) with
          queue := state.queue ++ [⟨⟨id, op⟩, index⟩] }
  | notSent (op : NodeOp) (id : UInt64) (point : (state.callers index).point = .sending op id)
      (gone : state.receiverAlive = false) :
      CallerMoves state index (state.moveTo index (.withdrawing id))
  | withdrawn (id : UInt64) (point : (state.callers index).point = .withdrawing id) :
      CallerMoves state index
        { state.moveTo index (resume (state.callers index).watch none) with
          pending := state.pending.filter (fun entry => entry.1 != id) }
  | answered (id : UInt64) (answer : Answer)
      (point : (state.callers index).point = .awaiting id)
      (value : (state.callers index).answer = some answer) :
      CallerMoves state index
        (state.moveTo index (resume (state.callers index).watch (some answer)))
  | orphaned (id : UInt64) (point : (state.callers index).point = .awaiting id)
      (value : (state.callers index).answer = none)
      (unheld : state.senderHeld index = false) :
      CallerMoves state index (state.moveTo index (resume (state.callers index).watch none))
  | marked (point : (state.callers index).point = .marking) :
      CallerMoves state index { state.moveTo index .registering with watchStarted := true }
  | registered (point : (state.callers index).point = .registering) :
      CallerMoves state index
        { state.moveTo index .confirming with subscribers := state.subscribers ++ [index] }
  | raced (point : (state.callers index).point = .confirming) (dead : state.dead = true) :
      CallerMoves state index
        { state with
          callers := Function.update state.callers index
            { state.callers index with point := .refused, receiverDropped := true } }
  | confirmed (point : (state.callers index).point = .confirming)
      (alive : state.dead = false) :
      CallerMoves state index (state.moveTo index .watching)

theorem callerMoves_of_stepCaller {state next : State} {index : Nat}
    (stepped : stepCaller state index = some next) : CallerMoves state index next := by
  cases point : (state.callers index).point with
  | watchChecking =>
      simp only [stepCaller, point, Option.some.injEq] at stepped
      split at stepped
      case isTrue started => exact stepped ▸ .started point started
      case isFalse started => exact stepped ▸ .notStarted point (by simpa using started)
  | checking op =>
      simp only [stepCaller, point, Option.some.injEq] at stepped
      split at stepped
      case isTrue dead => exact stepped ▸ .foundDead op point dead
      case isFalse dead => exact stepped ▸ .foundAlive op point (by simpa using dead)
  | allocating op =>
      simp only [stepCaller, point, Option.some.injEq] at stepped
      exact stepped ▸ .allocated op point
  | inserting op id =>
      simp only [stepCaller, point, Option.some.injEq] at stepped
      exact stepped ▸ .inserted op id point
  | sending op id =>
      simp only [stepCaller, point] at stepped
      split at stepped
      case isTrue alive => exact Option.some.inj stepped ▸ .sent op id point alive
      case isFalse gone =>
          exact Option.some.inj stepped ▸ .notSent op id point (by simpa using gone)
  | withdrawing id =>
      simp only [stepCaller, point, Option.some.injEq] at stepped
      exact stepped ▸ .withdrawn id point
  | awaiting id =>
      simp only [stepCaller, point] at stepped
      split at stepped
      case h_1 answer value => exact Option.some.inj stepped ▸ .answered id answer point value
      case h_2 value =>
          split at stepped
          case isTrue held => simp at stepped
          case isFalse held =>
              exact Option.some.inj stepped ▸ .orphaned id point value (by simpa using held)
  | marking =>
      simp only [stepCaller, point, Option.some.injEq] at stepped
      exact stepped ▸ .marked point
  | registering =>
      simp only [stepCaller, point, Option.some.injEq] at stepped
      exact stepped ▸ .registered point
  | confirming =>
      simp only [stepCaller, point] at stepped
      split at stepped
      case isTrue dead => exact Option.some.inj stepped ▸ .raced point dead
      case isFalse dead =>
          exact Option.some.inj stepped ▸ .confirmed point (by simpa using dead)
  | idle => simp [stepCaller, point] at stepped
  | returned answer => simp [stepCaller, point] at stepped
  | watching => simp [stepCaller, point] at stepped
  | refused => simp [stepCaller, point] at stepped
  | cancelled => simp [stepCaller, point] at stepped

theorem resume_induction {motive : Point → Prop} (marking : motive .marking)
    (refused : motive .refused) (returned : ∀ answer, motive (.returned answer)) (watch : Bool)
    (answer : Option Answer) : motive (resume watch answer) := by
  unfold resume
  split
  · split
    · exact marking
    · exact refused
  · exact returned answer

theorem resume_ne_awaiting (watch : Bool) (answer : Option Answer) (id : UInt64) :
    resume watch answer ≠ .awaiting id :=
  resume_induction (motive := fun point => point ≠ .awaiting id) nofun nofun (fun _ => nofun)
    watch answer

/-- An event changes the inboxes of the callers and nothing else of them. -/
theorem deliver_callers (state : State) (message : Msg) (index : Nat) :
    ∃ inbox, (deliver state message).callers index = { state.callers index with inbox } := by
  simp only [deliver]
  split
  · exact ⟨_, rfl⟩
  · exact ⟨(state.callers index).inbox, rfl⟩

namespace CallerMoves

variable {state next : State} {index : Nat}

theorem reader_eq (moves : CallerMoves state index next) : next.reader = state.reader := by
  cases moves <;> rfl

theorem callers_of_ne (moves : CallerMoves state index next) {other : Nat}
    (different : other ≠ index) : next.callers other = state.callers other := by
  cases moves <;> simp [State.moveTo, different]

theorem mem_pending (moves : CallerMoves state index next) {entry : UInt64 × Nat}
    (member : entry ∈ next.pending) (different : entry.2 ≠ index) :
    entry ∈ state.pending := by
  cases moves with
  | inserted op fresh point =>
      rcases List.mem_cons.mp member with rfl | member
      · exact absurd rfl different
      · exact (List.mem_filter.mp member).1
  | withdrawn own point => exact (List.mem_filter.mp member).1
  | started | notStarted | foundDead | foundAlive | allocated | sent | notSent | answered
  | orphaned | marked | registered | raced | confirmed => exact member

/-- An operation starts to wait only by a send that the channel accepts. -/
theorem sent_of_awaiting (moves : CallerMoves state index next) {id : UInt64}
    (awaiting : (next.callers index).point = .awaiting id) :
    (∃ op, (state.callers index).point = .sending op id) ∧ state.receiverAlive = true ∧
      next.pending = state.pending := by
  cases moves with
  | sent op own point alive =>
      obtain rfl : own = id := by simpa using awaiting
      exact ⟨⟨op, point⟩, alive, rfl⟩
  | foundDead | withdrawn | answered | orphaned =>
      exact absurd (by simpa using awaiting) (resume_ne_awaiting _ _ id)
  | started | notStarted | foundAlive | allocated | inserted | notSent | marked | registered
  | raced | confirmed => simp at awaiting

end CallerMoves

/-- Everything the writer thread can do. -/
inductive WriterMoves (state : State) : State → Prop
  | took (frame : Frame) (rest : List Frame) (writer : state.writer = .receiving)
      (queue : state.queue = frame :: rest) :
      WriterMoves state { state with writer := .sending frame, queue := rest }
  | hungUp (writer : state.writer = .receiving) (queue : state.queue = [])
      (dropped : state.clientDropped = true) :
      WriterMoves state { state with writer := .dying }
  | sent (frame : Frame) (writer : state.writer = .sending frame)
      (alive : state.closed = false) :
      WriterMoves state { state with writer := .receiving, up := state.up ++ [frame] }
  | marked (writer : state.writer = .dying) :
      WriterMoves state { state with writer := .closing, dead := true }
  | closed (writer : state.writer = .closing) :
      WriterMoves state { state with writer := .dropping, closed := true }
  | dropped (writer : state.writer = .dropping) :
      WriterMoves state { state with writer := .exited, receiverAlive := false, queue := [] }

theorem writerMoves_of_stepWriter {state next : State}
    (stepped : stepWriter state = some next) : WriterMoves state next := by
  cases writer : state.writer with
  | receiving =>
      simp only [stepWriter, writer] at stepped
      split at stepped
      case h_1 frame rest queue => exact Option.some.inj stepped ▸ .took frame rest writer queue
      case h_2 queue =>
          split at stepped
          case isTrue dropped => exact Option.some.inj stepped ▸ .hungUp writer queue dropped
          case isFalse => simp at stepped
  | sending frame =>
      simp only [stepWriter, writer] at stepped
      split at stepped
      case isTrue => simp at stepped
      case isFalse alive =>
          exact Option.some.inj stepped ▸ .sent frame writer (by simpa using alive)
  | dying =>
      simp only [stepWriter, writer, Option.some.injEq] at stepped
      exact stepped ▸ .marked writer
  | closing =>
      simp only [stepWriter, writer, Option.some.injEq] at stepped
      exact stepped ▸ .closed writer
  | dropping =>
      simp only [stepWriter, writer, Option.some.injEq] at stepped
      exact stepped ▸ .dropped writer
  | exited => simp [stepWriter, writer] at stepped

/-- Everything the reader thread can do. -/
inductive ReaderMoves (state : State) : State → Prop
  | took (response : NodeResp) (rest : List (Option NodeResp))
      (reader : state.reader = .receiving) (alive : state.closed = false)
      (down : state.down = some response :: rest) :
      ReaderMoves state { state with reader := .routing response, down := rest }
  | garbled (rest : List (Option NodeResp)) (reader : state.reader = .receiving)
      (alive : state.closed = false) (down : state.down = none :: rest) :
      ReaderMoves state { state with reader := .dying, down := rest }
  | pushed (id : UInt64) (message : Msg)
      (reader : state.reader = .routing ⟨id, .ok (.event message)⟩) :
      ReaderMoves state { deliver state message with reader := .receiving }
  | matched (response : NodeResp) (entry : UInt64 × Nat)
      (reader : state.reader = .routing response)
      (notEvent : ∀ message, response.result ≠ .ok (.event message))
      (found : state.pending.find? (fun entry => entry.1 == response.id) = some entry) :
      ReaderMoves state
        { state with
          reader := .answering entry.2 response.result
          pending := state.pending.filter (fun other => other.1 != response.id) }
  | unmatched (response : NodeResp) (reader : state.reader = .routing response)
      (notEvent : ∀ message, response.result ≠ .ok (.event message))
      (missing : state.pending.find? (fun entry => entry.1 == response.id) = none) :
      ReaderMoves state { state with reader := .receiving }
  | answered (index : Nat) (answer : Answer) (reader : state.reader = .answering index answer) :
      ReaderMoves state
        { state with
          reader := .receiving
          callers := Function.update state.callers index
            { state.callers index with answer := some answer } }
  | marked (reader : state.reader = .dying) :
      ReaderMoves state { state with reader := .closing, dead := true }
  | closed (reader : state.reader = .closing) :
      ReaderMoves state { state with reader := .clearing, closed := true }
  | cleared (reader : state.reader = .clearing) :
      ReaderMoves state { state with reader := .ending, pending := [] }
  | ended (reader : state.reader = .ending) :
      ReaderMoves state { state with reader := .finished, subscribers := [] }

theorem readerMoves_of_route {state : State} {response : NodeResp}
    (reader : state.reader = .routing response) :
    ReaderMoves state (route state response) := by
  unfold route
  split
  case h_1 message result =>
      obtain ⟨id, answer⟩ := response
      obtain rfl : answer = .ok (.event message) := result
      exact .pushed id message reader
  case h_2 notEvent =>
      split
      case h_1 entry found =>
          exact .matched response entry reader (fun message => notEvent message) found
      case h_2 missing =>
          exact .unmatched response reader (fun message => notEvent message) missing

theorem readerMoves_of_stepReader {state next : State}
    (stepped : stepReader state = some next) : ReaderMoves state next := by
  cases reader : state.reader with
  | receiving =>
      simp only [stepReader, reader] at stepped
      split at stepped
      case isTrue => simp at stepped
      case isFalse notClosed =>
          have alive : state.closed = false := by simpa using notClosed
          split at stepped
          case h_1 response rest down =>
              exact Option.some.inj stepped ▸ .took response rest reader alive down
          case h_2 rest down => exact Option.some.inj stepped ▸ .garbled rest reader alive down
          case h_3 => simp at stepped
  | routing response =>
      simp only [stepReader, reader, Option.some.injEq] at stepped
      exact stepped ▸ readerMoves_of_route reader
  | answering index answer =>
      simp only [stepReader, reader, Option.some.injEq] at stepped
      exact stepped ▸ .answered index answer reader
  | dying =>
      simp only [stepReader, reader, Option.some.injEq] at stepped
      exact stepped ▸ .marked reader
  | closing =>
      simp only [stepReader, reader, Option.some.injEq] at stepped
      exact stepped ▸ .closed reader
  | clearing =>
      simp only [stepReader, reader, Option.some.injEq] at stepped
      exact stepped ▸ .cleared reader
  | ending =>
      simp only [stepReader, reader, Option.some.injEq] at stepped
      exact stepped ▸ .ended reader
  | finished => simp [stepReader, reader] at stepped

/-- Everything a step of the mux can do. -/
inductive Moves (state : State) : Label → State → Prop
  | called (op : NodeOp) (alive : state.clientDropped = false) :
      Moves state (.call op)
        { state with
          total := state.total + 1
          callers := Function.update state.callers state.total
            (newCaller false (.checking op)) }
  | watched (alive : state.clientDropped = false) :
      Moves state .watch
        { state with
          total := state.total + 1
          callers := Function.update state.callers state.total
            (newCaller true .watchChecking) }
  | caller (index : Nat) (next : State) (moves : CallerMoves state index next) :
      Moves state (.caller index) next
  | cancelled (index : Nat) (id : UInt64) (point : (state.callers index).point = .awaiting id) :
      Moves state (.cancel index) (state.moveTo index .cancelled)
  | droppedReceiver (index : Nat) (point : (state.callers index).point = .watching) :
      Moves state (.dropReceiver index)
        { state with
          callers := Function.update state.callers index
            { state.callers index with receiverDropped := true } }
  | droppedClient
      (settled : ∀ index < state.total, (state.callers index).point.settled = true) :
      Moves state .dropClient { state with clientDropped := true }
  | writer (next : State) (moves : WriterMoves state next) : Moves state .writer next
  | refused (frame : Frame) (writer : state.writer = .sending frame) :
      Moves state .writerRefused { state with writer := .dying }
  | reader (next : State) (moves : ReaderMoves state next) : Moves state .reader next
  | failed (reader : state.reader = .receiving) :
      Moves state .readerFailed { state with reader := .dying }
  | nodeReceived (frame : Frame) (rest : List Frame) (up : state.up = frame :: rest) :
      Moves state .nodeReceive
        { state with up := rest, received := state.received ++ [frame] }
  | nodeSent (frame : Option NodeResp) (alive : state.closed = false) :
      Moves state (.nodeSend frame) { state with down := state.down ++ [frame] }
  | closed : Moves state .close { state with closed := true }

theorem moves_of_step {state next : State} {label : Label}
    (stepped : step state label = some next) : Moves state label next := by
  cases label with
  | caller index => exact .caller index next (callerMoves_of_stepCaller stepped)
  | writer => exact .writer next (writerMoves_of_stepWriter stepped)
  | reader => exact .reader next (readerMoves_of_stepReader stepped)
  | call op =>
      simp only [step] at stepped
      split at stepped
      case isTrue => simp at stepped
      case isFalse alive => exact Option.some.inj stepped ▸ .called op (by simpa using alive)
  | watch =>
      simp only [step] at stepped
      split at stepped
      case isTrue => simp at stepped
      case isFalse alive => exact Option.some.inj stepped ▸ .watched (by simpa using alive)
  | cancel index =>
      simp only [step] at stepped
      split at stepped
      case h_1 id point => exact Option.some.inj stepped ▸ .cancelled index id point
      case h_2 => simp at stepped
  | dropReceiver index =>
      simp only [step] at stepped
      split at stepped
      case h_1 point => exact Option.some.inj stepped ▸ .droppedReceiver index point
      case h_2 => simp at stepped
  | dropClient =>
      simp only [step] at stepped
      split at stepped
      case isTrue settled => exact Option.some.inj stepped ▸ .droppedClient settled
      case isFalse => simp at stepped
  | writerRefused =>
      simp only [step] at stepped
      split at stepped
      case h_1 frame writer => exact Option.some.inj stepped ▸ .refused frame writer
      case h_2 => simp at stepped
  | readerFailed =>
      simp only [step] at stepped
      split at stepped
      case h_1 reader => exact Option.some.inj stepped ▸ .failed reader
      case h_2 => simp at stepped
  | nodeReceive =>
      simp only [step] at stepped
      split at stepped
      case h_1 frame rest up => exact Option.some.inj stepped ▸ .nodeReceived frame rest up
      case h_2 => simp at stepped
  | nodeSend frame =>
      simp only [step] at stepped
      split at stepped
      case isTrue => simp at stepped
      case isFalse alive => exact Option.some.inj stepped ▸ .nodeSent frame (by simpa using alive)
  | close => exact Option.some.inj stepped ▸ .closed

end CeRs.Lane
