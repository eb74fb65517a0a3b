import CeRs.Lane.Drain
import CeRs.Lane.Streams
import CeRs.Ring
import Mathlib.Algebra.BigOperators.Ring.Finset
import Mathlib.Algebra.Order.BigOperators.Group.Finset

/-!
# The lane comes to rest

While nobody makes a call and the node does nothing, the callers under way and
the two threads take only so many steps.  On an open lane every operation that
still waits has then left the client, unless the writer thread waits for room on
the ring to the node; on a closed one every call is over, but for operations that
were sent too late, and every stream has ended.
-/

namespace CeRs.Lane

open Transition

/-- The steps of the callers that are under way and of the two threads. -/
def Label.Own : Label → Prop
  | .caller _ | .writer | .writerRefused | .reader | .readerFailed => True
  | .call _ | .watch | .cancel _ | .dropReceiver _ | .dropClient | .nodeReceive | .nodeSend _
  | .close => False

instance (label : Label) : Decidable label.Own := by
  unfold Label.Own
  split <;> infer_instance

variable (ring : Ring Frame)

/-- The writer thread is in a send that waits for room. -/
def WaitsForRoom (state : State) : Prop :=
  ∃ frame, state.writer = .sending frame ∧ ring.returns state.up frame = false

/-- The steps that are made sooner or later; the ring fails once it is closed. -/
def Due (state : State) : Label → Prop
  | .caller _ | .reader => True
  | .writer => ¬ WaitsForRoom ring state
  | .writerRefused | .readerFailed => state.closed = true
  | .call _ | .watch | .cancel _ | .dropReceiver _ | .dropClient | .nodeReceive | .nodeSend _
  | .close => False

def AtRest (state : State) : Prop :=
  ∀ label, Due ring state label → step state label = none

/-- How far a call is from its end; a send leaves work to the writer thread. -/
def Point.load : Point → Nat
  | .watchChecking => 13
  | .checking _ => 12
  | .allocating _ => 11
  | .inserting _ _ => 10
  | .sending _ _ => 9
  | .withdrawing _ | .awaiting _ => 5
  | .marking => 4
  | .registering => 3
  | .confirming => 2
  | .idle | .returned _ | .watching | .refused | .cancelled => 0

def Writer.load : Writer → Nat
  | .sending _ => 5
  | .receiving => 4
  | .dying => 3
  | .closing => 2
  | .dropping => 1
  | .exited => 0

def Reader.load : Reader → Nat
  | .routing _ => 7
  | .answering _ _ => 6
  | .receiving => 5
  | .dying => 4
  | .closing => 3
  | .clearing => 2
  | .ending => 1
  | .finished => 0

def State.calls (state : State) : Nat :=
  ∑ index ∈ Finset.range state.total, (state.callers index).point.load

def State.threads (state : State) : Nat :=
  2 * state.queue.length + state.writer.load + (3 * state.down.length + state.reader.load)

theorem resume_load (watch : Bool) (answer : Option Answer) :
    (resume watch answer).load ≤ 4 :=
  resume_induction (motive := fun point => point.load ≤ 4) le_rfl (Nat.zero_le _)
    (fun _ => Nat.zero_le _) watch answer

/-- A caller's action brings its call closer to the end, by more than it gives
the writer thread to do. -/
theorem load_of_callerMoves {state next : State} {index : Nat}
    (moves : CallerMoves state index next) :
    (next.callers index).point.load + 2 * next.queue.length <
      (state.callers index).point.load + 2 * state.queue.length := by
  cases moves with
  | foundDead op point | withdrawn id point | answered id answer point
  | orphaned id point =>
      rw [moveTo_callers_self, point]
      exact Nat.add_lt_add_right ((resume_load _ _).trans_lt (by simp [Point.load])) _
  | started point | notStarted point | foundAlive op point | allocated op point
  | inserted op id point | notSent op id point | marked point | registered point
  | raced point | confirmed point => simp [State.moveTo, point, Point.load]
  | sent op id point =>
      simp [point, Point.load]
      omega

theorem calls_of_callerMoves {state next : State} {index : Nat} (known : index < state.total)
    (moves : CallerMoves state index next) :
    next.calls + (state.callers index).point.load =
      state.calls + (next.callers index).point.load := by
  have member : index ∈ Finset.range state.total := Finset.mem_range.mpr known
  have others : ∑ other ∈ (Finset.range state.total).erase index,
        (next.callers other).point.load =
      ∑ other ∈ (Finset.range state.total).erase index, (state.callers other).point.load := by
    refine Finset.sum_congr rfl fun other present => ?_
    rw [moves.callers_of_ne (Finset.ne_of_mem_erase present)]
  rw [State.calls, State.calls, moves.total_eq, ← Finset.add_sum_erase _ _ member,
    ← Finset.add_sum_erase _ _ member, others]
  omega

theorem known_of_callerMoves {state next : State} {index : Nat} (once : OneFrame state)
    (moves : CallerMoves state index next) : index < state.total := by
  by_contra beyond
  have busy := moves.settled_eq_false
  rw [once.fresh index (Nat.le_of_not_lt beyond)] at busy
  exact absurd busy (by decide)

theorem calls_of_readerMoves {state next : State} (moves : ReaderMoves state next) :
    next.calls = state.calls := by
  have same : next.total = state.total := by cases moves <;> rfl
  rw [State.calls, State.calls, same]
  exact Finset.sum_congr rfl fun index _ => by rw [moves.point_eq]

theorem threads_of_callerMoves {state next : State} {index : Nat}
    (moves : CallerMoves state index next) :
    next.threads + 2 * state.queue.length = state.threads + 2 * next.queue.length := by
  have rest : next.writer = state.writer ∧ next.down = state.down ∧
      next.reader = state.reader := by
    cases moves <;> exact ⟨rfl, rfl, rfl⟩
  rw [State.threads, State.threads, rest.1, rest.2.1, rest.2.2]
  omega

theorem threads_of_writerMoves {state next : State} (moves : WriterMoves state next) :
    next.threads < state.threads := by
  cases moves with
  | took frame rest writer queue =>
      simp [State.threads, writer, queue, Writer.load]
      omega
  | hungUp writer | sent _ writer | marked writer | closed writer | dropped writer =>
      simp [State.threads, writer, Writer.load]
      try omega

theorem threads_of_readerMoves {state next : State} (moves : ReaderMoves state next) :
    next.threads < state.threads := by
  cases moves with
  | took response rest reader alive down =>
      simp only [State.threads, reader, down, Reader.load, List.length_cons]
      omega
  | garbled rest reader alive down =>
      simp only [State.threads, reader, down, Reader.load, List.length_cons]
      omega
  | pushed id message reader =>
      simp [State.threads, deliver, reader, Reader.load]
  | matched _ _ reader | unmatched _ reader | answered _ _ reader | marked reader
  | closed reader | cleared reader | ended reader =>
      simp [State.threads, reader, Reader.load]

theorem load_of_moves {state next : State} {label : Label} (once : OneFrame state)
    (own : label.Own) (moves : Moves state label next) :
    next.calls + next.threads < state.calls + state.threads := by
  cases moves with
  | caller index _ moves =>
      have call := calls_of_callerMoves (known_of_callerMoves once moves) moves
      have threads := threads_of_callerMoves moves
      have closer := load_of_callerMoves moves
      omega
  | writer _ moves =>
      have same : next.calls = state.calls := by cases moves <;> rfl
      rw [same]
      exact Nat.add_lt_add_left (threads_of_writerMoves moves) _
  | reader _ moves =>
      rw [calls_of_readerMoves moves]
      exact Nat.add_lt_add_left (threads_of_readerMoves moves) _
  | refused frame writer =>
      have fewer : ({ state with writer := .dying } : State).threads < state.threads := by
        simp [State.threads, writer, Writer.load]
      exact Nat.add_lt_add_left fewer _
  | failed reader =>
      have fewer : ({ state with reader := .dying } : State).threads < state.threads := by
        simp [State.threads, reader, Reader.load]
      exact Nat.add_lt_add_left fewer _
  | called | watched | cancelled | droppedReceiver | droppedClient | nodeReceived | nodeSent
  | closed => exact own.elim

theorem load_le (state : State) :
    state.calls + state.threads ≤
      13 * state.total + 2 * state.queue.length + 3 * state.down.length + 12 := by
  have calls : state.calls ≤ state.total * 13 := by
    have each : ∀ index ∈ Finset.range state.total, (state.callers index).point.load ≤ 13 := by
      intro index _
      cases (state.callers index).point <;> simp [Point.load]
    simpa [State.calls] using Finset.sum_le_card_nsmul _ _ _ each
  have writer : state.writer.load ≤ 5 := by
    cases state.writer <;> simp [Writer.load]
  have reader : state.reader.load ≤ 7 := by
    cases state.reader <;> simp [Reader.load]
  rw [State.threads]
  omega

/-- The writer thread still passes frames on. -/
def Writer.carries : Writer → Bool
  | .receiving | .sending _ => true
  | .dying | .closing | .dropping | .exited => false

/-- What the threads have done by the points they have reached, and where the
requests are of the operations that wait. -/
structure Threaded (state : State) : Prop where
  reader : state.reader = .clearing ∨ state.reader.drained = true → state.closed = true
  writer : state.writer = .dropping ∨ state.writer = .exited → state.closed = true
  carried : state.writer.carries = true → ∀ index id,
    (state.callers index).point = .awaiting id → ∃ op, ⟨⟨id, op⟩, index⟩ ∈ state.frames

theorem threaded_initial : Threaded initial where
  reader := by simp [initial, Reader.drained]
  writer := by simp [initial]
  carried _ _ _ point := by simp [initial, newCaller] at point

theorem frames_subset_of_moves {state next : State} {label : Label}
    (moves : Moves state label next) (carries : next.writer.carries = true) :
    state.frames ⊆ next.frames ∧ state.writer.carries = true := by
  cases moves with
  | caller index _ moves =>
      cases moves with
      | sent op id point alive =>
          refine ⟨fun frame member => ?_, carries⟩
          simp only [State.frames, State.moveTo, List.mem_append, List.mem_singleton] at member ⊢
          tauto
      | started | notStarted | foundDead | foundAlive | allocated | inserted | notSent
      | withdrawn | answered | orphaned | marked | registered | raced | confirmed =>
          exact ⟨List.Subset.refl _, carries⟩
  | writer _ moves =>
      cases moves with
      | took frame rest writer queue =>
          refine ⟨fun other member => ?_, by simp [writer, Writer.carries]⟩
          simp only [State.frames, writer, queue, Writer.held, List.mem_append, List.mem_cons,
            List.not_mem_nil] at member ⊢
          tauto
      | sent frame writer alive =>
          refine ⟨fun other member => ?_, by simp [writer, Writer.carries]⟩
          simp only [State.frames, writer, Writer.held, List.mem_append, List.mem_cons,
            List.not_mem_nil] at member ⊢
          tauto
      | hungUp | marked | closed | dropped => simp [Writer.carries] at carries
  | reader _ moves => cases moves <;> exact ⟨List.Subset.refl _, carries⟩
  | refused => simp [Writer.carries] at carries
  | nodeReceived frame rest up =>
      refine ⟨fun other member => ?_, carries⟩
      simp only [State.frames, up, List.mem_append, List.mem_cons, List.not_mem_nil] at member ⊢
      tauto
  | called | watched | cancelled | droppedReceiver | droppedClient | failed | nodeSent
  | closed => exact ⟨List.Subset.refl _, carries⟩

theorem mem_frames_of_awaiting {state next : State} {index : Nat}
    (moves : CallerMoves state index next) {id : UInt64}
    (point : (next.callers index).point = .awaiting id) :
    ∃ op, ⟨⟨id, op⟩, index⟩ ∈ next.frames := by
  cases moves with
  | sent op own before alive =>
      obtain rfl : own = id := by simpa using point
      exact ⟨op, by simp [State.frames]⟩
  | foundDead | withdrawn | answered | orphaned =>
      exact absurd (by simpa using point) (resume_ne_awaiting _ _ id)
  | started | notStarted | foundAlive | allocated | inserted | notSent | marked | registered
  | raced | confirmed => simp at point

theorem threaded_of_moves {state next : State} {label : Label} (threaded : Threaded state)
    (moves : Moves state label next) : Threaded next where
  reader shut := by
    cases moves with
    | caller _ _ moves =>
        rw [moves.reader_eq] at shut
        cases moves <;> exact threaded.reader shut
    | writer _ moves => cases moves <;> first | exact threaded.reader shut | rfl
    | reader _ moves =>
        cases moves with
        | closed => rfl
        | cleared reader => exact threaded.reader (.inl reader)
        | ended reader => exact threaded.reader (.inr (by rw [reader]; rfl))
        | took | garbled | pushed | matched | unmatched | answered | marked =>
            simp [Reader.drained] at shut
    | failed => simp [Reader.drained] at shut
    | closed => rfl
    | called | watched | cancelled | droppedReceiver | refused | nodeReceived | droppedClient
    | nodeSent => exact threaded.reader shut
  writer gone := by
    cases moves with
    | caller _ _ moves => cases moves <;> exact threaded.writer gone
    | writer _ moves =>
        cases moves with
        | closed => rfl
        | dropped writer => exact threaded.writer (.inl writer)
        | took | hungUp | sent | marked => simp at gone
    | reader _ moves => cases moves <;> first | exact threaded.writer gone | rfl
    | refused => simp at gone
    | closed => rfl
    | called | watched | cancelled | droppedReceiver | nodeReceived | droppedClient | failed
    | nodeSent => exact threaded.writer gone
  carried carries index id point := by
    obtain ⟨subset, before⟩ := frames_subset_of_moves moves carries
    cases moves.place index with
    | kept _ same =>
        obtain ⟨op, member⟩ := threaded.carried before index id (same ▸ point)
        exact ⟨op, subset member⟩
    | moved action => exact mem_frames_of_awaiting action point
    | cancelled _ _ after => simp [after] at point
    | called op fresh place | watched fresh place => simp [place, newCaller] at point

theorem threaded_of_execute {trace : List Label} {state : State}
    (reached : execute step initial trace = some state) : Threaded state :=
  stateInvariant_of_execute Threaded threaded_initial
    (fun _ _ _ threaded stepped => threaded_of_moves threaded (moves_of_step stepped)) reached

/-- A call that cannot go on is over, or it waits for an answer. -/
theorem settled_or_waiting {state : State} {index : Nat}
    (still : stepCaller state index = none) :
    (state.callers index).point.settled = true ∨
      ∃ id, (state.callers index).point = .awaiting id ∧ (state.callers index).answer = none ∧
        state.senderHeld index = true := by
  cases point : (state.callers index).point with
  | idle | returned | watching | refused | cancelled => exact .inl rfl
  | awaiting id =>
      cases answer : (state.callers index).answer with
      | some value => simp [stepCaller, point, answer] at still
      | none =>
          cases held : state.senderHeld index with
          | true => exact .inr ⟨id, rfl, rfl, rfl⟩
          | false => simp [stepCaller, point, answer, held] at still
  | sending op id =>
      simp only [stepCaller, point] at still
      split at still <;> simp at still
  | confirming =>
      simp only [stepCaller, point] at still
      split at still <;> simp at still
  | watchChecking | checking | allocating | inserting | withdrawing | marking | registering =>
      simp [stepCaller, point] at still

variable {ring : Ring Frame}

variable (ring) in
/-- How the threads rest. -/
inductive ThreadsRest (state : State) : Prop
  | alive (alive : state.closed = false) (reader : state.reader = .receiving)
      (down : state.down = [])
      (writer : state.writer = .receiving ∧ state.queue = [] ∨ WaitsForRoom ring state)
  | closed (closed : state.closed = true) (reader : state.reader = .finished)
      (writer : state.writer = .exited ∨ state.writer = .receiving ∧ state.queue = [])

theorem reader_of_idle {state : State} (idle : stepReader state = none) :
    state.reader = .receiving ∧ (state.closed = false → state.down = []) ∨
      state.reader = .finished := by
  cases reader : state.reader with
  | receiving =>
      refine .inl ⟨rfl, fun alive => ?_⟩
      simp only [stepReader, reader, alive] at idle
      cases down : state.down with
      | nil => rfl
      | cons frame later => cases frame <;> simp [down] at idle
  | finished => exact .inr rfl
  | routing | answering | dying | closing | clearing | ending =>
      simp [stepReader, reader] at idle

theorem writer_of_idle {state : State} (idle : stepWriter state = none) :
    state.writer = .receiving ∧ state.queue = [] ∨
      (∃ frame, state.writer = .sending frame ∧ state.closed = true) ∨ state.writer = .exited := by
  cases writer : state.writer with
  | receiving =>
      refine .inl ⟨rfl, ?_⟩
      cases queue : state.queue with
      | nil => rfl
      | cons frame later => simp [stepWriter, writer, queue] at idle
  | sending frame =>
      refine .inr (.inl ⟨frame, rfl, ?_⟩)
      simpa [stepWriter, writer] using idle
  | exited => exact .inr (.inr rfl)
  | dying | closing | dropping => simp [stepWriter, writer] at idle

theorem threadsRest_of_atRest {state : State} (threaded : Threaded state)
    (rest : AtRest ring state) : ThreadsRest ring state := by
  have reading := reader_of_idle (rest .reader trivial)
  cases closed : state.closed with
  | false =>
      rcases reading with ⟨reader, nothing⟩ | reader
      case inr =>
          have shut := threaded.reader (.inr (by rw [reader]; rfl))
          simp [closed] at shut
      refine .alive closed reader (nothing closed) ?_
      by_cases waits : WaitsForRoom ring state
      case pos => exact .inr waits
      case neg =>
          rcases writer_of_idle (rest .writer waits) with idle | ⟨frame, -, shut⟩ | exited
          · exact .inl idle
          · simp [closed] at shut
          · have shut := threaded.writer (.inr exited)
            simp [closed] at shut
  | true =>
      refine .closed closed ?_ ?_
      · rcases reading with ⟨reader, -⟩ | finished
        · have failing := rest .readerFailed closed
          simp [step, reader] at failing
        · exact finished
      · have notSending : ∀ frame, state.writer ≠ .sending frame := by
          intro frame writer
          -- The ring is closed, so the send fails whether there is room or not.
          have refusing := rest .writerRefused closed
          simp [step, writer] at refusing
        have writing : stepWriter state = none := by
          refine rest .writer ?_
          rintro ⟨frame, writer, -⟩
          exact notSending frame writer
        rcases writer_of_idle writing with idle | ⟨frame, writer, -⟩ | exited
        · exact .inr idle
        · exact absurd writer (notSending frame)
        · exact .inl exited

variable (ring) in
/-- The lane at rest after a run. -/
structure Rested (trace : List Label) (state : State) : Prop where
  threads : ThreadsRest ring state
  room : WaitsForRoom ring state → state.up ≠ []
  waiting : ∀ index, (state.callers index).point.settled = false →
    ∃ id, (state.callers index).point = .awaiting id ∧ SenderPending state index
  carried : state.closed = false → ∀ index id, (state.callers index).point = .awaiting id →
    ∃ op, ⟨⟨id, op⟩, index⟩ ∈ state.up ++ state.received ∨
      WaitsForRoom ring state ∧ ⟨⟨id, op⟩, index⟩ ∈ state.writer.held ++ state.queue
  ended : state.closed = true → ∀ index, (state.callers index).point = .watching →
    index ∉ state.subscribers
  settled : state.closed = true →
    EveryStep step (fun state label => ¬ LateSend state label) initial trace →
      ∀ index, (state.callers index).point.settled = true

theorem rested_of_atRest {trace : List Label} {state : State}
    (reached : execute step initial trace = some state) (rest : AtRest ring state) :
    Rested ring trace state := by
  have threaded := threaded_of_execute reached
  have threads := threadsRest_of_atRest threaded rest
  have notAnswering : ∀ caller answer, state.reader ≠ .answering caller answer := by
    intro caller answer
    cases threads with
    | alive _ reader => simp [reader]
    | closed _ reader => simp [reader]
  have waiting : ∀ index, (state.callers index).point.settled = false →
      ∃ id, (state.callers index).point = .awaiting id ∧ SenderPending state index := by
    intro index busy
    rcases settled_or_waiting (rest (.caller index) trivial) with done | ⟨id, point, -, held⟩
    · simp [done] at busy
    · rcases senderHeld_iff.mp held with pending | ⟨answer, reader⟩
      · exact ⟨id, point, pending⟩
      · exact absurd reader (notAnswering index answer)
  refine ⟨threads, ?_, waiting, ?_, ?_, ?_⟩
  · rintro ⟨frame, -, waits⟩
    exact Ring.ne_nil_of_waits waits
  · intro alive index id point
    cases threads with
    | closed shut => simp [alive] at shut
    | alive _ _ _ writes =>
        rcases writes with ⟨writer, queue⟩ | waits
        · obtain ⟨op, member⟩ :=
            threaded.carried (by simp [writer, Writer.carries]) index id point
          exact ⟨op, .inl (by simpa [State.frames, writer, queue, Writer.held] using member)⟩
        · have carries : state.writer.carries = true := by
            obtain ⟨frame, writer, -⟩ := waits
            simp [writer, Writer.carries]
          obtain ⟨op, member⟩ := threaded.carried carries index id point
          refine ⟨op, ?_⟩
          simp only [State.frames, List.mem_append] at member ⊢
          tauto
  · intro shut index watching
    cases threads with
    | alive alive => simp [alive] at shut
    | closed _ reader => exact (ended_of_execute reached).gone reader index watching
  · intro shut onTime index
    cases threads with
    | alive alive => simp [alive] at shut
    | closed _ reader =>
        by_contra busy
        obtain ⟨id, point, pending⟩ := waiting index (by simpa using busy)
        exact drained_of_execute onTime reached (by rw [reader]; rfl) index ⟨⟨id, point⟩, pending⟩

/-- After every run the lane comes to rest by itself. -/
theorem rests_of_execute (ring : Ring Frame) {trace later : List Label} {state final : State}
    (reached : execute step initial trace = some state)
    (own : ∀ label ∈ later, label.Own) (continued : execute step state later = some final) :
    later.length ≤ 13 * state.total + 2 * state.queue.length + 3 * state.down.length + 12 ∧
      (AtRest ring final → Rested ring (trace ++ later) final) := by
  have whole : execute step initial (trace ++ later) = some final :=
    execute_append_eq_some.mpr ⟨state, reached, continued⟩
  have bound := length_add_measure_le_of_everyStep (fun _ label => label.Own) OneFrame
    (fun state => state.calls + state.threads) (streaming_of_execute reached).once
    (fun _ _ _ once _ stepped => oneFrame_of_moves once (moves_of_step stepped))
    (fun _ _ _ once own stepped => load_of_moves once own (moves_of_step stepped))
    (everyStep_of_forall_mem own state) continued
  have most := load_le state
  exact ⟨by omega, rested_of_atRest whole⟩

/-- The ring that `bind` asks for. -/
def slots : Ring Frame :=
  .slots 64 (Nat.succ_pos 63)

/-- The lane closes with a request on its way to the node and a stream open. -/
def interrupted : List Label :=
  watchRun ++ [.reader, .reader, .caller 0, .caller 0, .caller 0, .caller 0,
    .call .status, .caller 1, .caller 1, .caller 1, .caller 1, .close]

def windingDown : List Label :=
  [.readerFailed, .reader, .reader, .reader, .reader, .writer, .writerRefused, .writer, .writer,
    .writer, .caller 1]

theorem rests_of_execute_interrupted :
    let state := (execute step initial interrupted).get (by decide)
    let final := (execute step state windingDown).get (by decide)
    (final.callers 0).point = .watching ∧ (final.callers 1).point = .returned none ∧
      Rested slots (interrupted ++ windingDown) final := by
  intro state final
  have reached : execute step initial interrupted = some state := (Option.some_get _).symm
  have continued : execute step state windingDown = some final := (Option.some_get _).symm
  have rest : AtRest slots final := by
    intro label due
    cases label with
    | caller index =>
        match index with
        | 0 | 1 | _ + 2 => rfl
    | writer | writerRefused | reader | readerFailed => rfl
    | call | watch | cancel | dropReceiver | dropClient | nodeReceive | nodeSend | close =>
        exact due.elim
  exact ⟨rfl, rfl, (rests_of_execute slots reached (by decide) continued).2 rest⟩

end CeRs.Lane
