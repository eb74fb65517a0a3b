import CeRs.Lane.Mux
import CeRs.Transition

/-!
# Waiting operations after the lane's death

The reader's drain drops the senders that are pending at that moment.  A
caller that passed the check of the dead flag earlier puts its own sender in
afterwards, and as long as the writer thread has not dropped the receiving end
of its channel the request is accepted.  No thread is left that would remove
the sender, so its operation waits forever.  This file shows that such a late
send is the only way to strand an operation.
-/

namespace CeRs.Lane

open Transition

/-- The reader thread has dropped the pending senders. -/
def Reader.drained : Reader → Bool
  | .ending | .finished => true
  | _ => false

/-- The caller's oneshot sender is in the pending map. -/
def SenderPending (state : State) (index : Nat) : Prop :=
  ∃ entry ∈ state.pending, entry.2 = index

/-- The operation awaits a oneshot whose sender is held in `pending`. -/
def Stranded (state : State) (index : Nat) : Prop :=
  (∃ id, (state.callers index).point = .awaiting id) ∧ SenderPending state index

/-- The next action of the caller puts its request into the channel. -/
def Point.isSending : Point → Bool
  | .sending _ _ => true
  | _ => false

/-- A request enters the channel after the drain, its sender being pending. -/
def LateSend (state : State) : Label → Prop
  | .caller index =>
      (state.callers index).point.isSending = true ∧ state.reader.drained = true ∧
        state.receiverAlive = true ∧ ∃ entry ∈ state.pending, entry.2 = index
  | _ => False

instance (state : State) : DecidablePred (LateSend state)
  | .caller _ => inferInstanceAs (Decidable (_ ∧ _ ∧ _ ∧ _))
  | .call _ | .watch | .cancel _ | .dropReceiver _ | .dropClient | .writer | .writerRefused
  | .reader | .readerFailed | .nodeReceive | .nodeSend _ | .close => isFalse id

/-- After the drain no operation is stranded. -/
def Drained (state : State) : Prop :=
  state.reader.drained = true → ∀ index, ¬ Stranded state index

/-- A caller's action strands nobody after the drain unless it sends late. -/
theorem drained_of_callerMoves {state next : State} {index : Nat} (drained : Drained state)
    (onTime : ¬ LateSend state (.caller index)) (moves : CallerMoves state index next) :
    Drained next := by
  rintro finished other ⟨⟨id, point⟩, entry, member, rfl⟩
  rw [moves.reader_eq] at finished
  by_cases same : entry.2 = index
  · subst same
    obtain ⟨⟨op, sending⟩, alive, pending⟩ := moves.sent_of_awaiting point
    rw [pending] at member
    exact onTime ⟨by rw [sending]; rfl, finished, alive, entry, member, rfl⟩
  · rw [moves.callers_of_ne same] at point
    exact drained finished entry.2 ⟨⟨id, point⟩, entry, moves.mem_pending member same, rfl⟩

/-- A step outside the callers that strands nobody: the pending map does not
grow, and every caller found waiting was waiting before. -/
theorem Drained.of_same {state next : State} (drained : Drained state)
    (reader : next.reader.drained = true → state.reader.drained = true)
    (pending : ∀ entry ∈ next.pending, entry ∈ state.pending)
    (points : ∀ index id, (next.callers index).point = .awaiting id →
      (state.callers index).point = .awaiting id) :
    Drained next := by
  rintro finished index ⟨⟨id, point⟩, entry, member, own⟩
  exact drained (reader finished) index
    ⟨⟨id, points index id point⟩, entry, pending entry member, own⟩

theorem drained_of_writerMoves {state next : State} (drained : Drained state)
    (moves : WriterMoves state next) : Drained next := by
  cases moves <;> exact drained

/-- The reader drains with an empty map, and before that nothing is promised. -/
theorem drained_of_readerMoves {state next : State} (drained : Drained state)
    (moves : ReaderMoves state next) : Drained next := by
  cases moves with
  | cleared reader =>
      rintro - index ⟨-, entry, member, -⟩
      simp at member
  | ended reader =>
      refine drained.of_same (fun _ => by simp [reader, Reader.drained])
        (fun _ member => member) fun _ _ point => point
  | took | garbled | pushed | matched | unmatched | answered | marked | closed =>
      intro finished
      simp [Reader.drained] at finished

theorem drained_of_moves {state next : State} {label : Label} (drained : Drained state)
    (onTime : ¬ LateSend state label) (moves : Moves state label next) : Drained next := by
  cases moves with
  | caller index _ moves => exact drained_of_callerMoves drained onTime moves
  | writer _ moves => exact drained_of_writerMoves drained moves
  | reader _ moves => exact drained_of_readerMoves drained moves
  | called | watched =>
      apply drained.of_same
      · exact id
      · exact fun _ member => member
      · intro index id point
        by_cases fresh : index = state.total
        · simp [fresh, newCaller] at point
        · simpa [fresh] using point
  | cancelled caller own waiting =>
      apply drained.of_same
      · exact id
      · exact fun _ member => member
      · intro index id point
        by_cases same : index = caller
        · simp [same] at point
        · simpa [same] using point
  | droppedReceiver caller watching =>
      apply drained.of_same
      · exact id
      · exact fun _ member => member
      · intro index id point
        by_cases same : index = caller
        · simp [same, watching] at point
        · simpa [same] using point
  | failed reader =>
      intro finished
      simp [Reader.drained] at finished
  | droppedClient | refused | nodeReceived | nodeSent | closed => exact drained

/-- In a run without a late send nobody is stranded after the drain. -/
theorem drained_of_execute {trace : List Label} {final : State}
    (onTime : EveryStep step (fun state label => ¬ LateSend state label) initial trace)
    (reached : execute step initial trace = some final) : Drained final := by
  refine invariant_of_everyStep (fun state label => ¬ LateSend state label)
    (fun _ state => Drained state) ?_ ?_ onTime reached
  · intro finished
    simp [initial, Reader.drained] at finished
  · intro _ state label next drained punctual stepped
    exact drained_of_moves drained punctual (moves_of_step stepped)

/-- A late send strands its operation at once. -/
theorem stranded_of_lateSend {state next : State} {label : Label}
    (late : LateSend state label) (stepped : step state label = some next) :
    next.reader.drained = true ∧ ∃ index, Stranded next index := by
  cases label with
  | caller index =>
      obtain ⟨sending, finished, alive, pending⟩ := late
      cases point : (state.callers index).point with
      | sending op id =>
          have result : step state (.caller index) =
              some { state.moveTo index (.awaiting id) with
                queue := state.queue ++ [⟨⟨id, op⟩, index⟩] } := by
            simp [step, stepCaller, point, alive]
          obtain rfl := Option.some.inj (stepped.symm.trans result)
          exact ⟨finished, index, ⟨id, by simp⟩, pending⟩
      | _ => simp [point, Point.isSending] at sending
  | _ => exact late.elim

/-- What an operation that is still waiting resolves to: the node's answer if
it has been received, and `LaneGone` otherwise. -/
theorem stepCaller_of_not_stranded {state : State} {index : Nat} {id : UInt64}
    (finished : state.reader = .finished)
    (waiting : (state.callers index).point = .awaiting id)
    (free : ¬ Stranded state index) :
    stepCaller state index =
      some (state.moveTo index
        (resume (state.callers index).watch (state.callers index).answer)) := by
  cases value : (state.callers index).answer with
  | some answer => simp [stepCaller, waiting, value]
  | none =>
      have unheld : state.senderHeld index = false := by
        rw [Bool.eq_false_iff]
        intro held
        rcases senderHeld_iff.mp held with pending | ⟨answer, reader⟩
        · exact free ⟨⟨id, waiting⟩, pending⟩
        · simp [finished] at reader
      simp [stepCaller, waiting, value, unheld]

/-- In every run without a late send, once the reader thread has ended, and
whatever the writer thread does, no operation waits for a pending sender and
each that still waits resolves. -/
theorem none_stranded_of_onTime {trace : List Label} {final : State}
    (onTime : EveryStep step (fun state label => ¬ LateSend state label) initial trace)
    (reached : execute step initial trace = some final)
    (finished : final.reader = .finished) :
    (∀ index, ¬ Stranded final index) ∧
      ∀ index id, (final.callers index).point = .awaiting id →
        stepCaller final index =
          some (final.moveTo index
            (resume (final.callers index).watch (final.callers index).answer)) := by
  have free : ∀ index, ¬ Stranded final index :=
    drained_of_execute onTime reached (by rw [finished]; rfl)
  exact ⟨free, fun index id waiting => stepCaller_of_not_stranded finished waiting (free index)⟩

/-- The lane closes before the node takes the request. -/
def closingRun : List Label :=
  [.call .status, .caller 0, .caller 0, .caller 0, .caller 0, .close, .readerFailed,
    .reader, .reader, .reader, .reader, .writer, .writerRefused, .writer, .writer, .writer]

/-- The waiting operation of such a run resolves to `LaneGone`. -/
theorem none_stranded_of_onTime_closing :
    let final := (execute step initial closingRun).get (by decide)
    (final.callers 0).point = .awaiting 1 ∧ (∀ index, ¬ Stranded final index) ∧
      stepCaller final 0 = some (final.moveTo 0 (.returned none)) := by
  intro final
  have reached : execute step initial closingRun = some final := (Option.some_get _).symm
  obtain ⟨free, resolves⟩ := none_stranded_of_onTime
    (by decide : EveryStep step (fun state label => ¬ LateSend state label) initial closingRun)
    reached rfl
  exact ⟨rfl, free, resolves 0 1 rfl⟩

/-- The caller finds the lane alive, and the reader drains before its sender
is pending. -/
def strandingRun : List Label :=
  [.call .status, .caller 0, .caller 0, .close, .readerFailed, .reader, .reader, .reader,
    .reader, .caller 0, .caller 0, .writer, .writerRefused, .writer, .writer, .writer]

theorem operation_stranded :
    ¬ ∀ trace final, execute step initial trace = some final →
      final.reader = .finished → final.writer = .exited → ∀ index, ¬ Stranded final index := by
  intro claimed
  refine claimed strandingRun ((execute step initial strandingRun).get (by decide))
    (Option.some_get _).symm rfl rfl 0 ⟨⟨1, rfl⟩, (1, 0), ?_, rfl⟩
  exact List.mem_singleton_self _

end CeRs.Lane
