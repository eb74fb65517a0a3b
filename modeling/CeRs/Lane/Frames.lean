import CeRs.Lane.Mux

/-!
# One frame for each operation

A caller puts its request into the channel at most once, and the channel, the
writer thread and the ring pass a frame on without copying it.  The node
therefore receives at most one frame of each caller.
-/

namespace CeRs.Lane

/-- The frame the writer thread has taken from the channel. -/
def Writer.held : Writer → List Frame
  | .sending frame => [frame]
  | _ => []

/-- All places a frame can be, in the order in which it passes them. -/
def State.frames (state : State) : List Frame :=
  state.queue ++ state.writer.held ++ state.up ++ state.received

/-- How many frames of the caller exist. -/
def State.framesOf (state : State) (index : Nat) : Nat :=
  state.frames.countP fun frame => frame.caller == index

/-- The caller has not put its request into the channel. -/
def Point.unsent : Point → Bool
  | .idle | .watchChecking | .checking _ | .allocating _ | .inserting _ _ | .sending _ _ => true
  | _ => false

/-- Each caller has at most one frame, and none before it sends. -/
structure OneFrame (state : State) : Prop where
  fresh : ∀ index, state.total ≤ index → (state.callers index).point = .idle
  atMostOne : ∀ index, state.framesOf index ≤ 1
  unsent : ∀ index, (state.callers index).point.unsent = true → state.framesOf index = 0

theorem resume_unsent (watch : Bool) (answer : Option Answer) :
    (resume watch answer).unsent = false :=
  resume_induction (motive := fun point => point.unsent = false) rfl rfl (fun _ => rfl) watch
    answer

namespace CallerMoves

variable {state next : State} {index : Nat}

theorem total_eq (moves : CallerMoves state index next) : next.total = state.total := by
  cases moves <;> rfl

theorem settled_eq_false (moves : CallerMoves state index next) :
    (state.callers index).point.settled = false := by
  cases moves with
  | started point | notStarted point | foundDead _ point | foundAlive _ point
  | allocated _ point | inserted _ _ point | sent _ _ point | notSent _ _ point
  | withdrawn _ point | answered _ _ point | orphaned _ point | marked point
  | registered point | raced point | confirmed point => rw [point]; rfl

theorem watch_eq (moves : CallerMoves state index next) (other : Nat) :
    (next.callers other).watch = (state.callers other).watch := by
  by_cases same : other = index
  · subst same
    cases moves <;> simp
  · rw [moves.callers_of_ne same]

/-- A caller's action adds nothing but, once, the frame it sends. -/
theorem framesOf_cases (moves : CallerMoves state index next) :
    ((∀ other, next.framesOf other = state.framesOf other) ∧
        ((next.callers index).point.unsent = true →
          (state.callers index).point.unsent = true)) ∨
      ((state.callers index).point.unsent = true ∧ (next.callers index).point.unsent = false ∧
        ∀ other, next.framesOf other = state.framesOf other + if index = other then 1 else 0) := by
  cases moves with
  | sent op id point alive =>
      refine .inr ⟨by rw [point]; rfl, by simp [Point.unsent], fun other => ?_⟩
      simp only [State.framesOf, State.frames, State.moveTo, List.countP_append,
        List.countP_cons, List.countP_nil, beq_iff_eq]
      omega
  | foundDead | withdrawn | answered | orphaned =>
      exact .inl ⟨fun _ => rfl, fun unsent => by simp [resume_unsent] at unsent⟩
  | started point | notStarted point | foundAlive _ point | allocated _ point
  | inserted _ _ point =>
      exact .inl ⟨fun _ => rfl, fun _ => by rw [point]; rfl⟩
  | notSent | marked | registered | raced | confirmed =>
      exact .inl ⟨fun _ => rfl, fun unsent => by simp [Point.unsent] at unsent⟩

end CallerMoves

theorem oneFrame_of_callerMoves {state next : State} {index : Nat} (once : OneFrame state)
    (moves : CallerMoves state index next) : OneFrame next := by
  have fresh : ∀ other, next.total ≤ other → (next.callers other).point = .idle := by
    intro other beyond
    have idle := once.fresh other (moves.total_eq ▸ beyond)
    by_cases same : other = index
    · have busy := moves.settled_eq_false
      rw [← same, idle] at busy
      exact absurd busy (by decide)
    · rw [moves.callers_of_ne same]
      exact idle
  rcases moves.framesOf_cases with ⟨frames, before⟩ | ⟨before, after, frames⟩
  · refine ⟨fresh, fun other => frames other ▸ once.atMostOne other, fun other unsent => ?_⟩
    rw [frames]
    by_cases same : other = index
    · subst same
      exact once.unsent other (before unsent)
    · rw [moves.callers_of_ne same] at unsent
      exact once.unsent other unsent
  · refine ⟨fresh, fun other => ?_, fun other unsent => ?_⟩
    · rw [frames]
      split
      case isTrue same =>
          subst same
          rw [once.unsent index before]
      case isFalse => exact once.atMostOne other
    · by_cases same : other = index
      · subst same
        rw [after] at unsent
        exact absurd unsent Bool.false_ne_true
      · rw [moves.callers_of_ne same] at unsent
        rw [frames, if_neg (Ne.symm same), once.unsent other unsent]

theorem OneFrame.of_le {state next : State} (once : OneFrame state)
    (total : next.total = state.total)
    (points : ∀ index, (next.callers index).point = (state.callers index).point)
    (frames : ∀ index, next.framesOf index ≤ state.framesOf index) : OneFrame next where
  fresh index beyond := by
    rw [points]
    exact once.fresh index (total ▸ beyond)
  atMostOne index := (frames index).trans (once.atMostOne index)
  unsent index unsent := by
    rw [points] at unsent
    exact Nat.le_zero.mp (once.unsent index unsent ▸ frames index)

theorem oneFrame_of_writerMoves {state next : State} (once : OneFrame state)
    (moves : WriterMoves state next) : OneFrame next := by
  cases moves with
  | took frame rest writer queue =>
      apply once.of_le
      · exact rfl
      · exact fun _ => rfl
      · intro index
        simp [State.framesOf, State.frames, writer, queue, Writer.held, List.countP_cons]
        omega
  | sent frame writer alive =>
      apply once.of_le
      · exact rfl
      · exact fun _ => rfl
      · intro index
        simp [State.framesOf, State.frames, writer, Writer.held, List.countP_cons]
        omega
  | hungUp writer | marked writer | closed writer | dropped writer =>
      apply once.of_le
      · exact rfl
      · exact fun _ => rfl
      · intro index
        simp [State.framesOf, State.frames, writer, Writer.held]

theorem ReaderMoves.point_eq {state next : State} (moves : ReaderMoves state next)
    (index : Nat) : (next.callers index).point = (state.callers index).point := by
  cases moves with
  | pushed id message reader =>
      obtain ⟨inbox, kept⟩ := deliver_callers state message index
      simp [kept]
  | answered caller answer reader =>
      by_cases same : index = caller
      · simp [same]
      · simp [same]
  | took | garbled | matched | unmatched | marked | closed | cleared | ended => rfl

theorem ReaderMoves.watch_eq {state next : State} (moves : ReaderMoves state next)
    (index : Nat) : (next.callers index).watch = (state.callers index).watch := by
  cases moves with
  | pushed id message reader =>
      obtain ⟨inbox, kept⟩ := deliver_callers state message index
      simp [kept]
  | answered caller answer reader =>
      by_cases same : index = caller
      · simp [same]
      · simp [same]
  | took | garbled | matched | unmatched | marked | closed | cleared | ended => rfl

/-- Everything a step can do to the place of one caller. -/
inductive PlaceMoves (state : State) (index : Nat) (next : State) : Label → Prop
  | kept (label : Label) (point : (next.callers index).point = (state.callers index).point)
      (watch : (next.callers index).watch = (state.callers index).watch) :
      PlaceMoves state index next label
  | moved (moves : CallerMoves state index next) : PlaceMoves state index next (.caller index)
  | cancelled (id : UInt64) (before : (state.callers index).point = .awaiting id)
      (point : (next.callers index).point = .cancelled)
      (watch : (next.callers index).watch = (state.callers index).watch) :
      PlaceMoves state index next (.cancel index)
  | called (op : NodeOp) (fresh : index = state.total)
      (place : next.callers index = newCaller false (.checking op)) :
      PlaceMoves state index next (.call op)
  | watched (fresh : index = state.total)
      (place : next.callers index = newCaller true .watchChecking) :
      PlaceMoves state index next .watch

theorem Moves.place {state next : State} {label : Label} (moves : Moves state label next)
    (index : Nat) : PlaceMoves state index next label := by
  cases moves with
  | caller other _ moves =>
      by_cases same : index = other
      · subst same
        exact .moved moves
      · have still := moves.callers_of_ne same
        exact .kept _ (by rw [still]) (by rw [still])
  | called op =>
      by_cases same : index = state.total
      · exact .called op same (by simp [same])
      · exact .kept _ (by simp [same]) (by simp [same])
  | watched =>
      by_cases same : index = state.total
      · exact .watched same (by simp [same])
      · exact .kept _ (by simp [same]) (by simp [same])
  | cancelled other id point =>
      by_cases same : index = other
      · subst same
        exact .cancelled id point (by simp) (by simp)
      · exact .kept _ (by simp [same]) (by simp [same])
  | droppedReceiver other point =>
      by_cases same : index = other
      · exact .kept _ (by simp [same]) (by simp [same])
      · exact .kept _ (by simp [same]) (by simp [same])
  | reader _ moves => exact .kept _ (moves.point_eq index) (moves.watch_eq index)
  | writer _ moves => exact .kept _ (by cases moves <;> rfl) (by cases moves <;> rfl)
  | refused | nodeReceived | droppedClient | failed | nodeSent | closed => exact .kept _ rfl rfl

theorem oneFrame_of_readerMoves {state next : State} (once : OneFrame state)
    (moves : ReaderMoves state next) : OneFrame next := by
  refine once.of_le ?_ moves.point_eq fun index => ?_
  · cases moves <;> rfl
  · cases moves <;> exact le_rfl

theorem oneFrame_of_started {state : State} (once : OneFrame state) (watch : Bool)
    (point : Point) :
    OneFrame { state with
      total := state.total + 1
      callers := Function.update state.callers state.total (newCaller watch point) } where
  fresh index beyond := by
    have other : index ≠ state.total := by
      rintro rfl
      exact absurd beyond (Nat.not_succ_le_self _)
    simpa [other] using once.fresh index (Nat.le_of_succ_le beyond)
  atMostOne := once.atMostOne
  unsent index unsent := by
    by_cases same : index = state.total
    · exact once.unsent index (by rw [same, once.fresh state.total le_rfl]; rfl)
    · exact once.unsent index (by simpa [same] using unsent)

theorem oneFrame_of_moves {state next : State} {label : Label} (once : OneFrame state)
    (moves : Moves state label next) : OneFrame next := by
  cases moves with
  | caller index _ moves => exact oneFrame_of_callerMoves once moves
  | writer _ moves => exact oneFrame_of_writerMoves once moves
  | reader _ moves => exact oneFrame_of_readerMoves once moves
  | called op => exact oneFrame_of_started once false (.checking op)
  | watched => exact oneFrame_of_started once true .watchChecking
  | cancelled caller id waiting =>
      have known : ¬ state.total ≤ caller := by
        intro beyond
        simp [once.fresh caller beyond] at waiting
      refine ⟨fun index beyond => ?_, once.atMostOne, fun index unsent => ?_⟩
      · have other : index ≠ caller := fun same => known (same ▸ beyond)
        simpa [other] using once.fresh index beyond
      · by_cases same : index = caller
        · simp [same, Point.unsent] at unsent
        · exact once.unsent index (by simpa [same] using unsent)
  | droppedReceiver caller watching =>
      refine once.of_le rfl (fun index => ?_) fun index => le_rfl
      by_cases same : index = caller
      · simp [same]
      · simp [same]
  | refused frame writer =>
      apply once.of_le
      · exact rfl
      · exact fun _ => rfl
      · intro index
        simp [State.framesOf, State.frames, writer, Writer.held, List.countP_cons]
  | nodeReceived frame rest up =>
      apply once.of_le
      · exact rfl
      · exact fun _ => rfl
      · intro index
        simp [State.framesOf, State.frames, up, List.countP_cons]
        omega
  | droppedClient | failed | nodeSent | closed =>
      exact once.of_le rfl (fun _ => rfl) fun index => le_rfl

/-- A frame that is new comes from a caller that was about to send it. -/
theorem mem_frames_of_moves {state next : State} {label : Label} (moves : Moves state label next)
    {frame : Frame} (member : frame ∈ next.frames) :
    frame ∈ state.frames ∨
      (state.callers frame.caller).point = .sending frame.request.op frame.request.id := by
  cases moves with
  | caller index _ moves =>
      cases moves with
      | sent op id point alive =>
          simp only [State.frames, State.moveTo, List.mem_append, List.mem_singleton] at member ⊢
          rcases member with (((old | rfl) | held) | up) | received
          · exact .inl (.inl (.inl (.inl old)))
          · exact .inr point
          · exact .inl (.inl (.inl (.inr held)))
          · exact .inl (.inl (.inr up))
          · exact .inl (.inr received)
      | started | notStarted | foundDead | foundAlive | allocated | inserted | notSent
      | withdrawn | answered | orphaned | marked | registered | raced | confirmed =>
          exact .inl member
  | writer _ moves =>
      left
      cases moves with
      | took frame rest writer queue =>
          simp only [State.frames, writer, queue, Writer.held, List.mem_append, List.mem_cons,
            List.not_mem_nil] at member ⊢
          tauto
      | sent frame writer alive =>
          simp only [State.frames, writer, Writer.held, List.mem_append, List.mem_cons,
            List.not_mem_nil] at member ⊢
          tauto
      | hungUp writer | marked writer | closed writer | dropped writer =>
          simp only [State.frames, writer, Writer.held, List.mem_append, List.not_mem_nil]
            at member ⊢
          tauto
  | reader _ moves => cases moves <;> exact .inl member
  | refused sending writer =>
      left
      simp only [State.frames, writer, Writer.held, List.mem_append, List.not_mem_nil] at member ⊢
      tauto
  | nodeReceived taken rest up =>
      left
      simp only [State.frames, up, List.mem_append, List.mem_cons, List.not_mem_nil] at member ⊢
      tauto
  | called | watched | cancelled | droppedReceiver | droppedClient | failed | nodeSent
  | closed => exact .inl member

theorem oneFrame_initial : OneFrame initial where
  fresh _ _ := rfl
  atMostOne _ := Nat.zero_le 1
  unsent _ _ := rfl

theorem OneFrame.received_le_one {state : State} (once : OneFrame state) (index : Nat) :
    state.received.countP (fun frame => frame.caller == index) ≤ 1 := by
  refine le_trans ?_ (once.atMostOne index)
  simp only [State.framesOf, State.frames, List.countP_append]
  exact Nat.le_add_left _ _

theorem total_le_of_moves {state next : State} {label : Label}
    (moves : Moves state label next) : state.total ≤ next.total := by
  cases moves with
  | caller _ _ moves => exact moves.total_eq.ge
  | writer _ moves => cases moves <;> exact le_rfl
  | reader _ moves => cases moves <;> exact le_rfl
  | called | watched => exact Nat.le_succ _
  | cancelled | droppedReceiver | refused | nodeReceived | droppedClient | failed | nodeSent
  | closed => exact le_rfl

theorem dead_of_moves {state next : State} {label : Label} (moves : Moves state label next)
    (dead : state.dead = true) : next.dead = true := by
  cases moves with
  | caller _ _ moves => cases moves <;> exact dead
  | writer _ moves => cases moves <;> first | exact dead | rfl
  | reader _ moves => cases moves <;> first | exact dead | rfl
  | called | watched | cancelled | droppedReceiver | refused | nodeReceived | droppedClient
  | failed | nodeSent | closed => exact dead

theorem returned_of_moves {state next : State} {label : Label}
    (moves : Moves state label next) {index : Nat} {answer : Option Answer}
    (known : index < state.total) (returned : (state.callers index).point = .returned answer) :
    (next.callers index).point = .returned answer := by
  cases moves.place index with
  | kept _ point => exact point.trans returned
  | moved action =>
      have busy := action.settled_eq_false
      simp [returned, Point.settled] at busy
  | cancelled id before => simp [returned] at before
  | called op fresh | watched fresh => exact absurd fresh known.ne

end CeRs.Lane
