import Mathlib.Algebra.GroupWithZero.Nat
import Mathlib.Data.List.Forall2
import Mathlib.Data.List.Perm.Basic
import Mathlib.Tactic.Tauto

/-!
# Bounded concurrent jobs

A pool runs a list of jobs, at most a window of them at a time, and collects
their results until the first failure.  Each job makes one request to the
world, which may answer the requests in flight in any order.  An ordered pool
yields the results in the order of the jobs, an unordered one in any order.

The results below hold under every schedule: what each answer satisfies is kept
with its job, no schedule can be longer than three actions for each job, and a
pool that is not finished can always move.
-/

namespace CeRs.Buffered

variable {Job Result Error World : Type*}

/-- `inFlight` is in the order in which the jobs were started, with the answers
that have arrived. -/
structure Pool (Job Result Error : Type*) where
  todo : List Job
  inFlight : List (Job × Option (Except Error Result))
  out : List (Job × Result)
  failed : Option Error

/-- Start the next job, answer the request of a job in flight, or take an
answer out of the pool. -/
inductive Action
  | start
  | serve (slot : Nat)
  | yield (slot : Nat)
  deriving DecidableEq, Repr

def Pool.init (jobs : List Job) : Pool Job Result Error :=
  ⟨jobs, [], [], none⟩

/-- What collecting the results has come to, once it has come to an end. -/
def Pool.result (pool : Pool Job Result Error) : Option (Except Error (List Result)) :=
  match pool.failed, pool.todo, pool.inFlight with
  | some error, _, _ => some (.error error)
  | none, [], [] => some (.ok (pool.out.map Prod.snd))
  | none, _, _ => none

def step (ordered : Bool) (window : Nat) (run : World → Job → Except Error Result × World) :
    Pool Job Result Error × World → Action → Option (Pool Job Result Error × World)
  | (pool, world), .start =>
      match pool.failed, pool.todo with
      | none, job :: rest =>
          if pool.inFlight.length < window then
            some ({ pool with todo := rest, inFlight := pool.inFlight ++ [(job, none)] }, world)
          else none
      | _, _ => none
  | (pool, world), .serve slot =>
      match pool.failed, pool.inFlight[slot]? with
      | none, some (job, none) =>
          let served := run world job
          some ({ pool with inFlight := pool.inFlight.set slot (job, some served.1) }, served.2)
      | _, _ => none
  | (pool, world), .yield slot =>
      if ordered = true ∧ slot ≠ 0 then none
      else
        match pool.failed, pool.inFlight[slot]? with
        | none, some (job, some (.ok result)) =>
            some ({ pool with
              inFlight := pool.inFlight.eraseIdx slot
              out := pool.out ++ [(job, result)] }, world)
        | none, some (_, some (.error error)) =>
            some ({ pool with
              inFlight := pool.inFlight.eraseIdx slot
              failed := some error }, world)
        | _, _ => none

/-- Everything an action can do to a pool and its world. -/
inductive Moves (ordered : Bool) (window : Nat)
    (run : World → Job → Except Error Result × World) (pool : Pool Job Result Error)
    (world : World) : Pool Job Result Error → World → Prop
  | started (job : Job) (rest : List Job) (running : pool.failed = none)
      (todo : pool.todo = job :: rest) (room : pool.inFlight.length < window) :
      Moves ordered window run pool world
        { pool with todo := rest, inFlight := pool.inFlight ++ [(job, none)] } world
  | served (before after : List (Job × Option (Except Error Result))) (job : Job)
      (running : pool.failed = none) (inFlight : pool.inFlight = before ++ (job, none) :: after) :
      Moves ordered window run pool world
        { pool with inFlight := before ++ (job, some (run world job).1) :: after }
        (run world job).2
  | yielded (before after : List (Job × Option (Except Error Result))) (job : Job)
      (result : Result) (running : pool.failed = none)
      (inFlight : pool.inFlight = before ++ (job, some (.ok result)) :: after)
      (inOrder : ordered = true → before = []) :
      Moves ordered window run pool world
        { pool with inFlight := before ++ after, out := pool.out ++ [(job, result)] } world
  | failed (before after : List (Job × Option (Except Error Result))) (job : Job)
      (error : Error) (running : pool.failed = none)
      (inFlight : pool.inFlight = before ++ (job, some (.error error)) :: after) :
      Moves ordered window run pool world
        { pool with inFlight := before ++ after, failed := some error } world

theorem split_of_getElem? {Entry : Type*} {entries : List Entry} {slot : Nat} {entry : Entry}
    (found : entries[slot]? = some entry) :
    ∃ before after, entries = before ++ entry :: after ∧ before.length = slot := by
  obtain ⟨inside, rfl⟩ := List.getElem?_eq_some_iff.mp found
  refine ⟨entries.take slot, entries.drop (slot + 1), ?_, ?_⟩
  · rw [← List.drop_eq_getElem_cons inside, List.take_append_drop]
  · exact List.length_take_of_le (Nat.le_of_lt inside)

theorem set_append_cons {Entry : Type*} (before after : List Entry) (entry other : Entry) :
    (before ++ entry :: after).set before.length other = before ++ other :: after := by
  rw [List.set_append_right _ _ (Nat.le_refl _), Nat.sub_self, List.set_cons_zero]

theorem eraseIdx_append_cons {Entry : Type*} (before after : List Entry) (entry : Entry) :
    (before ++ entry :: after).eraseIdx before.length = before ++ after := by
  rw [List.eraseIdx_append_of_length_le (Nat.le_refl _), Nat.sub_self, List.eraseIdx_cons_zero]

section Steps

variable {ordered : Bool} {window : Nat} {run : World → Job → Except Error Result × World}
variable {pool next : Pool Job Result Error} {world after : World}

/-- What each action does: start the first job to do, answer one request in
flight, or take one answer out, which is a result or the first failure. -/
theorem step_cases {action : Action}
    (stepped : step ordered window run (pool, world) action = some (next, after)) :
    pool.failed = none ∧
      ((∃ job rest, action = .start ∧ pool.todo = job :: rest ∧ pool.inFlight.length < window ∧
          next = { pool with todo := rest, inFlight := pool.inFlight ++ [(job, none)] } ∧
          after = world) ∨
        ∃ before job rest,
          (action = .serve before.length ∧ pool.inFlight = before ++ (job, none) :: rest ∧
            next = { pool with inFlight := before ++ (job, some (run world job).1) :: rest } ∧
            after = (run world job).2) ∨
          action = .yield before.length ∧ after = world ∧ (ordered = true → before = []) ∧
            ((∃ result, pool.inFlight = before ++ (job, some (.ok result)) :: rest ∧
                next = { pool with
                  inFlight := before ++ rest
                  out := pool.out ++ [(job, result)] }) ∨
              ∃ error, pool.inFlight = before ++ (job, some (.error error)) :: rest ∧
                next = { pool with
                  inFlight := before ++ rest
                  failed := some error })) := by
  cases action with
  | start =>
      simp only [step] at stepped
      split at stepped
      case h_1 job rest running todo =>
          split at stepped
          case isTrue room =>
              obtain ⟨rfl, rfl⟩ := Prod.mk.inj (Option.some.inj stepped)
              exact ⟨running, .inl ⟨job, rest, rfl, todo, room, rfl, rfl⟩⟩
          case isFalse => simp at stepped
      case h_2 => simp at stepped
  | serve slot =>
      simp only [step] at stepped
      split at stepped
      case h_1 job running found =>
          obtain ⟨rfl, rfl⟩ := Prod.mk.inj (Option.some.inj stepped)
          obtain ⟨before, rest, inFlight, rfl⟩ := split_of_getElem? found
          refine ⟨running, .inr ⟨before, job, rest, .inl ⟨rfl, inFlight, ?_, rfl⟩⟩⟩
          rw [inFlight, set_append_cons]
      case h_2 => simp at stepped
  | yield slot =>
      simp only [step] at stepped
      split at stepped
      case isTrue => simp at stepped
      case isFalse inOrder =>
          have first : ordered = true → slot = 0 := fun isOrdered =>
            not_not.mp fun nonzero => inOrder ⟨isOrdered, nonzero⟩
          split at stepped
          case h_1 job result running found =>
              obtain ⟨rfl, rfl⟩ := Prod.mk.inj (Option.some.inj stepped)
              obtain ⟨before, rest, inFlight, rfl⟩ := split_of_getElem? found
              refine ⟨running, .inr ⟨before, job, rest, .inr ⟨rfl, rfl, ?_, .inl ⟨result, ?_⟩⟩⟩⟩
              · exact fun isOrdered => List.eq_nil_of_length_eq_zero (first isOrdered)
              · rw [inFlight, eraseIdx_append_cons]
                exact ⟨rfl, rfl⟩
          case h_2 job error running found =>
              obtain ⟨rfl, rfl⟩ := Prod.mk.inj (Option.some.inj stepped)
              obtain ⟨before, rest, inFlight, rfl⟩ := split_of_getElem? found
              refine ⟨running, .inr ⟨before, job, rest, .inr ⟨rfl, rfl, ?_, .inr ⟨error, ?_⟩⟩⟩⟩
              · exact fun isOrdered => List.eq_nil_of_length_eq_zero (first isOrdered)
              · rw [inFlight, eraseIdx_append_cons]
                exact ⟨rfl, rfl⟩
          case h_3 => simp at stepped

theorem moves_of_step {action : Action}
    (stepped : step ordered window run (pool, world) action = some (next, after)) :
    Moves ordered window run pool world next after := by
  obtain ⟨running, ⟨job, rest, rfl, todo, room, rfl, rfl⟩ | ⟨before, job, rest, moved⟩⟩ :=
    step_cases stepped
  · exact .started job rest running todo room
  rcases moved with ⟨rfl, inFlight, rfl, rfl⟩ | ⟨rfl, rfl, inOrder, taken⟩
  · exact .served before rest job running inFlight
  rcases taken with ⟨result, inFlight, rfl⟩ | ⟨error, inFlight, rfl⟩
  · exact .yielded before rest job result running inFlight inOrder
  · exact .failed before rest job error running inFlight

/-- How many actions a pool can still take: three for a job to do, two for one
in flight, one once its answer is there. -/
def Pool.remaining (pool : Pool Job Result Error) : Nat :=
  3 * pool.todo.length +
    (pool.inFlight.map fun entry => if entry.2.isSome then 1 else 2).sum

theorem remaining_init (jobs : List Job) :
    (Pool.init jobs : Pool Job Result Error).remaining = 3 * jobs.length := by
  simp [Pool.remaining, Pool.init]

theorem remaining_lt (moves : Moves ordered window run pool world next after) :
    next.remaining < pool.remaining := by
  cases moves with
  | started job rest running todo room =>
      simp only [Pool.remaining, todo, List.map_append, List.sum_append, List.length_cons,
        List.map_cons, List.map_nil, List.sum_cons, List.sum_nil, Option.isSome_none]
      simp
      omega
  | served before rest job running inFlight =>
      simp [Pool.remaining, inFlight]
  | yielded before rest job result running inFlight =>
      simp [Pool.remaining, inFlight]
  | failed before rest job error running inFlight =>
      simp [Pool.remaining, inFlight]

theorem exists_step (ordered : Bool) (run : World → Job → Except Error Result × World)
    (world : World) (room : 0 < window) (unfinished : pool.result = none) :
    ∃ action, (step ordered window run (pool, world) action).isSome = true := by
  obtain ⟨todo, inFlight, out, failed⟩ := pool
  cases failed with
  | some error => simp [Pool.result] at unfinished
  | none =>
      cases inFlight with
      | nil =>
          cases todo with
          | nil => simp [Pool.result] at unfinished
          | cons job rest => exact ⟨.start, by simp [step, room]⟩
      | cons entry rest =>
          obtain ⟨job, _ | _ | _⟩ := entry
          · exact ⟨.serve 0, by simp [step]⟩
          · exact ⟨.yield 0, by simp [step]⟩
          · exact ⟨.yield 0, by simp [step]⟩

/-- The jobs of a pool that has not failed, in the order results, in flight, to
do. -/
def Pool.jobs (pool : Pool Job Result Error) : List Job :=
  pool.out.map Prod.fst ++ pool.inFlight.map Prod.fst ++ pool.todo

theorem mem_jobs_of_inFlight {job : Job} {answer : Option (Except Error Result)}
    (member : (job, answer) ∈ pool.inFlight) : job ∈ pool.jobs :=
  List.mem_append_left _ (List.mem_append_right _ (List.mem_map_of_mem member))

theorem mem_jobs_of_out {job : Job} {result : Result} (member : (job, result) ∈ pool.out) :
    job ∈ pool.jobs :=
  List.mem_append_left _ (List.mem_append_left _ (List.mem_map_of_mem member))

/-- No job is lost or repeated, and an ordered pool keeps their order. -/
theorem jobs_of_moves (moves : Moves ordered window run pool world next after) :
    pool.failed = none ∧ (∀ job ∈ next.jobs, job ∈ pool.jobs) ∧
      (next.failed = none →
        next.jobs.Perm pool.jobs ∧ (ordered = true → next.jobs = pool.jobs)) := by
  cases moves with
  | started job rest running todo room =>
      refine ⟨running, ?_, fun _ => ?_⟩
      · simp [Pool.jobs, todo]
      · simp [Pool.jobs, todo]
  | served before rest job running inFlight =>
      refine ⟨running, ?_, fun _ => ?_⟩
      · simp [Pool.jobs, inFlight]
      · simp [Pool.jobs, inFlight]
  | yielded before rest job result running inFlight inOrder =>
      have shuffled : ((pool.out ++ [(job, result)]).map Prod.fst ++
          (before ++ rest).map Prod.fst ++ pool.todo).Perm pool.jobs := by
        simp only [Pool.jobs, inFlight, List.map_append, List.map_cons, List.map_nil,
          List.append_assoc, List.cons_append, List.nil_append]
        exact List.perm_middle.symm.append_left _
      refine ⟨running, fun other member => shuffled.mem_iff.mp member, fun _ =>
        ⟨shuffled, fun isOrdered => ?_⟩⟩
      obtain rfl := inOrder isOrdered
      simp [Pool.jobs, inFlight]
  | failed before rest job error running inFlight =>
      refine ⟨running, fun other member => ?_, fun absurd => by simp at absurd⟩
      simp only [Pool.jobs, List.map_append, List.mem_append] at member
      simp only [Pool.jobs, inFlight, List.map_append, List.map_cons, List.mem_append,
        List.mem_cons]
      tauto

/-- The answers that a pool has collected or still holds. -/
def Pool.answers (pool : Pool Job Result Error) : List (Job × Except Error Result) :=
  pool.out.map (fun entry => (entry.1, .ok entry.2)) ++
    pool.inFlight.filterMap fun entry => entry.2.map (entry.1, ·)

/-- The job whose request an action answers. -/
def Pool.asked (pool : Pool Job Result Error) : Action → List Job
  | .serve slot =>
      match pool.failed, pool.inFlight[slot]? with
      | none, some (job, none) => [job]
      | _, _ => []
  | _ => []

/-- No answer is lost before the pool fails. -/
theorem answers_of_step {action : Action}
    (stepped : step ordered window run (pool, world) action = some (next, after))
    (running : next.failed = none) :
    next.answers.Perm
      (pool.answers ++ (pool.asked action).map fun job => (job, (run world job).1)) := by
  obtain ⟨alive, ⟨job, rest, rfl, todo, room, rfl, rfl⟩ | ⟨before, job, rest, moved⟩⟩ :=
    step_cases stepped
  · simp [Pool.answers, Pool.asked]
  rcases moved with ⟨rfl, inFlight, rfl, rfl⟩ | ⟨rfl, rfl, -, taken⟩
  · have asked : pool.asked (.serve before.length) = [job] := by
      simp [Pool.asked, alive, inFlight]
    rw [asked, Pool.answers, Pool.answers, inFlight]
    simp only [List.filterMap_append, List.filterMap_cons, Option.map_none, Option.map_some,
      List.map_cons, List.map_nil, List.append_assoc]
    exact (List.perm_append_singleton _ _).symm.append_left _ |>.append_left _
  rcases taken with ⟨result, inFlight, rfl⟩ | ⟨error, inFlight, rfl⟩
  · rw [Pool.answers, Pool.answers, inFlight]
    simp only [Pool.asked, List.map_append, List.filterMap_append, List.filterMap_cons,
      Option.map_some, List.map_cons, List.map_nil, List.append_assoc, List.append_nil,
      List.cons_append, List.nil_append]
    exact List.perm_middle.symm.append_left _
  · cases running

theorem world_of_step {action : Action}
    (stepped : step ordered window run (pool, world) action = some (next, after)) :
    after = (pool.asked action).foldl (fun world job => (run world job).2) world := by
  obtain ⟨alive, ⟨job, rest, rfl, todo, room, rfl, rfl⟩ | ⟨before, job, rest, moved⟩⟩ :=
    step_cases stepped
  · rfl
  rcases moved with ⟨rfl, inFlight, rfl, rfl⟩ | ⟨rfl, rfl, -, -⟩
  · simp [Pool.asked, alive, inFlight]
  · rfl

/-- What a list of jobs can rely on: running one keeps the world sound and
gives an answer that is good for it, and good answers stay good. -/
structure Serves (run : World → Job → Except Error Result × World) (jobs : List Job)
    (Sound : World → Prop) (Good : World → Job → Except Error Result → Prop) : Prop where
  keeps : ∀ world, ∀ job ∈ jobs, Sound world → Sound (run world job).2
  answers : ∀ world, ∀ job ∈ jobs, Sound world → Good (run world job).2 job (run world job).1
  stable : ∀ world, ∀ job ∈ jobs, ∀ other ∈ jobs, ∀ answer, Sound world →
    Good world other answer → Good (run world job).2 other answer

/-- Every answer in the pool is good for its job. -/
structure Answered (Sound : World → Prop) (Good : World → Job → Except Error Result → Prop)
    (jobs : List Job) (pool : Pool Job Result Error) (world : World) : Prop where
  sound : Sound world
  inFlight : ∀ job answer, (job, some answer) ∈ pool.inFlight → Good world job answer
  out : ∀ job result, (job, result) ∈ pool.out → Good world job (.ok result)
  failed : ∀ error, pool.failed = some error → ∃ job ∈ jobs, Good world job (.error error)

/-- The jobs are all in the pool, in order if it is ordered, with good answers. -/
structure Valid (ordered : Bool) (Sound : World → Prop)
    (Good : World → Job → Except Error Result → Prop) (jobs : List Job)
    (pool : Pool Job Result Error) (world : World) : Prop
    extends Answered Sound Good jobs pool world where
  members : ∀ job ∈ pool.jobs, job ∈ jobs
  complete : pool.failed = none → pool.jobs.Perm jobs
  inOrder : ordered = true → pool.failed = none → pool.jobs = jobs

section Validity

variable {jobs : List Job} {Sound : World → Prop}
variable {Good : World → Job → Except Error Result → Prop}

theorem valid_init (sound : Sound world) :
    Valid ordered Sound Good jobs (Pool.init jobs) world where
  sound := sound
  inFlight := by simp [Pool.init]
  out := by simp [Pool.init]
  failed := by simp [Pool.init]
  members := by simp [Pool.init, Pool.jobs]
  complete := by simp [Pool.init, Pool.jobs]
  inOrder := by simp [Pool.init, Pool.jobs]

theorem answered_of_moves (serves : Serves run jobs Sound Good)
    (answered : Answered Sound Good jobs pool world)
    (members : ∀ job ∈ pool.jobs, job ∈ jobs)
    (moves : Moves ordered window run pool world next after) :
    Answered Sound Good jobs next after := by
  cases moves with
  | started job rest running todo room =>
      refine ⟨answered.sound, fun other answer member => ?_, answered.out, answered.failed⟩
      exact answered.inFlight other answer (by simpa using member)
  | served before rest job running inFlight =>
      have present : (job, none) ∈ pool.inFlight := by simp [inFlight]
      have own : job ∈ jobs := members job (mem_jobs_of_inFlight present)
      have kept : ∀ other answer, (other, some answer) ∈ pool.inFlight →
          Good (run world job).2 other answer := fun other answer member =>
        serves.stable world job own other (members other (mem_jobs_of_inFlight member)) answer
          answered.sound (answered.inFlight other answer member)
      refine ⟨serves.keeps world job own answered.sound, fun other answer member => ?_,
        fun other result member => ?_, fun error failed => ?_⟩
      · rcases List.mem_append.mp member with member | member
        · exact kept other answer (by simp [inFlight, member])
        · rcases List.mem_cons.mp member with equal | member
          · obtain ⟨rfl, equal⟩ := Prod.mk.inj equal
            obtain rfl := Option.some.inj equal
            exact serves.answers world other own answered.sound
          · exact kept other answer (by simp [inFlight, member])
      · exact serves.stable world job own other (members other (mem_jobs_of_out member)) _
          answered.sound (answered.out other result member)
      · simp [running] at failed
  | yielded before rest job result running inFlight inOrder =>
      refine ⟨answered.sound, fun other answer member => ?_, fun other value member => ?_,
        answered.failed⟩
      · apply answered.inFlight other answer
        rw [inFlight]
        rcases List.mem_append.mp member with member | member
        · exact List.mem_append_left _ member
        · exact List.mem_append_right _ (List.mem_cons_of_mem _ member)
      · rcases List.mem_append.mp member with member | member
        · exact answered.out other value member
        · obtain ⟨rfl, rfl⟩ := Prod.mk.inj (List.mem_singleton.mp member)
          exact answered.inFlight other _ (by simp [inFlight])
  | failed before rest job error running inFlight =>
      have present : (job, some (.error error)) ∈ pool.inFlight := by simp [inFlight]
      refine ⟨answered.sound, fun other answer member => ?_, answered.out, fun other equal => ?_⟩
      · apply answered.inFlight other answer
        rw [inFlight]
        rcases List.mem_append.mp member with member | member
        · exact List.mem_append_left _ member
        · exact List.mem_append_right _ (List.mem_cons_of_mem _ member)
      · obtain rfl := Option.some.inj equal
        exact ⟨job, members job (mem_jobs_of_inFlight present), answered.inFlight job _ present⟩

theorem Valid.of_good {Sound' : World → Prop} {later : World}
    (valid : Valid ordered Sound Good jobs pool world) (sound : Sound' later)
    (good : ∀ job ∈ jobs, ∀ answer, Good world job answer → Good later job answer) :
    Valid ordered Sound' Good jobs pool later where
  sound := sound
  inFlight job answer member :=
    good job (valid.members job (mem_jobs_of_inFlight member)) _
      (valid.inFlight job answer member)
  out job result member :=
    good job (valid.members job (mem_jobs_of_out member)) _ (valid.out job result member)
  failed error equal := by
    obtain ⟨job, member, answer⟩ := valid.failed error equal
    exact ⟨job, member, good job member _ answer⟩
  members := valid.members
  complete := valid.complete
  inOrder := valid.inOrder

theorem valid_of_moves (serves : Serves run jobs Sound Good)
    (valid : Valid ordered Sound Good jobs pool world)
    (moves : Moves ordered window run pool world next after) :
    Valid ordered Sound Good jobs next after := by
  obtain ⟨running, members, kept⟩ := jobs_of_moves moves
  refine ⟨answered_of_moves serves valid.toAnswered valid.members moves,
    fun job member => valid.members job (members job member), fun unfailed => ?_,
    fun isOrdered unfailed => ?_⟩
  · exact (kept unfailed).1.trans (valid.complete running)
  · exact ((kept unfailed).2 isOrdered).trans (valid.inOrder isOrdered running)

theorem result_eq_ok {results : List Result} (finished : pool.result = some (.ok results)) :
    pool.failed = none ∧ pool.jobs = pool.out.map Prod.fst ∧
      results = pool.out.map Prod.snd := by
  obtain ⟨todo, inFlight, out, failed⟩ := pool
  cases failed with
  | some error => simp [Pool.result] at finished
  | none =>
      cases todo with
      | cons job rest => simp [Pool.result] at finished
      | nil =>
          cases inFlight with
          | cons entry rest => simp [Pool.result] at finished
          | nil =>
              obtain rfl : out.map Prod.snd = results := by
                simpa [Pool.result] using finished
              exact ⟨rfl, by simp [Pool.jobs], rfl⟩

theorem answers_of_result {results : List Result} (finished : pool.result = some (.ok results)) :
    pool.answers = pool.out.map fun entry => (entry.1, .ok entry.2) := by
  obtain ⟨-, allOut, -⟩ := result_eq_ok finished
  have idle : pool.inFlight = [] := by
    simp only [Pool.jobs, List.append_assoc, List.append_right_eq_self, List.append_eq_nil_iff,
      List.map_eq_nil_iff] at allOut
    exact allOut.1
  rw [Pool.answers, idle, List.filterMap_nil, List.append_nil]

theorem forall₂_of_result (valid : Valid true Sound Good jobs pool world)
    {results : List Result} (finished : pool.result = some (.ok results)) :
    List.Forall₂ (fun job result => Good world job (.ok result)) jobs results := by
  obtain ⟨unfailed, allOut, rfl⟩ := result_eq_ok finished
  rw [← valid.inOrder rfl unfailed, allOut, List.forall₂_map_left_iff,
    List.forall₂_map_right_iff, List.forall₂_same]
  exact fun entry member => valid.out entry.1 entry.2 member

theorem good_of_result (valid : Valid ordered Sound Good jobs pool world)
    {results : List Result} (finished : pool.result = some (.ok results)) {job : Job}
    (member : job ∈ jobs) : ∃ result, Good world job (.ok result) := by
  obtain ⟨unfailed, allOut, -⟩ := result_eq_ok finished
  rw [← (valid.complete unfailed).mem_iff, allOut] at member
  obtain ⟨entry, inOut, rfl⟩ := List.mem_map.mp member
  exact ⟨entry.2, valid.out entry.1 entry.2 inOut⟩

theorem good_of_error (valid : Valid ordered Sound Good jobs pool world) {error : Error}
    (finished : pool.result = some (.error error)) :
    ∃ job ∈ jobs, Good world job (.error error) := by
  apply valid.failed error
  obtain ⟨todo, inFlight, out, failed⟩ := pool
  cases failed with
  | some other => simpa [Pool.result] using finished
  | none =>
      unfold Pool.result at finished
      split at finished <;> simp_all

end Validity

end Steps

end CeRs.Buffered
