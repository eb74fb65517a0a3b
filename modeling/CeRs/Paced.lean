import CeRs.Buffered
import CeRs.Transition
import Mathlib.Data.List.Perm.Subperm

/-!
# How far a pool of jobs runs ahead

A pool starts its jobs in the order in which they are listed, and has no more
than a window of them beyond the results it has delivered: at any time each of
the first so many jobs has been run at most once, and no other job at all.
-/

namespace CeRs.Buffered

open Transition

variable {Job Result Error World : Type*} {ordered : Bool} {window : Nat}
  {run : World → Job → Except Error Result × World} {jobs : List Job}
  {pool next : Pool Job Result Error} {world after : World} {action : Action}
  {log : List (Job × Except Error Result)}

/-- The answers that an action gets. -/
def answering (run : World → Job → Except Error Result × World)
    (pool : Pool Job Result Error) (world : World) (action : Action) :
    List (Job × Except Error Result) :=
  (pool.asked action).map fun job => (job, (run world job).1)

/-- The answers of the jobs in flight. -/
def Pool.arrived (pool : Pool Job Result Error) : List (Job × Except Error Result) :=
  pool.inFlight.filterMap fun entry => entry.2.map (entry.1, ·)

def Pool.delivered (pool : Pool Job Result Error) : List (Job × Except Error Result) :=
  pool.out.map fun entry => (entry.1, .ok entry.2)

def failures (dropped : List (Job × Error)) : List (Job × Except Error Result) :=
  dropped.map fun entry => (entry.1, .error entry.2)

/-- Where the jobs that have been started are: delivered, failed, or in flight. -/
structure Paced (ordered : Bool) (window : Nat) (jobs : List Job)
    (log : List (Job × Except Error Result)) (pool : Pool Job Result Error)
    (started : List Job) (dropped : List (Job × Error)) : Prop where
  whole : jobs = started ++ pool.todo
  failed : pool.failed = dropped.head?.map Prod.snd
  single : dropped.length ≤ 1
  room : dropped.length + pool.inFlight.length ≤ window
  line : (pool.out.map Prod.fst ++ (dropped.map Prod.fst ++ pool.inFlight.map Prod.fst)).Perm
    started
  inOrder : ordered = true →
    pool.out.map Prod.fst ++ (dropped.map Prod.fst ++ pool.inFlight.map Prod.fst) = started
  answers : (pool.delivered ++ (failures dropped ++ pool.arrived)).Perm log

theorem paced_init (ordered : Bool) (window : Nat) (jobs : List Job) :
    Paced ordered window jobs [] (Pool.init jobs : Pool Job Result Error) [] [] where
  whole := rfl
  failed := rfl
  single := Nat.zero_le _
  room := Nat.zero_le _
  line := List.Perm.refl _
  inOrder _ := rfl
  answers := List.Perm.refl _

theorem Paced.of_step {started : List Job} {dropped : List (Job × Error)}
    (paced : Paced ordered window jobs log pool started dropped)
    (stepped : step ordered window run (pool, world) action = some (next, after)) :
    ∃ started dropped, Paced ordered window jobs (log ++ answering run pool world action) next
      started dropped := by
  obtain ⟨whole, failed, single, room, line, inOrder, answers⟩ := paced
  obtain ⟨alive, moved⟩ := step_cases stepped
  obtain rfl : dropped = [] := by
    cases dropped with
    | nil => rfl
    | cons entry others => simp [alive] at failed
  have known : pool.answers.Perm log := answers
  have more : next.failed = none →
      next.answers.Perm (log ++ answering run pool world action) := fun running =>
    (answers_of_step stepped running).trans (known.append_right _)
  simp only [List.map_nil, List.nil_append] at line inOrder
  rcases moved with ⟨job, rest, rfl, todo, free, rfl, rfl⟩ | ⟨before, job, rest, moved⟩
  · refine ⟨started ++ [job], [], ?_, failed, single, ?_, ?_, ?_, more alive⟩
    · simp [whole, todo]
    · simpa using Nat.succ_le_of_lt free
    · simpa [List.append_assoc] using line.append_right [job]
    · intro isOrdered
      simp [← inOrder isOrdered]
  rcases moved with ⟨rfl, inFlight, rfl, rfl⟩ | ⟨rfl, rfl, first, taken⟩
  · rw [inFlight] at room line inOrder
    refine ⟨started, [], whole, failed, single, ?_, ?_, ?_, more alive⟩
    · simpa using room
    · simpa using line
    · simpa using inOrder
  rcases taken with ⟨result, inFlight, rfl⟩ | ⟨error, inFlight, rfl⟩
  · rw [inFlight] at room line inOrder
    refine ⟨started, [], whole, failed, single, ?_, ?_, ?_, more alive⟩
    · simp at room ⊢
      omega
    · refine List.Perm.trans ?_ line
      simpa using (List.perm_middle.symm).append_left _
    · intro isOrdered
      obtain rfl := first isOrdered
      simpa using inOrder isOrdered
  · rw [inFlight] at room line inOrder
    refine ⟨started, [(job, error)], whole, rfl, Nat.le_refl _, ?_, ?_, ?_, ?_⟩
    · simp at room ⊢
      omega
    · refine List.Perm.trans ?_ line
      simpa using (List.perm_middle.symm).append_left _
    · intro isOrdered
      obtain rfl := first isOrdered
      simpa using inOrder isOrdered
    · rw [Pool.answers, inFlight] at known
      refine List.Perm.trans ?_ (by simpa [answering, Pool.asked] using known)
      simpa [Pool.delivered, Pool.arrived, failures] using
        (List.perm_middle.symm).append_left _

theorem failed_of_result {error : Error} (finished : pool.result = some (.error error)) :
    pool.failed = some error := by
  obtain ⟨todo, inFlight, out, failed⟩ := pool
  cases failed with
  | some other => simpa [Pool.result] using finished
  | none => cases todo <;> cases inFlight <;> simp [Pool.result] at finished

section Paced

variable {started : List Job} {dropped : List (Job × Error)}

theorem Paced.subperm (paced : Paced ordered window jobs log pool started dropped) :
    (log.map Prod.fst).Subperm (jobs.take (pool.out.length + window)) := by
  have length := paced.line.length_eq
  simp only [List.length_append, List.length_map] at length
  have room := paced.room
  have early : started <+: jobs.take (pool.out.length + window) := by
    refine List.prefix_take_iff.mpr ⟨⟨pool.todo, paced.whole.symm⟩, ?_⟩
    omega
  refine List.Subperm.trans ?_ early.sublist.subperm
  have answered : (pool.arrived.map Prod.fst).Sublist (pool.inFlight.map Prod.fst) := by
    unfold Pool.arrived
    induction pool.inFlight with
    | nil => exact List.Sublist.refl _
    | cons entry rest induction =>
        obtain ⟨job, _ | answer⟩ := entry
        · exact induction.cons _
        · exact induction.cons_cons _
  have within : (log.map Prod.fst).Subperm
      (pool.out.map Prod.fst ++ (dropped.map Prod.fst ++ pool.inFlight.map Prod.fst)) := by
    refine ((paced.answers.map Prod.fst).symm.subperm).trans (List.Sublist.subperm ?_)
    simpa [Pool.delivered, failures, Function.comp_def] using answered
  exact within.trans paced.line.subperm

theorem Paced.mem_log (paced : Paced ordered window jobs log pool started dropped)
    {entry : Job × Result} (member : entry ∈ pool.out) : (entry.1, .ok entry.2) ∈ log :=
  paced.answers.mem_iff.mp (List.mem_append_left _ (List.mem_map_of_mem member))

/-- An ordered pool delivers the results of the first jobs. -/
theorem Paced.delivered_eq (paced : Paced true window jobs log pool started dropped) :
    pool.out.map Prod.fst = jobs.take pool.out.length := by
  have equal := paced.inOrder rfl
  rw [paced.whole, ← equal, List.append_assoc, List.take_left' (by simp)]

/-- A pool that fails has got the error of a job, in an ordered pool the first one
whose result is not delivered. -/
theorem Paced.of_failed (paced : Paced ordered window jobs log pool started dropped)
    {error : Error} (failed : pool.failed = some error) :
    ∃ job ∈ jobs, (job, .error error) ∈ log ∧
      (ordered = true → jobs[pool.out.length]? = some job) := by
  cases dropped with
  | nil => simp [paced.failed] at failed
  | cons entry others =>
      obtain rfl : entry.2 = error := by
        rw [paced.failed] at failed
        simpa using failed
      refine ⟨entry.1, ?_, ?_, fun isOrdered => ?_⟩
      · rw [paced.whole]
        exact List.mem_append_left _ (paced.line.mem_iff.mp (by simp))
      · exact paced.answers.mem_iff.mp (by simp [failures])
      · have equal := paced.inOrder isOrdered
        rw [paced.whole, ← equal]
        simp

/-- A pool that has collected its results has run every job once. -/
theorem Paced.of_result (paced : Paced ordered window jobs log pool started dropped)
    {results : List Result} (finished : pool.result = some (.ok results)) :
    (log.map Prod.fst).Perm jobs ∧ pool.out.length = jobs.length := by
  obtain ⟨running, allOut, -⟩ := result_eq_ok finished
  have nothing : dropped = [] := by
    cases dropped with
    | nil => rfl
    | cons entry others => simp [paced.failed] at running
  simp only [Pool.jobs, List.append_assoc, List.append_right_eq_self, List.append_eq_nil_iff,
    List.map_eq_nil_iff] at allOut
  obtain ⟨idle, done⟩ := allOut
  have line := paced.line
  rw [nothing, idle] at line
  have all : jobs = started := by simpa [done] using paced.whole
  have answers := (paced.answers.map Prod.fst).symm
  rw [nothing, Pool.arrived, idle] at answers
  have ran : (log.map Prod.fst).Perm (pool.out.map Prod.fst) := by
    simpa [Pool.delivered, failures, Function.comp_def] using answers
  have out : (pool.out.map Prod.fst).Perm jobs := by
    rw [all]
    simpa using line
  exact ⟨ran.trans out, by simpa using out.length_eq⟩

end Paced

end CeRs.Buffered
