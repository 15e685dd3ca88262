/-!
# Workers

A list of jobs is spread over workers: each takes a contiguous slice and does its jobs in order.
The workers' steps may come in any order, which is what a schedule says. Stitched together in
the order of the workers, the results stand in the order of the jobs whatever the schedule was.
-/

namespace Seismogram.Workers

variable {α β ε : Type}

/-- The length of the slices when jobs are spread over workers, of whom there is at least one. -/
def sliceLength (jobs workers : Nat) : Nat := (jobs + max workers 1 - 1) / max workers 1

/-- Contiguous slices of a length, the last of them shorter if need be. -/
def slices (length : Nat) : List α → List (List α)
  | [] => []
  | job :: rest => (job :: rest.take (length - 1)) :: slices length (rest.drop (length - 1))
termination_by jobs => jobs.length
decreasing_by
  simp only [List.length_drop, List.length_cons]
  omega

/-- A worker with the jobs before it and the results behind it. -/
structure Worker (α β : Type) where
  waiting : List α
  done : List β

/-- What a job yields: events on the way and a result. -/
structure Yield (ε β : Type) where
  events : List ε
  result : β

/-- Workers at some moment, and the events of all of them so far. -/
structure Pool (α β ε : Type) where
  workers : List (Worker α β)
  events : List ε

namespace Pool

def start (slices : List (List α)) : Pool α β ε := ⟨slices.map fun jobs => ⟨jobs, []⟩, []⟩

/-- The pool after the worker of a number has done its next job. A worker without a job, or one that
does not exist, does nothing. -/
def step (run : α → Yield ε β) (pool : Pool α β ε) (number : Nat) : Pool α β ε :=
  match pool.workers[number]? with
  | some ⟨job :: waiting, done⟩ =>
    let yielded := run job
    ⟨pool.workers.set number ⟨waiting, done ++ [yielded.result]⟩, pool.events ++ yielded.events⟩
  | _ => pool

/-- The pool after the workers have stepped in the order of a schedule. -/
def steps (run : α → Yield ε β) (pool : Pool α β ε) (schedule : List Nat) : Pool α β ε :=
  schedule.foldl (step run) pool

/-- The results of a worker who finishes his jobs. -/
def Worker.results (run : α → Yield ε β) (w : Worker α β) : List β :=
  w.done ++ w.waiting.map fun job => (run job).result

/-- The events that are left to a worker. -/
def Worker.remaining (run : α → Yield ε β) (w : Worker α β) : List ε :=
  w.waiting.flatMap fun job => (run job).events

/-- What comes of a pool when the workers, one after another, finish the jobs that are left. -/
def finish (run : α → Yield ε β) (pool : Pool α β ε) : Yield ε (List β) :=
  ⟨pool.events ++ pool.workers.flatMap (Worker.remaining run),
    pool.workers.flatMap (Worker.results run)⟩

/-- A step is no step, or one worker does his next job: its events come last, its result is his
latest, and nothing else changes. -/
theorem step_cases (run : α → Yield ε β) (pool : Pool α β ε) (number : Nat) :
    pool.step run number = pool ∨
      ∃ front job waiting done back,
        pool.workers = front ++ (⟨job :: waiting, done⟩ : Worker α β) :: back ∧
        pool.step run number =
          ⟨front ++ ⟨waiting, done ++ [(run job).result]⟩ :: back,
            pool.events ++ (run job).events⟩ := by
  rw [step]
  split
  · next job waiting done h =>
    obtain ⟨inside, worker⟩ := List.getElem?_eq_some_iff.1 h
    refine .inr ⟨pool.workers.take number, job, waiting, done, pool.workers.drop (number + 1),
      ?_, ?_⟩
    · rw [← worker, List.getElem_cons_drop, List.take_append_drop]
    · dsimp only
      rw [List.set_eq_take_append_cons_drop, if_pos inside]
  · exact .inl rfl

theorem result_step (run : α → Yield ε β) (pool : Pool α β ε) (number : Nat) :
    ((pool.step run number).finish run).result = (pool.finish run).result := by
  obtain same | ⟨front, job, waiting, done, back, before, after⟩ := pool.step_cases run number
  · rw [same]
  · rw [after]
    simp [finish, before, Worker.results]

theorem events_step_perm (run : α → Yield ε β) (pool : Pool α β ε) (number : Nat) :
    ((pool.step run number).finish run).events.Perm (pool.finish run).events := by
  obtain same | ⟨front, job, waiting, done, back, before, after⟩ := pool.step_cases run number
  · rw [same]
  · rw [after]
    simp only [finish, before, Worker.remaining, List.flatMap_append, List.flatMap_cons,
      List.append_assoc]
    exact (List.perm_append_comm_assoc ..).append_left pool.events

theorem result_steps (run : α → Yield ε β) (pool : Pool α β ε) (schedule : List Nat) :
    ((pool.steps run schedule).finish run).result = (pool.finish run).result := by
  induction schedule generalizing pool with
  | nil => rfl
  | cons number rest ih => exact (ih (pool.step run number)).trans (pool.result_step run number)

theorem events_steps_perm (run : α → Yield ε β) (pool : Pool α β ε) (schedule : List Nat) :
    ((pool.steps run schedule).finish run).events.Perm (pool.finish run).events := by
  induction schedule generalizing pool with
  | nil => exact .refl _
  | cons number rest ih =>
    exact (ih (pool.step run number)).trans (pool.events_step_perm run number)

end Pool

/-- What comes of jobs that workers share under a schedule. When the schedule ends before the
jobs do, the workers finish one after another. -/
def share (run : α → Yield ε β) (workers : Nat) (schedule : List Nat) (jobs : List α) :
    Yield ε (List β) :=
  ((Pool.start (slices (sliceLength jobs.length workers) jobs)).steps run schedule).finish run

theorem flatten_slices (length : Nat) (jobs : List α) : (slices length jobs).flatten = jobs := by
  fun_induction slices length jobs with
  | case1 => rfl
  | case2 job rest ih => rw [List.flatten_cons, ih, List.cons_append, List.take_append_drop]

/-- The results stand in the order of the jobs, whatever the schedule. -/
theorem result_share (run : α → Yield ε β) (workers : Nat) (schedule : List Nat)
    (jobs : List α) :
    (share run workers schedule jobs).result = jobs.map fun job => (run job).result := by
  rw [share, Pool.result_steps]
  simp only [Pool.finish, Pool.start, List.flatMap_map]
  conv => rhs; rw [← flatten_slices (sliceLength jobs.length workers) jobs]
  rw [List.map_flatten, List.flatMap_def]
  rfl

/-- The events are those of the jobs, each as often as a single worker would bring it about. -/
theorem events_share_perm (run : α → Yield ε β) (workers : Nat) (schedule : List Nat)
    (jobs : List α) :
    (share run workers schedule jobs).events.Perm (jobs.flatMap fun job => (run job).events) := by
  rw [share]
  refine (Pool.events_steps_perm run _ schedule).trans (.of_eq ?_)
  simp only [Pool.finish, Pool.start, List.flatMap_map, List.nil_append]
  conv => rhs; rw [← flatten_slices (sliceLength jobs.length workers) jobs]
  rw [List.flatMap_def, List.flatMap_def, List.map_flatten, List.flatten_flatten, List.map_map]
  rfl

/-! ### Keeping some of the events -/

section Keeping

variable {δ : Type} (keep : ε → Option δ) (run : α → Yield ε β)

/-- The result of a job with those of its events that are kept. -/
def Yield.keeping (keep : ε → Option δ) (y : Yield ε β) : Yield δ β :=
  ⟨y.events.filterMap keep, y.result⟩

/-- A pool whose jobs have been run before the workers come to them, with the events that are
kept. A worker then only hands over what his jobs have yielded. -/
def Pool.keeping (pool : Pool α β ε) : Pool (Yield δ β) β δ :=
  ⟨pool.workers.map fun w => ⟨w.waiting.map fun job => (run job).keeping keep, w.done⟩,
    pool.events.filterMap keep⟩

theorem Pool.keeping_step (pool : Pool α β ε) (number : Nat) :
    (pool.step run number).keeping keep run = (pool.keeping keep run).step id number := by
  rw [step, step]
  have worker : (pool.keeping keep run).workers[number]? = pool.workers[number]?.map fun w =>
      ⟨w.waiting.map fun job => (run job).keeping keep, w.done⟩ := List.getElem?_map ..
  rw [worker]
  cases pool.workers[number]? with
  | none => rfl
  | some w =>
    obtain ⟨waiting, done⟩ := w
    cases waiting with
    | nil => rfl
    | cons job waiting => simp [keeping, Yield.keeping, List.map_set]

theorem Pool.keeping_steps (pool : Pool α β ε) (schedule : List Nat) :
    (pool.steps run schedule).keeping keep run = (pool.keeping keep run).steps id schedule := by
  induction schedule generalizing pool with
  | nil => rfl
  | cons number rest ih =>
    have first := pool.keeping_step keep run number
    exact (ih (pool.step run number)).trans (congrArg (fun p => Pool.steps id p rest) first)

theorem Pool.keeping_finish (pool : Pool α β ε) :
    (pool.finish run).keeping keep = (pool.keeping keep run).finish id := by
  simp only [finish, Yield.keeping, keeping, List.filterMap_append, List.filterMap_flatMap,
    List.flatMap_map, Worker.remaining]
  refine congrArg _ (congrArg (pool.workers.flatMap ·) ?_)
  funext w
  rw [Worker.results, Worker.results, List.map_map]
  rfl

theorem slices_map {α' : Type} (f : α → α') (length : Nat) (jobs : List α) :
    slices length (jobs.map f) = (slices length jobs).map (List.map f) := by
  fun_induction slices length jobs with
  | case1 => rw [List.map_nil, slices, List.map_nil]
  | case2 job rest ih =>
    rw [List.map_cons, slices, List.map_cons, List.map_cons, ← ih, List.map_take, List.map_drop]

/-- What is kept of the events of shared jobs, and the order it is kept in, depends only on what is
kept of each job. -/
theorem keeping_share (workers : Nat) (schedule : List Nat) (jobs : List α) :
    (share run workers schedule jobs).keeping keep =
      share id workers schedule (jobs.map fun job => (run job).keeping keep) := by
  have start : (Pool.start (slices (sliceLength jobs.length workers) jobs)).keeping keep run =
      Pool.start (slices (sliceLength jobs.length workers)
        (jobs.map fun job => (run job).keeping keep)) := by
    rw [slices_map]
    simp [Pool.start, Pool.keeping]
  rw [share, Pool.keeping_finish, Pool.keeping_steps, start, share, List.length_map]

end Keeping

end Seismogram.Workers
