import Mathlib.Algebra.Order.Floor.Div
import Seismogram.Assembly.Batch
import Seismogram.Proofs.Assembly.Integrity

/-!
# Slices for workers

Jobs are spread over workers in slices of one length, which is the number of jobs divided by the
number of workers and rounded up. That no more slices come out than there are workers is a fact
about rounding twice. It is had here without a second division: slice `k` exists exactly if the
slices before it leave a job over (`lt_length_slices_iff`), and as many slices as there are workers
leave none.
-/

namespace Seismogram

namespace Workers

section Length

theorem sliceLength_eq_ceilDiv (jobs workers : Nat) :
    sliceLength jobs workers = jobs ⌈/⌉ max workers 1 := rfl

theorem sliceLength_le_iff {jobs workers length : Nat} :
    sliceLength jobs workers ≤ length ↔ jobs ≤ max workers 1 * length :=
  ceilDiv_le_iff_le_mul (Nat.lt_of_lt_of_le Nat.one_pos (Nat.le_max_right workers 1))

/-- One slice for each worker takes in all jobs. -/
theorem le_mul_sliceLength (jobs workers : Nat) :
    jobs ≤ max workers 1 * sliceLength jobs workers :=
  sliceLength_le_iff.1 (Nat.le_refl _)

theorem sliceLength_pos {jobs : Nat} (some : 0 < jobs) (workers : Nat) :
    0 < sliceLength jobs workers :=
  Nat.pos_of_mul_pos_left (Nat.lt_of_lt_of_le some (le_mul_sliceLength jobs workers))

theorem sliceLength_le (jobs workers : Nat) : sliceLength jobs workers ≤ jobs := by
  apply sliceLength_le_iff.2
  exact Nat.le_mul_of_pos_left jobs (Nat.lt_of_lt_of_le Nat.one_pos (Nat.le_max_right workers 1))

end Length

section Slices

variable {α : Type} {length : Nat}

theorem lt_length_slices_iff (pos : 0 < length) {jobs : List α} {k : Nat} :
    k < (slices length jobs).length ↔ length * k < jobs.length := by
  fun_induction slices length jobs generalizing k with
  | case1 => simp
  | case2 job rest ih =>
    cases k with
    | zero => simp
    | succ k =>
      rw [List.length_cons, Nat.succ_lt_succ_iff, ih, List.length_drop, List.length_cons,
        Nat.mul_succ]
      omega

theorem getElem_slices (pos : 0 < length) (jobs : List α) (k : Nat)
    (h : k < (slices length jobs).length) :
    (slices length jobs)[k] = (jobs.drop (length * k)).take length := by
  obtain ⟨less, rfl⟩ : ∃ less, length = less + 1 := ⟨length - 1, by omega⟩
  fun_induction slices (less + 1) jobs generalizing k with
  | case1 => exact absurd h (Nat.not_lt_zero k)
  | case2 job rest ih =>
    cases k with
    | zero => simp
    | succ k =>
      have next : (less + 1) * (k + 1) = less + (less + 1) * k + 1 := by
        rw [Nat.mul_succ]
        omega
      rw [List.getElem_cons_succ, ih, next, List.drop_succ_cons, Nat.add_sub_cancel,
        List.drop_drop]

theorem ne_nil_of_mem_slices (pos : 0 < length) {jobs slice : List α}
    (member : slice ∈ slices length jobs) : slice ≠ [] := by
  obtain ⟨k, h, rfl⟩ := List.getElem_of_mem member
  have reached := (lt_length_slices_iff pos).1 h
  rw [getElem_slices pos, ← List.length_pos_iff, List.length_take, List.length_drop]
  omega

/-- Behind any but the last slice a job is left, so that it is full. -/
theorem length_of_mem_dropLast_slices (pos : 0 < length) {jobs slice : List α}
    (member : slice ∈ (slices length jobs).dropLast) : slice.length = length := by
  obtain ⟨k, h, rfl⟩ := List.getElem_of_mem member
  rw [List.length_dropLast] at h
  have reached : length * (k + 1) < jobs.length := (lt_length_slices_iff pos).1 (by omega)
  rw [List.getElem_dropLast, getElem_slices pos, List.length_take, List.length_drop]
  rw [Nat.mul_succ] at reached
  omega

/-- As many slices as cover the jobs are enough. -/
theorem length_slices_le (pos : 0 < length) {jobs : List α} {count : Nat}
    (cover : jobs.length ≤ length * count) : (slices length jobs).length ≤ count := by
  rw [← Nat.not_lt, lt_length_slices_iff pos]
  exact Nat.not_lt.2 cover

end Slices
end Workers

namespace Assembly.Assembler

/-- Workers share a batch in slices that lie side by side, in order and without a gap, all of one
length but for the last, which may be shorter. That length is the number of records divided by the
number of workers and rounded up, so it is never zero. Every worker that starts has a record to
assemble, and no more start than were asked for; none at all asked for counts as one. -/
theorem parallel_balanced (codec : Codec) (host : ByteOrder) (policy : Policy) (workers : Nat)
    (schedule : List Nat) {records : List Record} (some : records ≠ []) :
    let a : Assembler := ⟨codec, ⟨host, policy, .parallel workers⟩⟩
    let length := Workers.sliceLength records.length workers
    let slices := Workers.slices length records
    let pool : Workers.Pool Record Attempt Event := .start slices
    a.attempts schedule records = (pool.steps a.job schedule).finish a.job ∧
      pool.workers.map Workers.Worker.waiting = slices ∧
      (length = records.length ⌈/⌉ max workers 1 ∧ 0 < length ∧ length ≤ records.length) ∧
      slices.flatten = records ∧
      (∀ k (h : k < slices.length), slices[k] = (records.drop (length * k)).take length) ∧
      (∀ slice ∈ slices, slice ≠ []) ∧
      (∀ slice ∈ slices.dropLast, slice.length = length) ∧
      slices.length ≤ min records.length (max workers 1) := by
  intro a length slices pool
  have pos : 0 < length := Workers.sliceLength_pos (List.length_pos_iff.2 some) workers
  have waiting : pool.workers.map Workers.Worker.waiting = slices := by
    simp [pool, Workers.Pool.start, Function.comp_def]
  have few : slices.length ≤ records.length :=
    Workers.length_slices_le pos (Nat.le_mul_of_pos_left records.length pos)
  have staffed : slices.length ≤ max workers 1 := by
    apply Workers.length_slices_le pos
    rw [Nat.mul_comm]
    exact Workers.le_mul_sliceLength records.length workers
  have rounded := Workers.sliceLength_eq_ceilDiv records.length workers
  refine ⟨rfl, waiting, ⟨rounded, pos, Workers.sliceLength_le records.length workers⟩,
    Workers.flatten_slices length records, Workers.getElem_slices pos records, ?_, ?_,
    Nat.le_min.2 ⟨few, staffed⟩⟩
  · intro slice
    exact Workers.ne_nil_of_mem_slices pos
  · intro slice
    exact Workers.length_of_mem_dropLast_slices pos

/-- Four workers take five records two by two, the last one that starts what is left. Where none is
asked for, one takes all five. -/
theorem parallel_balanced_fiveRecords :
    let records := List.replicate 5 Record.inTwoChunks
    records ≠ [] ∧
      (∀ slice ∈ (Workers.slices 2 records).dropLast, slice.length = 2) ∧
      (Workers.slices 2 records).length ≤ 4 ∧ (Workers.slices 5 records).length ≤ 1 := by
  intro records
  have some : records ≠ [] := by simp [records]
  have two : Workers.sliceLength records.length 4 = 2 := by
    simp [records, Workers.sliceLength]
  have five : Workers.sliceLength records.length 0 = 5 := by
    simp [records, Workers.sliceLength]
  obtain ⟨-, -, -, -, -, -, full, few⟩ :=
    parallel_balanced Record.answeringTwo .little .failFast 4 [] some
  obtain ⟨-, -, -, -, -, -, -, alone⟩ :=
    parallel_balanced Record.answeringTwo .little .failFast 0 [] some
  rw [two] at full few
  rw [five] at alone
  exact ⟨some, full, few.trans (Nat.min_le_right 5 4), alone.trans (Nat.min_le_right 5 1)⟩

end Assembly.Assembler
end Seismogram
