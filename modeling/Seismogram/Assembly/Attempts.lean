import Seismogram.Assembly.Batch

/-!
# Reports, record by record

Each record of a batch contributes to the report what its own attempt yields: a trace, a failure or
one more skipped record. Reports of batches that follow one another are joined, and the failures of
the later batch count the records of the earlier one in front of them. A batch that collects errors
has the report of its attempts; one that fails fast has it too, or the first failure in it.
-/

namespace Seismogram.Assembly

def Attempt.trace? : Attempt → Option Trace
  | .ok trace => trace
  | .error _ => none

def Attempt.isSkipped : Attempt → Bool
  | .ok none => true
  | _ => false

theorem Attempt.isSkipped_iff {attempt : Attempt} :
    attempt.isSkipped = true ↔ attempt = .ok none := by
  obtain _ | _ | _ := attempt <;> simp [isSkipped]

/-- A failure as it stands in a batch with `n` more records in front. -/
def RecordFailure.behind (n : Nat) (f : RecordFailure) : RecordFailure :=
  { f with index := f.index + n }

def RecordFailure.warning (f : RecordFailure) : Log.Line :=
  ⟨.warn, s!"Record {f.index} ({f.channel}) failed: {f.failure.message}"⟩

namespace Report

/-- A report as it stands in a batch with `n` more records in front. -/
def behind (n : Nat) (r : Report) : Report :=
  { r with failures := r.failures.map (RecordFailure.behind n) }

/-- The report of a batch of `n` records together with a batch that follows it. -/
def followedBy (front : Report) (n : Nat) (back : Report) : Report where
  traces := front.traces ++ back.traces
  failures := front.failures ++ (back.behind n).failures
  skipped := front.skipped + back.skipped

def ofAttempt (r : Record) : Attempt → Report
  | .ok (some trace) => ⟨[trace], [], 0⟩
  | .ok none => ⟨[], [], 1⟩
  | .error failure => ⟨[], [⟨0, r.channel.text, failure⟩], 0⟩

def ofAttempts : List (Record × Attempt) → Report
  | [] => empty
  | (r, attempt) :: rest => (ofAttempt r attempt).followedBy 1 (ofAttempts rest)

/-- The report of records each of which is attempted on its own. -/
def ofRecords (codec : Codec) (host : ByteOrder) (records : List Record) : Report :=
  ofAttempts (records.map fun r => (r, (r.assemble codec host).result))

/-- The report if no record failed, and otherwise the failure of the first that did. -/
def orFirstFailure (r : Report) : Except Failure Report :=
  match r.failures with
  | [] => .ok r
  | f :: _ => .error f.toFailure

def failureAt? (index : Nat) : Record × Attempt → Option RecordFailure
  | (r, .error failure) => some ⟨index, r.channel.text, failure⟩
  | (_, .ok _) => none

theorem failureAt?_eq_some_iff {index : Nat} {r : Record} {attempt : Attempt} {f : RecordFailure} :
    failureAt? index (r, attempt) = some f ↔
      ∃ failure, attempt = .error failure ∧ f = ⟨index, r.channel.text, failure⟩ := by
  cases attempt <;> simp [failureAt?, eq_comm]

/-- How many of `n` records are attempted when the first failure ends the batch. -/
def attempted (n : Nat) (r : Report) : Nat :=
  match r.failures with
  | [] => n
  | f :: _ => f.index + 1

/-! ### Joining reports -/

@[simp] theorem behind_zero (r : Report) : r.behind 0 = r := by
  show ({ r with failures := r.failures.map id } : Report) = r
  rw [List.map_id]

@[simp] theorem empty_followedBy (r : Report) : empty.followedBy 0 r = r := by
  rw [followedBy, behind_zero]
  simp [empty]

theorem followedBy_assoc (front middle back : Report) (m n : Nat) :
    (front.followedBy m middle).followedBy (m + n) back =
      front.followedBy m (middle.followedBy n back) := by
  simp [followedBy, behind, RecordFailure.behind, Nat.add_assoc, Nat.add_comm m n]

theorem ofAttempts_append (front back : List (Record × Attempt)) :
    ofAttempts (front ++ back) = (ofAttempts front).followedBy front.length (ofAttempts back) := by
  induction front with
  | nil => exact (empty_followedBy _).symm
  | cons head rest ih =>
    rw [List.cons_append, ofAttempts, ofAttempts, ih, List.length_cons, Nat.add_comm,
      followedBy_assoc]

section First

/-! What the first of several attempts adds to the report of the others, by what it yields. -/

variable (r : Record) (rest : List (Record × Attempt)) (n : Nat)

theorem behind_ofAttempts_trace (trace : Trace) :
    (ofAttempts ((r, .ok (some trace)) :: rest)).behind n =
      let others := (ofAttempts rest).behind (n + 1)
      { others with traces := trace :: others.traces } := by
  simp [ofAttempts, ofAttempt, followedBy, behind, RecordFailure.behind, Nat.add_assoc,
    Nat.add_comm 1]

theorem behind_ofAttempts_skipped :
    (ofAttempts ((r, .ok none) :: rest)).behind n =
      let others := (ofAttempts rest).behind (n + 1)
      { others with skipped := others.skipped + 1 } := by
  simp [ofAttempts, ofAttempt, followedBy, behind, RecordFailure.behind, Nat.add_assoc,
    Nat.add_comm 1]

theorem behind_ofAttempts_failure (failure : Failure) :
    (ofAttempts ((r, .error failure) :: rest)).behind n =
      let others := (ofAttempts rest).behind (n + 1)
      { others with failures := ⟨n, r.channel.text, failure⟩ :: others.failures } := by
  simp [ofAttempts, ofAttempt, followedBy, behind, RecordFailure.behind, Nat.add_assoc,
    Nat.add_comm 1]

end First

/-- The records of a batch in which nothing fails are attempted before those that follow. -/
theorem attempted_followedBy {front : Report} (complete : front.failures = []) (m n : Nat)
    (back : Report) : (front.followedBy n back).attempted (m + n) = back.attempted m + n := by
  rw [attempted, attempted, followedBy, complete, List.nil_append, behind]
  cases back.failures with
  | nil => rfl
  | cons f others => exact Nat.add_right_comm ..

theorem ofRecords_cons (codec : Codec) (host : ByteOrder) (r : Record) (rest : List Record) :
    ofRecords codec host (r :: rest) =
      (ofAttempt r (r.assemble codec host).result).followedBy 1 (ofRecords codec host rest) := rfl

theorem ofRecords_append (codec : Codec) (host : ByteOrder) (front back : List Record) :
    ofRecords codec host (front ++ back) =
      (ofRecords codec host front).followedBy front.length (ofRecords codec host back) := by
  rw [ofRecords, List.map_append, ofAttempts_append, List.length_map]
  rfl

/-! ### The first failure -/

theorem orFirstFailure_eq_ok_iff {r s : Report} :
    r.orFirstFailure = .ok s ↔ r.failures = [] ∧ s = r := by
  rw [orFirstFailure]
  cases r.failures <;> simp [eq_comm]

theorem orFirstFailure_eq_error_iff {r : Report} {failure : Failure} :
    r.orFirstFailure = .error failure ↔
      ∃ f, r.failures.head? = some f ∧ failure = .record f.index f.channel f.failure := by
  rw [orFirstFailure]
  cases r.failures <;> simp [RecordFailure.toFailure, eq_comm]

/-! ### The parts of a report -/

theorem traces_ofAttempts (attempts : List (Record × Attempt)) :
    (ofAttempts attempts).traces = attempts.filterMap fun p => p.2.trace? := by
  induction attempts with
  | nil => rfl
  | cons head rest ih =>
    obtain ⟨r, failure | _ | trace⟩ := head <;>
      simp [ofAttempts, followedBy, behind, ofAttempt, ih, Attempt.trace?]

theorem skipped_ofAttempts (attempts : List (Record × Attempt)) :
    (ofAttempts attempts).skipped = attempts.countP fun p => p.2.isSkipped := by
  induction attempts with
  | nil => rfl
  | cons head rest ih =>
    obtain ⟨r, failure | _ | trace⟩ := head <;>
      simp [ofAttempts, followedBy, ofAttempt, ih, Attempt.isSkipped, Nat.add_comm]

theorem length_ofAttempts (attempts : List (Record × Attempt)) :
    (ofAttempts attempts).traces.length + (ofAttempts attempts).failures.length +
      (ofAttempts attempts).skipped = attempts.length := by
  induction attempts with
  | nil => rfl
  | cons head rest ih =>
    rw [List.length_cons, ← ih]
    obtain ⟨r, failure | _ | trace⟩ := head <;>
      simp [ofAttempts, followedBy, behind, ofAttempt] <;> omega

/-- Every record ends up in exactly one of the three parts. -/
theorem length_ofRecords (codec : Codec) (host : ByteOrder) (records : List Record) :
    (ofRecords codec host records).traces.length + (ofRecords codec host records).failures.length +
      (ofRecords codec host records).skipped = records.length :=
  (length_ofAttempts _).trans (List.length_map ..)

theorem mem_failures_behind {r : Report} {n : Nat} {f : RecordFailure} :
    f ∈ (r.behind n).failures ↔ ∃ g ∈ r.failures, f = g.behind n := by
  simp [behind, eq_comm]

theorem failures_behind_ofAttempts (attempts : List (Record × Attempt)) (n : Nat) :
    ((ofAttempts attempts).behind n).failures =
      (attempts.zipIdx n).filterMap fun entry => failureAt? entry.2 entry.1 := by
  induction attempts generalizing n with
  | nil => rfl
  | cons head rest ih =>
    rw [List.zipIdx_cons, List.filterMap_cons, ← ih]
    obtain ⟨r, failure | _ | trace⟩ := head
    · rw [behind_ofAttempts_failure]
      rfl
    · rw [behind_ofAttempts_skipped]
      rfl
    · rw [behind_ofAttempts_trace]
      rfl

theorem mem_failures_ofAttempts {attempts : List (Record × Attempt)} {f : RecordFailure} :
    f ∈ (ofAttempts attempts).failures ↔
      ∃ r, attempts[f.index]? = some (r, .error f.failure) ∧ f.channel = r.channel.text := by
  rw [← behind_zero (ofAttempts attempts), failures_behind_ofAttempts, List.mem_filterMap]
  constructor
  · rintro ⟨⟨⟨r, attempt⟩, index⟩, member, failed⟩
    obtain ⟨failure, rfl, rfl⟩ := failureAt?_eq_some_iff.1 failed
    exact ⟨r, List.mem_zipIdx_iff_getElem?.1 member, rfl⟩
  · rintro ⟨r, entry, channel⟩
    refine ⟨((r, .error f.failure), f.index), List.mem_zipIdx_iff_getElem?.2 entry, ?_⟩
    exact failureAt?_eq_some_iff.2 ⟨f.failure, rfl, by rw [← channel]⟩

theorem pairwise_index_ofAttempts (attempts : List (Record × Attempt)) :
    (ofAttempts attempts).failures.Pairwise fun f g => f.index < g.index := by
  induction attempts with
  | nil => exact .nil
  | cons head rest ih =>
    have later : ((ofAttempts rest).behind 1).failures.Pairwise fun f g => f.index < g.index := by
      rw [behind, List.pairwise_map]
      exact ih.imp fun h => Nat.succ_lt_succ h
    obtain ⟨r, failure | _ | trace⟩ := head
    · refine .cons ?_ later
      intro g hg
      obtain ⟨f, -, rfl⟩ := mem_failures_behind.1 hg
      exact Nat.succ_pos _
    · exact later
    · exact later

end Report
end Seismogram.Assembly
