import Seismogram.Assembly.Attempts
import Seismogram.Proofs.Assembly.Parallel

/-!
# How a batch is settled

Under either policy, and however the work is divided, the outcome of a batch is made of the report
on its records, each attempted on its own: the report itself where errors are collected, and the
report or the first failure in it where a failure ends the batch. What the policies differ in
besides are the attempts made one after another: a batch that fails fast makes none after the first
that fails.
-/

namespace Seismogram.Assembly

open Report

namespace Assembler

/-- Where errors are collected settling never fails. It logs one line for each failure, in order,
and gives the report of the attempts. -/
theorem settle_collectErrors (index : Nat) (attempts : List (Record × Attempt)) :
    settle .collectErrors index attempts =
      ⟨(((ofAttempts attempts).behind index).failures.map RecordFailure.warning).map .line,
        .ok ((ofAttempts attempts).behind index)⟩ := by
  induction attempts generalizing index with
  | nil => rfl
  | cons head rest ih =>
    have others : (settle .collectErrors (index + 1) rest).result =
        .ok ((ofAttempts rest).behind (index + 1)) := congrArg Outcome.result (ih _)
    obtain ⟨r, failure | _ | trace⟩ := head
    · rw [behind_ofAttempts_failure, settle, Outcome.bind_of_ok rfl,
        Outcome.bind_pure_of_ok others, ih]
      rfl
    · rw [behind_ofAttempts_skipped, settle, Outcome.bind_pure_of_ok others, ih]
    · rw [behind_ofAttempts_trace, settle, Outcome.bind_pure_of_ok others, ih]

/-- Where a failure ends the batch settling gives the same report, or the first failure in it. -/
theorem result_settle_failFast (index : Nat) (attempts : List (Record × Attempt)) :
    (settle .failFast index attempts).result =
      ((ofAttempts attempts).behind index).orFirstFailure := by
  induction attempts generalizing index with
  | nil => rfl
  | cons head rest ih =>
    obtain ⟨r, failure | _ | trace⟩ := head
    · rw [behind_ofAttempts_failure, settle, Outcome.bind_of_ok rfl]
      rfl
    · rw [behind_ofAttempts_skipped, settle, Outcome.result_bind, ih]
      obtain ⟨traces, _ | ⟨f, failures⟩, skipped⟩ := (ofAttempts rest).behind (index + 1) <;> rfl
    · rw [behind_ofAttempts_trace, settle, Outcome.result_bind, ih]
      obtain ⟨traces, _ | ⟨f, failures⟩, skipped⟩ := (ofAttempts rest).behind (index + 1) <;> rfl

variable (a : Assembler)

/-- How attempts are made is not seen once they are settled: what a batch that fails fast leaves
out has no part in its report, and workers give the results of one after another. -/
theorem settle_attempts (schedule : List Nat) (records : List Record) :
    settle a.settings.policy 0 (records.zip (a.attempts schedule records).result) =
      settle a.settings.policy 0 (records.map fun r => (r, (a.record r).result)) := by
  have alone : records.map (fun r => (r, (a.record r).result)) =
      records.zip (a.attemptAll records).result := List.map_prod_left_eq_zip ..
  rw [alone, attempts]
  cases a.settings.execution with
  | parallel workers =>
    exact congrArg (fun results => settle a.settings.policy 0 (records.zip results))
      (Workers.result_share ..)
  | sequential =>
    cases a.settings.policy with
    | failFast => exact a.settle_attemptUntilFailure 0 0 records
    | collectErrors => rfl

/-- The outcome of a batch by the report on its records. -/
theorem result_assembleUnder_eq (schedule : List Nat) (records : List Record) :
    (a.assembleUnder schedule records).result =
      match a.settings.policy with
      | .failFast => (ofRecords a.codec a.settings.host records).orFirstFailure
      | .collectErrors => .ok (ofRecords a.codec a.settings.host records) := by
  rw [result_assembleUnder, settle_attempts]
  cases a.settings.policy with
  | failFast =>
    rw [result_settle_failFast, behind_zero]
    rfl
  | collectErrors =>
    rw [settle_collectErrors, behind_zero]
    rfl

/-! ### Calls to the codec -/

/-- One after another all records are attempted, and each attempt makes the calls it makes alone. -/
theorem calls_attemptAll (records : List Record) :
    Event.calls (a.attemptAll records).events =
      records.flatMap fun r => Event.calls (a.record r).events :=
  List.filterMap_flatMap ..

theorem calls_attemptUntilFailure (index : Nat) (records : List Record) :
    Event.calls (a.attemptUntilFailure index records).events =
      (records.take ((ofRecords a.codec a.settings.host records).attempted records.length)).flatMap
        fun r => Event.calls (a.record r).events := by
  induction records generalizing index with
  | nil => rfl
  | cons r rest ih =>
    rw [attemptUntilFailure, ofRecords_cons, List.length_cons, ← record]
    cases (a.record r).result with
    | error failure =>
      have first : ((ofAttempt r (.error failure)).followedBy 1
          (ofRecords a.codec a.settings.host rest)).attempted (rest.length + 1) = 1 := rfl
      rw [first, List.take_succ_cons, List.take_zero, List.flatMap_singleton]
      exact (Event.calls_append ..).trans (List.append_nil _)
    | ok trace =>
      have complete : (ofAttempt r (.ok trace)).failures = [] := by cases trace <;> rfl
      rw [attempted_followedBy complete, List.take_succ_cons, List.flatMap_cons]
      simp only [Event.calls_append, ih]

end Assembler
end Seismogram.Assembly
