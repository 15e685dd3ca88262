import Seismogram.Proofs.Json.Spellings
import Seismogram.Proofs.Json.Standard
import Seismogram.Proofs.Stored.Catalog
import Seismogram.Stored.Config

/-!
# Spellings of a configuration

A configuration is read back from its text, and from every other spelling of it: with any members
left out that have their default values, in any order, and among unknown members. What stands in an
unknown member does not matter, with one exception. The members beside the mode of an execution are
kept until the mode is known, so the library has to read all of them there: they may not be nested
too deeply, their strings have to be well-formed, and their numbers such as it reads.
-/

namespace Seismogram.Stored

open Json Json.Form Assembly

/-! ### The spellings -/

def modeName : Execution → String
  | .sequential => "sequential"
  | .parallel _ => "parallel"

def argumentRules : Execution → List MemberRule
  | .sequential => []
  | .parallel workers => [.written "workers" count defaultWorkers workers]

def executionRules (e : Execution) : List MemberRule :=
  ⟨"mode", (· = string.write (modeName e)), False⟩ :: argumentRules e

def assemblyRules (machine : ByteOrder) (s : Settings) : List MemberRule :=
  [.written "host_byte_order" byteOrder (Settings.default machine).host s.host,
    .written "error_policy" policy (Settings.default machine).policy s.policy,
    ⟨"execution", Spelled (executionRules s.execution),
      s.execution = (Settings.default machine).execution⟩]

def loggingRules (s : LogSettings) : List MemberRule :=
  [.written "level" string LogSettings.default.level s.level,
    .written "log_file" (optional string) LogSettings.default.file s.file]

/-- The spellings of a configuration. Every member may be left out where it has its default value,
but for the mode of an execution. -/
def configRules (machine : ByteOrder) (c : Config) : List MemberRule :=
  [⟨"assembly", Spelled (assemblyRules machine c.assembly),
      c.assembly = (Config.default machine).assembly⟩,
    ⟨"logging", Spelled (loggingRules c.logging), c.logging = (Config.default machine).logging⟩]

def CountsWorkers (e : Execution) : Prop := ∀ workers, e = .parallel workers → workers < UInt64.size

variable {lib : Library} {machine : ByteOrder}

/-! ### Executions -/

theorem mode_notMem_arguments (e : Execution) : "mode" ∉ (argumentRules e).map (·.name) := by
  cases e with
  | sequential => exact List.not_mem_nil
  | parallel workers => simp [argumentRules, MemberRule.written]

/-- What comes of an object with a mode once this is parted from the members beside it. -/
theorem read_execution_of_parted {name : Text} {mode : String} {all beside : List (Text × Value)}
    (parted : partitionMembers "mode" all = ([(name, .text (some mode))], beside)) (room : Nat) :
    (execution lib).read (room + 1) (.object all) =
      if Value.holdsMembers lib room beside = true then
        readExecution (room + 1) (.object beside) mode
      else none := by
  simp only [execution, parted, Nat.add_sub_cancel]

theorem readExecution_arguments {e : Execution} {v : Value} (counts : CountsWorkers e)
    (spelled : Spelled (argumentRules e) v) (well : v.WellNamed) (room : Nat) :
    readExecution room v (modeName e) = some e := by
  cases e with
  | sequential =>
    cases spelled
    rfl
  | parallel workers =>
    have named : (argumentRules (.parallel workers)).map (·.name) = ["workers"] := rfl
    have distinct : ["workers"].Nodup := by decide
    have members : Members.ofValue? ["workers"] room v = some _ :=
      (spelled.ofValue?_eq_some_iff named distinct).2 ⟨well, rfl⟩
    have kept : count.Keeps .standard workers := keeps_count (counts workers rfl)
    have read : Members.withDefault ⟨room - 1, _⟩ count "workers" defaultWorkers = some workers :=
      spelled.withDefault_written named distinct List.mem_cons_self (kept.read_write _)
    unfold readExecution
    rw [modeName, if_neg (by decide), if_pos rfl, members]
    show (Members.withDefault _ count "workers" defaultWorkers).bind _ = _
    rw [read]
    rfl

/-- An execution is read off its spelling exactly if all of its members can be kept. -/
theorem read_execution {e x : Execution} {v : Value} {room : Nat} (counts : CountsWorkers e)
    (spelled : Spelled (executionRules e) v) :
    (execution lib).read (room + 1) v = some x ↔ v.holds lib (room + 1) = true ∧ x = e := by
  obtain ⟨all, rfl⟩ := spelled.exists_members
  obtain ⟨mode, beside, rfl, order, parted, arguments⟩ :=
    spelled.exists_partition (mode_notMem_arguments e)
  have kept : (Value.object all).holds lib (room + 1) = Value.holdsMembers lib room beside := by
    rw [Value.holds_object_succ, Value.holdsMembers_of_perm lib order]
    rfl
  rw [read_execution_of_parted parted, kept, Option.ite_none_right_eq_some]
  refine and_congr_right fun held => ?_
  have well : (Value.object beside).WellNamed :=
    Value.wellNamed_of_holds ((Value.holds_object_succ lib room beside).trans held)
  rw [readExecution_arguments counts arguments well, Option.some_inj, eq_comm]

/-! ### Settings -/

/-- Whether the settings of an assembly can be read. Their execution lies within two objects, so
that 125 containers may still be opened inside each other there. -/
def LegibleAssembly (lib : Library) (v : Value) : Prop :=
  v.WellNamed ∧ ∀ e, (some "execution", e) ∈ v.members → e.holds lib 125 = true

/-- Whether a spelling of a configuration can be read. -/
def LegibleConfig (lib : Library) (v : Value) : Prop :=
  v.WellNamed ∧ (∀ a, (some "assembly", a) ∈ v.members → LegibleAssembly lib a) ∧
    ∀ l, (some "logging", l) ∈ v.members → l.WellNamed

theorem keeps_policy (p : Policy) : policy.Keeps lib p := by
  cases p <;> exact keeps_choice (by simp) (by simp)

theorem keeps_logFile (file : Option String) : (Form.optional string).Keeps lib file :=
  .optional (fun _ _ => keeps_string _) (fun _ _ => nofun)

theorem read_logSettings {s x : LogSettings} {v : Value} {room : Nat}
    (spelled : Spelled (loggingRules s) v) :
    logSettings.read room v = some x ↔ v.WellNamed ∧ x = s := by
  have named : (loggingRules s).map (·.name) = ["level", "log_file"] := rfl
  have distinct : ["level", "log_file"].Nodup := by decide
  have file : (Form.optional string).Keeps .standard s.file := keeps_logFile s.file
  rw [logSettings, spelled.read_structured named distinct,
    spelled.withDefault_written named distinct (by simp [loggingRules])
      (read_write_string s.level _),
    spelled.withDefault_written named distinct (by simp [loggingRules]) (file.read_write _)]
  exact and_congr_right fun _ => Option.some_inj.trans eq_comm

theorem read_assemblySettings {s x : Settings} {v : Value} (counts : CountsWorkers s.execution)
    (spelled : Spelled (assemblyRules machine s) v) :
    (assemblySettings lib machine).read 126 v = some x ↔ LegibleAssembly lib v ∧ x = s := by
  have named : (assemblyRules machine s).map (·.name) =
      ["host_byte_order", "error_policy", "execution"] := rfl
  have distinct : ["host_byte_order", "error_policy", "execution"].Nodup := by decide
  have listed : ⟨"execution", Spelled (executionRules s.execution), _⟩ ∈ assemblyRules machine s :=
    List.mem_cons_of_mem _ (List.mem_cons_of_mem _ List.mem_cons_self)
  have host : byteOrder.Keeps lib s.host := keeps_byteOrder s.host
  have errors : policy.Keeps lib s.policy := keeps_policy s.policy
  have execution (e : Execution) :
      Members.withDefault
          ⟨125, Members.known ["host_byte_order", "error_policy", "execution"] v.members⟩
          (Stored.execution lib) "execution" (Settings.default machine).execution = some e ↔
        (∀ value, (some "execution", value) ∈ v.members → value.holds lib 125 = true) ∧
          e = s.execution :=
    spelled.withDefault_eq_some_iff named distinct listed
      (fun _ stands _ => read_execution counts stands) Eq.symm
  rw [assemblySettings, spelled.read_structured named distinct,
    spelled.withDefault_written named distinct (by simp [assemblyRules]) (host.read_write _),
    spelled.withDefault_written named distinct (by simp [assemblyRules]) (errors.read_write _)]
  show v.WellNamed ∧ (Option.bind _ fun e => some (⟨s.host, s.policy, e⟩ : Settings)) = some x ↔ _
  simp only [Option.bind_eq_some_iff, execution]
  constructor
  · rintro ⟨well, e, ⟨kept, rfl⟩, same⟩
    exact ⟨⟨well, kept⟩, (Option.some.inj same).symm⟩
  · rintro ⟨⟨well, kept⟩, rfl⟩
    exact ⟨well, _, ⟨kept, rfl⟩, rfl⟩

theorem read_config {c x : Config} {v : Value} (counts : CountsWorkers c.assembly.execution)
    (spelled : Spelled (configRules machine c) v) :
    (config lib machine).read maxDepth v = some x ↔ LegibleConfig lib v ∧ x = c := by
  show (config lib machine).read 127 v = some x ↔ _
  have named : (configRules machine c).map (·.name) = ["assembly", "logging"] := rfl
  have distinct : ["assembly", "logging"].Nodup := by decide
  have assembly (s : Settings) :
      Members.withDefault ⟨126, Members.known ["assembly", "logging"] v.members⟩
          (assemblySettings lib machine) "assembly" (Config.default machine).assembly = some s ↔
        (∀ value, (some "assembly", value) ∈ v.members → LegibleAssembly lib value) ∧
          s = c.assembly :=
    spelled.withDefault_eq_some_iff named distinct List.mem_cons_self
      (fun _ stands _ => read_assemblySettings counts stands) Eq.symm
  have logging (s : LogSettings) :
      Members.withDefault ⟨126, Members.known ["assembly", "logging"] v.members⟩ logSettings
          "logging" (Config.default machine).logging = some s ↔
        (∀ value, (some "logging", value) ∈ v.members → value.WellNamed) ∧ s = c.logging :=
    spelled.withDefault_eq_some_iff named distinct (List.mem_cons_of_mem _ List.mem_cons_self)
      (fun _ stands _ => read_logSettings stands) Eq.symm
  rw [config, spelled.read_structured named distinct]
  show v.WellNamed ∧
    (Option.bind _ fun s => Option.bind _ fun l => some (⟨s, l⟩ : Config)) = some x ↔ _
  simp only [Option.bind_eq_some_iff, assembly, logging]
  constructor
  · rintro ⟨well, s, ⟨legible, rfl⟩, l, ⟨wellLogging, rfl⟩, same⟩
    exact ⟨⟨well, legible, wellLogging⟩, (Option.some.inj same).symm⟩
  · rintro ⟨⟨well, legible, wellLogging⟩, rfl⟩
    exact ⟨well, _, ⟨legible, rfl⟩, _, ⟨wellLogging, rfl⟩, rfl⟩

/-! ### What is written -/

theorem spelled_execution (e : Execution) :
    Spelled (executionRules e) ((execution lib).write e) := by
  cases e with
  | sequential => exact (Stated.given rfl .nil).spelled
  | parallel workers => exact (Stated.given rfl (.given rfl .nil)).spelled

theorem spelled_assemblySettings (s : Settings) :
    Spelled (assemblyRules machine s) ((assemblySettings lib machine).write s) :=
  (Stated.given rfl (.given rfl (.given (spelled_execution s.execution) .nil))).spelled

theorem spelled_logSettings (s : LogSettings) : Spelled (loggingRules s) (logSettings.write s) :=
  (Stated.given rfl (.given rfl .nil)).spelled

theorem spelled_config (c : Config) :
    Spelled (configRules machine c) ((config lib machine).write c) :=
  (Stated.given (spelled_assemblySettings c.assembly)
    (.given (spelled_logSettings c.logging) .nil)).spelled

theorem holds_execution {e : Execution} (counts : CountsWorkers e) :
    ((execution lib).write e).holds lib 125 = true := by
  cases e with
  | sequential => rfl
  | parallel workers =>
    have kept : (count.write workers).holds lib 124 = true :=
      Value.holdsNumber_integer lib (minValue_le_natCast workers)
        (Int.ofNat_lt.2 (counts workers rfl))
    show Value.holds lib (124 + 1) (.object [(some "mode", string.write "parallel"),
      (some "workers", count.write workers)]) = true
    rw [Value.holds_object_succ, Value.holdsMembers, Value.holdsMembers, Value.holdsMembers, kept]
    rfl

theorem legibleAssembly_write {s : Settings} (counts : CountsWorkers s.execution) :
    LegibleAssembly lib ((assemblySettings lib machine).write s) := by
  refine ⟨wellNamed_ofMembers _, fun e listed => ?_⟩
  obtain rfl : e = (execution lib).write s.execution := by
    simpa using mem_members_ofMembers.1 listed
  exact holds_execution counts

theorem legibleConfig_write {c : Config} (counts : CountsWorkers c.assembly.execution) :
    LegibleConfig lib ((config lib machine).write c) := by
  refine ⟨wellNamed_ofMembers _, fun a listed => ?_, fun l listed => ?_⟩
  · obtain rfl : a = (assemblySettings lib machine).write c.assembly := by
      simpa using mem_members_ofMembers.1 listed
    exact legibleAssembly_write counts
  · obtain rfl : l = logSettings.write c.logging := by simpa using mem_members_ofMembers.1 listed
    exact wellNamed_ofMembers _

theorem writes_execution {e : Execution} (counts : CountsWorkers e) :
    lib.Writes ((execution lib).write e) := by
  cases e with
  | sequential => exact .object (by simp)
  | parallel workers =>
    have kept : count.Keeps lib workers := keeps_count (counts workers rfl)
    exact .object (by simp [kept.writes])

theorem writes_config {c : Config} (counts : CountsWorkers c.assembly.execution) :
    lib.Writes ((config lib machine).write c) := by
  have host : byteOrder.Keeps lib c.assembly.host := keeps_byteOrder _
  have errors : policy.Keeps lib c.assembly.policy := keeps_policy _
  have file : (Form.optional string).Keeps lib c.logging.file := keeps_logFile _
  have assembly : lib.Writes ((assemblySettings lib machine).write c.assembly) :=
    .object (by simp [host.writes, errors.writes, writes_execution counts])
  have logging : lib.Writes (logSettings.write c.logging) := .object (by simp [file.writes])
  exact .object (by simp [assembly, logging])

/-- A configuration and its spellings, for a library that reads the texts it writes. The
configuration is read back from its text, if its workers are counted in 64 bits. From a text that
spells it with members left out that have their defaults, in another order and among unknown
members, it is read if the names of the known objects are texts and the members of the execution,
which are kept until the mode is known, are readable themselves; otherwise the text is refused. -/
theorem config_spelled (back : lib.ReadsBack) (machine : ByteOrder) (c : Config)
    (counts : CountsWorkers c.assembly.execution) :
    (config lib machine).ofText lib ((config lib machine).toText lib c) = .ok c ∧
      ∀ text v, Spelled (configRules machine c) v → lib.parse text = some v →
        (LegibleConfig lib v → (config lib machine).ofText lib text = .ok c) ∧
        (¬ LegibleConfig lib v →
          (config lib machine).ofText lib text = .error (.storedForm (lib.complaint text))) := by
  have spellings (text : String) (v : Value) (spelled : Spelled (configRules machine c) v)
      (parsed : lib.parse text = some v) :
      (LegibleConfig lib v → (config lib machine).ofText lib text = .ok c) ∧
      (¬ LegibleConfig lib v →
        (config lib machine).ofText lib text = .error (.storedForm (lib.complaint text))) := by
    rw [ofText, parsed, Option.bind_some]
    constructor
    · intro legible
      rw [(read_config counts spelled).2 ⟨legible, rfl⟩]
    · intro illegible
      cases found : (config lib machine).read maxDepth v with
      | none => rfl
      | some x => exact absurd ((read_config counts spelled).1 found).1 illegible
  refine ⟨?_, spellings⟩
  exact (spellings _ _ (spelled_config c) (back _ (writes_config counts))).1
    (legibleConfig_write counts)

/-- Arrays inside each other, one more than the number. -/
def nested : Nat → Value
  | 0 => .array []
  | n + 1 => .array [nested n]

theorem holds_nested (n room : Nat) : (nested n).holds lib room = decide (n < room) := by
  induction n generalizing room with
  | zero => rw [nested, Value.holds, Value.holdsItems, Bool.and_true]
  | succ n ih =>
    rw [nested, Value.holds, Value.holdsItems, Value.holdsItems, ih, Bool.and_true,
      ← Bool.decide_and]
    exact decide_eq_decide.2 (by omega)

/-- The settings of `parallel` with the default number of workers, from last to first, among unknown
members of any depth. -/
def parallelSpelled : Value :=
  Value.ofMembers [("notes", nested 127), ("assembly", Value.ofMembers
    [("execution", Value.ofMembers [("note", nested 0), ("mode", string.write "parallel")]),
      ("error_policy", string.write "collect_errors"), ("notes", nested 127)])]

theorem spelled_parallelSpelled (machine : ByteOrder) :
    Spelled (configRules machine ⟨⟨machine, .collectErrors, .parallel 4⟩, LogSettings.default⟩)
      parallelSpelled := by
  refine .object (.given ?_ (.leftOut rfl .nil)) (.swap ..) (by simp [configRules])
  refine .object (.leftOut rfl (.given rfl (.given ?_ .nil))) (.swap ..)
    (by simp [assemblyRules, MemberRule.written])
  exact .object (.given rfl (.leftOut rfl .nil)) (.swap ..)
    (by simp [executionRules, argumentRules, MemberRule.written])

theorem config_spelled_parallel :
    let c : Config := ⟨⟨.little, .collectErrors, .parallel 4⟩, LogSettings.default⟩
    (config .standard .little).ofText .standard ((config .standard .little).toText .standard c) =
        .ok c ∧
      (config .standard .little).ofText .standard parallelSpelled.toText = .ok c := by
  intro c
  have counts : CountsWorkers (.parallel 4) := by
    rintro workers ⟨⟩
    decide
  have legible : LegibleConfig .standard parallelSpelled := by
    refine ⟨wellNamed_ofMembers _, fun a listed => ⟨?_, fun e own => ?_⟩, fun l listed => ?_⟩
    · obtain rfl := by simpa using mem_members_ofMembers.1 listed
      exact wellNamed_ofMembers _
    · obtain rfl := by simpa using mem_members_ofMembers.1 listed
      obtain rfl := by simpa using mem_members_ofMembers.1 own
      rfl
    · cases (by simpa using mem_members_ofMembers.1 listed : False)
  obtain ⟨own, spellings⟩ := config_spelled Library.readsBack_standard .little c counts
  exact ⟨own, (spellings _ _ (spelled_parallelSpelled .little) (Value.ofText?_toText _)).1 legible⟩

/-- A spelling of the default settings with an unknown member that is nested too deeply. -/
def deeplyNoted : Value :=
  Value.ofMembers [("assembly", Value.ofMembers
    [("execution", Value.ofMembers [("mode", string.write "sequential"), ("note", nested 127)])])]

theorem spelled_deeplyNoted (machine : ByteOrder) :
    Spelled (configRules machine (Config.default machine)) deeplyNoted := by
  refine .object (.given ?_ (.leftOut rfl .nil)) (.refl _) (by simp)
  refine .object (.leftOut rfl (.leftOut rfl (.given ?_ .nil))) (.refl _) (by simp)
  exact .object (.given rfl .nil) (.refl _)
    (by simp [executionRules, argumentRules, Config.default, Settings.default])

theorem config_deeplyNoted :
    Spelled (configRules .little (Config.default .little)) deeplyNoted ∧
      Library.standard.parse deeplyNoted.toText = some deeplyNoted ∧
      (config .standard .little).ofText .standard deeplyNoted.toText ≠
        .ok (Config.default .little) := by
  refine ⟨spelled_deeplyNoted .little, Value.ofText?_toText _, fun read => ?_⟩
  have parsed : Library.standard.parse deeplyNoted.toText = some deeplyNoted :=
    Value.ofText?_toText _
  have counts : CountsWorkers (Config.default .little).assembly.execution := by rintro _ ⟨⟩
  rw [ofText, parsed, Option.bind_some] at read
  cases found : (config .standard .little).read maxDepth deeplyNoted with
  | none =>
    rw [found] at read
    cases read
  | some x =>
    obtain ⟨⟨-, legible, -⟩, -⟩ := (read_config counts (spelled_deeplyNoted .little)).1 found
    have kept := (legible _ List.mem_cons_self).2 _ List.mem_cons_self
    simp [Members.ofMembers_eq, Value.holds, Value.holdsMembers, holds_nested] at kept

end Seismogram.Stored
