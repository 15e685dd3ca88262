import Seismogram.Json.Form

/-!
# Forms that keep values

A form keeps a value if reading returns what was written, however few containers may still be opened
there, and if what is written is of the kind that a library reads back. Each way of building a form
has its rule here; what a structure keeps follows from what the forms of its members keep.
-/

namespace Seismogram.Json

/-! ### What a library is relied on for -/

namespace Library

/-- The values that are written: no number but those of integers that fit into 64 bits and of finite
doubles, and no string but those of characters. -/
inductive Writes (lib : Library) : Value → Prop where
  | null : Writes lib .null
  | integer {n : Int} (least : Int64.minValue.toInt ≤ n) (greatest : n < UInt64.size) :
    Writes lib (.number (.integer n))
  | double {x : Float} (finite : x.isFinite = true) : Writes lib (.number (lib.ofDouble x))
  | text (s : String) : Writes lib (.text (some s))
  | array {items : List Value} (each : ∀ v ∈ items, Writes lib v) : Writes lib (.array items)
  | object {members : List (String × Value)} (each : ∀ m ∈ members, Writes lib m.2) :
    Writes lib (Value.ofMembers members)

/-- Whether the text of every value that is written is read as that value. -/
def ReadsBack (lib : Library) : Prop := ∀ v, lib.Writes v → lib.parse (lib.print v) = some v

/-- A finite double that comes back from its number. -/
structure KeepsDouble (lib : Library) (x : Float) : Prop where
  finite : x.isFinite = true
  comesBack : lib.toDouble? (lib.ofDouble x) = some x

/-- Whether an instant comes back from its text. -/
def KeepsInstant (lib : Library) (t : Time.Instant) : Prop :=
  lib.toInstant? (lib.ofInstant t) = some t

end Library

variable {lib : Library} {α β : Type}

namespace Form

structure Keeps (lib : Library) (f : Form α) (a : α) : Prop where
  writes : lib.Writes (f.write a)
  read_write (room : Nat) : f.read room (f.write a) = some a

theorem Keeps.ofText_toText {f : Form α} {a : α} (keeps : f.Keeps lib a) (back : lib.ReadsBack) :
    f.ofText lib (f.toText lib a) = .ok a := by
  rw [ofText, toText, back _ keeps.writes, Option.bind_some, keeps.read_write]

/-! ### Simple values -/

@[simp] theorem writes_string (s : String) : lib.Writes (string.write s) := .text s

@[simp] theorem read_write_string (s : String) (room : Nat) :
    string.read room (string.write s) = some s := rfl

theorem keeps_string (s : String) : string.Keeps lib s := ⟨writes_string s, read_write_string s⟩

theorem keeps_int {least greatest n : Int} (atLeast : least ≤ n) (atMost : n ≤ greatest)
    (low : Int64.minValue.toInt ≤ n) (high : n < UInt64.size) :
    (int least greatest).Keeps lib n := by
  refine ⟨.integer low high, fun room => ?_⟩
  simp [int, Value.ofInt, Number.toInt?, atLeast, atMost]

theorem minValue_le_natCast (n : Nat) : Int64.minValue.toInt ≤ n :=
  Int.le_trans (show Int64.minValue.toInt ≤ 0 by decide) (Int.natCast_nonneg n)

theorem keeps_nat {bound n : Nat} (below : n < bound) (short : bound ≤ UInt64.size) :
    (nat bound).Keeps lib n := by
  have kept : (int 0 (bound - 1)).Keeps lib n :=
    keeps_int (by omega) (by omega) (minValue_le_natCast n) (by omega)
  refine ⟨kept.writes, fun room => ?_⟩
  show Option.map Int.toNat ((int 0 (bound - 1)).read room ((int 0 (bound - 1)).write n)) = some n
  rw [kept.read_write, Option.map_some, Int.toNat_natCast]

theorem keeps_count {n : Nat} (below : n < UInt64.size) : count.Keeps lib n :=
  keeps_nat below (Nat.le_refl _)

theorem keeps_double {x : Float} (kept : lib.KeepsDouble x) : (double lib).Keeps lib x := by
  have written : (double lib).write x = .number (lib.ofDouble x) := if_pos kept.finite
  constructor
  · rw [written]
    exact .double kept.finite
  · intro room
    rw [written]
    exact kept.comesBack

theorem Keeps.map {f : Form α} {back : β → α} {there : α → β} {b : β}
    (keeps : f.Keeps lib (back b)) (inverse : there (back b) = b) :
    (f.map back there).Keeps lib b := by
  refine ⟨keeps.writes, fun room => ?_⟩
  show Option.map there (f.read room (f.write (back b))) = some b
  rw [keeps.read_write, Option.map_some, inverse]

theorem Keeps.mapOption {f : Form α} {back : β → α} {there : α → Option β} {b : β}
    (keeps : f.Keeps lib (back b)) (inverse : there (back b) = some b) :
    (f.mapOption back there).Keeps lib b := by
  refine ⟨keeps.writes, fun room => ?_⟩
  show (f.read room (f.write (back b))).bind there = some b
  rw [keeps.read_write, Option.bind_some, inverse]

/-! ### Absent values, arrays and choices -/

theorem read_optional_of_ne_null {f : Form α} {v : Value} (present : v ≠ .null) (room : Nat) :
    (optional f).read room v = (f.read room v).map some := by
  cases v with
  | null => exact absurd rfl present
  | bool | number | text | array | object => rfl

/-- A value is kept as one that may be absent, unless it is written like an absent one. -/
theorem Keeps.optional {f : Form α} {o : Option α} (keeps : ∀ a ∈ o, f.Keeps lib a)
    (present : ∀ a ∈ o, f.write a ≠ .null) : (optional f).Keeps lib o := by
  cases o with
  | none => exact ⟨.null, fun _ => rfl⟩
  | some a =>
    refine ⟨(keeps a rfl).writes, fun room => ?_⟩
    show (Form.optional f).read room (f.write a) = some (some a)
    rw [read_optional_of_ne_null (present a rfl), (keeps a rfl).read_write, Option.map_some]

theorem readItems_write {f : Form α} {as : List α} (keeps : ∀ a ∈ as, f.Keeps lib a)
    (room : Nat) :
    readItems (f.read room) (as.map f.write) = some as := by
  induction as with
  | nil => rfl
  | cons a as ih =>
    rw [List.forall_mem_cons] at keeps
    rw [List.map_cons, readItems, keeps.1.read_write, ih keeps.2]

theorem Keeps.list {f : Form α} {as : List α} (keeps : ∀ a ∈ as, f.Keeps lib a) :
    (list f).Keeps lib as := by
  refine ⟨.array ?_, fun room => readItems_write keeps (room - 1)⟩
  exact List.forall_mem_map.2 fun a listed => (keeps a listed).writes

/-- A choice keeps each of its values if no other one has the same name. -/
theorem keeps_choice {all : List α} {name : α → String} {a : α} (listed : a ∈ all)
    (distinct : ∀ b ∈ all, name b = name a → b = a) : (choice all name).Keeps lib a := by
  refine ⟨.text (name a), fun room => ?_⟩
  show all.find? (fun b => name b == name a) = some a
  cases found : all.find? fun b => name b == name a with
  | none => exact absurd (beq_self_eq_true (name a)) (List.find?_eq_none.1 found a listed)
  | some b =>
    have same := List.find?_some (p := fun b => name b == name a) found
    exact congrArg some (distinct b (List.mem_of_find?_eq_some found) (beq_iff_eq.1 same))

end Form

/-! ### Structures -/

namespace Members

variable {entries : List (String × Value)} {names : List String} {room : Nat}

theorem ofMembers_eq (entries : List (String × Value)) :
    Value.ofMembers entries = .object (entries.map fun e => (some e.1, e.2)) := rfl

theorem known_cons_of_mem {name : String} (value : Value) (all : List (Text × Value))
    (listed : name ∈ names) :
    known names ((some name, value) :: all) = (name, value) :: known names all := by
  rw [known, List.filterMap_cons]
  simp only [List.contains_iff_mem.2 listed, ↓reduceIte]
  rfl

theorem known_map (listed : ∀ e ∈ entries, e.1 ∈ names) :
    known names (entries.map fun e => (some e.1, e.2)) = entries := by
  induction entries with
  | nil => rfl
  | cons e entries ih =>
    rw [List.forall_mem_cons] at listed
    rw [List.map_cons, known_cons_of_mem _ _ listed.1, ih listed.2]

/-- Members with different known names are read as they were written. -/
theorem ofValue?_ofMembers (distinct : (entries.map (·.1)).Nodup)
    (listed : ∀ e ∈ entries, e.1 ∈ names) :
    ofValue? names room (Value.ofMembers entries) = some ⟨room - 1, entries⟩ := by
  have wellFormed : (entries.map fun e => ((some e.1, e.2) : Text × Value)).all
      (fun m => m.1.isSome) = true := by
    rw [List.all_map, List.all_eq_true]
    exact fun _ _ => rfl
  rw [ofMembers_eq, ofValue?]
  simp only [known_map listed, wellFormed, distinct, and_self, ↓reduceIte]

variable {f : Form α} {name other : String} {value : Value}

@[simp] theorem required_cons_self :
    required ⟨room, (name, value) :: entries⟩ f name = f.read room value := by
  rw [required, get?, List.lookup_cons_self, Option.bind_some]

@[simp] theorem required_cons_of_ne (different : other ≠ name) :
    required ⟨room, (other, value) :: entries⟩ f name = required ⟨room, entries⟩ f name := by
  rw [required, get?, List.lookup_cons, beq_eq_false_iff_ne.2 different.symm]
  rfl

@[simp] theorem withDefault_cons_self (default : α) :
    withDefault ⟨room, (name, value) :: entries⟩ f name default = f.read room value := by
  rw [withDefault, get?, List.lookup_cons_self]

@[simp] theorem withDefault_cons_of_ne (different : other ≠ name) (default : α) :
    withDefault ⟨room, (other, value) :: entries⟩ f name default =
      withDefault ⟨room, entries⟩ f name default := by
  rw [withDefault, get?, List.lookup_cons, beq_eq_false_iff_ne.2 different.symm]
  rfl

end Members

/-- A structure keeps what its members keep. -/
theorem Form.keeps_structured {names : List String} {write : α → List (String × Value)}
    {read : Members → Option α} {a : α} (named : (write a).map (·.1) = names)
    (distinct : names.Nodup) (writes : ∀ m ∈ write a, lib.Writes m.2)
    (reads : ∀ room, read ⟨room, write a⟩ = some a) :
    (structured names write read).Keeps lib a := by
  subst named
  refine ⟨.object writes, fun room => ?_⟩
  show (Members.ofValue? _ room (Value.ofMembers (write a))).bind read = some a
  rw [Members.ofValue?_ofMembers distinct fun e listed => List.mem_map_of_mem listed,
    Option.bind_some, reads]

end Seismogram.Json
