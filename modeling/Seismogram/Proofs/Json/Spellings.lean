import Mathlib.Data.List.Perm.Basic
import Seismogram.Proofs.Json.Forms

/-!
# Spellings of structures

One structure can be spelled in many ways: its members stand in any order, some may be left out, and
others that it does not know may stand between them. A rule says of one member which values stand
for it and whether it may be left out. However a structure is spelled, its reader finds the values
that the rules allow; only a name that is no text makes the whole object unreadable.
-/

namespace Seismogram.Json

/-- What is said of one member: its name, the values that stand for it, and whether it may be left
out. -/
structure MemberRule where
  name : String
  stands : Value → Prop
  omissible : Prop

/-- A member with a default: given as its form writes it, or left out where it has the default. -/
def MemberRule.written {α : Type} (name : String) (f : Form α) (default a : α) : MemberRule :=
  ⟨name, (· = f.write a), a = default⟩

/-- Members that follow rules, one after another. -/
inductive Stated : List MemberRule → List (String × Value) → Prop where
  | nil : Stated [] []
  | given {rule : MemberRule} {rules : List MemberRule} {value : Value}
      {stated : List (String × Value)} (stands : rule.stands value) (rest : Stated rules stated) :
      Stated (rule :: rules) ((rule.name, value) :: stated)
  | leftOut {rule : MemberRule} {rules : List MemberRule} {stated : List (String × Value)}
      (omissible : rule.omissible) (rest : Stated rules stated) : Stated (rule :: rules) stated

/-- Objects with members that follow rules, in any order and among others of unknown names. -/
inductive Spelled (rules : List MemberRule) : Value → Prop where
  | object {all others : List (Text × Value)} {stated : List (String × Value)}
      (follows : Stated rules stated)
      (order : all.Perm ((stated.map fun m => (some m.1, m.2)) ++ others))
      (unknown : ∀ m ∈ others, ∀ rule ∈ rules, m.1 ≠ some rule.name) : Spelled rules (.object all)

def Value.members : Value → List (Text × Value)
  | .object all => all
  | _ => []

/-- Whether the names of all members are texts. -/
def Value.WellNamed (v : Value) : Prop := ∀ m ∈ v.members, m.1.isSome = true

/-- An object that is written by the rules is a spelling without other members. -/
theorem Stated.spelled {rules : List MemberRule} {stated : List (String × Value)}
    (follows : Stated rules stated) : Spelled rules (Value.ofMembers stated) := by
  rw [Members.ofMembers_eq]
  exact .object follows (by rw [List.append_nil]) (List.forall_mem_nil _)

theorem mem_members_ofMembers {entries : List (String × Value)} {name : String} {v : Value} :
    (some name, v) ∈ (Value.ofMembers entries).members ↔ (name, v) ∈ entries := by
  simp [Value.ofMembers, Value.members, Prod.ext_iff]

theorem wellNamed_ofMembers (entries : List (String × Value)) :
    (Value.ofMembers entries).WellNamed := by
  intro m listed
  obtain ⟨entry, -, rfl⟩ := List.mem_map.1 listed
  rfl

/-! ### Members by their names -/

section Lookup

variable {β : Type} {entries : List (String × β)} {name : String} {value : β}

theorem lookup_eq_some_iff_mem (distinct : (entries.map (·.1)).Nodup) :
    entries.lookup name = some value ↔ (name, value) ∈ entries := by
  induction entries with
  | nil => simp
  | cons e entries ih =>
    rw [List.map_cons, List.nodup_cons] at distinct
    obtain ⟨absent, distinct⟩ := distinct
    rw [List.lookup_cons]
    by_cases same : name = e.1
    · have elsewhere : (name, value) ∉ entries := fun member =>
        absent (same ▸ List.mem_map_of_mem member)
      simp [same ▸ elsewhere, same, Prod.ext_iff, eq_comm]
    · simp [beq_eq_false_iff_ne.2 same, ih distinct, Prod.ext_iff, same]

theorem lookup_eq_of_perm {entries' : List (String × β)} (order : entries.Perm entries')
    (distinct : (entries'.map (·.1)).Nodup) (name : String) :
    entries.lookup name = entries'.lookup name := by
  refine Option.ext fun value => ?_
  rw [lookup_eq_some_iff_mem ((order.map _).nodup_iff.2 distinct), lookup_eq_some_iff_mem distinct,
    order.mem_iff]

theorem lookup_eq_none_of_notMem (absent : name ∉ entries.map (·.1)) :
    entries.lookup name = none := by
  rw [List.lookup_eq_none_iff]
  exact fun e listed => bne_iff_ne.2 fun same => absent (same ▸ List.mem_map_of_mem listed)

end Lookup

variable {rules : List MemberRule} {rule : MemberRule} {stated : List (String × Value)}

theorem Stated.names_sublist (follows : Stated rules stated) :
    (stated.map (·.1)).Sublist (rules.map (·.name)) := by
  induction follows with
  | nil => exact .slnil
  | given stands rest ih => exact ih.cons_cons _
  | leftOut omissible rest ih => exact ih.cons _

/-- A member that may not be left out is given. -/
theorem Stated.exists_of_required {name : String} {stands : Value → Prop}
    (follows : Stated (⟨name, stands, False⟩ :: rules) stated) :
    ∃ value rest, stated = (name, value) :: rest ∧ stands value ∧ Stated rules rest := by
  cases follows with
  | given stands rest => exact ⟨_, _, rfl, stands, rest⟩
  | leftOut omissible rest => exact omissible.elim

/-- Of each member it is told whether it is given, and so that it may be left out if it is not. -/
theorem Stated.lookup_cases (follows : Stated rules stated) (distinct : (rules.map (·.name)).Nodup)
    (listed : rule ∈ rules) :
    (∃ value, stated.lookup rule.name = some value ∧ rule.stands value) ∨
      (stated.lookup rule.name = none ∧ rule.omissible) := by
  induction follows with
  | nil => cases listed
  | @given first rules value stated stands rest ih =>
    rw [List.map_cons, List.nodup_cons] at distinct
    obtain rfl | later := List.mem_cons.1 listed
    · exact .inl ⟨value, List.lookup_cons_self, stands⟩
    · have other : rule.name ≠ first.name := fun same =>
        distinct.1 (same ▸ List.mem_map_of_mem later)
      rw [List.lookup_cons, beq_eq_false_iff_ne.2 other]
      exact ih distinct.2 later
  | @leftOut first rules stated omissible rest ih =>
    rw [List.map_cons, List.nodup_cons] at distinct
    obtain rfl | later := List.mem_cons.1 listed
    · -- No later rule has the name, so no stated member has it either.
      have absent : rule.name ∉ stated.map (·.1) := fun given =>
        distinct.1 (rest.names_sublist.subset given)
      exact .inr ⟨lookup_eq_none_of_notMem absent, omissible⟩
    · exact ih distinct.2 later

/-- A list that has one element of a kind is parted into this one and the others, in some order. -/
theorem partition_of_perm {α : Type} {p : α → Bool} {a : α} {all rest : List α}
    (order : all.Perm (a :: rest)) (own : p a = true) (out : ∀ b ∈ rest, ¬ p b = true) :
    ∃ others, all.partition p = ([a], others) ∧ others.Perm rest := by
  have parted := order.filter p
  rw [List.filter_cons_of_pos own, List.filter_eq_nil_iff.2 out] at parted
  have others := order.filter (not ∘ p)
  have whole : rest.filter (not ∘ p) = rest :=
    List.filter_eq_self.2 fun b listed => by simpa using out b listed
  rw [List.filter_cons_of_neg (by simp [own]), whole] at others
  refine ⟨_, ?_, others⟩
  rw [List.partition_eq_filter_filter, List.perm_singleton.1 parted]

theorem Spelled.exists_members {v : Value} (spelled : Spelled rules v) :
    ∃ all, v = .object all := by
  cases spelled
  exact ⟨_, rfl⟩

/-- A spelling is parted into a member that may not be left out and a spelling of the others. -/
theorem Spelled.exists_partition {name : String} {stands : Value → Prop}
    {all : List (Text × Value)} (spelled : Spelled (⟨name, stands, False⟩ :: rules) (.object all))
    (apart : name ∉ rules.map (·.name)) :
    ∃ value beside, stands value ∧ all.Perm ((some name, value) :: beside) ∧
      all.partition (fun m => m.1 == some name) = ([(some name, value)], beside) ∧
      Spelled rules (.object beside) := by
  obtain @⟨_, others, _, follows, order, unknown⟩ := spelled
  obtain ⟨value, stated, rfl, stands, follows⟩ := follows.exists_of_required
  rw [List.map_cons, List.cons_append] at order
  have unnamed : ∀ m ∈ (stated.map fun m => ((some m.1, m.2) : Text × Value)) ++ others,
      ¬ (m.1 == some name) = true := by
    intro m listed named
    obtain own | other := List.mem_append.1 listed
    · obtain ⟨entry, given, rfl⟩ := List.mem_map.1 own
      have known := follows.names_sublist.subset (List.mem_map_of_mem given)
      exact apart (Option.some.inj (beq_iff_eq.1 named) ▸ known)
    · exact unknown m other _ List.mem_cons_self (beq_iff_eq.1 named)
  obtain ⟨beside, parted, same⟩ := partition_of_perm (p := fun m => m.1 == some name) order
    (beq_self_eq_true _) unnamed
  exact ⟨value, beside, stands, order.trans (same.symm.cons _), parted,
    .object follows same fun m listed rule given =>
      unknown m listed rule (List.mem_cons_of_mem _ given)⟩

/-! ### Reading -/

namespace Members

variable {names : List String} {all others : List (Text × Value)} {room : Nat}

theorem mem_known_iff {name : String} {value : Value} :
    (name, value) ∈ known names all ↔ name ∈ names ∧ (some name, value) ∈ all := by
  rw [known, List.mem_filterMap]
  constructor
  · rintro ⟨⟨_ | own, v⟩, listed, found⟩
    · cases found
    · simp only at found
      split at found
      · next known =>
        obtain ⟨rfl, rfl⟩ := Prod.mk.inj (Option.some.inj found)
        exact ⟨List.contains_iff_mem.1 known, listed⟩
      · cases found
  · rintro ⟨known, listed⟩
    exact ⟨_, listed, if_pos (List.contains_iff_mem.2 known)⟩

theorem known_append (front back : List (Text × Value)) :
    known names (front ++ back) = known names front ++ known names back :=
  List.filterMap_append

theorem known_of_perm {all' : List (Text × Value)} (names : List String) (order : all.Perm all') :
    (known names all).Perm (known names all') :=
  order.filterMap _

theorem known_eq_nil (unknown : ∀ m ∈ others, ∀ name ∈ names, m.1 ≠ some name) :
    known names others = [] := by
  rw [List.eq_nil_iff_forall_not_mem]
  rintro ⟨name, value⟩ listed
  obtain ⟨known, member⟩ := mem_known_iff.1 listed
  exact unknown _ member name known rfl

/-- The known members of a spelling are those that are stated. -/
theorem known_perm (follows : Stated rules stated)
    (order : all.Perm ((stated.map fun m => (some m.1, m.2)) ++ others))
    (unknown : ∀ m ∈ others, ∀ rule ∈ rules, m.1 ≠ some rule.name) :
    (known (rules.map (·.name)) all).Perm stated := by
  have none : known (rules.map (·.name)) others = [] := known_eq_nil fun m listed name known => by
    obtain ⟨rule, member, rfl⟩ := List.mem_map.1 known
    exact unknown m listed rule member
  have own : known (rules.map (·.name)) (stated.map fun m => (some m.1, m.2)) = stated :=
    known_map fun m member => follows.names_sublist.subset (List.mem_map_of_mem member)
  have found := known_of_perm (rules.map (·.name)) order
  rwa [known_append, own, none, List.append_nil] at found

end Members

/-- What is read off a spelling: nothing if a name is no text, and otherwise each member as its rule
says. -/
theorem Spelled.ofValue?_eq_some_iff {names : List String} {v : Value} {room : Nat} {ms : Members}
    (spelled : Spelled rules v) (named : rules.map (·.name) = names) (distinct : names.Nodup) :
    Members.ofValue? names room v = some ms ↔
      v.WellNamed ∧ ms = ⟨room - 1, Members.known names v.members⟩ := by
  subst named
  cases spelled with
  | @object all others stated follows order unknown =>
    have found := Members.known_perm follows order unknown
    have once : ((Members.known (rules.map (·.name)) all).map (·.1)).Nodup :=
      (found.map _).nodup_iff.2 (follows.names_sublist.nodup distinct)
    have wellNamed : (Value.object all).WellNamed ↔ all.all (fun m => m.1.isSome) = true :=
      List.all_eq_true.symm
    rw [Members.ofValue?, wellNamed]
    simp only [once, and_true]
    split
    · next well => rw [and_iff_right well, Option.some.injEq, eq_comm, Value.members]
    · next ill => exact iff_of_false (Option.some_ne_none ms).symm fun both => ill both.1

theorem Spelled.read_structured {α : Type} {names : List String}
    {write : α → List (String × Value)} {read : Members → Option α} {v : Value} {room : Nat} {x : α}
    (spelled : Spelled rules v) (named : rules.map (·.name) = names) (distinct : names.Nodup) :
    (Form.structured names write read).read room v = some x ↔
      v.WellNamed ∧ read ⟨room - 1, Members.known names v.members⟩ = some x := by
  show (Members.ofValue? names room v).bind read = some x ↔ _
  rw [Option.bind_eq_some_iff]
  simp only [spelled.ofValue?_eq_some_iff named distinct]
  constructor
  · rintro ⟨ms, ⟨well, rfl⟩, found⟩
    exact ⟨well, found⟩
  · rintro ⟨well, found⟩
    exact ⟨_, ⟨well, rfl⟩, found⟩

/-- How a member with a default is read off a spelling. -/
theorem Spelled.withDefault_eq_some_iff {α : Type} {names : List String} {v : Value} {room : Nat}
    {f : Form α} {a default x : α} {name : String} {stands legible : Value → Prop}
    {omissible : Prop}
    (spelled : Spelled rules v) (named : rules.map (·.name) = names) (distinct : names.Nodup)
    (listed : ⟨name, stands, omissible⟩ ∈ rules)
    (read : ∀ value, stands value → ∀ x, f.read room value = some x ↔ legible value ∧ x = a)
    (leftOut : omissible → default = a) :
    Members.withDefault ⟨room, Members.known names v.members⟩ f name default = some x ↔
      (∀ value, (some name, value) ∈ v.members → legible value) ∧ x = a := by
  subst named
  cases spelled with
  | @object all others stated follows order unknown =>
    have found := Members.known_perm follows order unknown
    have once : (stated.map (·.1)).Nodup := follows.names_sublist.nodup distinct
    have known : name ∈ rules.map (·.name) := List.mem_map.2 ⟨_, listed, rfl⟩
    -- What stands under the name of the rule in the object is what is stated.
    have member (value : Value) :
        (some name, value) ∈ all ↔ stated.lookup name = some value := by
      rw [lookup_eq_some_iff_mem once, ← found.mem_iff, Members.mem_known_iff]
      exact (and_iff_right known).symm
    rw [Members.withDefault, Members.get?]
    simp only [Value.members, member, lookup_eq_of_perm found once]
    obtain ⟨value, given, stands⟩ | ⟨absent, omissible⟩ := follows.lookup_cases distinct listed
    · rw [given]
      simp [read value stands]
    · rw [absent]
      simp [leftOut omissible, eq_comm]

theorem Spelled.withDefault_written {α : Type} {names : List String} {v : Value} {room : Nat}
    {f : Form α} {name : String} {default a : α} (spelled : Spelled rules v)
    (named : rules.map (·.name) = names) (distinct : names.Nodup)
    (listed : MemberRule.written name f default a ∈ rules)
    (reads : f.read room (f.write a) = some a) :
    Members.withDefault ⟨room, Members.known names v.members⟩ f name default = some a := by
  have read (value : Value) (stands : value = f.write a) (x : α) :
      f.read room value = some x ↔ True ∧ x = a := by
    rw [stands, reads, Option.some.injEq, true_and, eq_comm]
  exact (spelled.withDefault_eq_some_iff named distinct listed read Eq.symm).2
    ⟨fun _ _ => trivial, rfl⟩

/-! ### Values that are kept -/

namespace Value

variable (lib : Library)

theorem holdsMembers_eq_all (room : Nat) (all : List (Text × Value)) :
    holdsMembers lib room all = all.all fun m => m.1.isSome && holds lib room m.2 := by
  induction all with
  | nil => rfl
  | cons m all ih => rw [holdsMembers, ih, List.all_cons]

theorem holdsMembers_of_perm {all all' : List (Text × Value)} (order : all.Perm all')
    (room : Nat) : holdsMembers lib room all = holdsMembers lib room all' := by
  rw [holdsMembers_eq_all, holdsMembers_eq_all, order.all_eq]

theorem holds_object_succ (room : Nat) (all : List (Text × Value)) :
    (Value.object all).holds lib (room + 1) = holdsMembers lib room all := by
  rw [Value.holds, decide_eq_true (Nat.succ_pos room), Bool.true_and, Nat.add_sub_cancel]

theorem wellNamed_of_holds {lib : Library} {v : Value} {room : Nat}
    (kept : v.holds lib (room + 1) = true) : v.WellNamed := by
  cases v with
  | object all =>
    rw [holds_object_succ, holdsMembers_eq_all, List.all_eq_true] at kept
    exact fun m listed => (Bool.and_eq_true_iff.1 (kept m listed)).1
  | null | bool | number | text | array => exact List.forall_mem_nil _

end Value

end Seismogram.Json
