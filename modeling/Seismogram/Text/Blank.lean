/-!
# Blank characters

The characters with the Unicode property `White_Space`, and trimming by them. Codes of sites and
timestamps arrive padded with such characters, not only with ASCII spaces.
-/

namespace Seismogram.Text

/-- The ranges of code points with the property `White_Space`, ends included. -/
def blankRanges : List (Nat × Nat) :=
  [(0x09, 0x0D), (0x20, 0x20), (0x85, 0x85), (0xA0, 0xA0), (0x1680, 0x1680), (0x2000, 0x200A),
   (0x2028, 0x2029), (0x202F, 0x202F), (0x205F, 0x205F), (0x3000, 0x3000)]

def isBlank (c : Char) : Bool :=
  blankRanges.any fun (first, last) => decide (first ≤ c.toNat) && decide (c.toNat ≤ last)

def skipBlanks (cs : List Char) : List Char := cs.dropWhile isBlank

def dropBlanksAtEnd (cs : List Char) : List Char := (skipBlanks cs.reverse).reverse

theorem skipBlanks_cons_of_not_blank {c : Char} (h : isBlank c = false) (cs : List Char) :
    skipBlanks (c :: cs) = c :: cs := by
  simp [skipBlanks, h]

/-- The text without blanks at its end. -/
def trimEnd (s : String) : String := String.ofList (dropBlanksAtEnd s.toList)

/-- The text without blanks at either end. -/
def trim (s : String) : String := String.ofList (dropBlanksAtEnd (skipBlanks s.toList))

theorem skipBlanks_append_of_blank {front : List Char} (blank : ∀ c ∈ front, isBlank c = true)
    (rest : List Char) : skipBlanks (front ++ rest) = skipBlanks rest :=
  List.dropWhile_append_of_pos blank

theorem skipBlanks_append_of_visible {cs : List Char} (visible : ∀ c ∈ cs, isBlank c = false)
    (nonempty : cs ≠ []) (rest : List Char) : skipBlanks (cs ++ rest) = cs ++ rest := by
  obtain ⟨c, more, rfl⟩ := List.exists_cons_of_ne_nil nonempty
  exact skipBlanks_cons_of_not_blank (visible c List.mem_cons_self) _

/-- Blanks around a text without blanks are trimmed. -/
theorem trim_between {front cs back : List Char} (blankFront : ∀ c ∈ front, isBlank c = true)
    (visible : ∀ c ∈ cs, isBlank c = false) (blankBack : ∀ c ∈ back, isBlank c = true)
    (nonempty : cs ≠ []) : trim (String.ofList (front ++ (cs ++ back))) = String.ofList cs := by
  have visible' : ∀ c ∈ cs.reverse, isBlank c = false := fun c member =>
    visible c (List.mem_reverse.1 member)
  have blank' : ∀ c ∈ back.reverse, isBlank c = true := fun c member =>
    blankBack c (List.mem_reverse.1 member)
  have nonempty' : cs.reverse ≠ [] := by simpa using nonempty
  have kept := skipBlanks_append_of_visible visible' nonempty' []
  rw [List.append_nil] at kept
  rw [trim, String.toList_ofList, skipBlanks_append_of_blank blankFront,
    skipBlanks_append_of_visible visible nonempty, dropBlanksAtEnd, List.reverse_append,
    skipBlanks_append_of_blank blank', kept, List.reverse_reverse]

theorem isBlank_of_isDigit {c : Char} (digit : c.isDigit = true) : isBlank c = false := by
  have bounds : 48 ≤ c.toNat ∧ c.toNat ≤ 57 := by
    rw [Char.isDigit, Bool.and_eq_true, decide_eq_true_eq, decide_eq_true_eq] at digit
    exact digit
  simp [isBlank, blankRanges]
  omega

end Seismogram.Text
