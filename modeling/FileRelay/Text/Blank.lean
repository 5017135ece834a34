/-!
# Text/Blank — blank characters, and texts without the blanks at their ends

A character is **blank** when Unicode gives it the property *White_Space*.  Everything the library
trims, it trims of these characters: digest entries, header numbers, names of encodings and
algorithms, times.
-/

namespace FileRelay.Text

/-- **Blank characters** are those with the Unicode property *White_Space*. -/
def isBlank (c : Char) : Bool :=
  let n := c.toNat
  (9 ≤ n && n ≤ 13) || n == 0x20 || n == 0x85 || n == 0xA0 || n == 0x1680 ||
  (0x2000 ≤ n && n ≤ 0x200A) || n == 0x2028 || n == 0x2029 || n == 0x202F || n == 0x205F ||
  n == 0x3000

/-- A text without the blanks at its beginning. -/
def trimStart (cs : List Char) : List Char := cs.dropWhile isBlank

/-- A text without the blanks at its end. -/
def trimEnd (cs : List Char) : List Char := (cs.reverse.dropWhile isBlank).reverse

/-- A text without the blanks at either end. -/
def trim (cs : List Char) : List Char := trimEnd (trimStart cs)

/-- A string without the blanks at either end. -/
def trimmed (s : String) : String := String.ofList (trim s.toList)

/-- **Nothing is left of a text exactly when it is all blank.** -/
theorem trim_eq_nil_iff {cs : List Char} : trim cs = [] ↔ ∀ c ∈ cs, isBlank c = true := by
  have key : ∀ l : List Char, l.dropWhile isBlank = [] ↔ ∀ c ∈ l, isBlank c = true := by
    intro l
    induction l with
    | nil => simp
    | cons c l ih => by_cases h : isBlank c = true <;> simp [h, ih]
  have suffix : ∀ l : List Char, (∀ c ∈ l.dropWhile isBlank, isBlank c = true) →
      ∀ c ∈ l, isBlank c = true := by
    intro l
    induction l with
    | nil => simp
    | cons c l ih =>
      by_cases h : isBlank c = true
      · simpa [List.dropWhile_cons, h] using ih
      · simp [h]
  simp only [trim, trimEnd, trimStart, List.reverse_eq_nil_iff, key, List.mem_reverse]
  exact ⟨suffix cs, fun h c hc => h c (List.dropWhile_suffix _ |>.subset hc)⟩

/-- A text whose ends are not blank is its own trimmed form. -/
theorem trim_of_ends {cs : List Char} (hfirst : ∀ c ∈ cs.head?, isBlank c = false)
    (hlast : ∀ c ∈ cs.getLast?, isBlank c = false) : trim cs = cs := by
  have key : ∀ l : List Char, (∀ c ∈ l.head?, isBlank c = false) → l.dropWhile isBlank = l := by
    intro l h
    cases l with
    | nil => rfl
    | cons c l => simp [h c rfl]
  rw [trim, trimStart, key cs hfirst, trimEnd, key cs.reverse (by simpa using hlast),
    List.reverse_reverse]

/-- Trimming its end leaves a beginning of a text. -/
theorem trimEnd_begins (cs : List Char) : trimEnd cs <+: cs := by
  rw [← List.reverse_suffix, trimEnd, List.reverse_reverse]
  exact List.dropWhile_suffix isBlank

/-- A trimmed text is a piece of the text. -/
theorem trim_sublist (cs : List Char) : (trim cs).Sublist cs :=
  (trimEnd_begins _).sublist.trans (List.dropWhile_sublist isBlank)

/-- **The ends of a trimmed text are not blank.** -/
theorem trim_ends (cs : List Char) : (∀ c ∈ (trim cs).head?, isBlank c = false) ∧
    ∀ c ∈ (trim cs).getLast?, isBlank c = false := by
  have key : ∀ l : List Char, ∀ c ∈ (l.dropWhile isBlank).head?, isBlank c = false := by
    intro l c hc
    have h := List.head?_dropWhile_not isBlank l
    rw [Option.mem_def.1 hc] at h
    exact h
  constructor
  · intro c hc
    obtain ⟨rest, hrest⟩ := trimEnd_begins (trimStart cs)
    refine key cs c ?_
    rw [← trimStart, ← hrest, List.head?_append]
    exact Option.mem_def.2 (by rw [← trim, Option.mem_def.1 hc, Option.some_or])
  · intro c hc
    refine key (trimStart cs).reverse c ?_
    rwa [trim, trimEnd, List.getLast?_reverse] at hc

end FileRelay.Text
