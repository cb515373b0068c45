/-!
Positions in a text. An offset counts bytes of the UTF-8 form, and it is a position of the text
when it falls between two characters; a reader is shown line and column instead.

* `byteLength_append`: byte lengths add up.
* `LineCol.line_after`: lines are counted by line feeds, and by nothing else.
-/

namespace ClassLang

/-! ## Byte lengths -/

/-- The number of bytes that the characters take in UTF-8. -/
def byteLength : List Char → Nat
  | [] => 0
  | c :: rest => c.utf8Size + byteLength rest

@[simp] theorem byteLength_nil : byteLength [] = 0 := rfl

@[simp] theorem byteLength_cons (c : Char) (rest : List Char) :
    byteLength (c :: rest) = c.utf8Size + byteLength rest := rfl

@[simp] theorem byteLength_append (front back : List Char) :
    byteLength (front ++ back) = byteLength front + byteLength back := by
  induction front with
  | nil => simp
  | cons c rest ih => simp [ih, Nat.add_assoc]

theorem byteLength_eq_zero {text : List Char} (h : byteLength text = 0) : text = [] := by
  cases text with
  | nil => rfl
  | cons c rest =>
    have positive := c.utf8Size_pos
    simp only [byteLength_cons] at h
    omega

/-! ## Cutting at an offset -/

/-- The characters that end at or before the offset. -/
def textBefore : List Char → Nat → List Char
  | [], _ => []
  | c :: rest, offset =>
    if c.utf8Size ≤ offset then c :: textBefore rest (offset - c.utf8Size) else []

/-- The characters that are not before the offset. -/
def textFrom : List Char → Nat → List Char
  | [], _ => []
  | c :: rest, offset =>
    if c.utf8Size ≤ offset then textFrom rest (offset - c.utf8Size) else c :: rest

/-- Whether the offset falls between two characters or at an end. -/
def isBoundary (text : List Char) (offset : Nat) : Bool :=
  byteLength (textBefore text offset) = offset

theorem textBefore_append_textFrom (text : List Char) (offset : Nat) :
    textBefore text offset ++ textFrom text offset = text := by
  induction text generalizing offset with
  | nil => rfl
  | cons c rest ih =>
    by_cases h : c.utf8Size ≤ offset
    · simp [textBefore, textFrom, h, ih]
    · simp [textBefore, textFrom, h]

theorem textBefore_byteLength (front back : List Char) :
    textBefore (front ++ back) (byteLength front) = front := by
  induction front with
  | nil =>
    cases back with
    | nil => rfl
    | cons c rest =>
      have positive := c.utf8Size_pos
      have h : ¬ c.utf8Size ≤ 0 := by omega
      simp [textBefore, h]
  | cons c rest ih => simp [textBefore, ih]

theorem textFrom_byteLength (front back : List Char) :
    textFrom (front ++ back) (byteLength front) = back := by
  have whole := textBefore_append_textFrom (front ++ back) (byteLength front)
  rw [textBefore_byteLength] at whole
  exact List.append_cancel_left whole

theorem isBoundary_iff {text : List Char} {offset : Nat} :
    isBoundary text offset = true ↔
      ∃ front back, text = front ++ back ∧ byteLength front = offset := by
  constructor
  · intro h
    exact ⟨_, _, (textBefore_append_textFrom text offset).symm, by simpa [isBoundary] using h⟩
  · rintro ⟨front, back, rfl, rfl⟩
    simp [isBoundary, textBefore_byteLength]

/-! ## Line and column -/

/-- A line and a column, both counted from one. -/
structure LineCol where
  line : Nat
  col : Nat
deriving DecidableEq, Repr

/-- The position after a character: a line feed ends the line. -/
def LineCol.advance (here : LineCol) (c : Char) : LineCol :=
  if c = '\n' then ⟨here.line + 1, 1⟩ else ⟨here.line, here.col + 1⟩

/-- The position after some characters from the start of a text. -/
def LineCol.after (before : List Char) : LineCol :=
  before.foldl LineCol.advance ⟨1, 1⟩

/-- The line and column of an offset. -/
def lineCol (text : List Char) (offset : Nat) : LineCol :=
  LineCol.after (textBefore text offset)

/-- `line:col`. -/
def LineCol.text (here : LineCol) : String :=
  toString here.line ++ ":" ++ toString here.col

theorem LineCol.after_append_singleton (before : List Char) (c : Char) :
    LineCol.after (before ++ [c]) = (LineCol.after before).advance c := by
  simp [LineCol.after]

theorem LineCol.line_after (before : List Char) :
    (LineCol.after before).line = before.count '\n' + 1 := by
  suffices h : ∀ here : LineCol,
      (before.foldl LineCol.advance here).line = before.count '\n' + here.line from h ⟨1, 1⟩
  induction before with
  | nil => simp
  | cons c rest ih =>
    intro here
    by_cases h : c = '\n'
    · simp [h, ih, LineCol.advance]; omega
    · simp [h, ih, LineCol.advance]

end ClassLang
