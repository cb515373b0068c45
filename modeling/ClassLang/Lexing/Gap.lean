import ClassLang.Text.Blank

/-!
The gaps between tokens: blanks, comments up to the end of a line, and comments between marks.

* `gap_append`: a gap and what follows it are the whole text.
-/

namespace ClassLang

/-! ## Comments -/

/-- Splits after the first line feed. -/
def lineComment : List Char → List Char × List Char
  | [] => ([], [])
  | c :: rest =>
    if c = '\n' then ([c], rest)
    else
      let (comment, after) := lineComment rest
      (c :: comment, after)

/-- Splits after the first end mark of a block comment, if there is one. -/
def blockComment? : List Char → Option (List Char × List Char)
  | [] => none
  | '*' :: '/' :: rest => some (['*', '/'], rest)
  | c :: rest => (blockComment? rest).map fun (comment, after) => (c :: comment, after)

theorem lineComment_append (text : List Char) :
    (lineComment text).1 ++ (lineComment text).2 = text := by
  induction text with
  | nil => rfl
  | cons c rest ih => by_cases h : c = '\n' <;> simp [lineComment, h, ih]

theorem blockComment?_append {text comment after : List Char}
    (h : blockComment? text = some (comment, after)) : comment ++ after = text := by
  fun_induction blockComment? text generalizing comment with
  | case1 => simp at h
  | case2 rest => simp at h; simp [← h.1, ← h.2]
  | case3 c rest _ ih =>
    obtain ⟨⟨inner, after'⟩, found, eq⟩ := Option.map_eq_some_iff.1 h
    simp only [Prod.mk.injEq] at eq
    obtain ⟨rfl, rfl⟩ := eq
    simp [ih found]

/-! ## Gaps -/

/-- The gap at the front of a text and what follows it. Of a comment that is not closed, which then
follows the gap, `closed` warns. -/
structure Gap where
  skipped : List Char
  rest : List Char
  closed : Bool
deriving Repr

/-- Puts more text in front of a gap. -/
def Gap.after (front : List Char) (g : Gap) : Gap := { g with skipped := front ++ g.skipped }

/-- Splits the gap off the front of a text. -/
def gap (text : List Char) : Gap :=
  match text with
  | [] => ⟨[], [], true⟩
  | '/' :: '/' :: rest =>
    (gap (lineComment rest).2).after ('/' :: '/' :: (lineComment rest).1)
  | '/' :: '*' :: rest =>
    match _found : blockComment? rest with
    | some (comment, after) => (gap after).after ('/' :: '*' :: comment)
    | none => ⟨[], text, false⟩
  | c :: rest => if isBlank c then (gap rest).after [c] else ⟨[], text, true⟩
termination_by text.length
decreasing_by
  · have parts := congrArg List.length (lineComment_append rest)
    simp only [List.length_append] at parts
    simp only [List.length_cons]
    omega
  · have parts := congrArg List.length (blockComment?_append _found)
    simp only [List.length_append] at parts
    simp only [List.length_cons]
    omega
  · simp

theorem gap_append (text : List Char) : (gap text).skipped ++ (gap text).rest = text := by
  fun_induction gap text with
  | case1 => rfl
  | case2 rest ih =>
    simp only [Gap.after, List.append_assoc, ih]
    simp [lineComment_append]
  | case3 rest comment after h ih =>
    simp only [Gap.after, List.append_assoc, ih]
    simp [blockComment?_append h]
  | case4 => simp
  | case5 c rest _ _ _ ih => simp [Gap.after, ih]
  | case6 => simp

theorem gap_rest_length_le (text : List Char) : (gap text).rest.length ≤ text.length := by
  have parts := congrArg List.length (gap_append text)
  simp only [List.length_append] at parts
  omega

end ClassLang
