import ClassLang.Source
import Mathlib.Data.List.Basic
import Mathlib.Data.List.Induction

/-!
Line and column identify a position. Going on in a text leads to later lines, or to later columns of
the same line; and the way back to an offset is to find its line and to walk along it.

* `Source.lineCol_identifies`: both for every source.
-/

namespace ClassLang

/-! ## Order -/

/-- Earlier lines come first, and in a line earlier columns. -/
def LineCol.Before (a b : LineCol) : Prop := a.line < b.line ∨ a.line = b.line ∧ a.col < b.col

namespace LineCol.Before

variable {a b c : LineCol}

theorem irrefl : ¬ a.Before a := by
  simp [LineCol.Before]

theorem trans (first : a.Before b) (second : b.Before c) : a.Before c := by
  unfold LineCol.Before at *
  omega

theorem advance (here : LineCol) (c : Char) : here.Before (here.advance c) := by
  unfold LineCol.advance
  split
  · left
    simp
  · right
    simp

theorem foldl (here : LineCol) {more : List Char} (filled : more ≠ []) :
    here.Before (more.foldl LineCol.advance here) := by
  induction more generalizing here with
  | nil => contradiction
  | cons c rest ih =>
    rw [List.foldl_cons]
    cases rest with
    | nil => exact .advance here c
    | cons d rest => exact (Before.advance here c).trans (ih _ (List.cons_ne_nil d rest))

end LineCol.Before

theorem byteLength_le_of_prefix {front whole : List Char} (h : front <+: whole) :
    byteLength front ≤ byteLength whole := by
  obtain ⟨back, rfl⟩ := h
  simp

theorem byteLength_textBefore {text : List Char} {offset : Nat} (h : isBoundary text offset = true) :
    byteLength (textBefore text offset) = offset := by
  simpa [isBoundary] using h

/-- What is before a later offset goes on behind what is before an earlier one. -/
theorem textBefore_extends {text : List Char} {a b : Nat} (ha : isBoundary text a = true)
    (hb : isBoundary text b = true) (less : a < b) :
    ∃ more, more ≠ [] ∧ textBefore text b = textBefore text a ++ more := by
  have first := byteLength_textBefore ha
  have second := byteLength_textBefore hb
  have ofText (offset : Nat) : textBefore text offset <+: text :=
    ⟨_, textBefore_append_textFrom text offset⟩
  rcases List.prefix_or_prefix_of_prefix (ofText a) (ofText b) with ⟨more, eq⟩ | back
  · refine ⟨more, ?_, eq.symm⟩
    rintro rfl
    rw [List.append_nil] at eq
    rw [eq] at first
    omega
  · have shorter := byteLength_le_of_prefix back
    omega

theorem lineCol_before {text : List Char} {a b : Nat} (ha : isBoundary text a = true)
    (hb : isBoundary text b = true) (less : a < b) : (lineCol text a).Before (lineCol text b) := by
  obtain ⟨more, filled, eq⟩ := textBefore_extends ha hb less
  unfold lineCol LineCol.after
  rw [eq, List.foldl_append]
  exact .foldl _ filled

theorem lineCol_injective {text : List Char} {a b : Nat} (ha : isBoundary text a = true)
    (hb : isBoundary text b = true) (same : lineCol text a = lineCol text b) : a = b := by
  rcases Nat.lt_trichotomy a b with less | eq | more
  · exact absurd (same ▸ lineCol_before ha hb less) LineCol.Before.irrefl
  · exact eq
  · exact absurd (same ▸ lineCol_before hb ha more) LineCol.Before.irrefl

/-! ## The way back -/

/-- The offset behind so many line feeds of a text. -/
def behindFeeds : List Char → Nat → Nat
  | _, 0 => 0
  | [], _ + 1 => 0
  | c :: rest, n + 1 => c.utf8Size + behindFeeds rest (if c = '\n' then n else n + 1)

/-- The offset at which a line starts. -/
def lineStart (text : List Char) (line : Nat) : Nat := behindFeeds text (line - 1)

/-- Lines that have all come to their ends. -/
def WholeLines (lines : List Char) : Prop := lines = [] ∨ ∃ front, lines = front ++ ['\n']

theorem exists_lastLine (before : List Char) :
    ∃ lines last, before = lines ++ last ∧ WholeLines lines ∧ '\n' ∉ last := by
  induction before using List.reverseRecOn with
  | nil => exact ⟨[], [], rfl, .inl rfl, List.not_mem_nil⟩
  | append_singleton front c ih =>
    by_cases feed : c = '\n'
    · subst feed
      exact ⟨front ++ ['\n'], [], by simp, .inr ⟨front, rfl⟩, List.not_mem_nil⟩
    · obtain ⟨lines, last, rfl, whole, clean⟩ := ih
      refine ⟨lines, last ++ [c], by simp, whole, ?_⟩
      simp [clean, Ne.symm feed]

theorem LineCol.foldl_line {last : List Char} (clean : '\n' ∉ last) (here : LineCol) :
    last.foldl LineCol.advance here = ⟨here.line, here.col + last.length⟩ := by
  induction last generalizing here with
  | nil => rfl
  | cons c rest ih =>
    rw [List.mem_cons, not_or] at clean
    rw [List.foldl_cons, ih clean.2, LineCol.advance, if_neg (Ne.symm clean.1), List.length_cons]
    simp [Nat.add_comm, Nat.add_left_comm]

theorem LineCol.col_after {lines : List Char} (whole : WholeLines lines) :
    (LineCol.after lines).col = 1 := by
  rcases whole with rfl | ⟨front, rfl⟩
  · rfl
  · rw [LineCol.after_append_singleton]
    rfl

theorem behindFeeds_feed (front back : List Char) :
    behindFeeds (front ++ '\n' :: back) (front.count '\n' + 1) = byteLength (front ++ ['\n']) := by
  induction front with
  | nil => simp [behindFeeds]
  | cons c rest ih =>
    by_cases feed : c = '\n'
    · subst feed
      simp [behindFeeds, ih]
    · simp [behindFeeds, feed, ih]

theorem behindFeeds_whole {lines : List Char} (whole : WholeLines lines) (back : List Char) :
    behindFeeds (lines ++ back) (lines.count '\n') = byteLength lines := by
  rcases whole with rfl | ⟨front, rfl⟩
  · cases back <;> rfl
  · simpa using behindFeeds_feed front back

theorem LineCol.after_line {lines last : List Char} (whole : WholeLines lines)
    (clean : '\n' ∉ last) :
    LineCol.after (lines ++ last) = ⟨lines.count '\n' + 1, 1 + last.length⟩ := by
  have line := LineCol.line_after lines
  have col := LineCol.col_after whole
  have along : LineCol.after (lines ++ last) = last.foldl LineCol.advance (LineCol.after lines) :=
    List.foldl_append
  rw [along, LineCol.foldl_line clean, line, col]

/-- An offset is found along its line. -/
theorem lineCol_walk {text : List Char} {offset : Nat} (h : isBoundary text offset = true) :
    ∃ walked rest, textFrom text (lineStart text (lineCol text offset).line) = walked ++ rest ∧
      '\n' ∉ walked ∧ walked.length + 1 = (lineCol text offset).col ∧
      lineStart text (lineCol text offset).line + byteLength walked = offset := by
  obtain ⟨lines, last, before, whole, clean⟩ := exists_lastLine (textBefore text offset)
  have here : lineCol text offset = ⟨lines.count '\n' + 1, 1 + last.length⟩ := by
    rw [lineCol, before, LineCol.after_line whole clean]
  have split : text = lines ++ (last ++ textFrom text offset) := by
    rw [← List.append_assoc, ← before, textBefore_append_textFrom]
  have start : lineStart text (lineCol text offset).line = byteLength lines := by
    have feeds := behindFeeds_whole whole (last ++ textFrom text offset)
    rw [← split] at feeds
    rw [here, lineStart, Nat.add_sub_cancel, feeds]
  refine ⟨last, textFrom text offset, ?_, clean, ?_, ?_⟩
  · have onward := textFrom_byteLength lines (last ++ textFrom text offset)
    rw [← split] at onward
    rw [start, onward]
  · rw [here, Nat.add_comm]
  · rw [start, ← byteLength_append, ← before, byteLength_textBefore h]

/-! ## Locations -/

theorem toString_injective {m n : Nat} (same : toString m = toString n) : m = n := by
  have digits : Nat.toDigits 10 m = Nat.toDigits 10 n := by
    rw [← Nat.toList_repr, ← Nat.toList_repr]
    exact congrArg String.toList same
  calc
    m = Nat.ofDigitChars 10 (Nat.toDigits 10 m) 0 :=
      (Nat.ofDigitChars_toDigits (by decide) (by decide)).symm
    _ = Nat.ofDigitChars 10 (Nat.toDigits 10 n) 0 := by rw [digits]
    _ = n := Nat.ofDigitChars_toDigits (by decide) (by decide)

theorem colon_not_mem_toString (n : Nat) : ':' ∉ (toString n).toList := by
  intro inside
  have digit : ':' ∈ Nat.toDigits 10 n := Nat.toList_repr (n := n) ▸ inside
  exact absurd (Nat.isDigit_of_mem_toDigits (by decide) (by decide) digit) (by decide)

theorem LineCol.text_injective {a b : LineCol} (same : a.text = b.text) : a = b := by
  have chars : (toString a.line).toList ++ ':' :: (toString a.col).toList =
      (toString b.line).toList ++ ':' :: (toString b.col).toList := by
    simpa [LineCol.text] using congrArg String.toList same
  obtain ⟨line, -, col⟩ := (List.append_cons_inj_of_notMem (colon_not_mem_toString a.line)
    (colon_not_mem_toString a.col)).1 chars
  cases a
  cases b
  congr
  · exact toString_injective (String.toList_inj.1 line)
  · exact toString_injective (String.toList_inj.1 col)

namespace Source

variable {source : Source}

theorem location_injective {s t : Span} (hs : isBoundary source.chars s.start = true)
    (ht : isBoundary source.chars t.start = true) (same : source.location s = source.location t) :
    s.start = t.start := by
  have texts : (source.lineCol s.start).text = (source.lineCol t.start).text := by
    unfold location at same
    cases named : source.path with
    | none => simpa [named] using same
    | some path => simpa [named] using same
  exact lineCol_injective hs ht (LineCol.text_injective texts)

/-- Later offsets have later positions, so no two offsets have the same one, nor are they shown alike.
The line of an offset is one more than the number of line feeds before it, and as many characters as
its column says, less one, lead from the start of that line back to it. -/
theorem lineCol_identifies (source : Source) :
    (∀ a b, isBoundary source.chars a = true → isBoundary source.chars b = true → a < b →
      (source.lineCol a).Before (source.lineCol b)) ∧
    (∀ a b, isBoundary source.chars a = true → isBoundary source.chars b = true →
      source.lineCol a = source.lineCol b → a = b) ∧
    (∀ s t : Span, isBoundary source.chars s.start = true → isBoundary source.chars t.start = true →
      source.location s = source.location t → s.start = t.start) ∧
    ∀ offset, isBoundary source.chars offset = true →
      let here := source.lineCol offset
      let start := lineStart source.chars here.line
      here.line = (textBefore source.chars offset).count '\n' + 1 ∧
      ∃ walked rest, textFrom source.chars start = walked ++ rest ∧ '\n' ∉ walked ∧
        walked.length + 1 = here.col ∧ start + byteLength walked = offset := by
  refine ⟨fun a b ha hb less => lineCol_before ha hb less,
    fun a b ha hb same => lineCol_injective ha hb same,
    fun s t hs ht same => location_injective hs ht same, fun offset h => ⟨?_, lineCol_walk h⟩⟩
  exact LineCol.line_after (textBefore source.chars offset)

end Source

/-- Four lines, one of them empty, with characters of two and of three bytes. -/
def accentedLines : Source := ⟨"é\nxy\n\n€z", none⟩

theorem accentedLines_lineCol :
    isBoundary accentedLines.chars 4 = true ∧ isBoundary accentedLines.chars 10 = true ∧
      accentedLines.lineCol 4 = ⟨2, 2⟩ ∧ accentedLines.lineCol 10 = ⟨4, 2⟩ ∧
      (accentedLines.lineCol 4).Before (accentedLines.lineCol 10) ∧
      accentedLines.lineCol 4 ≠ accentedLines.lineCol 10 ∧
      accentedLines.location ⟨4, 5⟩ ≠ accentedLines.location ⟨10, 11⟩ ∧
      lineStart accentedLines.chars 4 = 7 ∧ ∃ walked rest,
        textFrom accentedLines.chars 7 = walked ++ rest ∧ walked.length = 1 ∧
        7 + byteLength walked = 10 := by
  have early : isBoundary accentedLines.chars 4 = true := by decide +kernel
  have late : isBoundary accentedLines.chars 10 = true := by decide +kernel
  have second : accentedLines.lineCol 4 = ⟨2, 2⟩ := by decide +kernel
  have fourth : accentedLines.lineCol 10 = ⟨4, 2⟩ := by decide +kernel
  have start : lineStart accentedLines.chars 4 = 7 := by decide +kernel
  obtain ⟨ordered, distinct, shown, found⟩ := Source.lineCol_identifies accentedLines
  obtain ⟨-, walked, rest, onward, -, length, reached⟩ := found 10 late
  rw [fourth] at length reached onward
  rw [start] at reached onward
  refine ⟨early, late, second, fourth, ordered 4 10 early late (by decide), fun same => ?_,
    fun same => ?_, start, walked, rest, onward, Nat.succ.inj length, reached⟩
  · exact absurd (distinct 4 10 early late same) (by decide)
  · exact absurd (shown ⟨4, 5⟩ ⟨10, 11⟩ early late same) (by decide)

end ClassLang
