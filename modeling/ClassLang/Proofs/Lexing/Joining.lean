import ClassLang.CommandLine.Run
import ClassLang.Proofs.Lexing.Respacing

/-!
Several texts in one source. Each is given the line feed that its last line may lack, and no token goes
on with a line feed, nor does a comment that is over there. So the lexer leaves each text as it entered
the first one.

* `scan_extends`: a token is read in front of more text as it is read at the end of its own.
* `pieces_completed`: a completed text falls into the same pieces whatever stands behind it.
* `Source.tokens_joined`: the tokens, comments and blanks of joined texts are those of the texts.
-/

namespace ClassLang

/-! ## Numbers and words -/

section

variable {p : Char → Bool} {more : List Char}

theorem head?_any_onto (stop : more.head?.any p = false) (text : List Char) :
    (text ++ more).head?.any p = text.head?.any p := by
  cases text with
  | nil => rw [List.nil_append, stop]; rfl
  | cons c text => rfl

theorem takeWhile_onto (stop : more.head?.any p = false) (text : List Char) :
    (text ++ more).takeWhile p = text.takeWhile p ∧
      (text ++ more).dropWhile p = text.dropWhile p ++ more := by
  induction text with
  | nil => exact @takeWhile_append_of_stop p [] more (by simp) stop
  | cons c text ih => by_cases goes : p c = true <;> simp [goes, ih]

end

/-- Puts more text behind a token. -/
def Scanned.onto (more : List Char) (s : Scanned) : Scanned := { s with rest := s.rest ++ more }

section

variable {more : List Char} (blank : startsBlank more = true)
include blank

theorem fraction_onto (text : List Char) :
    fraction (text ++ more) = ((fraction text).1, (fraction text).2 ++ more) := by
  have digit : more.head?.any Char.isDigit = false := head?_of_startsBlank (by decide) blank
  rcases text with _ | ⟨c, _ | ⟨d, rest⟩⟩
  · exact fraction_of_head (head?_of_startsBlank (by decide) blank)
  · by_cases point : c = '.'
    · subst point
      cases more with
      | nil => rfl
      | cons b more =>
        have other : b.isDigit = false := digit
        simp [fraction, other]
    · simp [fraction, point]
  · obtain ⟨taken, dropped⟩ := takeWhile_onto digit (d :: rest)
    by_cases point : c = '.'
    · subst point
      by_cases isDigit : d.isDigit = true
      · simp only [List.cons_append] at taken dropped
        simp only [List.cons_append, fraction, isDigit, if_true, taken, dropped]
      · simp [fraction, isDigit]
    · simp [fraction, point]

theorem exponent_onto (text : List Char) :
    exponent (text ++ more) = ((exponent text).1, (exponent text).2 ++ more) := by
  have digit : more.head?.any Char.isDigit = false := head?_of_startsBlank (by decide) blank
  have sign : more.head?.any (fun c => c = '+' || c = '-') = false :=
    head?_of_startsBlank (by decide) blank
  rcases text with _ | ⟨e, _ | ⟨d, rest⟩⟩
  · exact exponent_of_head (head?_of_startsBlank (by decide) blank)
  · cases more with
    | nil => rfl
    | cons b more =>
      have noDigit : b.isDigit = false := digit
      have noSign : (b = '+' || b = '-') = false := sign
      simp [exponent, noDigit, noSign]
  · obtain ⟨taken, dropped⟩ := takeWhile_onto digit (d :: rest)
    obtain ⟨taken', dropped'⟩ := takeWhile_onto digit rest
    rw [List.cons_append] at taken dropped
    by_cases mark : (e = 'e' || e = 'E') = true
    · by_cases isDigit : d.isDigit = true
      · simp only [List.cons_append, exponent, mark, isDigit, if_true, taken, dropped]
      · by_cases signed : ((d = '+' || d = '-') && rest.head?.any Char.isDigit) = true
        · simp only [List.cons_append, exponent, mark, isDigit, head?_any_onto digit, signed, if_true,
            taken', dropped']
          rfl
        · simp only [List.cons_append, exponent, mark, isDigit, head?_any_onto digit, signed, if_true]
          rfl
    · simp only [List.cons_append, exponent, mark]
      rfl

theorem decimalNumeral_onto (text : List Char) :
    decimalNumeral (text ++ more) =
      (decimalNumeral text).map fun (value, lexeme, rest) => (value, lexeme, rest ++ more) := by
  have digit : more.head?.any Char.isDigit = false := head?_of_startsBlank (by decide) blank
  obtain ⟨taken, dropped⟩ := takeWhile_onto digit text
  simp only [decimalNumeral, taken, dropped, fraction_onto blank, exponent_onto blank]
  rfl

theorem numeral_onto (first : Char) (tail : List Char) :
    numeral (first :: (tail ++ more)) =
      (numeral (first :: tail)).map fun (value, lexeme, rest) => (value, lexeme, rest ++ more) := by
  have hexStop : more.head?.any isHexDigit = false := head?_of_startsBlank (by decide) blank
  have baseStop : more.head?.any (fun c => c = 'x' || c = 'X') = false :=
    head?_of_startsBlank (by decide) blank
  have decimal := decimalNumeral_onto blank (first :: tail)
  by_cases hex : first = '0' ∧ tail.head?.any (fun c => c = 'x' || c = 'X') = true
  · obtain ⟨rfl, base⟩ := hex
    cases tail with
    | nil => cases base
    | cons x digits =>
      obtain ⟨taken, dropped⟩ := takeWhile_onto hexStop digits
      have isBase : (x = 'x' || x = 'X') = true := base
      simp only [List.cons_append, numeral, isBase, if_true, taken, dropped]
      split <;> rfl
  · rw [numeral_of_decimal hex, ← decimal]
    refine numeral_of_decimal ?_
    rwa [head?_any_onto baseStop]

theorem continuesWord_onto (text : List Char) : continuesWord (text ++ more) = continuesWord text :=
  head?_any_onto (continuesWord_of_startsBlank blank) text

theorem scanNumber_onto (first : Char) (tail : List Char) :
    scanNumber (first :: (tail ++ more)) =
      (scanNumber (first :: tail)).map (Scanned.onto more) := by
  have letter : more.head?.any Char.isAlphanum = false := head?_of_startsBlank (by decide) blank
  have again := numeral_onto blank first tail
  rcases read : numeral (first :: tail) with fault | ⟨value, lexeme, rest⟩
  · rw [read] at again
    simp only [scanNumber, read, again]
    rfl
  rw [read] at again
  cases goesOn : continuesWord rest with
  | false =>
    rw [scanNumber_of_numeral read goesOn,
      scanNumber_of_numeral again ((continuesWord_onto blank rest).trans goesOn)]
    rfl
  | true =>
    cases rest with
    | nil => cases goesOn
    | cons c after =>
      have goesOn' := (continuesWord_onto blank (c :: after)).trans goesOn
      have taken := (takeWhile_onto letter (c :: after)).1
      rw [List.cons_append] at taken goesOn'
      simp only [scanNumber, read, again, Except.map, bind, Except.bind, List.cons_append,
        continuesWord_onto blank after, goesOn, goesOn', taken]
      split <;> rfl

theorem scanWord_onto (first : Char) (rest : List Char) :
    scanWord first (rest ++ more) = (scanWord first rest).onto more := by
  obtain ⟨taken, dropped⟩ := takeWhile_onto (continuesWord_of_startsBlank blank) rest
  simp only [scanWord, Scanned.onto, taken, dropped]

theorem isPrefixOf_onto {mark : List Char} (ink : mark.all (fun c => !isBlank c) = true)
    (text : List Char) : mark.isPrefixOf (text ++ more) = mark.isPrefixOf text := by
  induction mark generalizing text with
  | nil => simp
  | cons c mark ih =>
    obtain ⟨first, others⟩ : isBlank c = false ∧ mark.all (fun c => !isBlank c) = true := by
      simpa using ink
    cases text with
    | nil =>
      cases more with
      | nil => rfl
      | cons b more =>
        have other : c ≠ b := by
          rintro rfl
          exact absurd (show isBlank c = true from blank) (by simp [first])
        simp [List.isPrefixOf, other]
    | cons d text => simp [List.isPrefixOf, ih others]

theorem punctAt?_onto (text : List Char) : punctAt? (text ++ more) = punctAt? text := by
  have same (mark : Punct) : mark.chars.isPrefixOf (text ++ more) = mark.chars.isPrefixOf text :=
    isPrefixOf_onto blank (by cases mark <;> decide) text
  simp only [punctAt?, same]

end

/-! ## Tokens -/

theorem quoted_ends {quote : Char} {text value written rest : List Char}
    (h : quoted quote text = .closed value written rest) : ∃ inner, written = inner ++ [quote] := by
  fun_induction quoted quote text generalizing value written with
  | case1 => cases h
  | case2 => cases h; exact ⟨[], rfl⟩
  | case3 => cases h
  | case4 => cases h; exact ⟨[], rfl⟩
  | case5 d tail decoded _ _ ih =>
    cases inner : quoted quote tail with
    | closed values writtens after =>
      rw [inner] at h
      cases h
      obtain ⟨front, rfl⟩ := ih inner
      exact ⟨'\\' :: d :: front, rfl⟩
    | _ => rw [inner] at h; cases h
  | case6 => cases h
  | case7 c d tail _ _ ih =>
    cases inner : quoted quote (d :: tail) with
    | closed values writtens after =>
      rw [inner] at h
      cases h
      obtain ⟨front, rfl⟩ := ih inner
      exact ⟨c :: front, rfl⟩
    | _ => rw [inner] at h; cases h

/-- A quoted text ends with its quote, so a line feed behind it is not part of it. -/
theorem scanQuoted_back {opening inside value lexeme rest : List Char} {quote : Char}
    {cause : LexCause} (other : quote ≠ '\n')
    (read : scanQuoted opening quote (inside ++ ['\n']) cause = .ok (value, lexeme, rest)) :
    ∃ rest', rest = rest' ++ ['\n'] ∧
      scanQuoted opening quote inside cause = .ok (value, lexeme, rest') := by
  unfold scanQuoted at read
  split at read
  · next value written rest closed =>
    cases read
    have whole := quoted_append closed
    obtain ⟨inner, rfl⟩ := quoted_ends closed
    rcases List.eq_nil_or_concat' rest with rfl | ⟨rest', c, rfl⟩
    · rw [List.append_nil] at whole
      exact absurd (List.append_inj' whole rfl).2 (by simpa using other)
    · rw [← List.append_assoc] at whole
      obtain ⟨rfl, feed⟩ := List.append_inj' whole rfl
      refine ⟨rest', by rw [feed], ?_⟩
      rw [scanQuoted, quoted_local closed]
  · cases read
  · cases read

/-- What is read with more text behind: the same as without, and if no more than a line feed is put
there, then nothing is read that cannot be read without it. -/
structure Extends (more : List Char) (before after : Except Fault Scanned) : Prop where
  onward : ∀ s, before = .ok s → after = .ok (s.onto more)
  back : more = ['\n'] → ∀ s, after = .ok s → ∃ s', before = .ok s' ∧ s'.onto more = s

namespace Extends

variable {more : List Char}

theorem of_eq {before after : Except Fault Scanned} (h : after = before.map (Scanned.onto more)) :
    Extends more before after := by
  subst h
  cases before with
  | error fault => exact ⟨fun _ => nofun, fun _ _ => nofun⟩
  | ok s => exact ⟨fun _ eq => by cases eq; rfl, fun _ _ eq => ⟨s, rfl, Except.ok.inj eq⟩⟩

theorem of_quoted {opening inside : List Char} {quote : Char} {cause : LexCause}
    {f : List Char × List Char × List Char → Except Fault Scanned} (other : quote ≠ '\n')
    (steady : ∀ value lexeme rest,
      f (value, lexeme, rest ++ more) = (f (value, lexeme, rest)).map (Scanned.onto more)) :
    Extends more (scanQuoted opening quote inside cause >>= f)
      (scanQuoted opening quote (inside ++ more) cause >>= f) where
  onward s read := by
    rcases found : scanQuoted opening quote inside cause with fault | ⟨value, lexeme, rest⟩
    · rw [found] at read
      cases read
    obtain ⟨written, rfl, again⟩ := scanQuoted_local found
    have whole : written ++ rest = inside := by
      simpa using (scanQuoted_append found).1
    rw [found] at read
    rw [← whole, List.append_assoc, again]
    change f (value, opening ++ written, rest ++ more) = _
    rw [steady, show f (value, opening ++ written, rest) = .ok s from read]
    rfl
  back feed s read := by
    subst feed
    rcases found : scanQuoted opening quote (inside ++ ['\n']) cause with
      fault | ⟨value, lexeme, rest⟩
    · rw [found] at read
      cases read
    rw [found] at read
    obtain ⟨rest, rfl, shorter⟩ := scanQuoted_back other found
    rw [shorter]
    have same := steady value lexeme rest
    rcases read' : f (value, lexeme, rest) with fault | s'
    · rw [read'] at same
      cases read.symm.trans same
    · rw [read'] at same
      exact ⟨s', read', Except.ok.inj (same.symm.trans read)⟩

end Extends

theorem scan_extends {more : List Char} (blank : startsBlank more = true) (first : Char)
    (rest : List Char) : Extends more (scan first rest) (scan first (rest ++ more)) := by
  -- What is looked at beyond the text is blank, so the same kind of token is read.
  have opens : ((rest ++ more).head? == some '"') = (rest.head? == some '"') := by
    have quote : more.head?.any (· == '"') = false := head?_of_startsBlank (by decide) blank
    rcases rest with _ | ⟨c, rest⟩
    · cases more with
      | nil => rfl
      | cons b more => simpa using quote
    · rfl
  unfold scan
  rw [opens]
  split
  · next bytes =>
    cases rest with
    | nil => simp at bytes
    | cons quote rest =>
      refine .of_quoted (by decide) fun value lexeme rest => ?_
      dsimp only
      split <;> rfl
  split
  · exact .of_eq (congrArg Except.ok (scanWord_onto blank first rest))
  split
  · exact .of_eq (scanNumber_onto blank first rest)
  split
  · exact .of_quoted (by decide) fun _ _ _ => rfl
  split
  · refine .of_quoted (by decide) fun value lexeme rest => ?_
    rcases value with _ | ⟨c, _ | ⟨d, value⟩⟩ <;> rfl
  rw [← List.cons_append, punctAt?_onto blank]
  refine .of_eq ?_
  cases found : punctAt? (first :: rest) with
  | none => rfl
  | some mark =>
    have front := List.find?_some found
    dsimp only
    rw [List.drop_append_of_le_length (List.isPrefixOf_iff_prefix.1 front).length_le]
    rfl

/-! ## Gaps -/

theorem lineComment_onto {comment : List Char} (clean : '\n' ∉ comment) (rest : List Char) :
    lineComment (comment ++ rest) = (comment ++ (lineComment rest).1, (lineComment rest).2) := by
  induction comment with
  | nil => rfl
  | cons c comment ih =>
    obtain ⟨other, clean⟩ : '\n' ≠ c ∧ '\n' ∉ comment := by simpa using clean
    simp [lineComment, Ne.symm other, ih clean]

theorem lineComment_line {comment : List Char} (clean : '\n' ∉ comment) (rest : List Char) :
    lineComment (comment ++ '\n' :: rest) = (comment ++ ['\n'], rest) := by
  simp [lineComment_onto clean, lineComment]

theorem lineComment_open {comment : List Char} (clean : '\n' ∉ comment) :
    lineComment comment = (comment, []) := by
  simpa [lineComment] using lineComment_onto clean []

theorem blockComment?_block {comment : List Char} (first : ¬['*', '/'] <:+: comment ++ ['*'])
    (rest : List Char) :
    blockComment? (comment ++ '*' :: '/' :: rest) = some (comment ++ ['*', '/'], rest) := by
  induction comment with
  | nil => rfl
  | cons c comment ih =>
    have again := ih fun mark => first (List.infix_cons mark)
    rw [List.cons_append, blockComment?]
    · rw [again]
      rfl
    · rintro after rfl slash
      refine first (List.IsPrefix.isInfix ?_)
      cases comment with
      | nil => simp at slash
      | cons d comment =>
        obtain ⟨rfl, -⟩ := List.cons.inj slash
        exact ⟨comment ++ ['*'], rfl⟩

theorem gap_nil : gap [] = ⟨[], [], true⟩ := by rw [gap]

theorem gap_lastLine {comment : List Char} (clean : '\n' ∉ comment) :
    gap ('/' :: '/' :: comment) = ⟨'/' :: '/' :: comment, [], true⟩ := by
  rw [gap, lineComment_open clean]
  simp [gap_nil, Gap.after]

theorem gap_line {comment : List Char} (clean : '\n' ∉ comment) (rest : List Char) :
    gap ('/' :: '/' :: (comment ++ '\n' :: rest)) =
      (gap rest).after ('/' :: '/' :: (comment ++ ['\n'])) := by
  rw [gap, lineComment_line clean]

theorem gap_block {comment : List Char} (first : ¬['*', '/'] <:+: comment ++ ['*'])
    (rest : List Char) :
    gap ('/' :: '*' :: (comment ++ '*' :: '/' :: rest)) =
      (gap rest).after ('/' :: '*' :: (comment ++ ['*', '/'])) := by
  have found := blockComment?_block first rest
  rw [gap]
  split
  · next comment' after found' =>
    cases found'.symm.trans found
    rfl
  · next none_ => cases none_.symm.trans found

theorem Gap.after_after (g : Gap) (front back : List Char) :
    (g.after back).after front = g.after (front ++ back) := by
  simp [Gap.after]

namespace Trivia

variable {atEnd : Bool} {front : List Char}

/-- Blanks and comments are skipped before anything else. -/
theorem gap_append (h : Trivia atEnd front) (rest : List Char) (last : atEnd = true → rest = []) :
    gap (front ++ rest) = (gap rest).after front := by
  induction h with
  | nil => rfl
  | blank isBlank _ ih =>
    rw [List.cons_append, gap_blank isBlank, ih last, Gap.after_after]
    rfl
  | line clean _ ih =>
    rw [List.cons_append, List.cons_append, List.append_assoc, List.cons_append, gap_line clean,
      ih last, Gap.after_after]
    simp
  | lastLine clean =>
    rw [last rfl, List.append_nil, gap_lastLine clean, gap_nil]
    simp [Gap.after]
  | block first _ ih =>
    rw [List.cons_append, List.cons_append, List.append_assoc, List.cons_append, List.cons_append,
      gap_block first, ih last, Gap.after_after]
    simp

/-- A line feed completes a comment that lacks it. -/
theorem complete (h : Trivia atEnd front) : Trivia false (front ++ ['\n']) := by
  induction h with
  | nil => exact .blank (by decide) .nil
  | blank isBlank _ ih => exact .blank isBlank ih
  | line clean _ ih => simpa using Trivia.line clean ih
  | lastLine clean => simpa using Trivia.line clean .nil
  | block first _ ih => simpa using Trivia.block first ih

/-- Without a line feed at the end there are still only blanks and comments. -/
theorem incomplete (h : Trivia atEnd (front ++ ['\n'])) : Trivia true front := by
  generalize whole : front ++ ['\n'] = text at h
  have cut {front : List Char} (back : List Char) {c : Char} (eq : front ++ ['\n'] = back ++ [c]) :
      front = back ∧ '\n' = c := by simpa using List.append_inj' eq rfl
  induction h generalizing front with
  | nil => simp at whole
  | blank isBlank rest ih =>
    cases front with
    | nil => exact .nil
    | cons d front =>
      obtain ⟨rfl, whole'⟩ := List.cons.inj whole
      exact .blank isBlank (ih whole')
  | @line comment _ rest clean _ ih =>
    rcases List.eq_nil_or_concat' rest with rfl | ⟨rest, c, rfl⟩
    · obtain ⟨rfl, -⟩ := cut ('/' :: '/' :: comment) (by simpa using whole)
      exact .lastLine clean
    · obtain ⟨rfl, rfl⟩ := cut ('/' :: '/' :: (comment ++ '\n' :: rest)) (by simpa using whole)
      exact .line clean (ih rfl)
  | @lastLine comment clean =>
    rcases List.eq_nil_or_concat' comment with rfl | ⟨comment, c, rfl⟩
    · obtain ⟨-, feed⟩ := cut ['/'] (by simpa using whole)
      exact absurd feed (by decide)
    · obtain ⟨-, rfl⟩ := cut ('/' :: '/' :: comment) (by simpa using whole)
      simp at clean
  | @block comment _ rest first _ ih =>
    rcases List.eq_nil_or_concat' rest with rfl | ⟨rest, c, rfl⟩
    · obtain ⟨-, feed⟩ := cut ('/' :: '*' :: (comment ++ ['*'])) (by simpa using whole)
      exact absurd feed (by decide)
    · obtain ⟨rfl, rfl⟩ :=
        cut ('/' :: '*' :: (comment ++ '*' :: '/' :: rest)) (by simpa using whole)
      exact .block first (ih rfl)

end Trivia

/-- What follows a gap starts with a character that is neither blank nor starts a comment. -/
theorem gap_rest_start {text rest : List Char} {first : Char} (closed : (gap text).closed = true)
    (left : (gap text).rest = first :: rest) : isBlank first = false ∧
      (first = '/' → rest.head? ≠ some '/' ∧ rest.head? ≠ some '*') := by
  fun_induction gap text with
  | case1 => cases left
  | case2 rest' ih => exact ih closed left
  | case3 rest' comment after found ih => exact ih closed left
  | case4 => cases closed
  | case5 c rest' _ _ blank ih => exact ih closed left
  | case6 c rest' noLine noBlock ink =>
    obtain ⟨rfl, rfl⟩ := List.cons.inj left
    refine ⟨by simpa using ink, ?_⟩
    rintro rfl
    constructor <;> intro head
    · obtain ⟨after, rfl⟩ := List.head?_eq_some_iff.1 head
      exact noLine after rfl rfl
    · obtain ⟨after, rfl⟩ := List.head?_eq_some_iff.1 head
      exact noBlock after rfl rfl

section

variable {text skipped rest : List Char} {first : Char}

theorem gap_only (h : gap text = ⟨skipped, [], true⟩) : text = skipped ∧ Trivia true skipped := by
  have trivia := gap_trivia text
  have whole := gap_append text
  rw [h] at trivia whole
  exact ⟨by simpa using whole.symm, trivia⟩

theorem gap_before (h : gap text = ⟨skipped, first :: rest, true⟩) :
    text = skipped ++ first :: rest ∧ Trivia false skipped ∧ isBlank first = false ∧
      (first = '/' → rest.head? ≠ some '/' ∧ rest.head? ≠ some '*') := by
  have trivia := gap_trivia text
  have whole := gap_append text
  have start := @gap_rest_start text rest first
  rw [h] at trivia whole start
  exact ⟨whole.symm, trivia, start rfl rfl⟩

/-- The gap in front of a token ends there whatever follows, unless a comment mark is made of it. -/
theorem gap_front (h : gap text = ⟨skipped, first :: rest, true⟩) {rest' : List Char}
    (same : ∀ c, rest'.head? = some c → isBlank c = true ∨ rest.head? = some c) :
    gap (skipped ++ first :: rest') = ⟨skipped, first :: rest', true⟩ := by
  obtain ⟨-, trivia, ink, comment⟩ := gap_before h
  have start : gap (first :: rest') = ⟨[], first :: rest', true⟩ := by
    refine gap_of_start ink fun slash => ⟨fun head => ?_, fun head => ?_⟩
    · exact (same _ head).elim (absurd · (by decide)) (comment slash).1
    · exact (same _ head).elim (absurd · (by decide)) (comment slash).2
  rw [trivia.gap_append _ nofun, start]
  simp [Gap.after]

end

/-! ## Pieces -/

/-- Pieces and a gap in front of others. -/
def prolong (found : List Piece) (left : List Char) : List Piece × Ending → List Piece × Ending
  | ([], ending) => (found, { ending with gap := left ++ ending.gap })
  | (piece :: later, ending) => (found ++ { piece with gap := left ++ piece.gap } :: later, ending)

theorem prolong_cons (piece : Piece) (found : List Piece) (left : List Char)
    (behind : List Piece × Ending) : prolong (piece :: found) left behind =
      (piece :: (prolong found left behind).1, (prolong found left behind).2) := by
  rcases behind with ⟨_ | ⟨next, later⟩, ending⟩ <;> rfl

theorem pieces_after {text rest left : List Char} (h : gap text = (gap rest).after left) :
    pieces text = prolong [] left (pieces rest) := by
  rcases front : gap rest with ⟨skipped, more, closed⟩
  rw [front] at h
  cases closed with
  | false => rw [pieces_open h, pieces_open front]; rfl
  | true =>
    cases more with
    | nil => rw [pieces_end h, pieces_end front]; rfl
    | cons first more =>
      rcases read : scan first more with fault | s
      · rw [pieces_fault h read, pieces_fault front read]; rfl
      · rw [pieces_cons h read, pieces_cons front read]; rfl

/-- A text falls into pieces, with only a gap left. -/
inductive Falls : List Char → List Piece → List Char → Prop where
  | last {text left : List Char} : gap text = ⟨left, [], true⟩ → Falls text [] left
  | piece {text skipped rest left : List Char} {first : Char} {s : Scanned} {found : List Piece} :
      gap text = ⟨skipped, first :: rest, true⟩ → scan first rest = .ok s →
      Falls s.rest found left → Falls text (⟨skipped, s.kind, s.lexeme⟩ :: found) left

namespace Falls

variable {text left : List Char} {found : List Piece}

theorem pieces_eq (h : Falls text found left) : pieces text = (found, ⟨left, none, []⟩) := by
  induction h with
  | last front => exact pieces_end front
  | piece front read _ ih => rw [pieces_cons front read, ih]

theorem of_pieces (sound : (pieces text).2.fault = none) :
    Falls text (pieces text).1 (pieces text).2.gap := by
  fun_induction pieces text with
  | case1 text front closed next =>
    refine .last ?_
    rw [show gap text = ⟨front.skipped, front.rest, front.closed⟩ from rfl, next, closed]
  | case2 => cases sound
  | case3 text front closed first rest next s read others ending inner ih =>
    rw [inner] at ih
    refine .piece (?_ : gap text = ⟨front.skipped, first :: rest, true⟩) read (ih sound)
    rw [show gap text = ⟨front.skipped, front.rest, front.closed⟩ from rfl, next, closed]
  | case4 => cases sound

/-- Behind a line feed the text starts anew. -/
theorem onward (h : Falls text found left) (more : List Char) :
    pieces (text ++ '\n' :: more) = prolong found (left ++ ['\n']) (pieces more) := by
  induction h with
  | last front =>
    obtain ⟨rfl, trivia⟩ := gap_only front
    refine pieces_after ?_
    rw [List.append_cons]
    exact trivia.complete.gap_append more nofun
  | @piece text skipped rest left first s found front read _ ih =>
    have front' : gap (skipped ++ first :: (rest ++ '\n' :: more)) =
        ⟨skipped, first :: (rest ++ '\n' :: more), true⟩ := by
      refine gap_front front fun c head => ?_
      cases rest with
      | nil => cases head; exact .inl rfl
      | cons d rest => exact .inr head
    have text' : text ++ '\n' :: more = skipped ++ first :: (rest ++ '\n' :: more) := by
      simp [(gap_before front).1]
    rw [text', pieces_cons front' ((scan_extends rfl first rest).onward s read), prolong_cons]
    exact congrArg (fun found => (_ :: Prod.fst found, Prod.snd found)) ih

/-- A line feed at the end is in the gap that is left. -/
theorem back {body : List Char} (h : Falls (body ++ ['\n']) found left) :
    ∃ left', left = left' ++ ['\n'] ∧ Falls body found left' := by
  generalize whole : body ++ ['\n'] = text at h
  induction h generalizing body with
  | last front =>
    obtain ⟨rfl, trivia⟩ := gap_only front
    subst whole
    have alone := trivia.incomplete.gap_append [] fun _ => rfl
    rw [List.append_nil, gap_nil] at alone
    exact ⟨body, rfl, .last (by simpa [Gap.after] using alone)⟩
  | @piece text skipped rest left first s found front read _ ih =>
    obtain ⟨all, -, ink, -⟩ := gap_before front
    rw [← whole] at all
    rcases List.eq_nil_or_concat' rest with rfl | ⟨rest, c, rfl⟩
    · -- The line feed would be the first character of the token.
      obtain ⟨-, feed⟩ := List.append_inj' all rfl
      cases feed
      exact absurd ink (by decide)
    have all' : body ++ ['\n'] = (skipped ++ first :: rest) ++ [c] := by simpa using all
    obtain ⟨rfl, feed⟩ := List.append_inj' all' rfl
    cases feed
    have together : Extends ['\n'] (scan first rest) (scan first (rest ++ ['\n'])) :=
      scan_extends rfl first rest
    obtain ⟨s', read', rfl⟩ := together.back rfl s read
    obtain ⟨left', rfl, falls⟩ := ih rfl
    have front' : gap (skipped ++ first :: rest) = ⟨skipped, first :: rest, true⟩ := by
      refine gap_front front fun c head => .inr ?_
      rw [List.head?_append, head]
      rfl
    have step := Falls.piece front' read' falls
    exact ⟨left', rfl, step⟩

theorem trivia (h : Falls text found left) : Trivia true left := by
  have sound := pieces_ending_sound text
  rw [h.pieces_eq] at sound
  exact sound.2

end Falls

/-! ## Completed texts -/

/-- A completed text ends with a line feed, and what is in front of it has the pieces of the text. -/
theorem falls_of_completed {text : String} (sound : (pieces text.toList).2.fault = none) :
    ∃ body left, (completed text).toList = body ++ ['\n'] ∧
      Falls body (pieces text.toList).1 left := by
  have falls := Falls.of_pieces sound
  unfold completed
  split
  · next feed =>
    obtain ⟨body, eq⟩ := List.getLast?_eq_some_iff.1 feed
    rw [eq] at falls ⊢
    obtain ⟨left, -, shorter⟩ := falls.back
    exact ⟨body, left, rfl, shorter⟩
  · exact ⟨text.toList, _, by simp, falls⟩

/-- A completed text is left as it was entered, and its pieces do not depend on what follows. -/
theorem pieces_completed {text : String} (sound : (pieces text.toList).2.fault = none) :
    ∃ left, Trivia false left ∧
      pieces (completed text).toList = ((pieces text.toList).1, ⟨left, none, []⟩) ∧
      ∀ more, pieces ((completed text).toList ++ more) =
        prolong (pieces text.toList).1 left (pieces more) := by
  obtain ⟨body, left, eq, falls⟩ := falls_of_completed sound
  have onward (more : List Char) : pieces ((completed text).toList ++ more) =
      prolong (pieces text.toList).1 (left ++ ['\n']) (pieces more) := by
    rw [eq, List.append_assoc]
    exact falls.onward more
  refine ⟨left ++ ['\n'], falls.trivia.complete, ?_, onward⟩
  have alone := onward []
  rw [List.append_nil, pieces_end gap_nil] at alone
  simpa [prolong] using alone

theorem completed_sound {text : String} (sound : (pieces text.toList).2.fault = none) :
    (pieces (completed text).toList).2.fault = none := by
  obtain ⟨left, -, alone, -⟩ := pieces_completed sound
  rw [alone]

/-! ## Parts -/

/-- A part of a source text. -/
inductive Part where
  | blank (c : Char)
  | comment (text : List Char)
  | token (kind : TokenKind) (lexeme : List Char)
deriving DecidableEq, Repr

def Part.text : Part → List Char
  | blank c => [c]
  | comment text => text
  | token _ lexeme => lexeme

/-- The blanks and comments of a gap, one by one. -/
def gapParts (text : List Char) : List Part :=
  match text with
  | [] => []
  | '/' :: '/' :: rest =>
    .comment ('/' :: '/' :: (lineComment rest).1) :: gapParts (lineComment rest).2
  | '/' :: '*' :: rest =>
    match _found : blockComment? rest with
    | some (comment, after) => .comment ('/' :: '*' :: comment) :: gapParts after
    | none => []
  | c :: rest => .blank c :: gapParts rest
termination_by text.length
decreasing_by
  · have parts := congrArg List.length (lineComment_append rest)
    simp only [List.length_append] at parts
    simp only [List.length_cons]
    omega
  · have parts := congrArg List.length (blockComment?_append _found)
    simp only [List.length_append] at parts
    simp only [List.length_cons]
    omega
  · simp

def partsOf (read : List Piece × Ending) : List Part :=
  read.1.flatMap (fun piece => gapParts piece.gap ++ [.token piece.kind piece.lexeme]) ++
    gapParts read.2.gap

/-- The blanks, comments and tokens of a text, one by one. -/
def parts (text : List Char) : List Part := partsOf (pieces text)

theorem gapParts_nil : gapParts [] = [] := by rw [gapParts]

theorem gapParts_blank {c : Char} (blank : isBlank c = true) (rest : List Char) :
    gapParts (c :: rest) = .blank c :: gapParts rest := by
  rw [gapParts]
  · rintro after rfl
    exact absurd blank (by decide)
  · rintro after rfl
    exact absurd blank (by decide)

theorem gapParts_line {comment : List Char} (clean : '\n' ∉ comment) (rest : List Char) :
    gapParts ('/' :: '/' :: (comment ++ '\n' :: rest)) =
      .comment ('/' :: '/' :: (comment ++ ['\n'])) :: gapParts rest := by
  rw [gapParts, lineComment_line clean]

theorem gapParts_lastLine {comment : List Char} (clean : '\n' ∉ comment) :
    gapParts ('/' :: '/' :: comment) = [.comment ('/' :: '/' :: comment)] := by
  rw [gapParts, lineComment_open clean, gapParts_nil]

theorem gapParts_block {comment : List Char} (first : ¬['*', '/'] <:+: comment ++ ['*'])
    (rest : List Char) :
    gapParts ('/' :: '*' :: (comment ++ '*' :: '/' :: rest)) =
      .comment ('/' :: '*' :: (comment ++ ['*', '/'])) :: gapParts rest := by
  have found := blockComment?_block first rest
  rw [gapParts]
  split
  · next comment' after found' =>
    cases found'.symm.trans found
    rfl
  · next none_ => cases none_.symm.trans found

namespace Trivia

variable {atEnd : Bool} {front : List Char}

theorem gapParts_append (h : Trivia atEnd front) (rest : List Char)
    (last : atEnd = true → rest = []) : gapParts (front ++ rest) = gapParts front ++ gapParts rest := by
  induction h with
  | nil => rw [gapParts_nil]; rfl
  | blank isBlank _ ih => simp [gapParts_blank isBlank, ih last]
  | line clean _ ih => simp [gapParts_line clean, ih last]
  | lastLine clean => simp [last rfl, gapParts_nil]
  | block first _ ih => simp [gapParts_block first, ih last]

theorem gapParts_text (h : Trivia atEnd front) : (gapParts front).flatMap Part.text = front := by
  induction h with
  | nil => rw [gapParts_nil]; rfl
  | blank isBlank _ ih => simp [gapParts_blank isBlank, ih, Part.text]
  | line clean _ ih => simp [gapParts_line clean, ih, Part.text]
  | lastLine clean => simp [gapParts_lastLine clean, Part.text]
  | block first _ ih => simp [gapParts_block first, ih, Part.text]

end Trivia

theorem parts_text {text : List Char} (sound : (pieces text).2.fault = none) :
    (parts text).flatMap Part.text = text := by
  have falls := Falls.of_pieces sound
  have whole := pieces_text text
  have last : (pieces text).2.rest = [] := by rw [falls.pieces_eq]
  have each : ∀ piece ∈ (pieces text).1,
      (gapParts piece.gap ++ [Part.token piece.kind piece.lexeme]).flatMap Part.text = piece.text := by
    intro piece mem
    rw [List.flatMap_append, (pieces_trivia text piece mem).1.gapParts_text]
    simp [Part.text, Piece.text]
  rw [last, List.append_nil] at whole
  rw [parts, partsOf, List.flatMap_append, falls.trivia.gapParts_text, List.flatMap_assoc,
    List.flatMap_congr each, whole]

theorem partsOf_prolong {left : List Char} (trivia : Trivia false left) (found : List Piece)
    (behind : List Piece × Ending) :
    partsOf (prolong found left behind) = partsOf (found, ⟨left, none, []⟩) ++ partsOf behind := by
  rcases behind with ⟨_ | ⟨next, later⟩, ending⟩
  · simp [partsOf, prolong, trivia.gapParts_append _ nofun]
  · simp [partsOf, prolong, trivia.gapParts_append _ nofun]

/-! ## Joined texts -/

def Piece.written (piece : Piece) : TokenKind × String := (piece.kind, String.ofList piece.lexeme)

def Token.written (token : Token) : TokenKind × String := (token.kind, token.lexeme)

theorem prolong_fault (found : List Piece) (left : List Char) (behind : List Piece × Ending) :
    (prolong found left behind).2.fault = behind.2.fault := by
  rcases behind with ⟨_ | ⟨next, later⟩, ending⟩ <;> rfl

theorem prolong_written (found : List Piece) (left : List Char) (behind : List Piece × Ending) :
    (prolong found left behind).1.map Piece.written =
      found.map Piece.written ++ behind.1.map Piece.written := by
  rcases behind with ⟨_ | ⟨next, later⟩, ending⟩ <;> simp [prolong, Piece.written]

theorem placePieces_written (offset : Nat) (found : List Piece) :
    (placePieces offset found).1.map Token.written = found.map Piece.written := by
  induction found generalizing offset with
  | nil => rfl
  | cons piece found ih => exact congrArg (piece.written :: ·) (ih _)

theorem joined_cons (text : String) (texts : List String) :
    (joined (text :: texts)).toList = (completed text).toList ++ (joined texts).toList := by
  simp [joined, String.toList_join]

theorem pieces_joined {texts : List String}
    (sound : ∀ text ∈ texts, (pieces text.toList).2.fault = none) :
    (pieces (joined texts).toList).2.fault = none ∧
      (pieces (joined texts).toList).1.map Piece.written =
        texts.flatMap (fun text => (pieces text.toList).1.map Piece.written) ∧
      parts (joined texts).toList = texts.flatMap fun text => parts (completed text).toList := by
  induction texts with
  | nil =>
    have nothing : pieces (joined []).toList = ([], ⟨[], none, []⟩) := pieces_end gap_nil
    simp [parts, partsOf, nothing, gapParts_nil]
  | cons text texts ih =>
    obtain ⟨here, others⟩ := List.forall_mem_cons.1 sound
    obtain ⟨fault, written, part⟩ := ih others
    obtain ⟨left, trivia, alone, onward⟩ := pieces_completed here
    rw [joined_cons, onward]
    refine ⟨(prolong_fault ..).trans fault, ?_, ?_⟩
    · rw [prolong_written, written, List.flatMap_cons]
    · rw [parts, onward, partsOf_prolong trivia, List.flatMap_cons, ← part, parts, alone, parts]

/-- Whatever a part of joined texts is, it stands in one of them. -/
theorem part_in_text {texts : List String}
    (sound : ∀ text ∈ texts, (pieces text.toList).2.fault = none) {front back : List Part} {part : Part}
    (eq : texts.flatMap (fun text => parts (completed text).toList) = front ++ part :: back) :
    ∃ before text after ahead behind, texts = before ++ text :: after ∧
      front.flatMap Part.text = (joined before).toList ++ ahead ∧
      (completed text).toList = ahead ++ (part.text ++ behind) := by
  induction texts generalizing front with
  | nil => simp at eq
  | cons text texts ih =>
    obtain ⟨here, others⟩ := List.forall_mem_cons.1 sound
    have whole := parts_text (completed_sound here)
    have later (shorter : List Part) (split : front = parts (completed text).toList ++ shorter)
        (rest : texts.flatMap (fun text => parts (completed text).toList) = shorter ++ part :: back) :
        ∃ before text' after ahead behind, text :: texts = before ++ text' :: after ∧
          front.flatMap Part.text = (joined before).toList ++ ahead ∧
          (completed text').toList = ahead ++ (part.text ++ behind) := by
      obtain ⟨before, text', after, ahead, behind, rfl, ahead_eq, within⟩ := ih others rest
      refine ⟨text :: before, text', after, ahead, behind, rfl, ?_, within⟩
      rw [split, List.flatMap_append, whole, ahead_eq, joined_cons, List.append_assoc]
    rw [List.flatMap_cons] at eq
    rcases List.append_eq_append_iff.1 eq with ⟨shorter, split, rest⟩ | ⟨more, split, rest⟩
    · exact later shorter split rest
    · cases more with
      | nil => exact later [] (by simpa using split.symm) (by simpa using rest.symm)
      | cons first more =>
        obtain ⟨rfl, -⟩ := List.cons.inj rest
        refine ⟨[], text, texts, front.flatMap Part.text, more.flatMap Part.text, rfl, rfl, ?_⟩
        rw [← whole, split]
        simp

theorem Source.sound_of_tokens {source : Source} {tokens : List Token}
    (h : source.tokens = .ok tokens) : (pieces source.chars).2.fault = none := by
  unfold Source.tokens at h
  dsimp only at h
  split at h
  · next none_ => exact none_
  · cases h

theorem Source.tokens_written (source : Source) (sound : (pieces source.chars).2.fault = none) :
    ∃ tokens, source.tokens = .ok tokens ∧
      tokens.map Token.written = (pieces source.chars).1.map Piece.written ++ [(.eof, "")] := by
  refine ⟨_, Source.tokens_of_pieces (Falls.of_pieces sound).pieces_eq, ?_⟩
  rw [Source.tokensOf, List.map_append, placePieces_written]
  rfl

theorem Source.written_of_tokens {source : Source} {tokens : List Token}
    (h : source.tokens = .ok tokens) : (tokens.filter (·.kind ≠ .eof)).map Token.written =
      (pieces source.chars).1.map Piece.written := by
  have read := (Falls.of_pieces (Source.sound_of_tokens h)).pieces_eq
  obtain rfl := Except.ok.inj (h.symm.trans (Source.tokens_of_pieces read))
  have inked : (placePieces 0 (pieces source.chars).1).1.filter (·.kind ≠ .eof) =
      (placePieces 0 (pieces source.chars).1).1 :=
    List.filter_eq_self.2 fun token mem => by simpa using (source.split read).kind_ne_eof mem
  rw [Source.tokensOf, List.filter_append, inked, List.map_append, placePieces_written]
  simp

section

variable {texts : List String} {lists : List (List Token)}
  (lexed : List.Forall₂ (fun text tokens => (⟨text, none⟩ : Source).tokens = .ok tokens) texts lists)
include lexed

theorem sound_of_lexed : ∀ text ∈ texts, (pieces text.toList).2.fault = none := by
  induction lexed with
  | nil => exact List.forall_mem_nil _
  | cons here _ ih => exact List.forall_mem_cons.2 ⟨Source.sound_of_tokens here, ih⟩

theorem written_of_lexed : (lists.flatten.filter (·.kind ≠ .eof)).map Token.written =
    texts.flatMap fun text => (pieces text.toList).1.map Piece.written := by
  induction lexed with
  | nil => rfl
  | cons here _ ih =>
    rw [List.flatten_cons, List.filter_append, List.map_append, ih, Source.written_of_tokens here]
    rfl

end

/-- Joined texts that fall into tokens one by one fall into the same tokens together, with one end. The
whole consists of the blanks, comments and tokens of the texts, none of which stands in two of them. -/
theorem Source.tokens_joined {texts : List String} {lists : List (List Token)}
    (lexed : List.Forall₂ (fun text tokens => (⟨text, none⟩ : Source).tokens = .ok tokens) texts lists)
    (path : Option String) :
    (∃ tokens, (⟨joined texts, path⟩ : Source).tokens = .ok tokens ∧
      tokens.map Token.written =
        (lists.flatten.filter (·.kind ≠ .eof)).map Token.written ++ [(.eof, "")]) ∧
    (parts (joined texts).toList).flatMap Part.text = (joined texts).toList ∧
    parts (joined texts).toList = texts.flatMap (fun text => parts (completed text).toList) ∧
    ∀ front part back, parts (joined texts).toList = front ++ part :: back →
      ∃ before text after ahead behind, texts = before ++ text :: after ∧
        front.flatMap Part.text = (joined before).toList ++ ahead ∧
        (completed text).toList = ahead ++ (part.text ++ behind) := by
  have sound := sound_of_lexed lexed
  obtain ⟨fault, joint, all⟩ := pieces_joined sound
  obtain ⟨tokens, read, eq⟩ := Source.tokens_written ⟨joined texts, path⟩ fault
  refine ⟨⟨tokens, read, ?_⟩, parts_text fault, all, fun front part back split => ?_⟩
  · rw [eq, written_of_lexed lexed]
    exact congrArg (· ++ _) joint
  · exact part_in_text sound (all.symm.trans split)

/-- A text that ends in a comment, an empty one, one with comment marks in a string, and one that ends
in half a comment mark. -/
def fragments : List String := ["f // \"", "", "/* \n */ \"//\"\n", "/"]

theorem fragments_joined : ∃ lists tokens,
    List.Forall₂ (fun text tokens => (⟨text, none⟩ : Source).tokens = .ok tokens) fragments lists ∧
    (⟨joined fragments, none⟩ : Source).tokens = .ok tokens ∧
    tokens.map Token.written = [(.ident "f", "f"), (.literal (.string "//"), "\"//\""),
      (.punct .slash, "/"), (.eof, "")] := by
  have lexed : List.Forall₂ (fun text tokens => (⟨text, none⟩ : Source).tokens = .ok tokens)
      fragments [[⟨.ident "f", "f", ⟨0, 1⟩⟩, ⟨.eof, "", ⟨6, 6⟩⟩], [⟨.eof, "", ⟨0, 0⟩⟩],
        [⟨.literal (.string "//"), "\"//\"", ⟨8, 12⟩⟩, ⟨.eof, "", ⟨13, 13⟩⟩],
        [⟨.punct .slash, "/", ⟨0, 1⟩⟩, ⟨.eof, "", ⟨1, 1⟩⟩]] := by
    refine .cons ?_ (.cons ?_ (.cons ?_ (.cons ?_ .nil))) <;>
      exact ok_of_toOption (by decide +kernel)
  obtain ⟨⟨tokens, read, written⟩, -⟩ := Source.tokens_joined lexed none
  exact ⟨_, tokens, lexed, read, written.trans (by decide +kernel)⟩

end ClassLang
