import ClassLang.Lexing.Tokens
import ClassLang.Proofs.Lexing.Numerals

/-!
A token is read back from its spelling, whatever follows it, as long as that does not go on with it.

* `readsFront_spelling`: the law for every token that the lexer makes.
-/

namespace ClassLang

/-! ## Tokens that the lexer makes -/

/-- Whether a word is read as a name. -/
def isName (word : String) : Bool :=
  word.toList.head?.any isIdentifierStart && word.toList.tail.all isXidContinue &&
    (Keyword.ofSpelling? word).isNone

/-- Whether a literal is one token, with a value that the lexer gives it. -/
def Literal.isLexical : Literal → Bool
  | int _ | string _ | char _ => true
  | float value | imaginary value => value.isCanonical
  | bytes value => value.all (· < 128)
  | bool _ | null | undefined => false

/-- Whether the number in a literal, if there is one, is finite. -/
def Literal.isFinite : Literal → Bool
  | float value | imaginary value => value.isFinite
  | _ => true

/-- Whether the lexer makes such a token before the end of a source. -/
def TokenKind.isLexical : TokenKind → Bool
  | ident name => isName name
  | keyword _ | punct _ => true
  | literal value => value.isLexical
  | eof => false

/-- Whether the number in a token, if there is one, is finite. -/
def TokenKind.isFinite : TokenKind → Bool
  | literal value => value.isFinite
  | _ => true

/-! ## What follows a token -/

/-- Whether a text does not go on with a word or a number in front of it. -/
def endsWord (rest : List Char) : Bool :=
  !continuesWord rest && rest.head? != some '"' && (fraction rest).1.isEmpty

/-- Whether a text does not go on with a mark in front of it. -/
def endsMark (rest : List Char) : Bool :=
  !rest.head?.any fun c => ['=', '<', '>', '*', '/'].contains c

/-- Whether a text does not go on with a token in front of it. -/
def TokenKind.endsBefore : TokenKind → List Char → Bool
  | punct _, rest => endsMark rest
  | _, rest => endsWord rest

theorem endsWord_iff {rest : List Char} : endsWord rest = true ↔
    continuesWord rest = false ∧ rest.head? ≠ some '"' ∧ fraction rest = ([], rest) := by
  have whole := fraction_append rest
  simp only [endsWord, Bool.and_eq_true, Bool.not_eq_true', bne_iff_ne, List.isEmpty_iff, and_assoc]
  refine and_congr_right fun _ => and_congr_right fun _ => ⟨fun none_ => ?_, fun eq => ?_⟩
  · rw [none_, List.nil_append] at whole
    exact Prod.ext none_ whole
  · rw [eq]

/-! ## Gaps -/

theorem gap_of_start {first : Char} {tail : List Char} (ink : isBlank first = false)
    (comment : first = '/' → tail.head? ≠ some '/' ∧ tail.head? ≠ some '*') :
    gap (first :: tail) = ⟨[], first :: tail, true⟩ := by
  rw [gap.eq_def]
  split
  · next eq => cases eq
  · next rest eq =>
    cases eq
    exact absurd rfl (comment rfl).1
  · next rest eq =>
    cases eq
    exact absurd rfl (comment rfl).2
  · next c rest _ _ eq =>
    cases eq
    rw [ink]
    rfl

theorem isBlank_of_isIdentifierStart {c : Char} (h : isIdentifierStart c = true) :
    isBlank c = false := by
  have wide : wideBlanks.all (fun n => 128 ≤ n && !inRanges identifierStartRanges n) = true := by
    decide +kernel
  rw [Bool.eq_false_iff]
  intro blank
  simp only [isBlank, Bool.or_eq_true, Bool.and_eq_true, beq_iff_eq, decide_eq_true_eq,
    List.contains_iff_mem] at blank
  simp only [isIdentifierStart, isXidStart, Bool.or_eq_true, beq_iff_eq] at h
  rcases blank with (rfl | narrow) | mem
  · revert h
    decide
  · rcases h with rfl | letter
    · revert narrow
      decide
    · have small : c.val < 128 := Nat.lt_of_le_of_lt narrow.2 (by decide)
      rw [if_pos small] at letter
      have value : c.toNat = c.val.toNat := rfl
      rcases Bool.or_eq_true_iff.1 letter with upper | lower
      · have low : 65 ≤ c.val.toNat := (of_decide_eq_true upper).1
        omega
      · have low : 97 ≤ c.val.toNat := of_decide_eq_true (Bool.and_eq_true_iff.1 lower).1
        omega
  · have entry := List.all_eq_true.1 wide c.toNat mem
    simp only [Bool.and_eq_true, decide_eq_true_eq, Bool.not_eq_true'] at entry
    rcases h with rfl | letter
    · revert mem
      decide
    · have large : ¬ c.val < 128 := Nat.not_lt.2 entry.1
      rw [if_neg large, entry.2] at letter
      cases letter

theorem isBlank_of_isDigit {c : Char} (h : c.isDigit = true) : isBlank c = false := by
  rw [Bool.eq_false_iff]
  intro blank
  simp only [isBlank, Bool.or_eq_true, Bool.and_eq_true, beq_iff_eq, decide_eq_true_eq,
    List.contains_iff_mem] at blank
  simp only [Char.isDigit, Bool.and_eq_true, decide_eq_true_eq] at h
  have low : 48 ≤ c.toNat := h.1
  have high : c.toNat ≤ 57 := h.2
  have wide : wideBlanks.all (fun n => 57 < n) = true := by decide
  rcases blank with (rfl | narrow) | mem
  · revert low
    decide
  · omega
  · have entry := List.all_eq_true.1 wide c.toNat mem
    simp only [decide_eq_true_eq] at entry
    omega

/-! ## Words -/

/-- The token of a word. -/
def wordKind (word : String) : TokenKind :=
  ((Keyword.ofSpelling? word).map .keyword).getD (.ident word)

theorem scanWord_eq {first : Char} {tail rest : List Char} (letters : tail.all isXidContinue = true)
    (ends : endsWord rest = true) : scanWord first (tail ++ rest) =
      ⟨wordKind (String.ofList (first :: tail)), first :: tail, rest⟩ := by
  obtain ⟨taken, dropped⟩ := takeWhile_append_of_stop (List.all_eq_true.1 letters)
    (endsWord_iff.1 ends).1
  unfold scanWord wordKind
  dsimp only
  rw [taken, dropped]
  cases Keyword.ofSpelling? (String.ofList (first :: tail)) <;> rfl

theorem not_bytes_of_word {tail rest : List Char} (first : Char)
    (letters : tail.all isXidContinue = true) (ends : endsWord rest = true) :
    ¬(first = 'b' && (tail ++ rest).head? == some '"') = true := by
  rw [Bool.and_eq_true, beq_iff_eq]
  rintro ⟨-, quote⟩
  cases tail with
  | nil => exact (endsWord_iff.1 ends).2.1 quote
  | cons c tail =>
    cases quote
    rw [List.all_cons, Bool.and_eq_true] at letters
    exact absurd letters.1 (by decide)

theorem scan_word {first : Char} {tail rest : List Char} (start : isIdentifierStart first = true)
    (letters : tail.all isXidContinue = true) (ends : endsWord rest = true) :
    scan first (tail ++ rest) =
      .ok ⟨wordKind (String.ofList (first :: tail)), first :: tail, rest⟩ := by
  unfold scan
  rw [if_neg (not_bytes_of_word first letters ends), if_pos start, scanWord_eq letters ends]

/-! ## Quoted text -/

theorem quoted_closing (quote : Char) (rest : List Char) :
    quoted quote (quote :: rest) = .closed [] [quote] rest := by
  cases rest <;> simp [quoted]

theorem quoted_plain {quote c : Char} {text : List Char} (other : c ≠ quote) (plain : c ≠ '\\')
    (more : text ≠ []) : quoted quote (c :: text) = (quoted quote text).push c [c] := by
  obtain ⟨d, text, rfl⟩ := List.exists_cons_of_ne_nil more
  rw [quoted, if_neg other, if_neg plain]

theorem quoted_escaped {quote d value : Char} (other : '\\' ≠ quote)
    (known : unescape? d = some value) (text : List Char) :
    quoted quote ('\\' :: d :: text) = (quoted quote text).push value ['\\', d] := by
  rw [quoted, if_neg other, if_pos rfl, known]

theorem quoted_escape {quote : Char} (isQuote : quote = '"' ∨ quote = '\'') (c : Char)
    {text : List Char} (more : text ≠ []) :
    quoted quote (Literal.escape quote c ++ text) =
      (quoted quote text).push c (Literal.escape quote c) := by
  have backslash : '\\' ≠ quote := by
    rcases isQuote with rfl | rfl <;> decide
  unfold Literal.escape
  by_cases newline : c = '\n'
  · rw [if_pos newline, newline]
    exact quoted_escaped backslash rfl text
  rw [if_neg newline]
  by_cases tab : c = '\t'
  · rw [if_pos tab, tab]
    exact quoted_escaped backslash rfl text
  rw [if_neg tab]
  by_cases return_ : c = '\r'
  · rw [if_pos return_, return_]
    exact quoted_escaped backslash rfl text
  rw [if_neg return_]
  by_cases nul : c = '\x00'
  · rw [if_pos nul, nul]
    exact quoted_escaped backslash rfl text
  rw [if_neg nul]
  by_cases slash : c = '\\'
  · rw [if_pos slash, slash]
    exact quoted_escaped backslash rfl text
  rw [if_neg slash]
  by_cases same : c = quote
  · rw [if_pos same, same]
    rcases isQuote with rfl | rfl
    · exact quoted_escaped backslash rfl text
    · exact quoted_escaped backslash rfl text
  rw [if_neg same]
  exact quoted_plain same slash more

theorem quoted_escapes {quote : Char} (isQuote : quote = '"' ∨ quote = '\'')
    (text rest : List Char) :
    quoted quote (text.flatMap (Literal.escape quote) ++ quote :: rest) =
      .closed text (text.flatMap (Literal.escape quote) ++ [quote]) rest := by
  induction text with
  | nil => exact quoted_closing quote rest
  | cons c text ih =>
    rw [List.flatMap_cons, List.append_assoc, quoted_escape isQuote c (by simp), ih]
    simp [Quoted.push]

theorem scanQuoted_escapes {quote : Char} (isQuote : quote = '"' ∨ quote = '\'')
    (opening text rest : List Char) (cause : LexCause) :
    scanQuoted opening quote (text.flatMap (Literal.escape quote) ++ quote :: rest) cause =
      .ok (text, opening ++ (text.flatMap (Literal.escape quote) ++ [quote]), rest) := by
  rw [scanQuoted, quoted_escapes isQuote]

theorem scan_string (value : String) (rest : List Char) :
    scan '"' (value.toList.flatMap (Literal.escape '"') ++ '"' :: rest) =
      .ok ⟨.literal (.string value), (Literal.string value).text.toList, rest⟩ := by
  change scanString _ = _
  rw [scanString, scanQuoted_escapes (.inl rfl)]
  simp [bind, Except.bind, pure, Except.pure, Literal.text, Literal.quoted]

theorem scan_char (value : Char) (rest : List Char) :
    scan '\'' (Literal.escape '\'' value ++ '\'' :: rest) =
      .ok ⟨.literal (.char value), (Literal.char value).text.toList, rest⟩ := by
  have read := scanQuoted_escapes (.inr rfl) ['\''] [value] rest .unclosedChar
  rw [List.flatMap_singleton] at read
  change scanChar _ = _
  rw [scanChar, read]
  simp [bind, Except.bind, pure, Except.pure, Literal.text, Literal.quoted]

theorem ascii_of_bytes {value : List UInt8} (small : value.all (· < 128) = true) :
    (value.map fun b => Char.ofNat b.toNat).all (fun c => c.toNat < 128) = true ∧
      (value.map fun b => Char.ofNat b.toNat).map (fun c => c.toNat.toUInt8) = value := by
  have codes : ∀ n < 128, (Char.ofNat n).toNat = n := by decide
  rw [List.all_eq_true] at small
  have code (b : UInt8) (hb : b ∈ value) : (Char.ofNat b.toNat).toNat = b.toNat :=
    codes b.toNat (of_decide_eq_true (small b hb))
  constructor
  · rw [List.all_map, List.all_eq_true]
    intro b hb
    rw [Function.comp_apply, code b hb]
    exact small b hb
  · rw [List.map_map]
    refine (List.map_congr_left fun b hb => ?_).trans (List.map_id value)
    rw [Function.comp_apply, code b hb]
    exact UInt8.ofNat_toNat

theorem scan_bytes {value : List UInt8} (small : value.all (· < 128) = true) (rest : List Char) :
    scan 'b' ('"' :: ((value.map fun b => Char.ofNat b.toNat).flatMap (Literal.escape '"') ++
      '"' :: rest)) = .ok ⟨.literal (.bytes value), (Literal.bytes value).text.toList, rest⟩ := by
  obtain ⟨ascii, same⟩ := ascii_of_bytes small
  change scanBytes _ = _
  rw [scanBytes, List.drop_one, List.tail_cons, scanQuoted_escapes (.inl rfl)]
  simp only [bind, Except.bind, ascii, if_true, same]
  simp [pure, Except.pure, Literal.text, Literal.quoted]

/-! ## Marks -/

/-- A mark that starts with another one goes on with one of the characters of `endsMark`. -/
theorem longer_mark (short long : Punct) (c : Char) (h : (short.chars ++ [c]) <+: long.chars) :
    ['=', '<', '>', '*', '/'].contains c = true := by
  have table : (Punct.longestFirst.all fun short => Punct.longestFirst.all fun long =>
      !short.chars.isPrefixOf long.chars ||
        (long.chars.drop short.chars.length).head?.all fun c =>
          ['=', '<', '>', '*', '/'].contains c) = true := by
    decide +kernel
  have entry := List.all_eq_true.1 (List.all_eq_true.1 table short short.mem_longestFirst) long
    long.mem_longestFirst
  obtain ⟨after, eq⟩ := h
  rw [List.append_assoc] at eq
  have front : short.chars.isPrefixOf long.chars = true :=
    List.isPrefixOf_iff_prefix.2 ⟨_, eq⟩
  rw [front, ← eq] at entry
  simpa using entry

theorem eq_of_prefix_append {mark long : Punct} {rest : List Char} (ends : endsMark rest = true)
    (front : long.chars <+: mark.chars ++ rest)
    (length : mark.chars.length ≤ long.chars.length) : long = mark := by
  obtain ⟨more, eq⟩ : mark.chars <+: long.chars :=
    List.prefix_of_prefix_length_le (List.prefix_append _ _) front length
  cases more with
  | nil => exact (Punct.chars_injective (by simpa using eq)).symm
  | cons c more =>
    have goesOn := longer_mark mark long c ⟨more, by simpa using eq⟩
    rw [← eq, List.prefix_append_right_inj] at front
    obtain ⟨after, rfl⟩ := front
    simp only [endsMark, List.cons_append, List.head?_cons, Option.any_some, goesOn] at ends
    cases ends

/-- No mark at the front of a text is longer than the one that is read. -/
theorem punctAt?_longest {text : List Char} {mark : Punct} (read : punctAt? text = some mark) :
    mark.chars <+: text ∧ ∀ other : Punct, other.chars <+: text →
      other.chars.length ≤ mark.chars.length := by
  obtain ⟨front, before, after, split, none_⟩ := List.find?_eq_some_iff_append.1 read
  refine ⟨List.isPrefixOf_iff_prefix.1 front, fun other fits => ?_⟩
  have mem := other.mem_longestFirst
  rw [split, List.mem_append] at mem
  rcases mem with early | late
  · have unfit := none_ other early
    rw [List.isPrefixOf_iff_prefix.2 fits] at unfit
    cases unfit
  · rcases List.mem_cons.1 late with rfl | later
    · exact Nat.le_refl _
    · have sorted := Punct.longestFirst_sorted
      rw [split, List.pairwise_append, List.pairwise_cons] at sorted
      exact sorted.2.1.1 other later

theorem punctAt?_append {mark : Punct} {rest : List Char} (ends : endsMark rest = true) :
    punctAt? (mark.chars ++ rest) = some mark := by
  have fits : mark.chars <+: mark.chars ++ rest := List.prefix_append _ _
  have some_ : (punctAt? (mark.chars ++ rest)).isSome = true := by
    rw [punctAt?, List.find?_isSome]
    exact ⟨mark, mark.mem_longestFirst, List.isPrefixOf_iff_prefix.2 fits⟩
  obtain ⟨found, eq⟩ := Option.isSome_iff_exists.1 some_
  obtain ⟨front, longest⟩ := punctAt?_longest eq
  rw [eq, eq_of_prefix_append ends front (longest mark fits)]

theorem scan_punct {mark : Punct} {first : Char} {tail rest : List Char}
    (chars : mark.chars = first :: tail) (ends : endsMark rest = true) :
    scan first (tail ++ rest) = .ok ⟨.punct mark, mark.chars, rest⟩ := by
  have sign (m : Punct) : m.chars.head?.all (fun c => !(c = 'b') && !isIdentifierStart c &&
      !c.isDigit && !(c = '"') && !(c = '\'')) = true := by
    cases m <;> decide
  have first_ := sign mark
  rw [chars, List.head?_cons, Option.all_some] at first_
  simp only [Bool.and_eq_true, Bool.not_eq_true', decide_eq_false_iff_not] at first_
  obtain ⟨⟨⟨⟨letter, start⟩, digit⟩, string⟩, char⟩ := first_
  have text : first :: (tail ++ rest) = mark.chars ++ rest := by rw [chars, List.cons_append]
  unfold scan
  rw [if_neg (by simp [letter]), if_neg (by simp [start]), if_neg (by simp [digit]),
    if_neg string, if_neg char, text, punctAt?_append ends]
  simp

/-! ## All tokens -/

/-- A token at the front of a text, with no gap before it. -/
def ReadsFront (kind : TokenKind) (lexeme rest : List Char) : Prop :=
  ∃ first tail, lexeme ++ rest = first :: tail ∧ gap (first :: tail) = ⟨[], first :: tail, true⟩ ∧
    scan first tail = .ok ⟨kind, lexeme, rest⟩

theorem readsFront_word {word : String} {first : Char} {tail rest : List Char}
    (chars : word.toList = first :: tail) (start : isIdentifierStart first = true)
    (letters : tail.all isXidContinue = true) (ends : endsWord rest = true) :
    ReadsFront (wordKind word) word.toList rest := by
  have blank := isBlank_of_isIdentifierStart start
  refine ⟨first, tail ++ rest, by rw [chars, List.cons_append], gap_of_start blank ?_, ?_⟩
  · rintro rfl
    exact absurd start (by decide)
  · rw [scan_word start letters ends, ← chars, String.ofList_toList]

theorem readsFront_ident {name : String} {rest : List Char} (h : isName name = true)
    (ends : endsWord rest = true) : ReadsFront (.ident name) name.toList rest := by
  simp only [isName, Bool.and_eq_true, Option.isNone_iff_eq_none] at h
  obtain ⟨⟨start, letters⟩, free⟩ := h
  have kind : wordKind name = .ident name := by rw [wordKind, free]; rfl
  cases chars : name.toList with
  | nil =>
    rw [chars] at start
    cases start
  | cons first tail =>
    rw [chars] at start letters
    have front := readsFront_word chars start letters ends
    rwa [kind, chars] at front

theorem readsFront_keyword (keyword : Keyword) {rest : List Char} (ends : endsWord rest = true) :
    ReadsFront (.keyword keyword) keyword.spelling.toList rest := by
  have letters : (keyword.spelling.toList.head?.any isIdentifierStart &&
      keyword.spelling.toList.tail.all isXidContinue) = true := by
    cases keyword with
    | primitive kind => cases kind <;> decide
    | _ => decide
  have kind : wordKind keyword.spelling = .keyword keyword := by
    rw [wordKind, Keyword.ofSpelling?_spelling]
    rfl
  rw [Bool.and_eq_true] at letters
  cases chars : keyword.spelling.toList with
  | nil =>
    rw [chars] at letters
    cases letters.1
  | cons first tail =>
    rw [chars] at letters
    have front := readsFront_word chars letters.1 letters.2 ends
    rwa [kind, chars] at front

theorem readsFront_punct (mark : Punct) {rest : List Char} (ends : endsMark rest = true) :
    ReadsFront (.punct mark) mark.spelling.toList rest := by
  have blank (m : Punct) : m.chars.head?.all (fun c => !isBlank c) = true := by
    cases m <;> decide
  have comment (m : Punct) : m.chars.head? = some '/' →
      m.chars = ['/'] ∨ m.chars = ['/', '='] := by
    cases m <;> decide
  rw [Punct.spelling, String.toList_ofList]
  obtain ⟨first, tail, chars⟩ := List.exists_cons_of_ne_nil mark.chars_ne_nil
  have ink := blank mark
  have slash := comment mark
  rw [chars] at ink slash
  refine ⟨first, tail ++ rest, by rw [chars, List.cons_append], gap_of_start (by simpa using ink) ?_,
    scan_punct chars ends⟩
  rintro rfl
  rcases slash rfl with eq | eq <;> cases eq
  · constructor <;> intro other <;> simp only [List.nil_append] at other <;>
      simp [endsMark, other] at ends
  · simp

theorem not_start_of_isDigit {c : Char} (digit : c.isDigit = true) :
    isIdentifierStart c = false := by
  simp only [Char.isDigit, Bool.and_eq_true, decide_eq_true_eq] at digit
  have low : 48 ≤ c.toNat := digit.1
  have high : c.toNat ≤ 57 := digit.2
  have codes : ∀ n < 58, isIdentifierStart (Char.ofNat n) = false := by decide
  rw [← Char.ofNat_toNat c]
  exact codes _ (by omega)

theorem scan_digit {first : Char} (digit : first.isDigit = true) (tail : List Char) :
    scan first tail = scanNumber (first :: tail) := by
  have letter : first ≠ 'b' := by
    rintro rfl
    exact absurd digit (by decide)
  unfold scan
  rw [if_neg (by simp [letter]), if_neg (by simp [not_start_of_isDigit digit]), if_pos digit]

theorem readsFront_number {n : Numeral} {value : Literal} {lexeme more rest : List Char}
    (h : n.Proper) (text : lexeme ++ rest = n.chars ++ more)
    (read : scanNumber (n.chars ++ more) = .ok ⟨.literal value, lexeme, rest⟩) :
    ReadsFront (.literal value) lexeme rest := by
  obtain ⟨first, others, whole⟩ := List.exists_cons_of_ne_nil h.nonempty
  have digit : first.isDigit = true := h.whole first (by rw [whole]; simp)
  have chars : n.chars ++ more = first :: (others ++ (n.fraction ++ n.exponent) ++ more) := by
    rw [Numeral.chars, whole]
    simp
  rw [chars] at text read
  refine ⟨first, _, text, gap_of_start (isBlank_of_isDigit digit) ?_, ?_⟩
  · rintro rfl
    exact absurd digit (by decide)
  · rw [scan_digit digit, read]

theorem readsFront_quoted {kind : TokenKind} {first : Char} {tail lexeme rest : List Char}
    (opening : isBlank first = false) (slash : first ≠ '/')
    (text : lexeme ++ rest = first :: tail)
    (read : scan first tail = .ok ⟨kind, lexeme, rest⟩) : ReadsFront kind lexeme rest :=
  ⟨first, tail, text, gap_of_start opening fun eq => absurd eq slash, read⟩

theorem readsFront_literal {value : Literal} {rest : List Char} (lexical : value.isLexical = true)
    (finite : value.isFinite = true) (ends : endsWord rest = true) :
    ReadsFront (.literal value) value.text.toList rest := by
  obtain ⟨stop, -, point⟩ := endsWord_iff.1 ends
  cases value with
  | int value =>
    obtain ⟨n, proper, text, eq⟩ := int_numeral value
    rw [text, ← eq]
    exact readsFront_number proper rfl (proper.scanNumber_plain stop point)
  | float value =>
    obtain ⟨n, proper, text, eq⟩ := float_numeral lexical finite
    rw [Literal.text, text, ← eq]
    exact readsFront_number proper rfl (proper.scanNumber_plain stop point)
  | imaginary value =>
    obtain ⟨n, proper, text, eq⟩ := float_numeral lexical finite
    have unit : (Literal.imaginary value).text.toList = n.chars ++ ['i'] := by
      rw [Literal.text, String.toList_append, text]
      rfl
    have read := proper.scanNumber_imaginary stop
    rw [eq] at read
    rw [unit]
    exact readsFront_number proper (by simp) read
  | string value =>
    refine readsFront_quoted (by decide) (by decide) ?_ (scan_string value rest)
    simp [Literal.text, Literal.quoted]
  | char value =>
    refine readsFront_quoted (by decide) (by decide) ?_ (scan_char value rest)
    simp [Literal.text, Literal.quoted]
  | bytes value =>
    refine readsFront_quoted (by decide) (by decide) ?_ (scan_bytes lexical rest)
    simp [Literal.text, Literal.quoted]
  | bool _ => cases lexical
  | null => cases lexical
  | undefined => cases lexical

/-- A token is read back from its spelling. -/
theorem readsFront_spelling {kind : TokenKind} {rest : List Char} (lexical : kind.isLexical = true)
    (finite : kind.isFinite = true) (ends : kind.endsBefore rest = true) :
    ReadsFront kind kind.spelling.toList rest := by
  cases kind with
  | ident name => exact readsFront_ident lexical ends
  | keyword word => exact readsFront_keyword word ends
  | literal value => exact readsFront_literal lexical finite ends
  | punct mark => exact readsFront_punct mark ends
  | eof => cases lexical

end ClassLang
