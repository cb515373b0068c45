import ClassLang.Lexing.Fault
import ClassLang.Syntax.Token
import ClassLang.Text.Identifier

/-!
One token from the front of a text.

* `scan_from`: the characters of the token and what follows it are the whole text, and a token has
  at least one character.
-/

namespace ClassLang

/-- A token at the front of a text: what it is, its characters, and what follows. -/
structure Scanned where
  kind : TokenKind
  lexeme : List Char
  rest : List Char
deriving Repr

/-- A fault in a text: what is sound before it, the faulty characters, and the cause. -/
structure Fault where
  before : List Char
  text : List Char
  cause : LexCause
deriving Repr

/-! ## Quoted text -/

/-- What a character stands for after a backslash. -/
def unescape? : Char → Option Char
  | 'n' => some '\n'
  | 't' => some '\t'
  | 'r' => some '\r'
  | '0' => some '\x00'
  | '\\' => some '\\'
  | '"' => some '"'
  | '\'' => some '\''
  | _ => none

/-- How the text after an opening quote goes on. -/
inductive Quoted where
  /-- The characters meant, the characters written up to the closing quote, and what follows. -/
  | closed (value written rest : List Char)
  | unclosed
  /-- What is sound, and the character after the backslash. -/
  | badEscape (before : List Char) (c : Char)
deriving Repr

/-- Puts a character in front, as meant and as written. -/
def Quoted.push (value : Char) (written : List Char) : Quoted → Quoted
  | closed values writtens rest => closed (value :: values) (written ++ writtens) rest
  | unclosed => unclosed
  | badEscape before c => badEscape (written ++ before) c

/-- Reads up to the closing quote. -/
def quoted (quote : Char) : List Char → Quoted
  | [] => .unclosed
  | [c] => if c = quote then .closed [] [c] [] else .unclosed
  | c :: d :: rest =>
    if c = quote then .closed [] [c] (d :: rest)
    else if c = '\\' then
      match unescape? d with
      | some value => (quoted quote rest).push value [c, d]
      | none => .badEscape [] d
    else (quoted quote (d :: rest)).push c [c]

/-- Reads a quoted text whose opening, quote included, and inside are given. -/
def scanQuoted (opening : List Char) (quote : Char) (inside : List Char) (unclosed : LexCause) :
    Except Fault (List Char × List Char × List Char) :=
  match quoted quote inside with
  | .closed value written rest => .ok (value, opening ++ written, rest)
  | .unclosed => .error ⟨[], opening ++ inside, unclosed⟩
  | .badEscape before c => .error ⟨opening ++ before, ['\\', c], .invalidEscape c⟩

/-- A string, whose opening quote is not part of the given text. -/
def scanString (inside : List Char) : Except Fault Scanned := do
  let (value, lexeme, rest) ← scanQuoted ['"'] '"' inside .unclosedString
  return ⟨.literal (.string (String.ofList value)), lexeme, rest⟩

/-- A character, whose opening quote is not part of the given text. -/
def scanChar (inside : List Char) : Except Fault Scanned := do
  let (value, lexeme, rest) ← scanQuoted ['\''] '\'' inside .unclosedChar
  match value with
  | [c] => return ⟨.literal (.char c), lexeme, rest⟩
  | _ => throw ⟨[], lexeme, .expectedSingleCharacter⟩

/-- A byte string, whose opening is not part of the given text. -/
def scanBytes (inside : List Char) : Except Fault Scanned := do
  let (value, lexeme, rest) ← scanQuoted ['b', '"'] '"' inside .unclosedString
  if value.all fun c => c.toNat < 128 then
    return ⟨.literal (.bytes (value.map fun c => c.toNat.toUInt8)), lexeme, rest⟩
  else throw ⟨[], lexeme, .nonAsciiBytes⟩

/-! ## Numbers -/

/-- The digits and letters that make up a hexadecimal number. -/
def isHexDigit (c : Char) : Bool :=
  c.isDigit || ('a' ≤ c && c ≤ 'f') || ('A' ≤ c && c ≤ 'F')

/-- The value of a digit; letters count on from ten. -/
def digitValue (c : Char) : Nat :=
  if c.isDigit then c.toNat - '0'.toNat
  else if 'a' ≤ c then c.toNat - 'a'.toNat + 10
  else c.toNat - 'A'.toNat + 10

/-- The value of digits in a base, the highest first. -/
def digitsValue (base : Nat) (digits : List Char) : Nat :=
  digits.foldl (fun value c => value * base + digitValue c) 0

/-- A point with at least one digit, if the text starts so. -/
def fraction (text : List Char) : List Char × List Char :=
  match text with
  | '.' :: d :: rest =>
    if d.isDigit then
      ('.' :: (d :: rest).takeWhile Char.isDigit, (d :: rest).dropWhile Char.isDigit)
    else ([], text)
  | _ => ([], text)

/-- An exponent mark with at least one digit, and a sign or none, if the text starts so. -/
def exponent (text : List Char) : List Char × List Char :=
  match text with
  | e :: d :: rest =>
    if e = 'e' || e = 'E' then
      if d.isDigit then
        (e :: (d :: rest).takeWhile Char.isDigit, (d :: rest).dropWhile Char.isDigit)
      else if (d = '+' || d = '-') && (rest.head?.any Char.isDigit) then
        (e :: d :: rest.takeWhile Char.isDigit, rest.dropWhile Char.isDigit)
      else ([], text)
    else ([], text)
  | _ => ([], text)

/-- The value of an exponent as read by `exponent`. -/
def exponentValue : List Char → Int
  | _ :: '-' :: digits => -(digitsValue 10 digits : Int)
  | _ :: '+' :: digits => digitsValue 10 digits
  | _ :: digits => digitsValue 10 digits
  | [] => 0

/-- The value of a decimal number in its three parts: a whole number unless there is a fraction or
an exponent. -/
def decimalValue (whole fraction exponent : List Char) : Literal :=
  if fraction.isEmpty && exponent.isEmpty then .int (digitsValue 10 whole)
  else
    let places := fraction.drop 1
    .float <| .ofDecimal (digitsValue 10 (whole ++ places))
      (exponentValue exponent - (places.length : Int))

/-- A number without what may follow it: its value, its characters, and the rest. -/
def numeral (text : List Char) : Except Fault (Literal × List Char × List Char) :=
  let decimal :=
    let whole := text.takeWhile Char.isDigit
    let (fraction, afterFraction) := fraction (text.dropWhile Char.isDigit)
    let (exponent, rest) := exponent afterFraction
    .ok (decimalValue whole fraction exponent, whole ++ (fraction ++ exponent), rest)
  match text with
  | '0' :: x :: rest =>
    if x = 'x' || x = 'X' then
      let digits := rest.takeWhile isHexDigit
      if digits.isEmpty then .error ⟨[], ['0', x], .invalidNumber⟩
      else
        .ok (.int (digitsValue 16 digits), '0' :: x :: digits, rest.dropWhile isHexDigit)
    else decimal
  | _ => decimal

/-- The imaginary multiple of a number. -/
def imaginaryOf : Literal → Literal
  | .int value => .imaginary (.ofNat value)
  | .float value => .imaginary value
  | other => other

/-- Whether a text starts with a character that would continue an identifier. -/
def continuesWord (text : List Char) : Bool := text.head?.any isXidContinue

/-- A number, with the mark of the imaginary unit or without. No letter may follow it. -/
def scanNumber (text : List Char) : Except Fault Scanned := do
  let (value, lexeme, rest) ← numeral text
  let plain : Except Fault Scanned :=
    if continuesWord rest then
      .error ⟨[], lexeme ++ rest.takeWhile Char.isAlphanum, .invalidNumber⟩
    else .ok ⟨.literal value, lexeme, rest⟩
  match rest with
  | c :: after =>
    if (c = 'i' || c = 'j') && !continuesWord after then
      return ⟨.literal (imaginaryOf value), lexeme ++ [c], after⟩
    else plain
  | [] => plain

/-! ## Words and marks -/

/-- A word, which is reserved or a name. -/
def scanWord (first : Char) (rest : List Char) : Scanned :=
  let lexeme := first :: rest.takeWhile isXidContinue
  let word := String.ofList lexeme
  let kind := match Keyword.ofSpelling? word with
    | some keyword => .keyword keyword
    | none => .ident word
  ⟨kind, lexeme, rest.dropWhile isXidContinue⟩

/-- The longest mark at the front of a text. -/
def punctAt? (text : List Char) : Option Punct :=
  Punct.longestFirst.find? fun mark => mark.chars.isPrefixOf text

/-! ## Tokens -/

/-- Reads the token at the front of a text, whose first character is given apart. -/
def scan (first : Char) (rest : List Char) : Except Fault Scanned :=
  if first = 'b' && rest.head? == some '"' then scanBytes (rest.drop 1)
  else if isIdentifierStart first then .ok (scanWord first rest)
  else if first.isDigit then scanNumber (first :: rest)
  else if first = '"' then scanString rest
  else if first = '\'' then scanChar rest
  else match punctAt? (first :: rest) with
    | some mark => .ok ⟨.punct mark, mark.chars, (first :: rest).drop mark.chars.length⟩
    | none => .error ⟨[], [first], .unrecognizedCharacter first⟩

/-! ## Progress -/

/-- A token that was read from a text: nothing is lost, and it is not empty. -/
def Scanned.From (s : Scanned) (text : List Char) : Prop :=
  s.lexeme ++ s.rest = text ∧ s.lexeme ≠ []

theorem quoted_append {quote : Char} {text value written rest : List Char}
    (h : quoted quote text = .closed value written rest) : written ++ rest = text := by
  fun_induction quoted quote text generalizing value written with
  | case1 => simp at h
  | case2 => cases h; rfl
  | case3 => simp at h
  | case4 => cases h; rfl
  | case5 d tail decoded _ _ ih =>
    cases inner : quoted quote tail with
    | closed values writtens after =>
      rw [inner] at h
      cases h
      simp [ih inner]
    | _ => rw [inner] at h; cases h
  | case6 => simp at h
  | case7 c d tail _ _ ih =>
    cases inner : quoted quote (d :: tail) with
    | closed values writtens after =>
      rw [inner] at h
      cases h
      simp [ih inner]
    | _ => rw [inner] at h; cases h

theorem scanQuoted_append {opening inside value lexeme rest : List Char} {quote : Char}
    {cause : LexCause}
    (h : scanQuoted opening quote inside cause = .ok (value, lexeme, rest)) :
    lexeme ++ rest = opening ++ inside ∧ (opening ≠ [] → lexeme ≠ []) := by
  unfold scanQuoted at h
  split at h
  · next value' written rest' closed =>
    cases h
    refine ⟨by simp [quoted_append closed], fun nonempty => ?_⟩
    simp [nonempty]
  · cases h
  · cases h

theorem scanString_from {inside : List Char} {s : Scanned} (h : scanString inside = .ok s) :
    s.From ('"' :: inside) := by
  unfold scanString at h
  cases read : scanQuoted ['"'] '"' inside .unclosedString with
  | error fault => rw [read] at h; cases h
  | ok parts =>
    obtain ⟨value, lexeme, rest⟩ := parts
    rw [read] at h
    cases h
    have parts := scanQuoted_append read
    exact ⟨parts.1, parts.2 (by simp)⟩

theorem scanChar_from {inside : List Char} {s : Scanned} (h : scanChar inside = .ok s) :
    s.From ('\'' :: inside) := by
  unfold scanChar at h
  cases read : scanQuoted ['\''] '\'' inside .unclosedChar with
  | error fault => rw [read] at h; cases h
  | ok parts =>
    obtain ⟨value, lexeme, rest⟩ := parts
    rw [read] at h
    have parts := scanQuoted_append read
    match value, h with
    | [c], h => cases h; exact ⟨parts.1, parts.2 (by simp)⟩
    | [], h => cases h
    | _ :: _ :: _, h => cases h

theorem scanBytes_from {inside : List Char} {s : Scanned} (h : scanBytes inside = .ok s) :
    s.From ('b' :: '"' :: inside) := by
  unfold scanBytes at h
  cases read : scanQuoted ['b', '"'] '"' inside .unclosedString with
  | error fault => rw [read] at h; cases h
  | ok parts =>
    obtain ⟨value, lexeme, rest⟩ := parts
    rw [read] at h
    have parts := scanQuoted_append read
    simp only [bind, Except.bind] at h
    split at h
    · cases h; exact ⟨parts.1, parts.2 (by simp)⟩
    · cases h

theorem fraction_append (text : List Char) : (fraction text).1 ++ (fraction text).2 = text := by
  unfold fraction
  split
  · split
    · simp [List.takeWhile_append_dropWhile]
    · rfl
  · rfl

theorem exponent_append (text : List Char) : (exponent text).1 ++ (exponent text).2 = text := by
  unfold exponent
  split
  · split
    · split
      · simp [List.takeWhile_append_dropWhile]
      · split
        · simp [List.takeWhile_append_dropWhile]
        · rfl
    · rfl
  · rfl

theorem numeral_append {first : Char} {tail lexeme rest : List Char} {value : Literal}
    (digit : first.isDigit = true)
    (h : numeral (first :: tail) = .ok (value, lexeme, rest)) :
    lexeme ++ rest = first :: tail ∧ lexeme ≠ [] := by
  have decimal {text : List Char} (head : text = first :: tail) :
      text.takeWhile Char.isDigit ++
          ((fraction (text.dropWhile Char.isDigit)).1 ++
            (exponent (fraction (text.dropWhile Char.isDigit)).2).1) ++
          (exponent (fraction (text.dropWhile Char.isDigit)).2).2 = first :: tail ∧
        text.takeWhile Char.isDigit ++
          ((fraction (text.dropWhile Char.isDigit)).1 ++
            (exponent (fraction (text.dropWhile Char.isDigit)).2).1) ≠ [] := by
    subst head
    constructor
    · rw [List.append_assoc, List.append_assoc, exponent_append, fraction_append,
        List.takeWhile_append_dropWhile]
    · simp [digit]
  unfold numeral at h
  dsimp only at h
  split at h
  · next x rest' eq =>
    split at h
    · split at h
      · cases h
      · cases h
        cases eq
        simp [List.takeWhile_append_dropWhile]
    · cases h
      exact decimal rfl
  · cases h
    exact decimal rfl

theorem scanNumber_from {first : Char} {tail : List Char} {s : Scanned}
    (digit : first.isDigit = true) (h : scanNumber (first :: tail) = .ok s) :
    s.From (first :: tail) := by
  unfold scanNumber at h
  cases read : numeral (first :: tail) with
  | error fault => rw [read] at h; cases h
  | ok parts =>
    obtain ⟨value, lexeme, rest⟩ := parts
    have parts := numeral_append digit read
    rw [read] at h
    simp only [bind, Except.bind] at h
    split at h
    · next c after =>
      split at h
      · cases h
        exact ⟨by simpa using parts.1, by simp⟩
      · split at h
        · cases h
        · cases h; exact parts
    · split at h
      · cases h
      · cases h; exact parts

theorem scanWord_from (first : Char) (rest : List Char) :
    (scanWord first rest).From (first :: rest) := by
  simp [Scanned.From, scanWord, List.takeWhile_append_dropWhile]

theorem Punct.chars_ne_nil (mark : Punct) : mark.chars ≠ [] := by cases mark <;> decide

theorem scan_from {first : Char} {rest : List Char} {s : Scanned}
    (h : scan first rest = .ok s) : s.From (first :: rest) := by
  unfold scan at h
  split at h
  · next opening =>
    simp only [Bool.and_eq_true, decide_eq_true_eq, beq_iff_eq] at opening
    obtain ⟨rfl, quote⟩ := opening
    cases rest with
    | nil => cases quote
    | cons d rest => cases quote; exact scanBytes_from h
  split at h
  · cases h; exact scanWord_from first rest
  split at h
  · next digit => exact scanNumber_from digit h
  split at h
  · next eq => subst eq; exact scanString_from h
  split at h
  · next eq => subst eq; exact scanChar_from h
  split at h
  · next mark found =>
    cases h
    have front := List.find?_some found
    obtain ⟨back, eq⟩ := List.isPrefixOf_iff_prefix.1 front
    refine ⟨?_, mark.chars_ne_nil⟩
    rw [← eq]
    simp
  · cases h

theorem scan_rest_length_lt {first : Char} {rest : List Char} {s : Scanned}
    (h : scan first rest = .ok s) : s.rest.length < (first :: rest).length := by
  obtain ⟨whole, nonempty⟩ := scan_from h
  have parts := congrArg List.length whole
  have positive := List.length_pos_iff.2 nonempty
  simp only [List.length_append] at parts
  omega

end ClassLang
