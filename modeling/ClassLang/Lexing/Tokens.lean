import ClassLang.Lexing.Gap
import ClassLang.Lexing.Scan

/-!
The tokens of a source.

* `pieces_text`: the gaps and tokens of a text, in order, are the whole text.
-/

namespace ClassLang

/-! ## Pieces -/

/-- A token with the gap before it. -/
structure Piece where
  gap : List Char
  kind : TokenKind
  lexeme : List Char
deriving Repr

/-- What comes after the last token: a gap, and a fault if there is one. -/
structure Ending where
  gap : List Char
  fault : Option Fault
  rest : List Char
deriving Repr

/-- Reads tokens until the end of the text or the first fault. -/
def pieces (text : List Char) : List Piece × Ending :=
  let front := gap text
  if front.closed then
    match _left : front.rest with
    | [] => ([], ⟨front.skipped, none, []⟩)
    | first :: rest =>
      match _read : scan first rest with
      | .error fault => ([], ⟨front.skipped, some fault, first :: rest⟩)
      | .ok token =>
        let (more, ending) := pieces token.rest
        (⟨front.skipped, token.kind, token.lexeme⟩ :: more, ending)
  else ([], ⟨front.skipped, some ⟨[], front.rest, .unclosedComment⟩, front.rest⟩)
termination_by text.length
decreasing_by
  have shorter := scan_rest_length_lt _read
  have within := gap_rest_length_le text
  rw [show (gap text).rest = first :: rest from _left] at within
  omega

/-- The text of a piece. -/
def Piece.text (piece : Piece) : List Char := piece.gap ++ piece.lexeme

theorem pieces_text (text : List Char) :
    (pieces text).1.flatMap Piece.text ++ ((pieces text).2.gap ++ (pieces text).2.rest) = text := by
  fun_induction pieces text with
  | case1 text front closed left =>
    have whole := gap_append text
    rw [show (gap text).rest = [] from left] at whole
    simpa using whole
  | case2 text front closed first rest left fault read =>
    have whole := gap_append text
    rw [show (gap text).rest = first :: rest from left] at whole
    simpa using whole
  | case3 text front closed first rest left token read more ending inner ih =>
    have whole := gap_append text
    rw [show (gap text).rest = first :: rest from left, ← (scan_from read).1] at whole
    rw [inner] at ih
    simp only [List.flatMap_cons, Piece.text, List.append_assoc, ih]
    exact whole
  | case4 text front open_ => simpa using gap_append text

/-! ## Places -/

/-- Gives pieces their places from an offset on, and tells where they end. -/
def placePieces : Nat → List Piece → List Token × Nat
  | offset, [] => ([], offset)
  | offset, piece :: rest =>
    let start := offset + byteLength piece.gap
    let stop := start + byteLength piece.lexeme
    let (tokens, ending) := placePieces stop rest
    (⟨piece.kind, String.ofList piece.lexeme, ⟨start, stop⟩⟩ :: tokens, ending)

/-- The tokens of a source, the last of them its end, or the first fault. -/
def Source.tokens (source : Source) : Except LexError (List Token) :=
  let (found, ending) := pieces source.chars
  let (tokens, offset) := placePieces 0 found
  let start := offset + byteLength ending.gap
  match ending.fault with
  | none => .ok (tokens ++ [⟨.eof, "", ⟨start, start⟩⟩])
  | some fault =>
    let start := start + byteLength fault.before
    .error ⟨⟨start, start + byteLength fault.text⟩, fault.cause⟩

end ClassLang
