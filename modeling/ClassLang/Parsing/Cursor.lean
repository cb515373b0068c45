import ClassLang.Syntax.Token

/-!
A place in a list of tokens. There always is a current token; the last one, which is the end of the
source, is never passed.

* `Cursor.advance_tokens`: moving on leaves a suffix of the tokens.
-/

namespace ClassLang

/-- The current token and those after it. -/
structure Cursor where
  current : Token
  later : List Token
deriving Repr

namespace Cursor

/-- The place in front of a list of tokens, which is ended if need be. -/
def ofTokens (tokens : List Token) (source : Span) : Cursor :=
  match endTokens tokens source with
  | first :: rest => ⟨first, rest⟩
  | [] => ⟨Token.endOf source, []⟩

/-- The tokens that are left. -/
def tokens (c : Cursor) : List Token := c.current :: c.later

/-- How many tokens come after the current one. -/
def remaining (c : Cursor) : Nat := c.later.length

/-- Whether the current token is the end of the source. -/
def isAtEnd (c : Cursor) : Bool := c.current.kind == .eof

/-- The token some places further on, but not beyond the last. -/
def lookahead (c : Cursor) (n : Nat) : Token := c.tokens.getD (min n c.remaining) c.current

/-- Passes the current token unless it is the end. -/
def advance (c : Cursor) : Cursor :=
  if c.isAtEnd then c
  else match c.later with
    | next :: rest => ⟨next, rest⟩
    | [] => c

theorem advance_tokens (c : Cursor) : c.advance.tokens <:+ c.tokens := by
  unfold advance
  split
  · exact List.suffix_refl _
  · split
    · next next rest h => simp [tokens, h]
    · exact List.suffix_refl _

theorem remaining_advance (c : Cursor) : c.advance.remaining ≤ c.remaining := by
  unfold advance
  split
  · exact Nat.le_refl _
  · split
    · next next rest h => simp [remaining, h]
    · exact Nat.le_refl _

end Cursor

end ClassLang
