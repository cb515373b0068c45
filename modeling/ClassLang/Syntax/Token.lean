import ClassLang.Source
import ClassLang.Syntax.Keyword
import ClassLang.Syntax.Literal
import ClassLang.Syntax.Punct

/-!
Tokens: what a source is made of, once blanks and comments are left out.
-/

namespace ClassLang

/-- What a token is. -/
inductive TokenKind where
  | ident (name : String)
  | keyword (word : Keyword)
  | literal (value : Literal)
  | punct (mark : Punct)
  /-- The end of the source. -/
  | eof
deriving DecidableEq, Repr

/-! ## Spelling -/

/-- The token of a binary operator. -/
def BinaryOp.token : BinaryOp → TokenKind
  | add => .punct .plus
  | sub => .punct .minus
  | mul => .punct .star
  | div => .punct .slash
  | mod => .punct .percent
  | pow => .punct .starStar
  | bitAnd => .punct .ampersand
  | bitOr => .punct .pipe
  | bitXor => .punct .caret
  | shl => .punct .shl
  | shr => .punct .shr
  | and => .keyword .kwAnd
  | or => .keyword .kwOr
  | xor => .keyword .kwXor
  | eq => .punct .eqEq
  | ne => .punct .bangEq
  | lt => .punct .lt
  | le => .punct .le
  | gt => .punct .gt
  | ge => .punct .ge

/-- The token of a unary operator. -/
def UnaryOp.token : UnaryOp → TokenKind
  | neg => .punct .minus
  | pos => .punct .plus
  | bitNot => .punct .tilde
  | not => .keyword .kwNot
  | ref => .punct .ampersand
  | delete => .keyword .kwDelete

/-- The tokens of an operator after the word `operator`. -/
def Operator.tokens : Operator → List TokenKind
  | binary op => [op.token]
  | unary op => [op.token]
  | index => [.punct .openBracket, .punct .closeBracket]

/-- The token of a literal; the truth values, null and undefined are reserved words. -/
def Literal.token : Literal → TokenKind
  | bool true => .keyword .kwTrue
  | bool false => .keyword .kwFalse
  | null => .keyword .kwNull
  | undefined => .keyword .kwUndefined
  | value => .literal value

/-- The characters that a token is written with. -/
def TokenKind.spelling : TokenKind → String
  | ident name => name
  | keyword word => word.spelling
  | literal value => value.text
  | punct mark => mark.spelling
  | eof => ""

theorem BinaryOp.spelling_token (op : BinaryOp) : op.token.spelling = op.symbol := by
  cases op <;> rfl

theorem UnaryOp.spelling_token (op : UnaryOp) : op.token.spelling = op.symbol := by
  cases op <;> rfl

theorem Literal.spelling_token (value : Literal) : value.token.spelling = value.text := by
  cases value with
  | bool b => cases b <;> rfl
  | _ => rfl

/-! ## Tokens -/

/-- A token with its text and its place. -/
structure Token where
  kind : TokenKind
  lexeme : String
  span : Span
deriving DecidableEq, Repr

namespace Token

/-- The token that ends a source. -/
def endOf (source : Span) : Token := ⟨.eof, "", source.endPoint⟩

/-- The token as named in messages. -/
def describe (token : Token) : String :=
  match token.kind with
  | .eof => "end of input"
  | _ => token.lexeme

end Token

/-- A list of tokens that ends with the end of the source, which is added if it is missing. -/
def endTokens (tokens : List Token) (source : Span) : List Token :=
  match tokens.getLast? with
  | some last => if last.kind = .eof then tokens else tokens ++ [Token.endOf source]
  | none => [Token.endOf source]

theorem endTokens_ne_nil (tokens : List Token) (source : Span) :
    endTokens tokens source ≠ [] := by
  unfold endTokens
  split
  · next last h =>
    split
    · intro none; simp [none] at h
    · simp
  · simp

end ClassLang
