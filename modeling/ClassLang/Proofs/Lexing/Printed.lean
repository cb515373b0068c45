import ClassLang.Proofs.Lexing.Spelling
import ClassLang.Syntax.Ink

/-!
Printed source is read back. `Lexes text kinds` says that a text falls into tokens of these kinds;
printed source lexes to its own tokens if none of them runs into what is printed behind it.

* `lexes_of_apart`: the tokens of printed source are the tokens it was printed from.
* `Source.tokens_lexical`: what the lexer makes can be printed again.
-/

namespace ClassLang

/-! ## Pieces -/

theorem pieces_cons {text skipped rest : List Char} {first : Char} {s : Scanned}
    (front : gap text = ⟨skipped, first :: rest, true⟩) (read : scan first rest = .ok s) :
    pieces text = (⟨skipped, s.kind, s.lexeme⟩ :: (pieces s.rest).1, (pieces s.rest).2) := by
  rw [pieces.eq_def]
  have closed : (gap text).closed = true := by rw [front]
  have left : (gap text).rest = first :: rest := by rw [front]
  have before : (gap text).skipped = skipped := by rw [front]
  dsimp only
  rw [if_pos closed]
  split
  · next none_ => cases left.symm.trans none_
  · next first' rest' eq =>
    cases left.symm.trans eq
    split
    · next fault failed => cases read.symm.trans failed
    · next token found =>
      cases read.symm.trans found
      rw [before]

theorem pieces_end {text skipped : List Char} (front : gap text = ⟨skipped, [], true⟩) :
    pieces text = ([], ⟨skipped, none, []⟩) := by
  rw [pieces.eq_def]
  have closed : (gap text).closed = true := by rw [front]
  have left : (gap text).rest = [] := by rw [front]
  have before : (gap text).skipped = skipped := by rw [front]
  dsimp only
  rw [if_pos closed]
  split
  · next none_ => rw [before]
  · next first' rest' eq => cases left.symm.trans eq

theorem pieces_fault {text skipped rest : List Char} {first : Char} {fault : Fault}
    (front : gap text = ⟨skipped, first :: rest, true⟩) (failed : scan first rest = .error fault) :
    pieces text = ([], ⟨skipped, some fault, first :: rest⟩) := by
  rw [pieces.eq_def]
  have closed : (gap text).closed = true := by rw [front]
  have left : (gap text).rest = first :: rest := by rw [front]
  have before : (gap text).skipped = skipped := by rw [front]
  dsimp only
  rw [if_pos closed]
  split
  · next none_ => cases left.symm.trans none_
  · next first' rest' eq =>
    cases left.symm.trans eq
    split
    · next fault' failed' =>
      cases failed.symm.trans failed'
      rw [before]
    · next token found => cases failed.symm.trans found

theorem pieces_open {text skipped rest : List Char} (front : gap text = ⟨skipped, rest, false⟩) :
    pieces text = ([], ⟨skipped, some ⟨[], rest, .unclosedComment⟩, rest⟩) := by
  rw [pieces.eq_def]
  have closed : ¬(gap text).closed = true := by rw [front]; simp
  dsimp only
  rw [if_neg closed, front]

/-- What a text falls into depends on what follows its first gap only. -/
theorem pieces_congr {a b skipped skipped' rest : List Char} {closed : Bool}
    (ha : gap a = ⟨skipped, rest, closed⟩) (hb : gap b = ⟨skipped', rest, closed⟩) :
    (pieces a).1.map Piece.kind = (pieces b).1.map Piece.kind ∧
      (pieces a).2.fault = (pieces b).2.fault := by
  cases closed with
  | false =>
    rw [pieces_open ha, pieces_open hb]
    exact ⟨rfl, rfl⟩
  | true =>
    cases rest with
    | nil =>
      rw [pieces_end ha, pieces_end hb]
      exact ⟨rfl, rfl⟩
    | cons first rest =>
      rcases read : scan first rest with fault | s
      · rw [pieces_fault ha read, pieces_fault hb read]
        exact ⟨rfl, rfl⟩
      · rw [pieces_cons ha read, pieces_cons hb read]
        exact ⟨rfl, rfl⟩

theorem gap_blank {c : Char} (blank : isBlank c = true) (rest : List Char) :
    gap (c :: rest) = (gap rest).after [c] := by
  rw [gap.eq_def]
  split
  · next eq => cases eq
  · next eq =>
    cases eq
    exact absurd blank (by decide)
  · next eq =>
    cases eq
    exact absurd blank (by decide)
  · next c' rest' _ _ eq =>
    cases eq
    rw [if_pos blank]

/-! ## Texts and their tokens -/

/-- A text falls into tokens of these kinds, and nothing is wrong with it. -/
def Lexes (text : List Char) (kinds : List TokenKind) : Prop :=
  (pieces text).1.map Piece.kind = kinds ∧ (pieces text).2.fault = none

namespace Lexes

theorem nil : Lexes [] [] := by
  have front : gap [] = ⟨[], [], true⟩ := by rw [gap]
  rw [Lexes, pieces_end front]
  exact ⟨rfl, rfl⟩

theorem token {kind : TokenKind} {lexeme rest : List Char} {kinds : List TokenKind}
    (front : ReadsFront kind lexeme rest) (h : Lexes rest kinds) :
    Lexes (lexeme ++ rest) (kind :: kinds) := by
  obtain ⟨first, tail, text, start, read⟩ := front
  rw [Lexes, text, pieces_cons start read]
  exact ⟨congrArg (kind :: ·) h.1, h.2⟩

theorem blank {c : Char} {rest : List Char} {kinds : List TokenKind} (hc : isBlank c = true)
    (h : Lexes rest kinds) : Lexes (c :: rest) kinds := by
  obtain ⟨same, fault⟩ := pieces_congr (gap_blank hc rest) rfl
  exact ⟨same.trans h.1, fault.trans h.2⟩

theorem blanks {front rest : List Char} {kinds : List TokenKind} (all : front.all isBlank = true)
    (h : Lexes rest kinds) : Lexes (front ++ rest) kinds := by
  induction front with
  | nil => exact h
  | cons c front ih =>
    rw [List.all_cons, Bool.and_eq_true] at all
    exact blank all.1 (ih all.2)

end Lexes

theorem placePieces_kinds (offset : Nat) (found : List Piece) :
    (placePieces offset found).1.map Token.kind = found.map Piece.kind := by
  induction found generalizing offset with
  | nil => rfl
  | cons piece found ih => exact congrArg (piece.kind :: ·) (ih _)

theorem Lexes.tokens {source : Source} {kinds : List TokenKind} (h : Lexes source.chars kinds) :
    ∃ tokens, source.tokens = .ok tokens ∧ tokens.map Token.kind = kinds ++ [.eof] := by
  unfold Source.tokens
  dsimp only
  rw [h.2]
  refine ⟨_, rfl, ?_⟩
  rw [List.map_append, placePieces_kinds, h.1]
  rfl

/-! ## Printed source -/

namespace Ink

/-- The characters of printed source. -/
def chars (inks : List Ink) : List Char := inks.flatMap fun ink => ink.text.toList

theorem textOf_chars (inks : List Ink) : (textOf inks).toList = chars inks := by
  simp [textOf, chars, String.toList_join, List.flatMap_map]

/-- Whether each token can be read back before what is printed behind it. -/
def apart : List Ink → Bool
  | [] => true
  | token kind :: rest =>
    kind.isLexical && kind.isFinite && kind.endsBefore (chars rest) && apart rest
  | blank text :: rest => text.toList.all isBlank && apart rest

theorem lexes_of_apart {inks : List Ink} (h : apart inks = true) :
    Lexes (chars inks) (tokensOf inks) := by
  induction inks with
  | nil => exact Lexes.nil
  | cons ink rest ih =>
    cases ink with
    | token kind =>
      simp only [apart, Bool.and_eq_true] at h
      obtain ⟨⟨⟨lexical, finite⟩, ends⟩, others⟩ := h
      exact Lexes.token (readsFront_spelling lexical finite ends) (ih others)
    | blank text =>
      simp only [apart, Bool.and_eq_true] at h
      exact Lexes.blanks h.1 (ih h.2)

end Ink

/-! ## What the lexer makes -/

theorem scanWord_lexical {first : Char} (start : isIdentifierStart first = true)
    (rest : List Char) : (scanWord first rest).kind.isLexical = true := by
  unfold scanWord
  dsimp only
  split
  · rfl
  · next free =>
    simp only [TokenKind.isLexical, isName, String.toList_ofList, List.head?_cons, Option.any_some,
      start, List.tail_cons, List.all_takeWhile, free]
    rfl

theorem numeral_lexical {text lexeme rest : List Char} {value : Literal}
    (h : numeral text = .ok (value, lexeme, rest)) :
    value.isLexical = true ∧ (imaginaryOf value).isLexical = true := by
  have decimal (whole fraction exponent : List Char) :
      (decimalValue whole fraction exponent).isLexical = true ∧
        (imaginaryOf (decimalValue whole fraction exponent)).isLexical = true := by
    unfold decimalValue
    split
    · exact ⟨rfl, Binary64.ofNat_canonical _⟩
    · exact ⟨Binary64.ofDecimal_canonical _ _, Binary64.ofDecimal_canonical _ _⟩
  unfold numeral at h
  dsimp only at h
  split at h
  · split at h
    · split at h
      · cases h
      · cases h
        exact ⟨rfl, Binary64.ofNat_canonical _⟩
    · cases h
      exact decimal _ _ _
  · cases h
    exact decimal _ _ _

theorem scanNumber_lexical {text : List Char} {s : Scanned} (h : scanNumber text = .ok s) :
    s.kind.isLexical = true := by
  unfold scanNumber at h
  rcases read : numeral text with fault | ⟨value, lexeme, rest⟩
  · rw [read] at h
    cases h
  · obtain ⟨plain, imaginary⟩ := numeral_lexical read
    rw [read] at h
    simp only [bind, Except.bind] at h
    split at h
    · split at h
      · cases h
        exact imaginary
      · split at h
        · cases h
        · cases h
          exact plain
    · split at h
      · cases h
      · cases h
        exact plain

theorem scanString_lexical {inside : List Char} {s : Scanned} (h : scanString inside = .ok s) :
    s.kind.isLexical = true := by
  unfold scanString at h
  rcases read : scanQuoted ['"'] '"' inside .unclosedString with fault | ⟨value, lexeme, rest⟩
  · rw [read] at h
    cases h
  · rw [read] at h
    cases h
    rfl

theorem scanChar_lexical {inside : List Char} {s : Scanned} (h : scanChar inside = .ok s) :
    s.kind.isLexical = true := by
  unfold scanChar at h
  rcases read : scanQuoted ['\''] '\'' inside .unclosedChar with fault | ⟨value, lexeme, rest⟩
  · rw [read] at h
    cases h
  · rw [read] at h
    simp only [bind, Except.bind] at h
    split at h
    · cases h
      rfl
    · cases h

theorem scanBytes_lexical {inside : List Char} {s : Scanned} (h : scanBytes inside = .ok s) :
    s.kind.isLexical = true := by
  unfold scanBytes at h
  rcases read : scanQuoted ['b', '"'] '"' inside .unclosedString with fault | ⟨value, lexeme, rest⟩
  · rw [read] at h
    cases h
  · rw [read] at h
    simp only [bind, Except.bind] at h
    split at h
    · next small =>
      cases h
      rw [List.all_eq_true] at small
      simp only [TokenKind.isLexical, Literal.isLexical, List.all_map, List.all_eq_true]
      intro c hc
      have bound : c.toNat < 128 := of_decide_eq_true (small c hc)
      refine decide_eq_true (UInt8.lt_iff_toNat_lt.2 ?_)
      rw [Nat.toUInt8, UInt8.toNat_ofNat']
      exact Nat.lt_of_le_of_lt (Nat.mod_le _ _) bound
    · cases h

theorem scan_lexical {first : Char} {rest : List Char} {s : Scanned}
    (h : scan first rest = .ok s) : s.kind.isLexical = true := by
  unfold scan at h
  split at h
  · exact scanBytes_lexical h
  split at h
  · next start =>
    cases h
    exact scanWord_lexical start rest
  split at h
  · exact scanNumber_lexical h
  split at h
  · exact scanString_lexical h
  split at h
  · exact scanChar_lexical h
  split at h
  · cases h
    rfl
  · cases h

theorem pieces_lexical (text : List Char) :
    ∀ piece ∈ (pieces text).1, piece.kind.isLexical = true := by
  fun_induction pieces text with
  | case1 => simp
  | case2 => simp
  | case3 text front closed first rest left token read more ending inner ih =>
    rw [inner] at ih
    intro piece hp
    rcases List.mem_cons.1 hp with rfl | later
    · exact scan_lexical read
    · exact ih piece later
  | case4 => simp

theorem Source.tokens_lexical {source : Source} {tokens : List Token}
    (h : source.tokens = .ok tokens) :
    ∀ token ∈ tokens, token.kind.isLexical = true ∨ token.kind = .eof := by
  unfold Source.tokens at h
  dsimp only at h
  split at h
  · cases h
    intro token ht
    rcases List.mem_append.1 ht with placed | last
    · left
      have kind := List.mem_map_of_mem (f := Token.kind) placed
      rw [placePieces_kinds] at kind
      obtain ⟨piece, hp, eq⟩ := List.mem_map.1 kind
      rw [← eq]
      exact pieces_lexical _ piece hp
    · right
      rw [List.mem_singleton.1 last]
  · cases h

end ClassLang
