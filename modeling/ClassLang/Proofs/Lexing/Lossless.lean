import ClassLang.Parsing.Programs
import ClassLang.Proofs.Lexing.Printed

/-!
The lexer loses nothing. The tokens of a source stand in it one behind the other, each of them is
the text at its place, and what is between them is blank or a comment. If there is a fault, it is
reported once and has a place in the source.

* `Source.lex_lossless`: both for every source.
-/

namespace ClassLang

/-! ## Gaps -/

/-- Blanks and comments. A comment that goes up to the end of a line may lack its line feed at the
end of a source; one between marks is closed by the first end mark in it. -/
inductive Trivia : (atEnd : Bool) → List Char → Prop where
  | nil : Trivia atEnd []
  | blank : isBlank c = true → Trivia atEnd rest → Trivia atEnd (c :: rest)
  | line : '\n' ∉ comment → Trivia atEnd rest →
      Trivia atEnd ('/' :: '/' :: (comment ++ '\n' :: rest))
  | lastLine : '\n' ∉ comment → Trivia true ('/' :: '/' :: comment)
  | block : ¬ ['*', '/'] <:+: comment ++ ['*'] → Trivia atEnd rest →
      Trivia atEnd ('/' :: '*' :: (comment ++ '*' :: '/' :: rest))

theorem lineComment_split (text : List Char) :
    (∃ comment, '\n' ∉ comment ∧ (lineComment text).1 = comment ++ ['\n']) ∨
      ('\n' ∉ text ∧ lineComment text = (text, [])) := by
  induction text with
  | nil => exact .inr ⟨List.not_mem_nil, rfl⟩
  | cons c rest ih =>
    by_cases feed : c = '\n'
    · subst feed
      exact .inl ⟨[], List.not_mem_nil, by simp [lineComment]⟩
    · rcases ih with ⟨comment, clean, eq⟩ | ⟨clean, eq⟩
      · refine .inl ⟨c :: comment, ?_, by simp [lineComment, feed, eq]⟩
        simp [clean, Ne.symm feed]
      · refine .inr ⟨?_, by simp [lineComment, feed, eq]⟩
        simp [clean, Ne.symm feed]

theorem blockComment?_split {text comment after : List Char}
    (h : blockComment? text = some (comment, after)) :
    ∃ inner, comment = inner ++ ['*', '/'] ∧ ¬ ['*', '/'] <:+: inner ++ ['*'] := by
  fun_induction blockComment? text generalizing comment with
  | case1 => cases h
  | case2 rest =>
    cases h
    exact ⟨[], rfl, by decide⟩
  | case3 c rest other ih =>
    obtain ⟨⟨shorter, after'⟩, found, eq⟩ := Option.map_eq_some_iff.1 h
    cases eq
    obtain ⟨inner, rfl, first⟩ := ih found
    refine ⟨c :: inner, rfl, fun mark => ?_⟩
    -- A mark that begins with `c` would have been found here.
    rcases List.infix_cons_iff.1 mark with front | later
    · obtain ⟨star, slash⟩ := List.cons_prefix_cons.1 front
      have whole := blockComment?_append found
      cases inner with
      | nil => exact absurd (List.cons_prefix_cons.1 slash).1 (by decide)
      | cons d inner =>
        have slash := (List.cons_prefix_cons.1 slash).1
        subst slash
        exact other _ star.symm whole.symm
    · exact first later

theorem gap_trivia (text : List Char) : Trivia (gap text).rest.isEmpty (gap text).skipped := by
  fun_induction gap text with
  | case1 => exact .nil
  | case2 rest ih =>
    rcases lineComment_split rest with ⟨comment, clean, eq⟩ | ⟨clean, eq⟩
    · have line := Trivia.line clean ih
      simpa [Gap.after, eq] using line
    · rw [eq, gap]
      simpa [Gap.after] using Trivia.lastLine clean
  | case3 rest comment after found ih =>
    obtain ⟨inner, rfl, first⟩ := blockComment?_split found
    have block := Trivia.block first ih
    simpa [Gap.after] using block
  | case4 => exact .nil
  | case5 c rest _ _ blank ih => exact .blank blank ih
  | case6 => exact .nil

/-! ## Faults -/

/-- A fault is about some characters of the text. -/
def Fault.In (fault : Fault) (text : List Char) : Prop :=
  fault.text ≠ [] ∧ ∃ after, fault.before ++ (fault.text ++ after) = text

theorem quoted_badEscape {quote : Char} {text before : List Char} {c : Char}
    (h : quoted quote text = .badEscape before c) :
    ∃ after, before ++ '\\' :: c :: after = text := by
  fun_induction quoted quote text generalizing before with
  | case1 => cases h
  | case2 => cases h
  | case3 => cases h
  | case4 => cases h
  | case5 d rest value _ _ ih =>
    cases inner : quoted quote rest with
    | badEscape front e =>
      rw [inner] at h
      cases h
      obtain ⟨after, eq⟩ := ih inner
      exact ⟨after, by simp [← eq]⟩
    | _ => rw [inner] at h; cases h
  | case6 d rest =>
    cases h
    exact ⟨rest, rfl⟩
  | case7 e d rest _ _ ih =>
    cases inner : quoted quote (d :: rest) with
    | badEscape front e' =>
      rw [inner] at h
      cases h
      obtain ⟨after, eq⟩ := ih inner
      exact ⟨after, by simp [← eq]⟩
    | _ => rw [inner] at h; cases h

theorem scanQuoted_fault {opening inside : List Char} {quote : Char} {cause : LexCause}
    {fault : Fault} (nonempty : opening ≠ [])
    (h : scanQuoted opening quote inside cause = .error fault) : fault.In (opening ++ inside) := by
  unfold scanQuoted at h
  split at h
  · cases h
  · cases h
    exact ⟨by simp [nonempty], [], by simp⟩
  · next before c bad =>
    cases h
    obtain ⟨after, eq⟩ := quoted_badEscape bad
    exact ⟨by simp, after, by simp [← eq]⟩

/-- What was read up to the closing quote may still be wrong as a whole. -/
theorem Fault.in_of_read {opening inside value lexeme rest : List Char} {quote : Char}
    {cause other : LexCause} (nonempty : opening ≠ [])
    (h : scanQuoted opening quote inside cause = .ok (value, lexeme, rest)) :
    (⟨[], lexeme, other⟩ : Fault).In (opening ++ inside) := by
  obtain ⟨whole, more⟩ := scanQuoted_append h
  exact ⟨more nonempty, rest, whole⟩

theorem scanString_fault {inside : List Char} {fault : Fault}
    (h : scanString inside = .error fault) : fault.In ('"' :: inside) := by
  unfold scanString at h
  cases read : scanQuoted ['"'] '"' inside .unclosedString with
  | error fault' =>
    rw [read] at h
    cases h
    exact scanQuoted_fault (by simp) read
  | ok parts => rw [read] at h; cases h

theorem scanChar_fault {inside : List Char} {fault : Fault}
    (h : scanChar inside = .error fault) : fault.In ('\'' :: inside) := by
  unfold scanChar at h
  cases read : scanQuoted ['\''] '\'' inside .unclosedChar with
  | error fault' =>
    rw [read] at h
    cases h
    exact scanQuoted_fault (by simp) read
  | ok parts =>
    obtain ⟨value, lexeme, rest⟩ := parts
    rw [read] at h
    have whole : (⟨[], lexeme, .expectedSingleCharacter⟩ : Fault).In (['\''] ++ inside) :=
      Fault.in_of_read (by simp) read
    match value, h with
    | [c], h => cases h
    | [], h => cases h; exact whole
    | _ :: _ :: _, h => cases h; exact whole

theorem scanBytes_fault {inside : List Char} {fault : Fault}
    (h : scanBytes inside = .error fault) : fault.In ('b' :: '"' :: inside) := by
  unfold scanBytes at h
  cases read : scanQuoted ['b', '"'] '"' inside .unclosedString with
  | error fault' =>
    rw [read] at h
    cases h
    exact scanQuoted_fault (by simp) read
  | ok parts =>
    obtain ⟨value, lexeme, rest⟩ := parts
    rw [read] at h
    simp only [bind, Except.bind] at h
    split at h
    · cases h
    · cases h
      exact Fault.in_of_read (by simp) read

theorem numeral_fault {text : List Char} {fault : Fault} (h : numeral text = .error fault) :
    fault.In text := by
  unfold numeral at h
  dsimp only at h
  split at h
  · split at h
    · split at h
      · cases h
        exact ⟨by simp, _, rfl⟩
      · cases h
    · cases h
  · cases h

theorem scanNumber_fault {first : Char} {tail : List Char} {fault : Fault}
    (digit : first.isDigit = true) (h : scanNumber (first :: tail) = .error fault) :
    fault.In (first :: tail) := by
  unfold scanNumber at h
  cases read : numeral (first :: tail) with
  | error fault' =>
    rw [read] at h
    cases h
    exact numeral_fault read
  | ok parts =>
    obtain ⟨value, lexeme, rest⟩ := parts
    obtain ⟨whole, nonempty⟩ := numeral_append digit read
    have continued : (⟨[], lexeme ++ rest.takeWhile Char.isAlphanum, .invalidNumber⟩ : Fault).In
        (first :: tail) := by
      refine ⟨by simp [nonempty], rest.dropWhile Char.isAlphanum, ?_⟩
      rw [List.nil_append, List.append_assoc, List.takeWhile_append_dropWhile, whole]
    rw [read] at h
    simp only [bind, Except.bind] at h
    split at h
    · split at h
      · cases h
      · split at h
        · cases h
          exact continued
        · cases h
    · split at h
      · cases h
        exact continued
      · cases h

theorem scan_fault {first : Char} {rest : List Char} {fault : Fault}
    (h : scan first rest = .error fault) : fault.In (first :: rest) := by
  unfold scan at h
  split at h
  · next opening =>
    simp only [Bool.and_eq_true, decide_eq_true_eq, beq_iff_eq] at opening
    obtain ⟨rfl, quote⟩ := opening
    cases rest with
    | nil => cases quote
    | cons d rest => cases quote; exact scanBytes_fault h
  split at h
  · cases h
  split at h
  · next digit => exact scanNumber_fault digit h
  split at h
  · next eq => subst eq; exact scanString_fault h
  split at h
  · next eq => subst eq; exact scanChar_fault h
  split at h
  · cases h
  · cases h
    exact ⟨by simp, rest, rfl⟩

/-! ## Pieces -/

theorem pieces_trivia (text : List Char) :
    ∀ piece ∈ (pieces text).1, Trivia false piece.gap ∧ piece.lexeme ≠ [] := by
  fun_induction pieces text with
  | case1 => simp
  | case2 => simp
  | case3 text front closed first rest left token read more ending inner ih =>
    rw [inner] at ih
    intro piece hp
    rcases List.mem_cons.1 hp with rfl | later
    · have trivia := gap_trivia text
      rw [show (gap text).rest = first :: rest from left] at trivia
      exact ⟨trivia, (scan_from read).2⟩
    · exact ih piece later
  | case4 => simp

theorem gap_open {text : List Char} (h : (gap text).closed = false) : (gap text).rest ≠ [] := by
  fun_induction gap text with
  | case1 => cases h
  | case2 rest ih => exact ih h
  | case3 rest comment after found ih => exact ih h
  | case4 => simp
  | case5 c rest _ _ blank ih => exact ih h
  | case6 => cases h

/-- Without a fault only a gap is left behind the last token; a fault lies in what is left. -/
def Ending.Sound (ending : Ending) : Prop :=
  match ending.fault with
  | none => ending.rest = [] ∧ Trivia true ending.gap
  | some fault => fault.In ending.rest

theorem pieces_ending_sound (text : List Char) : (pieces text).2.Sound := by
  fun_induction pieces text with
  | case1 text front closed left =>
    have trivia := gap_trivia text
    rw [show (gap text).rest = [] from left] at trivia
    exact ⟨rfl, trivia⟩
  | case2 text front closed first rest left fault read => exact scan_fault read
  | case3 text front closed first rest left token read more ending inner ih =>
    rw [inner] at ih
    exact ih
  | case4 text front open_ =>
    exact ⟨gap_open (by simpa using open_), [], List.append_nil _⟩

/-! ## Places -/

namespace Source

variable {source : Source} {span : Span} {text front tail : List Char} {found : List Piece}

/-- The characters of the source between the two offsets are the text. -/
def Cut (source : Source) (span : Span) (text : List Char) : Prop :=
  ∃ front back, source.chars = front ++ (text ++ back) ∧
    span = ⟨byteLength front, byteLength front + byteLength text⟩

theorem Cut.admits (h : source.Cut span text) : source.admits span = true := by
  obtain ⟨front, back, whole, rfl⟩ := h
  have start : isBoundary source.chars (byteLength front) = true :=
    isBoundary_iff.2 ⟨front, text ++ back, whole, rfl⟩
  have stop : isBoundary source.chars (byteLength front + byteLength text) = true :=
    isBoundary_iff.2 ⟨front ++ text, back, by simp [whole], by simp⟩
  simp [Source.admits, start, stop]

theorem Cut.slice (h : source.Cut span text) : source.slice span = String.ofList text := by
  obtain ⟨front, back, whole, rfl⟩ := h
  unfold Source.slice
  rw [whole, ← List.append_assoc, ← byteLength_append, textBefore_byteLength, textFrom_byteLength]

theorem Cut.start_lt_stop (h : source.Cut span text) (nonempty : text ≠ []) :
    span.start < span.stop := by
  obtain ⟨front, back, -, rfl⟩ := h
  have positive : byteLength text ≠ 0 := fun zero => nonempty (byteLength_eq_zero zero)
  dsimp only
  omega

theorem Cut.stop_le (h : source.Cut span text) : span.stop ≤ source.length := by
  obtain ⟨front, back, whole, rfl⟩ := h
  rw [Source.length, whole]
  simp only [byteLength_append]
  omega

/-- The stretches between tokens, the first of which starts at the offset. -/
def gapsBefore : Nat → List Token → List Span
  | _, [] => []
  | offset, token :: rest => ⟨offset, token.span.start⟩ :: gapsBefore token.span.stop rest

theorem placePieces_stop (found : List Piece) (offset : Nat) :
    (placePieces offset found).2 = offset + byteLength (found.flatMap Piece.text) := by
  induction found generalizing offset with
  | nil => rfl
  | cons piece found ih =>
    simp only [placePieces, ih, List.flatMap_cons, Piece.text, byteLength_append]
    omega

/-- One piece further: the text in front of the others. -/
theorem front_append (piece : Piece)
    (whole : source.chars = front ++ ((piece :: found).flatMap Piece.text ++ tail)) :
    source.chars = (front ++ piece.text) ++ (found.flatMap Piece.text ++ tail) ∧
      byteLength (front ++ piece.text) =
        byteLength front + byteLength piece.gap + byteLength piece.lexeme := by
  constructor
  · rw [whole, List.flatMap_cons]
    simp only [List.append_assoc]
  · simp only [Piece.text, byteLength_append]
    omega

theorem placePieces_cut (whole : source.chars = front ++ (found.flatMap Piece.text ++ tail)) :
    ∀ token ∈ (placePieces (byteLength front) found).1, byteLength front ≤ token.span.start ∧
      ∃ piece ∈ found, token.kind = piece.kind ∧ token.lexeme = String.ofList piece.lexeme ∧
        source.Cut token.span piece.lexeme := by
  induction found generalizing front with
  | nil => simp [placePieces]
  | cons piece found ih =>
    obtain ⟨onward, length⟩ := front_append piece whole
    rw [placePieces]
    dsimp only
    intro token ht
    rcases List.mem_cons.1 ht with rfl | later
    · refine ⟨Nat.le_add_right _ _, piece, by simp, rfl, rfl, front ++ piece.gap,
        found.flatMap Piece.text ++ tail, ?_, ?_⟩
      · rw [onward, Piece.text]
        simp only [List.append_assoc]
      · rw [byteLength_append]
    · rw [← length] at later
      obtain ⟨behind, piece', mem, cut⟩ := ih onward token later
      exact ⟨by omega, piece', List.mem_cons_of_mem _ mem, cut⟩

theorem placePieces_ordered (filled : ∀ piece ∈ found, piece.lexeme ≠ [])
    (whole : source.chars = front ++ (found.flatMap Piece.text ++ tail)) :
    (placePieces (byteLength front) found).1.Pairwise
      fun a b => a.span.start < b.span.start ∧ a.span.stop ≤ b.span.start := by
  induction found generalizing front with
  | nil => simp [placePieces]
  | cons piece found ih =>
    obtain ⟨onward, length⟩ := front_append piece whole
    rw [placePieces]
    dsimp only
    rw [← length]
    refine List.pairwise_cons.2 ⟨fun token ht => ?_,
      ih (fun piece hp => filled piece (List.mem_cons_of_mem _ hp)) onward⟩
    have behind := (placePieces_cut onward token ht).1
    have positive : byteLength piece.lexeme ≠ 0 :=
      fun zero => filled piece (by simp) (byteLength_eq_zero zero)
    dsimp only
    omega

theorem gapsBefore_placePieces (filled : ∀ piece ∈ found, piece.lexeme ≠ []) (last : Token)
    (whole : source.chars = front ++ (found.flatMap Piece.text ++ tail)) :
    ∀ gap ∈ gapsBefore (byteLength front) ((placePieces (byteLength front) found).1 ++ [last]),
      (gap.stop < source.length ∧ ∃ piece ∈ found, source.Cut gap piece.gap) ∨
        gap = ⟨(placePieces (byteLength front) found).2, last.span.start⟩ := by
  induction found generalizing front with
  | nil =>
    intro gap hg
    exact .inr (List.mem_singleton.1 hg)
  | cons piece found ih =>
    obtain ⟨onward, length⟩ := front_append piece whole
    rw [placePieces]
    dsimp only
    rw [← length]
    intro gap hg
    rcases List.mem_cons.1 hg with rfl | later
    · refine .inl ⟨?_, piece, by simp, front, piece.lexeme ++ (found.flatMap Piece.text ++ tail),
        ?_, rfl⟩
      · have positive : byteLength piece.lexeme ≠ 0 :=
          fun zero => filled piece (by simp) (byteLength_eq_zero zero)
        rw [Source.length, onward]
        simp only [byteLength_append, Piece.text]
        omega
      · rw [onward, Piece.text]
        simp only [List.append_assoc]
    · rcases ih (fun piece hp => filled piece (List.mem_cons_of_mem _ hp)) onward gap later with
        ⟨inside, piece', mem, cut⟩ | final
      · exact .inl ⟨inside, piece', List.mem_cons_of_mem _ mem, cut⟩
      · exact .inr final

/-! ## Whole sources -/

/-- Tokens that account for the whole of a source: only blanks and comments are left between
them. -/
structure Tiled (source : Source) (tokens : List Token) : Prop where
  ended : ∃ front, tokens = front ++ [⟨.eof, "", ⟨source.length, source.length⟩⟩] ∧
    ∀ token ∈ front, token.kind ≠ .eof ∧ token.span.start < token.span.stop
  admitted : ∀ token ∈ tokens, source.admits token.span = true
  lexemes : ∀ token ∈ tokens, token.lexeme = source.slice token.span
  ordered : tokens.Pairwise fun a b => a.span.start < b.span.start ∧ a.span.stop ≤ b.span.start
  gaps : ∀ gap ∈ gapsBefore 0 tokens,
    Trivia (gap.stop == source.length) (source.slice gap).toList

/-- What is known of the pieces of a source. -/
structure Split (source : Source) (found : List Piece) (ending : Ending) : Prop where
  whole : source.chars = [] ++ (found.flatMap Piece.text ++ (ending.gap ++ ending.rest))
  trivia : ∀ piece ∈ found, Trivia false piece.gap
  filled : ∀ piece ∈ found, piece.lexeme ≠ []
  kinds : ∀ piece ∈ found, piece.kind.isLexical = true
  ending : ending.Sound

theorem split {ending : Ending} (read : pieces source.chars = (found, ending)) :
    source.Split found ending := by
  have whole := pieces_text source.chars
  have trivia := pieces_trivia source.chars
  have kinds := pieces_lexical source.chars
  have sound := pieces_ending_sound source.chars
  rw [read] at whole trivia kinds sound
  exact ⟨whole.symm, fun piece hp => (trivia piece hp).1, fun piece hp => (trivia piece hp).2,
    kinds, sound⟩

/-- The tokens of a source without a fault: those that stand in it, and one at its end. -/
def tokensOf (source : Source) (found : List Piece) : List Token :=
  (placePieces 0 found).1 ++ [⟨.eof, "", ⟨source.length, source.length⟩⟩]

namespace Split

variable {left : List Char} (split : source.Split found ⟨left, none, []⟩)
include split

theorem reached : (placePieces 0 found).2 + byteLength left = source.length := by
  rw [placePieces_stop, Source.length, split.whole]
  simp

theorem token_cut {token : Token} (h : token ∈ source.tokensOf found) :
    ∃ text, token.lexeme = String.ofList text ∧ source.Cut token.span text := by
  rcases List.mem_append.1 h with early | last
  · obtain ⟨-, piece, -, -, lexeme, cut⟩ := placePieces_cut split.whole token early
    exact ⟨piece.lexeme, lexeme, cut⟩
  · rw [List.mem_singleton.1 last]
    exact ⟨[], rfl, source.chars, [], by simp, rfl⟩

theorem kind_ne_eof {token : Token} (h : token ∈ (placePieces 0 found).1) : token.kind ≠ .eof := by
  obtain ⟨-, piece, hp, kind, -, -⟩ := placePieces_cut split.whole token h
  intro ended
  have lexical := split.kinds piece hp
  rw [← kind, ended] at lexical
  cases lexical

theorem token_nonempty {token : Token} (h : token ∈ (placePieces 0 found).1) :
    token.span.start < token.span.stop := by
  obtain ⟨-, piece, hp, -, -, cut⟩ := placePieces_cut split.whole token h
  exact cut.start_lt_stop (split.filled piece hp)

theorem ordered : (source.tokensOf found).Pairwise
    fun a b => a.span.start < b.span.start ∧ a.span.stop ≤ b.span.start := by
  refine List.pairwise_append.2 ⟨placePieces_ordered split.filled split.whole, by simp, ?_⟩
  intro token early last hl
  obtain ⟨-, piece, -, -, -, cut⟩ := placePieces_cut split.whole token early
  have nonempty := split.token_nonempty early
  have within := cut.stop_le
  rw [List.mem_singleton.1 hl]
  dsimp only
  omega

theorem trivia_before {gap : Span} (h : gap ∈ gapsBefore 0 (source.tokensOf found)) :
    Trivia (gap.stop == source.length) (source.slice gap).toList := by
  rcases gapsBefore_placePieces split.filled _ split.whole gap h with ⟨inside, piece, hp, cut⟩ | rfl
  · rw [cut.slice, String.toList_ofList, beq_false_of_ne (by omega)]
    exact split.trivia piece hp
  · have cut : source.Cut ⟨(placePieces 0 found).2, source.length⟩ left := by
      refine ⟨found.flatMap Piece.text, [], split.whole, ?_⟩
      rw [← split.reached, placePieces_stop, Nat.zero_add]
    have final : Trivia true left := split.ending.2
    change Trivia (source.length == source.length)
      (source.slice ⟨(placePieces 0 found).2, source.length⟩).toList
    rw [cut.slice, String.toList_ofList, beq_self_eq_true]
    exact final

theorem tiled : source.Tiled (source.tokensOf found) where
  ended := ⟨_, rfl, fun _ early => ⟨split.kind_ne_eof early, split.token_nonempty early⟩⟩
  admitted token h := by
    obtain ⟨_, -, cut⟩ := split.token_cut h
    exact cut.admits
  lexemes token h := by
    obtain ⟨_, lexeme, cut⟩ := split.token_cut h
    rw [lexeme, cut.slice]
  ordered := split.ordered
  gaps _ h := split.trivia_before h

end Split

theorem tokens_tiled {tokens : List Token} (h : source.tokens = .ok tokens) :
    source.Tiled tokens := by
  obtain ⟨found, ⟨left, fault, rest⟩, read⟩ :
    ∃ found ending, pieces source.chars = (found, ending) := ⟨_, _, rfl⟩
  have split := source.split read
  unfold Source.tokens at h
  rw [read] at h
  cases fault with
  | some fault => cases h
  | none =>
    obtain ⟨rfl, -⟩ : rest = [] ∧ Trivia true left := split.ending
    dsimp only at h
    rw [split.reached] at h
    cases h
    exact split.tiled

theorem fault_span {e : LexError} (h : source.tokens = .error e) :
    e.span.start < e.span.stop ∧ source.admits e.span = true := by
  obtain ⟨found, ⟨left, fault, rest⟩, read⟩ :
    ∃ found ending, pieces source.chars = (found, ending) := ⟨_, _, rfl⟩
  obtain ⟨whole, -, -, -, sound⟩ := source.split read
  unfold Source.tokens at h
  rw [read] at h
  cases fault with
  | none => cases h
  | some fault =>
    obtain ⟨nonempty, after, rfl⟩ : fault.In rest := sound
    cases h
    have cut : source.Cut ⟨(placePieces 0 found).2 + byteLength left + byteLength fault.before,
        (placePieces 0 found).2 + byteLength left + byteLength fault.before +
          byteLength fault.text⟩ fault.text := by
      refine ⟨found.flatMap Piece.text ++ left ++ fault.before, after, ?_, ?_⟩
      · rw [whole]
        simp only [List.nil_append, List.append_assoc]
      · rw [placePieces_stop]
        simp only [byteLength_append, Nat.zero_add]
    exact ⟨cut.start_lt_stop nonempty, cut.admits⟩

theorem lex_lossless (source : Source) (handler : Handler) :
    (∃ tokens, source.lex handler = (some tokens, handler) ∧ source.Tiled tokens) ∨
      ∃ e, source.lex handler = (none, handler.emit (.lexical e)) ∧
        e.span.start < e.span.stop ∧ source.admits e.span = true := by
  unfold Source.lex
  cases read : source.tokens with
  | ok tokens => exact .inl ⟨tokens, rfl, tokens_tiled read⟩
  | error e => exact .inr ⟨e, rfl, fault_span read⟩

end Source

end ClassLang
