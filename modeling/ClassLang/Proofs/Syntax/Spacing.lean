import ClassLang.Proofs.Lexing.Printed
import ClassLang.Proofs.Syntax.Grammar
import ClassLang.Proofs.Syntax.Scoping

/-!
No printed token runs into what is printed behind it. `Fits inks` says that this holds of some ink in
front of whatever may follow an operand, `Lines inks` that it holds in front of anything, as behind the
end of a line.

* `Expr.ink_lexes`: a printed expression falls into the tokens it was printed from.
* `Program.Grammatical.apart`: so does a printed program, if the numbers in it are finite.
-/

namespace ClassLang

namespace Ink

variable {rest inks : List Ink}

/-- May stand behind a mark. -/
def Ready (rest : List Ink) : Prop := apart rest = true ∧ endsMark (chars rest) = true

/-- May stand behind an operand. -/
def Follows (rest : List Ink) : Prop := Ready rest ∧ endsWord (chars rest) = true

/-- May stand behind a mark and in front of what may follow an operand. -/
def Fits (inks : List Ink) : Prop := ∀ rest, Follows rest → Ready (inks ++ rest)

theorem follows_nil : Follows [] := ⟨⟨rfl, rfl⟩, rfl⟩

theorem follows_space (h : apart rest = true) : Follows (space :: rest) :=
  ⟨⟨h, rfl⟩, rfl⟩

theorem follows_newline (h : apart rest = true) : Follows (newline :: rest) :=
  ⟨⟨h, rfl⟩, rfl⟩

theorem ready_mark {mark_ : Punct} (plain : endsMark mark_.chars = true) (h : Ready rest) :
    Ready (mark mark_ :: rest) := by
  have text : chars (mark mark_ :: rest) = mark_.chars ++ chars rest := by
    simp [chars, mark, text, TokenKind.spelling, Punct.spelling]
  refine ⟨Bool.and_eq_true_iff.2 ⟨h.2, h.1⟩, ?_⟩
  rw [text]
  obtain ⟨first, tail, eq⟩ := List.exists_cons_of_ne_nil mark_.chars_ne_nil
  rw [eq] at plain ⊢
  exact plain

/-- The marks that follow an operand, save for the dot. -/
def closers : List Punct :=
  [.closeParen, .closeBracket, .closeBrace, .comma, .colon, .semicolon, .openBracket, .openParen,
    .arrow]

theorem follows_mark {mark_ : Punct} (closer : mark_ ∈ closers) (h : Ready rest) :
    Follows (mark mark_ :: rest) := by
  have plain : ∀ m ∈ closers, endsMark m.chars = true := by decide
  refine ⟨ready_mark (plain mark_ closer) h, ?_⟩
  have text : chars (mark mark_ :: rest) = mark_.chars ++ chars rest := by
    simp [chars, mark, text, TokenKind.spelling, Punct.spelling]
  rw [text]
  cases mark_ <;> first | rfl | exact absurd closer (by decide)

theorem endsMark_of_readsFront {kind : TokenKind} {lexeme rest : List Char}
    (h : ReadsFront kind lexeme rest) (word : ∀ m, kind ≠ .punct m) :
    endsMark (lexeme ++ rest) = true := by
  obtain ⟨first, tail, text, -, read⟩ := h
  have sign (none_ : isIdentifierStart first = false ∧ first.isDigit = false ∧ first ≠ 'b' ∧
      first ≠ '"' ∧ first ≠ '\'') : False := by
    obtain ⟨start, digit, letter, string, char⟩ := none_
    unfold scan at read
    rw [if_neg (by simp [letter]), if_neg (by simp [start]), if_neg (by simp [digit]),
      if_neg string, if_neg char] at read
    split at read
    · cases read
      exact word _ rfl
    · cases read
  rw [text]
  unfold endsMark
  rw [List.head?_cons, Option.any_some, Bool.not_eq_true', Bool.eq_false_iff]
  intro mem
  refine sign ?_
  rw [List.contains_iff_mem] at mem
  have table : ['=', '<', '>', '*', '/'].all (fun c => !isIdentifierStart c && !c.isDigit &&
      c != 'b' && c != '"' && c != '\'') = true := by
    decide
  have entry := List.all_eq_true.1 table first mem
  simpa [and_assoc] using entry

/-- A word or a literal in front of what may follow an operand. -/
theorem fits_token {kind : TokenKind} (lexical : kind.isLexical = true)
    (finite : kind.isFinite = true) (word : ∀ m, kind ≠ .punct m) : Fits [token kind] := by
  intro rest follows
  have ends : kind.endsBefore (chars rest) = true := by
    cases kind with
    | punct m => exact absurd rfl (word m)
    | _ => exact follows.2
  refine ⟨?_, endsMark_of_readsFront (readsFront_spelling lexical finite ends) word⟩
  simp only [List.singleton_append, apart, lexical, finite, ends, follows.1.1, Bool.and_true]

theorem fits_name {n : String} (h : isName n = true) : Fits [name n] := by
  have lexical : (TokenKind.ident n).isLexical = true := h
  exact fits_token lexical rfl fun _ other => by cases other

theorem fits_word (k : Keyword) : Fits [word k] :=
  fits_token rfl rfl fun _ other => by cases other

theorem fits_literal {value : Literal} (lexical : value.token.isLexical = true)
    (finite : value.isFinite = true) : Fits [token value.token] := by
  cases value with
  | bool b => cases b <;> exact fits_word _
  | null => exact fits_word _
  | undefined => exact fits_word _
  | _ => exact fits_token lexical finite fun _ other => by cases other

theorem Fits.append {front back : List Ink} (hf : Fits front)
    (hb : ∀ rest, Follows rest → Follows (back ++ rest)) : Fits (front ++ back) := by
  intro rest follows
  rw [List.append_assoc]
  exact hf _ (hb rest follows)

/-- A token with a blank behind it. -/
theorem apart_spaced {kind : TokenKind} (lexical : kind.isLexical = true)
    (finite : kind.isFinite = true) (h : apart rest = true) :
    apart (token kind :: space :: rest) = true := by
  have ends : kind.endsBefore (chars (space :: rest)) = true := by
    cases kind <;> rfl
  have blank : (" " : String).toList.all isBlank = true := by decide
  simp only [apart, space, lexical, finite, h, blank, Bool.and_true]
  exact ends

theorem ready_word (word : Keyword) (h : apart rest = true) :
    Ready (Ink.word word :: space :: rest) := by
  refine ⟨apart_spaced rfl rfl h, endsMark_of_readsFront
    (readsFront_spelling rfl rfl (follows_space h).2) fun _ other => by cases other⟩

theorem ready_commas {items : List (List Ink)} (fits : ∀ item ∈ items, Fits item)
    (nonempty : items ≠ []) (h : Follows rest) : Ready (commas items ++ rest) := by
  induction items with
  | nil => exact absurd rfl nonempty
  | cons item items ih =>
    have front : Fits item := fits item (by simp)
    cases items with
    | nil => exact front rest h
    | cons next items =>
      have ready := ih (fun i hi => fits i (List.mem_cons_of_mem item hi)) (by simp)
      rw [commas, List.append_assoc]
      · exact front _ (follows_mark (by decide) (follows_space ready.1).1)
      · simp

theorem ready_inside {closing : Punct} {items : List (List Ink)} (close : closing ∈ closers)
    (fits : ∀ item ∈ items, Fits item) (h : Ready rest) :
    Ready (commas items ++ [mark closing] ++ rest) := by
  have closed : Follows (mark closing :: rest) := follows_mark close h
  rw [List.append_assoc]
  by_cases nonempty : items = []
  · rw [nonempty]
    exact closed.1
  · exact ready_commas fits nonempty closed

theorem follows_enclosed {opening closing : Punct} {items : List (List Ink)}
    (open_ : opening ∈ closers) (close : closing ∈ closers) (fits : ∀ item ∈ items, Fits item)
    (h : Ready rest) : Follows (enclosed opening closing items ++ rest) :=
  follows_mark open_ (ready_inside close fits h)

theorem fits_enclosed {opening closing : Punct} {items : List (List Ink)}
    (open_ : endsMark opening.chars = true) (close : closing ∈ closers)
    (fits : ∀ item ∈ items, Fits item) : Fits (enclosed opening closing items) :=
  fun _ follows => ready_mark open_ (ready_inside close fits follows.1)

theorem fits_parens {inner : List Ink}
    (h : ∀ rest, Follows rest → Ready (inner ++ rest)) :
    Fits (mark .openParen :: inner ++ [mark .closeParen]) := by
  intro rest follows
  have closed : Follows (mark .closeParen :: rest) := follows_mark (by decide) follows.1
  have ready : Ready (mark .openParen :: (inner ++ mark .closeParen :: rest)) :=
    ready_mark (by decide) (h _ closed)
  rwa [List.append_assoc]

end Ink

/-! ## Types -/

namespace TypeRef

open Ink

theorem ready_modifiers (m : Modifiers) {rest : List Ink} (h : Ready rest) :
    Ready (modifierInk m ++ rest) := by
  have word (present : Bool) (k : Keyword) {rest : List Ink} (h : Ready rest) :
      Ready ((if present then [.word k, .space] else []) ++ rest) := by
    cases present with
    | true => exact ready_word k h.1
    | false => exact h
  rw [modifierInk, List.append_assoc, List.append_assoc]
  exact word _ _ (word _ _ (word _ _ h))

theorem fits_modified (m : Modifiers) {base : List Ink} (h : Fits base) :
    Fits (modifierInk m ++ base) := by
  intro rest follows
  rw [List.append_assoc]
  exact ready_modifiers m (h rest follows)

theorem fits_bracketed {kind : TokenKind} {items : List (List Ink)}
    (h : Fits [.token kind]) (fits : ∀ item ∈ items, Fits item) :
    Fits (.token kind :: enclosed .openBracket .closeBracket items) :=
  Fits.append h fun _ follows => follows_enclosed (by decide) (by decide) fits follows.1

mutual

theorem ink_fits : ∀ t : TypeRef, t.isSound = true → Fits t.ink
  | primitive _ m kind, _ => fits_modified m (fits_word _)
  | array _ m args, sound => fits_modified m (fits_bracketed
      (fits_word _) (inkAll_fits args sound))
  | keymap _ m args, sound => fits_modified m (fits_bracketed
      (fits_word _) (inkAll_fits args sound))
  | named _ m name, sound =>
    fits_modified m (fits_name sound)
  | generic _ m name args, sound => by
    rw [isSound, Bool.and_eq_true] at sound
    exact fits_modified m (fits_bracketed
      (fits_name sound.1) (inkAll_fits args sound.2))
  | void .., sound => by cases sound

theorem inkAll_fits : ∀ types : List TypeRef, soundAll types = true →
    ∀ item ∈ inkAll types, Fits item
  | [], _ => by simp [inkAll]
  | t :: rest, sound => by
    rw [soundAll, Bool.and_eq_true] at sound
    rw [inkAll]
    exact List.forall_mem_cons.2 ⟨ink_fits t sound.1, inkAll_fits rest sound.2⟩

end

end TypeRef

/-! ## Expressions -/

namespace Expr

open Ink

/-- Whether the number of a literal, if the expression is one, is finite. -/
def finiteHere : Expr → Bool
  | literal _ value => value.isFinite
  | _ => true

/-- Whether the numbers of all literals in the expression are finite. -/
def isFinite (e : Expr) : Bool := e.all finiteHere

theorem follows_dot {n : String} {rest : List Ink} (hn : isName n = true)
    (h : Ready (.name n :: rest)) : Follows (mark .dot :: .name n :: rest) := by
  refine ⟨ready_mark rfl h, ?_⟩
  simp only [isName, Bool.and_eq_true] at hn
  have text : chars (mark .dot :: .name n :: rest) = '.' :: (n.toList ++ chars rest) := rfl
  rw [text, endsWord_iff]
  refine ⟨rfl, by simp, ?_⟩
  cases chars : n.toList with
  | nil =>
    rw [chars] at hn
    cases hn.1.1
  | cons first tail =>
    rw [chars, List.head?_cons, Option.any_some] at hn
    have letter : ¬first.isDigit = true := by
      intro digit
      have start := hn.1.1
      rw [not_start_of_isDigit digit] at start
      cases start
    rw [List.cons_append, fraction, if_neg letter]

theorem fits_member {n : String} {target : List Ink} (access : MemberAccess) (ht : Fits target)
    (hn : isName n = true) : Fits (target ++ [mark access.punct, .name n]) := by
  refine ht.append fun rest follows => ?_
  have ready : Ready (.name n :: rest) := fits_name hn rest follows
  cases access with
  | arrow => exact follows_mark (by decide) ready
  | dot => exact follows_dot hn ready

theorem fits_binary {lhs rhs : List Ink} (op : BinaryOp) (hl : Fits lhs) (hr : Fits rhs) :
    Fits (.mark .openParen :: lhs ++ .space :: .token op.token :: .space :: rhs ++
      [.mark .closeParen]) := by
  have lexical : op.token.isLexical = true := by cases op <;> rfl
  have finite : op.token.isFinite = true := by cases op <;> rfl
  refine fits_parens fun rest follows => ?_
  have spaced := apart_spaced lexical finite (hr rest follows).1
  rw [List.append_eq, List.append_assoc]
  exact hl _ (follows_space spaced)

theorem fits_unary {operand : List Ink} (op : UnaryOp) (h : Fits operand) :
    Fits (.mark .openParen :: .token op.token :: (if op.isWord then [.space] else []) ++ operand ++
      [.mark .closeParen]) := by
  refine fits_parens fun rest follows => ?_
  have ready := h rest follows
  cases op with
  | not => exact ready_word .kwNot ready.1
  | delete => exact ready_word .kwDelete ready.1
  | neg => exact ready_mark rfl ready
  | pos => exact ready_mark rfl ready
  | bitNot => exact ready_mark rfl ready
  | ref => exact ready_mark rfl ready

theorem fits_index {target i : List Ink} (ht : Fits target) (hi : Fits i) :
    Fits (target ++ .mark .openBracket :: i ++ [.mark .closeBracket]) := by
  rw [List.append_assoc]
  refine ht.append fun rest follows => follows_mark (by decide) ?_
  simp only [List.append_eq, List.append_assoc]
  exact hi _ (follows_mark (by decide) follows.1)

theorem fits_assign {target value : List Ink} (kind : AssignKind) (ht : Fits target)
    (hv : Fits value) : Fits (target ++ .space :: .mark kind.punct :: .space :: value) :=
  ht.append fun rest follows => follows_space (apart_spaced rfl rfl (hv rest follows).1)

mutual

theorem ink_fits : ∀ e : Expr, (e.all fun e => e.soundHere && e.finiteHere) = true → Fits e.ink
  | ident _ name, h => by
    simp only [all, soundHere, finiteHere, Bool.and_true] at h
    exact fits_name h
  | this _, _ => fits_word _
  | literal _ value, h => by
    simp only [all, soundHere, finiteHere, Bool.and_eq_true] at h
    exact fits_literal h.1 h.2
  | list _ elems, h => by
    simp only [all, soundHere, finiteHere, Bool.and_self, Bool.true_and] at h
    exact fits_enclosed rfl (by decide) (inkAll_fits elems h)
  | keymap _ pairs, h => by
    simp only [all, soundHere, finiteHere, Bool.and_self, Bool.true_and] at h
    exact fits_enclosed rfl (by decide) (inkPairs_fits pairs h)
  | binary _ op lhs rhs, h => by
    simp only [all, soundHere, finiteHere, Bool.and_self, Bool.true_and, Bool.and_eq_true] at h
    exact fits_binary op (ink_fits lhs h.1) (ink_fits rhs h.2)
  | unary _ op operand, h => by
    simp only [all, soundHere, finiteHere, Bool.and_self, Bool.true_and] at h
    exact fits_unary op (ink_fits operand h)
  | new _ type, h => by
    simp only [all, soundHere, finiteHere, Bool.and_true] at h
    exact fits_parens fun rest follows => ready_word .kwNew (type.ink_fits h rest follows).1
  | member _ target access name, h => by
    simp only [all, soundHere, finiteHere, Bool.and_true, Bool.and_eq_true] at h
    exact fits_member access (ink_fits target h.2) h.1
  | index _ target i, h => by
    simp only [all, soundHere, finiteHere, Bool.and_self, Bool.true_and, Bool.and_eq_true] at h
    exact fits_index (ink_fits target h.1) (ink_fits i h.2)
  | call _ callee args, h => by
    simp only [all, soundHere, finiteHere, Bool.and_self, Bool.true_and, Bool.and_eq_true] at h
    exact (ink_fits callee h.1).append fun _ follows =>
      follows_enclosed (by decide) (by decide) (inkAll_fits args h.2) follows.1
  | assign _ kind target value, h => by
    simp only [all, soundHere, finiteHere, Bool.and_true, Bool.and_eq_true] at h
    exact fits_assign kind (ink_fits target h.1.2) (ink_fits value h.2)

theorem inkAll_fits : ∀ es : List Expr, allOf (fun e => e.soundHere && e.finiteHere) es = true →
    ∀ item ∈ inkAll es, Fits item
  | [], _ => by simp [inkAll]
  | e :: rest, h => by
    rw [allOf, Bool.and_eq_true] at h
    rw [inkAll]
    exact List.forall_mem_cons.2 ⟨ink_fits e h.1, inkAll_fits rest h.2⟩

theorem inkPairs_fits : ∀ pairs : List KeymapPair,
    allPairs (fun e => e.soundHere && e.finiteHere) pairs = true →
      ∀ item ∈ inkPairs pairs, Fits item
  | [], _ => by simp [inkPairs]
  | .mk _ key value :: rest, h => by
    rw [allPairs, Bool.and_eq_true, Bool.and_eq_true] at h
    rw [inkPairs]
    refine List.forall_mem_cons.2 ⟨?_, inkPairs_fits rest h.2⟩
    refine (ink_fits key h.1.1).append fun rest follows => ?_
    exact follows_mark (by decide) (follows_space (ink_fits value h.1.2 rest follows).1).1

end

theorem fits_of_finite {e : Expr} (sound : e.isSound = true) (finite : e.isFinite = true) :
    Fits e.ink := by
  refine e.ink_fits ?_
  rw [all_and]
  exact Bool.and_eq_true_iff.2 ⟨sound, finite⟩

theorem ink_lexes {e : Expr} (h : (e.all fun e => e.soundHere && e.finiteHere) = true) :
    Lexes e.text.toList (tokensOf e.ink) := by
  have ready := ink_fits e h [] follows_nil
  rw [List.append_nil] at ready
  rw [text, textOf_chars]
  exact lexes_of_apart ready.1

end Expr

/-! ## Lines -/

namespace Ink

variable {depth : Nat} {rest inner : List Ink}

/-- May stand in front of any other lines. -/
def Lines (inks : List Ink) : Prop := ∀ rest, apart rest = true → apart (inks ++ rest) = true

theorem Lines.append {front back : List Ink} (hf : Lines front) (hb : Lines back) :
    Lines (front ++ back) := by
  intro rest h
  rw [List.append_assoc]
  exact hf _ (hb rest h)

theorem Lines.flatMap {α : Type} {items : List α} {ink : α → List Ink}
    (h : ∀ a ∈ items, Lines (ink a)) : Lines (items.flatMap ink) := by
  induction items with
  | nil => exact fun rest => id
  | cons a items ih =>
    obtain ⟨first, others⟩ := List.forall_mem_cons.1 h
    exact first.append (ih others)

theorem apart_indent (h : apart rest = true) : apart (indent depth :: rest) = true := by
  have blanks : (List.replicate (4 * depth) ' ').all isBlank = true :=
    List.all_eq_true.2 fun c listed => by rw [(List.mem_replicate.1 listed).2]; decide
  simp [apart, indent, h, blanks]

/-- What is indented stands on lines of its own. -/
theorem lines_indented (h : ∀ rest, Follows rest → Ready (inner ++ rest)) :
    Lines (indent depth :: inner ++ [newline]) := by
  intro rest others
  rw [List.append_assoc]
  exact apart_indent (h _ (follows_newline others)).1

theorem Fits.semicolon (h : Fits inner) : Fits (inner ++ [mark .semicolon]) :=
  h.append fun _ follows => follows_mark (by decide) follows.1

/-- A block or a condition, and what follows it. -/
theorem ready_condition {condition : Expr} (word : Keyword) (fits : Fits condition.ink)
    (h : apart rest = true) : Ready (conditionInk word condition ++ rest) := by
  have closed : Follows (mark .closeParen :: space :: rest) :=
    follows_mark (by decide) (follows_space h).1
  have inside : Ready (mark .openParen :: (condition.ink ++ mark .closeParen :: space :: rest)) :=
    ready_mark rfl (fits _ closed)
  rw [conditionInk, List.append_assoc]
  exact ready_word word inside.1

theorem ready_braces {inner : List Ink} (lines : Lines inner) (h : Ready rest) :
    Ready (mark .openBrace :: newline :: inner ++ [indent depth, mark .closeBrace] ++ rest) := by
  have closed : apart (indent depth :: mark .closeBrace :: rest) = true :=
    apart_indent (follows_mark (by decide) h).1.1
  rw [List.append_assoc]
  exact ready_mark rfl (follows_newline (lines _ closed)).1

end Ink

/-! ## Statements -/

open Ink

theorem fits_declaration {type : TypeRef} {name : Ident} (fits : Fits type.ink)
    (named : isName name.name = true) : Fits (declarationInk type name) :=
  fits.append fun rest follows => follows_space (fits_name named rest follows).1

theorem GrammaticalVariable.fits {type : TypeRef} {name : Ident} {init : Option Initializer}
    (h : GrammaticalVariable type name init)
    (finite : ∀ i, init = some i → i.value.isFinite = true) :
    Fits (declarationInk type name ++ initializerInk init) := by
  refine (fits_declaration (type.ink_fits h.type) h.name).append fun rest follows => ?_
  cases init with
  | none => exact follows
  | some i =>
    have value := Expr.fits_of_finite (h.init i rfl).sound (finite i rfl)
    exact follows_space (apart_spaced rfl rfl (value rest follows).1)

/-- All numbers in the expressions of some statements are finite. -/
def FiniteIn (ss : List Statement) : Prop := ∀ s ∈ ss, ∀ e ∈ s.roots, e.isFinite = true

theorem Expr.Nested.fits {e : Expr} (nested : e.Nested) (finite : e.isFinite = true) : Fits e.ink :=
  Expr.fits_of_finite nested.sound finite

mutual

theorem Statement.Grammatical.lines : ∀ {s : Statement} {c : Context} {depth : Nat},
    s.Grammatical c → FiniteIn s.within → Lines (s.ink depth)
  | .varDecl _ decl, _, depth, variable_, finite => by
    have fits : Fits (declarationInk decl.type decl.name ++ initializerInk decl.init) := by
      refine GrammaticalVariable.fits variable_ fun i eq => ?_
      exact List.forall_mem_singleton.1 finite _ (by simp [Statement.roots, eq])
    have line : Lines (indent depth :: (declarationInk decl.type decl.name ++
        initializerInk decl.init ++ [mark .semicolon]) ++ [newline]) := lines_indented fits.semicolon
    simpa [Statement.ink] using line
  | .expr _ value, _, depth, standalone, finite => by
    have finite := List.forall_mem_singleton.1 finite value (List.mem_singleton_self value)
    have line : Lines (indent depth :: (value.ink ++ [mark .semicolon]) ++ [newline]) :=
      lines_indented (Expr.fits_of_finite (Expr.Standalone.sound standalone) finite).semicolon
    simpa [Statement.ink] using line
  | .ifElse _ condition thenBlock alternative, _, depth, ⟨nested, first, second⟩, finite => by
    obtain ⟨conditions, inside⟩ := List.forall_mem_cons.1 finite
    obtain ⟨inFirst, inSecond⟩ := List.forall_mem_append.1 inside
    obtain ⟨here, others⟩ := List.forall_mem_cons.1 conditions
    have line : Lines (indent depth :: (conditionInk .kwIf condition ++ (thenBlock.ink depth ++
        alternative.ink depth)) ++ [newline]) := by
      refine lines_indented fun rest behind => ?_
      have last : Follows (alternative.ink depth ++ rest) :=
        second.follows others inSecond rest behind
      rw [List.append_assoc, List.append_assoc]
      exact ready_condition .kwIf (nested.fits here) (first.fits inFirst _ last.1).1
    simpa [Statement.ink] using line
  | .while _ condition body, _, depth, ⟨nested, inner⟩, finite => by
    obtain ⟨here, inside⟩ := List.forall_mem_cons.1 finite
    have line : Lines (indent depth :: (conditionInk .kwWhile condition ++ body.ink depth) ++
        [newline]) := by
      refine lines_indented fun rest behind => ?_
      rw [List.append_assoc]
      exact ready_condition .kwWhile (nested.fits (here condition (List.mem_singleton_self _)))
        (inner.fits inside rest behind.1).1
    simpa [Statement.ink] using line
  | .tryCatch _ body handler, _, depth, ⟨first, second⟩, finite => by
    obtain ⟨-, inside⟩ := List.forall_mem_cons.1 finite
    obtain ⟨inFirst, inSecond⟩ := List.forall_mem_append.1 inside
    have line : Lines (indent depth :: (.word .kwTry :: space :: (body.ink depth ++
        space :: .word .kwCatch :: space :: handler.ink depth)) ++ [newline]) := by
      refine lines_indented fun rest behind => ?_
      have handled : Ready (.word .kwCatch :: space :: (handler.ink depth ++ rest)) :=
        ready_word .kwCatch (second.fits inSecond rest behind.1).1
      have tried : Ready (body.ink depth ++ _) := first.fits inFirst _ (follows_space handled.1).1
      simpa using ready_word .kwTry tried.1
    simpa [Statement.ink] using line
  | .return _ none, _, depth, _, _ => by
    have line : Lines (indent depth :: ([.word .kwReturn] ++ [mark .semicolon]) ++ [newline]) :=
      lines_indented (fits_word _).semicolon
    simpa [Statement.ink] using line
  | .return _ (some value), _, depth, ⟨_, nested⟩, finite => by
    have finite := List.forall_mem_singleton.1 finite value (List.mem_singleton_self value)
    have fits : Fits (.word .kwReturn :: space :: value.ink) := fun rest behind =>
      ready_word .kwReturn ((nested value rfl).fits finite rest behind).1
    have line : Lines (indent depth :: (.word .kwReturn :: space :: value.ink ++
        [mark .semicolon]) ++ [newline]) := lines_indented fits.semicolon
    simpa [Statement.ink] using line
  | .break _, _, depth, _, _ => by
    have line : Lines (indent depth :: ([.word .kwBreak] ++ [mark .semicolon]) ++ [newline]) :=
      lines_indented (fits_word _).semicolon
    simpa [Statement.ink] using line
  | .continue _, _, depth, _, _ => by
    have line : Lines (indent depth :: ([.word .kwContinue] ++ [mark .semicolon]) ++ [newline]) :=
      lines_indented (fits_word _).semicolon
    simpa [Statement.ink] using line
  | .block _ body, _, depth, inner, finite => by
    have inside := (List.forall_mem_cons.1 finite).2
    have line : Lines (indent depth :: body.ink depth ++ [newline]) :=
      lines_indented fun rest behind => Block.Grammatical.fits inner inside rest behind.1
    simpa [Statement.ink] using line

theorem Alternative.Grammatical.follows : ∀ {a : Alternative} {c : Context} {depth : Nat},
    a.Grammatical c → (∀ e ∈ a.conditions, e.isFinite = true) → FiniteIn a.within →
      ∀ rest, Follows rest → Follows (a.ink depth ++ rest)
  | .none, _, _, _, _, _ => fun _ => id
  | .block _, _, _, inner, _, finite => fun rest behind =>
    follows_space (ready_word .kwElse (Block.Grammatical.fits inner finite rest behind.1).1).1
  | .elseIf condition thenBlock alternative, _, depth, ⟨nested, first, second⟩, conditions, finite =>
    fun rest behind => by
    obtain ⟨inFirst, inSecond⟩ := List.forall_mem_append.1 finite
    obtain ⟨here, others⟩ := List.forall_mem_cons.1 conditions
    have last : Follows (alternative.ink depth ++ rest) :=
      second.follows others inSecond rest behind
    have block : Ready (thenBlock.ink depth ++ _) := first.fits inFirst _ last.1
    have tested := ready_condition .kwIf (nested.fits here) block.1
    simpa [Alternative.ink] using follows_space (ready_word .kwElse tested.1).1

theorem Block.Grammatical.fits : ∀ {b : Block} {c : Context} {depth : Nat}, b.Grammatical c →
    FiniteIn b.within → ∀ rest, Ready rest → Ready (b.ink depth ++ rest)
  | .mk _ _, _, _, inner, finite => fun _ behind =>
    ready_braces (GrammaticalStatements.lines inner finite) behind

theorem GrammaticalStatements.lines : ∀ {ss : List Statement} {c : Context} {depth : Nat},
    GrammaticalStatements c ss → FiniteIn (withinStatements ss) → Lines (statementsInk depth ss)
  | [], _, _, _, _ => fun _ => id
  | _ :: _, _, _, ⟨first, others⟩, finite =>
    have ⟨inFirst, inOthers⟩ := List.forall_mem_append.1 finite
    Lines.append (first.lines inFirst) (others.lines inOthers)

end

/-! ## Declarations -/

theorem TypeRef.Returnable.fits {t : TypeRef} (returned : t.Returnable) : Fits t.ink := by
  obtain sound | ⟨n, rfl⟩ := returned
  · exact t.ink_fits sound
  · exact TypeRef.fits_modified .none (fits_word _)

section

variable {depth : Nat} {rest : List Ink}

theorem follows_params {ps : List Param} (grammatical : ∀ p ∈ ps, p.Grammatical) (h : Ready rest) :
    Follows (paramsInk ps ++ rest) := by
  refine follows_enclosed (by decide) (by decide) (List.forall_mem_map.2 fun p listed => ?_) h
  exact fits_declaration (p.type.ink_fits (grammatical p listed).type) (grammatical p listed).name

theorem GrammaticalCallable.follows {type : TypeRef} {ps : List Param} {body : Block}
    (depth : Nat) (h : GrammaticalCallable type ps body) (finite : FiniteIn body.within) (behind : Ready rest) :
    Follows (paramsInk ps ++ (space :: body.ink depth ++ rest)) := by
  have block : Ready (body.ink depth ++ rest) := h.body.fits finite rest behind
  exact follows_params h.params (follows_space block.1).1

theorem apart_operator (op : Operator) (h : Follows rest) :
    apart (op.tokens.map Ink.token ++ rest) = true := by
  have single {kind : TokenKind} (lexical : kind.isLexical = true) (finite : kind.isFinite = true) :
      apart (token kind :: rest) = true := by
    have ends : kind.endsBefore (chars rest) = true := by
      cases kind with
      | punct _ => exact h.1.2
      | _ => exact h.2
    simp only [apart, lexical, finite, ends, h.1.1, Bool.and_true]
  cases op with
  | binary op => exact single (by cases op <;> rfl) (by cases op <;> rfl)
  | unary op => exact single (by cases op <;> rfl) (by cases op <;> rfl)
  | index =>
    have closed : Follows (mark .closeBracket :: rest) := follows_mark (by decide) h.1
    exact (follows_mark (by decide) closed.1).1.1

theorem Function.Grammatical.lines {f : Function} (h : f.Grammatical)
    (finite : FiniteIn f.body.within) : Lines (f.ink depth) := by
  have line (title : List Ink) (titled : ∀ rest, Follows rest → Ready (title ++ rest)) :
      Lines (indent depth :: (title ++ (paramsInk f.params ++ (space :: f.body.ink depth))) ++
        [newline]) := by
    refine lines_indented fun rest behind => ?_
    rw [List.append_assoc, List.append_assoc]
    exact titled _ (h.callable.follows depth finite behind.1)
  cases operator : f.operator with
  | none =>
    have title := line _ (fits_declaration h.callable.returned.fits (h.name operator))
    simpa [Function.ink, operator] using title
  | some op =>
    have title := line (f.returnType.ink ++ space :: .word .kwOperator ::
        space :: op.tokens.map Ink.token) fun rest behind => by
      have symbol := apart_operator op behind
      simpa using h.callable.returned.fits _ (follows_space (ready_word .kwOperator symbol).1)
    simpa [Function.ink, operator] using title

theorem follows_optionalWord (present : Bool) (word : Keyword) (h : Follows rest) :
    Follows (optionalWord present word ++ rest) := by
  cases present with
  | false => exact h
  | true => exact follows_space (fits_word word rest h).1

theorem GrammaticalVariable.lines {f : Field} (h : GrammaticalVariable f.type f.name f.init)
    (finite : ∀ i, f.init = some i → i.value.isFinite = true) : Lines f.ink := by
  have line : Lines (indent 1 :: (.word f.access.keyword :: (optionalWord f.isStatic .kwStatic ++
      space :: (declarationInk f.type f.name ++ initializerInk f.init ++ [mark .semicolon]))) ++
      [newline]) := by
    refine lines_indented fun rest behind => ?_
    have declared := (h.fits finite).semicolon rest behind
    have words := fits_word f.access.keyword _
      (follows_optionalWord f.isStatic .kwStatic (follows_space declared.1))
    simpa using words
  simpa [Field.ink] using line

theorem Method.Grammatical.lines {m : Method} (h : m.Grammatical)
    (finite : FiniteIn m.body.within) : Lines m.ink := by
  have line : Lines (indent 1 :: (.word m.access.keyword :: (optionalWord m.isStatic .kwStatic ++
      (optionalWord m.isVirtual .kwVirtual ++ (optionalWord m.isOverload .kwOverload ++
        space :: (declarationInk m.returnType m.name ++ (paramsInk m.params ++
          (space :: m.body.ink 1))))))) ++ [newline]) := by
    refine lines_indented fun rest behind => ?_
    have declared := fits_declaration h.callable.returned.fits h.name _
      (h.callable.follows 1 finite behind.1)
    have words := fits_word m.access.keyword _
      (follows_optionalWord m.isStatic .kwStatic (follows_optionalWord m.isVirtual .kwVirtual
        (follows_optionalWord m.isOverload .kwOverload (follows_space declared.1))))
    simpa using words
  simpa [Method.ink] using line

/-- The type parameters of a class in printed form. -/
def genericsInk (names : List Ident) : List Ink :=
  if names.isEmpty then []
  else Ink.enclosed .openBracket .closeBracket (names.map fun name => [.name name.name])

/-- The superclass in printed form. -/
def superclassInk : Option TypeRef → List Ink
  | some type => .space :: .word .kwExtends :: .space :: type.ink
  | none => []

theorem Class.ink_eq (operators : List Function) (c : Class) : c.ink operators =
    .word .kwClass :: space :: .name c.name.name :: (genericsInk c.generics ++
      (superclassInk c.superclass ++ space :: mark .openBrace :: newline ::
        (c.fields.flatMap Field.ink ++ (c.methods.flatMap Method.ink ++
          (operators.flatMap (Function.ink 1) ++ [mark .closeBrace, newline]))))) := by
  obtain ⟨n, name, generics, superclass, fields, methods⟩ := c
  cases generics <;> cases superclass <;>
    simp [Class.ink, Class.isGeneric, Class.params, genericsInk, superclassInk, Function.comp_def]

theorem follows_generics {names : List Ident} (named : ∀ g ∈ names, isName g.name = true)
    (h : Follows rest) : Follows (genericsInk names ++ rest) := by
  cases names with
  | nil => exact h
  | cons name names =>
    rw [genericsInk, if_neg (by simp)]
    refine follows_enclosed (by decide) (by decide) (List.forall_mem_map.2 fun g listed => ?_) h.1
    exact fits_name (named g listed)

theorem follows_superclass {superclass : Option TypeRef}
    (sound : ∀ t, superclass = some t → t.isSound = true) (h : Follows rest) :
    Follows (superclassInk superclass ++ rest) := by
  cases superclass with
  | none => exact h
  | some type =>
    exact follows_space (ready_word .kwExtends (type.ink_fits (sound type rfl) _ h).1).1

theorem Class.Grammatical.lines {c : Class} {operators : List Function} (h : c.Grammatical)
    (fields : ∀ f ∈ c.fields, ∀ i, f.init = some i → i.value.isFinite = true)
    (methods : ∀ m ∈ c.methods, FiniteIn m.body.within)
    (functions : ∀ f ∈ operators, f.Grammatical ∧ FiniteIn f.body.within) :
    Lines (c.ink operators) := by
  intro rest behind
  have closed : apart (mark .closeBrace :: newline :: rest) = true :=
    (follows_mark (by decide) (follows_newline behind).1).1.1
  have members : apart (c.fields.flatMap Field.ink ++ (c.methods.flatMap Method.ink ++
      (operators.flatMap (Function.ink 1) ++ mark .closeBrace :: newline :: rest))) = true :=
    Lines.flatMap (fun f listed => (h.fields f listed).lines (fields f listed)) _
      (Lines.flatMap (fun m listed => (h.methods m listed).lines (methods m listed)) _
        (Lines.flatMap (fun f listed => (functions f listed).1.lines (functions f listed).2) _ closed))
  have opened : Follows (space :: mark .openBrace :: newline :: (c.fields.flatMap Field.ink ++ _)) :=
    follows_space (ready_mark rfl (follows_newline members).1).1
  have titled := follows_generics h.generics (follows_superclass h.superclass opened)
  simpa [Class.ink_eq] using (ready_word .kwClass (fits_name h.name _ titled).1).1

theorem Program.Grammatical.apart {p : Program} (h : p.Grammatical)
    (finite : ∀ e ∈ p.wholes, e.isFinite = true) : Ink.apart p.ink = true := by
  obtain ⟨fields, statements⟩ := List.forall_mem_append.1 finite
  have inside : FiniteIn p.within := fun r listed e root =>
    statements e (List.mem_flatMap.2 ⟨r, listed, root⟩)
  obtain ⟨inDeclarations, inStatements⟩ := List.forall_mem_append.1 inside
  obtain ⟨inMethods, inFunctions⟩ := List.forall_mem_append.1 inDeclarations
  have functions (f : Function) (listed : f ∈ p.functions) :
      f.Grammatical ∧ FiniteIn f.body.within :=
    ⟨h.functions f listed, fun r there => inFunctions r (List.mem_flatMap.2 ⟨f, listed, there⟩)⟩
  have lines : Lines p.ink := by
    refine .append (.append (.flatMap fun c listed => ?_) (.flatMap fun f listed => ?_)) ?_
    · refine (h.classes c listed).lines (fun f there i eq => ?_) (fun m there r below => ?_)
        fun f owned => functions f (List.mem_of_mem_filter owned)
      · exact fields _ (List.mem_flatMap.2 ⟨c, listed, List.mem_flatMap.2 ⟨f, there, by simp [eq]⟩⟩)
      · exact inMethods r (List.mem_flatMap.2 ⟨c, listed, List.mem_flatMap.2 ⟨m, there, below⟩⟩)
    · obtain ⟨grammatical, finite⟩ := functions f (List.mem_of_mem_filter listed)
      exact grammatical.lines finite
    · refine h.statements.lines ?_
      rw [withinStatements_eq]
      exact inStatements
  simpa using lines [] rfl

end

end ClassLang
