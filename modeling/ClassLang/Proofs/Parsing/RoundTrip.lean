import ClassLang.Parsing.Programs
import ClassLang.Proofs.Parsing.DeclarationReads
import ClassLang.Proofs.Parsing.Grammar
import ClassLang.Proofs.Syntax.Sameness

/-!
Printing and reading again. A printed expression has parentheses around every operator, so it is read
back without regard to how operators group; an assignment has none and is read back only where a whole
expression may stand. An operator function is printed inside its class, wherever it was put aside, so
that in a program that is read back functions may stand in another order.

* `Source.expression_round_trip`: what was read, printed and read again, is the same expression.
* `Expr.reprints_iff`: which expressions are read back.
* `Source.program_round_trip`: a program whose expressions are read back is read back, up to the order
  of its functions.
-/

namespace ClassLang

open Ink

theorem ParserState.start_kinds {tokens : List Token} {source : Span} {kinds : List TokenKind}
    (h : tokens.map Token.kind = kinds ++ [.eof]) :
    (ParserState.start tokens source).kinds = kinds ++ [.eof] := by
  have last : tokens.getLast?.map Token.kind = some .eof := by
    rw [← List.getLast?_map, h, List.getLast?_concat]
  rw [ParserState.kinds, ParserState.start, Cursor.ofTokens_tokens, endTokens]
  cases ended : tokens.getLast? with
  | none =>
    rw [ended] at last
    cases last
  | some token =>
    rw [ended, Option.map_some, Option.some.injEq] at last
    dsimp only
    rw [if_pos last]
    exact h

/-- Of a text that falls into the tokens of something, this is read. -/
theorem Source.parse_of_reads {α : Type} {p : Parser α} {source : Source} {kinds : List TokenKind}
    {good : α → Prop} (lexes : Lexes source.chars kinds)
    (reads : ∀ s : ParserState, s.kinds = kinds ++ [.eof] → s.shelf = ([], []) →
      ∃ a t, p .global s = (.ok a, t) ∧ t.kinds = [.eof] ∧ good a) :
    ∃ a, source.parse p = .ok a ∧ good a := by
  obtain ⟨tokens, lexed, kinds⟩ := lexes.tokens
  obtain ⟨a, t, run, left, holds⟩ := reads _ (ParserState.start_kinds kinds) rfl
  have ended : t.cursor.isAtEnd = true := by
    rw [Cursor.isAtEnd, (Parser.kinds_cons left).1]
    rfl
  exact ⟨a, Source.parse_eq_ok.2 ⟨tokens, t, lexed, run, ended⟩, holds⟩

/-! ## Marks that are not printed -/

/-- Not the mark of a compound assignment. -/
def TokenKind.isPlain : TokenKind → Bool
  | .punct p => p.compoundOp?.isNone
  | _ => true

namespace Ink

/-- Whether no mark of a compound assignment is printed. -/
def plain (inks : List Ink) : Bool := (tokensOf inks).all TokenKind.isPlain

@[simp] theorem plain_nil : plain [] = true := rfl

@[simp] theorem plain_token (kind : TokenKind) (rest : List Ink) :
    plain (token kind :: rest) = (kind.isPlain && plain rest) := rfl

@[simp] theorem plain_mark (p : Punct) (rest : List Ink) :
    plain (mark p :: rest) = (p.compoundOp?.isNone && plain rest) := rfl

@[simp] theorem plain_word (k : Keyword) (rest : List Ink) :
    plain (word k :: rest) = plain rest := rfl

@[simp] theorem plain_name (n : String) (rest : List Ink) :
    plain (name n :: rest) = plain rest := rfl

@[simp] theorem plain_space (rest : List Ink) : plain (space :: rest) = plain rest := rfl

@[simp] theorem plain_append (front back : List Ink) :
    plain (front ++ back) = (plain front && plain back) := by
  rw [plain, tokensOf_append, List.all_append]
  rfl

theorem plain_commas {items : List (List Ink)} (h : ∀ item ∈ items, plain item = true) :
    plain (commas items) = true := by
  induction items using commas.induct with
  | case1 => rfl
  | case2 item => exact h item (List.mem_singleton_self item)
  | case3 item rest more ih =>
    obtain ⟨first, others⟩ := List.forall_mem_cons.1 h
    rw [commas.eq_3 item rest more, plain_append, first]
    exact ih others

theorem plain_enclosed {opening closing : Punct} {items : List (List Ink)}
    (first : opening.compoundOp? = none) (last : closing.compoundOp? = none)
    (h : ∀ item ∈ items, plain item = true) : plain (enclosed opening closing items) = true := by
  simp [enclosed, first, last, plain_commas h]

end Ink

theorem BinaryOp.token_plain (op : BinaryOp) : op.token.isPlain = true := by cases op <;> rfl

theorem UnaryOp.token_plain (op : UnaryOp) : op.token.isPlain = true := by cases op <;> rfl

theorem Literal.token_plain (value : Literal) : value.token.isPlain = true := by
  cases value with
  | bool b => cases b <;> rfl
  | _ => rfl

theorem TypeRef.modifierInk_plain (m : Modifiers) : plain (modifierInk m) = true := by
  obtain ⟨const, reference, nullable⟩ := m
  cases const <;> cases reference <;> cases nullable <;> rfl

mutual

theorem TypeRef.ink_plain : ∀ t : TypeRef, plain t.ink = true
  | .primitive .. | .named .. | .void .. => by simp [TypeRef.ink, TypeRef.modifierInk_plain]
  | .array _ _ args | .keymap _ _ args | .generic _ _ _ args => by
    simp only [TypeRef.ink, plain_append, TypeRef.modifierInk_plain, plain_word, plain_name,
      Bool.true_and]
    exact plain_enclosed rfl rfl (TypeRef.inkAll_plain args)

theorem TypeRef.inkAll_plain : ∀ types : List TypeRef,
    ∀ item ∈ TypeRef.inkAll types, plain item = true
  | [] => List.forall_mem_nil _
  | t :: rest => List.forall_mem_cons.2 ⟨t.ink_plain, TypeRef.inkAll_plain rest⟩

end

namespace Expr

mutual

theorem ink_plain : ∀ e : Expr, plain e.ink = true
  | ident .. | this _ => rfl
  | literal _ value => by simp [ink, value.token_plain]
  | list _ elems => plain_enclosed rfl rfl (inkAll_plain elems)
  | keymap _ pairs => plain_enclosed rfl rfl (inkPairs_plain pairs)
  | binary _ op lhs rhs => by
    simp [ink, lhs.ink_plain, rhs.ink_plain, op.token_plain, Punct.compoundOp?]
  | unary _ op operand => by
    have separated : plain (if op.isWord then [space] else []) = true := by cases op <;> rfl
    simp [ink, operand.ink_plain, op.token_plain, separated, Punct.compoundOp?]
  | new _ type => by simp [ink, type.ink_plain, Punct.compoundOp?]
  | member _ target access _ => by
    have selects : access.punct.compoundOp? = none := by cases access <;> rfl
    simp [ink, target.ink_plain, selects]
  | index _ target i => by simp [ink, target.ink_plain, i.ink_plain, Punct.compoundOp?]
  | call _ callee args => by
    rw [ink, plain_append, callee.ink_plain, Bool.true_and]
    exact plain_enclosed rfl rfl (inkAll_plain args)
  | assign _ kind target value => by
    have stores : kind.punct.compoundOp? = none := by cases kind <;> rfl
    simp [ink, target.ink_plain, value.ink_plain, stores]

theorem inkAll_plain : ∀ es : List Expr, ∀ item ∈ inkAll es, plain item = true
  | [] => List.forall_mem_nil _
  | e :: rest => List.forall_mem_cons.2 ⟨e.ink_plain, inkAll_plain rest⟩

theorem inkPairs_plain : ∀ pairs : List KeymapPair, ∀ item ∈ inkPairs pairs, plain item = true
  | [] => List.forall_mem_nil _
  | .mk _ key value :: rest => by
    refine List.forall_mem_cons.2 ⟨?_, inkPairs_plain rest⟩
    simp [key.ink_plain, value.ink_plain, Punct.compoundOp?]

end

theorem assignsAtRoot_of_free {e : Expr} (free : e.assignFree = true) : e.assignsAtRoot = true := by
  have operation : e.isAssignment = false := by
    cases e with
    | assign => cases free
    | _ => rfl
  rw [assignsAtRoot_of_operation operation]
  exact free

end Expr

/-- No mark of a compound assignment is left. -/
def ParserState.Plain (s : ParserState) : Prop :=
  ∀ token ∈ s.cursor.tokens, token.kind.isPlain = true

namespace Parser

variable {α : Type} {aside : Bool}

theorem Composed.plain {p : Parser α} (h : Composed aside p) {s t : ParserState} {a : α}
    (run : p.run s = (.ok a, t)) (plain : s.Plain) : t.Plain := by
  have left := h.suffix s
  rw [run] at left
  exact fun token listed => plain token (left.subset listed)

theorem takePunctOf?_some {marks : List Punct} {mark : Punct} {span : Span} {s t : ParserState}
    (run : (takePunctOf? marks).run s = (.ok (some (mark, span)), t)) :
    s.cursor.current.kind = .punct mark := by
  obtain ⟨kind, _, look, run⟩ := bind_eq_ok.1 run
  cases look
  split at run
  · next found =>
    split at run
    · obtain ⟨token, _, _, run⟩ := bind_eq_ok.1 run
      cases run
      exact found
    · cases run
  · cases run

/-- Where no mark of a compound assignment is left, assignments are read at the root only. -/
def AssignsAtRoot (expr : Parser Expr) : Prop :=
  Ensures expr ParserState.Plain fun e _ => e.assignsAtRoot = true

theorem assignment_assignsAtRoot {expr : Parser Expr} (careful : Careful expr) (h : AssignsAtRoot expr) :
    AssignsAtRoot (assignment expr) := by
  intro s e t run plain
  unfold assignment at run
  obtain ⟨target, between, first, run⟩ := bind_eq_ok.1 run
  have free : target.assignFree = true := careful.target s _ _ first trivial
  replace plain := (operation_composed (inside_composed careful.composed)).plain first plain
  obtain ⟨found, behind, second, run⟩ := bind_eq_ok.1 run
  cases found with
  | none =>
    cases run
    exact Expr.assignsAtRoot_of_free free
  | some found =>
    obtain ⟨mark, span⟩ := found
    have simple : mark.compoundOp? = none := by
      have here := plain between.cursor.current (List.mem_cons_self ..)
      rw [takePunctOf?_some second] at here
      exact Option.isNone_iff_eq_none.1 here
    replace plain := (@takePunctOf?_composed false _).plain second plain
    obtain ⟨_, _, look, run⟩ := bind_eq_ok.1 run
    cases look
    split at run
    · cases run
    split at run
    · cases run
    obtain ⟨value, after, third, run⟩ := bind_eq_ok.1 run
    have root : value.assignsAtRoot = true := h _ _ _ third plain
    rw [storedValue, simple] at run
    cases run
    exact Bool.and_eq_true_iff.2 ⟨free, root⟩

theorem expression_assignsAtRoot : AssignsAtRoot expression := by
  intro s e t run
  rw [expression, recursive_run] at run
  have all (n : Nat) : Careful (iterate assignment n) ∧ AssignsAtRoot (iterate assignment n) :=
    @iterate_induction _ (fun p => Careful p ∧ AssignsAtRoot p) _ ⟨⟨.fail _, .fail, .fail⟩, .fail⟩
      (fun _ h => ⟨assignment_careful h.1, assignment_assignsAtRoot h.1 h.2⟩) n
  exact (all _).2 s e t run

end Parser

/-! ## What a printed expression says -/

namespace Ink

@[simp] theorem chars_cons (i : Ink) (rest : List Ink) :
    chars (i :: rest) = i.text.toList ++ chars rest := List.flatMap_cons ..

@[simp] theorem chars_append (front back : List Ink) :
    chars (front ++ back) = chars front ++ chars back := List.flatMap_append ..

theorem chars_commas : ∀ {items items' : List (List Ink)},
    items.map chars = items'.map chars → chars (commas items) = chars (commas items')
  | [], [], _ => rfl
  | [_], [_], h => (List.cons.inj h).1
  | item :: next :: rest, item' :: next' :: rest', h => by
    obtain ⟨first, others⟩ := List.cons.inj h
    have separated (item next : List Ink) (rest : List (List Ink)) :
        commas (item :: next :: rest) = item ++ ([mark .comma, space] ++ commas (next :: rest)) :=
      rfl
    rw [separated, separated, chars_append, chars_append, chars_append, chars_append, first,
      chars_commas others]
  | [_], _ :: _ :: _, h | _ :: _ :: _, [_], h => by simp at h

theorem chars_enclosed (opening closing : Punct) {items items' : List (List Ink)}
    (h : items.map chars = items'.map chars) :
    chars (enclosed opening closing items) = chars (enclosed opening closing items') := by
  simp [enclosed, chars_commas h]

end Ink

namespace Expr

mutual

/-- The expression with a name in place of each number that is not finite: the text of such a number
is a word. -/
def spelled : Expr → Expr
  | ident n name => ident n name
  | this n => this n
  | literal n value => if value.isFinite then literal n value else ident n ⟨value.text, n.span⟩
  | list n elems => list n (spelledAll elems)
  | keymap n pairs => keymap n (spelledPairs pairs)
  | binary n op lhs rhs => binary n op lhs.spelled rhs.spelled
  | unary n op operand => unary n op operand.spelled
  | new n type => new n type
  | member n target access name => member n target.spelled access name
  | index n target i => index n target.spelled i.spelled
  | call n callee args => call n callee.spelled (spelledAll args)
  | assign n kind target value => assign n kind target.spelled value.spelled

/-- Some expressions with names in place of the numbers that are not finite. -/
def spelledAll : List Expr → List Expr
  | [] => []
  | e :: rest => e.spelled :: spelledAll rest

/-- Some pairs with names in place of the numbers that are not finite. -/
def spelledPairs : List KeymapPair → List KeymapPair
  | [] => []
  | .mk n key value :: rest => .mk n key.spelled value.spelled :: spelledPairs rest

end

theorem literal_text_name {value : Literal} (infinite : value.isFinite = false) :
    isName value.text = true := by
  have words : isName "inf" = true ∧ isName "infi" = true := by decide
  cases value with
  | float v =>
    cases v with
    | finite => cases infinite
    | infinite => exact words.1
  | imaginary v =>
    cases v with
    | finite => cases infinite
    | infinite => exact words.2
  | _ => cases infinite

mutual

theorem chars_spelled : ∀ e : Expr, chars e.spelled.ink = chars e.ink
  | ident .. | this _ | new .. => rfl
  | literal _ value => by
    rw [spelled]
    split
    · rfl
    · change value.text.toList ++ [] = value.token.spelling.toList ++ []
      rw [value.spelling_token]
  | list _ elems => chars_enclosed _ _ (chars_spelledAll elems)
  | keymap _ pairs => chars_enclosed _ _ (chars_spelledPairs pairs)
  | binary _ _ lhs rhs => by simp [spelled, ink, lhs.chars_spelled, rhs.chars_spelled]
  | unary _ _ operand => by simp [spelled, ink, operand.chars_spelled]
  | member _ target _ _ => by simp [spelled, ink, target.chars_spelled]
  | index _ target i => by simp [spelled, ink, target.chars_spelled, i.chars_spelled]
  | call _ callee args => by
    simp [spelled, ink, callee.chars_spelled, chars_enclosed _ _ (chars_spelledAll args)]
  | assign _ _ target value => by simp [spelled, ink, target.chars_spelled, value.chars_spelled]

theorem chars_spelledAll : ∀ es : List Expr,
    (inkAll (spelledAll es)).map chars = (inkAll es).map chars
  | [] => rfl
  | e :: rest => congrArg₂ List.cons e.chars_spelled (chars_spelledAll rest)

theorem chars_spelledPairs : ∀ pairs : List KeymapPair,
    (inkPairs (spelledPairs pairs)).map chars = (inkPairs pairs).map chars
  | [] => rfl
  | .mk _ key value :: rest => by
    simp [spelledPairs, inkPairs, key.chars_spelled, value.chars_spelled, chars_spelledPairs rest]

end

mutual

theorem all_spelled {before after : Expr → Bool}
    (h : ∀ e, before e = true → after e.spelled = true) :
    ∀ e : Expr, e.all before = true → e.spelled.all after = true
  | ident n name, holds => h (ident n name) holds
  | this n, holds => h (this n) holds
  | new n type, holds => h (new n type) holds
  | literal n value, holds => by
    have here := h (literal n value) holds
    rw [spelled] at here ⊢
    split at here
    · rwa [if_pos ‹_›]
    · rwa [if_neg ‹_›]
  | list n elems, holds => by
    simp only [all, Bool.and_eq_true] at holds
    exact Bool.and_eq_true_iff.2 ⟨h _ holds.1, allOf_spelled h elems holds.2⟩
  | keymap n pairs, holds => by
    simp only [all, Bool.and_eq_true] at holds
    exact Bool.and_eq_true_iff.2 ⟨h _ holds.1, allPairs_spelled h pairs holds.2⟩
  | binary n op lhs rhs, holds => by
    simp only [all, Bool.and_eq_true] at holds
    simp only [spelled, all, Bool.and_eq_true]
    exact ⟨⟨h _ holds.1.1, all_spelled h lhs holds.1.2⟩, all_spelled h rhs holds.2⟩
  | unary n op operand, holds => by
    simp only [all, Bool.and_eq_true] at holds
    exact Bool.and_eq_true_iff.2 ⟨h _ holds.1, all_spelled h operand holds.2⟩
  | member n target access name, holds => by
    simp only [all, Bool.and_eq_true] at holds
    exact Bool.and_eq_true_iff.2 ⟨h _ holds.1, all_spelled h target holds.2⟩
  | index n target i, holds => by
    simp only [all, Bool.and_eq_true] at holds
    simp only [spelled, all, Bool.and_eq_true]
    exact ⟨⟨h _ holds.1.1, all_spelled h target holds.1.2⟩, all_spelled h i holds.2⟩
  | call n callee args, holds => by
    simp only [all, Bool.and_eq_true] at holds
    simp only [spelled, all, Bool.and_eq_true]
    exact ⟨⟨h _ holds.1.1, all_spelled h callee holds.1.2⟩, allOf_spelled h args holds.2⟩
  | assign n kind target value, holds => by
    simp only [all, Bool.and_eq_true] at holds
    simp only [spelled, all, Bool.and_eq_true]
    exact ⟨⟨h _ holds.1.1, all_spelled h target holds.1.2⟩, all_spelled h value holds.2⟩

theorem allOf_spelled {before after : Expr → Bool}
    (h : ∀ e, before e = true → after e.spelled = true) :
    ∀ es : List Expr, allOf before es = true → allOf after (spelledAll es) = true
  | [], _ => rfl
  | e :: rest, holds => by
    rw [allOf, Bool.and_eq_true] at holds
    exact Bool.and_eq_true_iff.2 ⟨all_spelled h e holds.1, allOf_spelled h rest holds.2⟩

theorem allPairs_spelled {before after : Expr → Bool}
    (h : ∀ e, before e = true → after e.spelled = true) :
    ∀ pairs : List KeymapPair, allPairs before pairs = true →
      allPairs after (spelledPairs pairs) = true
  | [], _ => rfl
  | .mk _ key value :: rest, holds => by
    simp only [allPairs, Bool.and_eq_true] at holds
    simp only [spelledPairs, allPairs, Bool.and_eq_true]
    exact ⟨⟨all_spelled h key holds.1.1, all_spelled h value holds.1.2⟩,
      allPairs_spelled h rest holds.2⟩

end

theorem isAssignable_spelled {e : Expr} (h : e.isAssignable = true) :
    e.spelled.isAssignable = true := by
  cases e with
  | ident | member | index => rfl
  | _ => cases h

/-- The spelled expression is sound, and its numbers are finite. -/
theorem spelled_sound {e : Expr} (sound : e.isSound = true) :
    (e.spelled.all fun e => e.soundHere && e.finiteHere) = true := by
  refine all_spelled (fun e here => ?_) e sound
  cases e with
  | literal n value =>
    rw [spelled]
    split
    · next finite => exact Bool.and_eq_true_iff.2 ⟨here, finite⟩
    · next infinite =>
      exact Bool.and_eq_true_iff.2 ⟨literal_text_name (Bool.eq_false_iff.2 infinite), rfl⟩
  | assign n kind target value =>
    exact Bool.and_eq_true_iff.2 ⟨isAssignable_spelled here, rfl⟩
  | _ => exact Bool.and_eq_true_iff.2 ⟨here, rfl⟩

theorem assignFree_spelled {e : Expr} (free : e.assignFree = true) :
    e.spelled.assignFree = true := by
  refine all_spelled (fun e here => ?_) e free
  cases e with
  | literal n value =>
    rw [spelled]
    split <;> rfl
  | assign => cases here
  | _ => rfl

theorem assignsAtRoot_spelled {e : Expr} (root : e.assignsAtRoot = true) :
    e.spelled.assignsAtRoot = true := by
  induction e using assignsAtRoot.induct with
  | case1 n kind target value ih =>
    obtain ⟨first, second⟩ := Bool.and_eq_true_iff.1 root
    exact Bool.and_eq_true_iff.2 ⟨assignFree_spelled first, ih second⟩
  | case2 e other =>
    have operation : e.isAssignment = false := by
      cases e <;> first | rfl | exact absurd rfl (other _ _ _ _)
    rw [assignsAtRoot_of_operation operation] at root
    exact assignsAtRoot_of_free (assignFree_spelled root)

/-! ## Expressions that are read back -/

/-- What is read back of the printed expression is the same expression. -/
def Reprints (path : Option String) (e : Expr) : Prop :=
  ∃ e', (⟨e.text, path⟩ : Source).parse Parser.expression = .ok e' ∧ e.same e' = true

theorem reprints_of_finite {e : Expr} (path : Option String) (sound : e.isSound = true)
    (finite : e.isFinite = true) (root : e.assignsAtRoot = true) : e.Reprints path := by
  have both : (e.all fun e => e.soundHere && e.finiteHere) = true := by
    rw [all_and]
    exact Bool.and_eq_true_iff.2 ⟨sound, finite⟩
  have lexes : Lexes (⟨e.text, path⟩ : Source).chars (tokensOf e.ink) := ink_lexes both
  refine Source.parse_of_reads lexes fun s kinds _ => ?_
  obtain ⟨e', t, run, left, -, same⟩ :=
    Parser.expression_reads sound root Parser.endsExpression_eof
      (show Context.global.inExpression = false from rfl) s kinds
  exact ⟨e', t, run, left, same⟩

theorem assignsAtRoot_of_same {a b : Expr} (h : a.same b = true) (root : b.assignsAtRoot = true) :
    a.assignsAtRoot = true := by
  have alike : ∀ a b : Expr, a.same b = true → (!a.isAssignment) = !b.isAssignment := by
    intro a b h
    cases a <;> cases b <;> first | rfl | cases h
  induction a using assignsAtRoot.induct generalizing b with
  | case1 n kind target value ih =>
    cases b with
    | assign =>
      simp only [same, Bool.and_eq_true] at h
      obtain ⟨first, second⟩ := Bool.and_eq_true_iff.1 root
      exact Bool.and_eq_true_iff.2 ⟨(all_of_same alike h.1.2).trans first, ih h.2 second⟩
    | _ => cases h
  | case2 a other =>
    have operation : a.isAssignment = false := by
      cases a <;> first | rfl | exact absurd rfl (other _ _ _ _)
    have operation' : b.isAssignment = false := by
      have kinds := alike a b h
      rw [operation] at kinds
      simpa using kinds.symm
    rw [assignsAtRoot_of_operation operation'] at root
    rw [assignsAtRoot_of_operation operation, all_of_same alike h, root]

theorem isFinite_of_same {a b : Expr} (h : a.same b = true) : a.isFinite = b.isFinite := by
  refine all_of_same (fun a b h => ?_) h
  cases a with
  | literal n value =>
    cases b with
    | literal n' value' =>
      have equal : value = value' := eq_of_beq h
      rw [finiteHere, finiteHere, equal]
    | _ => cases h
  | _ => cases b <;> first | rfl | cases h

theorem spelled_text (e : Expr) : e.spelled.text = e.text := by
  refine String.toList_injective ?_
  rw [text, text, textOf_chars, textOf_chars, chars_spelled]

/-- An expression is read back if its numbers are finite and no assignment is in an operation. -/
theorem reprints_iff {e : Expr} (path : Option String) (sound : e.isSound = true) :
    e.Reprints path ↔ e.isFinite = true ∧ e.assignsAtRoot = true := by
  refine ⟨fun ⟨e', parsed, same⟩ => ?_, fun ⟨finite, root⟩ =>
    reprints_of_finite path sound finite root⟩
  have both := spelled_sound sound
  have lexes : Lexes (⟨e.spelled.text, path⟩ : Source).chars (tokensOf e.spelled.ink) :=
    ink_lexes both
  rw [all_and, Bool.and_eq_true] at both
  rw [spelled_text] at lexes
  have root : e.assignsAtRoot = true := by
    obtain ⟨tokens, s, lexed, run, -⟩ := Source.parse_eq_ok.1 parsed
    obtain ⟨tokens', lexed', kinds⟩ := lexes.tokens
    cases lexed.symm.trans lexed'
    refine assignsAtRoot_of_same same (Parser.expression_assignsAtRoot _ _ _ run fun token listed => ?_)
    have kind : token.kind ∈ tokensOf e.spelled.ink ++ [.eof] := by
      rw [← ParserState.start_kinds kinds]
      exact List.mem_map_of_mem listed
    obtain printed | final := List.mem_append.1 kind
    · exact List.all_eq_true.1 e.spelled.ink_plain _ printed
    · rw [List.mem_singleton.1 final]
      rfl
  obtain ⟨e'', parsed', same'⟩ :=
    reprints_of_finite path both.1 both.2 (assignsAtRoot_spelled root)
  rw [spelled_text, parsed, Except.ok.injEq] at parsed'
  subst parsed'
  exact ⟨(isFinite_of_same ((same_right same' e).trans same)).trans both.2, root⟩

end Expr

theorem Source.expression_round_trip {source : Source} {e : Expr} (path : Option String)
    (parsed : source.parse Parser.expression = .ok e) (finite : e.all Expr.finiteHere = true)
    (root : e.assignsAtRoot = true) :
    ∃ e', (⟨e.text, path⟩ : Source).parse Parser.expression = .ok e' ∧ e.same e' = true :=
  Expr.reprints_of_finite path (Source.expression_sound parsed) finite root

-- Selections, a chain of comparisons and an allocation under two assignments.
theorem assigned_chain_round_trip :
    ∃ e e', (⟨"m[f(\"x\\n\", 2.5e-3, 3i)].c := d = -x ** 2 < y <= (new Box[const A[]]).v", none⟩ :
        Source).parse Parser.expression = .ok e ∧
      (⟨e.text, none⟩ : Source).parse Parser.expression = .ok e' ∧ e.same e' = true := by
  have read : ((⟨"m[f(\"x\\n\", 2.5e-3, 3i)].c := d = -x ** 2 < y <= (new Box[const A[]]).v", none⟩ :
      Source).parse Parser.expression).toOption.map
        (fun e => e.all Expr.finiteHere && e.assignsAtRoot) = some true := by
    decide +kernel
  obtain ⟨e, parsed, holds⟩ := Option.map_eq_some_iff.1 read
  obtain ⟨finite, root⟩ := Bool.and_eq_true_iff.1 holds
  have h := ok_of_toOption parsed
  obtain ⟨e', parsed', same⟩ := Source.expression_round_trip none h finite root
  exact ⟨e, e', h, parsed', same⟩

-- The value of a compound assignment is an operation, and an assignment in it is not read back.
example : ((⟨"b += c = 2", none⟩ : Source).parse Parser.expression).toOption.map
      (fun e => (e.text, e.assignsAtRoot)) = some ("b := (b + c = 2)", false) ∧
    ((⟨"b := (b + c = 2)", none⟩ : Source).parse Parser.expression).toOption.isNone = true := by
  decide +kernel

/-! ## Programs -/

/-- Items that belong to one of some owners, owner by owner: no item belongs to two of them. -/
theorem flatMap_filter_perm {ι κ : Type} {owned : κ → ι → Bool} (items : List ι) :
    ∀ {owners : List κ}, owners.Pairwise (fun a b => ∀ i, owned a i = true → owned b i = false) →
      (owners.flatMap fun a => items.filter (owned a)).Perm
        (items.filter fun i => owners.any (owned · i))
  | [], _ => by simp
  | a :: rest, apart => by
    obtain ⟨first, others⟩ := List.pairwise_cons.1 apart
    have both := List.filter_append_perm (owned a) (items.filter fun i => (a :: rest).any (owned · i))
    have own : (items.filter fun i => (a :: rest).any (owned · i)).filter (owned a) =
        items.filter (owned a) := by
      rw [List.filter_filter]
      refine List.filter_congr fun i _ => ?_
      cases holds : owned a i <;> simp [holds]
    have rest_ : (items.filter fun i => (a :: rest).any (owned · i)).filter (fun i => !owned a i) =
        items.filter fun i => rest.any (owned · i) := by
      rw [List.filter_filter]
      refine List.filter_congr fun i _ => ?_
      cases holds : owned a i with
      | false => simp [holds]
      | true =>
        have none_ : rest.any (owned · i) = false :=
          List.any_eq_false.2 fun b listed => by simp [first b listed i holds]
        simp [none_]
    rw [own, rest_] at both
    rw [List.flatMap_cons]
    exact ((flatMap_filter_perm items others).append_left _).trans both

/-- If no two classes have one name, printing moves functions and neither loses nor repeats any. -/
theorem Program.Grammatical.regrouped_perm {p : Program} (h : p.Grammatical)
    (distinct : (p.classes.map fun c => c.name.name).Nodup) :
    p.regrouped.functions.Perm p.functions := by
  have apart : p.classes.Pairwise fun a b => ∀ f : Function,
      f.owner.any (fun owner => owner.same a.name) = true →
        f.owner.any (fun owner => owner.same b.name) = false := by
    refine (List.pairwise_map.1 distinct).imp fun {a b} other f owned => ?_
    cases owner : f.owner with
    | none => rfl
    | some name =>
      rw [owner, Option.any_some] at owned
      have same : name.name = a.name.name := eq_of_beq owned
      rw [Option.any_some, Ident.same, same]
      exact beq_false_of_ne other
  have owned : (p.functions.filter fun f =>
      p.classes.any fun c => f.owner.any fun owner => owner.same c.name) =
        p.functions.filter fun f => f.owner.isSome := by
    refine List.filter_congr fun f listed => ?_
    cases owner : f.owner with
    | none => simp
    | some name =>
      obtain ⟨c, known, rfl⟩ := List.mem_map.1 (h.owners f listed name owner)
      exact List.any_eq_true.2 ⟨c, known, c.name.same_refl⟩
  have grouped := flatMap_filter_perm p.functions apart
  rw [owned] at grouped
  have both := List.filter_append_perm (fun f : Function => f.owner.isSome) p.functions
  simp only [Option.not_isSome] at both
  exact (grouped.append_right _).trans both

theorem Source.program_round_trip {source : Source} {p : Program} (path : Option String)
    (parsed : source.parse Parser.program = .ok p) (reprints : ∀ e ∈ p.wholes, e.Reprints path)
    (braceless : ∀ r ∈ p.within, r.opensBrace = false) :
    ∃ p', (⟨p.text, path⟩ : Source).parse Parser.program = .ok p' ∧ p.regrouped.same p' = true ∧
      (p.same p' = true ↔ sameBy Function.same p.functions p.regrouped.functions = true) ∧
      ((p.classes.map fun c => c.name.name).Nodup → p.regrouped.functions.Perm p.functions) := by
  have grammatical := Source.program_grammatical parsed
  have readable (e : Expr) (listed : e ∈ p.wholes) : e.isFinite = true ∧ e.assignsAtRoot = true :=
    (Expr.reprints_iff path (grammatical.sound e listed)).1 (reprints e listed)
  have replays : ∀ r ∈ p.within, Statement.Replays r := by
    refine fun r inside => ⟨braceless r inside, fun n e eq => (readable e ?_).2⟩
    subst eq
    exact List.mem_append_right _ (List.mem_flatMap.2 ⟨_, inside, List.mem_singleton_self e⟩)
  have lexes : Lexes (⟨p.text, path⟩ : Source).chars (Ink.tokensOf p.ink) := by
    rw [Source.chars, Program.text, textOf_chars]
    exact lexes_of_apart (grammatical.apart fun e listed => (readable e listed).1)
  obtain ⟨p', parsed', same⟩ := Source.parse_of_reads lexes fun s kinds empty =>
    Parser.program_reads grammatical replays kinds empty
  refine ⟨p', parsed', same, ?_, grammatical.regrouped_perm⟩
  simp only [Program.same, Bool.and_eq_true] at same ⊢
  obtain ⟨⟨classes, functions⟩, statements⟩ := same
  rw [← sameBy_right Function.same_right functions]
  exact ⟨fun h => h.1.2, fun h => ⟨⟨classes, h⟩, statements⟩⟩

/-- A class with operators between functions, and a class inside it. -/
def scatteredOperators : Source :=
  ⟨"void f() \x7b while (x) \x7b break; \x7d \x7d class B \x7b B operator +(B a, B b) \x7b return a; \x7d " ++
    "class A \x7b A operator -(A a) \x7b if (x) \x7b \x7d else \x7b x := y = 2.5; \x7d return a; \x7d \x7d \x7d f();",
    none⟩

theorem scatteredOperators_round_trip :
    ∃ p p', scatteredOperators.parse Parser.program = .ok p ∧
      (⟨p.text, none⟩ : Source).parse Parser.program = .ok p' ∧ p.regrouped.same p' = true ∧
      p.same p' = false ∧ p.regrouped.functions.Perm p.functions := by
  have read : (scatteredOperators.parse Parser.program).toOption.map (fun p =>
        (p.wholes.all fun e => e.isFinite && e.assignsAtRoot) &&
        p.within.all (fun r => !r.opensBrace) && !sameBy Function.same p.functions p.regrouped.functions &&
        decide (p.classes.map fun c => c.name.name).Nodup) = some true := by
    decide +kernel
  obtain ⟨p, parsed, holds⟩ := Option.map_eq_some_iff.1 read
  simp only [Bool.and_eq_true, List.all_eq_true, Bool.not_eq_true', decide_eq_true_eq] at holds
  obtain ⟨⟨⟨finite, braceless⟩, moved⟩, distinct⟩ := holds
  have h := ok_of_toOption parsed
  have sound := (Source.program_grammatical h).sound
  have reprints : ∀ e ∈ p.wholes, e.Reprints none := fun e listed =>
    (Expr.reprints_iff none (sound e listed)).2 (finite e listed)
  obtain ⟨p', parsed', same, inOrder, perm⟩ :=
    Source.program_round_trip none h reprints braceless
  refine ⟨p, p', h, parsed', same, ?_, perm distinct⟩
  rw [Bool.eq_false_iff]
  intro equal
  rw [inOrder.1 equal] at moved
  cases moved

-- A statement that begins with a keymap is printed without the parentheses around it, and a brace in
-- front of a statement opens a block.
example : ((⟨"(\x7b1: 2\x7d)[1] := 3;", none⟩ : Source).parse Parser.program).toOption.map
      (fun p => (p.text, ((⟨p.text, none⟩ : Source).parse Parser.program).toOption.isNone)) =
    some ("\x7b1: 2\x7d[1] := 3;\n", true) := by
  decide +kernel

end ClassLang
