import ClassLang.Proofs.Parsing.Runs
import ClassLang.Syntax.Ink
import Mathlib.Data.List.Forall2

/-!
Runs of parsers that must succeed. `Reads c p before after good` says that in front of tokens of the
kinds `before` the parser comes to a good result, leaves those of the kinds `after`, stays in the
context `c` and puts nothing aside. `Declares` says the same of a parser that puts declarations aside,
and what these are. What a parser does depends on the kinds of the tokens only, so nothing is said of
their places.

* `Declares.loop_items`: a loop reads the items of a list one after the other.
-/

namespace ClassLang

/-- The kinds of the tokens that are left. -/
def ParserState.kinds (s : ParserState) : List TokenKind := s.cursor.tokens.map Token.kind

/-- The classes and functions that have been put aside. -/
def ParserState.shelf (s : ParserState) : List Class × List Function := (s.classes, s.functions)

namespace Parser

variable {α β σ : Type} {c : Context} {before middle after : List TokenKind}

def Reads (c : Context) (p : Parser α) (before after : List TokenKind) (good : α → Prop) : Prop :=
  ∀ s, s.kinds = before →
    ∃ a t, p c s = (.ok a, t) ∧ t.kinds = after ∧ (t.context = c ∧ t.shelf = s.shelf) ∧ good a

namespace Reads

variable {good : α → Prop} {final : β → Prop}

theorem pure {a : α} (h : good a) : Reads c (Pure.pure a : Parser α) after after good :=
  fun s kinds => ⟨a, { s with context := c }, rfl, kinds, ⟨rfl, rfl⟩, h⟩

theorem bind {p : Parser α} {f : α → Parser β} (hp : Reads c p before middle good)
    (hf : ∀ a, good a → Reads c (f a) middle after final) :
    Reads c (p >>= f) before after final := by
  intro s kinds
  obtain ⟨a, t, run, between, ⟨stays, kept⟩, holds⟩ := hp s kinds
  obtain ⟨b, u, run', left, ⟨stays', kept'⟩, result⟩ := hf a holds t between
  have here : { t with context := c } = t := by rw [← stays]
  rw [runIn, here] at run'
  exact ⟨b, u, (bind_of_ok run).trans run', left, ⟨stays', kept'.trans kept⟩, result⟩

theorem mono {p : Parser α} {better : α → Prop} (hp : Reads c p before after better)
    (h : ∀ a, better a → good a) : Reads c p before after good := by
  intro s kinds
  obtain ⟨a, t, run, left, kept, holds⟩ := hp s kinds
  exact ⟨a, t, run, left, kept, h a holds⟩

theorem within {p : Parser α} {inner : Context} (h : Reads inner p before after good) :
    Reads c (Parser.within inner p) before after good := by
  intro s kinds
  obtain ⟨a, t, run, left, ⟨-, kept⟩, holds⟩ := h s kinds
  exact ⟨a, { t with context := c }, within_eq_ok.2 ⟨t, run, rfl⟩, left, ⟨rfl, kept⟩, holds⟩

theorem branch_true {p : Parser Bool} {yes no : Parser β}
    (hp : Reads c p before middle (· = true)) (h : Reads c yes middle after final) :
    Reads c (do if ← p then yes else no) before after final := by
  refine bind hp fun b eq => ?_
  rw [eq, if_pos rfl]
  exact h

theorem branch_false {p : Parser Bool} {yes no : Parser β}
    (hp : Reads c p before middle (· = false)) (h : Reads c no middle after final) :
    Reads c (do if ← p then yes else no) before after final := by
  refine bind hp fun b eq => ?_
  rw [eq, if_neg (by simp)]
  exact h

/-- A parser that succeeds and does not move. -/
theorem still {p : Parser α}
    (h : ∀ s, ∃ a t, p c s = (.ok a, t) ∧ t.cursor = s.cursor ∧
      (t.context = c ∧ t.shelf = s.shelf) ∧ good a) :
    Reads c p after after good := by
  intro s kinds
  obtain ⟨a, t, run, same, kept, holds⟩ := h s
  refine ⟨a, t, run, ?_, kept, holds⟩
  rw [ParserState.kinds, same]
  exact kinds

theorem loop_goes (middle : List TokenKind) (next : σ → Prop) {step : σ → Parser (σ ⊕ β)} {x : σ}
    {n : Nat}
    (hstep : Reads c (step x) before middle fun result => ∃ y, result = .inl y ∧ next y)
    (hloop : ∀ y, next y → Reads c (loop step n y) middle after final) :
    Reads c (loop step (n + 1) x) before after final := by
  refine bind hstep fun result goes => ?_
  obtain ⟨y, rfl, holds⟩ := goes
  exact hloop y holds

theorem loop_ends {step : σ → Parser (σ ⊕ β)} {x : σ} {n : Nat}
    (hstep : Reads c (step x) before after fun result => ∃ b, result = .inr b ∧ final b) :
    Reads c (loop step (n + 1) x) before after final := by
  refine bind hstep fun result ends => ?_
  obtain ⟨b, rfl, holds⟩ := ends
  exact pure holds

theorem repeatFrom {step : σ → Parser (σ ⊕ β)} {start : σ}
    (h : ∀ n, before.length ≤ n → Reads c (loop step n start) before after final) :
    Reads c (Parser.repeatFrom start step) before after final := by
  intro s kinds
  rw [runIn, repeatFrom_run]
  refine h (s.cursor.remaining + 1) ?_ s kinds
  rw [← kinds, ParserState.kinds, List.length_map]
  exact Nat.le_refl _

/-- There is fuel for one token at least. -/
theorem iterate {rule : Parser α → Parser α} {n : Nat} (nonempty : before ≠ [])
    (fuel : before.length ≤ n)
    (h : ∀ m, before.length ≤ m + 1 → Reads c (rule (Parser.iterate rule m)) before after good) :
    Reads c (Parser.iterate rule n) before after good := by
  have positive := List.length_pos_of_ne_nil nonempty
  obtain ⟨m, rfl⟩ : ∃ m, n = m + 1 := ⟨n - 1, by omega⟩
  exact h m fuel

theorem recursive {rule : Parser α → Parser α}
    (h : Reads c (Parser.iterate rule before.length) before after good) :
    Reads c (Parser.recursive rule) before after good := by
  intro s kinds
  have fuel : before.length = s.cursor.remaining + 1 := by
    rw [← kinds, ParserState.kinds, List.length_map]
    rfl
  rw [fuel] at h
  rw [runIn, recursive_run]
  exact h s kinds

end Reads

/-! ## Tokens -/

theorem kinds_cons {s : ParserState} {k : TokenKind} {ks : List TokenKind}
    (h : s.kinds = k :: ks) : s.cursor.current.kind = k ∧ s.cursor.later.map Token.kind = ks :=
  List.cons.inj h

variable {k : TokenKind} {ks : List TokenKind}

theorem here_reads : Reads c here ks ks fun _ => True :=
  .still fun _ => ⟨_, _, rfl, rfl, ⟨rfl, rfl⟩, trivial⟩

theorem context_reads : Reads c context ks ks (· = c) :=
  .still fun _ => ⟨_, _, rfl, rfl, ⟨rfl, rfl⟩, rfl⟩

theorem nodeFrom_reads (start : Span) : Reads c (nodeFrom start) ks ks fun _ => True :=
  .still fun _ => ⟨_, _, rfl, rfl, ⟨rfl, rfl⟩, trivial⟩

theorem newNode_reads (span : Span) : Reads c (newNode span) ks ks fun _ => True :=
  .still fun _ => ⟨_, _, rfl, rfl, ⟨rfl, rfl⟩, trivial⟩

theorem freshCopy_reads (e : Expr) : Reads c (freshCopy e) ks ks fun _ => True :=
  .still fun _ => ⟨_, _, rfl, rfl, ⟨rfl, rfl⟩, trivial⟩

theorem kind_reads : Reads c kind (k :: ks) (k :: ks) (· = k) :=
  fun _ kinds => ⟨_, _, rfl, kinds, ⟨rfl, rfl⟩, (kinds_cons kinds).1⟩

theorem peek_reads (wanted : TokenKind) :
    Reads c (peek wanted) (k :: ks) (k :: ks) (· = (k == wanted)) :=
  fun s kinds => ⟨_, { s with context := c }, rfl, kinds, ⟨rfl, rfl⟩,
    by rw [(kinds_cons kinds).1]⟩

theorem atEnd_reads : Reads c atEnd (k :: ks) (k :: ks) (· = (k == .eof)) :=
  peek_reads .eof

theorem bump_reads (ink : k ≠ .eof) (more : ks ≠ []) :
    Reads c bump (k :: ks) ks fun _ => True := by
  intro s kinds
  obtain ⟨current, later⟩ := kinds_cons kinds
  have goes : s.cursor.isAtEnd = false := by
    rw [Cursor.isAtEnd, current]
    simpa using ink
  refine ⟨s.cursor.current,
    { s with cursor := s.cursor.advance, prev := s.cursor.current.span, context := c },
    ?_, ?_, ⟨rfl, rfl⟩, trivial⟩
  · simp only [runIn, bump, goes]
    rfl
  · rw [← later] at more ⊢
    have advanced : s.cursor.advance.tokens = s.cursor.later := by
      unfold Cursor.advance
      rw [if_neg (by simp [goes])]
      cases rest : s.cursor.later with
      | nil => exact absurd (by rw [rest]; rfl) more
      | cons next rest => rfl
    exact congrArg (List.map Token.kind) advanced

theorem take?_present (ink : k ≠ .eof) (more : ks ≠ []) :
    Reads c (take? k) (k :: ks) ks fun span => span.isSome = true := by
  have present : Reads c (peek k) (k :: ks) (k :: ks) (· = true) :=
    .mono (peek_reads k) fun _ eq => by simpa using eq
  exact .branch_true present (.bind (bump_reads ink more) fun _ _ => .pure rfl)

theorem take?_absent {wanted : TokenKind} (other : k ≠ wanted) :
    Reads c (take? wanted) (k :: ks) (k :: ks) (· = none) := by
  have missing : Reads c (peek wanted) (k :: ks) (k :: ks) (· = false) :=
    .mono (peek_reads wanted) fun _ eq => eq.trans (beq_false_of_ne other)
  exact .branch_false missing (.pure rfl)

theorem accept_present {p : Punct} (more : ks ≠ []) :
    Reads c (accept p) (.punct p :: ks) ks (· = true) :=
  .bind (take?_present (by simp) more) fun _ found => .pure found

theorem accept_absent {p : Punct} (other : k ≠ .punct p) :
    Reads c (accept p) (k :: ks) (k :: ks) (· = false) :=
  .bind (take?_absent other) fun _ none_ => .pure (by rw [none_]; rfl)

theorem acceptKeyword_present {word : Keyword} (more : ks ≠ []) :
    Reads c (acceptKeyword word) (.keyword word :: ks) ks (· = true) :=
  .bind (take?_present (by simp) more) fun _ found => .pure found

theorem acceptKeyword_absent {word : Keyword} (other : k ≠ .keyword word) :
    Reads c (acceptKeyword word) (k :: ks) (k :: ks) (· = false) :=
  .bind (take?_absent other) fun _ none_ => .pure (by rw [none_]; rfl)

theorem expectPunct_reads {p : Punct} (more : ks ≠ []) :
    Reads c (expectPunct p) (.punct p :: ks) ks fun _ => True := by
  refine .bind (take?_present (by simp) more) fun span found => ?_
  obtain ⟨span, rfl⟩ := Option.isSome_iff_exists.1 found
  exact .pure trivial

theorem expectKeyword_reads {word : Keyword} (more : ks ≠ []) :
    Reads c (expectKeyword word) (.keyword word :: ks) ks fun _ => True := by
  refine .bind (take?_present (by simp) more) fun span found => ?_
  obtain ⟨span, rfl⟩ := Option.isSome_iff_exists.1 found
  exact .pure trivial

theorem expectIdent_reads {name : String} (more : ks ≠ []) :
    Reads c expectIdent (.ident name :: ks) ks (·.name = name) := by
  have taken : Reads c takeIdent? (.ident name :: ks) ks
      fun found => ∃ n, found = some n ∧ n.name = name := by
    refine .bind kind_reads fun kind eq => ?_
    subst eq
    exact .bind (bump_reads (by simp) more) fun _ _ => .pure ⟨_, rfl, rfl⟩
  refine .bind taken fun found some_ => ?_
  obtain ⟨n, rfl, same⟩ := some_
  exact .pure same

/-! ## Lists -/

/-- One item of a list, and the mark behind it. -/
def commaStep (closing : Punct) (cause : SyntaxCause) (item : Parser α) (items : List α) :
    Parser (List α ⊕ List α) := do
  let items := (← item) :: items
  if ← accept .comma then return .inl items
  else if ← accept closing then return .inr items.reverse
  else fail cause

theorem commaList_eq (closing : Punct) (cause : SyntaxCause) (item : Parser α) :
    commaList closing cause item = (do
      if ← accept closing then return []
      repeatFrom [] (commaStep closing cause item)) := rfl

variable {ι : Type} {ink : ι → List Ink} {same : ι → α → Prop} {item : Parser α}
  {closing : Punct} {cause : SyntaxCause} {rest : List TokenKind} {bound : Nat}

theorem tokensOf_commas (i next : ι) (items : List ι) :
    Ink.tokensOf (Ink.commas ((i :: next :: items).map ink)) = Ink.tokensOf (ink i) ++
      .punct .comma :: Ink.tokensOf (Ink.commas ((next :: items).map ink)) := by
  rw [List.map_cons, List.map_cons, Ink.commas, Ink.tokensOf_append]
  · rfl
  · simp

theorem tokensOf_enclosed (opening closing : Punct) (items : List (List Ink)) :
    Ink.tokensOf (Ink.enclosed opening closing items) ++ rest =
      .punct opening :: (Ink.tokensOf (Ink.commas items) ++ .punct closing :: rest) := by
  rw [Ink.enclosed, Ink.tokensOf_append, List.append_assoc]
  rfl

theorem commaStep_comma {i : ι} {read : List α} (more : rest ≠ [])
    (reads : Reads c item (Ink.tokensOf (ink i) ++ .punct .comma :: rest) (.punct .comma :: rest)
      (same i)) :
    Reads c (commaStep closing cause item read) (Ink.tokensOf (ink i) ++ .punct .comma :: rest) rest
      fun result => ∃ y, result = .inl y ∧ ∃ a, y = a :: read ∧ same i a := by
  exact .bind reads fun a holds => .branch_true (accept_present more)
    (.pure ⟨_, rfl, a, rfl, holds⟩)

theorem commaStep_closing {i : ι} {read : List α} (separate : closing ≠ .comma) (more : rest ≠ [])
    (reads : Reads c item (Ink.tokensOf (ink i) ++ .punct closing :: rest) (.punct closing :: rest)
      (same i)) :
    Reads c (commaStep closing cause item read) (Ink.tokensOf (ink i) ++ .punct closing :: rest) rest
      fun result => ∃ items, result = .inr items ∧
        ∃ a, items = (a :: read).reverse ∧ same i a := by
  have other : TokenKind.punct closing ≠ .punct .comma := by simpa using separate
  exact .bind reads fun a holds => .branch_false (accept_absent other)
    (.branch_true (accept_present more) (.pure ⟨_, rfl, a, rfl, holds⟩))

/-- What has been read is kept in reverse. -/
theorem commaLoop_reads (separate : closing ≠ .comma) (more : rest ≠ []) (items : List ι) :
    ∀ (i : ι) (n : Nat) (done : List ι) (read : List α), List.Forall₂ same done read.reverse →
      (∀ j ∈ i :: items, ∀ k ks, k = .punct .comma ∨ k = .punct closing →
        (Ink.tokensOf (ink j) ++ k :: ks).length ≤ bound →
          Reads c item (Ink.tokensOf (ink j) ++ k :: ks) (k :: ks) (same j)) →
      (Ink.tokensOf (Ink.commas ((i :: items).map ink)) ++ .punct closing :: rest).length ≤ bound →
      (Ink.tokensOf (Ink.commas ((i :: items).map ink)) ++ .punct closing :: rest).length ≤ n →
      Reads c (loop (commaStep closing cause item) n read)
        (Ink.tokensOf (Ink.commas ((i :: items).map ink)) ++ .punct closing :: rest) rest
        (List.Forall₂ same (done ++ i :: items)) := by
  induction items with
  | nil =>
    intro i n done read front reads length fuel
    rw [List.map_singleton, Ink.commas] at length fuel ⊢
    obtain ⟨n, rfl⟩ : ∃ m, n = m + 1 := ⟨n - 1, by simp at fuel; omega⟩
    refine .loop_ends (Reads.mono (commaStep_closing separate more
      (reads i (by simp) _ _ (.inr rfl) length)) ?_)
    rintro result ⟨all, rfl, a, rfl, holds⟩
    refine ⟨_, rfl, ?_⟩
    rw [List.reverse_cons]
    exact List.rel_append front (.cons holds .nil)
  | cons next items ih =>
    intro i n done read front reads length fuel
    rw [tokensOf_commas, List.append_assoc] at length fuel ⊢
    obtain ⟨n, rfl⟩ : ∃ m, n = m + 1 := ⟨n - 1, by simp at fuel; omega⟩
    have inner := reads i (by simp) _ _ (.inl rfl) length
    have shorter : (Ink.tokensOf (Ink.commas ((next :: items).map ink)) ++
        .punct closing :: rest).length ≤ n := by
      simp only [List.length_append, List.length_cons] at fuel ⊢
      omega
    have within : (Ink.tokensOf (Ink.commas ((next :: items).map ink)) ++
        .punct closing :: rest).length ≤ bound := by
      simp only [List.length_append, List.length_cons] at length ⊢
      omega
    refine .loop_goes _ _ (commaStep_comma (by simp) inner) ?_
    rintro y ⟨a, rfl, holds⟩
    have grown : List.Forall₂ same (done ++ [i]) (a :: read).reverse := by
      rw [List.reverse_cons]
      exact List.rel_append front (.cons holds .nil)
    have others := ih next n (done ++ [i]) (a :: read) grown
      (fun j hj => reads j (List.mem_cons_of_mem i hj)) within shorter
    rwa [List.append_assoc] at others

/-- A list of printed items is read item by item. What is behind an item is a comma or the closing
mark, and no more tokens are left than in front of the list. -/
theorem commaList_reads {items : List ι} (separate : closing ≠ .comma) (more : rest ≠ [])
    (reads : ∀ i ∈ items, ∀ k ks, k = .punct .comma ∨ k = .punct closing →
      (Ink.tokensOf (ink i) ++ k :: ks).length ≤ bound →
        Reads c item (Ink.tokensOf (ink i) ++ k :: ks) (k :: ks) (same i))
    (starts : ∀ i ∈ items, ∃ k ks, Ink.tokensOf (ink i) = k :: ks ∧ k ≠ .punct closing)
    (length : (Ink.tokensOf (Ink.commas (items.map ink)) ++ .punct closing :: rest).length ≤ bound) :
    Reads c (commaList closing cause item)
      (Ink.tokensOf (Ink.commas (items.map ink)) ++ .punct closing :: rest) rest
      (List.Forall₂ same items) := by
  rw [commaList_eq]
  cases items with
  | nil =>
    refine .bind (accept_present more) fun closed eq => ?_
    rw [eq, if_pos rfl]
    exact .pure .nil
  | cons i items =>
    obtain ⟨k, ks, front, other⟩ := starts i (by simp)
    have head : ∃ ks', Ink.tokensOf (Ink.commas ((i :: items).map ink)) ++ .punct closing :: rest =
        k :: ks' := by
      cases items with
      | nil => exact ⟨_, by rw [List.map_singleton, Ink.commas, front, List.cons_append]⟩
      | cons next items => exact ⟨_, by rw [tokensOf_commas, front, List.cons_append,
          List.cons_append]⟩
    obtain ⟨ks', eq⟩ := head
    have absent : Reads c (accept closing) (k :: ks') (k :: ks') (· = false) := accept_absent other
    rw [← eq] at absent
    refine .bind absent fun closed none_ => ?_
    rw [none_, if_neg (by simp)]
    exact .repeatFrom fun n fuel =>
      commaLoop_reads separate more items i n [] [] .nil reads length fuel

/-! ## Declarations put aside -/

/-- Nothing goes on here with what is in front: there is a token other than `else`. -/
def Resumes (rest : List TokenKind) : Prop := ∃ k ks, rest = k :: ks ∧ k ≠ .keyword .kwElse

/-- In front of tokens of some kinds the parser succeeds as in `Reads`, but puts classes and functions
aside, which come behind those that are there. -/
def Declares (c : Context) (p : Parser α) (before after : List TokenKind)
    (good : α → List Class → List Function → Prop) : Prop :=
  ∀ s, s.kinds = before → ∃ a t classes functions, p c s = (.ok a, t) ∧ t.kinds = after ∧
    (t.context = c ∧ t.shelf = (s.classes ++ classes, s.functions ++ functions)) ∧
    good a classes functions

theorem Reads.declares {p : Parser α} {good : α → Prop} (h : Reads c p before after good) :
    Declares c p before after fun a classes functions => good a ∧ classes = [] ∧ functions = [] := by
  intro s kinds
  obtain ⟨a, t, run, left, ⟨stays, kept⟩, holds⟩ := h s kinds
  refine ⟨a, t, [], [], run, left, ⟨stays, ?_⟩, holds, rfl, rfl⟩
  rw [kept, List.append_nil, List.append_nil]
  rfl

namespace Declares

variable {good : α → List Class → List Function → Prop}
  {final : β → List Class → List Function → Prop}

theorem reads {p : Parser α} {good : α → Prop}
    (h : Declares c p before after fun a classes functions =>
      good a ∧ classes = [] ∧ functions = []) : Reads c p before after good := by
  intro s kinds
  obtain ⟨a, t, _, _, run, left, ⟨stays, kept⟩, holds, rfl, rfl⟩ := h s kinds
  rw [List.append_nil, List.append_nil] at kept
  exact ⟨a, t, run, left, ⟨stays, kept⟩, holds⟩

theorem mono {p : Parser α} {better : α → List Class → List Function → Prop}
    (hp : Declares c p before after better)
    (h : ∀ a classes functions, better a classes functions → good a classes functions) :
    Declares c p before after good := by
  intro s kinds
  obtain ⟨a, t, classes, functions, run, left, kept, holds⟩ := hp s kinds
  exact ⟨a, t, classes, functions, run, left, kept, h a classes functions holds⟩

theorem pure {a : α} (h : good a [] []) :
    Declares c (Pure.pure a : Parser α) after after good := by
  have same : Reads c (Pure.pure a : Parser α) after after (· = a) := .pure rfl
  refine same.declares.mono fun _ _ _ ⟨eq, none_, none'⟩ => ?_
  rwa [eq, none_, none']

theorem bind {p : Parser α} {f : α → Parser β} (hp : Declares c p before middle good)
    (hf : ∀ a classes functions, good a classes functions → Declares c (f a) middle after
      fun b classes' functions' => final b (classes ++ classes') (functions ++ functions')) :
    Declares c (p >>= f) before after final := by
  intro s kinds
  obtain ⟨a, t, classes, functions, run, between, ⟨stays, kept⟩, holds⟩ := hp s kinds
  obtain ⟨b, u, classes', functions', run', left, ⟨stays', kept'⟩, result⟩ :=
    hf a classes functions holds t between
  have here : { t with context := c } = t := by rw [← stays]
  rw [runIn, here] at run'
  obtain ⟨keptClasses, keptFunctions⟩ := Prod.mk.inj kept
  refine ⟨b, u, classes ++ classes', functions ++ functions', (bind_of_ok run).trans run', left,
    ⟨stays', ?_⟩, result⟩
  rw [kept', keptClasses, keptFunctions, List.append_assoc, List.append_assoc]

/-- A part in front that puts nothing aside. -/
theorem behind {p : Parser α} {f : α → Parser β} {good : α → Prop}
    (hp : Reads c p before middle good)
    (hf : ∀ a, good a → Declares c (f a) middle after final) :
    Declares c (p >>= f) before after final := by
  refine .bind hp.declares fun a _ _ ⟨holds, none_, none'⟩ => ?_
  subst none_ none'
  exact hf a holds

theorem branch_true {p : Parser Bool} {yes no : Parser β}
    (hp : Reads c p before middle (· = true)) (h : Declares c yes middle after final) :
    Declares c (do if ← p then yes else no) before after final := by
  refine behind hp fun b eq => ?_
  rw [eq, if_pos rfl]
  exact h

theorem branch_false {p : Parser Bool} {yes no : Parser β}
    (hp : Reads c p before middle (· = false)) (h : Declares c no middle after final) :
    Declares c (do if ← p then yes else no) before after final := by
  refine behind hp fun b eq => ?_
  rw [eq, if_neg (by simp)]
  exact h

theorem within {p : Parser α} {inner : Context} (h : Declares inner p before after good) :
    Declares c (Parser.within inner p) before after good := by
  intro s kinds
  obtain ⟨a, t, classes, functions, run, left, ⟨-, kept⟩, holds⟩ := h s kinds
  exact ⟨a, { t with context := c }, classes, functions, within_eq_ok.2 ⟨t, run, rfl⟩, left,
    ⟨rfl, kept⟩, holds⟩

theorem repeatFrom {step : σ → Parser (σ ⊕ β)} {start : σ}
    (h : ∀ n, before.length ≤ n → Declares c (loop step n start) before after final) :
    Declares c (Parser.repeatFrom start step) before after final := by
  intro s kinds
  rw [runIn, repeatFrom_run]
  refine h (s.cursor.remaining + 1) ?_ s kinds
  rw [← kinds, ParserState.kinds, List.length_map]
  exact Nat.le_refl _

theorem recursive {rule : Parser α → Parser α}
    (h : ∀ n, before.length ≤ n + 1 → Declares c (rule (Parser.iterate rule n)) before after good) :
    Declares c (Parser.recursive rule) before after good := by
  intro s kinds
  have fuel : before.length = s.cursor.remaining + 1 := by
    rw [← kinds, ParserState.kinds, List.length_map]
    rfl
  rw [runIn, recursive_run]
  exact h s.cursor.remaining (Nat.le_of_eq fuel) s kinds

theorem loop_ends {step : σ → Parser (σ ⊕ β)} {x : σ} {n : Nat} (fuel : 0 < n)
    (hstep : Reads c (step x) before after fun result => ∃ b, result = .inr b ∧ final b [] []) :
    Declares c (loop step n x) before after final := by
  obtain ⟨n, rfl⟩ : ∃ m, n = m + 1 := ⟨n - 1, by omega⟩
  refine behind hstep fun result ends => ?_
  obtain ⟨b, rfl, holds⟩ := ends
  exact pure holds

/-- A loop reads items one after the other and goes on behind them. What it has come to is told from
the items read so far. -/
theorem loop_items {tokens : ι → List TokenKind} {step : σ → Parser (σ ⊕ β)} {last : List TokenKind}
    (reached : List ι → σ → List Class → List Function → Prop)
    (final : β → List Class → List Function → Prop)
    (items : List ι) (starts : ∀ i ∈ items, ∀ rest, Resumes (tokens i ++ rest))
    (resumes : Resumes last) :
    ∀ (n : Nat) (done : List ι) (x : σ) (classes : List Class) (functions : List Function),
      reached done x classes functions →
      (∀ i ∈ items, ∀ done x classes functions rest, reached done x classes functions →
        Resumes rest → (tokens i ++ rest).length ≤ bound →
          Declares c (step x) (tokens i ++ rest) rest fun result classes' functions' =>
            ∃ y, result = .inl y ∧
              reached (done ++ [i]) y (classes ++ classes') (functions ++ functions')) →
      (∀ n x classes functions, reached (done ++ items) x classes functions → last.length ≤ n →
        Declares c (loop step n x) last after fun b classes' functions' =>
          final b (classes ++ classes') (functions ++ functions')) →
      (items.flatMap tokens ++ last).length ≤ bound → (items.flatMap tokens ++ last).length ≤ n →
      Declares c (loop step n x) (items.flatMap tokens ++ last) after fun b classes' functions' =>
        final b (classes ++ classes') (functions ++ functions') := by
  induction items with
  | nil =>
    intro n done x classes functions here _ onward _ fuel
    rw [List.append_nil] at onward
    exact onward n x classes functions here fuel
  | cons i items ih =>
    intro n done x classes functions here each onward length fuel
    rw [List.flatMap_cons, List.append_assoc] at length fuel ⊢
    obtain ⟨starts, startsOthers⟩ := List.forall_mem_cons.1 starts
    obtain ⟨k, ks, front, -⟩ := starts []
    rw [List.append_nil] at front
    have positive : 0 < (tokens i).length := by simp [front]
    have shorter : (items.flatMap tokens ++ last).length < (tokens i ++
        (items.flatMap tokens ++ last)).length := by
      simp only [List.length_append]
      omega
    obtain ⟨n, rfl⟩ : ∃ m, n = m + 1 := ⟨n - 1, by omega⟩
    have next : Resumes (items.flatMap tokens ++ last) := by
      cases items with
      | nil => exact resumes
      | cons second items =>
        rw [List.flatMap_cons, List.append_assoc]
        exact startsOthers second (List.mem_cons_self ..) _
    refine .bind (each i (List.mem_cons_self ..) done x classes functions _ here next length)
      fun result classes' functions' ⟨y, goes, there⟩ => ?_
    subst goes
    have others := ih startsOthers n (done ++ [i]) y (classes ++ classes') (functions ++ functions') there
      (fun j listed => each j (List.mem_cons_of_mem i listed))
      (by rwa [List.append_assoc]) (by omega) (by omega)
    exact others.mono fun b _ _ => by simp only [List.append_assoc]; exact id

end Declares

end Parser

end ClassLang
