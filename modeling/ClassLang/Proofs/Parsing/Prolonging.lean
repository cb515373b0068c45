import ClassLang.Proofs.Parsing.ExprReads
import ClassLang.Proofs.Syntax.Sameness

/-!
A run on tokens up to the end, beside a run on the same tokens with others in place of the end. If
the first one succeeds, so does the second, with the same result up to numbers and places. What
stands in brackets never meets the end, for the closing bracket has to come; only what comes last
meets it, where the other run meets a token that must not belong to it. `Follows` says this, of the
whole of the tokens or of a part with some behind it; each combinator has one rule for it, and here
are those for tokens.
-/

namespace ClassLang

/-- Values that parsers come to, and when they differ in numbers and places at most. -/
class Resembles (α : Type) where
  like : α → α → Prop
  refl (a : α) : like a a

namespace Resembles

variable {α β : Type} [Resembles α] [Resembles β]

instance : Resembles Unit := ⟨Eq, Eq.refl⟩
instance : Resembles Bool := ⟨Eq, Eq.refl⟩
instance : Resembles Punct := ⟨Eq, Eq.refl⟩
instance : Resembles Modifiers := ⟨Eq, Eq.refl⟩
instance : Resembles BinaryOp := ⟨Eq, Eq.refl⟩
instance : Resembles UnaryOp := ⟨Eq, Eq.refl⟩
instance : Resembles AssignKind := ⟨Eq, Eq.refl⟩
instance : Resembles Context := ⟨Eq, Eq.refl⟩
instance : Resembles Span := ⟨fun _ _ => True, fun _ => trivial⟩
instance : Resembles Node := ⟨fun _ _ => True, fun _ => trivial⟩
instance : Resembles Token := ⟨fun _ _ => True, fun _ => trivial⟩
instance : Resembles Ident := ⟨(·.same · = true), Ident.same_refl⟩
instance : Resembles TypeRef := ⟨(·.same · = true), TypeRef.same_refl⟩
instance : Resembles Expr := ⟨(·.same · = true), Expr.same_refl⟩
instance : Resembles KeymapPair :=
  ⟨Expr.SamePair, fun pair => ⟨pair.key.same_refl, pair.value.same_refl⟩⟩

instance : Resembles (List α) :=
  ⟨List.Forall₂ like, fun _ => List.forall₂_same.2 fun a _ => refl a⟩

instance : Resembles (Option α) := ⟨Option.Rel like, fun
  | none => .none
  | some a => .some (refl a)⟩

instance : Resembles (α × β) :=
  ⟨fun a b => like a.1 b.1 ∧ like a.2 b.2, fun a => ⟨refl a.1, refl a.2⟩⟩

instance : Resembles (α ⊕ β) := ⟨Sum.LiftRel like like, fun
  | .inl a => .inl (refl a)
  | .inr b => .inr (refl b)⟩

end Resembles

open Resembles (like)

namespace Parser

/-- The same tokens are left, in the second state with others in place of the end. -/
structure Prolonged (k : TokenKind) (ks : List TokenKind) (s t : ParserState) : Prop where
  tokens : ∃ v, .eof ∉ v ∧ s.kinds = v ++ [.eof] ∧ t.kinds = v ++ k :: ks
  context : t.context = s.context

variable {α β σ : Type} {k : TokenKind} {ks : List TokenKind} {s t : ParserState}

namespace Prolonged

theorem remaining_le (h : Prolonged k ks s t) : s.cursor.remaining ≤ t.cursor.remaining := by
  obtain ⟨v, -, left, right⟩ := h.tokens
  have length (u : ParserState) : u.kinds.length = u.cursor.remaining + 1 := List.length_map ..
  have sizes := congrArg List.length left
  have sizes' := congrArg List.length right
  rw [length, List.length_append] at sizes sizes'
  simp only [List.length_cons, List.length_nil] at sizes sizes'
  omega

theorem kind_of_more (h : Prolonged k ks s t) (more : s.cursor.isAtEnd = false) :
    t.cursor.current.kind = s.cursor.current.kind := by
  obtain ⟨v, -, left, right⟩ := h.tokens
  cases v with
  | nil => simp [Cursor.isAtEnd, (kinds_cons left).1] at more
  | cons kind v => rw [(kinds_cons left).1, (kinds_cons right).1]

theorem kinds_of_end (h : Prolonged k ks s t) (ended : s.cursor.isAtEnd = true) :
    t.kinds = k :: ks := by
  obtain ⟨v, inside, left, right⟩ := h.tokens
  cases v with
  | nil => exact right
  | cons kind v =>
    rw [Cursor.isAtEnd, (kinds_cons left).1, beq_iff_eq] at ended
    simp [ended] at inside

theorem congr {s' t' : ParserState} (h : Prolonged k ks s t) (left : s'.cursor = s.cursor)
    (right : t'.cursor = t.cursor) (context : t'.context = s'.context) : Prolonged k ks s' t' where
  tokens := by
    rw [ParserState.kinds, ParserState.kinds, left, right]
    exact h.tokens
  context := context

end Prolonged

/-- Where the first parser succeeds, the second one succeeds in the same way on prolonged tokens. If
not the whole of the tokens may be read, this is said only of runs that leave some. -/
structure FollowsFrom [Resembles α] (k : TokenKind) (ks : List TokenKind) (whole : Bool)
    (before : Cursor → Prop) (p q : Parser α) : Prop where
  stays : ∀ {s a s'}, before s.cursor → p.run s = (.ok a, s') → s.cursor.isAtEnd = true →
    s'.cursor.isAtEnd = true
  follows : ∀ {s t a s'}, before s.cursor → Prolonged k ks s t → p.run s = (.ok a, s') →
    (whole = false → s'.cursor.isAtEnd = false) →
    ∃ b t', q.run t = (.ok b, t') ∧ Prolonged k ks s' t' ∧ like a b

abbrev Follows [Resembles α] (k : TokenKind) (ks : List TokenKind) (whole : Bool) (p q : Parser α) :
    Prop :=
  FollowsFrom k ks whole (fun _ => True) p q

/-- Success takes a token. -/
def NeedsMore (p : Parser α) : Prop :=
  ∀ s a t, p.run s = (.ok a, t) → s.cursor.isAtEnd = false

theorem NeedsMore.bind {p : Parser α} {f : α → Parser β} (h : NeedsMore p) :
    NeedsMore (p >>= f) := by
  intro s b t run
  obtain ⟨a, middle, first, -⟩ := bind_eq_ok.1 run
  exact h s a middle first

/-! ## Combinators -/

namespace FollowsFrom

variable [Resembles α] [Resembles β] [Resembles σ] {whole : Bool} {before : Cursor → Prop}
  {p q : Parser α} {f g : α → Parser β}

theorem weaken (h : Follows k ks whole p q) : FollowsFrom k ks whole before p q where
  stays _ := h.stays trivial
  follows _ := h.follows trivial

theorem pure {a b : α} (h : like a b) :
    FollowsFrom k ks whole before (Pure.pure a) (Pure.pure b) where
  stays _ run ended := by
    cases run
    exact ended
  follows _ prolonged run _ := by
    cases run
    exact ⟨b, _, rfl, prolonged, h⟩

theorem never (h : ∀ s a t, before s.cursor → p.run s ≠ (.ok a, t)) :
    FollowsFrom k ks whole before p q where
  stays start run := (h _ _ _ start run).elim
  follows start _ run := (h _ _ _ start run).elim

theorem fail (cause : SyntaxCause) :
    FollowsFrom k ks whole before (Parser.fail cause : Parser α) q :=
  .never fun _ _ _ _ => nofun

theorem failAt (span : Span) (cause : SyntaxCause) :
    FollowsFrom k ks whole before (Parser.failAt span cause : Parser α) q :=
  .never fun _ _ _ _ => nofun

/-- The first parser follows as far as the second one needs it to. -/
theorem bind_part {part : Bool} (first : FollowsFrom k ks part before p q)
    (between : ∀ a middle b s, (f a).run middle = (.ok b, s) →
      (whole = false → s.cursor.isAtEnd = false) → part = false → middle.cursor.isAtEnd = false)
    (rest : ∀ a b, like a b → Follows k ks whole (f a) (g b)) :
    FollowsFrom k ks whole before (p >>= f) (q >>= g) where
  stays start run ended := by
    obtain ⟨a, middle, run, run'⟩ := bind_eq_ok.1 run
    exact (rest a a (Resembles.refl a)).stays trivial run' (first.stays start run ended)
  follows start prolonged run more := by
    obtain ⟨a, middle, run, run'⟩ := bind_eq_ok.1 run
    obtain ⟨b, middle', first', prolonged', same⟩ :=
      first.follows start prolonged run (between a middle _ _ run' more)
    obtain ⟨c, t', second', last⟩ := (rest a b same).follows trivial prolonged' run' more
    exact ⟨c, t', (bind_of_ok first').trans second', last⟩

theorem bind (first : FollowsFrom k ks whole before p q)
    (rest : ∀ a b, like a b → Follows k ks whole (f a) (g b)) :
    FollowsFrom k ks whole before (p >>= f) (q >>= g) := by
  refine .bind_part first (fun a middle b s run more part => ?_) rest
  refine Bool.eq_false_iff.2 fun ended => Bool.eq_false_iff.1 (more part) ?_
  exact (rest a a (Resembles.refl a)).stays trivial run ended

/-- The first parser stays away from the end, as what comes behind it needs a token. -/
theorem bind_closed (first : FollowsFrom k ks false before p q) (closes : ∀ a, NeedsMore (f a))
    (rest : ∀ a b, like a b → Follows k ks whole (f a) (g b)) :
    FollowsFrom k ks whole before (p >>= f) (q >>= g) :=
  .bind_part first (fun a middle b s run _ _ => closes a middle b s run) rest

theorem look {v w : ParserState → α} (h : ∀ s t, Prolonged k ks s t → like (v s) (w t)) :
    FollowsFrom k ks whole before ⟨fun s => (.ok (v s), s)⟩ ⟨fun t => (.ok (w t), t)⟩ where
  stays _ run ended := by
    obtain ⟨-, rfl⟩ := Prod.mk.inj run
    exact ended
  follows {s t _ _} _ prolonged run _ := by
    obtain ⟨ok, rfl⟩ := Prod.mk.inj run
    obtain rfl := Except.ok.inj ok
    exact ⟨_, t, rfl, prolonged, h s t prolonged⟩

theorem number {v w : Nat → α × Nat} (h : ∀ n m, like (v n).1 (w m).1) :
    FollowsFrom k ks whole before
      ⟨fun s => (.ok (v s.nextId).1, { s with nextId := (v s.nextId).2 })⟩
      ⟨fun t => (.ok (w t.nextId).1, { t with nextId := (w t.nextId).2 })⟩ where
  stays _ run ended := by
    obtain ⟨-, rfl⟩ := Prod.mk.inj run
    exact ended
  follows {s t _ _} _ prolonged run _ := by
    obtain ⟨ok, rfl⟩ := Prod.mk.inj run
    obtain rfl := Except.ok.inj ok
    exact ⟨_, _, rfl, prolonged.congr rfl rfl prolonged.context, h _ _⟩

theorem within (c : Context) (h : Follows k ks whole p q) :
    FollowsFrom k ks whole before (Parser.within c p) (Parser.within c q) where
  stays {s a _} _ run ended := by
    obtain ⟨inner, entered, rfl⟩ := within_eq_ok.1 run
    exact @FollowsFrom.stays _ _ _ _ _ _ _ _ h { s with context := c } a inner trivial entered ended
  follows {s t _ _} _ prolonged run more := by
    obtain ⟨inner, entered, rfl⟩ := within_eq_ok.1 run
    have outside : Prolonged k ks { s with context := c } { t with context := c } :=
      prolonged.congr rfl rfl rfl
    obtain ⟨b, inner', entered', inside, same⟩ := h.follows trivial outside entered more
    exact ⟨b, _, within_eq_ok.2 ⟨inner', entered', rfl⟩,
      inside.congr rfl rfl prolonged.context, same⟩

theorem loop {step step' : σ → Parser (σ ⊕ β)}
    (each : ∀ x y, like x y → Follows k ks whole (step x) (step' y)) (n : Nat) :
    ∀ m, n ≤ m → ∀ x y, like x y →
      Follows k ks whole (Parser.loop step n x) (Parser.loop step' m y) := by
  induction n with
  | zero => exact fun _ _ _ _ _ => .fail _
  | succ n ih =>
    intro m le x y same
    obtain ⟨m, rfl⟩ : ∃ l, m = l + 1 := ⟨m - 1, by omega⟩
    refine .bind (each x y same) fun result result' same => ?_
    cases same with
    | inl same => exact ih m (Nat.le_of_succ_le_succ le) _ _ same
    | inr same => exact .pure same

/-- There is as much fuel for more tokens. -/
theorem repeatFrom {step step' : σ → Parser (σ ⊕ β)} {start start' : σ}
    (each : ∀ x y, like x y → Follows k ks whole (step x) (step' y)) (same : like start start') :
    FollowsFrom k ks whole before (Parser.repeatFrom start step)
      (Parser.repeatFrom start' step') where
  stays {s _ _} _ run ended := by
    rw [repeatFrom_run] at run
    exact (loop each _ _ (Nat.le_refl _) _ _ same).stays trivial run ended
  follows {s t _ _} _ prolonged run more := by
    rw [repeatFrom_run] at run
    have le := Nat.succ_le_succ prolonged.remaining_le
    exact (loop each _ _ le _ _ same).follows trivial prolonged run more

theorem iterate {rule : Parser α → Parser α}
    (each : ∀ p q, Follows k ks false p q → Follows k ks false (rule p) (rule q)) (n : Nat) :
    ∀ m, n ≤ m → Follows k ks false (iterate rule n) (iterate rule m) := by
  induction n with
  | zero => exact fun _ _ => .fail _
  | succ n ih =>
    intro m le
    obtain ⟨m, rfl⟩ : ∃ l, m = l + 1 := ⟨m - 1, by omega⟩
    exact each _ _ (ih m (Nat.le_of_succ_le_succ le))

/-- A rule recurs inside brackets only. -/
theorem recursive {rule : Parser α → Parser α}
    (each : ∀ p q, Follows k ks false p q → Follows k ks false (rule p) (rule q))
    (last : ∀ p q, Follows k ks false p q → Follows k ks whole (rule p) (rule q)) :
    FollowsFrom k ks whole before (Parser.recursive rule) (Parser.recursive rule) where
  stays {s _ _} _ run ended := by
    rw [recursive_run] at run
    exact (last _ _ (iterate each _ _ (Nat.le_refl _))).stays (s := s) trivial run ended
  follows {s t _ _} _ prolonged run more := by
    rw [recursive_run] at run
    have recurs := iterate each _ _ prolonged.remaining_le
    exact (last _ _ recurs).follows (s := s) trivial prolonged run more

end FollowsFrom

/-! ## Tokens -/

/-- A token that belongs to no operand in front of it, given the operators that an operand may
have. -/
structure Separates (ops : List BinaryOp) (k : TokenKind) : Prop where
  operator : NoneOf ops k
  selector : NoSelector k
  sign : sign? k = none
  negation : negation? k = none
  name : ∀ name, k ≠ .ident name
  word : ∀ word, k ≠ .keyword word
  mark : ∀ p ∈ [Punct.comma, .closeParen, .closeBracket, .closeBrace], k ≠ .punct p

variable [Resembles α] [Resembles β] {whole : Bool} {before : Cursor → Prop}

/-- The token is told from the end only by a run that stops there. -/
theorem kind_follows {f g : TokenKind → Parser β}
    (here : ∀ kind, FollowsFrom k ks whole (·.current.kind = kind) (f kind) (g kind))
    (last : whole = true → FollowsFrom k ks whole (·.current.kind = .eof) (f .eof) (g k)) :
    FollowsFrom k ks whole before (kind >>= f) (kind >>= g) where
  stays {s _ _} _ run ended := (here s.cursor.current.kind).stays rfl run ended
  follows {s t _ _} _ prolonged run more := by
    have run' : (f s.cursor.current.kind).run s = _ := run
    change ∃ b t', (g t.cursor.current.kind).run t = (.ok b, t') ∧ _
    cases ended : s.cursor.isAtEnd with
    | false =>
      rw [prolonged.kind_of_more ended]
      exact (here _).follows rfl prolonged run' more
    | true =>
      have isEof : s.cursor.current.kind = .eof := eq_of_beq ended
      rw [(kinds_cons (prolonged.kinds_of_end ended)).1]
      cases whole with
      | false =>
        have stuck := (here _).stays rfl run' ended
        rw [more rfl] at stuck
        cases stuck
      | true =>
        rw [isEof] at run'
        exact (last rfl).follows isEof prolonged run' more

theorem bump_follows {kind : TokenKind} (ink : kind ≠ .eof) :
    FollowsFrom k ks whole (·.current.kind = kind) bump bump where
  stays start _ ended := (ink (start.symm.trans (eq_of_beq ended))).elim
  follows {s t _ _} start prolonged run _ := by
    obtain ⟨v, inside, left, right⟩ := prolonged.tokens
    cases v with
    | nil => exact (ink (start.symm.trans (kinds_cons left).1)).elim
    | cons first v =>
      obtain rfl : kind = first := start.symm.trans (kinds_cons left).1
      obtain ⟨_, s', run', left', ⟨context, -⟩, -⟩ :=
        bump_reads (c := s.context) ink (by simp) s left
      obtain ⟨b, t', goes, right', ⟨context', -⟩, -⟩ :=
        bump_reads (c := t.context) ink (by simp) t right
      obtain ⟨-, rfl⟩ := Prod.mk.inj (run'.symm.trans run)
      have still : .eof ∉ v := fun mem => inside (List.mem_cons_of_mem _ mem)
      refine ⟨b, t', goes, ⟨⟨v, still, left', right'⟩, ?_⟩, trivial⟩
      rw [context, context', prolonged.context]

theorem here_follows : FollowsFrom k ks whole before here here := .look fun _ _ _ => trivial

theorem context_follows : FollowsFrom k ks whole before context context :=
  .look fun _ _ prolonged => prolonged.context.symm

theorem newNode_follows (span span' : Span) :
    FollowsFrom k ks whole before (newNode span) (newNode span') :=
  .number (v := fun n => (Node.mk n span, n + 1)) (w := fun n => (Node.mk n span', n + 1))
    fun _ _ => trivial

theorem nodeFrom_follows (start start' : Span) :
    FollowsFrom k ks whole before (nodeFrom start) (nodeFrom start') :=
  .bind (.look fun _ _ _ => trivial) fun _ _ _ => newNode_follows _ _

theorem freshCopy_follows {e e' : Expr} (same : like e e') :
    FollowsFrom k ks whole before (freshCopy e) (freshCopy e') :=
  .number (v := e.renumber) (w := e'.renumber) fun n m => Expr.same_copies n m same

theorem peek_follows {wanted : TokenKind} (ink : wanted ≠ .eof)
    (other : whole = true → k ≠ wanted) :
    FollowsFrom k ks whole before (peek wanted) (peek wanted) := by
  rw [show peek wanted = (do return (← kind) == wanted) from rfl]
  refine kind_follows (fun kind => .pure rfl) fun last => .pure ?_
  rw [beq_false_of_ne ink.symm, beq_false_of_ne (other last)]
  rfl

theorem take?_eq (wanted : TokenKind) : take? wanted = (do
    let kind ← kind
    if kind == wanted then return some (← bump).span else return none) := rfl

theorem take?_follows {wanted : TokenKind} (ink : wanted ≠ .eof)
    (other : whole = true → k ≠ wanted) :
    FollowsFrom k ks whole before (take? wanted) (take? wanted) := by
  rw [take?_eq]
  refine kind_follows (fun kind => ?_) fun last => ?_
  · split
    · next found =>
      refine .bind (bump_follows ?_) fun _ _ _ => .pure (.some trivial)
      rwa [eq_of_beq found]
    · exact .pure .none
  · rw [beq_false_of_ne ink.symm, beq_false_of_ne (other last)]
    exact .pure .none

theorem accept_follows {p : Punct} (other : whole = true → k ≠ .punct p) :
    FollowsFrom k ks whole before (accept p) (accept p) := by
  refine .bind (take?_follows nofun other) fun _ _ same => .pure ?_
  cases same <;> rfl

theorem acceptKeyword_follows {word : Keyword} (other : whole = true → k ≠ .keyword word) :
    FollowsFrom k ks whole before (acceptKeyword word) (acceptKeyword word) := by
  refine .bind (take?_follows nofun other) fun _ _ same => .pure ?_
  cases same <;> rfl

theorem accept_of_end {s : ParserState} {p : Punct} (ended : s.cursor.isAtEnd = true) :
    (accept p).run s = (.ok false, s) := by
  have absent : (s.cursor.current.kind == TokenKind.punct p) = false := by
    rw [eq_of_beq ended]
    rfl
  have none_ : (takePunct? p).run s = (.ok none, s) := by
    rw [takePunct?, take?_eq, bind_of_ok (a := s.cursor.current.kind) (t := s) rfl, absent]
    rfl
  rw [accept, bind_of_ok none_]
  rfl

theorem expectPunct_needsMore (p : Punct) : NeedsMore (expectPunct p) := by
  intro s a t run
  refine Bool.eq_false_iff.2 fun ended => ?_
  have missing := accept_of_end (p := p) ended
  obtain ⟨found, middle, first, second⟩ := bind_eq_ok.1 run
  rw [accept, bind_of_ok first] at missing
  cases found with
  | none => cases second
  | some => cases missing

theorem expectPunct_follows {p : Punct} (other : whole = true → k ≠ .punct p) :
    FollowsFrom k ks whole before (expectPunct p) (expectPunct p) := by
  refine .bind (take?_follows nofun other) fun _ _ same => ?_
  cases same with
  | some => exact .pure trivial
  | none => exact .never fun _ _ _ _ => nofun

theorem takePunctOf?_follows (marks : List Punct) :
    FollowsFrom k ks false before (takePunctOf? marks) (takePunctOf? marks) := by
  refine kind_follows (fun kind => ?_) nofun
  split
  · split
    · exact .bind (bump_follows nofun) fun _ _ _ => .pure (.some ⟨rfl, trivial⟩)
    · exact .pure .none
  · exact .pure .none

theorem expectIdent_follows (other : whole = true → ∀ name, k ≠ .ident name) :
    FollowsFrom k ks whole before expectIdent expectIdent := by
  have taken : FollowsFrom k ks whole before takeIdent? takeIdent? := by
    refine kind_follows (fun kind => ?_) fun last => ?_
    · split
      · exact .bind (bump_follows nofun) fun _ _ _ => .pure (.some (Ident.same_refl _))
      · exact .pure .none
    · cases k with
      | ident name => exact (other last name rfl).elim
      | _ => exact .pure .none
  refine .bind taken fun _ _ same => ?_
  cases same with
  | some same => exact .pure same
  | none =>
    refine .never fun s a t _ run => ?_
    obtain ⟨ended, middle, -, run'⟩ := bind_eq_ok.1 run
    split at run' <;> cases run'

/-- An item is followed by a comma or by the closing mark. -/
theorem commaList_follows {closing : Punct} {cause : SyntaxCause} {item item' : Parser α}
    (comma : whole = true → k ≠ .punct .comma) (close : whole = true → k ≠ .punct closing)
    (h : Follows k ks false item item') :
    FollowsFrom k ks whole before (commaList closing cause item)
      (commaList closing cause item') := by
  have closes (items : List α) (a : α) : NeedsMore (do
      let items := a :: items
      if ← accept .comma then return .inl items
      else if ← accept closing then return .inr items.reverse
      else Parser.fail cause : Parser (List α ⊕ List α)) := by
    intro s result t run
    refine Bool.eq_false_iff.2 fun ended => ?_
    have noComma := bind_of_ok (accept_of_end ended) ▸ run
    have closed := bind_of_ok (accept_of_end ended) ▸ noComma
    cases closed
  refine .bind (accept_follows close) fun closed _ same => ?_
  subst same
  split
  · exact .pure .nil
  refine .repeatFrom (fun items items' same => ?_) List.Forall₂.nil
  refine .bind_closed h (closes items) fun a b same' => ?_
  refine .bind (accept_follows comma) fun comma _ same'' => ?_
  subst same''
  split
  · exact .pure (.inl (.cons same' same))
  refine .bind (accept_follows close) fun closed _ same'' => ?_
  subst same''
  split
  · exact .pure (.inr (List.rel_reverse (.cons same' same)))
  · exact .fail _

end Parser

end ClassLang
