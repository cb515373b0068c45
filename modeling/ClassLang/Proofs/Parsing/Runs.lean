import ClassLang.Parsing.Programs

/-!
Runs of parsers that succeed. `Ensures p before after` says what holds of the result and of the
state behind it, if something holds of the state in front; each combinator has one rule for it.
-/

namespace ClassLang

namespace Parser

variable {α β σ : Type}

theorem bind_eq_ok {p : Parser α} {f : α → Parser β} {s t : ParserState} {b : β} :
    (p >>= f).run s = (.ok b, t) ↔
      ∃ a middle, p.run s = (.ok a, middle) ∧ (f a).run middle = (.ok b, t) := by
  change (Parser.bind p f).run s = (.ok b, t) ↔ _
  unfold Parser.bind
  dsimp only
  rcases h : p.run s with ⟨_ | a, middle⟩
  · simp
  · constructor
    · intro run
      exact ⟨a, middle, rfl, run⟩
    · rintro ⟨a', middle', first, second⟩
      cases first
      exact second

theorem bind_of_ok {p : Parser α} {f : α → Parser β} {s t : ParserState} {a : α}
    (h : p.run s = (.ok a, t)) : (p >>= f).run s = (f a).run t := by
  change (Parser.bind p f).run s = _
  simp only [Parser.bind, h]

theorem pure_run (a : α) (s : ParserState) : (Pure.pure a : Parser α).run s = (.ok a, s) := rfl

theorem within_run (p : Parser α) (c : Context) (s : ParserState) :
    (Parser.within c p).run s = ((p c s).1, { (p c s).2 with context := s.context }) := rfl

theorem within_eq_ok {p : Parser α} {c : Context} {s t : ParserState} {a : α} :
    (Parser.within c p).run s = (.ok a, t) ↔
      ∃ inner, p c s = (.ok a, inner) ∧ { inner with context := s.context } = t := by
  rw [within_run]
  constructor
  · intro run
    obtain ⟨ok, rfl⟩ := Prod.mk.inj run
    exact ⟨(p c s).2, Prod.ext ok rfl, rfl⟩
  · rintro ⟨inner, run, rfl⟩
    rw [run]

theorem repeatFrom_run (start : σ) (step : σ → Parser (σ ⊕ β)) (s : ParserState) :
    (Parser.repeatFrom start step).run s = (loop step (s.cursor.remaining + 1) start).run s := rfl

theorem recursive_run (rule : Parser α → Parser α) (s : ParserState) :
    (Parser.recursive rule).run s = (iterate rule (s.cursor.remaining + 1)).run s := rfl

theorem bump_suffix (s : ParserState) :
    (bump.run s).2.cursor.tokens <:+ s.cursor.tokens := by
  change (if s.cursor.isAtEnd then s else _ : ParserState).cursor.tokens <:+ _
  split
  · exact List.suffix_refl _
  · exact s.cursor.advance_tokens

def Ensures (p : Parser α) (before : ParserState → Prop) (after : α → ParserState → Prop) : Prop :=
  ∀ s a t, p.run s = (.ok a, t) → before s → after a t

namespace Ensures

variable {before middle : ParserState → Prop} {after : α → ParserState → Prop}
  {finally_ : β → ParserState → Prop}

theorem pure {a : α} : Ensures (Pure.pure a : Parser α) (after a) after := by
  intro s b t run h
  rw [pure_run] at run
  cases run
  exact h

theorem bind {p : Parser α} {f : α → Parser β} (hp : Ensures p before after)
    (hf : ∀ a, Ensures (f a) (after a) finally_) : Ensures (p >>= f) before finally_ := by
  intro s b t run h
  obtain ⟨a, between, first, second⟩ := bind_eq_ok.1 run
  exact hf a between b t second (hp s a between first h)

theorem weaken {p : Parser α} {before' : ParserState → Prop} {after' : α → ParserState → Prop}
    (hp : Ensures p before after) (pre : ∀ s, before' s → before s)
    (post : ∀ a s, after a s → after' a s) : Ensures p before' after' := by
  intro s a t run h
  exact post a t (hp s a t run (pre s h))

theorem within {p : Parser α} {c : Context} {before' : ParserState → Prop}
    {after' : α → ParserState → Prop} (hp : Ensures p before' after')
    (enter : ∀ s, before s → before' { s with context := c })
    (leave : ∀ a t outer, after' a t → after a { t with context := outer }) :
    Ensures (Parser.within c p) before after := by
  intro s a t run h
  obtain ⟨inner, within, rfl⟩ := within_eq_ok.1 run
  exact leave a inner s.context (hp _ a inner within (enter s h))

theorem fail {cause : SyntaxCause} : Ensures (Parser.fail cause : Parser α) before after := by
  intro s a t run _
  cases run

theorem failAt {span : Span} {cause : SyntaxCause} :
    Ensures (Parser.failAt span cause : Parser α) before after := by
  intro s a t run _
  cases run

theorem loop {step : σ → Parser (σ ⊕ β)} (invariant : σ → ParserState → Prop)
    (hstep : ∀ x, Ensures (step x) (invariant x) (Sum.elim invariant finally_)) (n : Nat) :
    ∀ x, Ensures (Parser.loop step n x) (invariant x) finally_ := by
  induction n with
  | zero => exact fun _ => fail
  | succ n ih =>
    intro x
    refine bind (hstep x) fun result => ?_
    cases result with
    | inl y => exact ih y
    | inr b => exact pure

theorem repeatFrom {step : σ → Parser (σ ⊕ β)} (invariant : σ → ParserState → Prop)
    (hstep : ∀ x, Ensures (step x) (invariant x) (Sum.elim invariant finally_)) (start : σ) :
    Ensures (Parser.repeatFrom start step) (invariant start) finally_ := by
  intro s b t run h
  rw [repeatFrom_run] at run
  exact loop invariant hstep _ start s b t run h

theorem recursive {rule : Parser α → Parser α}
    (hrule : ∀ p, Ensures p before after → Ensures (rule p) before after) :
    Ensures (Parser.recursive rule) before after := by
  intro s a t run h
  rw [recursive_run] at run
  exact @iterate_induction _ (Ensures · before after) rule fail hrule _ s a t run h

end Ensures

/-! ## Whole sources -/

theorem toEnd_eq_ok {p : Parser α} {s t : ParserState} {a : α} :
    p.toEnd.run s = (.ok a, t) ↔ p.run s = (.ok a, t) ∧ t.cursor.isAtEnd = true := by
  have ends (value : α) (middle : ParserState) :
      (do if ← atEnd then return value else fail .trailingToken : Parser α).run middle =
        (.ok a, t) ↔ (value = a ∧ middle = t) ∧ t.cursor.isAtEnd = true := by
    rw [show (do if ← atEnd then return value else fail .trailingToken : Parser α).run middle =
      (if middle.cursor.isAtEnd then return value else fail .trailingToken : Parser α).run middle
      from rfl]
    cases ended : middle.cursor.isAtEnd with
    | true =>
      simp only [if_true, pure_run, Prod.mk.injEq, Except.ok.injEq]
      constructor
      · rintro ⟨same, rfl⟩
        exact ⟨⟨same, rfl⟩, ended⟩
      · rintro ⟨same, -⟩
        exact same
    | false =>
      constructor
      · intro run
        cases run
      · rintro ⟨⟨-, rfl⟩, impossible⟩
        rw [ended] at impossible
        cases impossible
  unfold toEnd
  rw [bind_eq_ok]
  simp only [ends]
  constructor
  · rintro ⟨_, _, run, ⟨rfl, rfl⟩, ended⟩
    exact ⟨run, ended⟩
  · rintro ⟨run, ended⟩
    exact ⟨a, t, run, ⟨rfl, rfl⟩, ended⟩

theorem runToEnd_eq_ok {p : Parser α} {tokens : List Token} {source : Span} {a : α} :
    p.runToEnd tokens source = .ok a ↔
      ∃ s, p .global (.start tokens source) = (.ok a, s) ∧ s.cursor.isAtEnd = true := by
  unfold runToEnd
  constructor
  · intro h
    exact ⟨_, toEnd_eq_ok.1 (Prod.ext h rfl)⟩
  · rintro ⟨s, run⟩
    exact congrArg Prod.fst (toEnd_eq_ok.2 run)

end Parser

theorem Source.parse_eq_ok {source : Source} {p : Parser α} {a : α} :
    source.parse p = .ok a ↔ ∃ tokens s, source.tokens = .ok tokens ∧
      p .global (.start tokens source.whole) = (.ok a, s) ∧ s.cursor.isAtEnd = true := by
  have mapped {ε δ γ : Type} (x : Except ε γ) (f : ε → δ) (c : γ) :
      x.mapError f = .ok c ↔ x = .ok c := by
    cases x with
    | error e => exact ⟨nofun, nofun⟩
    | ok b =>
      change (Except.ok b : Except δ γ) = .ok c ↔ _
      rw [Except.ok.injEq, Except.ok.injEq]
  unfold Source.parse
  rcases read : source.tokens with fault | tokens
  · constructor
    · nofun
    · rintro ⟨_, _, impossible, _⟩
      cases impossible
  · have split : ((Except.ok tokens).mapError SourceError.lexical >>= fun tokens =>
        (p.runToEnd tokens source.whole).mapError SourceError.syntactic) =
        (p.runToEnd tokens source.whole).mapError SourceError.syntactic := rfl
    rw [split, mapped, Parser.runToEnd_eq_ok]
    simp

theorem ok_of_toOption {ε α : Type} {x : Except ε α} {a : α} (h : x.toOption = some a) :
    x = .ok a := by
  cases x with
  | error e => cases h
  | ok b =>
    cases h
    rfl

end ClassLang
