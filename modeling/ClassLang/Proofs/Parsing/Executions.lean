import Mathlib.Logic.Function.Iterate
import ClassLang.Proofs.Parsing.Runs

/-!
Parsing without bounds. An `Execution` goes around a loop as often as the loop asks for and takes a
recursive rule apart as often as the rule recurs; it has an end by being a finite tree. Each round
that is not the last must leave fewer tokens. `Ends p q before after` says that `q` has an execution
wherever `before` holds, that `p` is not told apart from it there, and where it leads. For `p` with
a bounded recursion and `q` with the unbounded one, this is how the bound is seen not to matter.

* `Execution.suffix`: no execution leaves the tokens it starts from.
* `Ends.repeatFrom`: a loop ends if each round reads a token.
* `Consuming.recursive`: so does a recursion that reads a token before it recurs.
-/

namespace ClassLang

namespace Parser

/-- A run from a state through others to an outcome. -/
inductive Execution : {α : Type} → Parser α → ParserState → List ParserState →
    Except SyntaxError α × ParserState → Prop where
  | pure {α : Type} (a : α) {s : ParserState} : Execution (Pure.pure a) s [] (.ok a, s)
  | look {α : Type} (f : ParserState → α) {s : ParserState} :
      Execution ⟨fun s => (.ok (f s), s)⟩ s [] (.ok (f s), s)
  | bump {s : ParserState} : Execution bump s [(bump.run s).2] (bump.run s)
  | number {α : Type} (f : Nat → α × Nat) {s : ParserState} :
      Execution ⟨fun s => (.ok (f s.nextId).1, { s with nextId := (f s.nextId).2 })⟩ s
        [{ s with nextId := (f s.nextId).2 }]
        (.ok (f s.nextId).1, { s with nextId := (f s.nextId).2 })
  | shelve {α : Type} (f : List Class → List Function → α × List Class × List Function)
      {s : ParserState} :
      Execution ⟨fun s =>
        let (a, classes, functions) := f s.classes s.functions
        (.ok a, { s with classes, functions })⟩ s
        [{ s with
          classes := (f s.classes s.functions).2.1, functions := (f s.classes s.functions).2.2 }]
        (.ok (f s.classes s.functions).1, { s with
          classes := (f s.classes s.functions).2.1, functions := (f s.classes s.functions).2.2 })
  | fail {α : Type} (cause : SyntaxCause) {s : ParserState} :
      Execution (Parser.fail cause : Parser α) s [((Parser.fail cause : Parser α).run s).2]
        ((Parser.fail cause).run s)
  | failAt {α : Type} (span : Span) (cause : SyntaxCause) {s : ParserState} :
      Execution (Parser.failAt span cause : Parser α) s
        [((Parser.failAt span cause : Parser α).run s).2] ((Parser.failAt span cause).run s)
  | within {α : Type} {p : Parser α} (c : Context) {s t : ParserState} {passed : List ParserState}
      {result : Except SyntaxError α} : Execution p { s with context := c } passed (result, t) →
      Execution (Parser.within c p) s ({ s with context := c } :: passed)
        (result, { t with context := s.context })
  | bind {α β : Type} {p : Parser α} {f : α → Parser β} {s t : ParserState} {a : α}
      {first second : List ParserState} {out : Except SyntaxError β × ParserState} :
      Execution p s first (.ok a, t) → Execution (f a) t second out →
      Execution (p >>= f) s (first ++ second) out
  | bindError {α β : Type} {p : Parser α} {f : α → Parser β} {s t : ParserState} {e : SyntaxError}
      {passed : List ParserState} : Execution p s passed (.error e, t) →
      Execution (p >>= f) s passed (.error e, t)
  | again {σ β : Type} {step : σ → Parser (σ ⊕ β)} {x y : σ} {s t : ParserState}
      {first second : List ParserState} {out : Except SyntaxError β × ParserState} :
      Execution (step x) s first (.ok (.inl y), t) →
      t.cursor.remaining < s.cursor.remaining →
      Execution (Parser.repeatFrom y step) t second out →
      Execution (Parser.repeatFrom x step) s (first ++ second) out
  | last {σ β : Type} {step : σ → Parser (σ ⊕ β)} {x : σ} {b : β} {s t : ParserState}
      {passed : List ParserState} : Execution (step x) s passed (.ok (.inr b), t) →
      Execution (Parser.repeatFrom x step) s passed (.ok b, t)
  | broken {σ β : Type} {step : σ → Parser (σ ⊕ β)} {x : σ} {e : SyntaxError} {s t : ParserState}
      {passed : List ParserState} : Execution (step x) s passed (.error e, t) →
      Execution (Parser.repeatFrom x step) s passed (.error e, t)
  | unfold {α : Type} {rule : Parser α → Parser α} {s : ParserState} {passed : List ParserState}
      {out : Except SyntaxError α × ParserState} :
      Execution (rule (Parser.recursive rule)) s passed out →
      Execution (Parser.recursive rule) s passed out

/-! ## Where executions lead -/

variable {α β σ : Type}

theorem Execution.suffix {p : Parser α} {s : ParserState} {passed : List ParserState}
    {out : Except SyntaxError α × ParserState} (run : Execution p s passed out) :
    (∀ t ∈ passed, t.cursor.tokens <:+ s.cursor.tokens) ∧
      out.2.cursor.tokens <:+ s.cursor.tokens := by
  have single {s t : ParserState} (h : t.cursor.tokens <:+ s.cursor.tokens) :
      ∀ u ∈ [t], u.cursor.tokens <:+ s.cursor.tokens := List.forall_mem_singleton.2 h
  induction run with
  | pure a | look f => exact ⟨List.forall_mem_nil _, List.suffix_refl _⟩
  | bump => exact ⟨single (bump_suffix _), bump_suffix _⟩
  | @number _ f s => exact ⟨single (List.suffix_refl s.cursor.tokens), List.suffix_refl _⟩
  | @shelve _ f s => exact ⟨single (List.suffix_refl s.cursor.tokens), List.suffix_refl _⟩
  | @fail _ cause s => exact ⟨single (List.suffix_refl s.cursor.tokens), List.suffix_refl _⟩
  | @failAt _ span cause s =>
    exact ⟨single (List.suffix_refl s.cursor.tokens), List.suffix_refl _⟩
  | within c _ ih => exact ⟨List.forall_mem_cons.2 ⟨List.suffix_refl _, ih.1⟩, ih.2⟩
  | bind _ _ first second =>
    exact ⟨List.forall_mem_append.2 ⟨first.1, fun t ht => (second.1 t ht).trans first.2⟩,
      second.2.trans first.2⟩
  | again _ _ _ first second =>
    exact ⟨List.forall_mem_append.2 ⟨first.1, fun t ht => (second.1 t ht).trans first.2⟩,
      second.2.trans first.2⟩
  | bindError _ ih | last _ ih | broken _ ih | unfold _ ih => exact ih

end Parser

/-- The tokens that are left end with the end of the source. -/
def Cursor.Ended (c : Cursor) : Prop := ∃ last, c.tokens.getLast? = some last ∧ last.kind = .eof

namespace Cursor.Ended

theorem of_suffix {c d : Cursor} (h : d.Ended) (sub : c.tokens <:+ d.tokens) : c.Ended := by
  obtain ⟨last, final, isEnd⟩ := h
  obtain ⟨front, eq⟩ := sub
  refine ⟨last, ?_, isEnd⟩
  rw [← final, ← eq, List.getLast?_append]
  simp [Cursor.tokens, List.getLast?_cons]

theorem remaining_advance_lt {c : Cursor} (h : c.Ended) (more : c.isAtEnd = false) :
    c.advance.remaining < c.remaining := by
  obtain ⟨last, final, isEnd⟩ := h
  rcases c with ⟨current, _ | ⟨next, rest⟩⟩
  · obtain rfl : current = last := Option.some.inj final
    simp [isAtEnd, isEnd] at more
  · simp [advance, more, remaining]

end Cursor.Ended

namespace Parser

/-! ## Rules -/

/-- Fewer than so many tokens are left behind the current one. -/
def Left (n : Nat) (c : Cursor) : Prop := c.Ended ∧ c.remaining < n

/-- The same, and the current token is of a kind. -/
def Seen (n : Nat) (kind : TokenKind) (c : Cursor) : Prop := Left n c ∧ c.current.kind = kind

def Ends (p q : Parser α) (before : Cursor → Prop) (after : α → Cursor → Prop) : Prop :=
  ∀ s, before s.cursor → q.run s = p.run s ∧ (∃ passed, Execution q s passed (p.run s)) ∧
    ∀ a t, p.run s = (.ok a, t) → after a t.cursor

theorem Left.succ {n : Nat} {c : Cursor} (h : Left n c) : Left (n + 1) c :=
  ⟨h.1, Nat.lt_succ_of_lt h.2⟩

namespace Ends

variable {before : Cursor → Prop} {middle : α → Cursor → Prop} {after : β → Cursor → Prop} {n : Nat}

theorem pure {a : β} (h : ∀ c, before c → after a c) :
    Ends (Pure.pure a) (Pure.pure a) before after :=
  fun _ hs => ⟨rfl, ⟨_, .pure a⟩, fun _ _ run => by cases run; exact h _ hs⟩

theorem look {f : ParserState → β} (h : ∀ s, before s.cursor → after (f s) s.cursor) :
    Ends ⟨fun s => (.ok (f s), s)⟩ ⟨fun s => (.ok (f s), s)⟩ before after :=
  fun s hs => ⟨rfl, ⟨_, .look f⟩, fun _ _ run => by cases run; exact h s hs⟩

theorem number (f : Nat → β × Nat) :
    Ends ⟨fun s => (.ok (f s.nextId).1, { s with nextId := (f s.nextId).2 })⟩
      ⟨fun s => (.ok (f s.nextId).1, { s with nextId := (f s.nextId).2 })⟩ before
      fun _ => before :=
  fun _ h => ⟨rfl, ⟨_, .number f⟩, fun _ _ run => by cases run; exact h⟩

theorem shelve (f : List Class → List Function → β × List Class × List Function) :
    Ends ⟨fun s =>
        let (a, classes, functions) := f s.classes s.functions
        (.ok a, { s with classes, functions })⟩
      ⟨fun s =>
        let (a, classes, functions) := f s.classes s.functions
        (.ok a, { s with classes, functions })⟩ before fun _ => before :=
  fun _ h => ⟨rfl, ⟨_, .shelve f⟩, fun _ _ run => by cases run; exact h⟩

theorem fail (cause : SyntaxCause) :
    Ends (Parser.fail cause : Parser β) (Parser.fail cause) before after := by
  refine fun _ _ => ⟨rfl, ⟨_, .fail cause⟩, fun _ _ run => ?_⟩
  cases run

theorem failAt (span : Span) (cause : SyntaxCause) :
    Ends (Parser.failAt span cause : Parser β) (Parser.failAt span cause) before after := by
  refine fun _ _ => ⟨rfl, ⟨_, .failAt span cause⟩, fun _ _ run => ?_⟩
  cases run

theorem bind {p q : Parser α} {f g : α → Parser β} (hp : Ends p q before middle)
    (hf : ∀ a, Ends (f a) (g a) (middle a) after) : Ends (p >>= f) (q >>= g) before after := by
  intro s h
  obtain ⟨same, ⟨passed, run⟩, leads⟩ := hp s h
  rcases first : p.run s with ⟨e | a, t⟩
  · rw [first] at run same
    have stop : (p >>= f).run s = (.error e, t) := by
      change (Parser.bind p f).run s = _
      simp only [Parser.bind, first]
    have stop' : (q >>= g).run s = (.error e, t) := by
      change (Parser.bind q g).run s = _
      simp only [Parser.bind, same]
    rw [stop, stop']
    refine ⟨rfl, ⟨_, .bindError run⟩, fun _ _ run => ?_⟩
    cases run
  · rw [first] at run same
    obtain ⟨same', ⟨passed', run'⟩, leads'⟩ := hf a t (leads a t first)
    rw [bind_of_ok first, bind_of_ok same]
    exact ⟨same', ⟨_, .bind run run'⟩, leads'⟩

theorem within {p q : Parser β} (c : Context) (h : Ends p q before after) :
    Ends (Parser.within c p) (Parser.within c q) before after := by
  intro s hs
  obtain ⟨same, ⟨passed, run⟩, leads⟩ := h { s with context := c } hs
  rw [within_run, within_run]
  refine ⟨?_, ⟨_, .within c run⟩, fun a t eq => ?_⟩
  · simp only [Parser.runIn, same]
  · obtain ⟨inner, ok, rfl⟩ := within_eq_ok.1 ((within_run p c s).trans eq)
    exact leads a inner ok

theorem weaken {p q : Parser β} {before' : Cursor → Prop} {after' : β → Cursor → Prop}
    (h : Ends p q before after) (pre : ∀ c, before' c → before c)
    (post : ∀ b c, after b c → after' b c) : Ends p q before' after' := by
  intro s hs
  obtain ⟨same, run, leads⟩ := h s (pre _ hs)
  exact ⟨same, run, fun b t eq => post b _ (leads b t eq)⟩

theorem optional {p q : Parser β} (read : β → Bool)
    (h : ∀ m, Ends p q (Left (m + 1)) fun b => Left (bif read b then m else m + 1)) :
    Ends p q (Left n) fun _ => Left n := by
  cases n with
  | zero => exact fun s left => absurd left.2 (Nat.not_lt_zero _)
  | succ n =>
    refine (h n).weaken (fun _ => id) fun b c left => ?_
    cases eq : read b with
    | true => exact Left.succ (by simpa [eq] using left)
    | false => simpa [eq] using left

theorem steady {p q : Parser β} (h : ∀ m, Ends p q (Left (m + 1)) fun _ => Left m) :
    Ends p q (Left n) fun _ => Left n := optional (fun _ => true) h

theorem seen {p q : Parser β} {kind : TokenKind} (h : Ends p q (Left n) after) :
    Ends p q (Seen n kind) after :=
  h.weaken (fun _ => And.left) fun _ _ => id

/-- Of two parsers one is chosen by whether a token has been read. -/
theorem ite {b : Bool} {p q p' q' : Parser β} (yes : Ends p q (Left n) after)
    (no : Ends p' q' (Left (n + 1)) after) :
    Ends (if b then p else p') (if b then q else q') (Left (bif b then n else n + 1)) after := by
  cases b with
  | true => exact yes
  | false => exact no

theorem branch {c : Prop} [Decidable c] {p q p' q' : Parser β} (yes : Ends p q before after)
    (no : Ends p' q' before after) :
    Ends (if c then p else p') (if c then q else q') before after := by
  split
  · exact yes
  · exact no

end Ends

/-! ## Repetition and recursion -/

theorem loop_ends {step step' : σ → Parser (σ ⊕ β)} {n : Nat}
    (hstep : ∀ x m, m < n → Ends (step x) (step' x) (Left (m + 1))
      (Sum.elim (fun _ => Left m) fun _ => Left (m + 1))) (fuel : Nat) :
    ∀ x s, Left n s.cursor → s.cursor.remaining < fuel →
      (loop step' fuel x).run s = (loop step fuel x).run s ∧
      (∃ passed, Execution (repeatFrom x step') s passed ((loop step fuel x).run s)) ∧
      ∀ b t, (loop step fuel x).run s = (.ok b, t) → Left n t.cursor := by
  induction fuel with
  | zero => exact fun _ s _ enough => absurd enough (Nat.not_lt_zero _)
  | succ fuel ih =>
    intro x s left enough
    obtain ⟨same, ⟨passed, run⟩, leads⟩ := hstep x s.cursor.remaining left.2 s
      ⟨left.1, Nat.lt_succ_self _⟩
    rcases first : (step x).run s with ⟨e | y | b, t⟩
    · rw [first] at run same
      have stop (step : σ → Parser (σ ⊕ β)) (h : (step x).run s = (.error e, t)) :
          (loop step (fuel + 1) x).run s = (.error e, t) := by
        change (Parser.bind (step x) _).run s = _
        simp only [Parser.bind, h]
      rw [stop step first, stop step' same]
      refine ⟨rfl, ⟨_, .broken run⟩, fun _ _ run => ?_⟩
      cases run
    · rw [first] at run same
      obtain ⟨ended, fewer⟩ : Left s.cursor.remaining t.cursor := leads _ t first
      have next (step : σ → Parser (σ ⊕ β)) (h : (step x).run s = (.ok (.inl y), t)) :
          (loop step (fuel + 1) x).run s = (loop step fuel y).run t := bind_of_ok h
      obtain ⟨same', ⟨passed', run'⟩, leads'⟩ := ih y t ⟨ended, by have := left.2; omega⟩ (by omega)
      rw [next step first, next step' same]
      exact ⟨same', ⟨_, .again run fewer run'⟩, leads'⟩
    · rw [first] at run same
      obtain ⟨ended, fewer⟩ : Left (s.cursor.remaining + 1) t.cursor := leads _ t first
      have done (step : σ → Parser (σ ⊕ β)) (h : (step x).run s = (.ok (.inr b), t)) :
          (loop step (fuel + 1) x).run s = (.ok b, t) := bind_of_ok h
      rw [done step first, done step' same]
      refine ⟨rfl, ⟨_, .last run⟩, ?_⟩
      rintro _ _ ⟨⟩
      exact ⟨ended, by have := left.2; omega⟩

theorem Ends.repeatFrom {step step' : σ → Parser (σ ⊕ β)} {n : Nat} {start : σ}
    (hstep : ∀ x m, m < n → Ends (step x) (step' x) (Left (m + 1))
      (Sum.elim (fun _ => Left m) fun _ => Left (m + 1))) :
    Ends (Parser.repeatFrom start step) (Parser.repeatFrom start step') (Left n)
      fun _ => Left n := by
  intro s left
  rw [repeatFrom_run, repeatFrom_run]
  exact loop_ends hstep _ start s left (Nat.lt_succ_self _)

/-- With fewer than so many tokens left `p` is not told apart from `q`, and what they accept they
have read a token of. -/
def Consuming (n : Nat) (p q : Parser α) : Prop :=
  ∀ m, m < n → Ends p q (Left (m + 1)) fun _ => Left m

namespace Consuming

variable {n : Nat} {p q : Parser α}

theorem mono {m : Nat} (h : Consuming n p q) (le : m ≤ n) : Consuming m p q :=
  fun k lt => h k (Nat.lt_of_lt_of_le lt le)

theorem steady {m : Nat} (h : Consuming n p q) (le : m ≤ n) :
    Ends p q (Left m) fun _ => Left m := by
  cases m with
  | zero => exact fun s left => absurd left.2 (Nat.not_lt_zero _)
  | succ m => exact (h m le).weaken (fun _ => id) fun _ _ => Left.succ

theorem right (h : Consuming n p q) : Consuming n q q := by
  intro m lt s left
  obtain ⟨same, run, leads⟩ := h m lt s left
  exact ⟨rfl, same ▸ run, same ▸ leads⟩

end Consuming

theorem iterate_eq (rule : Parser α → Parser α) (n : Nat) :
    iterate rule n = rule^[n] (Parser.fail .unexpectedEof) := by
  induction n with
  | zero => rfl
  | succ n ih =>
    rw [Function.iterate_succ_apply', ← ih]
    rfl

section Recursion

variable {rule rule' : Parser α → Parser α} {n : Nat}

theorem unfold_run (h : ∀ k < n, ∀ p q, Consuming k p q → Consuming (k + 1) (rule p) (rule q))
    {s : ParserState} (left : Left n s.cursor) :
    (recursive rule).run s = (rule (recursive rule)).run s := by
  have bounded (k : Nat) : k ≤ n → Consuming k (iterate rule k) (recursive rule) := by
    induction k using Nat.strongRecOn with
    | _ k ih =>
      intro le m lt s left
      obtain ⟨k, rfl⟩ := Nat.exists_eq_succ_of_ne_zero (Nat.ne_of_gt (Nat.zero_lt_of_lt lt))
      have unfolded (r : Nat) (below : r ≤ k) := h r (by omega) _ _ (ih r (by omega) (by omega))
      obtain ⟨same, ⟨passed, run⟩, leads⟩ := unfolded k (Nat.le_refl k) m lt s left
      have first := (unfolded s.cursor.remaining (by have := left.2; omega) _ (Nat.lt_succ_self _) s
        ⟨left.1, Nat.lt_succ_self _⟩).1
      exact ⟨(recursive_run rule s).trans (first.symm.trans same), ⟨_, .unfold run⟩, leads⟩
  exact (h s.cursor.remaining left.2 _ _ (bounded _ (Nat.le_of_lt left.2)) _ (Nat.lt_succ_self _) s
    ⟨left.1, Nat.lt_succ_self _⟩).1.symm

/-- A recursion that reads a token before it recurs is not told apart from its first so many steps,
whatever comes after them. -/
theorem iterate_consuming
    (h : ∀ k < n, ∀ p q, Consuming k p q → Consuming (k + 1) (rule p) (rule' q))
    (h' : ∀ k < n, ∀ p q, Consuming k p q → Consuming (k + 1) (rule' p) (rule' q))
    (stop : Parser α) (k : Nat) : k ≤ n → Consuming k (rule^[k] stop) (recursive rule') := by
  induction k with
  | zero => exact fun _ m lt => absurd lt (Nat.not_lt_zero m)
  | succ k ih =>
    intro le m lt s left
    rw [Function.iterate_succ_apply']
    obtain ⟨same, ⟨passed, run⟩, leads⟩ := h k le _ _ (ih (Nat.le_of_lt le)) m lt s left
    have unfolded := unfold_run h' (s := s) ⟨left.1, by have := left.2; omega⟩
    exact ⟨unfolded.trans same, ⟨_, .unfold run⟩, leads⟩

theorem Consuming.recursive
    (h : ∀ k < n, ∀ p q, Consuming k p q → Consuming (k + 1) (rule p) (rule' q))
    (h' : ∀ k < n, ∀ p q, Consuming k p q → Consuming (k + 1) (rule' p) (rule' q)) :
    Consuming n (Parser.recursive rule) (Parser.recursive rule') := by
  intro m lt s left
  have bounded := iterate_consuming h h' (Parser.fail .unexpectedEof) (s.cursor.remaining + 1)
    (by have := left.2; omega)
  rw [← iterate_eq] at bounded
  obtain ⟨same, run, leads⟩ := bounded s.cursor.remaining (Nat.lt_succ_self _) s
    ⟨left.1, Nat.lt_succ_self _⟩
  refine ⟨same, run, fun a t eq => ?_⟩
  obtain ⟨ended, fewer⟩ := leads a t eq
  exact ⟨ended, by have := left.2; omega⟩

end Recursion

end Parser

end ClassLang
