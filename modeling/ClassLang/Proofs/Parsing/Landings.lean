import ClassLang.Proofs.Parsing.Executions
import ClassLang.Proofs.Syntax.Spots

/-!
Where parsers stop, and where what they read stands. The tokens stand at their own numbers here. A
parser lands: if it starts at one number it comes to another, and what it has read stands between the
two, each node around all that is below it; or it fails at a stretch that does not end before it
starts. Nodes are closed in two ways, at the token read last or at the end of the last operand, and
copies stand where the originals do.

A binary expression stands from the one operand to the other, so parentheses around an operand are left
out of it; the operators in front of an operand are read before it and applied from the innermost
outwards, each of them to what stands behind it.

* `Lands.repeatFrom`, `Lands.recursive`: loops and recursive rules land if their steps do.
* `typeRef_takes`, `expression_takes`: what is read stands on the tokens read.
-/

namespace ClassLang

/-! ## Stretches of numbers -/

/-- A place on the tokens from one number up to before another, around all that is below it. -/
structure Spot.On (i j : Nat) (x : Spot) : Prop where
  starts : i ≤ x.span.start
  proper : x.span.start ≤ x.span.stop
  stops : x.span.stop < j
  holds : ∀ inner ∈ x.below, inner.Within x.span

def Between (i j : Nat) (xs : List Spot) : Prop := ∀ x ∈ xs, x.On i j

namespace Between

variable {i j : Nat} {xs ys : List Spot} {n : Node}

theorem nil : Between i j [] := fun _ => nofun

theorem append (left : Between i j xs) (right : Between i j ys) : Between i j (xs ++ ys) :=
  List.forall_mem_append.2 ⟨left, right⟩

theorem flatMap {α : Type} {items : List α} {spots : α → List Spot}
    (each : ∀ a ∈ items, Between i j (spots a)) : Between i j (items.flatMap spots) :=
  List.forall_mem_flatMap.2 each

theorem mono {i' j' : Nat} (h : Between i j xs) (first : i' ≤ i) (last : j ≤ j') :
    Between i' j' xs := fun x listed =>
  have on := h x listed
  ⟨Nat.le_trans first on.starts, on.proper, Nat.lt_of_lt_of_le on.stops last, on.holds⟩

theorem name {name : Ident} {k : Nat} (span : name.span = ⟨k, k⟩) (first : i ≤ k) (last : k < j) :
    Between i j name.spots := by
  have starts : name.span.start = k := congrArg Span.start span
  have stops : name.span.stop = k := congrArg Span.stop span
  refine List.forall_mem_singleton.2 ⟨?_, ?_, ?_, fun _ => nofun⟩
  all_goals
    dsimp only
    omega

/-- A node around spots has its place among the numbers, and the spots in its place. -/
theorem atop (inner : Between i j xs) (holds : ∀ x ∈ xs, x.span.Within n.span)
    (starts : i ≤ n.span.start) (proper : n.span.start ≤ n.span.stop) (stops : n.span.stop < j) :
    Between i j (n.atop xs) :=
  List.forall_mem_cons.2 ⟨⟨starts, proper, stops, List.forall_mem_map.2 holds⟩, inner⟩

/-- A node from a token up to the last one read. -/
theorem node (inner : Between i j xs) (span : n.span = ⟨i, j - 1⟩) (lt : i < j) :
    Between i j (n.atop xs) := by
  have starts : n.span.start = i := congrArg Span.start span
  have stops : n.span.stop = j - 1 := congrArg Span.stop span
  refine inner.atop (fun x listed => ?_) (by omega) (by omega) (by omega)
  have on := inner x listed
  exact ⟨by have := on.starts; omega, by have := on.stops; omega⟩

/-- What stands below a node stands in its place. -/
theorem outermost (h : Between i j (n.atop xs)) :
    (i ≤ n.span.start ∧ n.span.start ≤ n.span.stop ∧ n.span.stop < j) ∧
      ∀ x ∈ n.atop xs, x.span.Within n.span := by
  have outer := h _ (List.mem_cons_self ..)
  refine ⟨⟨outer.starts, outer.proper, outer.stops⟩,
    List.forall_mem_cons.2 ⟨⟨Nat.le_refl _, Nat.le_refl _⟩, fun x listed => ?_⟩⟩
  exact outer.holds _ (List.mem_map_of_mem listed)

theorem type {t : TypeRef} (h : Between i j t.spots) : t.span.start ≤ t.span.stop := by
  obtain ⟨inner, eq⟩ := t.spots_eq
  rw [eq] at h
  exact h.outermost.1.2.1

theorem expr {e : Expr} (h : Between i j e.spots) :
    (i ≤ e.span.start ∧ e.span.start ≤ e.span.stop ∧ e.span.stop < j) ∧
      ∀ x ∈ e.spots, x.span.Within e.span := by
  obtain ⟨inner, eq⟩ := e.spots_eq
  rw [eq] at h ⊢
  exact h.outermost

/-- A node from the one of two expressions to the other. -/
theorem joined {a b : Expr} (span : n.span = a.span.join b.span) (left : Between i j a.spots)
    (right : Between i j b.spots) : Between i j (n.atop (a.spots ++ b.spots)) := by
  obtain ⟨⟨_, _, _⟩, inLeft⟩ := left.expr
  obtain ⟨⟨_, _, _⟩, inRight⟩ := right.expr
  have starts : n.span.start = min a.span.start b.span.start := congrArg Span.start span
  have stops : n.span.stop = max a.span.stop b.span.stop := congrArg Span.stop span
  refine (left.append right).atop (List.forall_mem_append.2 ⟨fun x listed => ?_, fun x listed => ?_⟩)
    (by omega) (by omega) (by omega)
  · obtain ⟨first, last⟩ := inLeft x listed
    exact ⟨by omega, by omega⟩
  · obtain ⟨first, last⟩ := inRight x listed
    exact ⟨by omega, by omega⟩

end Between

/-! ## States -/

/-- The state in front of the token of a number, of `n` tokens and the end: the tokens that are left
have the numbers from it on, and what has been put aside stands on the tokens before it. -/
structure ParserState.At (n i : Nat) (s : ParserState) : Prop where
  spans : ∀ k (token : Token), s.cursor.tokens[k]? = some token → token.span = ⟨i + k, i + k⟩
  left : i + s.cursor.remaining = n
  ended : s.cursor.Ended
  prev : ∀ k, i = k + 1 → s.prev = ⟨k, k⟩
  classes : ∀ c ∈ s.classes, Between 0 i c.spots
  functions : ∀ f ∈ s.functions, Between 0 i f.spots

namespace ParserState.At

variable {n i : Nat} {s : ParserState}

theorem current (h : s.At n i) : s.cursor.current.span = ⟨i, i⟩ := h.spans 0 _ rfl

theorem bumped (h : s.At n i) (more : s.cursor.current.kind ≠ .eof) :
    (Parser.bump.run s).2.At n (i + 1) := by
  have going : s.cursor.isAtEnd = false := by simp [Cursor.isAtEnd, more]
  have here := h.current
  have fewer := h.ended.remaining_advance_lt going
  have suffix := s.cursor.advance_tokens
  have := h.left
  have eq : (Parser.bump.run s).2 =
      { s with cursor := s.cursor.advance, prev := s.cursor.current.span } :=
    if_neg (by simp [going])
  rw [eq]
  obtain ⟨next, rest, later⟩ : ∃ next rest, s.cursor.later = next :: rest := by
    cases later : s.cursor.later with
    | nil => simp [Cursor.remaining, later] at fewer
    | cons next rest => exact ⟨next, rest, rfl⟩
  have advanced : s.cursor.advance = ⟨next, rest⟩ := by simp [Cursor.advance, going, later]
  have tokens : s.cursor.tokens = s.cursor.current :: next :: rest := by rw [Cursor.tokens, later]
  refine ⟨fun k token found => ?_, ?_, h.ended.of_suffix suffix, fun k same => ?_, ?_, ?_⟩
  · dsimp only at found
    rw [advanced] at found
    have there := h.spans (k + 1) token (by rw [tokens]; exact found)
    rw [there]
    simp only [Span.mk.injEq]
    omega
  · dsimp only
    rw [advanced]
    simp only [Cursor.remaining, later, List.length_cons] at this ⊢
    omega
  · dsimp only
    rw [here, Nat.succ.inj same]
  · exact fun c listed => (h.classes c listed).mono (Nat.le_refl 0) (Nat.le_succ i)
  · exact fun f listed => (h.functions f listed).mono (Nat.le_refl 0) (Nat.le_succ i)

end ParserState.At

namespace Parser

variable {α β σ : Type} {n i : Nat}

/-! ## Rules -/

/-- A parser has come to a number no less than where it started, or has failed at a stretch. -/
inductive Landed (n i : Nat) (good : Nat → α → Prop) : Except SyntaxError α × ParserState → Prop
  | reached {j : Nat} {a : α} {t : ParserState} (le : i ≤ j) (there : t.At n j) (holds : good j a) :
      Landed n i good (.ok a, t)
  | failed {e : SyntaxError} {t : ParserState} (proper : e.span.start ≤ e.span.stop) :
      Landed n i good (.error e, t)

def Lands (n i : Nat) (good : Nat → α → Prop) (p : Parser α) : Prop :=
  ∀ s, s.At n i → Landed n i good (p.run s)

/-- The same, if the current token is of a kind. -/
def LandsOn (n i : Nat) (kind : TokenKind) (good : Nat → α → Prop) (p : Parser α) : Prop :=
  ∀ s, s.At n i → s.cursor.current.kind = kind → Landed n i good (p.run s)

theorem Landed.mono {good better : Nat → α → Prop} {k : Nat}
    {out : Except SyntaxError α × ParserState} (h : Landed n k better out) (first : i ≤ k)
    (weaker : ∀ j a, k ≤ j → better j a → good j a) : Landed n i good out := by
  cases h with
  | reached le there holds => exact .reached (Nat.le_trans first le) there (weaker _ _ le holds)
  | failed proper => exact .failed proper

namespace Lands

variable {good : Nat → α → Prop} {final : Nat → β → Prop}

theorem pure {a : α} (h : good i a) : Lands n i good (Pure.pure a : Parser α) :=
  fun _ there => .reached (Nat.le_refl i) there h

theorem bind {p : Parser α} {f : α → Parser β} (hp : Lands n i good p)
    (hf : ∀ j a, i ≤ j → good j a → Lands n j final (f a)) : Lands n i final (p >>= f) := by
  intro s there
  have first := hp s there
  change Landed n i final ((Parser.bind p f).run s)
  unfold Parser.bind
  dsimp only
  generalize p.run s = out at first
  cases first with
  | reached le there' holds => exact (hf _ _ le holds _ there').mono le fun _ _ _ => id
  | failed proper => exact .failed proper

theorem mono {p : Parser α} {better : Nat → α → Prop} (h : Lands n i better p)
    (weaker : ∀ j a, i ≤ j → better j a → good j a) : Lands n i good p :=
  fun s there => (h s there).mono (Nat.le_refl i) weaker

/-- What does not move, and has a result that does not matter. -/
theorem skip {p : Parser α} {f : α → Parser β} (still : ∀ s, ∃ a, p.run s = (.ok a, s))
    (hf : ∀ a, Lands n i final (f a)) : Lands n i final (p >>= f) := by
  intro s there
  obtain ⟨a, run⟩ := still s
  rw [bind_of_ok run]
  exact hf a s there

theorem here {f : Span → Parser β} (hf : Lands n i final (f ⟨i, i⟩)) :
    Lands n i final (Parser.here >>= f) := by
  intro s there
  have run : Parser.here.run s = (.ok ⟨i, i⟩, s) :=
    congrArg (fun span => (Except.ok span, s)) there.current
  rw [bind_of_ok run]
  exact hf s there

theorem kind {f : TokenKind → Parser β} (hf : ∀ kind, LandsOn n i kind final (f kind)) :
    Lands n i final (Parser.kind >>= f) := fun s there => hf s.cursor.current.kind s there rfl

theorem on {p : Parser α} {kind : TokenKind} (h : Lands n i good p) : LandsOn n i kind good p :=
  fun s there _ => h s there

theorem fail {cause : SyntaxCause} : Lands n i good (Parser.fail cause : Parser α) := by
  intro s there
  have proper : s.cursor.current.span.start ≤ s.cursor.current.span.stop :=
    there.current ▸ Nat.le_refl i
  exact .failed proper

theorem failAt {span : Span} {cause : SyntaxCause} (proper : span.start ≤ span.stop) :
    Lands n i good (Parser.failAt span cause : Parser α) := fun _ _ => .failed proper

theorem within {p : Parser α} {c : Context} (h : Lands n i good p) :
    Lands n i good (Parser.within c p) := by
  intro s there
  have inside := h { s with context := c }
    ⟨there.spans, there.left, there.ended, there.prev, there.classes, there.functions⟩
  rw [within_run, runIn]
  generalize p.run { s with context := c } = out at inside
  cases inside with
  | reached le there' holds =>
    exact .reached le ⟨there'.spans, there'.left, there'.ended, there'.prev, there'.classes,
      there'.functions⟩ holds
  | failed proper => exact .failed proper

theorem newNode {span : Span} {f : Node → Parser β}
    (hf : ∀ m : Node, m.span = span → Lands n i final (f m)) :
    Lands n i final (Parser.newNode span >>= f) :=
  fun s there => hf ⟨s.nextId, span⟩ rfl { s with nextId := s.nextId + 1 }
    ⟨there.spans, there.left, there.ended, there.prev, there.classes, there.functions⟩

/-- A node from a token that has been read ends with the token read last. -/
theorem nodeFrom {k : Nat} {f : Node → Parser β} (lt : k < i)
    (hf : ∀ m : Node, m.span = ⟨k, i - 1⟩ → Lands n i final (f m)) :
    Lands n i final (Parser.nodeFrom ⟨k, k⟩ >>= f) := by
  intro s there
  have join : (Span.mk k k).join s.prev = ⟨k, i - 1⟩ := by
    rw [there.prev (i - 1) (by omega), Span.join, Span.mk.injEq]
    dsimp only
    omega
  exact hf ⟨s.nextId, (Span.mk k k).join s.prev⟩ join { s with nextId := s.nextId + 1 }
    ⟨there.spans, there.left, there.ended, there.prev, there.classes, there.functions⟩

theorem loop {step : σ → Parser (σ ⊕ β)} {invariant : Nat → σ → Prop} {m : Nat}
    (hstep : ∀ k x, i ≤ k → invariant k x →
      Lands n k (fun l => Sum.elim (invariant l) (final l)) (step x)) :
    ∀ k x, i ≤ k → invariant k x → Lands n k final (Parser.loop step m x) := by
  induction m with
  | zero => exact fun _ _ _ _ => fail
  | succ m ih =>
    intro k x le holds
    refine .bind (hstep k x le holds) fun l result le' after => ?_
    cases result with
    | inl y => exact ih l y (Nat.le_trans le le') after
    | inr b => exact .pure after

theorem repeatFrom {step : σ → Parser (σ ⊕ β)} (invariant : Nat → σ → Prop)
    (hstep : ∀ k x, i ≤ k → invariant k x →
      Lands n k (fun l => Sum.elim (invariant l) (final l)) (step x)) {start : σ}
    (h : invariant i start) : Lands n i final (Parser.repeatFrom start step) := by
  intro s there
  rw [repeatFrom_run]
  exact loop hstep i start (Nat.le_refl i) h s there

theorem recursive {good : Nat → Nat → α → Prop} {rule : Parser α → Parser α}
    (hrule : ∀ p, (∀ i, Lands n i (good i) p) → ∀ i, Lands n i (good i) (rule p)) (i : Nat) :
    Lands n i (good i) (Parser.recursive rule) := by
  intro s there
  rw [recursive_run]
  exact @iterate_induction _ (fun p => ∀ i, Lands n i (good i) p) rule (fun _ => fail) hrule _ i s
    there

end Lands

namespace LandsOn

variable {good : Nat → α → Prop} {kind : TokenKind}

/-- A token that is not the end is passed. -/
theorem bump {f : Token → Parser α} (more : kind ≠ .eof)
    (hf : ∀ token : Token, token.span = ⟨i, i⟩ → Lands n (i + 1) good (f token)) :
    LandsOn n i kind good (Parser.bump >>= f) := by
  intro s there seen
  have run : Parser.bump.run s = (.ok s.cursor.current, (Parser.bump.run s).2) := rfl
  rw [bind_of_ok run]
  exact (hf _ there.current _ (there.bumped (seen ▸ more))).mono (Nat.le_succ i) fun _ _ _ => id

theorem bind {p : Parser β} {f : β → Parser α} {middle : Nat → β → Prop}
    (hp : Lands n i middle p) (hf : ∀ j b, i ≤ j → middle j b → Lands n j good (f b)) :
    LandsOn n i kind good (p >>= f) := (Lands.bind hp hf).on

theorem pure {a : α} (h : good i a) : LandsOn n i kind good (Pure.pure a : Parser α) :=
  (Lands.pure h).on

theorem fail {cause : SyntaxCause} : LandsOn n i kind good (Parser.fail cause : Parser α) :=
  Lands.fail.on

end LandsOn

/-- What is read has its places on the tokens read, at least one of them. -/
def Takes (n : Nat) (spots : α → List Spot) (p : Parser α) : Prop :=
  ∀ i, Lands n i (fun j a => i < j ∧ Between i j (spots a)) p

/-! ## Tokens -/

theorem take?_lands {wanted : TokenKind} (more : wanted ≠ .eof) :
    Lands n i (fun j span => ∀ here, span = some here → here = ⟨i, i⟩ ∧ i < j) (take? wanted) := by
  intro s there
  change Landed n i _ ((if s.cursor.current.kind == wanted then (do return some (← bump).span)
    else return none : Parser (Option Span)).run s)
  split
  · next seen =>
    have same := eq_of_beq seen
    have step : LandsOn n i wanted
        (fun j span => ∀ here, span = some here → here = ⟨i, i⟩ ∧ i < j)
        (do return some (← bump).span) := by
      refine .bump more fun token span => .pure fun here found => ?_
      cases found
      exact ⟨span, Nat.lt_succ_self i⟩
    exact step s there same
  · exact .reached (Nat.le_refl i) there fun _ => nofun

theorem bump_lands : Lands n i (fun _ _ => True) bump := by
  intro s there
  by_cases ended : s.cursor.current.kind = .eof
  · have stays : bump.run s = (.ok s.cursor.current, s) :=
      congrArg (Except.ok s.cursor.current, ·) (if_pos (by simp [Cursor.isAtEnd, ended]))
    rw [stays]
    exact .reached (Nat.le_refl i) there trivial
  · exact .reached (Nat.le_succ i) (there.bumped ended) trivial

theorem accept_lands (p : Punct) : Lands n i (fun _ _ => True) (accept p) :=
  .bind (take?_lands nofun) fun _ _ _ _ => .pure trivial

theorem acceptKeyword_lands (k : Keyword) : Lands n i (fun _ _ => True) (acceptKeyword k) :=
  .bind (take?_lands nofun) fun _ _ _ _ => .pure trivial

theorem expected_lands (text : String) {good : Nat → α → Prop} :
    Lands n i good (expected text : Parser α) := .skip (fun _ => ⟨_, rfl⟩) fun _ => .fail

theorem expectPunct_lands (p : Punct) :
    Lands n i (fun j span => span = ⟨i, i⟩ ∧ i < j) (expectPunct p) :=
  .bind (take?_lands nofun) fun
    | _, some _, _, found => .pure (found _ rfl)
    | _, none, _, _ => expected_lands _

theorem expectKeyword_lands (k : Keyword) :
    Lands n i (fun j span => span = ⟨i, i⟩ ∧ i < j) (expectKeyword k) :=
  .bind (take?_lands nofun) fun
    | _, some _, _, found => .pure (found _ rfl)
    | _, none, _, _ => expected_lands _

theorem expectIdent_takes : Takes n Ident.spots expectIdent := by
  intro i
  have taken : Lands n i (fun j name => ∀ here, name = some here → i < j ∧ Between i j here.spots)
      takeIdent? := by
    refine .kind fun kind => ?_
    split
    · refine .bump nofun fun token span => .pure fun here found => ?_
      cases found
      exact ⟨Nat.lt_succ_self i, .name span (Nat.le_refl i) (Nat.lt_succ_self i)⟩
    · exact .pure fun _ => nofun
  refine .bind taken fun j name le found => ?_
  cases name with
  | some name => exact .pure (found name rfl)
  | none =>
    refine .skip (fun _ => ⟨_, rfl⟩) fun ended => ?_
    split <;> exact .fail

theorem takePunctOf?_lands (marks : List Punct) :
    Lands n i (fun _ found => ∀ mark span, found = some (mark, span) → span = ⟨i, i⟩)
      (takePunctOf? marks) := by
  refine .kind fun kind => ?_
  split
  · split
    · refine .bump nofun fun token span => .pure fun mark here found => ?_
      cases found
      exact span
    · exact .pure fun _ _ => nofun
  · exact .pure fun _ _ => nofun

theorem commaList_lands {item : Parser α} {spots : α → List Spot} (closing : Punct)
    (cause : SyntaxCause) (h : Takes n spots item) :
    Lands n i (fun j items => ∀ a ∈ items, Between i j (spots a)) (commaList closing cause item) := by
  refine .bind (accept_lands _) fun j closed first _ => ?_
  split
  · exact .pure fun _ => nofun
  refine .repeatFrom (fun k items => ∀ a ∈ items, Between i k (spots a)) (fun k items le all => ?_)
    fun _ => nofun
  refine .bind (h k) fun l a le' ⟨_, there⟩ => .bind (accept_lands _) fun m comma le'' _ => ?_
  have extended (m : Nat) (le'' : l ≤ m) : ∀ b ∈ a :: items, Between i m (spots b) :=
    List.forall_mem_cons.2 ⟨there.mono (by omega) le'',
      fun b listed => (all b listed).mono (Nat.le_refl i) (by omega)⟩
  split
  · exact .pure (extended m le'')
  refine .bind (accept_lands _) fun o closed le''' _ => ?_
  split
  · refine .pure fun b listed => extended o (by omega) b ?_
    exact List.mem_reverse.1 listed
  · exact .fail

/-! ## Types -/

theorem modifiers_lands : Lands n i (fun _ _ => True) modifiers := by
  refine .repeatFrom (fun _ _ => True) (fun k m _ _ => .kind fun kind => ?_) trivial
  have another (present : Bool) (word : Keyword) (added : Modifiers) :
      LandsOn n k (.keyword word) (fun _ => Sum.elim (fun _ => True) fun _ => True)
        (if present then Parser.fail (.duplicateModifier word)
          else do let _ ← bump; return .inl added : Parser (Modifiers ⊕ Modifiers)) := by
    split
    · exact .fail
    · exact .bump nofun fun _ _ => .pure trivial
  split
  · exact another _ _ _
  · exact another _ _ _
  · exact another _ _ _
  · exact .pure trivial

section Types

variable {type : Parser TypeRef}

theorem typeArgs?_lands (h : Takes n TypeRef.spots type) :
    Lands n i (fun j args => Between i j (TypeRef.spotsAll (args.getD []))) (typeArgs? type) := by
  refine .bind (accept_lands _) fun j bracket le _ => ?_
  split
  · refine .bind (commaList_lands _ _ h) fun k args le' all => .pure ?_
    rw [Option.getD_some, TypeRef.spotsAll_eq]
    exact (Between.flatMap all).mono le (Nat.le_refl k)
  · exact .pure .nil

theorem typeWith_takes (h : Takes n TypeRef.spots type) (allowVoid : Bool) :
    Takes n TypeRef.spots (typeWith type allowVoid) := by
  intro i
  refine .here (.bind modifiers_lands fun j mods le _ => .kind fun kind => ?_)
  split
  · split
    · exact .fail
    · exact .bump nofun fun _ _ => .nodeFrom (by omega) fun m span =>
        .pure ⟨by omega, .node .nil span (by omega)⟩
  · refine .bump nofun fun _ _ => .bind (typeArgs?_lands h) fun k args le' inner =>
      .nodeFrom (by omega) fun m span => .pure ⟨by omega, ?_⟩
    exact .node (inner.mono (by omega) (Nat.le_refl k)) span (by omega)
  · refine .bump nofun fun _ _ => .bind (typeArgs?_lands h) fun k args le' inner =>
      .nodeFrom (by omega) fun m span => .pure ⟨by omega, ?_⟩
    exact .node (inner.mono (by omega) (Nat.le_refl k)) span (by omega)
  · exact .bump nofun fun _ _ => .nodeFrom (by omega) fun m span =>
      .pure ⟨by omega, .node .nil span (by omega)⟩
  · refine .bind (expectIdent_takes j) fun k name _ ⟨lt, named⟩ =>
      .bind (typeArgs?_lands h) fun l args le' inner => ?_
    have named : Between i l name.spots := named.mono le le'
    cases args with
    | some args =>
      exact .nodeFrom (by omega) fun m span => .pure ⟨by omega,
        .node (named.append (inner.mono (by omega) (Nat.le_refl l))) span (by omega)⟩
    | none =>
      exact .nodeFrom (by omega) fun m span => .pure ⟨by omega, .node named span (by omega)⟩
  · exact .fail
  · exact .fail

theorem typeRef_takes : Takes n TypeRef.spots typeRef :=
  Lands.recursive fun _ h => typeWith_takes h false

theorem returnType_takes : Takes n TypeRef.spots returnType := typeWith_takes typeRef_takes true

end Types

/-! ## Operators -/

section Operators

variable {next operand : Parser Expr} {k : Nat}

/-- What an expression is read as from one number to another. -/
abbrev ExprFrom (k j : Nat) (e : Expr) : Prop := k < j ∧ Between k j e.spots

theorem binaryNode_lands (op : BinaryOp) {lhs rhs : Expr} (lt : k < i)
    (left : Between k i lhs.spots) (right : Between k i rhs.spots) :
    Lands n i (ExprFrom k) (binaryNode op lhs rhs) :=
  .newNode fun _ span => .pure ⟨lt, .joined span left right⟩

theorem unaryNode_lands (op : UnaryOp) {operand : Expr} (lt : k < i)
    (inner : Between k i operand.spots) :
    Lands n i (ExprFrom k) (unaryNode op ⟨k, k⟩ operand) :=
  .nodeFrom lt fun _ span => .pure ⟨lt, .node inner span lt⟩

theorem freshCopy_lands {e : Expr} (there : Between k i e.spots) :
    Lands n i (fun j copy => Between k j copy.spots) (freshCopy e) := by
  intro s before
  refine .reached (Nat.le_refl i) ⟨before.spans, before.left, before.ended, before.prev,
    before.classes, before.functions⟩ ?_
  rw [e.spots_renumber]
  exact there

theorem operatorOf?_lands (ops : List BinaryOp) :
    Lands n i (fun _ _ => True) (operatorOf? ops) := by
  refine .kind fun kind => ?_
  split
  · next op found =>
    have token : op.token = kind := by simpa using List.find?_some found
    have more : kind ≠ .eof := by
      rw [← token]
      cases op <;> nofun
    exact .bump more fun _ _ => .pure trivial
  · exact .pure trivial

theorem leftAssoc_takes (ops : List BinaryOp) (h : Takes n Expr.spots next) :
    Takes n Expr.spots (leftAssoc ops next) := by
  refine fun i => .bind (h i) fun _ first _ there =>
    .repeatFrom (ExprFrom i) (fun k lhs _ ⟨lt, left⟩ => ?_) there
  refine .bind (operatorOf?_lands ops) fun l op le _ => ?_
  cases op with
  | some op =>
    refine .bind (h l) fun m rhs le' ⟨_, right⟩ => ?_
    exact .bind (binaryNode_lands op (by omega) (left.mono (Nat.le_refl i) (by omega))
      (right.mono (by omega) (Nat.le_refl m))) fun _ _ _ both => .pure both
  | none => exact .pure ⟨by omega, left.mono (Nat.le_refl i) le⟩

/-- Operators, each with an operand that stands between two numbers. -/
abbrev OperandsFrom (i j : Nat) (read : List (BinaryOp × Expr)) : Prop :=
  ∀ pair ∈ read, Between i j pair.2.spots

theorem operations_lands (ops : List BinaryOp) (h : Takes n Expr.spots next) :
    Lands n i (OperandsFrom i) (operations ops next) := by
  refine .repeatFrom (OperandsFrom i) (fun k read _ all => ?_) fun _ => nofun
  refine .bind (operatorOf?_lands ops) fun l op le _ => ?_
  cases op with
  | some op =>
    refine .bind (h l) fun m rhs le' ⟨_, right⟩ => .pure (List.forall_mem_cons.2 ⟨?_, ?_⟩)
    · exact right.mono (by omega) (Nat.le_refl m)
    · exact fun pair listed => (all pair listed).mono (Nat.le_refl i) (by omega)
  | none =>
    exact .pure fun pair listed => (all pair (List.mem_reverse.1 listed)).mono (Nat.le_refl i) le

theorem comparisons_lands (lhs : Expr) (rest : List (BinaryOp × Expr)) (lt : k < i)
    (first : Between k i lhs.spots) (others : OperandsFrom k i rest) :
    Lands n i (fun j es => ∀ e ∈ es, ExprFrom k j e) (comparisons lhs rest) := by
  induction rest generalizing lhs i with
  | nil => exact .pure fun _ => nofun
  | cons pair rest ih =>
    obtain ⟨op, rhs⟩ := pair
    obtain ⟨second, others⟩ := List.forall_mem_cons.1 others
    refine .bind (freshCopy_lands second) fun j shared le copied => ?_
    refine .bind (binaryNode_lands op (by omega) (first.mono (Nat.le_refl k) le)
      (second.mono (Nat.le_refl k) le)) fun l comparison le' made => ?_
    have others : OperandsFrom k l rest := fun pair listed =>
      (others pair listed).mono (Nat.le_refl k) (by omega)
    refine .bind (ih shared (by omega) (copied.mono (Nat.le_refl k) le') others)
      fun m es le'' all => .pure ?_
    exact List.forall_mem_cons.2 ⟨⟨by omega, made.2.mono (Nat.le_refl k) le''⟩, all⟩

theorem conjunction_lands (first : Expr) (rest : List Expr) (here : ExprFrom k i first)
    (others : ∀ e ∈ rest, ExprFrom k i e) : Lands n i (ExprFrom k) (conjunction first rest) := by
  induction rest generalizing first with
  | nil => exact .pure here
  | cons second rest ih =>
    obtain ⟨next, others⟩ := List.forall_mem_cons.1 others
    refine .bind (ih second next others) fun j e le ⟨lt, right⟩ => ?_
    exact binaryNode_lands .and lt (here.2.mono (Nat.le_refl k) le) right

theorem chain_takes (ops : List BinaryOp) (h : Takes n Expr.spots next) :
    Takes n Expr.spots (chain ops next) := by
  refine fun i => .bind (h i) fun j first le ⟨lt, there⟩ =>
    .bind (operations_lands ops h) fun k others le' all => ?_
  have there : Between i k first.spots := there.mono (Nat.le_refl i) le'
  have all : OperandsFrom i k others := fun pair listed => (all pair listed).mono le (Nat.le_refl k)
  refine .bind (comparisons_lands first others (by omega) there all) fun l es le'' made => ?_
  split
  · exact .pure ⟨by omega, there.mono (Nat.le_refl i) le''⟩
  · obtain ⟨first, rest⟩ := List.forall_mem_cons.1 made
    exact conjunction_lands _ _ first rest

theorem binary_takes (ls : List Level) (h : Takes n Expr.spots operand) :
    Takes n Expr.spots (binary ls operand) := by
  induction ls with
  | nil => exact h
  | cons l tighter ih =>
    cases l with
    | leftAssoc ops => exact leftAssoc_takes ops ih
    | chain ops => exact chain_takes ops ih

/-- Unary operators at tokens between two numbers, each before those after it. -/
structure OperatorsFrom (i j : Nat) (ops : List (UnaryOp × Span)) : Prop where
  tokens : ∀ op ∈ ops, ∃ k, op.2 = ⟨k, k⟩ ∧ i ≤ k ∧ k < j
  ordered : ops.Pairwise fun op op' => op.2.start < op'.2.start

theorem OperatorsFrom.mono {i j k : Nat} {ops : List (UnaryOp × Span)} (h : OperatorsFrom i j ops)
    (le : j ≤ k) : OperatorsFrom i k ops := by
  refine ⟨fun op listed => ?_, h.ordered⟩
  obtain ⟨m, span, first, last⟩ := h.tokens op listed
  exact ⟨m, span, first, Nat.lt_of_lt_of_le last le⟩

theorem unaryOps_lands {op? : TokenKind → Option UnaryOp} (more : op? .eof = none) :
    Lands n i (OperatorsFrom i) (unaryOps op?) := by
  refine .repeatFrom (fun j read => OperatorsFrom i j read.reverse) (fun k read le before => ?_)
    ⟨fun _ => nofun, .nil⟩
  refine .here (.kind fun kind => ?_)
  split
  · next op found =>
    have going : kind ≠ .eof := by
      rintro rfl
      cases more.symm.trans found
    refine .bump going fun _ _ => .pure ?_
    change OperatorsFrom i (k + 1) ((op, ⟨k, k⟩) :: read).reverse
    rw [List.reverse_cons]
    refine ⟨List.forall_mem_append.2 ⟨(before.mono (Nat.le_succ k)).tokens,
      List.forall_mem_singleton.2 ⟨k, rfl, le, Nat.lt_succ_self k⟩⟩, ?_⟩
    refine List.pairwise_append.2
      ⟨before.ordered, List.pairwise_singleton .., fun a listed b last => ?_⟩
    obtain ⟨m, span, -, lt⟩ := before.tokens a listed
    rw [List.mem_singleton.1 last, span]
    exact lt
  · exact .pure before

/-- Each operator stands before its operand, for it stands before those that are applied first. -/
theorem applyUnary_lands {operand : Expr} (ops : List (UnaryOp × Span)) {m : Nat}
    (before : OperatorsFrom k m ops) (le : k ≤ m) (lt : m < i) (there : Between m i operand.spots) :
    Lands n i (ExprFrom k) (applyUnary operand ops) := by
  induction ops generalizing k with
  | nil => exact .pure ⟨by omega, there.mono le (Nat.le_refl i)⟩
  | cons first inner ih =>
    obtain ⟨op, start⟩ := first
    obtain ⟨⟨l, rfl, first, last⟩, tokens⟩ := List.forall_mem_cons.1 before.tokens
    obtain ⟨earlier, ordered⟩ := List.pairwise_cons.1 before.ordered
    have rest : OperatorsFrom l m inner := by
      refine ⟨fun op listed => ?_, ordered⟩
      obtain ⟨k', span, -, below⟩ := tokens op listed
      have after := earlier op listed
      rw [span] at after
      exact ⟨k', span, Nat.le_of_lt after, below⟩
    refine .bind (ih rest (Nat.le_of_lt last)) fun j e _ ⟨lt', inside⟩ => ?_
    exact (unaryNode_lands op lt' inside).mono fun j' e' _ ⟨lt'', around⟩ =>
      ⟨by omega, around.mono first (Nat.le_refl j')⟩

theorem unary_takes {op? : TokenKind → Option UnaryOp} (more : op? .eof = none)
    (h : Takes n Expr.spots operand) : Takes n Expr.spots (unary op? operand) :=
  fun _ => .bind (unaryOps_lands more) fun j ops le before =>
    .bind (h j) fun _ _ _ ⟨lt, there⟩ => applyUnary_lands ops before le lt there

theorem powerOf_lands (base : Expr) (rest : List Expr) (here : ExprFrom k i base)
    (others : ∀ e ∈ rest, ExprFrom k i e) : Lands n i (ExprFrom k) (powerOf base rest) := by
  induction rest generalizing base with
  | nil => exact .pure here
  | cons second rest ih =>
    obtain ⟨next, others⟩ := List.forall_mem_cons.1 others
    refine .bind (ih second next others) fun j e le ⟨lt, right⟩ => ?_
    exact binaryNode_lands .pow lt (here.2.mono (Nat.le_refl k) le) right

theorem power_takes (h : Takes n Expr.spots operand) : Takes n Expr.spots (power operand) := by
  refine fun i => .bind (h i) fun j base le ⟨lt, there⟩ =>
    .bind (operations_lands _ h) fun k exponents le' all => ?_
  refine powerOf_lands base _ ⟨by omega, there.mono (Nat.le_refl i) le'⟩ fun e listed => ?_
  obtain ⟨pair, read, rfl⟩ := List.mem_map.1 listed
  exact ⟨by omega, (all pair read).mono le (Nat.le_refl k)⟩

end Operators

/-! ## Expressions -/

section Expressions

variable {nested expr : Parser Expr}

theorem keymapPair_takes (h : Takes n Expr.spots nested) :
    Takes n KeymapPair.spots (keymapPair nested) := by
  refine fun i => .here (.bind (h i) fun j key le ⟨lt, left⟩ =>
    .bind (expectPunct_lands _) fun k _ le' _ => .bind (h k) fun l value le'' ⟨lt', right⟩ =>
    .nodeFrom (by omega) fun m span => .pure ⟨by omega, ?_⟩)
  have left : Between i l key.spots := left.mono (Nat.le_refl i) (by omega)
  have right : Between i l value.spots := right.mono (by omega) (Nat.le_refl l)
  exact .node (left.append right) span (by omega)

theorem primary_takes (h : Takes n Expr.spots nested) : Takes n Expr.spots (primary nested) := by
  intro i
  have word (make : Node → Expr) (leaf : ∀ m, (make m).spots = m.atop []) {kind : TokenKind}
      (more : kind ≠ .eof) : LandsOn n i kind (ExprFrom i) (do
        let _ ← bump
        return make (← nodeFrom ⟨i, i⟩)) := by
    refine .bump more fun _ _ => .nodeFrom (Nat.lt_succ_self i) fun m span =>
      .pure ⟨Nat.lt_succ_self i, ?_⟩
    rw [leaf]
    exact .node .nil span (Nat.lt_succ_self i)
  refine .here (.kind fun kind => ?_)
  dsimp only
  split
  · exact .bind (expectIdent_takes i) fun j name _ ⟨lt, named⟩ => .nodeFrom lt fun m span =>
      .pure ⟨lt, .node named span lt⟩
  · exact word (.literal · _) (fun _ => rfl) nofun
  · exact word .this (fun _ => rfl) nofun
  · exact word (.literal · (.bool true)) (fun _ => rfl) nofun
  · exact word (.literal · (.bool false)) (fun _ => rfl) nofun
  · exact word (.literal · .null) (fun _ => rfl) nofun
  · exact word (.literal · .undefined) (fun _ => rfl) nofun
  · refine .bump nofun fun _ _ => .bind (h (i + 1)) fun j inner _ ⟨lt, there⟩ =>
      .bind (expectPunct_lands _) fun k _ le _ => .pure ⟨by omega, ?_⟩
    exact there.mono (Nat.le_succ i) le
  · refine .bump nofun fun _ _ => .bind (commaList_lands _ _ h) fun j elems le all =>
      .nodeFrom (by omega) fun m span => .pure ⟨by omega, ?_⟩
    rw [Expr.spots, Expr.spotsAll_eq]
    exact .node ((Between.flatMap all).mono (Nat.le_succ i) (Nat.le_refl j)) span (by omega)
  · refine .bump nofun fun _ _ => .bind (commaList_lands _ _ (keymapPair_takes h))
      fun j pairs le all => .nodeFrom (by omega) fun m span => .pure ⟨by omega, ?_⟩
    rw [Expr.spots, Expr.spotsPairs_eq]
    exact .node ((Between.flatMap all).mono (Nat.le_succ i) (Nat.le_refl j)) span (by omega)
  · exact .fail
  · exact .fail

theorem postfixStep_lands (h : Takes n Expr.spots nested) {k : Nat} {target : Expr}
    (there : ExprFrom k i target) :
    Lands n i (fun j => Sum.elim (ExprFrom k j) (ExprFrom k j))
      (postfixStep nested ⟨k, k⟩ target) := by
  obtain ⟨lt, there⟩ := there
  have target (j : Nat) (le : i ≤ j) : Between k j target.spots := there.mono (Nat.le_refl k) le
  have accessed (access : MemberAccess) (j : Nat) (le : i ≤ j) :
      Lands n j (fun j => Sum.elim (ExprFrom k j) (ExprFrom k j)) (do
        let name ← expectIdent
        return .inl (.member (← nodeFrom ⟨k, k⟩) _ access name) : Parser (Expr ⊕ Expr)) :=
    .bind (expectIdent_takes j) fun l name le' ⟨_, named⟩ => .nodeFrom (by omega) fun m span =>
      .pure ⟨by omega, .node ((target l (by omega)).append (named.mono (by omega) (Nat.le_refl l)))
        span (by omega)⟩
  refine .bind (accept_lands _) fun a dot atDot _ => ?_
  split
  · exact accessed .dot a atDot
  refine .bind (accept_lands _) fun b arrow atArrow _ => ?_
  split
  · exact accessed .arrow b (by omega)
  refine .bind (accept_lands _) fun c bracket atBracket _ => ?_
  split
  · refine .bind (h c) fun l index le ⟨_, inner⟩ => .bind (expectPunct_lands _) fun m _ le' _ =>
      .nodeFrom (by omega) fun o span => .pure ⟨by omega, ?_⟩
    exact .node ((target m (by omega)).append (inner.mono (by omega) le')) span (by omega)
  refine .bind (accept_lands _) fun d paren atParen _ => ?_
  split
  · refine .bind (commaList_lands _ _ h) fun m args le all => .nodeFrom (by omega) fun o span =>
      .pure ⟨by omega, ?_⟩
    rw [Expr.spots, Expr.spotsAll_eq]
    have args : Between k m (args.flatMap Expr.spots) :=
      (Between.flatMap all).mono (by omega) (Nat.le_refl m)
    exact .node ((target m (by omega)).append args) span (by omega)
  · exact .pure ⟨by omega, target d (by omega)⟩

theorem postfixed_takes (h : Takes n Expr.spots nested) : Takes n Expr.spots (postfixed nested) :=
  fun i => .here (.bind (primary_takes h i) fun _ _ _ there =>
    .repeatFrom (ExprFrom i) (fun _ _ _ => postfixStep_lands h) there)

theorem allocation_takes (h : Takes n Expr.spots nested) :
    Takes n Expr.spots (allocation nested) := by
  refine fun i => .here (.bind (acceptKeyword_lands _) fun j allocated le _ => ?_)
  split
  · exact .bind (typeRef_takes j) fun k type le' ⟨lt, there⟩ => .nodeFrom (by omega) fun m span =>
      .pure ⟨by omega, .node (there.mono le (Nat.le_refl k)) span (by omega)⟩
  have operand (k : Nat) (le : i ≤ k) {p : Parser Expr} (reads : Takes n Expr.spots p) :
      Lands n k (ExprFrom i) p :=
    (reads k).mono fun l e le' ⟨lt, there⟩ => ⟨by omega, there.mono le (Nat.le_refl l)⟩
  refine .bind (acceptKeyword_lands _) fun k deleted le' _ => ?_
  split
  · refine .skip (fun _ => ⟨_, rfl⟩) fun another => .skip (fun _ => ⟨_, rfl⟩) fun another' => ?_
    split
    · exact .fail
    · exact .bind (operand k (by omega) (postfixed_takes h)) fun l e le'' ⟨lt, there⟩ =>
        unaryNode_lands .delete lt there
  · exact operand k (by omega) (postfixed_takes h)

theorem operation_takes (h : Takes n Expr.spots nested) : Takes n Expr.spots (operation nested) :=
  binary_takes _ (unary_takes rfl (power_takes (unary_takes rfl (allocation_takes h))))

/-! ## Assignments -/

theorem inside_takes (h : Takes n Expr.spots expr) : Takes n Expr.spots (inside expr) :=
  fun i => .skip (fun _ => ⟨_, rfl⟩) fun _ => .within (h i)

theorem storedValue_lands (mark : Punct) {target value : Expr} {k : Nat} (lt : k < i)
    (left : Between k i target.spots) (right : Between k i value.spots) :
    Lands n i (fun j stored => Between k j stored.2.spots) (storedValue mark target value) := by
  unfold storedValue
  split
  · refine .bind (freshCopy_lands left) fun j copy le copied => ?_
    exact .bind (binaryNode_lands _ (by omega) copied (right.mono (Nat.le_refl k) le))
      fun l stored _ made => .pure made.2
  · exact .pure right

theorem assignment_takes (h : Takes n Expr.spots expr) : Takes n Expr.spots (assignment expr) := by
  refine fun i => .bind (operation_takes (inside_takes h) i) fun j target le ⟨lt, there⟩ =>
    .bind (takePunctOf?_lands _) fun k found le' seen => ?_
  match found, seen with
  | none, _ => exact .pure ⟨by omega, there.mono (Nat.le_refl i) le'⟩
  | some (mark, span), seen =>
    cases seen mark span rfl
    refine .skip (fun _ => ⟨_, rfl⟩) fun context => ?_
    split
    · exact .failAt (Nat.le_refl j)
    split
    · exact .failAt there.expr.1.2.1
    refine .bind (h k) fun l value le'' ⟨lt', right⟩ => ?_
    refine .bind (storedValue_lands mark (by omega) (there.mono (Nat.le_refl i) (by omega))
      (right.mono (by omega) (Nat.le_refl l))) fun m stored le3 made => ?_
    exact .newNode fun _ span => .pure ⟨by omega,
      .joined span (there.mono (Nat.le_refl i) (by omega)) made⟩

theorem expression_takes : Takes n Expr.spots expression :=
  Lands.recursive fun _ => assignment_takes

theorem nestedExpression_takes : Takes n Expr.spots nestedExpression :=
  inside_takes expression_takes

end Expressions

end Parser

end ClassLang
