import ClassLang.Proofs.Checking.Certificates
import ClassLang.Proofs.Checking.Verdict
import ClassLang.Proofs.Parsing.Numbering

/-!
A program without errors is decorated completely: every node that is judged at all is judged sound,
written types and expressions have types, and calls refer to what they mean.

* `Source.decoration_total`: nothing is left out.
-/

namespace ClassLang

variable {p : Program} {settings : Settings} {f g : Findings} {xs ys : List Subtree}

/-! ## Decorated subtrees -/

/-- An expression is no call, and it is what a call among some subtrees calls. -/
def Expr.IsCallee (e : Expr) (xs : List Subtree) : Prop :=
  (∀ n callee args, e ≠ .call n callee args) ∧ ∃ n args, .expr (.call n e args) ∈ xs

/-- What is recorded for a subtree that stands among others, if all is well. -/
def Findings.Decorates (f : Findings) (xs : List Subtree) : Subtree → Prop
  | .expr e => (∃ type, f.cached e.id = some (.ok type)) ∨
    f.validity e.id = some true ∧ e.IsCallee xs
  | .type t => ∃ type, f.cached t.id = some (.ok type)
  | .pair both => f.validity both.node.id = some true
  | .head n => f.validity n.id = some true

def Findings.Decorated (f : Findings) (xs : List Subtree) : Prop := ∀ x ∈ xs, f.Decorates xs x

namespace Findings

theorem Decorates.mono {x : Subtree} (h : f.Decorates xs x) (sub : xs ⊆ ys) : f.Decorates ys x := by
  cases x with
  | expr e =>
    refine h.imp_right fun ⟨sound, other, n, args, listed⟩ => ?_
    exact ⟨sound, other, n, args, sub listed⟩
  | type _ | pair _ | head _ => exact h

theorem Decorates.validity {x : Subtree} (h : f.Decorates xs x) : f.validity x.id = some true := by
  cases x with
  | expr e =>
    rcases h with ⟨type, known⟩ | ⟨sound, _⟩
    · exact f.cached_of_validity known
    · exact sound
  | type t =>
    obtain ⟨type, known⟩ := h
    exact f.cached_of_validity known
  | pair _ | head _ => exact h

namespace Decorated

theorem nil : f.Decorated [] := fun _ => nofun

theorem append (left : f.Decorated xs) (right : f.Decorated ys) : f.Decorated (xs ++ ys) := by
  intro x listed
  rcases List.mem_append.1 listed with inside | inside
  · exact (left x inside).mono (List.subset_append_left _ _)
  · exact (right x inside).mono (List.subset_append_right _ _)

theorem cons {x : Subtree} (first : f.Decorates (x :: xs) x) (rest : f.Decorated xs) :
    f.Decorated (x :: xs) := by
  refine List.forall_mem_cons.2 ⟨first, fun y inside => ?_⟩
  exact (rest y inside).mono (List.subset_cons_self _ _)

end Decorated

end Findings

/-- Each of some subtrees stands somewhere. -/
def Program.Places (p : Program) (xs : List Subtree) : Prop := ∀ x ∈ xs, ∃ place, p.Stands x place

namespace Program.Places

theorem left (h : p.Places (xs ++ ys)) : p.Places xs :=
  fun x inside => h x (List.mem_append_left _ inside)

theorem right (h : p.Places (xs ++ ys)) : p.Places ys :=
  fun x inside => h x (List.mem_append_right _ inside)

theorem below {x : Subtree} (h : p.Places (x :: xs)) : p.Places xs :=
  fun y inside => h y (List.mem_cons_of_mem _ inside)

end Program.Places

/-! ## Written types -/

theorem Denoted.args {generics : List String} {t : TypeRef} {type : Ty}
    (denoted : Denoted p generics f t (.ok type)) :
    ∀ arg ∈ t.args, ∃ type, f.cached arg.id = some (.ok type) := by
  cases denoted with
  | primitive | void | param | plainClass => exact fun _ => nofun
  | array elem => exact List.forall_mem_singleton.2 ⟨_, elem⟩
  | keymap key value =>
    exact List.forall_mem_cons.2 ⟨⟨_, key⟩, List.forall_mem_singleton.2 ⟨_, value⟩⟩
  | genericClass _ _ known _ _ => exact exists_of_forall₂ known

mutual

theorem TypeRef.decorated (complete : f.Complete p) : ∀ t : TypeRef, p.Places t.subtrees →
    ∀ type, f.cached t.id = some (.ok type) → f.Decorated t.subtrees
  | .primitive .., _, type, known | .named .., _, type, known | .void .., _, type, known =>
    .cons ⟨type, known⟩ .nil
  | .array n m args, places, type, known | .keymap n m args, places, type, known
  | .generic n m _ args, places, type, known => by
    obtain ⟨place, stands⟩ := places _ (TypeRef.subtree_mem_subtrees _)
    have parts := (complete.types _ place _ stands known).args
    exact .cons ⟨type, known⟩ (TypeRef.decoratedAll complete args places.below parts)

theorem TypeRef.decoratedAll (complete : f.Complete p) : ∀ ts : List TypeRef,
    p.Places (subtreesAll ts) → (∀ t ∈ ts, ∃ type, f.cached t.id = some (.ok type)) →
      f.Decorated (subtreesAll ts)
  | [], _, _ => .nil
  | t :: rest, places, known => by
    obtain ⟨⟨type, first⟩, others⟩ := List.forall_mem_cons.1 known
    exact .append (TypeRef.decorated complete t places.left type first)
      (TypeRef.decoratedAll complete rest places.right others)

end

/-! ## Expressions -/

/-- The expressions directly below an expression. The callee of a call is passed over. -/
def Expr.parts : Expr → List Expr
  | .ident .. | .this _ | .literal .. | .new .. => []
  | .list _ elems => elems
  | .keymap _ pairs => pairs.flatMap fun pair => [pair.key, pair.value]
  | .binary _ _ a b | .index _ a b | .assign _ _ a b => [a, b]
  | .unary _ _ operand => [operand]
  | .member _ target _ _ => [target]
  | .call _ callee args => callee.target?.toList ++ args

section Complete

variable (complete : f.Complete p)
include complete

theorem Findings.Complete.judged {e : Expr} {type : Ty}
    (stands : ∃ place, p.Stands (.expr e) place) (known : f.cached e.id = some (.ok type))
    (other : ∀ n name, e ≠ .ident n name) :
    ∃ scope : Scope, scope.program = p ∧ Judged scope f e (f.resolution e.id) (.ok type) := by
  obtain ⟨_, stands⟩ := stands
  cases complete.certifies e stands.mem with
  | blank _ untyped => exact absurd known (untyped type)
  | judged program _ _ cached judged =>
    cases cached.symm.trans known
    exact ⟨_, program, judged⟩
  | named _ names =>
    cases e with
    | ident n name => exact absurd rfl (other n name)
    | _ => cases names

/-- What a member is taken from has a type, also the name of a class. -/
theorem Receives.known {scope : Scope} {target : Expr} {access : MemberAccess} {from_ : Receiver}
    {place : Place} (receives : Receives scope f target access from_)
    (stands : p.Stands (.expr target) place) : ∃ type, f.cached target.id = some (.ok type) := by
  cases receives with
  | «instance» _ known _ _ => exact ⟨_, known⟩
  | @static owner _ refers =>
    cases complete.certifies target stands.mem with
    | blank unreferred _ => cases refers.symm.trans unreferred
    | judged _ _ _ _ judged => exact absurd refers (judged.not_class owner)
    | named _ _ known _ => exact ⟨_, known⟩

/-- All expressions directly below an expression that has a type have types. -/
theorem Findings.Complete.parts {e : Expr} {type : Ty} (places : p.Places e.subtrees)
    (known : f.cached e.id = some (.ok type)) :
    ∀ part ∈ e.parts, ∃ type, f.cached part.id = some (.ok type) := by
  by_cases isIdent : ∃ n name, e = .ident n name
  · obtain ⟨n, name, rfl⟩ := isIdent
    exact fun _ => nofun
  obtain ⟨scope, program, judged⟩ := complete.judged (places _ e.subtree_mem_subtrees) known
    fun n name same => isIdent ⟨n, name, same⟩
  generalize f.resolution e.id = decl, sound : (.ok type : Resolved) = r at judged
  cases judged with
  | fault => cases sound
  | «variable» | field | this | literal | new => exact fun _ => nofun
  | list elems _ => exact exists_of_forall₂ elems
  | keymap pairs _ _ =>
    intro part listed
    obtain ⟨pair, inside, listed⟩ := List.mem_flatMap.1 listed
    obtain ⟨_, key, value, _⟩ := exists_of_forall₂ pairs pair inside
    have both : ∀ part ∈ [pair.key, pair.value], ∃ type, f.cached part.id = some (.ok type) :=
      List.forall_mem_cons.2 ⟨⟨_, key⟩, List.forall_mem_singleton.2 ⟨_, value⟩⟩
    exact both part listed
  | binary a b _ | binaryFunction a b _ _ | element a b _ | value a b _ | indexFunction a b _ _
  | assign a b _ _ =>
    exact List.forall_mem_cons.2 ⟨⟨_, a⟩, List.forall_mem_singleton.2 ⟨_, b⟩⟩
  | reference a _ | delete a _ | unary a _ | unaryFunction _ _ a _ _ =>
    exact List.forall_mem_singleton.2 ⟨_, a⟩
  | member receives _ =>
    obtain ⟨place, inside⟩ := places.below _ (Expr.subtree_mem_subtrees _)
    exact List.forall_mem_singleton.2 (receives.known complete inside)
  | call means _ args _ =>
    refine List.forall_mem_append.2 ⟨?_, exists_of_forall₂ args⟩
    cases means with
    | named _ => exact fun _ => nofun
    | member receives _ =>
      obtain ⟨place, inside⟩ := places.below.left.below _ (Expr.subtree_mem_subtrees _)
      exact List.forall_mem_singleton.2 (receives.known complete inside)

theorem Findings.Complete.pairs {n : Node} {pairs : List KeymapPair} {type : Ty}
    (stands : ∃ place, p.Stands (.expr (.keymap n pairs)) place)
    (known : f.cached (Expr.keymap n pairs).id = some (.ok type)) :
    ∀ pair ∈ pairs, f.validity pair.node.id = some true := by
  obtain ⟨scope, program, judged⟩ := complete.judged stands known fun _ _ => nofun
  generalize f.resolution _ = decl at judged
  cases judged with
  | keymap typed _ _ =>
    intro pair listed
    obtain ⟨_, _, _, sound⟩ := exists_of_forall₂ typed pair listed
    exact f.cached_of_validity sound

theorem Findings.Complete.written {n : Node} {t : TypeRef} {type : Ty}
    (stands : ∃ place, p.Stands (.expr (.new n t)) place)
    (known : f.cached (Expr.new n t).id = some (.ok type)) :
    ∃ type, f.cached t.id = some (.ok type) := by
  obtain ⟨scope, program, judged⟩ := complete.judged stands known fun _ _ => nofun
  generalize f.resolution _ = decl at judged
  cases judged with
  | new written _ => exact ⟨_, written⟩

/-- A call that has a type refers to a function or a method, and its callee, a name or a member, is
sound. -/
theorem Findings.Complete.resolved {n : Node} {callee : Expr} {args : List Expr} {type : Ty}
    (stands : ∃ place, p.Stands (.expr (.call n callee args)) place)
    (known : f.cached (Expr.call n callee args).id = some (.ok type)) :
    f.validity callee.id = some true ∧
      ((∃ n name, callee = .ident n name) ∨
        ∃ n target access name, callee = .member n target access name) ∧
      ∃ d, f.resolution n.id = some d ∧ p.Callable d := by
  obtain ⟨scope, program, judged⟩ := complete.judged stands known fun _ _ => nofun
  change Judged scope f _ (f.resolution n.id) _ at judged
  generalize f.resolution n.id = decl at judged
  cases judged with
  | call means sound _ chosen =>
    obtain ⟨c, listed, taken⟩ := List.exists_of_findSome?_eq_some chosen
    obtain ⟨_, _, _, rfl⟩ := Candidate.take?_some taken
    refine ⟨sound, ?_, c.decl, rfl, program ▸ means.callable listed⟩
    cases means with
    | named _ => exact .inl ⟨_, _, rfl⟩
    | member _ _ => exact .inr ⟨_, _, _, _, rfl⟩

end Complete

/-- All subtrees of an expression that has a type are decorated. -/
def Expr.Decorable (p : Program) (f : Findings) (e : Expr) : Prop := p.Places e.subtrees →
  ∀ type, f.cached e.id = some (.ok type) → f.Decorated e.subtrees

theorem Findings.Decorated.two {a b : Expr} (left : a.Decorable p f) (right : b.Decorable p f)
    (places : p.Places (a.subtrees ++ b.subtrees))
    (known : ∀ part ∈ [a, b], ∃ type, f.cached part.id = some (.ok type)) :
    f.Decorated (a.subtrees ++ b.subtrees) := by
  obtain ⟨⟨type, first⟩, others⟩ := List.forall_mem_cons.1 known
  obtain ⟨type', second⟩ := List.forall_mem_singleton.1 others
  exact .append (left places.left type first) (right places.right type' second)

/-- The callee of a sound call is decorated as such. -/
theorem Findings.Decorated.callee (complete : f.Complete p) {n : Node} {callee : Expr}
    {args : List Expr} {type : Ty} (places : p.Places (Expr.call n callee args).subtrees)
    (known : f.cached (Expr.call n callee args).id = some (.ok type))
    (inner : ∀ n target access name, callee = .member n target access name → target.Decorable p f)
    (arguments : f.Decorated (Expr.subtreesAll args)) :
    f.Decorated (Expr.call n callee args).subtrees := by
  obtain ⟨sound, shape, _⟩ := complete.resolved (places _ (Expr.subtree_mem_subtrees _)) known
  have whole : f.Decorates (Expr.call n callee args).subtrees (.expr (.call n callee args)) :=
    .inl ⟨type, known⟩
  have head (other : ∀ n callee' args, callee ≠ .call n callee' args) :
      f.Decorates (Expr.call n callee args).subtrees (.expr callee) :=
    .inr ⟨sound, other, n, args, List.mem_cons_self ..⟩
  have target : f.Decorated callee.subtrees.tail := by
    rcases shape with ⟨n', name, rfl⟩ | ⟨n', target, access, name, rfl⟩
    · exact .nil
    · obtain ⟨type', typed⟩ := complete.parts places known target (List.mem_cons_self ..)
      exact inner _ _ _ _ rfl places.below.left.below type' typed
  rw [Expr.subtrees, Expr.subtrees_eq callee] at whole head ⊢
  refine List.forall_mem_cons.2 ⟨whole, List.forall_mem_append.2
    ⟨List.forall_mem_cons.2 ⟨head ?_, fun x inside => ?_⟩, fun x inside => ?_⟩⟩
  · rcases shape with ⟨_, _, rfl⟩ | ⟨_, _, _, _, rfl⟩ <;> nofun
  · exact (target x inside).mono fun y below =>
      List.mem_cons_of_mem _ (List.mem_append_left _ (List.mem_cons_of_mem _ below))
  · exact (arguments x inside).mono fun y below =>
      List.mem_cons_of_mem _ (List.mem_append_right _ below)

mutual

theorem Expr.decorated (complete : f.Complete p) : ∀ e : Expr, e.Decorable p f
  | .ident .., _, type, known | .this _, _, type, known | .literal .., _, type, known =>
    .cons (.inl ⟨type, known⟩) .nil
  | .list _ elems, places, type, known =>
    .cons (.inl ⟨type, known⟩)
      (Expr.decoratedAll complete elems places.below (complete.parts places known))
  | .keymap _ pairs, places, type, known =>
    .cons (.inl ⟨type, known⟩) (Expr.decoratedPairs complete pairs places.below
      (complete.parts places known) (complete.pairs (places _ (Expr.subtree_mem_subtrees _)) known))
  | .binary _ _ a b, places, type, known | .index _ a b, places, type, known
  | .assign _ _ a b, places, type, known =>
    .cons (.inl ⟨type, known⟩) (.two (Expr.decorated complete a) (Expr.decorated complete b)
      places.below (complete.parts places known))
  | .unary _ _ operand, places, type, known => by
    obtain ⟨type', inner⟩ := complete.parts places known operand (List.mem_singleton_self _)
    exact .cons (.inl ⟨type, known⟩) (Expr.decorated complete operand places.below type' inner)
  | .new _ t, places, type, known => by
    obtain ⟨type', written⟩ := complete.written (places _ (Expr.subtree_mem_subtrees _)) known
    exact .cons (.inl ⟨type, known⟩) (t.decorated complete places.below type' written)
  | .member _ target _ _, places, type, known => by
    obtain ⟨type', inner⟩ := complete.parts places known target (List.mem_singleton_self _)
    exact .cons (.inl ⟨type, known⟩) (Expr.decorated complete target places.below type' inner)
  | .call _ callee args, places, type, known =>
    .callee complete places known (Expr.target_decorated complete callee)
      (Expr.decoratedAll complete args places.below.right fun arg listed =>
        complete.parts places known arg (List.mem_append_right _ listed))

theorem Expr.target_decorated (complete : f.Complete p) : ∀ (e : Expr) (n : Node) (target : Expr)
    (access : MemberAccess) (name : Ident), e = .member n target access name → target.Decorable p f
  | .member _ target _ _, _, _, _, _, same => by
    cases same
    exact Expr.decorated complete target
  | .ident .., _, _, _, _, same | .this _, _, _, _, _, same | .literal .., _, _, _, _, same
  | .list .., _, _, _, _, same | .keymap .., _, _, _, _, same | .binary .., _, _, _, _, same
  | .unary .., _, _, _, _, same | .new .., _, _, _, _, same | .index .., _, _, _, _, same
  | .call .., _, _, _, _, same | .assign .., _, _, _, _, same => nomatch same

theorem Expr.decoratedAll (complete : f.Complete p) : ∀ es : List Expr, p.Places (subtreesAll es) →
    (∀ e ∈ es, ∃ type, f.cached e.id = some (.ok type)) → f.Decorated (subtreesAll es)
  | [], _, _ => .nil
  | e :: rest, places, known => by
    obtain ⟨⟨type, first⟩, others⟩ := List.forall_mem_cons.1 known
    exact .append (Expr.decorated complete e places.left type first)
      (Expr.decoratedAll complete rest places.right others)

theorem Expr.decoratedPairs (complete : f.Complete p) : ∀ pairs : List KeymapPair,
    p.Places (subtreesPairs pairs) →
      (∀ e ∈ pairs.flatMap fun pair => [pair.key, pair.value],
        ∃ type, f.cached e.id = some (.ok type)) →
      (∀ pair ∈ pairs, f.validity pair.node.id = some true) → f.Decorated (subtreesPairs pairs)
  | [], _, _, _ => .nil
  | .mk n key value :: rest, places, known, sound => by
    obtain ⟨here, others⟩ := List.forall_mem_append.1 known
    obtain ⟨judged, sound⟩ := List.forall_mem_cons.1 sound
    exact .append (.cons judged (.two (Expr.decorated complete key) (Expr.decorated complete value)
      places.left.below here)) (Expr.decoratedPairs complete rest places.right others sound)

end

/-! ## Declarations -/

theorem Findings.Clean.ok (clean : f.Clean) {id : Nat} (known : (f.cached id).isSome = true) :
    ∃ type, f.cached id = some (.ok type) := by
  obtain ⟨r, known⟩ := Option.isSome_iff_exists.1 known
  cases r with
  | ok type => exact ⟨type, known⟩
  | error _ => exact absurd (f.cached_of_validity known) (clean.nodes id)

theorem Findings.Clean.sound (clean : f.Clean) {id : Nat} (judged : (f.validity id).isSome = true) :
    f.validity id = some true := by
  obtain ⟨valid, judged⟩ := Option.isSome_iff_exists.1 judged
  cases valid with
  | true => exact judged
  | false => exact absurd judged (clean.nodes id)

/-- What is covered without a fault is decorated. -/
theorem Findings.Covers.decorated (complete : f.Complete p) (clean : f.Clean) (covers : f.Covers xs)
    (places : p.Places xs) : f.Decorated xs := by
  intro x listed
  obtain ⟨y, inside, within, known⟩ := covers x listed
  have places : p.Places y.whole := fun z below => places z (within below)
  refine Decorates.mono ?_ within
  cases y with
  | expr e =>
    obtain ⟨type, known⟩ := clean.ok known
    exact e.decorated complete places type known x inside
  | type t =>
    obtain ⟨type, known⟩ := clean.ok known
    exact t.decorated complete places type known x inside
  | pair both =>
    cases List.mem_singleton.1 inside
    exact clean.sound known
  | head n =>
    cases List.mem_singleton.1 inside
    exact clean.sound known

theorem Program.bodySubtrees_embodied {x : Subtree} (listed : x ∈ p.bodySubtrees) :
    ∃ place, p.Embodied x place := by
  rcases List.mem_append.1 listed with inClass | listed
  · obtain ⟨i, declared, inside⟩ := List.mem_flatMap.1 inClass
    rcases List.mem_append.1 inside with inField | inMethod
    · obtain ⟨field, written, inside⟩ := List.mem_flatMap.1 inField
      exact ⟨_, .ofClass declared (.init written inside)⟩
    · obtain ⟨m, written, inside⟩ := List.mem_flatMap.1 inMethod
      exact ⟨_, .ofClass declared (.method written inside)⟩
  · rcases List.mem_append.1 listed with inFunction | inStatement
    · obtain ⟨i, declared, inside⟩ := List.mem_flatMap.1 inFunction
      exact ⟨_, .ofFunction declared inside⟩
    · exact ⟨_, .statement inStatement⟩

theorem Program.Embodied.mem_bodySubtrees {x : Subtree} {place : Place} (h : p.Embodied x place) :
    x ∈ p.bodySubtrees := by
  cases h with
  | ofClass declared body =>
    refine List.mem_append_left _ (List.mem_flatMap.2 ⟨_, declared, ?_⟩)
    cases body with
    | init listed inside => exact List.mem_append_left _ (List.mem_flatMap.2 ⟨_, listed, inside⟩)
    | method listed inside => exact List.mem_append_right _ (List.mem_flatMap.2 ⟨_, listed, inside⟩)
  | ofFunction declared inside =>
    refine List.mem_append_right _ (List.mem_append_left _ ?_)
    exact List.mem_flatMap.2 ⟨_, declared, inside⟩
  | statement inside => exact List.mem_append_right _ (List.mem_append_right _ inside)

namespace Phase

theorem judgeEach_judges {ids : List Nat} {verdicts : List Bool} {scope : Scope}
    (enough : ids.length ≤ verdicts.length) : Ensures (judgeEach ids verdicts) scope f fun _ g =>
      ∀ id, (f.validity id).isSome = true ∨ id ∈ ids → (g.validity id).isSome = true := by
  induction ids generalizing verdicts f with
  | nil => exact .pure fun _ known => known.resolve_right List.not_mem_nil
  | cons first rest ih =>
    cases verdicts with
    | nil => cases enough
    | cons valid others =>
      refine .learn ((ih (Nat.le_of_succ_le_succ enough)).weaken fun _ g judged id known => ?_)
      refine judged id (known.elim (fun before => .inl ?_) fun listed => ?_)
      · rw [f.validity_setValid]
        split
        · rfl
        · exact before
      · refine (List.mem_cons.1 listed).imp_left fun here => ?_
        rw [f.validity_setValid, if_pos here]
        rfl

theorem heads_judged {n : Node} (listed : n ∈ p.headNodes) :
    ((judged p settings).findings.validity n.id).isSome = true := by
  have classes : (p.classes.map Class.id).length ≤ (classVerdicts p settings).length := by
    rw [List.length_map, length_classVerdicts]
  have functions : (p.functions.map fun f => f.node.id).length ≤
      (functionVerdicts p settings).length := by
    rw [List.length_map, length_functionVerdicts]
  have all : Ensures (do
      judgeEach (p.classes.map Class.id) (classVerdicts p settings)
      judgeEach (p.functions.map fun f => f.node.id) (functionVerdicts p settings) : Check Unit)
      (.top p settings) (statements p settings).2.findings fun _ g =>
        ∀ id, id ∈ p.classes.map Class.id ∨ id ∈ (p.functions.map fun f => f.node.id) →
          (g.validity id).isSome = true :=
    .bind (judgeEach_judges classes) fun _ _ first => (judgeEach_judges functions).weaken
      fun _ _ second id known => second id (known.imp_left fun inClass => first id (.inr inClass))
  refine all (statements p settings).2 rfl n.id ?_
  rcases List.mem_append.1 listed with inClass | inFunction
  · obtain ⟨c, declared, rfl⟩ := List.mem_map.1 inClass
    exact .inl (List.mem_map_of_mem declared)
  · obtain ⟨function, declared, rfl⟩ := List.mem_map.1 inFunction
    exact .inr (List.mem_map_of_mem declared)

/-- In the end everything in the bodies has been visited. -/
theorem bodies_covered (distinct : Distinct p.nodes) :
    (judged p settings).findings.Covers p.bodySubtrees := by
  have course := (declarations_course settings distinct).1
  obtain ⟨trail, covers⟩ := statements_trail settings distinct
  have tidy := trail.tidy (course.tidy ⟨nofun, nofun⟩)
  exact covers.mono (judged_trail.extends_ tidy)

end Phase

/-! ## Programs -/

/-- The nodes of fields, methods and parameters, which get no verdict of their own. -/
def Program.memberNodes (p : Program) : List Node :=
  (p.classes.flatMap fun c => c.fields.map Field.node ++
    c.methods.flatMap fun m => m.node :: m.params.map Param.node) ++
      p.functions.flatMap fun function => function.params.map Param.node

section Program

variable (distinct : Distinct p.nodes) (none_ : (p.analyze settings).state.errors = [])
include distinct none_

theorem Program.analyze_clean : (p.analyze settings).state.findings.Clean := by
  rcases p.analyze_tells distinct settings with ⟨_, clean⟩ | ⟨_, dirty⟩
  · exact clean.2
  · exact absurd none_ dirty

/-- The type that a class extends is known. -/
theorem Program.analyze_clause {i : Nat} {written : TypeRef}
    (clause : (p.classAt i).superclass = some written) :
    ∃ type, (p.analyze settings).state.findings.cached written.id = some (.ok type) := by
  have clean := analyze_clean distinct none_
  have closed : InheritanceClosed p (p.analyze settings).state.findings :=
    Phase.judged_closed settings distinct
  obtain ⟨valid, done⟩ := closed.settled i (mem_of_extends clause)
  cases valid with
  | false => exact absurd done (clean.marks i)
  | true =>
    obtain ⟨link, linked⟩ := Option.isSome_iff_exists.1 (closed.linked i done (by rw [clause]; rfl))
    obtain ⟨written', type, clause', known, _⟩ :=
      (p.analyze_complete settings distinct).links i link linked
    cases clause.symm.trans clause'
    exact ⟨type, known⟩

/-- Everything that stands somewhere in a program without errors is decorated. -/
theorem Program.Stands.decorated {x : Subtree} {place : Place} (stands : p.Stands x place) :
    (p.analyze settings).state.findings.Decorates p.subtrees x := by
  have clean := analyze_clean distinct none_
  have complete := p.analyze_complete settings distinct
  have signed {ts : List TypeRef} (written : ts ⊆ p.signature)
      (places : p.Places (TypeRef.subtreesAll ts)) (inside : x ∈ TypeRef.subtreesAll ts) :
      (p.analyze settings).state.findings.Decorates p.subtrees x := by
    have known : ∀ t ∈ ts, ∃ type,
        (p.analyze settings).state.findings.cached t.id = some (.ok type) :=
      fun t listed => clean.ok (complete.known t (written listed))
    refine (TypeRef.decoratedAll complete ts places known x inside).mono fun y below => ?_
    obtain ⟨_, stands⟩ := places y below
    exact stands.mem
  cases stands with
  | signed h =>
    cases h with
    | ofClass listed inside =>
      exact signed (classAt_signature _) (fun y below => ⟨_, .signed (.ofClass listed below)⟩) inside
    | @ofFunction i _ listed inside =>
      refine signed (fun t written => ?_) (fun y below => ⟨_, .signed (.ofFunction listed below)⟩) inside
      rw [signature_eq]
      exact List.mem_append_right _ (List.mem_flatMap.2 ⟨i, listed, written⟩)
  | ancestral h =>
    obtain ⟨clause, inside⟩ := h
    obtain ⟨type, known⟩ := analyze_clause distinct none_ clause
    have places : p.Places _ := fun y below => ⟨_, .ancestral (.mk clause below)⟩
    refine (TypeRef.decorated complete _ places type known x inside).mono fun y below => ?_
    exact (Stands.ancestral (.mk clause below)).mem
  | embodied h =>
    have places : p.Places p.bodySubtrees := fun y below =>
      (bodySubtrees_embodied below).imp fun _ => .embodied
    have covers : (p.analyze settings).state.findings.Covers p.bodySubtrees :=
      Phase.bodies_covered distinct
    refine (covers.decorated complete clean places x h.mem_bodySubtrees).mono fun y below => ?_
    obtain ⟨_, stands⟩ := places y below
    exact stands.mem
  | head listed => exact clean.sound (Phase.heads_judged listed)

end Program

/-- A subtree of parameters and a return type is part of a written type there or the head of a
parameter. -/
theorem mem_signature_subtrees {params : List Param} {returnType : TypeRef} {x : Subtree}
    (listed : x ∈ returnType.subtrees ++ params.flatMap Param.subtrees) :
    (∃ n ∈ params.map Param.node, x = .head n) ∨
      x ∈ TypeRef.subtreesAll (params.map Param.type ++ [returnType]) := by
  rw [TypeRef.subtreesAll_append, TypeRef.subtreesAll_eq, List.flatMap_map]
  rcases List.mem_append.1 listed with inResult | inParams
  · exact .inr (List.mem_append_right _ (List.mem_append_left _ inResult))
  · obtain ⟨param, declared, inside⟩ := List.mem_flatMap.1 inParams
    rcases List.mem_cons.1 inside with rfl | inside
    · exact .inl ⟨_, List.mem_map_of_mem declared, rfl⟩
    · exact .inr (List.mem_append_left _ (List.mem_flatMap.2 ⟨param, declared, inside⟩))

theorem Program.stands_of_classAt {i : Nat} (declared : i ∈ p.classIndices) {x : Subtree}
    (listed : x ∈ (p.classAt i).subtrees) :
    (∃ n ∈ p.memberNodes, x = .head n) ∨ ∃ place, p.Stands x place := by
  have member {n : Node} (inClass : n ∈ (p.classAt i).fields.map Field.node ++
      (p.classAt i).methods.flatMap fun m => m.node :: m.params.map Param.node) : n ∈ p.memberNodes :=
    List.mem_append_left _ (List.mem_flatMap.2 ⟨_, classAt_mem declared, inClass⟩)
  have signed (inside : x ∈ TypeRef.subtreesAll (p.classAt i).signature) : ∃ place, p.Stands x place :=
    ⟨_, .signed (.ofClass declared inside)⟩
  rw [Class.signature, TypeRef.subtreesAll_append, TypeRef.subtreesAll_flatMap] at signed
  rcases List.mem_cons.1 listed with rfl | listed
  · refine .inr ⟨_, .head (List.mem_append_left _ ?_)⟩
    exact List.mem_map_of_mem (classAt_mem declared)
  rcases List.mem_append.1 listed with listed | inMethod
  · rcases List.mem_append.1 listed with inClause | inField
    · cases clause : (p.classAt i).superclass with
      | none =>
        rw [clause] at inClause
        cases inClause
      | some written =>
        rw [clause] at inClause
        exact .inr ⟨_, .ancestral (.mk clause inClause)⟩
    · obtain ⟨field, given, inside⟩ := List.mem_flatMap.1 inField
      rcases List.mem_cons.1 inside with rfl | inside
      · exact .inl ⟨_, member (List.mem_append_left _ (List.mem_map_of_mem given)), rfl⟩
      rcases List.mem_append.1 inside with inType | inInit
      · refine .inr (signed (List.mem_append_left _ ?_))
        rw [TypeRef.subtreesAll_eq, List.flatMap_map]
        exact List.mem_flatMap.2 ⟨field, given, inType⟩
      · exact .inr ⟨_, .embodied (.ofClass declared (.init given inInit))⟩
  · obtain ⟨m, given, inside⟩ := List.mem_flatMap.1 inMethod
    rcases List.mem_cons.1 inside with rfl | inside
    · refine .inl ⟨_, member (List.mem_append_right _ (List.mem_flatMap.2 ⟨m, given, ?_⟩)), rfl⟩
      exact List.mem_cons_self ..
    rcases List.mem_append.1 inside with inSignature | inBody
    · rcases mem_signature_subtrees inSignature with ⟨n, ofParam, rfl⟩ | inTypes
      · refine .inl ⟨n, member (List.mem_append_right _ (List.mem_flatMap.2 ⟨m, given, ?_⟩)), rfl⟩
        exact List.mem_cons_of_mem _ ofParam
      · exact .inr (signed (List.mem_append_right _ (List.mem_flatMap.2 ⟨m, given, inTypes⟩)))
    · exact .inr ⟨_, .embodied (.ofClass declared (.method given inBody))⟩

theorem Program.stands_of_functionAt {i : Nat} (declared : i ∈ p.functionIndices) {x : Subtree}
    (listed : x ∈ (p.functionAt i).subtrees) :
    (∃ n ∈ p.memberNodes, x = .head n) ∨ ∃ place, p.Stands x place := by
  rcases List.mem_cons.1 listed with rfl | listed
  · refine .inr ⟨_, .head (List.mem_append_right _ ?_)⟩
    exact List.mem_map_of_mem (functionAt_mem declared)
  rcases List.mem_append.1 listed with inSignature | inBody
  · rcases mem_signature_subtrees inSignature with ⟨n, ofParam, rfl⟩ | inTypes
    · refine .inl ⟨n, List.mem_append_right _ (List.mem_flatMap.2 ⟨_, ?_, ofParam⟩), rfl⟩
      exact functionAt_mem declared
    · exact .inr ⟨_, .signed (.ofFunction declared inTypes)⟩
  · exact .inr ⟨_, .embodied (.ofFunction declared inBody)⟩

/-- Every subtree of a program stands somewhere or is the head of a member or parameter. -/
theorem Program.stands_of_mem {x : Subtree} (listed : x ∈ p.subtrees) :
    (∃ n ∈ p.memberNodes, x = .head n) ∨ ∃ place, p.Stands x place := by
  rw [subtrees, flatMap_classes, flatMap_functions] at listed
  rcases List.mem_append.1 listed with listed | inStatements
  · rcases List.mem_append.1 listed with inClass | inFunction
    · obtain ⟨i, declared, inside⟩ := List.mem_flatMap.1 inClass
      exact stands_of_classAt declared inside
    · obtain ⟨i, declared, inside⟩ := List.mem_flatMap.1 inFunction
      exact stands_of_functionAt declared inside
  · exact .inr ⟨_, .embodied (.statement inStatements)⟩

/-- In a program without errors each node is sound, apart from those of fields, methods and parameters,
which get no verdict; each written type has a type, and so has each expression that is not called; and
each call refers to a function or a method. -/
theorem Source.decoration_total {source : Source} (settings : Settings) {p : Program}
    (parsed : source.parse Parser.program = .ok p) (none_ : (p.analyze settings).state.errors = []) :
    (∀ n ∈ p.nodes, n ∉ p.memberNodes →
      (p.analyze settings).state.findings.validity n.id = some true) ∧
    (∀ t ∈ p.typeRefs, ((p.analyze settings).state.findings.typeOf t.id).isSome = true) ∧
    (∀ e ∈ p.exprs, (∀ n args, .call n e args ∉ p.exprs) →
      ((p.analyze settings).state.findings.typeOf e.id).isSome = true) ∧
    ∀ n callee args, .call n callee args ∈ p.exprs →
      ∃ d, (p.analyze settings).state.findings.resolution n.id = some d ∧ p.Callable d := by
  have distinct : Distinct p.nodes := source.parse_program_nodup parsed
  have complete := p.analyze_complete settings distinct
  have decorated {x : Subtree} (listed : x ∈ p.subtrees) (other : ∀ n ∈ p.memberNodes, x ≠ .head n) :
      (p.analyze settings).state.findings.Decorates p.subtrees x := by
    rcases Program.stands_of_mem listed with ⟨n, member, same⟩ | ⟨_, stands⟩
    · exact absurd same (other n member)
    · exact stands.decorated distinct none_
  have isTyped {e : Expr} (listed : .expr e ∈ p.subtrees) (free : ¬e.IsCallee p.subtrees) :
      ∃ type, (p.analyze settings).state.findings.cached e.id = some (.ok type) :=
    (decorated listed fun _ _ => nofun).resolve_right fun ⟨_, called⟩ => free called
  refine ⟨fun n listed other => ?_, fun t listed => ?_, fun e listed free => ?_,
    fun n callee args listed => ?_⟩
  · rw [← p.subtrees_nodes] at listed
    obtain ⟨x, inside, rfl⟩ := List.mem_map.1 listed
    refine (decorated inside fun n member same => other ?_).validity
    rw [same]
    exact member
  · obtain ⟨x, listed, isType⟩ := List.mem_filterMap.1 listed
    cases x <;> cases isType
    obtain ⟨type, known⟩ := decorated listed fun _ _ => nofun
    rw [complete.tidy.cached.2 known]
    rfl
  · obtain ⟨type, known⟩ := isTyped (Program.mem_exprs.1 listed) fun ⟨_, n, args, called⟩ =>
      free n args (Program.mem_exprs.2 called)
    rw [complete.tidy.cached.2 known]
    rfl
  · have listed := Program.mem_exprs.1 listed
    obtain ⟨type, known⟩ := isTyped listed fun ⟨other, _⟩ => other n callee args rfl
    rcases Program.stands_of_mem listed with ⟨_, _, same⟩ | stands
    · cases same
    · exact (complete.resolved stands known).2.2

/-- A program without errors, in which a method and a function are called. -/
def soundCalls : Source :=
  ⟨"class A \x7b public integer size := 1; public integer twice() \x7b return size * 2; \x7d \x7d " ++
    "integer next(integer n) \x7b return n + 1; \x7d A a := new A; " ++
    "keymap[integer, integer] both := \x7b 0: a.twice(), 1: next(a.size) \x7d;", none⟩

theorem soundCalls_decorated : ∃ p, soundCalls.parse Parser.program = .ok p ∧
    (p.analyze ⟨true, true⟩).state.errors = [] ∧ p.nodes.length = 40 ∧ p.memberNodes.length = 3 ∧
    (∀ n ∈ p.nodes, n ∉ p.memberNodes →
      (p.analyze ⟨true, true⟩).state.findings.validity n.id = some true) ∧
    (∀ t ∈ p.typeRefs, ((p.analyze ⟨true, true⟩).state.findings.typeOf t.id).isSome = true) ∧
    ∀ n callee args, .call n callee args ∈ p.exprs →
      ∃ d, (p.analyze ⟨true, true⟩).state.findings.resolution n.id = some d ∧ p.Callable d := by
  have run : (soundCalls.parse Parser.program).toOption.map (fun p =>
        ((p.analyze ⟨true, true⟩).state.errors.isEmpty, p.nodes.length, p.memberNodes.length)) =
      some (true, 40, 3) := by
    decide +kernel
  obtain ⟨p, parsed, views⟩ := Option.map_eq_some_iff.1 run
  simp only [Prod.mk.injEq, List.isEmpty_iff] at views
  obtain ⟨none_, nodes, members⟩ := views
  have parsed := ok_of_toOption parsed
  obtain ⟨judged, typed, _, called⟩ := Source.decoration_total ⟨true, true⟩ parsed none_
  exact ⟨p, parsed, none_, nodes, members, judged, typed, called⟩

end ClassLang
