import ClassLang.Proofs.Checking.ExprTrails

/-!
Checking statements and bodies leaves a trail over their subtrees, and none of them is left out.
-/

namespace ClassLang

variable {α β : Type} {known : Program → List TypeRef} {xs ys zs : List Subtree}

/-! ## Subtrees that are covered -/

/-- An expression or a written type with all that is below it. -/
def Subtree.whole : Subtree → List Subtree
  | .expr e => e.subtrees
  | .type t => t.subtrees
  | .pair both => [.pair both]
  | .head n => [.head n]

/-- There is a result for an expression or a written type, and for the rest a verdict. -/
def Findings.Knows (f : Findings) : Subtree → Prop
  | .expr e => (f.cached e.id).isSome = true
  | .type t => (f.cached t.id).isSome = true
  | .pair both => (f.validity both.node.id).isSome = true
  | .head n => (f.validity n.id).isSome = true

/-- Each of some subtrees is known, or is a part of one of them that is. -/
def Findings.Covers (f : Findings) (xs : List Subtree) : Prop :=
  ∀ x ∈ xs, ∃ y : Subtree, x ∈ y.whole ∧ y.whole ⊆ xs ∧ f.Knows y

namespace Findings

variable {f g : Findings}

theorem Knows.mono {x : Subtree} (h : f.Knows x) (later : f.Extends g) : g.Knows x := by
  have cached {id : Nat} (known : (f.cached id).isSome = true) : (g.cached id).isSome = true := by
    obtain ⟨r, known⟩ := Option.isSome_iff_exists.1 known
    rw [later.cached known]
    rfl
  have validity {id : Nat} (judged : (f.validity id).isSome = true) :
      (g.validity id).isSome = true := by
    obtain ⟨valid, judged⟩ := Option.isSome_iff_exists.1 judged
    rw [later.validity judged]
    rfl
  cases x with
  | expr _ | type _ => exact cached h
  | pair _ | head _ => exact validity h

namespace Covers

theorem nil : f.Covers [] := fun _ => nofun

theorem whole {y : Subtree} (known : f.Knows y) : f.Covers y.whole :=
  fun _ inside => ⟨y, inside, List.Subset.refl _, known⟩

theorem mono (h : f.Covers xs) (later : f.Extends g) : g.Covers xs := by
  intro x listed
  obtain ⟨y, inside, within, known⟩ := h x listed
  exact ⟨y, inside, within, known.mono later⟩

theorem append (left : f.Covers xs) (right : f.Covers ys) : f.Covers (xs ++ ys) := by
  intro x listed
  rcases List.mem_append.1 listed with inside | inside
  · obtain ⟨y, part, within, known⟩ := left x inside
    exact ⟨y, part, List.Subset.trans within (List.subset_append_left _ _), known⟩
  · obtain ⟨y, part, within, known⟩ := right x inside
    exact ⟨y, part, List.Subset.trans within (List.subset_append_right _ _), known⟩

theorem perm (h : f.Covers xs) (same : xs.Perm ys) : f.Covers ys := by
  intro x listed
  obtain ⟨y, part, within, known⟩ := h x (same.mem_iff.2 listed)
  exact ⟨y, part, List.Subset.trans within same.subset, known⟩

theorem types {ts : List TypeRef} {rs : List Resolved}
    (known : List.Forall₂ (fun t r => f.cached t.id = some r) ts rs) :
    f.Covers (TypeRef.subtreesAll ts) := by
  induction known with
  | nil => exact .nil
  | @cons t r _ _ known _ ih =>
    exact (Covers.whole (y := .type t) (Option.isSome_iff_exists.2 ⟨r, known⟩)).append ih

end Covers

end Findings

/-- Some subtrees at one place are visited, and none is left out. -/
structure Explores (p : Program) (place : Place) (xs : List Subtree) (f g : Findings) : Prop where
  trail : Trail p (At xs place) f g
  covers : g.Covers xs

namespace Explores

variable {p : Program} {place : Place} {f g h : Findings}

theorem refl (f : Findings) : Explores p place [] f f := ⟨.refl f, .nil⟩

theorem trans (first : Explores p place xs f g) (second : Explores p place ys g h) (tidy : g.Tidy) :
    Explores p place (xs ++ ys) f h :=
  ⟨(At.left first.trail).trans (At.right second.trail),
    (first.covers.mono (second.trail.extends_ tidy)).append second.covers⟩

theorem perm (same : xs.Perm ys) (h : Explores p place xs f g) : Explores p place ys f g :=
  ⟨h.trail.mono (At.mono same.subset), h.covers.perm same⟩

end Explores

/-! ## Checks that leave a trail -/

/-- A check leaves a trail over some subtrees, once some types of the program are known. -/
def Leaves (known : Program → List TypeRef) (x : Check α) (subtrees : List Subtree) : Prop :=
  ∀ scope f, f.Awaits (known scope.program) (subtrees.map Subtree.node) → scope.Grounded →
    Ensures x scope f fun _ g => Explores scope.program scope.place subtrees f g

namespace Leaves

theorem still {x : Check α} (h : ∀ scope f, Ensures x scope f fun _ g => g = f) :
    Leaves known x [] := by
  refine fun scope f _ _ => (h scope f).weaken ?_
  rintro _ _ rfl
  exact .refl _

theorem pure (a : α) : Leaves known (Pure.pure a) [] := still fun _ _ => .pure rfl

theorem bind {x : Check α} {k : α → Check β} (hx : Leaves known x xs)
    (hk : ∀ a, Leaves known (k a) ys) : Leaves known (x >>= k) (xs ++ ys) := by
  intro scope f awaits grounded
  rw [List.map_append] at awaits
  refine .bind (hx scope f awaits.left grounded) fun a g first => ?_
  have later := awaits.after first.trail (At.inside rfl)
  exact (hk a scope g later grounded).weaken fun _ _ second => first.trans second later.tidy

theorem bind_still {x : Check α} {k : α → Check β} (hx : Leaves known x xs)
    (hk : ∀ a, Leaves known (k a) []) : Leaves known (x >>= k) xs := by
  have both := hx.bind hk
  rwa [List.append_nil] at both

theorem still_bind {x : Check α} {k : α → Check β} (hx : Leaves known x [])
    (hk : ∀ a, Leaves known (k a) xs) : Leaves known (x >>= k) xs :=
  hx.bind hk

theorem map {x : Check α} {f : α → β} (hx : Leaves known x xs) :
    Leaves known (do return f (← x)) xs :=
  hx.bind_still fun _ => .pure _

theorem perm {x : Check α} (hx : Leaves known x xs) (same : xs.Perm ys) : Leaves known x ys := by
  intro scope f awaits grounded
  exact (hx scope f (awaits.perm (same.map Subtree.node).symm) grounded).weaken
    fun _ _ => Explores.perm same

theorem withReader {x : Check α} {g : Scope → Scope} (hx : Leaves known x xs)
    (program : ∀ scope, (g scope).program = scope.program)
    (place : ∀ scope, (g scope).place = scope.place)
    (grounded : ∀ scope, scope.Grounded → (g scope).Grounded) :
    Leaves known (MonadWithReader.withReader g x : Check α) xs := by
  intro scope f awaits before
  have inner := hx (g scope) f (by rw [program]; exact awaits) (grounded scope before)
  rw [program, place] at inner
  exact .withReader inner

theorem mapM {ι : Type} {check : ι → Check α} {subtrees : ι → List Subtree} {items : List ι}
    (each : ∀ i ∈ items, Leaves known (check i) (subtrees i)) :
    Leaves known (items.mapM check) (items.flatMap subtrees) := by
  induction items with
  | nil =>
    rw [List.mapM_nil]
    exact .pure _
  | cons i rest ih =>
    rw [List.mapM_cons]
    exact (each i (List.mem_cons_self ..)).bind fun _ =>
      (ih fun j listed => each j (List.mem_cons_of_mem i listed)).map

end Leaves

theorem judge_leaves (n : Node) (valid : Bool) : Leaves known (judge n.id valid) [.head n] := by
  intro scope f _ _
  have visit : Visit scope.program (At [.head n] scope.place) f (f.setValid n.id valid) :=
    .judge (x := .head n) ⟨List.mem_singleton_self _, rfl⟩
  have judged : (f.setValid n.id valid).Knows (.head n) := by
    change ((f.setValid n.id valid).validity n.id).isSome = true
    rw [Findings.validity_setValid, if_pos rfl]
    rfl
  exact .learn (.findings (.pure ⟨.single visit, .whole judged⟩))

theorem resolveEach_leaves (ts : List TypeRef) :
    Leaves known (resolveEach ts) (TypeRef.subtreesAll ts) := by
  intro scope f awaits _
  rw [TypeRef.subtreesAll_nodes] at awaits
  exact (resolveEach_traced ts scope f _ awaits).weaken fun rs g traced =>
    ⟨traced.1, .types (traced.2.imp fun _ _ => And.left)⟩

theorem Expr.infer_leaves (e : Expr) : Leaves Program.signature e.infer.run e.subtrees := by
  intro scope f awaits grounded
  rw [e.subtrees_nodes] at awaits
  refine (e.traced scope f ⟨awaits, grounded⟩).weaken fun r g traced => ?_
  obtain ⟨trail, known, _⟩ := traced
  exact ⟨trail, Findings.Covers.whole (y := .expr e) (Option.isSome_iff_exists.2 ⟨r, known⟩)⟩

/-! ## Rules -/

theorem succeeds_leaves {x : Infer α} (hx : Leaves known x.run xs) : Leaves known (succeeds x) xs :=
  hx.map

theorem checkInitializer_leaves (target : Resolved) (name : String) (init : Initializer) :
    Leaves Program.signature (checkInitializer target name init) init.value.subtrees := by
  have stored (value : Resolved) : Leaves Program.signature (succeeds do
      let target ← settle target
      let type ← settle value
      settleBy (checkStore init.kind target name init.value type)) [] :=
    succeeds_leaves (.still fun scope f => .settle_bind (fun _ _ => .settle_bind
      (fun _ _ => .settleBy (fun _ _ => rfl) rfl) fun _ => rfl) fun _ => rfl)
  have both := init.value.infer_leaves.bind stored
  rwa [List.append_nil] at both

theorem Scope.bindAny_place (bound : Option (String × Resolved)) (scope : Scope) :
    (scope.bindAny bound).place = scope.place := by
  cases bound <;> rfl

/-- A check of a statement, which may bring a variable into scope, leaves a trail. -/
def LeavesInScope (x : Check StatementOutcome) (subtrees : List Subtree) : Prop :=
  ∀ scope f, scope.Awaits f (subtrees.map Subtree.node) → Ensures x scope f fun outcome g =>
    Explores scope.program scope.place subtrees f g ∧ (scope.bindAny outcome.bound).Grounded

theorem Leaves.undeclaring {x : Check Bool} (hx : Leaves Program.signature x xs) :
    LeavesInScope (undeclaring x) xs := by
  intro scope f awaits
  exact .bind (hx scope f awaits.toAwaits awaits.grounded) fun valid g first =>
    .pure ⟨first, awaits.grounded⟩

theorem Scope.Grounded.bind {scope : Scope} {r : Resolved} (h : scope.Grounded) (name : String)
    (forms : scope.program.Forms scope.generics r) : (scope.bind name r).Grounded := by
  intro other r' inScope
  rw [Scope.bind, Environment.get?_insert] at inScope
  split at inScope
  · cases inScope
    exact forms
  · exact h other r' inScope

theorem checkVarDecl_leaves (declared : List String) (decl : VarDecl) :
    LeavesInScope (checkVarDecl declared decl) decl.subtrees := by
  intro scope f awaits
  rw [VarDecl.subtrees, List.map_append, decl.type.subtrees_nodes] at awaits
  refine .bind (decl.type.traced scope f _ awaits.left.toAwaits) fun type g traced => ?_
  obtain ⟨first, known, forms⟩ := traced
  have later := awaits.after first (At.inside decl.type.subtrees_nodes)
  have written : Explores scope.program scope.place decl.type.subtrees f g :=
    ⟨first, .whole (y := .type decl.type) (Option.isSome_iff_exists.2 ⟨type, known⟩)⟩
  have finish (sound : Bool) (h : Findings)
      (second : Explores scope.program scope.place (initializerSubtrees decl.init) g h) :
      Ensures (do
        if declared.contains decl.name.name then
          report ⟨decl.name.span, .variableRedeclared decl.name.name⟩
          return ⟨false, none⟩
        return (⟨type.isOk && sound, some (decl.name.name, type)⟩ : StatementOutcome)) scope h
          fun outcome h => Explores scope.program scope.place decl.subtrees f h ∧
            (scope.bindAny outcome.bound).Grounded := by
    have whole := written.trans second later.tidy
    split
    · exact .silent (fun _ => rfl) fun _ => .pure ⟨whole, awaits.grounded⟩
    · exact .pure ⟨whole, awaits.grounded.bind _ forms⟩
  cases given : decl.init with
  | some init =>
    rw [given] at later finish
    have started := checkInitializer_leaves type decl.name.name init
    exact .bind (started scope g later.toAwaits later.grounded) finish
  | none =>
    rw [given] at finish
    exact .silent (fun _ => rfl) fun _ => finish _ g (.refl g)

theorem checkEffect_leaves (e : Expr) : Leaves Program.signature (checkEffect e) e.subtrees := by
  exact (succeeds_leaves e.infer_leaves).bind_still fun _ => .still fun _ _ s same => same

theorem checkCondition_leaves (condition : Expr) :
    Leaves Program.signature (checkCondition condition) condition.subtrees := by
  refine succeeds_leaves fun scope f awaits grounded => ?_
  refine .infer_bind (condition.infer_leaves scope f awaits grounded) (fun type g trail => ?_)
    fun g trail => trail
  split
  · exact .fail trail
  · exact .pure trail

theorem checkReturned_leaves (span : Span) (value : Option (Expr × Resolved)) :
    Leaves known (succeeds (checkReturned span value)) [] := by
  refine succeeds_leaves (.still fun scope f => .read_bind ?_)
  split
  · exact .fail rfl
  · refine .settle_bind (fun expected _ => ?_) fun _ => rfl
    split
    · split
      · exact .fail rfl
      · exact .pure rfl
    · split
      · exact .fail_bind rfl
      · refine .settle_bind (fun type _ => ?_) fun _ => rfl
        split
        · exact .fail rfl
        · exact .pure rfl

theorem checkReturn_leaves (span : Span) (value : Option Expr) :
    Leaves Program.signature (checkReturn span value) (value.elim [] Expr.subtrees) := by
  cases value with
  | none => exact checkReturned_leaves span none
  | some e =>
    have both := e.infer_leaves.bind fun r => checkReturned_leaves span (some (e, r))
    rwa [List.append_nil] at both

theorem checkJump_leaves (span : Span) (word : Keyword) : Leaves known (checkJump span word) [] :=
  .still fun _ _ => .read fun _ same => same

theorem warnUnreachable_leaves (span : Span) : Leaves known (warnUnreachable span) [] := by
  refine .still fun _ _ => .read ?_
  split
  · exact fun _ same => same
  · exact .pure rfl

/-- Three checks, whatever is made of their results. -/
theorem Leaves.three {x y z : Check Bool} {k : Bool → Bool → Bool → Bool} (hx : Leaves known x xs)
    (hy : Leaves known y ys) (hz : Leaves known z zs) : Leaves known (do
      let a ← x
      let b ← y
      let c ← z
      return k a b c) (xs ++ ys ++ zs) := by
  rw [List.append_assoc]
  exact hx.bind fun _ => hy.bind fun _ => hz.map

theorem Leaves.both {x y : Check Bool} {k : Bool → Bool → Bool} (hx : Leaves known x xs)
    (hy : Leaves known y ys) : Leaves known (do
      let a ← x
      let b ← y
      return k a b) (xs ++ ys) :=
  hx.bind fun _ => hy.map

/-! ## Statements -/

theorem Statement.subtrees_eq (s : Statement) : s.subtrees = .head s.node :: s.subtrees.tail := by
  cases s <;> rfl

mutual

theorem Statement.check_leaves (declared : List String) : ∀ s : Statement,
    LeavesInScope (s.check declared) s.subtrees.tail
  | .varDecl _ decl => checkVarDecl_leaves declared decl
  | .expr _ value => (checkEffect_leaves value).undeclaring
  | .ifElse _ condition thenBlock alternative => Leaves.undeclaring
    ((checkCondition_leaves condition).three thenBlock.check_leaves alternative.check_leaves)
  | .while _ condition body => Leaves.undeclaring
    ((checkCondition_leaves condition).both
      (body.check_leaves.withReader (g := fun scope => { scope with inLoop := true }) (fun _ => rfl)
        (fun _ => rfl) fun _ => id))
  | .tryCatch _ body handler => Leaves.undeclaring (body.check_leaves.both handler.check_leaves)
  | .return n value => (checkReturn_leaves n.span value).undeclaring
  | .break n | .continue n => (checkJump_leaves n.span _).undeclaring
  | .block _ body => body.check_leaves.undeclaring

theorem Alternative.check_leaves : ∀ a : Alternative, Leaves Program.signature a.check a.subtrees
  | .none => .pure _
  | .block body => body.check_leaves
  | .elseIf condition thenBlock alternative =>
    (checkCondition_leaves condition).three thenBlock.check_leaves alternative.check_leaves

theorem Block.check_leaves : ∀ b : Block, Leaves Program.signature b.check b.subtrees
  | .mk n statements =>
    ((checkStatements_leaves [] false statements).bind fun sound =>
      judge_leaves n sound).perm (List.perm_append_singleton _ _)

theorem checkStatements_leaves (declared : List String) (afterJump : Bool) :
    ∀ ss : List Statement,
      Leaves Program.signature (checkStatements declared afterJump ss) (statementSubtrees ss)
  | [] => .pure _
  | s :: rest => by
    have checked : Leaves Program.signature (do
        let outcome ← s.check declared
        let sound ← judge s.id outcome.valid
        let declared := outcome.bound.elim declared fun (name, _) => name :: declared
        let restSound ← withReader (Scope.bindAny outcome.bound)
          (checkStatements declared s.isTerminator rest)
        return sound && restSound) (s.subtrees.tail ++ ([.head s.node] ++ statementSubtrees rest)) := by
      intro scope f awaits grounded
      rw [List.map_append] at awaits
      refine .bind (s.check_leaves declared scope f ⟨awaits.left, grounded⟩) ?_
      rintro outcome g ⟨first, bound⟩
      have later := awaits.after first.trail (At.inside rfl)
      rw [List.map_append] at later
      have judged := judge_leaves s.node outcome.valid scope g later.left grounded
      refine .bind judged fun sound h second => ?_
      have last := later.after second.trail (At.inside rfl)
      have others (declared : List String) := checkStatements_leaves declared s.isTerminator rest
        (scope.bindAny outcome.bound) h (by rw [Scope.bindAny_program]; exact last) bound
      rw [Scope.bindAny_program, Scope.bindAny_place] at others
      exact .bind (.withReader (others _)) fun _ _ third =>
        .pure (first.trans (second.trans third last.tidy) later.tidy)
    have order : (s.subtrees.tail ++ ([Subtree.head s.node] ++ statementSubtrees rest)).Perm
        (statementSubtrees (s :: rest)) := by
      rw [statementSubtrees, s.subtrees_eq, List.tail_cons, List.cons_append]
      exact List.perm_middle
    unfold checkStatements
    dsimp only
    split
    · exact (warnUnreachable_leaves s.span).still_bind fun _ => checked.perm order
    · exact checked.perm order

end

end ClassLang
