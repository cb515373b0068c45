import ClassLang.Proofs.Checking.Ledgers
import ClassLang.Proofs.Checking.Routines
import ClassLang.Proofs.Checking.TypeMeanings

/-!
Results that are remembered are the results: the check of a program does the same with assertions that
say so. Each node of an expression is entered before anything is known of it. The types in signatures
are resolved again in the bodies, with the same type parameters as before, so the recorded results are
what these types stand for there.

* `Ledger.infer_coincides`, `Ledger.checkStatements_follows`: expressions and statements that are still
  to be visited.
* `Phase.methodSets_recalls`: what is recorded for the types in signatures.
* `Source.remembered_exact`: the whole check.
-/

namespace ClassLang

variable {α β ι : Type} {p : Program} {settings : Settings} {scope : Scope} {f g : Findings}
  {types : List TypeRef}

/-! ## Written types -/

/-- The result for a written type where some type parameters may be named. -/
def TypeRef.sense (p : Program) (generics : List String) (t : TypeRef) : Resolved :=
  (t.meaning? p generics).elim (.error ⟨⟩) .ok

theorem TypeRef.eq_sense {t : TypeRef} {r : Resolved} {generics : List String}
    (same : r.toOption = t.meaning? p generics) : r = t.sense p generics := by
  rw [sense, ← same]
  cases r <;> rfl

theorem TypeRef.afresh_eq {t : TypeRef} (distinct : Distinct t.nodes) (scope : Scope) :
    t.afresh scope = t.sense scope.program scope.generics :=
  eq_sense (t.evaluates scope .empty ⟨distinct, fun _ _ => rfl⟩ .empty rfl).1

namespace Ledger

variable {failed : Infer Ty}

theorem genericType_coincides {n : Node} {m : Modifiers} {name : String}
    {x y : Check (List Resolved)} (same : Coincide x y scope f) :
    Coincide (genericType n m name x).run (genericType n m name y).run scope f := by
  refine .infer_read ?_
  cases listed : scope.generics.contains name with
  | true => exact .infer_learn .fail_bind
  | false => exact .lift_first same

mutual

theorem resolve_coincides : ∀ (t : TypeRef) {scope : Scope} {f : Findings}, f.Unvisited t.nodes →
    Coincide ((asserting failed).resolve t).run t.resolve.run scope f
  | .primitive .., _, _, unvisited | .void .., _, _, unvisited | .named .., _, _, unvisited =>
    type_fresh (unvisited.fresh _ (List.mem_cons_self ..)) (.refl _)
  | .array _ _ args, _, _, unvisited | .keymap _ _ args, _, _, unvisited =>
    type_fresh (unvisited.fresh _ (List.mem_cons_self ..))
      (.lift_first (resolveEach_coincides args unvisited.below))
  | .generic _ _ _ args, _, _, unvisited =>
    type_fresh (unvisited.fresh _ (List.mem_cons_self ..))
      (genericType_coincides (resolveEach_coincides args unvisited.below))

theorem resolveEach_coincides : ∀ (ts : List TypeRef) {scope : Scope} {f : Findings},
    f.Unvisited (TypeRef.nodesAll ts) →
      Coincide ((asserting failed).resolveEach ts) (ClassLang.resolveEach ts) scope f
  | [], _, _, _ => .refl _
  | t :: rest, scope, f, unvisited => by
    refine .bind (resolve_coincides t unvisited.left) (t.evaluates scope f unvisited.left) ?_
    exact fun _ _ evaluated => .first (resolveEach_coincides rest (unvisited.right evaluated.2))

end

/-- A written type with a verdict. -/
theorem resolve_known {t : TypeRef} (distinct : Distinct t.nodes)
    (known : f.cached t.id = some (t.sense scope.program scope.generics)) :
    Coincide ((asserting failed).resolve t).run t.resolve.run scope f := by
  rw [← TypeRef.afresh_eq distinct] at known
  cases t <;> exact type_known known

/-! ## Expressions -/

end Ledger

theorem Concludes.fresh {e : Expr} {r : Resolved} (awaits : scope.Awaits f e.nodes)
    (concludes : Concludes scope e f r g) : g.validity e.id = none := by
  have nodes : e.nodes = e.node :: e.subtrees.tail.map Subtree.node := by
    rw [← e.subtrees_nodes, e.subtrees_eq]
    rfl
  rw [nodes] at awaits
  obtain ⟨h, decl, trail, rfl, _⟩ := concludes
  exact (h.validity_referAny _ _ decl).trans (awaits.head_fresh trail (At.inside rfl))

namespace Ledger

variable {failed : Infer Ty}

/-- An expression that is still to be visited is inferred alike. -/
def Coincides (failed : Infer Ty) (e : Expr) : Prop := ∀ {scope : Scope} {f : Findings},
  scope.Awaits f e.nodes → Coincide ((asserting failed).infer e).run e.infer.run scope f

section Rules

variable {x x' y y' : Infer Ty}

/-- An expression is entered once: its rule visits what is below it. -/
theorem entered {e : Expr} (awaits : scope.Awaits f e.nodes)
    (rule : Ensures y.run scope f (Concludes scope e f)) (same : Coincide x.run y.run scope f) :
    Coincide ((asserting failed).expr e x).run (remembered e.id y).run scope f :=
  expr_fresh (awaits.fresh _ e.node_mem_nodes) (rule.weaken fun _ _ => Concludes.fresh awaits) same

/-- Two expressions, one after the other. -/
theorem two {a b : Expr} {k : Resolved → Resolved → Infer β} (left : Coincides failed a)
    (right : Coincides failed b) (awaits : scope.Awaits f (a.nodes ++ b.nodes)) :
    Coincide (do
      let r ← attempt ((asserting failed).infer a)
      let r' ← attempt ((asserting failed).infer b)
      k r r' : Infer β).run (do
      let r ← attempt a.infer
      let r' ← attempt b.infer
      k r r' : Infer β).run scope f := by
  refine .attempt_bind (left awaits.left) (a.traced scope f awaits.left) fun r g traced => ?_
  exact .attempt_first (right (awaits.after traced.1 (At.inside a.subtrees_nodes)))

theorem receiver_coincides {target : Expr} (access : MemberAccess)
    (same : Coincide x.run y.run scope f) :
    Coincide (receiver target access x).run (receiver target access y).run scope f := by
  refine .infer_read (.infer_findings ?_)
  cases scope.namedClass? f target with
  | some _ => exact .refl _
  | none => exact .infer_first same

theorem findCallee_coincides {callee : Expr} (inner : Coincides failed callee)
    (innerTarget : ∀ n target access name, callee = .member n target access name →
      Coincides failed target) (awaits : scope.Awaits f callee.nodes) :
    Coincide
      (findCallee callee ((asserting failed).infer callee) ((asserting failed).inferTarget callee)).run
      (findCallee callee callee.infer callee.inferTarget).run scope f := by
  refine .infer_read ?_
  cases callee with
  | ident n name => exact .refl _
  | member n target access name =>
    rw [inferTarget, Expr.inferTarget]
    exact .infer_first (receiver_coincides access (innerTarget _ _ _ _ rfl awaits.below))
  | this | literal | list | keymap | binary | unary | new | index | call | assign =>
    exact .attempt_first (inner awaits)

end Rules

mutual

theorem infer_coincides : ∀ e : Expr, Coincides failed e
  | .ident .., _, _, awaits => entered awaits nameType_concludes (.refl _)
  | .this _, _, _, awaits => entered awaits thisType_concludes (.refl _)
  | .literal .., _, f, awaits =>
    entered awaits (.pure ⟨f, none, .refl f, rfl, .literal⟩) (.refl _)
  | .list _ elems, _, _, awaits =>
    entered awaits (listType_concludes (inferEach_traced elems) awaits.below)
      (.lift_first (inferEach_coincides elems awaits.below))
  | .keymap _ pairs, _, _, awaits =>
    entered awaits (keymapLiteralType_concludes (inferPairs_traced pairs) awaits.below)
      (.lift_first (inferPairs_coincides pairs awaits.below))
  | .binary _ _ a b, _, _, awaits =>
    entered awaits (binaryType_concludes a.traced b.traced awaits.below)
      (two (infer_coincides a) (infer_coincides b) awaits.below)
  | .unary _ _ operand, _, _, awaits =>
    entered awaits (unaryType_concludes operand.traced awaits.below)
      (.infer_first (infer_coincides operand awaits.below))
  | .new _ type, _, _, awaits =>
    entered awaits (newType_concludes awaits.below)
      (.infer_first (resolve_coincides type ⟨awaits.below.distinct, awaits.below.fresh⟩))
  | .member _ target access _, _, _, awaits =>
    entered awaits (memberType_concludes target.traced awaits.below)
      (.infer_first (receiver_coincides access (infer_coincides target awaits.below)))
  | .index _ a b, _, _, awaits =>
    entered awaits (indexType_concludes a.traced b.traced awaits.below)
      (two (infer_coincides a) (infer_coincides b) awaits.below)
  | .call n callee args, scope, f, awaits => by
    refine entered awaits (callType_concludes callee.traced callee.target_traced
      (inferEach_traced args) awaits.below) ?_
    have first := awaits.below.swap
    refine .lift_bind (inferEach_coincides args first.left) (inferEach_traced args scope f first.left)
      fun rs g traced => ?_
    have later := first.after traced.1 (At.inside (Expr.subtreesAll_nodes args))
    exact .attempt_first (findCallee_coincides (infer_coincides callee) (target_coincides callee) later)
  | .assign _ _ a b, _, _, awaits =>
    entered awaits (assignType_concludes a.traced b.traced awaits.below)
      (two (infer_coincides a) (infer_coincides b) awaits.below)

theorem target_coincides : ∀ (e : Expr) (n : Node) (target : Expr) (access : MemberAccess)
    (name : Ident), e = .member n target access name → Coincides failed target
  | .member _ target _ _, _, _, _, _, same => by
    cases same
    exact infer_coincides target
  | .ident .., _, _, _, _, same | .this _, _, _, _, _, same | .literal .., _, _, _, _, same
  | .list .., _, _, _, _, same | .keymap .., _, _, _, _, same | .binary .., _, _, _, _, same
  | .unary .., _, _, _, _, same | .new .., _, _, _, _, same | .index .., _, _, _, _, same
  | .call .., _, _, _, _, same | .assign .., _, _, _, _, same => by cases same

theorem inferEach_coincides : ∀ (es : List Expr) {scope : Scope} {f : Findings},
    scope.Awaits f (Expr.nodesAll es) →
      Coincide ((asserting failed).inferEach es) (ClassLang.inferEach es) scope f
  | [], _, _, _ => .refl _
  | e :: rest, scope, f, awaits => by
    refine .bind (infer_coincides e awaits.left) (e.traced scope f awaits.left) fun r g traced => ?_
    exact .first (inferEach_coincides rest (awaits.after traced.1 (At.inside e.subtrees_nodes)))

theorem inferPairs_coincides : ∀ (pairs : List KeymapPair) {scope : Scope} {f : Findings},
    scope.Awaits f (Expr.nodesPairs pairs) →
      Coincide ((asserting failed).inferPairs pairs) (ClassLang.inferPairs pairs) scope f
  | [], _, _, _ => .refl _
  | .mk n key value :: rest, scope, f, awaits => by
    have pair : Coincide
        (recordedPair n (pairType ((asserting failed).infer key) ((asserting failed).infer value)))
        (recordedPair n (pairType key.infer value.infer)) scope f :=
      .first (two (infer_coincides key) (infer_coincides value) awaits.left.below)
    refine .bind pair (recordedPair_traced key.traced value.traced awaits.left) fun r g traced => ?_
    have inside : (Subtree.pair (.mk n key value) :: (key.subtrees ++ value.subtrees)).map Subtree.node =
        (KeymapPair.mk n key value).nodes := by
      rw [List.map_cons, List.map_append, key.subtrees_nodes, value.subtrees_nodes]
      rfl
    exact .first (inferPairs_coincides rest (awaits.after traced.1 (At.inside inside)))

end

/-! ## Statements -/

/-- A check leaves a trail over some subtrees, and where these are still to be visited another check
does the same. -/
structure Follows (x y : Check α) (xs : List Subtree) : Prop where
  leaves : Leaves Program.signature y xs
  coincide : ∀ {scope : Scope} {f : Findings}, scope.Awaits f (xs.map Subtree.node) →
    Coincide x y scope f

namespace Follows

variable {x y : Check α} {k k' : α → Check β} {xs ys zs : List Subtree}

theorem refl (leaves : Leaves Program.signature y xs) : Follows y y xs := ⟨leaves, fun _ => .refl y⟩

theorem bind (hx : Follows x y xs) (hk : ∀ a, Follows (k a) (k' a) ys) :
    Follows (x >>= k) (y >>= k') (xs ++ ys) := by
  refine ⟨hx.leaves.bind fun a => (hk a).leaves, fun {scope f} awaits => ?_⟩
  rw [List.map_append] at awaits
  refine .bind (hx.coincide awaits.left) (hx.leaves scope f awaits.left.toAwaits awaits.grounded)
    fun a g first => ?_
  exact (hk a).coincide (awaits.after first.trail (At.inside rfl))

theorem first (hx : Follows x y xs) (leaves : Leaves Program.signature (y >>= k) xs) :
    Follows (x >>= k) (y >>= k) xs :=
  ⟨leaves, fun awaits => .first (hx.coincide awaits)⟩

theorem map {k : α → β} (hx : Follows x y xs) : Follows (do return k (← x)) (do return k (← y)) xs :=
  hx.first hx.leaves.map

theorem withReader {g : Scope → Scope} (hx : Follows x y xs)
    (program : ∀ scope, (g scope).program = scope.program)
    (place : ∀ scope, (g scope).place = scope.place)
    (grounded : ∀ scope, scope.Grounded → (g scope).Grounded) :
    Follows (MonadWithReader.withReader g x : Check α) (MonadWithReader.withReader g y) xs := by
  refine ⟨hx.leaves.withReader program place grounded, fun {scope f} awaits => .withReader ?_⟩
  exact hx.coincide ⟨program scope ▸ awaits.toAwaits, grounded scope awaits.grounded⟩

theorem both {x y x' y' : Check Bool} {k : Bool → Bool → Bool} (hx : Follows x y xs)
    (hx' : Follows x' y' ys) : Follows (do
      let a ← x
      let b ← x'
      return k a b) (do
      let a ← y
      let b ← y'
      return k a b) (xs ++ ys) :=
  hx.bind fun _ => hx'.map

theorem three {x y x' y' z z' : Check Bool} {k : Bool → Bool → Bool → Bool} (hx : Follows x y xs)
    (hx' : Follows x' y' ys) (hz : Follows z z' zs) : Follows (do
      let a ← x
      let b ← x'
      let c ← z
      return k a b c) (do
      let a ← y
      let b ← y'
      let c ← z'
      return k a b c) (xs ++ ys ++ zs) := by
  rw [List.append_assoc]
  exact hx.bind fun _ => hx'.bind fun _ => hz.map

end Follows

theorem infer_follows (e : Expr) :
    Follows ((asserting failed).infer e).run e.infer.run e.subtrees := by
  refine ⟨e.infer_leaves, fun awaits => infer_coincides e ?_⟩
  rwa [e.subtrees_nodes] at awaits

theorem checkInitializer_follows (target : Resolved) (name : String) (init : Initializer) :
    Follows ((asserting failed).checkInitializer target name init)
      (ClassLang.checkInitializer target name init) init.value.subtrees :=
  (infer_follows init.value).first (checkInitializer_leaves target name init)

theorem checkEffect_follows (e : Expr) :
    Follows ((asserting failed).checkEffect e) (ClassLang.checkEffect e) e.subtrees :=
  (infer_follows e).map.first (checkEffect_leaves e)

theorem checkCondition_follows (condition : Expr) :
    Follows ((asserting failed).checkCondition condition) (ClassLang.checkCondition condition)
      condition.subtrees :=
  ⟨checkCondition_leaves condition, fun awaits =>
    .first (.infer_first ((infer_follows condition).coincide awaits))⟩

theorem checkReturn_follows (span : Span) (value : Option Expr) :
    Follows ((asserting failed).checkReturn span value) (ClassLang.checkReturn span value)
      (value.elim [] Expr.subtrees) := by
  cases value with
  | none => exact .refl (checkReturned_leaves span none)
  | some e => exact (infer_follows e).first (checkReturn_leaves span (some e))

/-- A check of a statement does the same as another where the statement is still to be visited. -/
def FollowsInScope (x y : Check StatementOutcome) (xs : List Subtree) : Prop :=
  ∀ {scope : Scope} {f : Findings}, scope.Awaits f (xs.map Subtree.node) → Coincide x y scope f

theorem Follows.undeclaring {x y : Check Bool} {xs : List Subtree} (hx : Follows x y xs) :
    FollowsInScope (ClassLang.undeclaring x) (ClassLang.undeclaring y) xs :=
  fun awaits => .first (hx.coincide awaits)

theorem checkVarDecl_follows (declared : List String) (decl : VarDecl) :
    FollowsInScope ((asserting failed).checkVarDecl declared decl)
      (ClassLang.checkVarDecl declared decl) decl.subtrees := by
  intro scope f awaits
  rw [VarDecl.subtrees, List.map_append, decl.type.subtrees_nodes] at awaits
  refine .bind (resolve_coincides decl.type ⟨awaits.left.distinct, awaits.left.fresh⟩)
    (decl.type.traced scope f _ awaits.left.toAwaits) fun type g traced => ?_
  have later := awaits.after traced.1 (At.inside decl.type.subtrees_nodes)
  cases given : decl.init with
  | none => exact .refl _
  | some init =>
    rw [given] at later
    exact .first ((checkInitializer_follows type decl.name.name init).coincide later)

mutual

theorem checkStatement_follows (declared : List String) : ∀ s : Statement,
    FollowsInScope ((asserting failed).checkStatement declared s) (s.check declared) s.subtrees.tail
  | .varDecl _ decl => checkVarDecl_follows declared decl
  | .expr _ value => (checkEffect_follows value).undeclaring
  | .ifElse _ condition thenBlock alternative => Follows.undeclaring
    ((checkCondition_follows condition).three (checkBlock_follows thenBlock)
      (checkAlternative_follows alternative))
  | .while _ condition body => Follows.undeclaring
    ((checkCondition_follows condition).both
      ((checkBlock_follows body).withReader (g := fun scope => { scope with inLoop := true })
        (fun _ => rfl) (fun _ => rfl) fun _ => id))
  | .tryCatch _ body handler => Follows.undeclaring
    ((checkBlock_follows body).both (checkBlock_follows handler))
  | .return n value => (checkReturn_follows n.span value).undeclaring
  | .break _ | .continue _ => fun _ => .refl _
  | .block _ body => (checkBlock_follows body).undeclaring

theorem checkAlternative_follows : ∀ a : Alternative,
    Follows ((asserting failed).checkAlternative a) a.check a.subtrees
  | .none => .refl (.pure _)
  | .block body => checkBlock_follows body
  | .elseIf condition thenBlock alternative =>
    (checkCondition_follows condition).three (checkBlock_follows thenBlock)
      (checkAlternative_follows alternative)

theorem checkBlock_follows : ∀ b : Block, Follows ((asserting failed).checkBlock b) b.check b.subtrees
  | .mk n statements =>
    ⟨(Block.mk n statements).check_leaves, fun awaits =>
      .first ((checkStatements_follows [] false statements).coincide
        ⟨awaits.toAwaits.below, awaits.grounded⟩)⟩

theorem checkStatements_follows (declared : List String) (afterJump : Bool) :
    ∀ ss : List Statement, Follows ((asserting failed).checkStatements declared afterJump ss)
      (ClassLang.checkStatements declared afterJump ss) (statementSubtrees ss)
  | [] => .refl (.pure _)
  | s :: rest => by
    refine ⟨checkStatements_leaves declared afterJump (s :: rest), fun {scope f} awaits => ?_⟩
    have order : (statementSubtrees (s :: rest)).Perm
        (s.subtrees.tail ++ ([Subtree.head s.node] ++ statementSubtrees rest)) := by
      rw [statementSubtrees, s.subtrees_eq, List.tail_cons, List.cons_append]
      exact List.perm_middle.symm
    have awaits : scope.Awaits f ((s.subtrees.tail ++ ([Subtree.head s.node] ++
        statementSubtrees rest)).map Subtree.node) :=
      ⟨awaits.toAwaits.perm (order.map Subtree.node), awaits.grounded⟩
    rw [List.map_append] at awaits
    have checked : Coincide (do
        let outcome ← (asserting failed).checkStatement declared s
        let sound ← judge s.id outcome.valid
        let declared := outcome.bound.elim declared fun (name, _) => name :: declared
        let restSound ← withReader (Scope.bindAny outcome.bound)
          ((asserting failed).checkStatements declared s.isTerminator rest)
        return sound && restSound) (do
        let outcome ← s.check declared
        let sound ← judge s.id outcome.valid
        let declared := outcome.bound.elim declared fun (name, _) => name :: declared
        let restSound ← withReader (Scope.bindAny outcome.bound)
          (ClassLang.checkStatements declared s.isTerminator rest)
        return sound && restSound) scope f := by
      refine .bind (checkStatement_follows declared s awaits.left)
        (s.check_leaves declared scope f awaits.left) ?_
      rintro outcome g ⟨first, bound⟩
      have later := awaits.toAwaits.after first.trail (At.inside rfl)
      rw [List.map_append] at later
      refine .bind (.refl _) (judge_leaves s.node outcome.valid scope g later.left awaits.grounded)
        fun sound h second => ?_
      have last := later.after second.trail (At.inside rfl)
      refine .first (.withReader ((checkStatements_follows _ s.isTerminator rest).coincide ⟨?_, bound⟩))
      rw [Scope.bindAny_program]
      exact last
    rw [checkStatements, ClassLang.checkStatements]
    dsimp only
    split
    · have still : Ensures (warnUnreachable s.span) scope f fun _ g => g = f := by
        refine .read ?_
        split
        · exact fun _ same => same
        · exact .pure rfl
      refine .bind (.refl _) still ?_
      rintro _ _ rfl
      exact checked
    · exact checked

end

theorem checkBody_follows (title : String) (body : Block) :
    Follows ((asserting failed).checkBody title body) (ClassLang.checkBody title body) body.subtrees :=
  (checkBlock_follows body).first (checkBody_leaves title body)

end Ledger

/-! ## Signatures -/

/-- The results for some written types are recorded, as they are where some type parameters may be
named. -/
def Findings.Recalls (f : Findings) (p : Program) (generics : List String) (ts : List TypeRef) : Prop :=
  ∀ t ∈ ts, Distinct t.nodes ∧ f.cached t.id = some (t.sense p generics)

theorem Findings.Recalls.mono {generics : List String} {ts : List TypeRef}
    (h : f.Recalls p generics ts) (later : f.Extends g) : g.Recalls p generics ts :=
  fun t listed => ⟨(h t listed).1, later.cached (h t listed).2⟩

namespace Ledger

variable {failed : Infer Ty}

/-- A check resolves some written types that are still to be visited, and another does the same. -/
def Inscribes (x y : Check α) (ts : List TypeRef) : Prop :=
  ∀ scope f types, Findings.Awaits f types ((TypeRef.subtreesAll ts).map Subtree.node) →
    Coincide x y scope f ∧ Ensures y scope f fun _ g =>
      Trail scope.program (At (TypeRef.subtreesAll ts) scope.place) f g ∧
        g.Recalls scope.program scope.generics ts

namespace Inscribes

variable {x y : Check α} {k k' : α → Check β} {ts us : List TypeRef}

theorem pure (a : α) : Inscribes (Pure.pure a) (Pure.pure a) [] :=
  fun _ f _ _ => ⟨.refl _, .pure ⟨.refl f, fun _ => nofun⟩⟩

theorem bind (hx : Inscribes x y ts) (hk : ∀ a, Inscribes (k a) (k' a) us) :
    Inscribes (x >>= k) (y >>= k') (ts ++ us) := by
  intro scope f types awaits
  rw [TypeRef.subtreesAll_append, List.map_append] at awaits
  obtain ⟨same, after⟩ := hx scope f types awaits.left
  have later {g : Findings} (first : Trail scope.program (At (TypeRef.subtreesAll ts) scope.place) f g) :
      g.Awaits types ((TypeRef.subtreesAll us).map Subtree.node) :=
    awaits.after first (At.inside rfl)
  refine ⟨.bind same after fun a g first => (hk a scope g types (later first.1)).1, ?_⟩
  refine .bind after fun a g first => ((hk a scope g types (later first.1)).2).weaken ?_
  rintro b h ⟨second, others⟩
  rw [TypeRef.subtreesAll_append]
  refine ⟨(At.left first.1).trans (At.right second), fun t listed => ?_⟩
  have stays := second.extends_ (later first.1).tidy
  exact (List.mem_append.1 listed).elim (first.2.mono stays t) (others t)

theorem map {k : α → β} (hx : Inscribes x y ts) :
    Inscribes (do return k (← x)) (do return k (← y)) ts := by
  have mapped := hx.bind fun a => pure (k a)
  rwa [List.append_nil] at mapped

theorem mapM {x y : ι → Check α} {view : ι → List TypeRef} {items : List ι}
    (each : ∀ i, Inscribes (x i) (y i) (view i)) :
    Inscribes (items.mapM x) (items.mapM y) (items.flatMap view) := by
  induction items with
  | nil =>
    rw [List.mapM_nil, List.mapM_nil]
    exact pure _
  | cons i rest ih =>
    rw [List.mapM_cons, List.mapM_cons]
    exact (each i).bind fun _ => ih.map

end Inscribes

theorem resolve_inscribes (t : TypeRef) :
    Inscribes ((asserting failed).resolve t).run t.resolve.run [t] := by
  intro scope f types awaits
  rw [TypeRef.subtreesAll_nodes, TypeRef.nodesAll_eq, List.flatMap_singleton] at awaits
  have unvisited : f.Unvisited t.nodes := ⟨awaits.distinct, awaits.fresh⟩
  refine ⟨resolve_coincides t unvisited, fun s known => ?_⟩
  obtain ⟨trail, cached, _⟩ := t.traced scope f types awaits s known
  have value := TypeRef.eq_sense (t.evaluates scope f unvisited s known).1
  rw [TypeRef.subtreesAll_eq, List.flatMap_singleton]
  refine ⟨trail, fun t' listed => ?_⟩
  cases List.mem_singleton.1 listed
  exact ⟨awaits.distinct, value ▸ cached⟩

theorem resolveAll_inscribes (ts : List TypeRef) :
    Inscribes ((asserting failed).resolveAll ts) (ClassLang.resolveAll ts) ts := by
  have each : Inscribes ((asserting failed).resolveEach ts) (ClassLang.resolveEach ts) ts := by
    induction ts with
    | nil => exact .pure _
    | cons t rest ih => exact (resolve_inscribes t).bind fun _ => ih.map
  exact each.map

theorem checkClassSignatures_inscribes (i : Nat)
    (awaits : f.Awaits types (TypeRef.nodesAll (p.classAt i).signature)) :
    Coincide ((asserting failed).checkClassSignatures i) (ClassLang.checkClassSignatures i)
      (.top p settings) f ∧
    Ensures (ClassLang.checkClassSignatures i) (.top p settings) f fun _ g =>
      Trail p (At (TypeRef.subtreesAll (p.classAt i).signature) (p.signaturePlace i)) f g ∧
        g.Recalls p (p.signaturePlace i).generics (p.classAt i).signature := by
  have inscribes : Inscribes (do
      let fieldsSound ← (asserting failed).resolveAll ((p.classAt i).fields.map Field.type)
      let methodsSound ← (p.classAt i).methods.mapM fun m =>
        (asserting failed).resolveAll (m.params.map Param.type ++ [m.returnType])
      return fieldsSound && methodsSound.all id : Check Bool) (do
      let fieldsSound ← ClassLang.resolveAll ((p.classAt i).fields.map Field.type)
      let methodsSound ← (p.classAt i).methods.mapM fun m =>
        ClassLang.resolveAll (m.params.map Param.type ++ [m.returnType])
      return fieldsSound && methodsSound.all id) (p.classAt i).signature := by
    rw [Class.signature]
    exact (resolveAll_inscribes _).bind fun _ =>
      (Inscribes.mapM fun m : Method => resolveAll_inscribes m.signature).map
  rw [← TypeRef.subtreesAll_nodes] at awaits
  have inside := inscribes { Scope.top p settings with generics := (p.classAt i).params } f types awaits
  exact ⟨.read (.withReader inside.1), .read (.withReader inside.2)⟩

theorem checkFunctionSignature_inscribes (i : Nat)
    (awaits : f.Awaits types (TypeRef.nodesAll (p.functionAt i).signature)) :
    Coincide ((asserting failed).checkFunctionSignature i) (ClassLang.checkFunctionSignature i)
      (.top p settings) f ∧
    Ensures (ClassLang.checkFunctionSignature i) (.top p settings) f fun _ g =>
      Trail p (At (TypeRef.subtreesAll (p.functionAt i).signature)
        (p.functionPlace (p.functionAt i))) f g ∧
          g.Recalls p (p.functionPlace (p.functionAt i)).generics (p.functionAt i).signature := by
  rw [← TypeRef.subtreesAll_nodes] at awaits
  have inscribes : Inscribes ((asserting failed).resolveAll (p.functionAt i).signature)
      (ClassLang.resolveAll (p.functionAt i).signature) _ := resolveAll_inscribes _
  obtain ⟨same, after⟩ :=
    inscribes ((Scope.top p settings).ofFunction (p.functionAt i)) f types awaits
  rw [Scope.ofFunction_program, Scope.ofFunction_place, Scope.ofFunction_generics] at after
  exact ⟨.read (.withReader same), .read (.withReader after)⟩

/-- Signatures one after the other. -/
theorem signatures_inscribe {x y : ι → Check α} {items : List ι} {written : ι → List TypeRef}
    {place : ι → Place}
    (each : ∀ i g, g.Awaits types (TypeRef.nodesAll (written i)) → Coincide (x i) (y i) scope g ∧
      Ensures (y i) scope g fun _ h => Trail p (At (TypeRef.subtreesAll (written i)) (place i)) g h ∧
        h.Recalls p (place i).generics (written i))
    (awaits : f.Awaits types (items.flatMap fun i => TypeRef.nodesAll (written i))) :
    Coincide (items.mapM x) (items.mapM y) scope f ∧ Ensures (items.mapM y) scope f fun _ g =>
      f.Extends g ∧ ∀ i ∈ items, g.Recalls p (place i).generics (written i) := by
  induction items generalizing f with
  | nil =>
    rw [List.mapM_nil, List.mapM_nil]
    exact ⟨.refl _, .pure ⟨.refl f, fun _ => nofun⟩⟩
  | cons i rest ih =>
    obtain ⟨same, after⟩ := each i f awaits.left
    have later {g : Findings} (trail : Trail p (At (TypeRef.subtreesAll (written i)) (place i)) f g) :
        g.Awaits types (rest.flatMap fun i => TypeRef.nodesAll (written i)) :=
      Findings.Awaits.after awaits trail (At.inside (TypeRef.subtreesAll_nodes _))
    rw [List.mapM_cons, List.mapM_cons]
    refine ⟨.bind same after fun a g first => .first (ih (later first.1)).1, ?_⟩
    refine .bind after fun a g first => .bind (ih (later first.1)).2 fun as h others => .pure ?_
    refine ⟨(first.1.extends_ awaits.tidy).trans others.1, List.forall_mem_cons.2 ⟨?_, others.2⟩⟩
    exact first.2.mono others.1

/-! ## Superclasses -/

theorem checkSuperclass_coincides {examine examine' : Nat → Check Bool} {i : Nat}
    (distinct : Distinct (p.superclassNodes i))
    (apart : ∀ j, i ≠ j → Apart (p.superclassNodes i) (p.superclassNodes j))
    (examines : ∀ j f, f.Tidy → f.Unexplored p →
      Coincide (examine j) (examine' j) (.top p settings) f)
    (tidy : f.Tidy) (unexplored : f.Unexplored p) (busy : f.mark i ≠ .unvisited)
    (fresh : ∀ n ∈ p.superclassNodes i, f.validity n.id = none) :
    Coincide ((asserting failed).checkSuperclass examine i) (ClassLang.checkSuperclass examine' i)
      (.top p settings) f := by
  refine .read ?_
  dsimp only [Scope.top]
  cases extends_ : (p.classAt i).superclass with
  | none => exact .refl _
  | some written =>
    have nodes : p.superclassNodes i = written.nodes := by
      rw [Program.superclassNodes, extends_, Option.elim_some]
    rw [nodes] at distinct fresh
    have visited : Ensures written.resolve.run
        { Scope.top p settings with generics := (p.classAt i).params } f fun _ g => Descent p f g := by
      refine (written.traced _ f [] ⟨tidy, distinct, fresh,
        fun _ listed => absurd listed List.not_mem_nil⟩).weaken fun r g traced => ?_
      refine .visit apart unexplored busy (traced.1.mono fun x here mine => ?_)
      have listed := At.inside written.subtrees_nodes x here mine
      obtain ⟨inside, rfl⟩ := mine
      exact ⟨.mk extends_ inside, nodes ▸ listed⟩
    have resolved : Coincide ((asserting failed).resolve written).run written.resolve.run
        { Scope.top p settings with generics := (p.classAt i).params } f :=
      resolve_coincides written ⟨distinct, fresh⟩
    have visited : Ensures (withReader (fun scope => { scope with generics := (p.classAt i).params })
        written.resolve : Infer Ty).run (.top p settings) f fun _ g => Descent p f g := visited
    refine .first (.settleBy_bind fun name => ?_)
    refine Coincide.infer_bind (.withReader resolved) visited fun type g descent => ?_
    cases p.classOf? type with
    | none => exact .refl _
    | some j => exact .lift_first (examines j g (descent.course.tidy tidy) descent.unexplored)

theorem checkInheritance_coincides (distinct : ∀ i, Distinct (p.superclassNodes i))
    (apart : ∀ i j, i ≠ j → Apart (p.superclassNodes i) (p.superclassNodes j)) (depth : Nat) :
    ∀ i f, f.Tidy → f.Unexplored p → Coincide ((asserting failed).checkInheritance depth i)
      (ClassLang.checkInheritance depth i) (.top p settings) f := by
  induction depth with
  | zero =>
    intro i f _ _
    rw [checkInheritance, ClassLang.checkInheritance]
    exact .refl _
  | succ depth ih =>
    intro i f tidy unexplored
    rw [checkInheritance, ClassLang.checkInheritance]
    refine .findings ?_
    cases new : f.mark i with
    | done | inProgress => exact .refl _
    | unvisited =>
      have marked : Descent p f (f.setMark i .inProgress) := unexplored.setMark .inProgress (by simp)
      have busy : (f.setMark i .inProgress).mark i ≠ .unvisited := by simp [Findings.mark_setMark]
      exact .learn (.first (checkSuperclass_coincides (distinct i) (apart i) ih
        (marked.course.tidy tidy) marked.unexplored busy (unexplored i new)))

/-! ## Bodies -/

theorem bindParams_coincides (params : List Param) (env : Environment)
    (recalls : f.Recalls scope.program scope.generics (params.map Param.type)) :
    Coincide ((asserting failed).bindParams env params) (ClassLang.bindParams env params) scope f := by
  induction params generalizing env with
  | nil => exact .refl _
  | cons param rest ih =>
    have others (env : Environment) := ih env fun t listed => recalls t (List.mem_cons_of_mem _ listed)
    obtain ⟨distinct, known⟩ := recalls _ (List.mem_cons_self ..)
    rw [bindParams, ClassLang.bindParams]
    dsimp only
    split
    · exact .silent (fun _ => rfl) fun _ => .first (others env)
    · refine .bind (resolve_known distinct known) (TypeRef.resolve_still known) ?_
      rintro type _ ⟨rfl, -⟩
      exact others _

theorem checkCallable_coincides (scope : Scope) (title : String) {params : List Param}
    {returnType : TypeRef} {body : Block}
    (grounds : f.Grounds scope.program scope.generics (params.map Param.type ++ [returnType]))
    (recalls : f.Recalls scope.program scope.generics (params.map Param.type ++ [returnType]))
    (awaits : f.Awaits scope.program.signature body.nodes) :
    Coincide ((asserting failed).checkCallable title params returnType body)
      (ClassLang.checkCallable title params returnType body) scope f := by
  have bound := bindParams_still params .empty
    (fun t listed => grounds t (List.mem_append_left _ listed)) (.of_empty rfl)
  refine .bind (bindParams_coincides params .empty fun t listed =>
    recalls t (List.mem_append_left _ listed)) bound ?_
  rintro bound _ ⟨rfl, grounded⟩
  obtain ⟨distinct, known⟩ := recalls returnType (List.mem_append_right _ (List.mem_singleton_self _))
  refine .bind (resolve_known distinct known) (TypeRef.resolve_still known) ?_
  rintro type _ ⟨rfl, -⟩
  rw [← body.subtrees_nodes] at awaits
  exact .first (.withReader ((checkBody_follows title body).coincide ⟨awaits, grounded⟩))

theorem checkField_coincides {i : Nat} {field : Field} (distinct : Distinct field.type.nodes)
    (known : f.cached field.type.id = some (field.type.sense p (p.classAt i).params))
    (awaits : f.Awaits p.signature (initializerNodes field.init)) :
    Coincide ((asserting failed).checkField i field) (ClassLang.checkField i field)
      (.top p settings) f := by
  unfold checkField ClassLang.checkField
  cases given : field.init with
  | none => exact .refl _
  | some init =>
    rw [given, initializerNodes, Option.elim_some, Initializer.nodes, ← init.value.subtrees_nodes]
      at awaits
    refine .withReader (.bind (resolve_known distinct known) (TypeRef.resolve_still known) ?_)
    rintro target _ ⟨rfl, -⟩
    exact (checkInitializer_follows target field.name.name init).coincide ⟨awaits, .of_empty rfl⟩

theorem checkMethod_coincides {i : Nat} {m : Method}
    (grounds : f.Grounds p (p.classAt i).params m.signature)
    (recalls : f.Recalls p (p.classAt i).params m.signature)
    (awaits : f.Awaits p.signature m.body.nodes) :
    Coincide ((asserting failed).checkMethod i m) (ClassLang.checkMethod i m) (.top p settings) f :=
  .read (.withReader
    (checkCallable_coincides ((Scope.top p settings).inClass i !m.isStatic) _ grounds recalls awaits))

theorem checkFunctionBody_coincides (i : Nat)
    (grounds : f.Grounds p (p.functionPlace (p.functionAt i)).generics (p.functionAt i).signature)
    (recalls : f.Recalls p (p.functionPlace (p.functionAt i)).generics (p.functionAt i).signature)
    (awaits : f.Awaits p.signature (p.functionAt i).body.nodes) :
    Coincide ((asserting failed).checkFunctionBody i) (ClassLang.checkFunctionBody i)
      (.top p settings) f := by
  refine .read (.silent (fun _ => rfl) fun _ => .withReader ?_)
  refine checkCallable_coincides ((Scope.top p settings).ofFunction (p.functionAt i)) _ ?_ ?_ ?_
  · rw [Scope.ofFunction_program, Scope.ofFunction_generics]
    exact grounds
  · rw [Scope.ofFunction_program, Scope.ofFunction_generics]
    exact recalls
  · rw [Scope.ofFunction_program]
    exact awaits

end Ledger

/-! ## Checks one after the other -/

namespace Coincide

/-- What is preserved by each item. -/
theorem mapM {x y : ι → Check α} {items : List ι} (inv : Findings → Prop)
    (each : ∀ i g, inv g → Coincide (x i) (y i) scope g ∧ Ensures (y i) scope g fun _ => inv)
    (start : inv f) : Coincide (items.mapM x) (items.mapM y) scope f := by
  induction items generalizing f with
  | nil =>
    rw [List.mapM_nil, List.mapM_nil]
    exact .refl _
  | cons i rest ih =>
    rw [List.mapM_cons, List.mapM_cons]
    obtain ⟨same, after⟩ := each i f start
    exact .bind same after fun _ _ kept => .first (ih kept)

variable {base : Findings} {ns ms : List Node}

/-- A check after which some nodes are still to be visited. -/
theorem passing {x y : Check α} {k k' : α → Check β} (passes : Passes p base y scope ns)
    (later : base.Extends f) (awaits : f.Awaits p.signature (ns ++ ms)) (same : Coincide x y scope f)
    (rest : ∀ a g, base.Extends g → g.Awaits p.signature ms → Coincide (k a) (k' a) scope g) :
    Coincide (x >>= k) (y >>= k') scope f := by
  have after : Ensures y scope f fun _ g => base.Extends g ∧ g.Awaits p.signature ms := by
    rintro s rfl
    obtain ⟨⟨own, inside, trail⟩, _⟩ := passes s later awaits.left
    exact ⟨later.trans (trail.extends_ awaits.tidy), awaits.after trail inside⟩
  exact .bind same after fun a g kept => rest a g kept.1 kept.2

theorem mapM_passing {x y : ι → Check α} {nodes : ι → List Node} {items : List ι}
    (pass : ∀ i ∈ items, Passes p base (y i) scope (nodes i))
    (each : ∀ i ∈ items, ∀ g, base.Extends g → g.Awaits p.signature (nodes i) →
      Coincide (x i) (y i) scope g)
    (later : base.Extends f) (awaits : f.Awaits p.signature (items.flatMap nodes)) :
    Coincide (items.mapM x) (items.mapM y) scope f := by
  induction items generalizing f with
  | nil =>
    rw [List.mapM_nil, List.mapM_nil]
    exact .refl _
  | cons i rest ih =>
    rw [List.mapM_cons, List.mapM_cons]
    have here : i ∈ i :: rest := List.mem_cons_self ..
    refine .passing (pass i here) later awaits (each i here f later awaits.left)
      fun a g later awaits => .first (ih ?_ ?_ later awaits)
    · exact fun j listed => pass j (List.mem_cons_of_mem i listed)
    · exact fun j listed => each j (List.mem_cons_of_mem i listed)

end Coincide

namespace Ledger

variable {failed : Infer Ty} {base : Findings}

theorem checkClassBody_coincides {i : Nat}
    (distinct : Distinct (TypeRef.nodesAll (p.classAt i).signature ++ (p.classAt i).bodyNodes))
    (grounds : base.Grounds p (p.classAt i).params (p.classAt i).signature)
    (recalls : base.Recalls p (p.classAt i).params (p.classAt i).signature)
    (later : base.Extends f) (awaits : f.Awaits p.signature (p.classAt i).bodyNodes) :
    Coincide ((asserting failed).checkClassBody i) (ClassLang.checkClassBody i)
      (.top p settings) f := by
  have pass (field : Field) (listed : field ∈ (p.classAt i).fields) :
      Passes p base (ClassLang.checkField i field) (.top p settings) (initializerNodes field.init) :=
    checkFields_pass distinct grounds field listed
  refine .read (.silent (fun _ => rfl) fun _ => .passing (.mapM pass) later awaits
    (.mapM_passing pass (fun field listed g later awaits => ?_) later awaits.left)
    fun _ g later awaits => .first (.mapM_passing (checkMethods_pass distinct grounds)
      (fun m listed g later awaits => ?_) later awaits))
  · obtain ⟨distinct, known⟩ := recalls.mono later field.type
      (List.mem_append_left _ (List.mem_map_of_mem listed))
    exact checkField_coincides distinct known awaits
  · refine checkMethod_coincides ((Class.method_grounds grounds listed).mono later) ?_ awaits
    exact fun t written => recalls.mono later t
      (List.mem_append_right _ (List.mem_flatMap.2 ⟨m, listed, written⟩))

end Ledger

/-! ## Phases -/

namespace Phase

open Ledger (asserting)

variable {failed : Infer Ty} (settings) (distinct : Distinct p.nodes)

include distinct

theorem typed_inscribed :
    (p.classIndices.mapM (asserting failed).checkClassSignatures).exec (.top p settings)
      ((named p settings).2.noted .resolvingSignatures) = typed p settings ∧
    ∀ i ∈ p.classIndices, (typed p settings).2.findings.Recalls p (p.classAt i).params
      (p.classAt i).signature := by
  have start := awaits_empty distinct
  rw [Program.nodes_signature, Program.flatMap_classes, List.append_assoc] at start
  have each (i : Nat) (g : Findings)
      (awaits : g.Awaits [] (TypeRef.nodesAll (p.classAt i).signature)) :
      Coincide ((asserting failed).checkClassSignatures i) _ (.top p settings) g ∧ _ :=
    Ledger.checkClassSignatures_inscribes i awaits
  obtain ⟨same, after⟩ := Ledger.signatures_inscribe each start.left
  let before := (named p settings).2.noted .resolvingSignatures
  exact ⟨same before named_findings, (after before named_findings).2⟩

theorem functionsTyped_inscribed :
    (p.functionIndices.mapM (asserting failed).checkFunctionSignature).exec (.top p settings)
      (typed p settings).2 = functionsTyped p settings ∧
    ∀ i ∈ p.functionIndices, (functionsTyped p settings).2.findings.Recalls p
      (p.functionPlace (p.functionAt i)).generics (p.functionAt i).signature := by
  have start := awaits_empty distinct
  rw [Program.nodes_signature, Program.flatMap_classes, Program.flatMap_functions,
    List.append_assoc] at start
  have later := start.after (typed_trail settings start.left) at_inside
  have each (i : Nat) (g : Findings)
      (awaits : g.Awaits [] (TypeRef.nodesAll (p.functionAt i).signature)) :
      Coincide ((asserting failed).checkFunctionSignature i) _ (.top p settings) g ∧ _ :=
    Ledger.checkFunctionSignature_inscribes i awaits
  obtain ⟨same, after⟩ := Ledger.signatures_inscribe each later.left
  exact ⟨same (typed p settings).2 rfl, (after (typed p settings).2 rfl).2⟩

/-- The results for the types in signatures are still there when the bodies are checked. -/
theorem methodSets_recalls :
    (∀ i ∈ p.classIndices, (methodSets p settings).2.findings.Recalls p (p.classAt i).params
      (p.classAt i).signature) ∧
    ∀ i ∈ p.functionIndices, (methodSets p settings).2.findings.Recalls p
      (p.functionPlace (p.functionAt i)).generics (p.functionAt i).signature := by
  have start := awaits_empty distinct
  rw [Program.nodes_signature, Program.flatMap_classes, Program.flatMap_functions,
    List.append_assoc] at start
  have later := start.after (typed_trail settings start.left) at_inside
  have derived := derived_course settings distinct
  have sets := (methodSets_course settings distinct).1.extends_ derived.2.tidy
  have inherited := (derived.1.extends_ (signatures_course settings distinct).2.tidy).trans sets
  have functions := (functionsTyped_trail later.left).extends_ later.tidy
  refine ⟨fun i listed => ?_, fun i listed => ?_⟩
  · have typed := (@typed_inscribed p settings (throw ⟨⟩) distinct).2 i listed
    exact typed.mono (functions.trans inherited)
  · have typed := (@functionsTyped_inscribed p settings (throw ⟨⟩) distinct).2 i listed
    exact typed.mono inherited

theorem derived_asserting :
    (p.classIndices.mapM ((asserting failed).checkInheritance p.classIndices.length)).exec
      (.top p settings) ((functionsTyped p settings).2.noted .validatingInheritance) =
        derived p settings := by
  have start := (signatures_course settings distinct).2
  have supers := (Program.distinct_parts distinct).right.right.left
  have each (i : Nat) : Distinct (p.superclassNodes i) := by
    by_cases listed : i ∈ p.classIndices
    · exact supers.of_flatMap listed
    · rw [Program.superclassNodes_of_not_mem listed]
      exact List.nodup_nil
  have apart := Program.superclasses_apart supers
  refine Coincide.mapM (fun g => g.Tidy ∧ g.Unexplored p) (fun i g ⟨tidy, unexplored⟩ => ⟨?_, ?_⟩)
    ⟨start.tidy, fun i _ n listed => ?_⟩ _ rfl
  · exact Ledger.checkInheritance_coincides each apart _ i g tidy unexplored
  · exact (checkInheritance_descends each apart _ i tidy unexplored).weaken fun _ _ descent =>
      ⟨descent.course.tidy tidy, descent.unexplored⟩
  · exact start.fresh n (List.mem_append_left _ (Program.superclassNodes_subset i listed))

theorem implemented_asserting :
    (p.classIndices.mapM (asserting failed).checkClassBody).exec (.top p settings)
      ((methodSets p settings).2.noted .checkingBodies) = implemented p settings := by
  have ran := (bodies_ran settings distinct).1
  refine Coincide.mapM_passing (classes_pass settings distinct) (fun i listed g later awaits => ?_)
    ran.later ran.awaits _ rfl
  exact Ledger.checkClassBody_coincides ((Program.distinct_bodies distinct).of_flatMap listed)
    (grounds_class settings distinct i) ((methodSets_recalls settings distinct).1 i listed) later awaits

theorem functionsImplemented_asserting :
    (p.functionIndices.mapM (asserting failed).checkFunctionBody).exec (.top p settings)
      (implemented p settings).2 = functionsImplemented p settings := by
  have ran := (bodies_ran settings distinct).2.1
  refine Coincide.mapM_passing (functions_pass settings distinct) (fun i listed g later awaits => ?_)
    ran.later ran.awaits _ rfl
  exact Ledger.checkFunctionBody_coincides i ((grounds_function settings distinct listed).mono later)
    (((methodSets_recalls settings distinct).2 i listed).mono later) awaits

theorem statements_asserting :
    ((asserting failed).checkStatements [] false p.statements).exec (.top p settings)
      (functionsImplemented p settings).2 = statements p settings := by
  have awaits := (bodies_ran settings distinct).2.2.awaits
  rw [← statementSubtrees_nodes] at awaits
  exact (Ledger.checkStatements_follows [] false p.statements).coincide ⟨awaits, .of_empty rfl⟩ _ rfl

end Phase

/-! ## Programs -/

theorem Check.exec_bind_congr {x y : Check α} {k k' : α → Check β} {s : CheckState}
    (same : x.exec scope s = y.exec scope s)
    (rest : (k (y.exec scope s).1).exec scope (y.exec scope s).2 =
      (k' (y.exec scope s).1).exec scope (y.exec scope s).2) :
    (x >>= k).exec scope s = (y >>= k').exec scope s := by
  rw [exec_bind, exec_bind, same]
  exact rest

theorem Ledger.checkProgram_asserting (failed : Infer Ty) (settings : Settings)
    (distinct : Distinct p.nodes) :
    (asserting failed).checkProgram.exec (.top p settings) .empty =
      ClassLang.checkProgram.exec (.top p settings) .empty := by
  -- One step for each action of the check; those in which nothing is resolved or inferred are the same.
  refine Check.exec_bind_congr rfl (Check.exec_bind_congr rfl ?_)
  refine Check.exec_bind_congr rfl (Check.exec_bind_congr rfl ?_)
  refine Check.exec_bind_congr (Phase.typed_inscribed settings distinct).1 ?_
  refine Check.exec_bind_congr (Phase.functionsTyped_inscribed settings distinct).1 ?_
  refine Check.exec_bind_congr rfl ?_
  refine Check.exec_bind_congr (Phase.derived_asserting settings distinct) ?_
  refine Check.exec_bind_congr rfl (Check.exec_bind_congr rfl ?_)
  refine Check.exec_bind_congr rfl (Check.exec_bind_congr rfl ?_)
  refine Check.exec_bind_congr (Phase.implemented_asserting settings distinct) ?_
  refine Check.exec_bind_congr (Phase.functionsImplemented_asserting settings distinct) ?_
  exact Check.exec_bind_congr (Phase.statements_asserting settings distinct) rfl

/-- The check of a program that has been parsed does the same with the assertions, whatever a failed one
would do. So each expression is entered at most once, and for each written type with a verdict, wherever
it is resolved again, the recorded result is the one that it has there afresh. -/
theorem Source.remembered_exact {source : Source} {p : Program} (settings : Settings)
    (parsed : source.parse Parser.program = .ok p) :
    Ledger.remembering.analyze p settings = p.analyze settings ∧
      ∀ failed, (Ledger.asserting failed).analyze p settings = p.analyze settings := by
  refine ⟨Ledger.analyze_remembering p settings, fun failed => ?_⟩
  have same := Ledger.checkProgram_asserting failed settings (source.parse_program_nodup parsed)
  exact congrArg (fun run => (⟨run.1, run.2⟩ : Analysis)) same

/-- A program whose signatures name type parameters, and a clause that applies a class to one. -/
def boxedTwice : Source :=
  ⟨"class Base[T] \x7b protected T kept; \x7d class Box[U] extends Base[U] \x7b " ++
    "public U same(U other) \x7b return other; \x7d \x7d " ++
    "integer twice(integer n) \x7b return n + n; \x7d Box[integer] box := new Box[integer]; " ++
    "integer four := twice(box.same(2));", none⟩

theorem boxedTwice_remembered : ∃ p, boxedTwice.parse Parser.program = .ok p ∧
    (p.analyze ⟨true, true⟩).state.errors = [] ∧
    Ledger.remembering.analyze p ⟨true, true⟩ = p.analyze ⟨true, true⟩ ∧
    ∀ span cause, (Ledger.asserting (fail span cause)).analyze p ⟨true, true⟩ =
      p.analyze ⟨true, true⟩ := by
  have run : (boxedTwice.parse Parser.program).toOption.map (fun p =>
      (p.analyze ⟨true, true⟩).state.errors.isEmpty) = some true := by
    decide +kernel
  obtain ⟨p, parsed, sound⟩ := Option.map_eq_some_iff.1 run
  have parsed := ok_of_toOption parsed
  obtain ⟨remembered, asserted⟩ := Source.remembered_exact ⟨true, true⟩ parsed
  exact ⟨p, parsed, List.isEmpty_iff.1 sound, remembered, fun span cause => asserted (fail span cause)⟩

end ClassLang
