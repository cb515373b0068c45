import ClassLang.Proofs.Checking.Lookups

/-!
Inferring the type of an expression that has not been visited leaves a trail over its parts, and its
result is judged by the rules of the type system.
-/

namespace ClassLang

variable {scope : Scope} {f g h : Findings} {types : List TypeRef}

/-! ## Visits of expressions -/

/-- Some nodes are still to be visited, while the types in signatures are known and the variables in
scope grounded. -/
structure Scope.Awaits (scope : Scope) (f : Findings) (nodes : List Node) : Prop
    extends f.Awaits scope.program.signature nodes where
  grounded : scope.Grounded

namespace Scope.Awaits

variable {xs ys : List Node} {own : Subtree → Place → Prop} {p : Program}

theorem left (h : scope.Awaits f (xs ++ ys)) : scope.Awaits f xs := ⟨h.toAwaits.left, h.grounded⟩

theorem swap (h : scope.Awaits f (xs ++ ys)) : scope.Awaits f (ys ++ xs) :=
  ⟨h.toAwaits.swap, h.grounded⟩

theorem below {n : Node} (h : scope.Awaits f (n :: xs)) : scope.Awaits f xs :=
  ⟨h.toAwaits.below, h.grounded⟩

theorem after (h : scope.Awaits f (xs ++ ys)) (t : Trail p own f g)
    (inside : ∀ x place, own x place → x.node ∈ xs) : scope.Awaits g ys :=
  ⟨h.toAwaits.after t inside, h.grounded⟩

end Scope.Awaits

/-- The rule of an expression, whose parts are visited. -/
def Concludes (scope : Scope) (e : Expr) (f : Findings) (r : Resolved) (g : Findings) : Prop :=
  ∃ h decl, Trail scope.program (At e.subtrees.tail scope.place) f h ∧
    g = h.referAny e.id decl ∧ Judged scope h e decl r

/-- Subtrees are visited, and the results of some expressions among them known. -/
def Expr.Traced (e : Expr) : Prop := ∀ scope f, scope.Awaits f e.nodes →
  Ensures e.infer.run scope f fun r g =>
    Trail scope.program (At e.subtrees scope.place) f g ∧ g.cached e.id = some r ∧
      ∀ i, g.resolution e.id ≠ some (.class i)

def inferEachTraced (es : List Expr) : Prop := ∀ scope f,
  scope.Awaits f (Expr.nodesAll es) → Ensures (inferEach es) scope f fun rs g =>
    Trail scope.program (At (Expr.subtreesAll es) scope.place) f g ∧
      List.Forall₂ (fun (e : Expr) r => g.cached e.id = some r) es rs

def inferPairsTraced (pairs : List KeymapPair) : Prop := ∀ scope f,
  scope.Awaits f (Expr.nodesPairs pairs) →
    Ensures (inferPairs pairs) scope f fun rs g =>
      Trail scope.program (At (Expr.subtreesPairs pairs) scope.place) f g ∧
        List.Forall₂ (fun (pair : KeymapPair) (r : Except Reported (Ty × Ty)) => ∀ both, r = .ok both →
          g.cached pair.key.id = some (.ok both.1) ∧ g.cached pair.value.id = some (.ok both.2) ∧
            g.cached pair.node.id = some (.ok (.keymap .none both.1 both.2))) pairs rs

theorem Concludes.fault {e : Expr} (trail : Trail scope.program (At e.subtrees.tail scope.place) f g) :
    Concludes scope e f (.error ⟨⟩) g :=
  ⟨g, none, trail, rfl, .fault⟩

theorem Expr.subtrees_eq (e : Expr) : e.subtrees = .expr e :: e.subtrees.tail := by
  cases e <;> rfl

theorem Concludes.remembered {e : Expr} {x : Infer Ty}
    (awaits : scope.Awaits f e.nodes)
    (rule : Ensures x.run scope f (Concludes scope e f)) :
    Ensures (remembered e.id x).run scope f fun r g =>
      Trail scope.program (At e.subtrees scope.place) f g ∧ g.cached e.id = some r ∧
        ∀ i, g.resolution e.id ≠ some (.class i) := by
  have nodes : e.nodes = e.node :: e.subtrees.tail.map Subtree.node := by
    rw [← e.subtrees_nodes, e.subtrees_eq]
    rfl
  rw [nodes] at awaits
  refine .remembered (awaits.fresh _ (List.mem_cons_self ..)) rule ?_
  rintro r _ ⟨h, decl, trail, rfl, judged⟩
  have fresh : h.validity e.id = none := awaits.head_fresh trail (At.inside rfl)
  refine ⟨(trail.mono (At.mono fun _ => List.mem_of_mem_tail)).trans
    (.single (.infer rfl ?_ fresh awaits.grounded judged)),
    Findings.cached_record _ _ _ ((h.validity_referAny _ _ decl).trans fresh), fun i => ?_⟩
  · exact ⟨e.subtree_mem_subtrees, rfl⟩
  · rw [(trail.tidy awaits.tidy).resolution_inferred decl r fresh]
    exact judged.not_class i

theorem At.left {xs ys : List Subtree} {place : Place} {p : Program}
    (t : Trail p (At xs place) f g) : Trail p (At (xs ++ ys) place) f g :=
  t.mono (At.mono (List.subset_append_left _ _))

theorem At.right {xs ys : List Subtree} {place : Place} {p : Program}
    (t : Trail p (At ys place) f g) : Trail p (At (xs ++ ys) place) f g :=
  t.mono (At.mono (List.subset_append_right _ _))

/-- Two expressions, one after the other. -/
theorem Ensures.two {β : Type} {a b : Expr} {k : Resolved → Resolved → Infer β}
    {post : Except Reported β → Findings → Prop} (left : a.Traced) (right : b.Traced)
    (awaits : scope.Awaits f (a.nodes ++ b.nodes))
    (rest : ∀ r r' g, Trail scope.program (At (a.subtrees ++ b.subtrees) scope.place) f g →
      g.cached a.id = some r → g.cached b.id = some r' → Ensures (k r r').run scope g post) :
    Ensures (do
      let r ← attempt a.infer
      let r' ← attempt b.infer
      k r r' : Infer β).run scope f post := by
  refine .attempt_bind (left scope f awaits.left) fun r g ⟨first, known, _⟩ => ?_
  have later := awaits.after first (At.inside a.subtrees_nodes)
  refine .attempt_bind (right scope g later) fun r' h ⟨second, known', _⟩ => ?_
  exact rest r r' h ((At.left first).trans (At.right second))
    ((second.extends_ later.tidy).cached known) known'

/-! ## Names and literals -/

theorem nameType_concludes {n : Node} {name : Ident} :
    Ensures (nameType n name.name).run scope f (Concludes scope (.ident n name) f) := by
  refine .read_bind (.findings_bind ?_)
  split
  · rename_i bound _ inScope
    exact .settle ⟨f, none, .refl f, rfl, .variable inScope⟩
  · rename_i found free located
    refine .settleBy_bind (fun _ allowed => ?_) (.fault (.refl f))
    have allowed : scope.checkAccess f n.span found.owner found.field.access name.name = .ok () ∧
        checkInstance n.span name.name found.field.isStatic scope.isInstance = .ok () := by
      revert allowed
      cases scope.checkAccess f n.span found.owner found.field.access name.name with
      | error _ => exact nofun
      | ok _ => exact fun inst => ⟨rfl, inst⟩
    refine .learn_bind (.settle ⟨f, some found.decl, .refl f, rfl, ?_⟩)
    exact .field free located allowed.1 allowed.2
  · exact .fail (.fault (.refl f))

theorem thisType_concludes {n : Node} :
    Ensures (thisType n).run scope f (Concludes scope (.this n) f) := by
  refine .read_bind ?_
  split
  · rename_i owner here
    split
    · rename_i inst
      exact .pure ⟨f, none, .refl f, rfl, .this here inst⟩
    · exact .fail (.fault (.refl f))
  · exact .fail (.fault (.refl f))

theorem newType_concludes {n : Node} {t : TypeRef}
    (awaits : scope.Awaits f t.nodes) :
    Ensures (newType n t.resolve).run scope f (Concludes scope (.new n t) f) := by
  refine .infer_bind (t.traced scope f _ awaits.toAwaits) (fun type g ⟨trail, known, _⟩ => ?_)
    fun g ⟨trail, _⟩ => .fault trail
  split
  · rename_i named
    exact .pure ⟨g, none, trail, rfl, .new known named⟩
  · exact .fail (.fault trail)

theorem listType_concludes {n : Node} {elems : List Expr} (inner : inferEachTraced elems)
    (awaits : scope.Awaits f (Expr.nodesAll elems)) :
    Ensures (listType elems (inferEach elems)).run scope f (Concludes scope (.list n elems) f) := by
  refine .lift_bind (inner scope f awaits) fun rs g ⟨trail, known⟩ => ?_
  refine .settle_bind (fun values all => ?_) fun _ => .fault trail
  refine .settleBy_bind (fun elem unified => ?_) (.fault trail)
  exact .pure ⟨g, none, trail, rfl, .list (forall₂_of_mapM_id known all) unified⟩

theorem keymapLiteralType_concludes {n : Node} {pairs : List KeymapPair}
    (inner : inferPairsTraced pairs)
    (awaits : scope.Awaits f (Expr.nodesPairs pairs)) :
    Ensures (keymapLiteralType pairs (inferPairs pairs)).run scope f
      (Concludes scope (.keymap n pairs) f) := by
  refine .lift_bind (inner scope f awaits) fun rs g ⟨trail, known⟩ => ?_
  refine .settle_bind (fun values all => ?_) fun _ => .fault trail
  refine .settleBy_bind (fun key keys => ?_) (.fault trail)
  refine .settleBy_bind (fun value values_ => ?_) (.fault trail)
  have known := (forall₂_of_mapM_id known all).imp fun _ _ both => both _ rfl
  exact .pure ⟨g, none, trail, rfl, .keymap known keys values_⟩

/-! ## Operators -/

theorem overloadType_concludes {e : Expr} {operator : Operator} {args : List Operand}
    {otherwise : CheckError} (trail : Trail scope.program (At e.subtrees.tail scope.place) f g)
    (judged : ∀ i type, scope.program.findOperator? g operator args = some (i, type) →
      Judged scope g e (some (.function i)) (.ok type)) :
    Ensures (overloadType e.id operator args otherwise).run scope g (Concludes scope e f) := by
  refine .read_bind (.findings_bind ?_)
  split
  · rename_i i type found
    exact .learn_bind (.note_bind (.pure ⟨g, some (.function i), trail, rfl, judged i type found⟩))
  · exact .settleBy (fun _ => nofun) (.fault trail)

theorem binaryType_concludes {n : Node} {op : BinaryOp} {lhs rhs : Expr} (left : lhs.Traced)
    (right : rhs.Traced) (awaits : scope.Awaits f (lhs.nodes ++ rhs.nodes)) :
    Ensures (binaryType n op lhs rhs lhs.infer rhs.infer).run scope f
      (Concludes scope (.binary n op lhs rhs) f) := by
  refine .two left right awaits fun r r' g trail known known' => ?_
  refine .settle_bind (fun a same => .settle_bind (fun b same' => ?_) fun _ => .fault trail)
    fun _ => .fault trail
  subst same same'
  split
  · rename_i type builtin
    exact .pure ⟨g, none, trail, rfl, .binary known known' builtin⟩
  · rename_i builtin
    exact overloadType_concludes (e := .binary n op lhs rhs) trail
      fun _ _ found => .binaryFunction known known' builtin found

theorem unaryType_concludes {n : Node} {op : UnaryOp} {operand : Expr} (inner : operand.Traced)
    (awaits : scope.Awaits f operand.nodes) :
    Ensures (unaryType n op operand operand.infer).run scope f
      (Concludes scope (.unary n op operand) f) := by
  refine .infer_bind (inner scope f awaits) ?_ fun g before => .fault before.1
  rintro type g ⟨trail, known, _⟩
  have function (ref : op ≠ .ref) (delete : op ≠ .delete) (builtin : op.builtin? type = none)
      (otherwise : CheckError) :
      Ensures (overloadType n.id (.unary op) (operands [operand] [type]) otherwise).run scope g
        (Concludes scope (.unary n op operand) f) :=
    overloadType_concludes (e := .unary n op operand) trail
      fun _ _ found => .unaryFunction ref delete known builtin found
  cases op with
  | ref =>
    dsimp only
    split
    · rename_i presented presents
      exact .pure ⟨g, none, trail, rfl, .reference known presents⟩
    · exact .fail (.fault trail)
  | delete =>
    dsimp only
    split
    · rename_i named
      exact .pure ⟨g, none, trail, rfl, .delete known named⟩
    · exact .fail (.fault trail)
  | neg | pos | bitNot | not =>
    dsimp only
    split
    · rename_i result builtin
      exact .pure ⟨g, none, trail, rfl, .unary known builtin⟩
    · rename_i builtin
      exact function (by simp) (by simp) builtin _

theorem indexType_concludes {n : Node} {target place : Expr} (left : target.Traced)
    (right : place.Traced) (awaits : scope.Awaits f (target.nodes ++ place.nodes)) :
    Ensures (indexType n target place target.infer place.infer).run scope f
      (Concludes scope (.index n target place) f) := by
  refine .two left right awaits fun r r' g trail known known' => ?_
  refine .settle_bind (fun a same => .settle_bind (fun b same' => ?_) fun _ => .fault trail)
    fun _ => .fault trail
  subst same same'
  have function (named : a.className?.isSome = true) (otherwise : CheckError) :
      Ensures (overloadType n.id .index (operands [target, place] [a, b]) otherwise).run scope g
        (Concludes scope (.index n target place) f) :=
    overloadType_concludes (e := .index n target place) trail
      fun _ _ found => .indexFunction known known' named found
  dsimp only
  split
  · refine .settleBy (fun type fits => ?_) (.fault trail)
    unfold elementType at fits
    split at fits
    · cases fits
      exact ⟨g, none, trail, rfl, .element known known' ‹_›⟩
    · cases fits
  · refine .settleBy (fun type fits => ?_) (.fault trail)
    unfold elementType at fits
    split at fits
    · cases fits
      exact ⟨g, none, trail, rfl, .value known known' ‹_›⟩
    · cases fits
  · exact function rfl _
  · exact function rfl _
  · exact .settleBy (fun _ => nofun) (.fault trail)

theorem assignType_concludes {n : Node} {kind : AssignKind} {target value : Expr}
    (left : target.Traced) (right : value.Traced)
    (awaits : scope.Awaits f (target.nodes ++ value.nodes)) :
    Ensures (assignType kind target value target.infer value.infer).run scope f
      (Concludes scope (.assign n kind target value) f) := by
  refine .two left right awaits fun r r' g trail known known' => ?_
  refine .settle_bind (fun a same => .settle_bind (fun b same' => ?_) fun _ => .fault trail)
    fun _ => .fault trail
  subst same same'
  split
  · exact .fail_bind (.fault trail)
  · rename_i writable
    refine .settleBy_bind (fun _ fits => ?_) (.fault trail)
    refine .pure ⟨g, none, trail, rfl, .assign known known' ?_ fits⟩
    exact Bool.eq_false_iff.2 writable

/-! ## Members and calls -/

/-- What a member is taken from is visited. -/
theorem receiver_traced {target : Expr} (access : MemberAccess) (inner : target.Traced)
    (awaits : scope.Awaits f target.nodes) :
    Ensures (receiver target access target.infer).run scope f fun r g =>
      Trail scope.program (At target.subtrees scope.place) f g ∧
        ∀ from_, r = .ok from_ → Receives scope g target access from_ := by
  refine .read_bind (.findings_bind ?_)
  split
  · rename_i owner named
    have visit : Visit scope.program (At target.subtrees scope.place) f _ :=
      .name rfl ⟨target.subtree_mem_subtrees, rfl⟩ (awaits.fresh _ target.node_mem_nodes) named
    have later := visit.extends_ awaits.tidy
    refine .learn_bind (.learn_bind (.pure ⟨.single visit, ?_⟩))
    rintro _ ⟨rfl⟩
    refine .static (((later.agrees awaits.known visit.links).namedClass? target).trans named) ?_
    simp [Findings.resolution, Findings.setResolution, Table.get?_insert]
  · rename_i unnamed
    refine .infer_bind (inner scope f awaits) ?_ ?_
    · rintro type g ⟨trail, known, value⟩
      have same := (trail.extends_ awaits.tidy).agrees awaits.known trail.links
      refine .settleBy (fun from_ receives => ⟨trail, ?_⟩) ⟨trail, ?_⟩
      · rintro _ ⟨rfl⟩
        exact .instance ((same.namedClass? target).trans unnamed) known value receives
      · rintro _ ⟨⟩
    · rintro g ⟨trail, _⟩
      refine ⟨trail, ?_⟩
      rintro _ ⟨⟩

theorem memberType_concludes {n : Node} {target : Expr} {access : MemberAccess} {name : Ident}
    (inner : target.Traced) (awaits : scope.Awaits f target.nodes) :
    Ensures (memberType n name (receiver target access target.infer)).run scope f
      (Concludes scope (.member n target access name) f) := by
  refine .infer_bind (receiver_traced access inner awaits) (fun from_ g ⟨trail, receives⟩ => ?_)
    fun g ⟨trail, _⟩ => .fault trail
  refine .read_bind (.findings_bind ?_)
  refine .settleBy_bind (fun found located => ?_) (.fault trail)
  have judged : Judged scope g (.member n target access name) _ _ :=
    .member (receives from_ rfl) located
  refine .infer_bind (m := fun r h => r = found.type ∧ h = g.referAny n.id (some found.decl))
    (.learn_bind (.settle ⟨rfl, rfl⟩)) ?_ ?_
  · rintro type _ ⟨same, rfl⟩
    rw [← same] at judged
    exact .pure ⟨g, _, trail, rfl, judged⟩
  · rintro _ ⟨same, rfl⟩
    rw [← same] at judged
    exact ⟨g, _, trail, rfl, judged⟩

/-- What a call may mean, found after a visit of the callee. -/
theorem findCallee_traced {callee : Expr} (inner : callee.Traced)
    (innerTarget : ∀ n target access name, callee = .member n target access name → target.Traced)
    (awaits : scope.Awaits f callee.nodes) :
    Ensures (findCallee callee callee.infer callee.inferTarget).run scope f fun r g =>
      Trail scope.program (At callee.subtrees scope.place) f g ∧
        ∀ meaning, r = .ok meaning → Means scope g callee meaning ∧ g.validity callee.id = none := by
  refine .read_bind ?_
  split
  · refine .findings_bind (.settleBy (fun meaning found => ⟨.refl f, ?_⟩) ⟨.refl f, fun _ => nofun⟩)
    rintro _ ⟨rfl⟩
    exact ⟨.named found, awaits.fresh _ (List.mem_cons_self ..)⟩
  · rename_i n target access name
    have traced := receiver_traced access (innerTarget _ _ _ _ rfl) awaits.below
    refine .infer_bind traced (fun from_ g ⟨trail, receives⟩ => ?_) fun g ⟨trail, _⟩ =>
      ⟨trail.mono (At.mono (List.subset_cons_self _ _)), fun _ => nofun⟩
    have fresh := awaits.head_fresh trail (At.inside target.subtrees_nodes)
    have trail := trail.mono (At.mono (List.subset_cons_self (.expr (.member n target access name)) _))
    refine .findings_bind (.settleBy (fun meaning found => ⟨trail, ?_⟩) ⟨trail, fun _ => nofun⟩)
    rintro _ ⟨rfl⟩
    exact ⟨.member (receives from_ rfl) found, fresh⟩
  · exact .attempt_bind (inner scope f awaits) fun r g ⟨trail, _⟩ => .fail ⟨trail, fun _ => nofun⟩

theorem callType_concludes {n : Node} {callee : Expr} {args : List Expr} (inner : callee.Traced)
    (innerTarget : ∀ n target access name, callee = .member n target access name → target.Traced)
    (innerArgs : inferEachTraced args)
    (awaits : scope.Awaits f (callee.nodes ++ Expr.nodesAll args)) :
    Ensures (callType (.call n callee args) callee args callee.infer callee.inferTarget
      (inferEach args)).run scope f (Concludes scope (.call n callee args) f) := by
  refine .lift_bind (innerArgs scope f awaits.swap.left) fun rs g ⟨first, known⟩ => ?_
  have later := awaits.swap.after first (At.inside (Expr.subtreesAll_nodes args))
  refine .attempt_bind (findCallee_traced inner innerTarget later) fun found h ⟨second, means⟩ => ?_
  have judge : Visit scope.program (At callee.subtrees scope.place) h (h.setValid callee.id found.isOk) :=
    .judge (x := .expr callee) ⟨callee.subtree_mem_subtrees, rfl⟩
  have tidy := second.tidy later.tidy
  have callee_ := second.trans (.single judge)
  have trail : Trail scope.program (At (callee.subtrees ++ Expr.subtreesAll args) scope.place) f _ :=
    (At.right first).trans (At.left callee_)
  refine .learn_bind (.settle_bind (fun meaning same => ?_) fun _ => .fault trail)
  refine .settle_bind (fun values all => ?_) fun _ => .fault trail
  have known := ((callee_.extends_ later.tidy).cachedAll (forall₂_of_mapM_id known all))
  have knownTypes := (second.extends_ later.tidy).known later.known
  have judgedLater := judge.extends_ tidy
  obtain ⟨means, fresh⟩ := means meaning same
  have means := means.mono judgedLater (judgedLater.agrees knownTypes judge.links)
  have sound : (h.setValid callee.id found.isOk).validity callee.id = some true := by
    rw [Findings.validity_setValid, if_pos rfl, fresh, same]
    rfl
  unfold Callee.choose
  split
  · rename_i chosen found
    refine .infer_bind (m := fun r g => r = .ok chosen ∧ g = _) (.pure ⟨rfl, rfl⟩) ?_ nofun
    rintro _ _ ⟨⟨rfl⟩, rfl⟩
    exact .note_bind (.learn_bind (.pure ⟨_, some chosen.1, trail, rfl, .call means sound known found⟩))
  · split
    · exact .fail_bind (.fault trail)
    · exact .infer_bind (m := fun r g => r = .error ⟨⟩ ∧ g = _) (.pure ⟨rfl, rfl⟩) nofun
        fun _ ⟨_, same⟩ => same ▸ .fault trail

/-! ## Expressions -/

theorem recordedPair_traced {n : Node} {key value : Expr} (left : key.Traced) (right : value.Traced)
    (awaits : scope.Awaits f (KeymapPair.mk n key value).nodes) :
    Ensures (recordedPair n (pairType key.infer value.infer)) scope f fun r g =>
      Trail scope.program (At (.pair (.mk n key value) :: (key.subtrees ++ value.subtrees)) scope.place) f g ∧
        ∀ both, r = .ok both → g.cached key.id = some (.ok both.1) ∧
          g.cached value.id = some (.ok both.2) ∧
            g.cached n.id = some (.ok (.keymap .none both.1 both.2)) := by
  have typed : Ensures (pairType key.infer value.infer).run scope f fun r g =>
      Trail scope.program (At (key.subtrees ++ value.subtrees) scope.place) f g ∧
        ∀ both, r = .ok both → g.cached key.id = some (.ok both.1) ∧
          g.cached value.id = some (.ok both.2) := by
    refine .two left right awaits.below fun r r' g trail known known' => ?_
    refine .settle_bind (fun a same => .settle_bind (fun b same' => .pure ⟨trail, ?_⟩)
      fun _ => ⟨trail, fun _ => nofun⟩) fun _ => ⟨trail, fun _ => nofun⟩
    subst same same'
    rintro _ ⟨rfl⟩
    exact ⟨known, known'⟩
  refine .bind typed fun r g ⟨trail, known⟩ => .learn (.pure ?_)
  have fresh : g.validity n.id = none := awaits.head_fresh trail (At.inside (by
    rw [List.map_append, key.subtrees_nodes, value.subtrees_nodes]))
  have visit : Visit scope.program
      (At (.pair (.mk n key value) :: (key.subtrees ++ value.subtrees)) scope.place) g
      (g.record n.id (r.map fun both => .keymap .none both.1 both.2)) := by
    refine .pair (x := .mk n key value) ⟨List.mem_cons_self .., rfl⟩ fresh fun type same => ?_
    cases r with
    | error _ => cases same
    | ok both =>
      cases same
      exact ⟨both.1, both.2, rfl, known both rfl⟩
  have later := visit.extends_ (trail.tidy awaits.tidy)
  refine ⟨(trail.mono (At.mono (List.subset_cons_self _ _))).trans (.single visit),
    fun both same => ⟨later.cached (known both same).1, later.cached (known both same).2, ?_⟩⟩
  subst same
  exact g.cached_record _ _ fresh

mutual

theorem Expr.traced : ∀ e : Expr, e.Traced
  | .ident .., _, _, awaits => Concludes.remembered awaits nameType_concludes
  | .this _, _, _, awaits => Concludes.remembered awaits thisType_concludes
  | .literal .., _, f, awaits =>
    Concludes.remembered awaits (.pure ⟨f, none, .refl f, rfl, .literal⟩)
  | .list _ elems, _, _, awaits =>
    Concludes.remembered awaits (listType_concludes (inferEach_traced elems) awaits.below)
  | .keymap _ pairs, _, _, awaits =>
    Concludes.remembered awaits (keymapLiteralType_concludes (inferPairs_traced pairs) awaits.below)
  | .binary _ _ lhs rhs, _, _, awaits =>
    Concludes.remembered awaits (binaryType_concludes lhs.traced rhs.traced awaits.below)
  | .unary _ _ operand, _, _, awaits =>
    Concludes.remembered awaits (unaryType_concludes operand.traced awaits.below)
  | .new .., _, _, awaits => Concludes.remembered awaits (newType_concludes awaits.below)
  | .member _ target _ _, _, _, awaits =>
    Concludes.remembered awaits (memberType_concludes target.traced awaits.below)
  | .index _ target place, _, _, awaits =>
    Concludes.remembered awaits (indexType_concludes target.traced place.traced awaits.below)
  | .call _ callee args, _, _, awaits =>
    Concludes.remembered awaits
      (callType_concludes callee.traced callee.target_traced (inferEach_traced args) awaits.below)
  | .assign _ _ target value, _, _, awaits =>
    Concludes.remembered awaits (assignType_concludes target.traced value.traced awaits.below)

theorem Expr.target_traced : ∀ (e : Expr) (n : Node) (target : Expr) (access : MemberAccess)
    (name : Ident), e = .member n target access name → target.Traced
  | .member _ target _ _, _, _, _, _, same => by
    cases same
    exact target.traced
  | .ident .., _, _, _, _, same | .this _, _, _, _, _, same | .literal .., _, _, _, _, same
  | .list .., _, _, _, _, same | .keymap .., _, _, _, _, same | .binary .., _, _, _, _, same
  | .unary .., _, _, _, _, same | .new .., _, _, _, _, same | .index .., _, _, _, _, same
  | .call .., _, _, _, _, same | .assign .., _, _, _, _, same => nomatch same

theorem inferEach_traced : ∀ es : List Expr, inferEachTraced es
  | [], _, f, _ => .pure ⟨.refl f, .nil⟩
  | e :: rest, scope, f, awaits => by
    refine .bind (e.traced scope f awaits.left) fun r g ⟨first, known, _⟩ => ?_
    have later := awaits.after first (At.inside e.subtrees_nodes)
    refine .bind (inferEach_traced rest scope g later) fun rs h ⟨others, knownRest⟩ => ?_
    exact .pure ⟨(At.left first).trans (At.right others),
      .cons ((others.extends_ later.tidy).cached known) knownRest⟩

theorem inferPairs_traced : ∀ pairs : List KeymapPair, inferPairsTraced pairs
  | [], _, f, _ => .pure ⟨.refl f, .nil⟩
  | .mk n key value :: rest, scope, f, awaits => by
    refine .bind (recordedPair_traced key.traced value.traced awaits.left)
      fun r g ⟨first, known⟩ => ?_
    have inside : (Subtree.pair (.mk n key value) :: (key.subtrees ++ value.subtrees)).map Subtree.node =
        (KeymapPair.mk n key value).nodes := by
      rw [List.map_cons, List.map_append, key.subtrees_nodes, value.subtrees_nodes]
      rfl
    have later := awaits.after first (At.inside inside)
    refine .bind (inferPairs_traced rest scope g later) fun rs h ⟨others, knownRest⟩ => ?_
    have stays := others.extends_ later.tidy
    refine .pure ⟨(At.left first).trans (At.right others), .cons (fun both same => ?_) knownRest⟩
    obtain ⟨key, value, pair⟩ := known both same
    exact ⟨stays.cached key, stays.cached value, stays.cached pair⟩

end

end ClassLang
