import ClassLang.Proofs.Checking.BodyTrails
import ClassLang.Proofs.Checking.Settlements
import ClassLang.Proofs.Syntax.Scoping

/-!
What is known of the statements of a body once they have been checked, with the variables in scope at
each of them: all names and calls in their expressions are settled, and a statement that has been
found valid keeps its rules.
-/

namespace ClassLang

variable {α β : Type} {p : Program} {own : Subtree → Place → Prop} {f g h : Findings} {scope : Scope}
  {ns : List Node} {xs ys : List Subtree}

/-! ## Surroundings -/

/-- What can be named where a statement stands, and what the function around it returns. -/
structure Surroundings where
  place : Place
  vars : Variables
  returns : Option TypeRef

/-- A scope has the variables and the return type of some surroundings, with the types that have been
found for them. -/
structure Scope.Fits (scope : Scope) (f : Findings) (around : Surroundings) : Prop where
  place : scope.place = around.place
  vars : ∀ name,
    Option.Rel (fun r (t : TypeRef) => f.cached t.id = some r) (scope.env.get? name)
      (around.vars.lookup name)
  returns : Option.Rel (fun r (t : TypeRef) => f.cached t.id = some r) scope.returnType around.returns

theorem rel_mono {r r' : α → β → Prop} {a : Option α} {b : Option β} (h : Option.Rel r a b)
    (le : ∀ a b, r a b → r' a b) : Option.Rel r' a b := by
  cases h with
  | some related => exact .some (le _ _ related)
  | none => exact .none

namespace Scope.Fits

variable {around : Surroundings}

theorem later (fits : scope.Fits f around) (later : f.Extends g) : scope.Fits g around :=
  ⟨fits.place, fun name => rel_mono (fits.vars name) fun _ _ known => later.cached known,
    rel_mono fits.returns fun _ _ known => later.cached known⟩

theorem inLoop (fits : scope.Fits f around) : { scope with inLoop := true }.Fits f around :=
  ⟨fits.place, fits.vars, fits.returns⟩

theorem bind (fits : scope.Fits f around) {t : TypeRef} {r : Resolved} (name : String)
    (known : f.cached t.id = some r) :
    (scope.bind name r).Fits f { around with vars := (name, t) :: around.vars } := by
  refine ⟨fits.place, fun other => ?_, fits.returns⟩
  rw [Scope.bind, Environment.get?_insert, List.lookup_cons]
  by_cases same : other = name
  · rw [if_pos same, beq_iff_eq.2 same]
    exact .some known
  · rw [if_neg same, beq_eq_false_iff_ne.2 same]
    exact fits.vars other

theorem bound (fits : scope.Fits f around) {name : String} {t : TypeRef}
    (inScope : around.vars.lookup name = some t) :
    ∃ r, scope.env.get? name = some r ∧ f.cached t.id = some r := by
  have same := fits.vars name
  rw [inScope] at same
  cases found : scope.env.get? name with
  | none =>
    rw [found] at same
    cases same
  | some r =>
    rw [found] at same
    obtain ⟨known⟩ := same
    exact ⟨r, rfl, known⟩

theorem unbound (fits : scope.Fits f around) {name : String} (free : around.vars.lookup name = none) :
    scope.env.get? name = none := by
  have same := fits.vars name
  rw [free] at same
  cases found : scope.env.get? name with
  | none => rfl
  | some _ =>
    rw [found] at same
    cases same

/-- What is declared to be returned is what a return is checked against. -/
theorem returned (fits : scope.Fits f around) {t : TypeRef} {expected type : Ty}
    (declared : around.returns = some t) (known : f.cached t.id = some (.ok type))
    (here : scope.returnType = some (.ok expected)) : expected = type := by
  have returns := fits.returns
  rw [here, declared] at returns
  obtain ⟨known'⟩ := returns
  cases known.symm.trans known'
  rfl

theorem selfClass (fits : scope.Fits f around) : scope.selfClass = around.place.selfClass :=
  congrArg Place.selfClass fits.place

end Scope.Fits

/-! ## Rules -/

/-- What holds of a statement that has been found valid. -/
structure Statement.Upheld (scope : Scope) (f : Findings) (s : Statement) : Prop where
  conditions : ∀ c ∈ s.conditions, ∃ type, f.cached c.id = some (.ok type) ∧ type.isBoolean = true
  blocks : ∀ b ∈ s.blocks, ∀ inner ∈ b.statements, f.validity inner.id = some true
  stored : ∀ n decl init, s = .varDecl n decl → decl.init = some init → ∃ target type,
    f.cached decl.type.id = some (.ok target) ∧ f.cached init.value.id = some (.ok type) ∧
      checkStore init.kind target decl.name.name init.value type = .ok ()
  returned : ∀ n value, s = .return n value → ∃ expected, scope.returnType = some (.ok expected) ∧
    expected.isVoid = value.isNone ∧ ∀ e, value = some e → ∃ type, f.cached e.id = some (.ok type) ∧
      expected.accepts type e.isPlace = true

/-- What is known of a statement that has been checked. -/
structure Statement.Checked (scope : Scope) (f : Findings) (s : Statement) : Prop where
  settled : ∀ e ∈ s.roots, AllSettled scope e.subtrees f
  judged : (f.validity s.id).isSome = true
  upheld : f.validity s.id = some true → s.Upheld scope f

/-- Each of some statements has been checked in a scope that fits. -/
def Explained (p : Program) (place : Place) (returns : Option TypeRef)
    (xs : List (Variables × Statement)) (f : Findings) : Prop :=
  ∀ vars s, (vars, s) ∈ xs → ∃ scope, scope.program = p ∧ scope.Fits f ⟨place, vars, returns⟩ ∧
    s.Checked scope f

theorem Statement.Upheld.mono {s : Statement} (h : s.Upheld scope f) (later : f.Extends g) :
    s.Upheld scope g where
  conditions c listed := by
    obtain ⟨type, known, boolean⟩ := h.conditions c listed
    exact ⟨type, later.cached known, boolean⟩
  blocks b listed inner inside := later.validity (h.blocks b listed inner inside)
  stored n decl init same given := by
    obtain ⟨target, type, declared, known, fits⟩ := h.stored n decl init same given
    exact ⟨target, type, later.cached declared, later.cached known, fits⟩
  returned n value same := by
    obtain ⟨expected, here, void, handed⟩ := h.returned n value same
    refine ⟨expected, here, void, fun e given => ?_⟩
    obtain ⟨type, known, accepted⟩ := handed e given
    exact ⟨type, later.cached known, accepted⟩

/-- Later findings extend earlier ones and know the same of some nodes. -/
structure Findings.Later (p : Program) (ns : List Node) (f g : Findings) : Prop where
  extends_ : f.Extends g
  alike : f.Alike p ns g

theorem Findings.Later.mono {ms : List Node} (later : f.Later p ms g) (sub : ns ⊆ ms) :
    f.Later p ns g :=
  ⟨later.extends_, later.alike.mono sub⟩

theorem Statement.Checked.mono {s : Statement} (h : s.Checked scope f)
    (later : f.Later scope.program ns g) (inside : ∀ e ∈ s.roots, e.nodes ⊆ ns) :
    s.Checked scope g where
  settled e listed := by
    refine (h.settled e listed).alike e.subtrees_closed (later.alike.mono ?_)
    rw [e.subtrees_nodes]
    exact inside e listed
  judged := by
    obtain ⟨valid, judged⟩ := Option.isSome_iff_exists.1 h.judged
    rw [later.extends_.validity judged]
    rfl
  upheld valid := by
    obtain ⟨before, judged⟩ := Option.isSome_iff_exists.1 h.judged
    cases valid.symm.trans (later.extends_.validity judged)
    exact (h.upheld judged).mono later.extends_

namespace Explained

variable {place : Place} {returns : Option TypeRef} {ss tt : List (Variables × Statement)}

theorem mono (h : Explained p place returns ss f) (later : f.Later p ns g)
    (inside : ∀ vars s, (vars, s) ∈ ss → ∀ e ∈ s.roots, e.nodes ⊆ ns) :
    Explained p place returns ss g := by
  intro vars s listed
  obtain ⟨scope, program, fits, checked⟩ := h vars s listed
  subst program
  exact ⟨scope, rfl, fits.later later.extends_, checked.mono later (inside vars s listed)⟩

theorem nil : Explained p place returns [] f := fun _ _ => nofun

theorem append (left : Explained p place returns ss f) (right : Explained p place returns tt f) :
    Explained p place returns (ss ++ tt) f :=
  fun vars s listed => (List.mem_append.1 listed).elim (left vars s) (right vars s)

end Explained

/-! ## Checks -/

theorem Ensures.succeeds {x : Infer α} {post : Bool → Findings → Prop}
    (h : Ensures x.run scope f fun r g => post r.isOk g) :
    Ensures (ClassLang.succeeds x) scope f post := by
  intro s same
  rw [Check.exec_succeeds]
  exact h s same

/-- What a check of some subtrees brings about in a scope that fits. -/
def Establishes (x : Check α) (xs : List Subtree)
    (Q : Scope → Surroundings → α → Findings → Prop) : Prop :=
  ∀ scope f around, scope.Awaits f (xs.map Subtree.node) → scope.Fits f around →
    Ensures x scope f (Q scope around)

/-- What holds of some subtrees holds ever after, once they have been visited. -/
def Lasting (xs : List Subtree) (Q : Scope → Surroundings → α → Findings → Prop) : Prop :=
  ∀ scope around a f g, f.Later scope.program (xs.map Subtree.node) g → Q scope around a f →
    Q scope around a g

variable {Q : Scope → Surroundings → α → Findings → Prop}
  {R : α → Scope → Surroundings → β → Findings → Prop}

theorem Findings.Awaits.later {ms : List Node} (awaits : f.Awaits p.signature (ns ++ ms))
    (t : Trail p own g h) (inside : ∀ x place, own x place → x.node ∈ ms) (tidy : g.Tidy)
    (known : g.Known p.signature) : g.Later p ns h :=
  ⟨t.extends_ tidy, awaits.alike t inside tidy known⟩

namespace Establishes

theorem weaken {Q' : Scope → Surroundings → α → Findings → Prop} {x : Check α}
    (h : Establishes x xs Q) (le : ∀ scope around a f, Q scope around a f → Q' scope around a f) :
    Establishes x xs Q' :=
  fun scope f around awaits fits => (h scope f around awaits fits).weaken (le scope around)

theorem map {x : Check α} {k : α → β} (h : Establishes x xs Q) :
    Establishes (do return k (← x)) xs fun scope around b g => ∃ a, b = k a ∧ Q scope around a g :=
  fun scope f around awaits fits =>
    .bind (h scope f around awaits fits) fun a _ held => .pure ⟨a, rfl, held⟩

/-- One check after another: what the first has brought about lasts. -/
theorem bind {x : Check α} {k : α → Check β} (leaves : Leaves Program.signature x xs)
    (hx : Establishes x xs Q) (lasting : Lasting xs Q) (later : ∀ a, Leaves Program.signature (k a) ys)
    (hk : ∀ a, Establishes (k a) ys (R a)) :
    Establishes (x >>= k) (xs ++ ys) fun scope around b g =>
      ∃ a, Q scope around a g ∧ R a scope around b g := by
  intro scope f around awaits fits
  rw [List.map_append] at awaits
  refine .bind ((leaves scope f awaits.left.toAwaits awaits.grounded).and
    (hx scope f around awaits.left fits)) ?_
  rintro a g ⟨first, held⟩
  have next := awaits.after first.trail (At.inside rfl)
  have fits := fits.later (first.trail.extends_ awaits.tidy)
  refine ((later a scope g next.toAwaits next.grounded).and (hk a scope g around next fits)).weaken ?_
  rintro b h ⟨second, others⟩
  refine ⟨a, lasting _ _ _ _ _ ?_ held, others⟩
  exact awaits.toAwaits.later second.trail (At.inside rfl) next.tidy next.known

end Establishes

/-! ## Compound statements -/

/-- What is known of conditions, blocks and the statements inside them. -/
structure Compound (cs : List Expr) (bs : List Block)
    (inner : Variables → List (Variables × Statement)) (scope : Scope) (around : Surroundings)
    (valid : Bool) (f : Findings) : Prop where
  settled : ∀ c ∈ cs, AllSettled scope c.subtrees f
  explained : Explained scope.program around.place around.returns (inner around.vars) f
  conditions : valid = true → ∀ c ∈ cs, ∃ type, f.cached c.id = some (.ok type) ∧ type.isBoolean = true
  blocks : valid = true → ∀ b ∈ bs, ∀ s ∈ b.statements, f.validity s.id = some true

namespace Compound

variable {cs ds : List Expr} {bs es : List Block}
  {inner more : Variables → List (Variables × Statement)} {around : Surroundings} {v w : Bool}

theorem nil : Compound [] [] (fun _ => []) scope around v f :=
  ⟨fun _ => nofun, .nil, fun _ _ => nofun, fun _ _ => nofun⟩

theorem append (left : Compound cs bs inner scope around v f)
    (right : Compound ds es more scope around w f) :
    Compound (cs ++ ds) (bs ++ es) (fun vars => inner vars ++ more vars) scope around (v && w) f where
  settled c listed := (List.mem_append.1 listed).elim (left.settled c) (right.settled c)
  explained := left.explained.append right.explained
  conditions both c listed := by
    obtain ⟨first, second⟩ := Bool.and_eq_true_iff.1 both
    exact (List.mem_append.1 listed).elim (left.conditions first c) (right.conditions second c)
  blocks both b listed := by
    obtain ⟨first, second⟩ := Bool.and_eq_true_iff.1 both
    exact (List.mem_append.1 listed).elim (left.blocks first b) (right.blocks second b)

/-- The nodes that are read lie below some subtrees. -/
structure Inside (cs : List Expr) (inner : Variables → List (Variables × Statement))
    (xs : List Subtree) : Prop where
  conditions : ∀ c ∈ cs, c.nodes ⊆ xs.map Subtree.node
  statements : ∀ vars here s, (here, s) ∈ inner vars → ∀ e ∈ s.roots, e.nodes ⊆ xs.map Subtree.node

theorem lasting (inside : Inside cs inner xs) : Lasting xs (Compound cs bs inner) := by
  intro scope around valid f g later h
  refine ⟨fun c listed => ?_, h.explained.mono later (inside.statements _), fun sound c listed => ?_,
    fun sound b listed s within => later.extends_.validity (h.blocks sound b listed s within)⟩
  · refine (h.settled c listed).alike c.subtrees_closed (later.alike.mono ?_)
    rw [c.subtrees_nodes]
    exact inside.conditions c listed
  · obtain ⟨type, known, boolean⟩ := h.conditions sound c listed
    exact ⟨type, later.extends_.cached known, boolean⟩

end Compound

namespace Compound.Inside

theorem condition (c : Expr) : Compound.Inside [c] (fun _ => []) c.subtrees := by
  refine ⟨fun c listed => ?_, fun _ _ _ => nofun⟩
  cases List.mem_singleton.1 listed
  rw [c.subtrees_nodes]
  exact List.Subset.refl _

theorem block (b : Block) : Compound.Inside [] (b.scoped ·) b.subtrees := by
  refine ⟨fun _ => nofun, fun vars here s listed e root => ?_⟩
  rw [b.subtrees_nodes]
  exact List.Subset.trans (Statement.roots_nodes root) (b.within_nodes (Block.mem_within listed))

end Compound.Inside

/-! ## Rules -/

theorem checkCondition_establishes (c : Expr) :
    Establishes (checkCondition c) c.subtrees (Compound [c] [] fun _ => []) := by
  intro scope f around awaits fits
  rw [c.subtrees_nodes] at awaits
  have done {valid : Bool} {g : Findings} (settled : AllSettled scope c.subtrees g)
      (sound : valid = true → ∃ type, g.cached c.id = some (.ok type) ∧ type.isBoolean = true) :
      Compound [c] [] (fun _ => []) scope around valid g :=
    ⟨List.forall_mem_singleton.2 settled, .nil, fun v => List.forall_mem_singleton.2 (sound v),
      fun _ _ => nofun⟩
  refine .succeeds (.infer_bind ((c.traced scope f awaits).and (c.settles scope f awaits)) ?_ ?_)
  · rintro type g ⟨⟨-, known, -⟩, settled⟩
    split
    · exact .fail (done settled nofun)
    · rename_i boolean
      exact .pure (done settled fun _ => ⟨type, known, by simpa using boolean⟩)
  · rintro g ⟨-, settled⟩
    exact done settled nofun

theorem checkInitializer_establishes (target : Resolved) (name : String) (init : Initializer) :
    Establishes (checkInitializer target name init) init.value.subtrees fun scope _ sound g =>
      AllSettled scope init.value.subtrees g ∧ (sound = true → ∃ t type, target = .ok t ∧
        g.cached init.value.id = some (.ok type) ∧
          checkStore init.kind t name init.value type = .ok ()) := by
  intro scope f around awaits fits
  rw [init.value.subtrees_nodes] at awaits
  refine .bind ((init.value.traced scope f awaits).and (init.value.settles scope f awaits)) ?_
  rintro value g ⟨⟨-, known, -⟩, settled⟩
  refine .succeeds (.settle_bind (fun t declared => .settle_bind (fun type typed => .settleBy
    (fun _ fits => ⟨settled, fun _ => ?_⟩) ⟨settled, nofun⟩) fun _ => ⟨settled, nofun⟩)
    fun _ => ⟨settled, nofun⟩)
  exact ⟨t, type, declared, typed ▸ known, fits⟩

theorem checkReturned_ensures {span : Span} {value : Option Expr} {handed : Option (Expr × Resolved)}
    (same : handed.map Prod.fst = value)
    (known : ∀ e r, handed = some (e, r) → f.cached e.id = some r) :
    Ensures (succeeds (checkReturned span handed)) scope f fun sound g => g = f ∧
      (sound = true → ∃ expected, scope.returnType = some (.ok expected) ∧
        expected.isVoid = value.isNone ∧ ∀ e, value = some e → ∃ type,
          f.cached e.id = some (.ok type) ∧ expected.accepts type e.isPlace = true) := by
  subst same
  refine .succeeds (.read_bind ?_)
  split
  · exact .fail ⟨rfl, nofun⟩
  · rename_i type here
    refine .settle_bind ?_ fun _ => ⟨rfl, nofun⟩
    rintro expected rfl
    split
    · split
      · exact .fail ⟨rfl, nofun⟩
      · rename_i void
        refine .pure ⟨rfl, fun _ => ⟨expected, here, by simpa using void, fun _ => nofun⟩⟩
    · rename_i e result
      split
      · exact .fail_bind ⟨rfl, nofun⟩
      · rename_i void
        refine .settle_bind ?_ fun _ => ⟨rfl, nofun⟩
        rintro type rfl
        split
        · exact .fail ⟨rfl, nofun⟩
        · rename_i accepted
          refine .pure ⟨rfl, fun _ => ⟨expected, here, by simpa using void, ?_⟩⟩
          rintro _ ⟨rfl⟩
          exact ⟨type, known _ _ rfl, by simpa using accepted⟩

/-! ## Statements -/

/-- What is known of a statement and of those inside it before the verdict on it is recorded. -/
structure Statement.Done (s : Statement) (declared : List String) (scope : Scope)
    (around : Surroundings) (outcome : StatementOutcome) (f : Findings) : Prop where
  settled : ∀ e ∈ s.roots, AllSettled scope e.subtrees f
  explained : Explained scope.program around.place around.returns (s.scoped around.vars).tail f
  upheld : outcome.valid = true → s.Upheld scope f
  names : outcome.bound.map Prod.fst = (s.binds declared).map Prod.fst
  binds : (scope.bindAny outcome.bound).Fits f
    { around with vars := (s.binds declared).toList ++ around.vars }

theorem checkVarDecl_establishes (n : Node) (declared : List String) (decl : VarDecl) :
    Establishes (checkVarDecl declared decl) decl.subtrees
      (Statement.Done (.varDecl n decl) declared) := by
  intro scope f around awaits fits
  rw [VarDecl.subtrees, List.map_append, decl.type.subtrees_nodes] at awaits
  refine .bind (decl.type.traced scope f _ awaits.left.toAwaits) ?_
  rintro type g ⟨first, known, -⟩
  have later := awaits.after first (At.inside decl.type.subtrees_nodes)
  have fits := fits.later (first.extends_ awaits.tidy)
  have finish (sound : Bool) (h : Findings) (stays : g.Extends h)
      (settled : ∀ e ∈ (Statement.varDecl n decl).roots, AllSettled scope e.subtrees h)
      (stored : sound = true → ∀ init, decl.init = some init → ∃ target type',
        type = .ok target ∧ h.cached init.value.id = some (.ok type') ∧
          checkStore init.kind target decl.name.name init.value type' = .ok ()) :
      Ensures (do
        if declared.contains decl.name.name then
          report ⟨decl.name.span, .variableRedeclared decl.name.name⟩
          return ⟨false, none⟩
        return (⟨type.isOk && sound, some (decl.name.name, type)⟩ : StatementOutcome)) scope h
          (Statement.Done (.varDecl n decl) declared scope around) := by
    have fits := fits.later stays
    have binds : (Statement.varDecl n decl).binds declared =
        if declared.contains decl.name.name then none else some (decl.name.name, decl.type) := rfl
    split
    · rename_i repeated
      rw [if_pos repeated] at binds
      refine .silent (fun _ => rfl) fun _ =>
        .pure ⟨settled, .nil, fun invalid => absurd invalid Bool.false_ne_true, ?_, ?_⟩
      · rw [binds]
        rfl
      · rw [binds]
        exact fits
    · rename_i new
      rw [if_neg new] at binds
      refine .pure ⟨settled, .nil, fun valid => ⟨fun _ listed => absurd listed List.not_mem_nil,
        fun _ listed => absurd listed List.not_mem_nil, ?_, ?_⟩, ?_, ?_⟩
      · intro _ _ init same given
        cases same
        obtain ⟨target, type', rfl, typed, fits⟩ := stored (Bool.and_eq_true_iff.1 valid).2 init given
        exact ⟨target, type', stays.cached known, typed, fits⟩
      · intro _ _ same
        cases same
      · rw [binds]
        rfl
      · rw [binds]
        exact fits.bind _ (stays.cached known)
  cases given : decl.init with
  | none =>
    refine .silent (fun _ => rfl) fun _ => finish _ g (.refl g) ?_ fun _ init same => ?_
    · rw [Statement.roots, given]
      exact fun _ listed => absurd listed List.not_mem_nil
    · cases given.symm.trans same
  | some init =>
    rw [given] at later
    have started := checkInitializer_establishes type decl.name.name init scope g around later fits
    have left := checkInitializer_leaves type decl.name.name init scope g later.toAwaits later.grounded
    refine .bind (left.and started) ?_
    rintro sound h ⟨second, settled, stored⟩
    refine finish sound h (second.trail.extends_ later.tidy) ?_ fun valid init' same => ?_
    · rw [Statement.roots, given]
      exact List.forall_mem_singleton.2 settled
    · cases given.symm.trans same
      exact stored valid

theorem checkEffect_establishes (n : Node) (declared : List String) (e : Expr) :
    Establishes (undeclaring (checkEffect e)) e.subtrees
      (Statement.Done (.expr n e) declared) := by
  intro scope f around awaits fits
  have stays := e.infer_leaves scope f awaits.toAwaits awaits.grounded
  rw [e.subtrees_nodes] at awaits
  have inferred : Ensures (succeeds e.infer) scope f fun _ g =>
      Explores scope.program scope.place e.subtrees f g ∧ AllSettled scope e.subtrees g :=
    .succeeds (stays.and (e.settles scope f awaits))
  refine .bind (.bind inferred ?_) fun valid g done => .pure done
  rintro sound g ⟨left, settled⟩
  refine .silent (fun _ => rfl) fun useful => .pure ?_
  refine ⟨List.forall_mem_singleton.2 settled, .nil, fun _ => ?_, rfl,
    fits.later (left.trail.extends_ awaits.tidy)⟩
  exact ⟨fun _ => nofun, fun _ => nofun, fun _ _ _ => nofun, fun _ _ => nofun⟩

theorem checkReturn_establishes (n : Node) (declared : List String) (value : Option Expr) :
    Establishes (undeclaring (checkReturn n.span value)) (value.elim [] Expr.subtrees)
      (Statement.Done (.return n value) declared) := by
  intro scope f around awaits fits
  have done {valid : Bool} {g : Findings} (stays : f.Extends g)
      (settled : ∀ e ∈ value.toList, AllSettled scope e.subtrees g)
      (returned : valid = true → ∃ expected, scope.returnType = some (.ok expected) ∧
        expected.isVoid = value.isNone ∧ ∀ e, value = some e → ∃ type,
          g.cached e.id = some (.ok type) ∧ expected.accepts type e.isPlace = true) :
      Statement.Done (.return n value) declared scope around ⟨valid, none⟩ g := by
    refine ⟨settled, .nil, fun sound => ⟨fun _ => nofun, fun _ => nofun, fun _ _ _ => nofun, ?_⟩, rfl,
      fits.later stays⟩
    rintro _ _ ⟨⟩
    exact returned sound
  cases value with
  | none =>
    refine .bind (checkReturned_ensures rfl fun _ _ => nofun) ?_
    rintro sound _ ⟨rfl, returned⟩
    exact .pure (done (.refl _) (fun _ => nofun) returned)
  | some e =>
    have stays := e.infer_leaves scope f awaits.toAwaits awaits.grounded
    rw [Option.elim_some, e.subtrees_nodes] at awaits
    refine .bind (.bind ((stays.and (e.traced scope f awaits)).and (e.settles scope f awaits)) ?_)
      fun valid g done => .pure done
    rintro r g ⟨⟨left, -, known, -⟩, settled⟩
    refine (checkReturned_ensures rfl ?_).weaken ?_
    · rintro _ _ ⟨⟩
      exact known
    · rintro sound _ ⟨rfl, returned⟩
      exact done (left.trail.extends_ awaits.tidy) (List.forall_mem_singleton.2 settled) returned

/-- A statement that neither declares nor returns, from what is known of its parts. -/
theorem Compound.done {s : Statement} {declared : List String} {around : Surroundings} {valid : Bool}
    (h : Compound s.conditions s.blocks (fun vars => (s.scoped vars).tail) scope around valid f)
    (fits : scope.Fits f around) (roots : s.roots = s.conditions) (undeclared : s.varDecl? = none)
    (goesOn : s.isReturn = false) : s.Done declared scope around ⟨valid, none⟩ f := by
  have binds : s.binds declared = none := by rw [Statement.binds, undeclared]; rfl
  refine ⟨roots ▸ h.settled, h.explained, fun sound => ⟨h.conditions sound, h.blocks sound, ?_, ?_⟩,
    by rw [binds]; rfl, by rw [binds]; exact fits⟩
  · rintro n decl init rfl
    cases undeclared
  · rintro n value rfl
    cases goesOn

theorem Establishes.undeclaring {x : Check Bool} {s : Statement} {declared : List String}
    (leaves : Leaves Program.signature x xs)
    (hx : Establishes x xs (Compound s.conditions s.blocks fun vars => (s.scoped vars).tail))
    (roots : s.roots = s.conditions) (undeclared : s.varDecl? = none) (goesOn : s.isReturn = false) :
    Establishes (undeclaring x) xs (s.Done declared) := by
  intro scope f around awaits fits
  refine .bind ((leaves scope f awaits.toAwaits awaits.grounded).and (hx scope f around awaits fits)) ?_
  rintro valid g ⟨left, held⟩
  exact .pure (held.done (fits.later (left.trail.extends_ awaits.tidy)) roots undeclared goesOn)

theorem checkJump_establishes (span : Span) (word : Keyword) :
    Establishes (checkJump span word) [] (Compound [] [] fun _ => []) :=
  fun _ _ _ _ _ => .read fun _ _ => .nil

namespace Establishes

variable {cs ds es : List Expr} {bs bs' bs'' : List Block} {zs : List Subtree}
  {inner inner' inner'' : Variables → List (Variables × Statement)} {x y z : Check Bool}

theorem both (lx : Leaves Program.signature x xs) (hx : Establishes x xs (Compound cs bs inner))
    (inside : Compound.Inside cs inner xs) (ly : Leaves Program.signature y ys)
    (hy : Establishes y ys (Compound ds bs' inner')) :
    Establishes (do
      let a ← x
      let b ← y
      return a && b) (xs ++ ys)
      (Compound (cs ++ ds) (bs ++ bs') fun vars => inner vars ++ inner' vars) := by
  refine (bind lx hx (Compound.lasting inside) (fun _ => ly.map) fun a => hy.map).weaken ?_
  rintro scope around _ f ⟨a, first, b, rfl, second⟩
  exact first.append second

theorem three (lx : Leaves Program.signature x xs) (hx : Establishes x xs (Compound cs bs inner))
    (inside : Compound.Inside cs inner xs) (ly : Leaves Program.signature y ys)
    (hy : Establishes y ys (Compound ds bs' inner')) (inside' : Compound.Inside ds inner' ys)
    (lz : Leaves Program.signature z zs) (hz : Establishes z zs (Compound es bs'' inner'')) :
    Establishes (do
      let a ← x
      let b ← y
      let c ← z
      return a && b && c) (xs ++ ys ++ zs)
      (Compound (cs ++ ds ++ es) (bs ++ bs' ++ bs'')
        fun vars => inner vars ++ inner' vars ++ inner'' vars) := by
  rw [List.append_assoc xs]
  refine (bind lx hx (Compound.lasting inside) (fun _ => ly.bind fun _ => lz.map) fun a =>
    bind ly hy (Compound.lasting inside') (fun _ => lz.map) fun b => hz.map).weaken ?_
  rintro scope around _ f ⟨a, first, b, second, c, rfl, third⟩
  exact (first.append second).append third

end Establishes

/-- What is known of a block. -/
def Block.Done (b : Block) (scope : Scope) (around : Surroundings) (valid : Bool) (f : Findings) :
    Prop :=
  Compound [] [b] (b.scoped ·) scope around valid f ∧ f.validity b.id = some valid

/-- What is known of statements that follow each other in a block. -/
def statementsDone (declared : List String) (ss : List Statement) (scope : Scope)
    (around : Surroundings) (valid : Bool) (f : Findings) : Prop :=
  Explained scope.program around.place around.returns (scopedStatements around.vars declared ss) f ∧
    (valid = true → ∀ s ∈ ss, f.validity s.id = some true)

theorem Establishes.inLoop {b : Block} (h : Establishes b.check b.subtrees b.Done) :
    Establishes (withReader (fun scope => { scope with inLoop := true }) b.check : Check Bool)
      b.subtrees (Compound [] [b] (b.scoped ·)) := by
  intro scope f around awaits fits
  have inner := h { scope with inLoop := true } f around ⟨awaits.toAwaits, awaits.grounded⟩ fits.inLoop
  exact .withReader (inner.weaken fun _ _ held =>
    ⟨fun _ => nofun, held.1.explained, held.1.conditions, held.1.blocks⟩)

/-- The first verdict on a node is recorded as it is given. -/
theorem judge_ensures {id : Nat} {valid : Bool} (fresh : f.validity id = none) :
    Ensures (judge id valid) scope f fun given g =>
      given = valid ∧ g = f.setValid id valid ∧ g.validity id = some valid := by
  rintro s rfl
  rw [Check.exec_judge]
  refine ⟨by rw [fresh]; rfl, rfl, ?_⟩
  rw [Findings.validity_setValid, if_pos rfl, fresh]
  rfl

theorem Findings.Later.setValid (tidy : f.Tidy) (known : f.Known p.signature) (id : Nat)
    (valid : Bool) : f.Later p ns (f.setValid id valid) :=
  have visit : Visit p _ f (f.setValid id valid) := Findings.Alike.visit_setValid f id valid
  ⟨visit.extends_ tidy, .setValid tidy known id valid⟩

mutual

theorem Statement.check_establishes (declared : List String) : ∀ s : Statement,
    Establishes (s.check declared) s.subtrees.tail (s.Done declared)
  | .varDecl n decl => checkVarDecl_establishes n declared decl
  | .expr n value => checkEffect_establishes n declared value
  | .ifElse _ condition thenBlock alternative =>
    .undeclaring ((checkCondition_leaves condition).three thenBlock.check_leaves
        alternative.check_leaves)
      (.three (checkCondition_leaves condition) (checkCondition_establishes condition)
        (.condition condition) thenBlock.check_leaves
        (thenBlock.check_establishes.weaken fun _ _ _ _ h => h.1) (.block thenBlock)
        alternative.check_leaves alternative.check_establishes) rfl rfl rfl
  | .while _ condition body =>
    .undeclaring ((checkCondition_leaves condition).both (body.check_leaves.withReader
        (g := fun scope => { scope with inLoop := true }) (fun _ => rfl) (fun _ => rfl) fun _ => id))
      (.both (checkCondition_leaves condition) (checkCondition_establishes condition)
        (.condition condition) (body.check_leaves.withReader (fun _ => rfl) (fun _ => rfl) fun _ => id)
        body.check_establishes.inLoop) rfl rfl rfl
  | .tryCatch _ body handler =>
    .undeclaring (body.check_leaves.both handler.check_leaves)
      (.both body.check_leaves (body.check_establishes.weaken fun _ _ _ _ h => h.1) (.block body)
        handler.check_leaves (handler.check_establishes.weaken fun _ _ _ _ h => h.1)) rfl rfl rfl
  | .return n value => checkReturn_establishes n declared value
  | .break n | .continue n =>
    .undeclaring (checkJump_leaves n.span _) (checkJump_establishes n.span _) rfl rfl rfl
  | .block _ body =>
    .undeclaring body.check_leaves (body.check_establishes.weaken fun _ _ _ _ h => h.1) rfl rfl rfl

theorem Alternative.check_establishes : ∀ a : Alternative,
    Establishes a.check a.subtrees (Compound a.conditions a.blocks (a.scoped ·))
  | .none => fun _ _ _ _ _ => .pure .nil
  | .block body => body.check_establishes.weaken fun _ _ _ _ h => h.1
  | .elseIf condition thenBlock alternative =>
    .three (checkCondition_leaves condition) (checkCondition_establishes condition)
      (.condition condition) thenBlock.check_leaves
      (thenBlock.check_establishes.weaken fun _ _ _ _ h => h.1) (.block thenBlock)
      alternative.check_leaves alternative.check_establishes

theorem Block.check_establishes : ∀ b : Block, Establishes b.check b.subtrees b.Done
  | .mk n statements => by
    intro scope f around awaits fits
    have below := awaits.below
    have listed := Findings.Awaits.perm awaits.toAwaits (List.perm_append_singleton _ _).symm
    refine .bind ((checkStatements_leaves [] false statements scope f below.toAwaits
      below.grounded).and (checkStatements_establishes [] false statements scope f around below fits)) ?_
    rintro valid g ⟨left, explained, sound⟩
    have next := listed.after left.trail (At.inside rfl)
    have keep : g.Later scope.program (statementNodes statements) (g.setValid n.id valid) :=
      .setValid next.tidy next.known n.id valid
    refine (judge_ensures (next.fresh n (List.mem_singleton_self n))).weaken ?_
    rintro _ _ ⟨rfl, rfl, judged⟩
    refine ⟨⟨fun _ => nofun, explained.mono keep ?_, fun _ _ => nofun, fun valid => ?_⟩, judged⟩
    · exact fun vars s inside e root =>
        List.Subset.trans (Statement.roots_nodes root) (scopedStatements_nodes inside)
    · exact List.forall_mem_singleton.2 fun s inside => keep.extends_.validity (sound valid s inside)

theorem checkStatements_establishes (declared : List String) (afterJump : Bool) :
    ∀ ss : List Statement, Establishes (checkStatements declared afterJump ss) (statementSubtrees ss)
      (statementsDone declared ss)
  | [] => fun _ _ _ _ _ => .pure ⟨.nil, fun _ _ => nofun⟩
  | s :: rest => by
    have checked : Establishes (do
        let outcome ← s.check declared
        let sound ← judge s.id outcome.valid
        let declared := outcome.bound.elim declared fun (name, _) => name :: declared
        let restSound ← withReader (Scope.bindAny outcome.bound)
          (checkStatements declared s.isTerminator rest)
        return sound && restSound) (statementSubtrees (s :: rest)) (statementsDone declared (s :: rest)) := by
      intro scope f around awaits fits
      have split : (s.subtrees.tail ++ ([Subtree.head s.node] ++ statementSubtrees rest)).Perm
          (statementSubtrees (s :: rest)) := by
        rw [statementSubtrees, s.subtrees_eq, List.tail_cons, List.cons_append]
        exact List.perm_middle
      have parts := awaits.toAwaits.perm (split.map Subtree.node).symm
      rw [List.map_append] at parts
      refine .bind ((s.check_leaves declared scope f ⟨parts.left, awaits.grounded⟩).and
        (s.check_establishes declared scope f around ⟨parts.left, awaits.grounded⟩ fits)) ?_
      rintro outcome g ⟨⟨first, bound⟩, done⟩
      have next := parts.after first.trail (At.inside rfl)
      have keep (ns : List Node) : g.Later scope.program ns (g.setValid s.id outcome.valid) :=
        .setValid next.tidy next.known s.id outcome.valid
      refine .bind (judge_ensures (next.fresh s.node (List.mem_cons_self ..))) ?_
      rintro sound h ⟨rfl, rfl, judged⟩
      have visit : Visit scope.program (At [Subtree.head s.node] scope.place) g
          (g.setValid s.id outcome.valid) :=
        .judge (x := .head s.node) ⟨List.mem_singleton_self _, rfl⟩
      have last := next.after (.single visit) (At.inside rfl)
      have own : s.Checked scope (g.setValid s.id outcome.valid) := by
        refine ⟨fun e root => ?_, by rw [judged]; rfl, fun valid => ?_⟩
        · exact (done.settled e root).alike e.subtrees_closed (keep _).alike
        · exact (done.upheld (Option.some.inj (judged.symm.trans valid))).mono (keep []).extends_
      have names : (outcome.bound.elim declared fun bound => bound.1 :: declared) =
          ((s.binds declared).map Prod.fst).toList ++ declared := by
        rw [← done.names]
        cases outcome.bound <;> rfl
      refine .bind (.withReader (.and (checkStatements_leaves _ s.isTerminator rest
        (scope.bindAny outcome.bound) _ (by rw [Scope.bindAny_program]; exact last) bound)
        (checkStatements_establishes _ s.isTerminator rest (scope.bindAny outcome.bound) _ _
          ⟨by rw [Scope.bindAny_program]; exact last, bound⟩
          (done.binds.later (keep []).extends_)))) ?_
      rintro valid k ⟨others, explained, sound⟩
      rw [Scope.bindAny_program] at others explained
      have stays := others.trail.extends_ last.tidy
      have spared : Findings.Later scope.program s.nodes (g.setValid s.id outcome.valid) k := by
        refine ⟨stays, ?_⟩
        have whole := awaits.toAwaits
        rw [statementSubtrees, List.map_append, s.subtrees_nodes] at whole
        exact whole.alike others.trail (At.inside rfl) last.tidy last.known
      have below : ∀ vars r, (vars, r) ∈ (s.scoped around.vars).tail → ∀ e ∈ r.roots,
          e.nodes ⊆ s.nodes := fun vars r inside e root =>
        List.Subset.trans (Statement.roots_nodes root)
          (Statement.scoped_nodes (List.mem_of_mem_tail inside))
      refine .pure ⟨?_, fun both => ?_⟩
      · rw [scopedStatements, s.scoped_eq]
        rw [names] at explained
        refine .append ?_ explained
        intro vars r inside
        rcases List.mem_cons.1 inside with same | inside
        · cases same
          exact ⟨scope, rfl, fits.later ((first.trail.extends_ awaits.tidy).trans
            ((keep []).extends_.trans stays)), own.mono spared fun _ => Statement.roots_nodes⟩
        · exact ((done.explained.mono (keep s.nodes) below).mono spared below) vars r inside
      · obtain ⟨here, later⟩ := Bool.and_eq_true_iff.1 both
        exact List.forall_mem_cons.2 ⟨stays.validity (judged.trans (congrArg some here)), sound later⟩
    unfold checkStatements
    dsimp only
    split
    · intro scope f around awaits fits
      refine .silent (fun _ => ?_) fun _ => checked scope f around awaits fits
      unfold warnUnreachable
      rw [Check.exec_bind, Check.exec_read]
      cases scope.settings.warnUnreachable <;> rfl
    · exact checked

end

end ClassLang
