import ClassLang.Proofs.Checking.ExprHonesty

/-!
Checking statements is honest. The verdict on a statement or block is stored once, so its node must
be fresh: no part of the tree shares a number with another, and each part keeps to its own nodes.
-/

namespace ClassLang

variable {α β : Type} {p : Program} {own : Subject → Prop} {P : Prop}

/-! ## Fresh nodes -/

def covers (nodes : List Node) : Subject → Prop
  | .node id | .name id => id ∈ nodes.map Node.id
  | .type _ | .class _ => False

theorem covers_mono {nodes more : List Node} (sub : nodes ⊆ more) :
    ∀ subject, covers nodes subject → covers more subject := by
  intro subject h
  cases subject with
  | node _ | name _ => exact List.map_subset _ sub h
  | type _ | «class» _ => exact h

theorem owns_covers (nodes : List Node) : Owns (covers nodes) nodes :=
  fun _ listed => ⟨List.mem_map_of_mem listed, List.mem_map_of_mem listed⟩

def CheckState.Fresh (nodes : List Node) (s : CheckState) : Prop :=
  ∀ n ∈ nodes, s.findings.validity n.id = none

theorem CheckState.Fresh.mono {nodes more : List Node} {s : CheckState} (h : s.Fresh more)
    (sub : nodes ⊆ more) : s.Fresh nodes := fun n listed => h n (sub listed)

def Spares (own : Subject → Prop) (nodes : List Node) : Prop :=
  ∀ n ∈ nodes, ¬own (.node n.id) ∧ ¬own (.type n.id)

theorem Apart.covers {xs ys : List Node} (apart : Apart xs ys) : Spares (ClassLang.covers xs) ys :=
  fun _ listed => ⟨fun mine => apart mine (List.mem_map_of_mem listed), id⟩

theorem Steps.fresh {nodes : List Node} {s t : CheckState} (h : Steps own s t)
    (spares : Spares own nodes) (before : s.Fresh nodes) : t.Fresh nodes := fun n listed =>
  (h.validity_eq (spares n listed).1 (spares n listed).2).trans (before n listed)

/-- A check, and then one of other nodes that are still fresh. -/
theorem Honest.andThen {xs ys : List Node} {x : Check α} {f : α → Check β} {good bad : α → Prop}
    {good' bad' : β → Prop} (hx : Honest p (covers xs) (fun s => P ∧ s.Fresh xs) x good bad)
    (distinct : Distinct (xs ++ ys))
    (hf : ∀ a, Honest p (covers ys) (fun s => (good a ∧ P) ∧ s.Fresh ys) (f a) good' bad')
    (hb : ∀ a scope s, bad a → s.Fresh ys → bad' ((f a).exec scope s).1) :
    Honest p (covers (xs ++ ys)) (fun s => P ∧ s.Fresh (xs ++ ys)) (x >>= f) good' bad' := by
  have first : Honest p (covers xs) (fun s => P ∧ s.Fresh (xs ++ ys)) x good bad :=
    hx.weaken (fun s ⟨known, fresh⟩ => ⟨known, fresh.mono (List.subset_append_left _ _)⟩)
      (fun _ h => h) fun _ h => h
  refine first.bind (Q := fun s => P ∧ s.Fresh ys) (covers_mono (List.subset_append_left _ _))
    (fun s t ⟨known, fresh⟩ steps =>
      ⟨known, steps.fresh distinct.apart.covers (fresh.mono (List.subset_append_right _ _))⟩)
    (fun a => ?_) fun a scope s faulty h => hb a scope s faulty h.2
  refine ((hf a).widen (covers_mono (List.subset_append_right _ _))).weaken
    (fun s ⟨fine, known, fresh⟩ => ⟨⟨fine, known⟩, fresh⟩) (fun _ h => h) fun _ h => h

/-! ## Rules -/

theorem checkInitializer_honest {target : Resolved} {name : String} {init : Initializer}
    (mine : Owns own init.nodes) :
    Honest p own (fun _ => target.isOk = true) (checkInitializer target name init) (· = true)
      (· = false) := by
  have value := init.value.infer_infers (p := p) (P := target.isOk = true) mine
  refine .bind value (fun _ h => h) (fun _ _ known _ => known) (fun r => ?_)
    fun r scope s failed _ => ?_
  · refine (succeeds_honest (P := (∃ a, r = .ok a ∧ True) ∧ target.isOk = true)
      (.settle_bind (·.2) fun type _ => .settle_bind ?_ fun stored _ =>
        .settleBy fun _ _ _ => trivial)).weaken (fun _ h => h)
      (fun _ h => h) fun _ h => h
    rintro ⟨⟨_, rfl, _⟩, _⟩
    rfl
  · cases r with
    | ok _ => cases failed
    | error e =>
      have fails : Fails (do
          let target ← settle target
          let type ← settle (.error e)
          settleBy (checkStore init.kind target name init.value type)) :=
        .right fun _ => .left (.settle_error e)
      exact fails scope s

def StatementOutcome.Sound (outcome : StatementOutcome) : Prop :=
  outcome.valid = true ∧ ∀ name type, outcome.bound = some (name, type) → type.isOk = true

theorem checkVarDecl_honest (declared : List String) (decl : VarDecl) (mine : Owns own decl.nodes) :
    Honest p own (fun _ => P) (checkVarDecl declared decl) StatementOutcome.Sound
      (·.valid = false) := by
  have type := decl.type.resolve_infers (p := p) (P := P)
    (mine.mono (show decl.type.nodes ⊆ _ by simp [VarDecl.nodes]))
  have forget (type : Resolved) (sound : Bool) (failed : (type.isOk && sound) = false)
      (scope : Scope) (s : CheckState) : (Check.exec (do
        if declared.contains decl.name.name then
          report ⟨decl.name.span, .variableRedeclared decl.name.name⟩
          return (⟨false, none⟩ : StatementOutcome)
        return ⟨type.isOk && sound, some (decl.name.name, type)⟩) scope s).1.valid = false := by
    split
    · rfl
    · exact failed
  refine .bind type.run_honest (fun _ h => h) (fun _ _ known _ => known) (fun type => ?_)
    fun type scope s failed _ => ?_
  · have finish (sound : Bool) : Honest p own (fun _ => sound = true ∧ type.isOk = true) (do
        if declared.contains decl.name.name then
          report ⟨decl.name.span, .variableRedeclared decl.name.name⟩
          return ⟨false, none⟩
        return ⟨type.isOk && sound, some (decl.name.name, type)⟩) StatementOutcome.Sound
        (·.valid = false) := by
      split
      · exact .report (fun _ s _ => Steps.refl _) fun _ _ => rfl
      · refine .pure fun _ ⟨stored, resolved⟩ => ⟨by simp [stored, resolved], ?_⟩
        intro _ _ same
        cases same
        exact resolved
    cases given : decl.init with
    | some init =>
      have mineInit : Owns own init.nodes :=
        mine.mono (by simp [VarDecl.nodes, given, initializerNodes])
      refine .bind ((checkInitializer_honest mineInit).weaken (fun _ h => h.1) (fun _ h => h)
        fun _ h => h) (fun _ h => h) (fun _ _ known _ => known) (fun sound => ?_)
        fun sound scope s failed _ => ?_
      · exact (finish sound).weaken (fun _ h => ⟨h.1, h.2.1⟩) (fun _ h => h) fun _ h => h
      · exact forget type sound (by rw [failed, Bool.and_false]) scope s
    | none =>
      refine .bind .reportAll (fun _ h => h) (fun _ _ known _ => known) (fun sound => ?_)
        fun sound scope s failed _ => ?_
      · exact (finish sound).weaken (fun _ h => ⟨h.1, h.2.1⟩) (fun _ h => h) fun _ h => h
      · exact forget type sound (by rw [failed, Bool.and_false]) scope s
  · cases given : decl.init with
    | some init => exact forget type _ (by rw [failed, Bool.false_and]) scope _
    | none => exact forget type _ (by rw [failed, Bool.false_and]) scope _

theorem checkEffect_honest (e : Expr) (mine : Owns own e.nodes) :
    Honest p own (fun _ => P) (checkEffect e) (· = true) (· = false) := by
  refine .bind (succeeds_honest (e.infer_infers mine)) (fun _ h => h) (fun _ _ known _ => known)
    (fun sound => ?_) fun sound scope s failed _ => ?_
  · refine .bind .reportAll (fun _ h => h) (fun _ _ known _ => known)
      (fun useful => .pure fun _ ⟨fine, sound, _⟩ => ?_) fun useful scope s failed _ => ?_
    · simp [sound, fine]
    · simp [failed]
  · simp [failed]

theorem checkCondition_honest (condition : Expr) (mine : Owns own condition.nodes) :
    Honest p own (fun _ => P) (checkCondition condition) (· = true) (· = false) := by
  refine succeeds_honest (.bind (condition.infer_infers mine) fun type => ?_)
  split
  · exact .fail
  · exact .pure fun _ => trivial

theorem checkJump_honest (span : Span) (word : Keyword) :
    Honest p own (fun _ => P) (checkJump span word) (· = true) (· = false) :=
  .read fun _ _ => .reportAll

theorem checkReturned_infers (span : Span) (value : Option (Expr × Resolved)) :
    Infers p own (∀ e result, value = some (e, result) → result.isOk = true)
      (checkReturned span value) fun _ => True := by
  refine .read_bind fun scope same => ?_
  split
  · exact .fail
  · rename_i type returns
    refine .settle_bind (fun ⟨tidy, _⟩ => tidy.returns type returns) fun expected _ => ?_
    split
    · split
      · exact .fail
      · exact .pure fun _ => trivial
    · rename_i e result
      split
      · exact .fail_bind
      refine .settle_bind (fun known => known.2 e result rfl) fun type _ => ?_
      split
      · exact .fail
      · exact .pure fun _ => trivial

theorem checkReturned_fails (span : Span) (e : Expr) (reason : Reported) :
    Fails (checkReturned span (some (e, .error reason))) := by
  refine .right fun scope => ?_
  split
  · exact .fail _ _
  · refine .right fun expected => ?_
    dsimp only
    split
    · exact .left (.fail _ _)
    · exact .left (.settle_error reason)

theorem checkReturn_honest (span : Span) (value : Option Expr)
    (mine : ∀ e, value = some e → Owns own e.nodes) :
    Honest p own (fun _ => P) (checkReturn span value) (· = true) (· = false) := by
  unfold checkReturn
  split
  · exact (succeeds_honest (checkReturned_infers span none)).weaken (fun _ _ => nofun)
      (fun _ h => h) fun _ h => h
  · rename_i e
    have result := e.infer_infers (p := p) (P := P) (mine e rfl)
    refine .bind result.run_honest (fun _ h => h) (fun _ _ known _ => known) (fun r => ?_)
      fun r scope s failed _ => ?_
    · refine (succeeds_honest (checkReturned_infers span (some (e, r)))).weaken
        (fun _ ⟨fine, _⟩ _ _ same => ?_) (fun _ h => h) fun _ h => h
      cases same
      exact fine
    · cases r with
      | ok _ => cases failed
      | error reason => exact checkReturned_fails span e reason scope s

theorem undeclaring_honest {given : CheckState → Prop} {check : Check Bool}
    (h : Honest p own given check (· = true) (· = false)) :
    Honest p own given (undeclaring check) StatementOutcome.Sound (·.valid = false) where
  within := h.within
  faithful scope s tidy clean holds := by
    rcases h.faithful scope s tidy clean holds with ⟨fine, after⟩ | ⟨faulty, after⟩
    · exact .inl ⟨⟨fine, nofun⟩, after⟩
    · exact .inr ⟨faulty, after⟩

/-- The stored verdict is the one given, also on a node that had a good one. -/
theorem judge_honest {id : Nat} {valid : Bool} (mine : own (.node id)) :
    Honest p own (fun _ => valid = true) (judge id valid) (· = true) (· = false) where
  within scope s _ := by
    rw [Check.exec_judge]
    exact Steps.single (.enter (.setValid id valid mine))
  faithful scope s _ clean known := by
    subst known
    rw [Check.exec_judge]
    refine .inl ⟨?_, clean.1, clean.2.setValid id⟩
    have notFalse := clean.2.nodes id
    cases stored : s.findings.validity id with
    | none => rfl
    | some valid =>
      rw [stored] at notFalse
      simpa using notFalse

/-- The verdict on a fresh node is the one given. -/
theorem judge_fresh {n : Node} {valid : Bool} {scope : Scope} {s : CheckState} (fresh : s.Fresh [n]) :
    ((judge n.id valid).exec scope s).1 = valid := by
  rw [Check.exec_judge, fresh n (by simp)]
  rfl

theorem Scope.Clean.bindAny {scope : Scope} (tidy : scope.Clean p) {bound : Option (String × Resolved)}
    (sound : ∀ name type, bound = some (name, type) → type.isOk = true) :
    (scope.bindAny bound).Clean p := by
  cases bound with
  | none => exact tidy
  | some variable_ =>
    obtain ⟨name, type⟩ := variable_
    refine ⟨tidy.program, fun other bound inScope => ?_, tidy.returns⟩
    change (scope.env.insert name type).get? other = some bound at inScope
    rw [Environment.get?_insert] at inScope
    split at inScope
    · cases inScope
      exact sound name type rfl
    · exact tidy.bindings other bound inScope

theorem Scope.bindAny_program (bound : Option (String × Resolved)) (scope : Scope) :
    (scope.bindAny bound).program = scope.program := by
  cases bound <;> rfl

theorem warnUnreachable_honest {given : CheckState → Prop} (span : Span) :
    Honest p (fun _ => False) given (warnUnreachable span) (fun _ => True) (fun _ => False) := by
  refine .read fun scope _ => ?_
  split
  · exact ⟨fun _ _ _ => Steps.single (.warn _), fun _ _ _ clean _ => .inl ⟨trivial, clean⟩⟩
  · exact .pure fun _ _ => trivial

/-! ## Statements -/

theorem Honest.restrict {nodes more : List Node} {x : Check α} {good bad : α → Prop}
    (h : Honest p (covers nodes) (fun s => P ∧ s.Fresh nodes) x good bad) (sub : nodes ⊆ more) :
    Honest p (covers more) (fun s => P ∧ s.Fresh more) x good bad :=
  (h.widen (covers_mono sub)).weaken (fun _ ⟨known, fresh⟩ => ⟨known, fresh.mono sub⟩) (fun _ h => h)
    fun _ h => h

/-- Two checks whose verdicts are taken together. -/
theorem Honest.both {xs ys : List Node} {x y : Check Bool}
    (hx : Honest p (covers xs) (fun s => True ∧ s.Fresh xs) x (· = true) (· = false))
    (hy : Honest p (covers ys) (fun s => True ∧ s.Fresh ys) y (· = true) (· = false))
    (distinct : Distinct (xs ++ ys)) :
    Honest p (covers (xs ++ ys)) (fun s => True ∧ s.Fresh (xs ++ ys)) (do
      let a ← x
      let b ← y
      return a && b) (· = true) (· = false) := by
  refine hx.andThen distinct (fun a => ?_) fun a scope s faulty _ => ?_
  · have second := hy.weaken (Q := fun s => (a = true ∧ True) ∧ s.Fresh ys)
      (fun _ h => ⟨trivial, h.2⟩) (fun _ h => h) fun _ h => h
    refine second.bind (Q := fun _ => a = true) (fun _ h => h) (fun _ _ h _ => h.1.1)
      (fun b => .pure fun _ ⟨fine, first⟩ => ?_) fun b scope s faulty _ => ?_
    · rw [fine, first]
      rfl
    · rw [Check.exec_pure, faulty, Bool.and_false]
  · rw [faulty]
    rfl

theorem Honest.three {xs ys zs : List Node} {x y z : Check Bool}
    (hx : Honest p (covers xs) (fun s => True ∧ s.Fresh xs) x (· = true) (· = false))
    (hy : Honest p (covers ys) (fun s => True ∧ s.Fresh ys) y (· = true) (· = false))
    (hz : Honest p (covers zs) (fun s => True ∧ s.Fresh zs) z (· = true) (· = false))
    (distinct : Distinct (xs ++ ys ++ zs)) :
    Honest p (covers (xs ++ ys ++ zs)) (fun s => True ∧ s.Fresh (xs ++ ys ++ zs)) (do
      let a ← x
      let b ← y
      let c ← z
      return a && b && c) (· = true) (· = false) :=
  (hx.both hy distinct.left).both hz distinct

mutual

theorem Statement.check_honest (declared : List String) : ∀ s : Statement, Distinct s.nodes →
    Honest p (covers s.nodes.tail) (fun st => True ∧ st.Fresh s.nodes.tail) (s.check declared)
      StatementOutcome.Sound (·.valid = false)
  | .varDecl n decl, _ =>
    (checkVarDecl_honest declared decl (owns_covers _)).weaken (fun _ h => h.1) (fun _ h => h)
      fun _ h => h
  | .expr n value, _ =>
    undeclaring_honest ((checkEffect_honest value (owns_covers _)).weaken (fun _ h => h.1)
      (fun _ h => h) fun _ h => h)
  | .ifElse n condition thenBlock alternative, distinct => by
    have inner : Distinct (condition.nodes ++ thenBlock.nodes ++ alternative.nodes) :=
      distinct.below
    have tested : Honest p (covers condition.nodes) (fun s => True ∧ s.Fresh condition.nodes)
        (checkCondition condition) (· = true) (· = false) :=
      (checkCondition_honest condition (owns_covers _)).weaken (fun _ h => h.1) (fun _ h => h)
        fun _ h => h
    exact undeclaring_honest (tested.three (thenBlock.check_honest inner.left.right)
      (alternative.check_honest inner.right) inner)
  | .while n condition body, distinct => by
    have inner : Distinct (condition.nodes ++ body.nodes) := distinct.below
    have tested : Honest p (covers condition.nodes) (fun s => True ∧ s.Fresh condition.nodes)
        (checkCondition condition) (· = true) (· = false) :=
      (checkCondition_honest condition (owns_covers _)).weaken (fun _ h => h.1) (fun _ h => h)
        fun _ h => h
    have looped := (body.check_honest inner.right).withReader
      (g := fun scope => { scope with inLoop := true }) (fun _ => rfl)
      fun _ _ _ tidy => ⟨tidy.program, tidy.bindings, tidy.returns⟩
    exact undeclaring_honest (tested.both looped inner)
  | .tryCatch n body handler, distinct => by
    have inner : Distinct (body.nodes ++ handler.nodes) := distinct.below
    exact undeclaring_honest ((body.check_honest inner.left).both
      (handler.check_honest inner.right) inner)
  | .return n value, _ => by
    refine undeclaring_honest ((checkReturn_honest n.span value fun e same => ?_).weaken
      (fun _ h => h.1) (fun _ h => h) fun _ h => h)
    subst same
    exact owns_covers _
  | .break n, _ | .continue n, _ =>
    undeclaring_honest ((checkJump_honest n.span _).weaken (fun _ h => h.1) (fun _ h => h)
      fun _ h => h)
  | .block n body, distinct => undeclaring_honest (body.check_honest distinct.below)

theorem Alternative.check_honest : ∀ a : Alternative, Distinct a.nodes →
    Honest p (covers a.nodes) (fun s => True ∧ s.Fresh a.nodes) a.check (· = true) (· = false)
  | .none, _ => .pure fun _ _ => rfl
  | .block body, distinct => body.check_honest distinct
  | .elseIf condition thenBlock alternative, distinct => by
    have tested : Honest p (covers condition.nodes) (fun s => True ∧ s.Fresh condition.nodes)
        (checkCondition condition) (· = true) (· = false) :=
      (checkCondition_honest condition (owns_covers _)).weaken (fun _ h => h.1) (fun _ h => h)
        fun _ h => h
    exact tested.three (thenBlock.check_honest distinct.left.right)
      (alternative.check_honest distinct.right) distinct

theorem Block.check_honest : ∀ b : Block, Distinct b.nodes →
    Honest p (covers b.nodes) (fun s => True ∧ s.Fresh b.nodes) b.check (· = true) (· = false)
  | .mk n statements, distinct => by
    have parts : Distinct (statementNodes statements ++ [n]) :=
      Distinct.perm distinct (List.perm_append_singleton n _).symm
    have inner := checkStatements_honest [] false statements distinct.below
    have judged : Honest p (covers (statementNodes statements ++ [n]))
        (fun s => True ∧ s.Fresh (statementNodes statements ++ [n])) (Block.mk n statements).check
        (· = true) (· = false) := by
      refine inner.andThen parts (fun sound => ?_) fun sound scope s faulty fresh => ?_
      · exact (judge_honest (by simp [covers])).weaken (fun _ h => h.1.1) (fun _ h => h) fun _ h => h
      · rw [judge_fresh fresh]
        exact faulty
    exact judged.restrict (by simp [Block.nodes])

theorem checkStatements_honest (declared : List String) (afterJump : Bool) :
    ∀ ss : List Statement, Distinct (statementNodes ss) →
    Honest p (covers (statementNodes ss)) (fun s => True ∧ s.Fresh (statementNodes ss))
      (checkStatements declared afterJump ss) (· = true) (· = false)
  | [], _ => .pure fun _ _ => rfl
  | s :: rest, distinct => by
    have order : (s.nodes.tail ++ ([s.node] ++ statementNodes rest)).Perm
        (statementNodes (s :: rest)) := by
      rw [statementNodes, s.nodes_eq, List.tail_cons, List.cons_append]
      exact List.perm_middle
    have parts : Distinct (s.nodes.tail ++ ([s.node] ++ statementNodes rest)) :=
      distinct.perm order.symm
    have checked : Honest p (covers (s.nodes.tail ++ ([s.node] ++ statementNodes rest)))
        (fun st => True ∧ st.Fresh (s.nodes.tail ++ ([s.node] ++ statementNodes rest))) (do
          let outcome ← s.check declared
          let sound ← judge s.id outcome.valid
          let declared := outcome.bound.elim declared fun (name, _) => name :: declared
          let restSound ← withReader (Scope.bindAny outcome.bound)
            (checkStatements declared s.isTerminator rest)
          return sound && restSound) (· = true) (· = false) := by
      refine (s.check_honest declared distinct.left).andThen parts (fun outcome => ?_)
        fun outcome scope st faulty fresh => ?_
      · have judged : Honest p (covers [s.node])
            (fun st => (outcome.Sound ∧ True) ∧ st.Fresh [s.node]) (judge s.id outcome.valid)
            (· = true) (· = false) :=
          (judge_honest (by simp [covers, Statement.id])).weaken (fun _ h => h.1.1.1)
            (fun _ h => h) fun _ h => h
        refine judged.andThen parts.right (fun sound => ?_) fun sound scope st faulty _ => ?_
        · have others := (checkStatements_honest (outcome.bound.elim declared
            fun (name, _) => name :: declared) s.isTerminator rest parts.right.right).weaken
            (Q := fun st => ((sound = true ∧ outcome.Sound ∧ True) ∧ st.Fresh (statementNodes rest)))
            (fun _ h => ⟨trivial, h.2⟩) (fun _ h => h) fun _ h => h
          have bound := others.withReader (g := Scope.bindAny outcome.bound)
            (fun scope => scope.bindAny_program outcome.bound)
            fun _ _ h tidy => tidy.bindAny h.1.2.1.2
          refine bound.bind (Q := fun _ => sound = true) (fun _ h => h) (fun _ _ h _ => h.1.1)
            (fun restSound => .pure fun _ ⟨fine, first⟩ => ?_) fun restSound scope st faulty _ => ?_
          · rw [fine, first]
            rfl
          · rw [Check.exec_pure, faulty, Bool.and_false]
        · rw [faulty]
          rfl
      · have judged : ((judge s.id outcome.valid).exec scope st).1 = false :=
          (judge_fresh (n := s.node) fun n listed => fresh n (by simp at listed; simp [listed])).trans
            faulty
        simp [judged]
    have found : Honest p (covers (statementNodes (s :: rest)))
        (fun st => True ∧ st.Fresh (statementNodes (s :: rest))) _ (· = true) (· = false) :=
      checked.restrict order.subset
    unfold checkStatements
    dsimp only
    split
    · refine .bind (warnUnreachable_honest s.span) (Q := fun st => True ∧ st.Fresh _)
        (fun _ => False.elim) (fun _ _ h steps => ⟨trivial, fun n listed => ?_⟩)
        (fun _ => found.weaken (fun _ h => h.2) (fun _ h => h) fun _ h => h) fun _ _ _ => nofun
      exact (steps.validity_eq id id).trans (h.2 n listed)
    · exact found

end

end ClassLang
