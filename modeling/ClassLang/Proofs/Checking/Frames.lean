import ClassLang.Proofs.Checking.DeclarationParallels
import ClassLang.Proofs.Checking.Separation
import ClassLang.Proofs.Checking.StatementReporting
import ClassLang.Proofs.Syntax.Holes

/-!
Statements around a block do not depend on what is in it. `Framed` relates the runs of two checks in
the same surroundings, from states that agree on some nodes: in the end they agree on them again, and
of the reports of the two runs something is known. One run of statements with a hole is then framed by
another if the statements in the hole are.
-/

namespace ClassLang

variable {α β ι : Type} {p : Program} {sight : Sight}

/-! ## Reports -/

def CheckCause.isMissingReturn : CheckCause → Bool
  | .missingReturn _ => true
  | _ => false

/-- What is reported but for returns that are missing. -/
def besidesReturns (errors : List CheckError) : List CheckError :=
  errors.filter fun e => !e.cause.isMissingReturn

/-- Reports that are the same but for missing returns. -/
def Akin (es es' : List CheckError) : Prop := besidesReturns es = besidesReturns es'

/-- Reports that are the same, but for some in the middle that are about places in a block, and for
missing returns after them. -/
def Divided (spans spans' : List Span) (es es' : List CheckError) : Prop :=
  ∃ before inside inside' after after', es = before ++ inside ++ after ∧
    es' = before ++ inside' ++ after' ∧ (∀ e ∈ inside, e.span ∈ spans) ∧
    (∀ e ∈ inside', e.span ∈ spans') ∧ Akin after after'

namespace Akin

variable {es es' fs fs' : List CheckError}

theorem refl (es : List CheckError) : Akin es es := rfl

theorem append (h : Akin es es') (h' : Akin fs fs') : Akin (es ++ fs) (es' ++ fs') := by
  unfold Akin besidesReturns at *
  rw [List.filter_append, List.filter_append, h, h']

theorem of_missing (h : ∀ e ∈ es, e.cause.isMissingReturn = true)
    (h' : ∀ e ∈ es', e.cause.isMissingReturn = true) : Akin es es' := by
  have none {fs : List CheckError} (missing : ∀ e ∈ fs, e.cause.isMissingReturn = true) :
      besidesReturns fs = [] :=
    List.filter_eq_nil_iff.2 fun e listed => by rw [missing e listed]; decide
  rw [Akin, none h, none h']

end Akin

namespace Divided

variable {spans spans' : List Span} {es es' fs fs' : List CheckError}

theorem prepend (h : Divided spans spans' fs fs') : Divided spans spans' (es ++ fs) (es ++ fs') := by
  obtain ⟨before, inside, inside', after, after', rfl, rfl, known⟩ := h
  exact ⟨es ++ before, inside, inside', after, after', by simp, by simp, known⟩

theorem append (h : Divided spans spans' es es') (even : Akin fs fs') :
    Divided spans spans' (es ++ fs) (es' ++ fs') := by
  obtain ⟨before, inside, inside', after, after', rfl, rfl, here, there, same⟩ := h
  exact ⟨before, inside, inside', after ++ fs, after' ++ fs', by simp, by simp, here, there,
    same.append even⟩

end Divided

/-! ## Two runs in the same surroundings -/

/-- What two runs come to that began in two states. -/
structure Close (sight : Sight) (told : List CheckError → List CheckError → Prop) (R : α → α → Prop)
    (s t : CheckState) (outcome other : α × CheckState) : Prop where
  result : R outcome.1 other.1
  findings : outcome.2.findings.MirrorsOn (Equiv.refl Nat) sight other.2.findings
  errors : ∃ es es', outcome.2.errors = s.errors ++ es ∧ other.2.errors = t.errors ++ es' ∧ told es es'

/-- Two checks, wherever the same is known of what is in sight, come to related results, find out the
same of what is in sight, and report what is related. -/
def Framed (p : Program) (sight : Sight) (told : List CheckError → List CheckError → Prop)
    (R : α → α → Prop) (x y : Check α) : Prop :=
  ∀ (scope : Scope) (s t : CheckState), scope.program = p →
    s.findings.MirrorsOn (Equiv.refl Nat) sight t.findings →
      Close sight told R s t (x.exec scope s) (y.exec scope t)

/-- One check, run alike wherever the same is known of what is in sight. -/
abbrev Steady (p : Program) (sight : Sight) (x : Check α) : Prop :=
  Parallel p p (Equiv.refl Nat) sight id x x

namespace Framed

variable {told told₁ told₂ : List CheckError → List CheckError → Prop} {R : α → α → Prop}
  {R' : β → β → Prop} {x y : Check α} {k k' : α → Check β}

theorem of_steady (h : Steady p sight x) : Framed p sight Eq Eq x x := by
  intro scope s t same m
  have alike := h scope s t same m
  rw [Scope.mirrored_self same] at alike
  obtain ⟨es, reported, reported', -⟩ := alike.errors
  exact ⟨alike.result.symm, alike.findings, es, es, reported, reported', rfl⟩

theorem weaken {S : α → α → Prop} (h : Framed p sight told₁ R x y)
    (reports : ∀ es es', told₁ es es' → told es es') (results : ∀ a b, R a b → S a b) :
    Framed p sight told S x y := by
  intro scope s t same m
  obtain ⟨result, findings, es, es', reported, reported', related⟩ := h scope s t same m
  exact ⟨results _ _ result, findings, es, es', reported, reported', reports es es' related⟩

theorem bind (first : Framed p sight told₁ R x y)
    (rest : ∀ a b, R a b → Framed p sight told₂ R' (k a) (k' b))
    (join : ∀ es es' fs fs', told₁ es es' → told₂ fs fs' → told (es ++ fs) (es' ++ fs')) :
    Framed p sight told R' (x >>= k) (y >>= k') := by
  intro scope s t same m
  obtain ⟨result, findings, es, es', reported, reported', related⟩ := first scope s t same m
  obtain ⟨result', findings', fs, fs', later, later', related'⟩ :=
    rest _ _ result scope _ _ same findings
  refine ⟨result', findings', es ++ fs, es' ++ fs', ?_, ?_, join es es' fs fs' related related'⟩
  · rw [Check.exec_bind, later, reported, List.append_assoc]
  · rw [Check.exec_bind, later', reported', List.append_assoc]

theorem pure {a b : α} (related : R a b) : Framed p sight Akin R (Pure.pure a) (Pure.pure b) :=
  fun _ _ _ _ m => ⟨related, m, [], [], (List.append_nil _).symm, (List.append_nil _).symm, .refl _⟩

theorem withReader (inner : Framed p sight told R x y) {change : Scope → Scope}
    (keeps : ∀ scope, (change scope).program = scope.program) :
    Framed p sight told R (MonadWithReader.withReader change x : Check α)
      (MonadWithReader.withReader change y) :=
  fun scope s t same m => inner (change scope) s t ((keeps scope).trans same) m

theorem read {k k' : Scope → Check β}
    (rest : ∀ scope : Scope, scope.program = p → Framed p sight told R' (k scope) (k' scope)) :
    Framed p sight told R' ((MonadReader.read : Check Scope) >>= k)
      ((MonadReader.read : Check Scope) >>= k') :=
  fun scope s t same m => rest scope same scope s t same m

end Framed

/-! ## Checks after a block -/

/-- Two checks that report the same but for missing returns. -/
abbrev Evenly (p : Program) (sight : Sight) (x y : Check α) : Prop :=
  Framed p sight Akin (fun _ _ => True) x y

namespace Evenly

variable {x y : Check α} {k k' : α → Check β}

theorem pure (a b : α) : Evenly p sight (Pure.pure a) (Pure.pure b) := Framed.pure trivial

theorem of_steady (h : Steady p sight x) : Evenly p sight x x :=
  (Framed.of_steady h).weaken (fun es _ same => same ▸ .refl es) fun _ _ _ => trivial

theorem bind (first : Evenly p sight x y) (rest : ∀ a b, Evenly p sight (k a) (k' b)) :
    Evenly p sight (x >>= k) (y >>= k') :=
  Framed.bind first (fun a b _ => rest a b) fun _ _ _ _ => Akin.append

/-- Verdicts on what is out of sight. -/
theorem judge {n : Nat} (hidden : ¬sight n) (valid valid' : Bool) :
    Evenly p sight (ClassLang.judge n valid) (ClassLang.judge n valid') := by
  intro scope s t same m
  rw [Check.exec_judge, Check.exec_judge]
  refine ⟨trivial, m.enter (fun id inside => ?_) ?_ ?_, [], [], ?_, ?_, .refl _⟩
  · have apart : id ≠ n := fun here => hidden (here ▸ inside)
    exact (Findings.setValid_spares apart valid).symm.trans (m.node id inside) |>.trans
      (Findings.setValid_spares apart valid')
  · exact ⟨Findings.setValid_superclasses .., Findings.setValid_marks ..⟩
  · exact ⟨Findings.setValid_superclasses .., Findings.setValid_marks ..⟩
  · exact (List.append_nil _).symm
  · exact (List.append_nil _).symm

theorem reportAll {es es' : List CheckError} (even : Akin es es') :
    Evenly p sight (ClassLang.reportAll es) (ClassLang.reportAll es') :=
  fun _ _ _ _ m => ⟨trivial, m, es, es', rfl, rfl, even⟩

end Evenly

/-! ## Checks of a block -/

/-- Two checks that report the same, but for places in a block and missing returns after it. -/
abbrev Around (p : Program) (sight : Sight) (spans spans' : List Span) (R : α → α → Prop)
    (x y : Check α) : Prop :=
  Framed p sight (Divided spans spans') R x y

namespace Around

variable {spans spans' : List Span} {R : α → α → Prop} {R' : β → β → Prop} {x y : Check α}

/-- A check before the block. -/
theorem after {k k' : α → Check β} (first : Steady p sight x)
    (rest : ∀ a, Around p sight spans spans' R' (k a) (k' a)) :
    Around p sight spans spans' R' (x >>= k) (x >>= k') := by
  have onward (a b : α) (same : a = b) : Around p sight spans spans' R' (k a) (k' b) := same ▸ rest a
  refine Framed.bind (Framed.of_steady first) onward fun es es' fs fs' same related => ?_
  subst same
  exact Divided.prepend related

/-- A check behind the block. -/
theorem bind {k k' : α → Check β} (first : Around p sight spans spans' R x y)
    (rest : ∀ a b, R a b → Evenly p sight (k a) (k' b)) :
    Around p sight spans spans' (fun _ _ => True) (x >>= k) (y >>= k') :=
  Framed.bind first rest fun _ _ _ _ => Divided.append

theorem mapM {check : ι → Check α} {before after : List ι} {i j : ι}
    (first : Steady p sight (before.mapM check))
    (here : Around p sight spans spans' (fun _ _ => True) (check i) (check j))
    (later : Steady p sight (after.mapM check)) :
    Around p sight spans spans' (fun _ _ => True) ((before ++ i :: after).mapM check)
      ((before ++ j :: after).mapM check) := by
  have onward : Around p sight spans spans' (fun _ _ => True) ((i :: after).mapM check)
      ((j :: after).mapM check) := by
    rw [List.mapM_cons, List.mapM_cons]
    exact here.bind fun _ _ _ => .bind (.of_steady later) fun _ _ => .pure _ _
  rw [List.mapM_append, List.mapM_append]
  exact .after first fun _ => onward.bind fun _ _ _ => .pure _ _

end Around

/-! ## Statements -/

/-- The nodes are out of sight. -/
def Hidden (sight : Sight) (xs : List Node) : Prop := ∀ n ∈ xs, ¬sight n.id

/-- A run that keeps to nodes out of sight leaves what is in sight as it was. -/
theorem Steps.unseen {xs : List Node} {s t : CheckState} (h : Steps (covers xs) s t)
    (hidden : Hidden sight xs) : s.findings.MirrorsOn (Equiv.refl Nat) sight t.findings where
  node id inside := by
    refine h.spares (fun mine => ?_) False.elim
    obtain ⟨n, listed, rfl⟩ := List.mem_map.1 mine
    exact hidden n listed inside
  chain _ i := by
    rw [Findings.chain, Findings.chain, Findings.ancestors_congr (h.superclasses_eq fun _ => id)]
    exact (List.map_id' _).symm
  mark _ i := h.mark_eq id

theorem Findings.MirrorsOn.between {f f' g g' : Findings}
    (m : f.MirrorsOn (Equiv.refl Nat) sight g) (left : f.MirrorsOn (Equiv.refl Nat) sight f')
    (right : g.MirrorsOn (Equiv.refl Nat) sight g') : f'.MirrorsOn (Equiv.refl Nat) sight g' where
  node id inside :=
    ((left.node id inside).symm.trans (m.node id inside)).trans (right.node id inside)
  chain seen i := by
    have plain (as : List Ancestor) : as.map (Ancestor.renumber (Equiv.refl Nat)) = as := List.map_id' as
    have here := left.chain seen i
    have there := (right.chain seen i).trans (congrArg _ (m.chain seen i))
    rw [plain] at here
    rw [plain, plain] at there
    rw [plain]
    exact there.trans here.symm
  mark seen i := ((right.mark seen i).trans (m.mark seen i)).trans (left.mark seen i).symm

section Statements

variable {ss ss' : List Statement} {spans spans' : List Span}

theorem statements_within (distinct : Distinct (statementNodes ss)) (scope : Scope) (s : CheckState) :
    Steps (covers (statementNodes ss)) s ((checkStatements [] false ss).exec scope s).2 :=
  (checkStatements_honest [] false ss distinct).within scope s rfl

theorem statements_report (ss : List Statement) (scope : Scope) :
    Reports (fun e => e.span ∈ statementSpans ss) Warning.Any scope (checkStatements [] false ss) :=
  checkStatements_reports [] false ss
    ⟨fun _ listed _ _ => listed, fun _ _ _ listed _ => listed, fun _ _ _ listed => listed⟩

/-- Two lists of statements in the hole. -/
theorem checkStatements_around (distinct : Distinct (statementNodes ss))
    (distinct' : Distinct (statementNodes ss')) (hidden : Hidden sight (statementNodes ss))
    (hidden' : Hidden sight (statementNodes ss')) :
    Around p sight (statementSpans ss) (statementSpans ss') (fun _ _ => True)
      (checkStatements [] false ss) (checkStatements [] false ss') := by
  intro scope s t same m
  obtain ⟨⟨es, reported, here⟩, -⟩ := statements_report ss scope s
  obtain ⟨⟨es', reported', there⟩, -⟩ := statements_report ss' scope t
  refine ⟨trivial, m.between ((statements_within distinct scope s).unseen hidden)
    ((statements_within distinct' scope t).unseen hidden'), es, es', reported, reported', ?_⟩
  exact ⟨[], es, es', [], [], by simp, by simp, here, there, .refl _⟩

theorem Block.check_around {n : Node} (hidden : ¬sight n.id)
    (inner : Around p sight spans spans' (fun _ _ => True) (checkStatements [] false ss)
      (checkStatements [] false ss')) :
    Around p sight spans spans' (fun _ _ => True) (Block.mk n ss).check (Block.mk n ss').check :=
  inner.bind fun _ _ _ => .judge hidden _ _

theorem Around.undeclaring {x y : Check Bool} (h : Around p sight spans spans' (fun _ _ => True) x y) :
    Around p sight spans spans' (fun o o' => o.bound = none ∧ o'.bound = none) (undeclaring x)
      (undeclaring y) := by
  have nothing (sound sound' : Bool) : Framed p sight Akin
      (fun o o' : StatementOutcome => o.bound = none ∧ o'.bound = none)
      (pure ⟨sound, none⟩) (pure ⟨sound', none⟩) := .pure ⟨rfl, rfl⟩
  exact Framed.bind h (fun sound sound' _ => nothing sound sound') fun _ _ _ _ => Divided.append

variable (reads : sight.Reads p)
include reads

theorem AlternativeHole.check_around {b b' : Block}
    (inner : Around p sight spans spans' (fun _ _ => True) b.check b'.check) (hole : AlternativeHole)
    (inside : Inside sight hole.aside) :
    Around p sight spans spans' (fun _ _ => True) (hole.fill b).check (hole.fill b').check := by
  induction hole with
  | last => exact inner
  | branch condition alternative =>
    have tested := checkCondition_parallel (.refl p) reads condition
      (inside.mono (List.subset_append_left _ _))
    have other := alternative.check_parallel (.refl p) reads
      (inside.mono (List.subset_append_right _ _))
    exact .after tested fun _ => inner.bind fun _ _ _ => .bind (.of_steady other) fun _ _ => .pure _ _
  | further condition thenBlock hole ih =>
    have earlier := inside.mono (List.subset_append_left _ _)
    have tested := checkCondition_parallel (.refl p) reads condition
      (earlier.mono (List.subset_append_left _ _))
    have first := thenBlock.check_parallel (.refl p) reads
      (earlier.mono (List.subset_append_right _ _))
    exact .after tested fun _ => .after first fun _ =>
      (ih (inside.mono (List.subset_append_right _ _))).bind fun _ _ _ => .pure _ _

theorem StatementHole.check_around {b b' : Block}
    (inner : Around p sight spans spans' (fun _ _ => True) b.check b'.check) (hole : StatementHole)
    (inside : Inside sight hole.aside) (declared : List String) :
    Around p sight spans spans' (fun o o' => o.bound = none ∧ o'.bound = none)
      ((hole.fill b).check declared) ((hole.fill b').check declared) := by
  cases hole with
  | bare n => exact inner.undeclaring
  | branch n condition alternative =>
    have tested := checkCondition_parallel (.refl p) reads condition
      (inside.mono (List.subset_append_left _ _))
    have other := alternative.check_parallel (.refl p) reads
      (inside.mono (List.subset_append_right _ _))
    exact .undeclaring (.after tested fun _ => inner.bind fun _ _ _ =>
      .bind (.of_steady other) fun _ _ => .pure _ _)
  | otherwise n condition thenBlock hole =>
    have earlier := inside.mono (List.subset_append_left _ _)
    have tested := checkCondition_parallel (.refl p) reads condition
      (earlier.mono (List.subset_append_left _ _))
    have first := thenBlock.check_parallel (.refl p) reads
      (earlier.mono (List.subset_append_right _ _))
    have last := hole.check_around reads inner (inside.mono (List.subset_append_right _ _))
    exact .undeclaring (.after tested fun _ => .after first fun _ => last.bind fun _ _ _ => .pure _ _)
  | loop n condition =>
    have tested := checkCondition_parallel (.refl p) reads condition inside
    have looped : Around p sight spans spans' (fun _ _ => True)
        (withReader (fun scope => { scope with inLoop := true }) b.check)
        (withReader (fun scope => { scope with inLoop := true }) b'.check) :=
      inner.withReader fun _ => rfl
    exact .undeclaring (.after tested fun _ => looped.bind fun _ _ _ => .pure _ _)
  | tried n handler =>
    have other := handler.check_parallel (.refl p) reads inside
    exact .undeclaring (inner.bind fun _ _ _ => .bind (.of_steady other) fun _ _ => .pure _ _)
  | caught n body =>
    have first := body.check_parallel (.refl p) reads inside
    exact .undeclaring (.after first fun _ => inner.bind fun _ _ _ => .pure _ _)

/-- Checks the statements that follow a statement with some outcome. -/
def checkFollowing (declared : List String) (s : Statement) (rest : List Statement)
    (outcome : StatementOutcome) : Check Bool := do
  let sound ← judge s.id outcome.valid
  let declared := outcome.bound.elim declared fun (name, _) => name :: declared
  let restSound ← withReader (Scope.bindAny outcome.bound)
    (checkStatements declared s.isTerminator rest)
  return sound && restSound

omit reads in
theorem checkStatements_cons (declared : List String) (afterJump : Bool) (s : Statement)
    (rest : List Statement) : checkStatements declared afterJump (s :: rest) = (do
      if afterJump then warnUnreachable s.span
      let outcome ← s.check declared
      checkFollowing declared s rest outcome) := rfl

omit reads in
theorem Around.warned {x y : Check Bool} (h : Around p sight spans spans' (fun _ _ => True) x y)
    (afterJump : Bool) (span : Span) :
    Around p sight spans spans' (fun _ _ => True)
      (do
        if afterJump then warnUnreachable span
        x)
      (do
        if afterJump then warnUnreachable span
        y) := by
  cases afterJump with
  | false => exact h
  | true => exact .after (warnUnreachable_parallel span) fun _ => h

omit reads in
/-- What is checked after a statement with a hole. -/
theorem StatementHole.checkFollowing_evenly {b b' : Block} {o o' : StatementOutcome}
    {declared : List String} {rest : List Statement} (hole : StatementHole)
    (hidden : ¬sight hole.node.id) (outcomes : o.bound = none ∧ o'.bound = none)
    (later : Steady p sight (checkStatements declared false rest)) :
    Evenly p sight (checkFollowing declared (hole.fill b) rest o)
      (checkFollowing declared (hole.fill b') rest o') := by
  obtain ⟨valid, _⟩ := o
  obtain ⟨valid', _⟩ := o'
  obtain ⟨rfl, rfl⟩ := outcomes
  unfold checkFollowing
  rw [hole.id_fill, hole.id_fill, hole.isTerminator_fill, hole.isTerminator_fill]
  have same : Evenly p sight (withReader (Scope.bindAny none) (checkStatements declared false rest))
      (withReader (Scope.bindAny none) (checkStatements declared false rest)) :=
    (Evenly.of_steady later).withReader fun _ => rfl
  exact .bind (.judge hidden _ _) fun _ _ => .bind same fun _ _ => .pure _ _

omit reads in
/-- A statement before the one with the hole. -/
theorem Around.following {declared : List String} {s : Statement} {rest rest' : List Statement}
    {o : StatementOutcome} (here : sight s.id)
    (others : Around p sight spans spans' (fun _ _ => True)
      (checkStatements (o.bound.elim declared fun (name, _) => name :: declared) s.isTerminator rest)
      (checkStatements (o.bound.elim declared fun (name, _) => name :: declared) s.isTerminator rest')) :
    Around p sight spans spans' (fun _ _ => True) (checkFollowing declared s rest o)
      (checkFollowing declared s rest' o) := by
  have bound : Around p sight spans spans' (fun _ _ => True) _ _ :=
    others.withReader fun scope => scope.bindAny_program o.bound
  exact .after (.judge o.valid here) fun _ => bound.bind fun _ _ _ => .pure _ _

theorem Layer.check_around (layer : Layer) (inside : Inside sight layer.aside)
    (hidden : Hidden sight layer.spine)
    (inner : Around p sight spans spans' (fun _ _ => True) (checkStatements [] false ss)
      (checkStatements [] false ss')) (declared : List String) (afterJump : Bool) :
    Around p sight spans spans' (fun _ _ => True)
      (checkStatements declared afterJump (layer.fill ss))
      (checkStatements declared afterJump (layer.fill ss')) := by
  obtain ⟨before, hole, n, after⟩ := layer
  have below : Inside sight (statementNodes before ++ (hole.aside ++ statementNodes after)) := inside
  rw [fill, fill]
  dsimp only
  clear inside
  -- The statements before the hole are checked alike, and bind the same names.
  induction before generalizing declared afterJump with
  | nil =>
    obtain ⟨around, rest⟩ := Inside.append_iff.1 (Inside.append_iff.1 below).2
    have block := Block.check_around (hidden n (by simp [spine])) inner
    have holds := hole.check_around reads block around declared
    have later := checkStatements_parallel (.refl p) reads declared false after rest
    rw [List.nil_append, List.nil_append, checkStatements_cons, checkStatements_cons, hole.span_fill,
      hole.span_fill]
    refine (holds.bind fun o o' outcomes => ?_).warned afterJump _
    exact hole.checkFollowing_evenly (hidden _ (List.mem_cons_self ..)) outcomes later
  | cons s rest ih =>
    rw [statementNodes, List.append_assoc] at below
    obtain ⟨nodes, others⟩ := Inside.append_iff.1 below
    have first := s.check_parallel (.refl p) reads declared nodes
    have here : sight s.id := nodes s.node (s.nodes_eq ▸ List.mem_cons_self ..)
    rw [List.cons_append, List.cons_append, checkStatements_cons, checkStatements_cons]
    exact (Around.after first fun _ => .following here (ih _ _ hidden others)).warned afterJump _

theorem nest_around (layers : List Layer) (inside : Inside sight (layers.flatMap Layer.aside))
    (hidden : Hidden sight (layers.flatMap Layer.spine))
    (inner : Around p sight spans spans' (fun _ _ => True) (checkStatements [] false ss)
      (checkStatements [] false ss')) :
    Around p sight spans spans' (fun _ _ => True) (checkStatements [] false (nest layers ss))
      (checkStatements [] false (nest layers ss')) := by
  induction layers with
  | nil => exact inner
  | cons layer rest ih =>
    have below := ih (inside.mono (List.subset_append_right _ _))
      fun n listed => hidden n (List.mem_append_right _ listed)
    exact layer.check_around reads (inside.mono (List.subset_append_left _ _))
      (fun n listed => hidden n (List.mem_append_left _ listed)) below [] false

/-! ## Bodies -/

omit reads in
theorem missingReturnFaults_missing (returnType : Option Resolved) (title : String) (body : Block) :
    ∀ e ∈ missingReturnFaults returnType title body, e.cause.isMissingReturn = true := by
  unfold missingReturnFaults
  split
  · split
    · exact List.forall_mem_singleton.2 rfl
    · exact fun _ => nofun
  · exact fun _ => nofun

omit reads in
theorem checkBody_around (title : String) {n : Node} (hidden : ¬sight n.id)
    (inner : Around p sight spans spans' (fun _ _ => True) (checkStatements [] false ss)
      (checkStatements [] false ss')) :
    Around p sight spans spans' (fun _ _ => True) (checkBody title (.mk n ss))
      (checkBody title (.mk n ss')) := by
  refine (Block.check_around hidden inner).bind fun _ _ _ => Framed.read fun scope _ => ?_
  have missing := missingReturnFaults_missing scope.returnType title
  exact Evenly.bind (.reportAll (.of_missing (missing _) (missing _))) fun _ _ => .pure _ _

omit reads in
theorem checkCallable_around (title : String) {params : List Param} {returnType : TypeRef} {n : Node}
    (types : Inside sight (TypeRef.nodesAll (params.map Param.type ++ [returnType])))
    (hidden : ¬sight n.id)
    (inner : Around p sight spans spans' (fun _ _ => True) (checkStatements [] false ss)
      (checkStatements [] false ss')) :
    Around p sight spans spans' (fun _ _ => True) (checkCallable title params returnType (.mk n ss))
      (checkCallable title params returnType (.mk n ss')) := by
  rw [TypeRef.nodesAll_append] at types
  have given := bindParams_parallel (.refl p) params .empty (types.mono (List.subset_append_left _ _))
  have returned := returnType.resolve_along (.refl p) (types.mono fun _ listed =>
    List.mem_append_right _ (List.mem_append_left _ listed))
  refine .after given fun bound => .after returned.run fun type => ?_
  have body : Around p sight spans spans' (fun _ _ => True)
      (withReader (Scope.inBody · bound.1 type) (checkBody title (.mk n ss)))
      (withReader (Scope.inBody · bound.1 type) (checkBody title (.mk n ss'))) :=
    (checkBody_around title hidden inner).withReader fun _ => rfl
  exact body.bind fun _ _ _ => .pure _ _

end Statements

end ClassLang
