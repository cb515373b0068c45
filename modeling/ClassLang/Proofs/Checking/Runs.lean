import ClassLang.Checking.Analysis

/-!
Runs of checks: what each combinator gives, and the state that it leaves.
-/

namespace ClassLang

variable {α β : Type}

/-! ## Checks -/

def Check.exec (x : Check α) (scope : Scope) (s : CheckState) : α × CheckState := x scope s

namespace Check

variable (scope : Scope) (s : CheckState)

@[simp] theorem exec_pure (a : α) : (pure a : Check α).exec scope s = (a, s) := rfl

@[simp] theorem exec_bind (x : Check α) (f : α → Check β) :
    (x >>= f).exec scope s = (f (x.exec scope s).1).exec scope (x.exec scope s).2 := rfl

@[simp] theorem exec_map (f : α → β) (x : Check α) :
    (f <$> x).exec scope s = (f (x.exec scope s).1, (x.exec scope s).2) := rfl

@[simp] theorem exec_read : (read : Check Scope).exec scope s = (scope, s) := rfl

@[simp] theorem exec_get : (get : Check CheckState).exec scope s = (s, s) := rfl

@[simp] theorem exec_withReader (f : Scope → Scope) (x : Check α) :
    (withReader f x : Check α).exec scope s = x.exec (f scope) s := rfl

@[simp] theorem exec_findings : findings.exec scope s = (s.findings, s) := rfl

@[simp] theorem exec_learn (f : Findings → Findings) :
    (learn f).exec scope s = ((), { s with findings := f s.findings }) := rfl

@[simp] theorem exec_report (e : CheckError) :
    (report e).exec scope s = ((), { s with errors := s.errors ++ [e] }) := rfl

@[simp] theorem exec_reportAll (es : List CheckError) :
    (reportAll es).exec scope s = (es.isEmpty, { s with errors := s.errors ++ es }) := rfl

@[simp] theorem exec_warn (w : Warning) :
    (warn w).exec scope s = ((), { s with warnings := s.warnings ++ [w] }) := rfl

@[simp] theorem exec_note (event : Event) :
    (note event).exec scope s = ((), { s with events := s.events ++ [event] }) := rfl

theorem exec_judge (id : Nat) (valid : Bool) :
    (judge id valid).exec scope s =
      ((s.findings.validity id).getD valid, { s with findings := s.findings.setValid id valid }) := by
  have stored : (s.findings.setValid id valid).validity id =
      some ((s.findings.validity id).getD valid) := by
    rw [Findings.validity_setValid, if_pos rfl]
  simp only [judge, exec_bind, exec_learn, exec_findings, exec_pure, stored]
  cases (s.findings.validity id).getD valid <;> rfl

theorem exec_succeeds (x : Infer α) :
    (succeeds x).exec scope s = ((Check.exec x.run scope s).1.isOk, (Check.exec x.run scope s).2) := rfl

@[simp] theorem exec_mapM_nil {ι : Type} (f : ι → Check α) :
    (([] : List ι).mapM f).exec scope s = ([], s) := by
  rw [List.mapM_nil]
  rfl

@[simp] theorem exec_mapM_cons {ι : Type} (f : ι → Check α) (i : ι) (rest : List ι) :
    ((i :: rest).mapM f).exec scope s =
      (((f i).exec scope s).1 :: ((rest.mapM f).exec scope ((f i).exec scope s).2).1,
        ((rest.mapM f).exec scope ((f i).exec scope s).2).2) := by
  rw [List.mapM_cons]
  rfl

theorem length_mapM {ι : Type} (f : ι → Check α) (items : List ι) :
    ((items.mapM f).exec scope s).1.length = items.length := by
  induction items generalizing s with
  | nil => simp
  | cons i rest ih => simp [ih]

/-- What each item brings about, if what it asks for holds, holds of all of them in the end. -/
theorem mapM_establishes {ι : Type} {f : ι → Check α} {A D : ι → CheckState → Prop}
    (items : List ι) (run : ∀ i ∈ items, ∀ s, A i s → D i ((f i).exec scope s).2)
    (keepAsked : items.Pairwise fun i j => ∀ s, A j s → A j ((f i).exec scope s).2)
    (keepDone : ∀ i, ∀ j ∈ items, ∀ s, D i s → D i ((f j).exec scope s).2) :
    ∀ s, (∀ i ∈ items, A i s) → ∀ i ∈ items, D i ((items.mapM f).exec scope s).2 := by
  have keepAll (items : List ι)
      (keepDone : ∀ i, ∀ j ∈ items, ∀ s, D i s → D i ((f j).exec scope s).2) (i : ι) :
      ∀ s, D i s → D i ((items.mapM f).exec scope s).2 := by
    induction items with
    | nil =>
      intro s before
      rw [exec_mapM_nil]
      exact before
    | cons j rest ih =>
      intro s before
      rw [exec_mapM_cons]
      refine ih (fun i k listed => keepDone i k (List.mem_cons_of_mem j listed)) _ ?_
      exact keepDone i j (List.mem_cons_self ..) s before
  induction items with
  | nil => exact fun _ _ _ => nofun
  | cons i rest ih =>
    intro s before j listed
    obtain ⟨keepFirst, keepRest⟩ := List.pairwise_cons.1 keepAsked
    have keepLater := fun i k (listed : k ∈ rest) => keepDone i k (List.mem_cons_of_mem _ listed)
    rw [exec_mapM_cons]
    rcases List.mem_cons.1 listed with rfl | later
    · exact keepAll rest keepLater j _ (run j listed s (before j listed))
    · refine ih (fun k listed => run k (List.mem_cons_of_mem i listed)) keepRest keepLater _
        (fun k listed => ?_) j later
      exact keepFirst k listed s (before k (List.mem_cons_of_mem i listed))

end Check

def Findings.judgeAll (f : Findings) (entries : List (Nat × Bool)) : Findings :=
  entries.foldl (fun f entry => f.setValid entry.1 entry.2) f

theorem exec_judgeEach (ids : List Nat) (verdicts : List Bool) (scope : Scope) (s : CheckState) :
    (judgeEach ids verdicts).exec scope s =
      ((), { s with findings := s.findings.judgeAll (ids.zip verdicts) }) := by
  unfold judgeEach
  generalize ids.zip verdicts = entries
  induction entries generalizing s with
  | nil => rfl
  | cons entry rest ih => exact ih { s with findings := s.findings.setValid entry.1 entry.2 }

/-! ## Inferences -/

namespace Infer

@[simp] theorem run_pure (a : α) : (pure a : Infer α).run = (pure (.ok a) : Check _) := rfl

@[simp] theorem run_throw : (throw ⟨⟩ : Infer α).run = (pure (.error ⟨⟩) : Check _) := rfl

theorem exec_bind (x : Infer α) (f : α → Infer β) (scope : Scope) (s : CheckState) :
    Check.exec (x >>= f).run scope s =
      match Check.exec x.run scope s with
      | (.ok a, t) => Check.exec (f a).run scope t
      | (.error e, t) => (.error e, t) := by
  change Check.exec (ExceptT.bindCont f (Check.exec x.run scope s).1) scope
    (Check.exec x.run scope s).2 = _
  rcases Check.exec x.run scope s with ⟨_ | a, t⟩ <;> rfl

theorem bind_ok {x : Infer α} {f : α → Infer β} {scope : Scope} {s t : CheckState} {b : β}
    (run : Check.exec (x >>= f).run scope s = (.ok b, t)) :
    ∃ a middle, Check.exec x.run scope s = (.ok a, middle) ∧
      Check.exec (f a).run scope middle = (.ok b, t) := by
  rw [exec_bind] at run
  rcases first : Check.exec x.run scope s with ⟨_ | a, middle⟩
  · rw [first] at run
    cases run
  · rw [first] at run
    exact ⟨a, middle, rfl, run⟩

theorem settleBy_ok {r : Except CheckError α} {scope : Scope} {s t : CheckState} {a : α}
    (run : Check.exec (settleBy r).run scope s = (.ok a, t)) : r = .ok a ∧ t = s := by
  cases r with
  | error e => cases run
  | ok _ =>
    cases run
    exact ⟨rfl, rfl⟩

@[simp] theorem run_lift_bind (x : Check α) (f : α → Infer β) :
    ((liftM x : Infer α) >>= f).run = (x >>= fun a => (f a).run : Check _) := rfl

@[simp] theorem run_read_bind (f : Scope → Infer β) :
    ((read : Infer Scope) >>= f).run = ((read : Check Scope) >>= fun scope => (f scope).run) := rfl

@[simp] theorem run_attempt_bind (x : Infer α) (f : Except Reported α → Infer β) :
    (attempt x >>= f).run = (x.run >>= fun r => (f r).run : Check _) := rfl

@[simp] theorem run_settle (r : Except Reported α) : (settle r).run = (pure r : Check _) := rfl

@[simp] theorem settle_ok_bind (a : α) (f : α → Infer β) : settle (.ok a) >>= f = f a := rfl

@[simp] theorem run_withReader (f : Scope → Scope) (x : Infer α) :
    (withReader f x : Infer α).run = (withReader f x.run : Check _) := rfl

end Infer

/-! ## What is remembered -/

section Remembered

variable {scope : Scope} {s : CheckState} {id : Nat} {x : Infer Ty}

theorem exec_remembered_known {result : Resolved} (known : s.findings.cached id = some result) :
    Check.exec (remembered id x).run scope s = (result, s) := by
  unfold remembered
  rw [Infer.run_lift_bind, Check.exec_bind, Check.exec_findings]
  dsimp only
  rw [known]
  rfl

theorem exec_remembered_unknown (unknown : s.findings.cached id = none) :
    Check.exec (remembered id x).run scope s = Check.exec (recorded id x).run scope s := by
  unfold remembered
  rw [Infer.run_lift_bind, Check.exec_bind, Check.exec_findings]
  dsimp only
  rw [unknown]

end Remembered

/-! ## Bodies of declarations -/

/-- Checks the first values and method bodies of a class that is declared at a position. -/
def checkClass (i : Nat) (c : Class) : Check Bool := do
  note (.classBody c.name.name)
  let fieldsSound ← c.fields.mapM (checkField i)
  let methodsSound ← c.methods.mapM (checkMethod i)
  return fieldsSound.all id && methodsSound.all id

def checkFunction (function : Function) : Check Bool := do
  note (.functionBody function.name.name)
  withReader (·.ofFunction function)
    (checkCallable function.title function.params function.returnType function.body)

theorem checkClassBody_eq (i : Nat) :
    checkClassBody i = (do checkClass i ((← read).program.classAt i)) := rfl

theorem checkFunctionBody_eq (i : Nat) :
    checkFunctionBody i = (do checkFunction ((← read).program.functionAt i)) := rfl

end ClassLang
