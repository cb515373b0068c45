import ClassLang.Proofs.Checking.Cycles
import ClassLang.Proofs.Checking.StatementReporting

/-!
What the checks of declarations report: what is plain, and of superclasses that there is a cycle. Only
the overload sets are told of as such.
-/

namespace ClassLang

variable {α β : Type} {scope : Scope} {allowed : CheckError → Prop}

/-- Whatever is plain may be said anywhere. -/
def AdmitsPlain (allowed : CheckError → Prop) : Prop := ∀ e : CheckError, e.cause.isPlain = true → allowed e

theorem AdmitsPlain.admits (plain : AdmitsPlain allowed) (spans : List Span) : Admits allowed spans :=
  fun span _ cause => plain ⟨span, cause⟩

section Plain

variable (plain : AdmitsPlain allowed)
include plain

theorem Reports.reportPlain {errors : List CheckError} (all : ∀ e ∈ errors, e.cause.isPlain = true) :
    Reports allowed Warning.Any scope (ClassLang.reportAll errors) :=
  .reportAll fun e listed => plain e (all e listed)

/-! ## Names and signatures -/

theorem checkNames_reports (i : Nat) : Reports allowed Warning.Any scope (checkNames i) :=
  .read (.bind (.reportPlain plain (Class.typeParameterFaults_plain _)) fun _ => .pure)

theorem checkClassSignatures_reports (i : Nat) :
    Reports allowed Warning.Any scope (checkClassSignatures i) :=
  .read <| .withReader <| .bind (resolveAll_reports _ (plain.admits _)) fun _ =>
    .bind (.mapM fun _ _ => resolveAll_reports _ (plain.admits _)) fun _ => .pure

theorem checkFunctionSignature_reports (i : Nat) :
    Reports allowed Warning.Any scope (checkFunctionSignature i) :=
  .read (.withReader (resolveAll_reports _ (plain.admits _)))

/-! ## Superclasses -/

theorem Program.superclassName_allowed (cycles : ∀ e : CheckError, e.cause.isCycle = true → allowed e)
    (p : Program) (i : Nat) (written : TypeRef) {e : CheckError}
    (refused : p.superclassName i written = .error e) : allowed e := by
  unfold superclassName at refused
  dsimp only at refused
  split at refused
  · cases refused
    exact plain _ rfl
  split at refused
  · cases refused
    exact plain _ rfl
  split at refused
  · cases refused
    exact plain _ rfl
  split at refused
  · cases refused
    exact cycles _ rfl
  · cases refused

section Inheritance

variable (cycles : ∀ e : CheckError, e.cause.isCycle = true → allowed e)
include cycles

theorem checkSuperclass_reports {examine : Nat → Check Bool}
    (h : ∀ i, Reports allowed Warning.Any scope (examine i)) (i : Nat) :
    Reports allowed Warning.Any scope (checkSuperclass examine i) := by
  refine .read ?_
  dsimp only
  split
  · exact .pure
  rename_i written _
  refine .succeeds (.infer_bind (.settleAllowed fun e =>
    scope.program.superclassName_allowed plain cycles i written) fun name => .infer_bind
      (.withReader (written.resolve_reports (plain.admits _))) fun type => ?_)
  split
  · exact .pure
  · refine .lift_bind (h _) fun sound => ?_
    split
    · exact .fail_bind (plain _ rfl)
    · exact .quiet fun _ => ⟨rfl, rfl⟩

omit cycles in
theorem checkMembers_reports (i : Nat) (superclassSound : Bool) :
    Reports allowed Warning.Any scope (checkMembers i superclassSound) := by
  have warned (ws : List Warning) : Reports allowed Warning.Any scope (ws.forM warn) := by
    induction ws with
    | nil => exact .pure
    | cons w rest ih => exact .bind (.warn trivial) fun _ => ih
  exact .read <| .findings fun f => .bind (warned _) fun _ =>
    .reportPlain plain (scope.program.memberFaults_plain f i superclassSound)

theorem examineClass_reports {examine : Nat → Check Bool}
    (h : ∀ i, Reports allowed Warning.Any scope (examine i)) (i : Nat) :
    Reports allowed Warning.Any scope (examineClass examine i) :=
  .bind (.learn _) fun _ => .bind (checkSuperclass_reports plain cycles h i) fun _ =>
    .bind (checkMembers_reports plain i _) fun _ => .bind (.learn _) fun _ => .read <|
    .bind (.note _) fun _ => .pure

theorem checkInheritance_reports (depth : Nat) :
    ∀ i, Reports allowed Warning.Any scope (checkInheritance depth i) := by
  induction depth with
  | zero =>
    intro i
    unfold checkInheritance
    refine .findings fun f => ?_
    split <;> exact .pure
  | succ depth ih =>
    intro i
    unfold checkInheritance
    refine .findings fun f => ?_
    split
    · exact .pure
    · exact .pure
    · exact examineClass_reports plain cycles ih i

end Inheritance

/-! ## Overload sets -/

omit plain in
theorem checkSets_reports {sets : List OverloadSet}
    (repeated : ∀ e : CheckError, e.cause.isDuplicate = true → allowed e) :
    Reports allowed Warning.Any scope (checkSets sets) := by
  refine .bind (.learn _) fun _ => .reportAll fun e listed => ?_
  obtain ⟨set, _, listed⟩ := List.mem_flatMap.1 listed
  exact repeated e (set.faults_duplicate e listed)

omit plain in
theorem checkFunctionSets_reports
    (repeated : ∀ e : CheckError, e.cause.isDuplicate = true → allowed e) :
    Reports allowed Warning.Any scope checkFunctionSets :=
  .read (.findings fun _ => checkSets_reports repeated)

omit plain in
theorem Class.staticFaults_plain (c : Class) :
    ∀ e ∈ c.methods.flatMap Method.staticFaults, e.cause.isPlain = true := by
  intro e listed
  obtain ⟨m, _, listed⟩ := List.mem_flatMap.1 listed
  exact m.staticFaults_plain e listed

theorem checkMethodSets_reports
    (repeated : ∀ e : CheckError, e.cause.isDuplicate = true → allowed e) (owner : Nat) :
    Reports allowed Warning.Any scope (checkMethodSets owner) :=
  .read (.bind (.reportPlain plain (Class.staticFaults_plain _)) fun _ => .findings fun _ =>
    .bind (checkSets_reports repeated) fun _ => .pure)

/-! ## Bodies -/

theorem checkCallable_reports (title : String) (params : List Param) (returnType : TypeRef)
    {body : Block} (jumps : body.hasLooseJump = true →
      ∀ span word, allowed ⟨span, .jumpOutsideLoop word⟩) :
    Reports allowed Warning.Any scope (checkCallable title params returnType body) := by
  refine .bind (bindParams_reports params _ plain) fun bound =>
    .bind (returnType.resolve_reports (plain.admits _)) fun type =>
    .bind (.withReader (checkBody_reports title ⟨plain.admits _, ?_, nofun⟩)) fun _ => .pure
  exact fun _ has span _ word => jumps has span word

theorem checkField_reports (owner : Nat) (field : Field) :
    Reports allowed Warning.Any scope (checkField owner field) := by
  unfold checkField
  split
  · exact .pure
  · exact .withReader (.bind (field.type.resolve_reports (plain.admits _)) fun _ =>
      checkInitializer_reports _ _ _ (plain.admits _))

theorem checkClassBody_reports {i : Nat} (jumps : ∀ m ∈ (scope.program.classAt i).methods,
      m.body.hasLooseJump = true → ∀ span word, allowed ⟨span, .jumpOutsideLoop word⟩) :
    Reports allowed Warning.Any scope (checkClassBody i) :=
  .read <| .bind (.note _) fun _ => .bind (.mapM fun f _ => checkField_reports plain i f) fun _ =>
    .bind (.mapM fun m listed => .read (.withReader
      (checkCallable_reports plain _ _ _ (jumps m listed)))) fun _ => .pure

theorem checkFunctionBody_reports {i : Nat}
    (jumps : (scope.program.functionAt i).body.hasLooseJump = true →
      ∀ span word, allowed ⟨span, .jumpOutsideLoop word⟩) :
    Reports allowed Warning.Any scope (checkFunctionBody i) :=
  .read <| .bind (.note _) fun _ => .withReader (checkCallable_reports plain _ _ _ jumps)

end Plain

end ClassLang
