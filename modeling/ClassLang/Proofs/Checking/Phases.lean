import ClassLang.Proofs.Checking.PhaseHonesty

/-!
The phases of the check of a program, one after the other: what each of them gives, the state that
it leaves, and which entries it makes.
-/

namespace ClassLang

def CheckState.noted (s : CheckState) (event : Event) : CheckState :=
  { s with events := s.events ++ [event] }

namespace Phase

variable (p : Program) (settings : Settings)

/-! ## Results and states -/

def named : List Bool × CheckState :=
  (p.classIndices.mapM checkNames).exec (.top p settings)
    ((reportAll p.redeclarations).exec (.top p settings) .empty).2

def typed : List Bool × CheckState :=
  (p.classIndices.mapM checkClassSignatures).exec (.top p settings)
    ((named p settings).2.noted .resolvingSignatures)

def functionsTyped : List Bool × CheckState :=
  (p.functionIndices.mapM checkFunctionSignature).exec (.top p settings) (typed p settings).2

def derived : List Bool × CheckState :=
  (p.classIndices.mapM (checkInheritance p.classIndices.length)).exec (.top p settings)
    ((functionsTyped p settings).2.noted .validatingInheritance)

def functionSets : Bool × CheckState :=
  checkFunctionSets.exec (.top p settings) ((derived p settings).2.noted .validatingOverloads)

def methodSets : List Bool × CheckState :=
  (p.classIndices.mapM checkMethodSets).exec (.top p settings) (functionSets p settings).2

def implemented : List Bool × CheckState :=
  (p.classIndices.mapM checkClassBody).exec (.top p settings)
    ((methodSets p settings).2.noted .checkingBodies)

def functionsImplemented : List Bool × CheckState :=
  (p.functionIndices.mapM checkFunctionBody).exec (.top p settings) (implemented p settings).2

def statements : Bool × CheckState :=
  (checkStatements [] false p.statements).exec (.top p settings) (functionsImplemented p settings).2

def classVerdicts : List Bool :=
  bothValid (bothValid (bothValid (bothValid (named p settings).1 (typed p settings).1)
    (derived p settings).1) (methodSets p settings).1) (implemented p settings).1

def functionVerdicts : List Bool :=
  bothValid (functionsTyped p settings).1 (functionsImplemented p settings).1

def judged : CheckState :=
  ((do
    judgeEach (p.classes.map Class.id) (classVerdicts p settings)
    judgeEach (p.functions.map fun f => f.node.id) (functionVerdicts p settings) : Check Unit).exec
    (.top p settings) (statements p settings).2).2

def verdict : Verdict where
  classes := (classVerdicts p settings).all id
  functions := (functionSets p settings).1 && (functionVerdicts p settings).all id
  statements := (statements p settings).1

theorem judged_eq : judged p settings =
    { (statements p settings).2 with
      findings := ((statements p settings).2.findings.judgeAll
        ((p.classes.map Class.id).zip (classVerdicts p settings))).judgeAll
          ((p.functions.map fun f => f.node.id).zip (functionVerdicts p settings)) } := by
  rw [judged, Check.exec_bind, exec_judgeEach, exec_judgeEach]

/-! ## All verdicts -/

theorem all_bothValid {a b : List Bool} (same : a.length = b.length) :
    (bothValid a b).all id = (a.all id && b.all id) := by
  induction a generalizing b with
  | nil =>
    rw [List.length_eq_zero_iff.1 same.symm]
    rfl
  | cons x rest ih =>
    cases b with
    | nil => cases same
    | cons y others =>
      have inner := ih (Nat.succ.inj same)
      change ((x && y) && (bothValid rest others).all id) = _
      rw [inner]
      simp only [List.all_cons, id_eq]
      ac_rfl

theorem length_bothValid {a b : List Bool} (same : a.length = b.length) :
    (bothValid a b).length = a.length := by
  rw [bothValid, List.length_zipWith, ← same, Nat.min_self]

section

variable (p : Program) (settings : Settings)

theorem all_classVerdicts : (classVerdicts p settings).all id =
    ((named p settings).1.all id && (typed p settings).1.all id && (derived p settings).1.all id &&
      (methodSets p settings).1.all id && (implemented p settings).1.all id) := by
  have first : (named p settings).1.length = p.classIndices.length := Check.length_mapM ..
  have second : (typed p settings).1.length = p.classIndices.length := Check.length_mapM ..
  have third : (derived p settings).1.length = p.classIndices.length := Check.length_mapM ..
  have fourth : (methodSets p settings).1.length = p.classIndices.length := Check.length_mapM ..
  have fifth : (implemented p settings).1.length = p.classIndices.length := Check.length_mapM ..
  have two := (length_bothValid (first.trans second.symm)).trans first
  have three := (length_bothValid (two.trans third.symm)).trans two
  have four := (length_bothValid (three.trans fourth.symm)).trans three
  rw [classVerdicts, all_bothValid (four.trans fifth.symm), all_bothValid (three.trans fourth.symm),
    all_bothValid (two.trans third.symm), all_bothValid (first.trans second.symm)]

theorem length_classVerdicts : (classVerdicts p settings).length = p.classes.length := by
  simp only [classVerdicts, bothValid, List.length_zipWith, named, typed, derived, methodSets,
    implemented, Check.length_mapM, Nat.min_self, Program.classIndices, List.length_range]

theorem length_functionVerdicts : (functionVerdicts p settings).length = p.functions.length := by
  simp only [functionVerdicts, bothValid, List.length_zipWith, functionsTyped, functionsImplemented,
    Check.length_mapM, Nat.min_self, Program.functionIndices, List.length_range]

theorem all_functionVerdicts : (functionVerdicts p settings).all id =
    ((functionsTyped p settings).1.all id && (functionsImplemented p settings).1.all id) := by
  have first : (functionsTyped p settings).1.length = p.functionIndices.length :=
    Check.length_mapM ..
  have second : (functionsImplemented p settings).1.length = p.functionIndices.length :=
    Check.length_mapM ..
  rw [functionVerdicts, all_bothValid (first.trans second.symm)]

end

/-! ## Entries -/

theorem noted_steps {own : Subject → Prop} (s : CheckState) (event : Event) :
    Steps own s (s.noted event) := Steps.single (.note event)

section Entries

variable {p : Program} (settings : Settings) (distinct : Distinct p.nodes)

theorem named_steps (own : Subject → Prop) : Steps own .empty (named p settings).2 :=
  (Steps.single (.report p.redeclarations)).trans
    ((checkNames_honest.within (.top p settings) _ rfl).mono fun _ => False.elim)

include distinct

theorem typed_steps : Steps (mentions (TypeRef.nodesAll p.signature)) .empty (typed p settings).2 :=
  ((named_steps settings _).trans (noted_steps _ _)).trans
    ((classSignatures_honest distinct).within (.top p settings) _ rfl)

theorem functionsTyped_steps :
    Steps (mentions (TypeRef.nodesAll p.signature)) .empty (functionsTyped p settings).2 :=
  (typed_steps settings distinct).trans
    ((functionSignatures_honest distinct).within (.top p settings) _ rfl)

theorem derived_steps : Steps (lineage p) (functionsTyped p settings).2 (derived p settings).2 :=
  (noted_steps _ _).trans ((inheritance_honest distinct).within (.top p settings) _ rfl)

omit distinct in
theorem methodSets_steps (own : Subject → Prop) :
    Steps own (derived p settings).2 (methodSets p settings).2 := by
  have functions := (checkFunctionSets_honest (p := p)).within
    (.top p settings) ((derived p settings).2.noted .validatingOverloads) rfl
  have methods := (methodSets_honest (p := p) p.classIndices).within (.top p settings)
    (functionSets p settings).2 rfl
  exact ((noted_steps _ _).trans functions |>.trans methods).mono fun _ => False.elim

theorem implemented_steps : Steps (reaches p.signature (p.classes.flatMap Class.bodyNodes))
    (methodSets p settings).2 (implemented p settings).2 :=
  (noted_steps _ _).trans ((classBodies_honest distinct).within (.top p settings) _ rfl)

theorem functionsImplemented_steps :
    Steps (reaches p.signature (p.functions.flatMap fun f => f.body.nodes))
      (implemented p settings).2 (functionsImplemented p settings).2 :=
  (functionBodies_honest distinct).within (.top p settings) _ rfl

theorem statements_steps :
    Steps (reaches p.signature p.bodyNodes) (methodSets p settings).2 (statements p settings).2 := by
  have classes := implemented_steps settings distinct
  have functions := functionsImplemented_steps settings distinct
  have parts := (Program.distinct_parts distinct).right.right.right
  have rest := (checkStatements_honest (p := p) [] false p.statements parts.right).within
    (.top p settings) (functionsImplemented p settings).2 rfl
  have types := List.Subset.refl p.signature
  refine ((classes.mono (reaches_mono types ?_)).trans
    (functions.mono (reaches_mono types ?_))).trans (rest.mono fun subject mine => .inr ?_)
  · exact fun n below => List.mem_append_left _ (List.mem_append_left _ below)
  · exact fun n below => List.mem_append_left _ (List.mem_append_right _ below)
  · exact covers_mono (List.subset_append_right _ _) subject mine

omit distinct in
theorem judged_steps : Steps (covers p.headNodes) (statements p settings).2 (judged p settings) := by
  have classes := (judgeEach_honest (p := p) (p.classes.map Class.node)
    (classVerdicts p settings)).within (.top p settings) (statements p settings).2 rfl
  rw [List.map_map] at classes
  have functions (s : CheckState) := (judgeEach_honest (p := p) (p.functions.map Function.node)
    (functionVerdicts p settings)).within (.top p settings) s rfl
  rw [List.map_map] at functions
  exact (classes.mono (covers_mono (List.subset_append_left _ _))).trans
    ((functions _).mono (covers_mono (List.subset_append_right _ _)))

/-! ## The types of signatures -/

omit distinct in
theorem named_sound (sound : (named p settings).1.all id = true) : p.redeclarations = [] :=
  checkNames_redeclared (p := p) rfl sound

theorem functionsTyped_known : (functionsTyped p settings).2.findings.Known p.signature := by
  obtain ⟨classTypes, functionTypes, apart⟩ := signature_distinct distinct
  have fresh (nodes : List Node) : ((named p settings).2.noted .resolvingSignatures).Fresh nodes :=
    fun _ _ => ((named_steps settings fun _ => False).validity_eq id id).trans rfl
  have classes : (typed p settings).2.findings.Known
      (p.classIndices.flatMap fun i => (p.classAt i).signature) :=
    signatures_known (p := p) checkClassSignatures_honest
      (fun _ _ distinct fresh => checkClassSignatures_known distinct rfl fresh) classTypes rfl (fresh _)
  have spared := ((signatures_honest (p := p) checkClassSignatures_honest classTypes).within
    (.top p settings) ((named p settings).2.noted .resolvingSignatures) rfl).fresh apart.mentions
    (fresh _)
  have functions : (functionsTyped p settings).2.findings.Known
      (p.functionIndices.flatMap fun i => (p.functionAt i).signature) :=
    signatures_known (p := p) checkFunctionSignature_honest
      (fun _ _ distinct fresh => checkFunctionSignature_known distinct rfl fresh) functionTypes rfl
      spared
  have later := (functionSignatures_honest distinct).within (.top p settings) (typed p settings).2 rfl
  rw [Program.signature_eq]
  intro t written
  rcases List.mem_append.1 written with ofClass | ofFunction
  · exact later.known (fun _ _ => id) classes t ofClass
  · exact functions t ofFunction

end Entries

end Phase

end ClassLang
