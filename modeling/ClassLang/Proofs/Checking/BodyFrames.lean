import ClassLang.Proofs.Checking.DeclarationBlindness
import ClassLang.Proofs.Checking.Frames
import ClassLang.Proofs.Checking.Phases

/-!
The bodies of a program are checked after its declarations. What is found out about the declarations
does not depend on the bodies; the check of the bodies around a hole does not depend on the statements
in it.

* `Phase.statements_elsewhere`: the bodies of a program may be checked in any program with the same
  declarations.
* `Site.checkBodies_around`: two programs that differ in one list of statements.
-/

namespace ClassLang

/-! ## Bodies after declarations -/

/-- Checks all bodies, and the statements of the program. -/
def Program.checkBodies (p : Program) : Check Bool := do
  let _ ← p.classes.zipIdx.mapM fun c => checkClass c.2 c.1
  let _ ← p.functions.mapM checkFunction
  checkStatements [] false p.statements

theorem Program.zipIdx_classes (p : Program) :
    p.classes.zipIdx = p.classIndices.map fun i => (p.classAt i, i) := by
  have indices : List.range' 0 p.classes.length = p.classIndices.map id := by
    rw [List.map_id, Program.classIndices, List.range_eq_range']
  rw [List.zipIdx_eq_zip_range', indices, ← p.map_classAt]
  exact List.zip_map'

theorem Check.exec_mapM_congr {α ι : Type} {x y : ι → Check α} {scope : Scope} (items : List ι)
    (same : ∀ i s, (x i).exec scope s = (y i).exec scope s) (s : CheckState) :
    (items.mapM x).exec scope s = (items.mapM y).exec scope s := by
  induction items generalizing s with
  | nil => rw [exec_mapM_nil, exec_mapM_nil]
  | cons i rest ih => rw [exec_mapM_cons, exec_mapM_cons, same, ih]

namespace Phase

variable {p q : Program} {settings : Settings}

theorem statements_checkBodies (p : Program) (settings : Settings) : statements p settings =
    p.checkBodies.exec (.top p settings) ((methodSets p settings).2.noted .checkingBodies) := by
  have classes (s : CheckState) : (p.classIndices.mapM checkClassBody).exec (.top p settings) s =
      (p.classes.zipIdx.mapM fun c => checkClass c.2 c.1).exec (.top p settings) s := by
    rw [p.zipIdx_classes, List.mapM_map]
    exact Check.exec_mapM_congr p.classIndices (fun _ _ => by rfl) s
  have functions (s : CheckState) :
      (p.functionIndices.mapM checkFunctionBody).exec (.top p settings) s =
        (p.functions.mapM checkFunction).exec (.top p settings) s := by
    rw [← p.map_functionAt, List.mapM_map]
    exact Check.exec_mapM_congr p.functionIndices (fun _ _ => by rfl) s
  rw [statements, functionsImplemented, implemented, classes, functions]
  rfl

/-! ## Declarations without bodies -/

section Elsewhere

variable (same : p.view .declarations = q.view .declarations) (settings)
include same

theorem scope_elsewhere :
    (Scope.top p settings).view .declarations = (Scope.top q settings).view .declarations :=
  congrArg (Scope.top · settings) same

theorem classIndices_elsewhere : p.classIndices = q.classIndices := by
  rw [← p.classIndices_view (v := .declarations), same, q.classIndices_view]

theorem functionIndices_elsewhere : p.functionIndices = q.functionIndices := by
  rw [← p.functionIndices_view (v := .declarations), same, q.functionIndices_view]

theorem named_elsewhere : named p settings = named q settings := by
  have redeclared : p.redeclarations = q.redeclarations := by
    have here := p.redeclarations_view (v := .declarations)
    rw [same, q.redeclarations_view] at here
    exact ((List.map_id _).symm.trans here.symm).trans (List.map_id _)
  rw [named, named, classIndices_elsewhere same, redeclared]
  exact (Blind.mapM_same _ checkNames_blind).elsewhere (scope_elsewhere settings same) _

theorem typed_elsewhere : typed p settings = typed q settings := by
  rw [typed, typed, classIndices_elsewhere same, named_elsewhere settings same]
  exact (Blind.mapM_same _ checkClassSignatures_blind).elsewhere (scope_elsewhere settings same) _

theorem functionsTyped_elsewhere : functionsTyped p settings = functionsTyped q settings := by
  rw [functionsTyped, functionsTyped, functionIndices_elsewhere same, typed_elsewhere settings same]
  exact (Blind.mapM_same _ checkFunctionSignature_blind).elsewhere (scope_elsewhere settings same) _

theorem derived_elsewhere : derived p settings = derived q settings := by
  rw [derived, derived, classIndices_elsewhere same, functionsTyped_elsewhere settings same]
  exact (Blind.mapM_same _ (checkInheritance_blind _)).elsewhere (scope_elsewhere settings same) _

theorem functionSets_elsewhere : functionSets p settings = functionSets q settings := by
  rw [functionSets, functionSets, derived_elsewhere settings same]
  exact checkFunctionSets_blind.elsewhere (scope_elsewhere settings same) _

theorem methodSets_elsewhere : methodSets p settings = methodSets q settings := by
  rw [methodSets, methodSets, classIndices_elsewhere same, functionSets_elsewhere settings same]
  exact (Blind.mapM_same _ checkMethodSets_blind).elsewhere (scope_elsewhere settings same) _

end Elsewhere

end Phase

theorem Program.checkBodies_blind {v : View} (p : Program) :
    Blind v id p.checkBodies (p.relocate v.move).checkBodies := by
  have statements := checkStatements_blind (v := v) [] false p.statements
  rw [relocateStatements_eq] at statements
  have classes : Blind v id (p.classes.zipIdx.mapM fun c => checkClass c.2 c.1)
      ((p.classes.zipIdx.map (Prod.map (.relocate v.move) id)).mapM fun c => checkClass c.2 c.1) :=
    .mapM _ _ fun c => checkClass_blind c.2 c.1
  rw [← List.zipIdx_map] at classes
  exact .bind_same classes fun _ =>
    .bind_same (.mapM (Function.relocate v.move) _ checkFunction_blind) fun _ => statements

/-- The bodies of a program may be checked in any program with the same declarations. -/
theorem Phase.statements_elsewhere {p q : Program}
    (same : p.view .declarations = q.view .declarations) (settings : Settings) :
    statements q settings =
      q.checkBodies.exec (.top p settings) ((methodSets p settings).2.noted .checkingBodies) := by
  rw [statements_checkBodies, methodSets_elsewhere settings same]
  exact q.checkBodies_blind.elsewhere (scope_elsewhere settings same.symm) _

/-! ## Parts of a program with a hole -/

def bodiesOf (functions : List Function) : List Node := functions.flatMap fun f => f.body.nodes

def methodBodiesOf (methods : List Method) : List Node := methods.flatMap fun m => m.body.nodes

namespace Site

/-- The nodes of the other bodies. -/
def aside : Site → List Node
  | statements classes functions => classes.flatMap Class.bodyNodes ++ bodiesOf functions
  | function classes before _ after rest =>
    classes.flatMap Class.bodyNodes ++ (bodiesOf before ++ bodiesOf after) ++ statementNodes rest
  | method before c earlier _ later after functions rest =>
    before.flatMap Class.bodyNodes ++
      (c.initNodes ++ (methodBodiesOf earlier ++ methodBodiesOf later)) ++
        after.flatMap Class.bodyNodes ++ bodiesOf functions ++ statementNodes rest

variable (site : Site) (ss ss' : List Statement) (count count' : Nat)

theorem copies_bodies (i : Nat) : copies i (site.fill ss count).bodyNodes =
    copies i site.spine + copies i site.aside + copies i (statementNodes ss) := by
  cases site with
  | statements classes functions =>
    simp only [fill, spine, aside, Program.bodyNodes, bodiesOf, copies_append, copies_nil]
    omega
  | function classes before f after rest =>
    simp only [fill, spine, aside, Program.bodyNodes, bodiesOf, List.flatMap_append,
      List.flatMap_cons, Function.withBody, Block.nodes, copies_append]
    rw [copies_cons i f.body.node]
    omega
  | method before c earlier m later after functions rest =>
    simp only [fill, spine, aside, Program.bodyNodes, bodiesOf, methodBodiesOf, List.flatMap_append,
      List.flatMap_cons, Class.withMethods, Class.bodyNodes, Class.initNodes, Method.withBody,
      Block.nodes, copies_append]
    rw [copies_cons i m.body.node]
    omega

/-- What fills a hole does not change the declarations. -/
theorem view_fill :
    (site.fill ss count).view .declarations = (site.fill ss' count').view .declarations := by
  cases site with
  | statements classes functions => rfl
  | function classes before f after rest =>
    simp only [fill, Program.view, List.map_append, List.map_cons]
    rfl
  | method before c earlier m later after functions rest =>
    simp only [fill, Program.view, List.map_append, List.map_cons, Class.view, Class.withMethods]
    rfl

theorem headNodes_fill : (site.fill ss count).headNodes = (site.fill ss' count').headNodes := by
  cases site with
  | statements classes functions => rfl
  | function classes before f after rest =>
    simp only [fill, Program.headNodes, List.map_append, List.map_cons]
    rfl
  | method before c earlier m later after functions rest =>
    simp only [fill, Program.headNodes, List.map_append, List.map_cons]
    rfl

theorem signature_fill : (site.fill ss count).signature = (site.fill ss' count').signature := by
  cases site with
  | statements classes functions => rfl
  | function classes before f after rest =>
    simp only [fill, Program.signature, List.flatMap_append, List.flatMap_cons]
    rfl
  | method before c earlier m later after functions rest =>
    simp only [fill, Program.signature, List.flatMap_append, List.flatMap_cons, Class.signature,
      Class.withMethods]
    rfl

end Site

/-! ## Bodies around a hole -/

section Bodies

variable {p : Program} {sight : Sight} (reads : sight.Reads p) {spans spans' : List Span}
  {ss ss' : List Statement}

theorem checkFunction_around (f : Function) (types : Inside sight (TypeRef.nodesAll f.signature))
    (hidden : ¬sight f.body.node.id)
    (inner : Around p sight spans spans' (fun _ _ => True) (checkStatements [] false ss)
      (checkStatements [] false ss')) :
    Around p sight spans spans' (fun _ _ => True) (checkFunction (f.withBody ss))
      (checkFunction (f.withBody ss')) :=
  .after (.note _ _) fun _ =>
    (checkCallable_around f.title types hidden inner).withReader fun scope => scope.ofFunction_program f

theorem checkMethod_around (owner : Nat) (m : Method)
    (types : Inside sight (TypeRef.nodesAll m.signature)) (hidden : ¬sight m.body.node.id)
    (inner : Around p sight spans spans' (fun _ _ => True) (checkStatements [] false ss)
      (checkStatements [] false ss')) :
    Around p sight spans spans' (fun _ _ => True) (checkMethod owner (m.withBody ss))
      (checkMethod owner (m.withBody ss')) :=
  Framed.read fun _ _ => (checkCallable_around _ types hidden inner).withReader fun _ => rfl

include reads

theorem checkClass_around (i : Nat) (c : Class) (earlier later : List Method) (m : Method)
    (types : Inside sight
      (TypeRef.nodesAll (c.withMethods (earlier ++ m.withBody [] :: later)).signature))
    (aside : Inside sight (c.initNodes ++ (methodBodiesOf earlier ++ methodBodiesOf later)))
    (hidden : ¬sight m.body.node.id)
    (inner : Around p sight spans spans' (fun _ _ => True) (checkStatements [] false ss)
      (checkStatements [] false ss')) :
    Around p sight spans spans' (fun _ _ => True)
      (checkClass i (c.withMethods (earlier ++ m.withBody ss :: later)))
      (checkClass i (c.withMethods (earlier ++ m.withBody ss' :: later))) := by
  simp only [Class.signature, Class.withMethods, List.flatMap_append, List.flatMap_cons,
    TypeRef.nodesAll_append, Inside.append_iff] at types
  simp only [Inside.append_iff] at aside
  obtain ⟨fieldTypes, earlierTypes, ownTypes, laterTypes⟩ := types
  obtain ⟨inits, earlierBodies, laterBodies⟩ := aside
  have fields := checkFields_parallel (.refl p) reads i fieldTypes inits
  have first := checkMethods_parallel (.refl p) reads i earlierTypes earlierBodies
  have here := checkMethod_around i m ownTypes hidden inner
  have last := checkMethods_parallel (.refl p) reads i laterTypes laterBodies
  exact .after (.note _ _) fun _ => .after fields fun _ =>
    (Around.mapM first here last).bind fun _ _ _ => .pure _ _

theorem checkFunctions_steady {functions : List Function}
    (types : Inside sight (TypeRef.nodesAll (functions.flatMap Function.signature)))
    (bodies : Inside sight (bodiesOf functions)) : Steady p sight (functions.mapM checkFunction) := by
  refine .mapM_same _ fun f listed => checkFunction_parallel (.refl p) reads f fun n below => ?_
  rcases List.mem_append.1 below with ofType | ofBody
  · refine types n (TypeRef.nodesAll_subset (fun t written => ?_) ofType)
    exact List.mem_flatMap.2 ⟨f, listed, written⟩
  · exact bodies n (List.mem_flatMap.2 ⟨f, listed, ofBody⟩)

theorem checkClasses_steady {classes : List Class} (from_ : Nat)
    (types : Inside sight (TypeRef.nodesAll (classes.flatMap Class.signature)))
    (bodies : Inside sight (classes.flatMap Class.bodyNodes)) :
    Steady p sight ((classes.zipIdx from_).mapM fun c => checkClass c.2 c.1) := by
  refine .mapM_same _ fun c listed => checkClass_parallel (.refl p) reads c.2 c.1 fun n below => ?_
  have declared := List.fst_mem_of_mem_zipIdx listed
  rcases List.mem_append.1 below with ofType | ofBody
  · refine types n (TypeRef.nodesAll_subset (fun t written => ?_) ofType)
    exact List.mem_flatMap.2 ⟨c.1, declared, written⟩
  · exact bodies n (List.mem_flatMap.2 ⟨c.1, declared, ofBody⟩)

theorem Site.checkBodies_around (site : Site) (count count' : Nat)
    (types : Inside sight (TypeRef.nodesAll (site.fill [] count).signature))
    (aside : Inside sight site.aside) (hidden : Hidden sight site.spine)
    (inner : Around p sight spans spans' (fun _ _ => True) (checkStatements [] false ss)
      (checkStatements [] false ss')) :
    Around p sight spans spans' (fun _ _ => True) (site.fill ss count).checkBodies
      (site.fill ss' count').checkBodies := by
  rw [Program.signature, TypeRef.nodesAll_append, Inside.append_iff] at types
  obtain ⟨classTypes, functionTypes⟩ := types
  cases site with
  | statements classes functions =>
    obtain ⟨classBodies, functionBodies⟩ := Inside.append_iff.1 aside
    have first := checkClasses_steady reads 0 classTypes classBodies
    have second := checkFunctions_steady reads functionTypes functionBodies
    exact .after first fun _ => .after second fun _ => inner
  | function classes before f after rest =>
    simp only [fill, List.flatMap_append, List.flatMap_cons, TypeRef.nodesAll_append,
      Inside.append_iff] at functionTypes
    simp only [Site.aside, Inside.append_iff] at aside
    obtain ⟨earlierTypes, ownTypes, laterTypes⟩ := functionTypes
    obtain ⟨⟨classBodies, earlierBodies, laterBodies⟩, restNodes⟩ := aside
    have first := checkClasses_steady reads 0 classTypes classBodies
    have earlier := checkFunctions_steady reads earlierTypes earlierBodies
    have here := checkFunction_around f ownTypes (hidden _ (List.mem_singleton_self _)) inner
    have later := checkFunctions_steady reads laterTypes laterBodies
    have last := checkStatements_parallel (.refl p) reads [] false rest restNodes
    exact .after first fun _ => (Around.mapM earlier here later).bind fun _ _ _ => .of_steady last
  | method before c earlier m later after functions rest =>
    have positions (c : Class) : (before ++ c :: after).zipIdx =
        before.zipIdx ++ (c, before.length) :: after.zipIdx (before.length + 1) := by
      rw [List.zipIdx_append, List.zipIdx_cons, Nat.zero_add]
    simp only [fill, List.flatMap_append, List.flatMap_cons, TypeRef.nodesAll_append,
      Inside.append_iff] at classTypes
    simp only [Site.aside, Inside.append_iff] at aside
    obtain ⟨earlierTypes, ownTypes, laterTypes⟩ := classTypes
    obtain ⟨⟨⟨⟨earlierBodies, ownBodies⟩, laterBodies⟩, functionBodies⟩, restNodes⟩ := aside
    have first := checkClasses_steady reads 0 earlierTypes earlierBodies
    have here := checkClass_around reads before.length c earlier later m ownTypes
      (Inside.append_iff.2 ⟨ownBodies.1, Inside.append_iff.2 ownBodies.2⟩)
      (hidden _ (List.mem_singleton_self _)) inner
    have others := checkClasses_steady reads (before.length + 1) laterTypes laterBodies
    have second := checkFunctions_steady reads functionTypes functionBodies
    have last := checkStatements_parallel (.refl p) reads [] false rest restNodes
    have classes : Around p sight spans spans' (fun _ _ => True)
        ((before ++ c.withMethods (earlier ++ m.withBody ss :: later) :: after).zipIdx.mapM
          fun c => checkClass c.2 c.1)
        ((before ++ c.withMethods (earlier ++ m.withBody ss' :: later) :: after).zipIdx.mapM
          fun c => checkClass c.2 c.1) := by
      rw [positions, positions]
      exact .mapM first here others
    exact classes.bind fun _ _ _ => .bind (.of_steady second) fun _ _ => .of_steady last

end Bodies

end ClassLang
