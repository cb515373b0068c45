import ClassLang.Checking.Analysis
import ClassLang.Proofs.Checking.Runs
import ClassLang.Proofs.Syntax.Relocation
import Mathlib.Data.List.GetD

/-!
Checks do not see places, nor into the bodies of what they look up. Here a program is looked at whose
places have been moved and whose bodies have been replaced: its declarations are found under the same
names and with the same types. `Blind` says of two checks that they do the same in it and in the program
itself; there is one rule for each combinator.
-/

namespace ClassLang

/-! ## Views -/

/-- A way to look at programs: places are moved, and other bodies and statements are seen. -/
structure View where
  move : Span → Span
  body : Block → Block
  statements : List Statement → List Statement
  count : Nat → Nat
  move_default : move default = default
  body_default : body default = default

/-- Everything in other places. -/
def View.moving (move : Span → Span) (keeps : move default = default) : View where
  move := move
  body := .relocate move
  statements := List.map (.relocate move)
  count := id
  move_default := keeps
  body_default := congrArg (fun span => Block.mk ⟨default, span⟩ []) keeps

/-- Declarations, and not their bodies. -/
def View.declarations : View where
  move := id
  body _ := default
  statements _ := []
  count _ := 0
  move_default := rfl
  body_default := rfl

/-- Puts everything in one place. -/
def Span.forget (_ : Span) : Span := default

section Views

variable (v : View)

def Method.view (m : Method) : Method := { m.relocate v.move with body := v.body m.body }

def Function.view (function : Function) : Function :=
  { function.relocate v.move with body := v.body function.body }

def Class.view (c : Class) : Class := { c.relocate v.move with methods := c.methods.map (.view v) }

def Program.view (p : Program) : Program :=
  ⟨p.classes.map (.view v), p.functions.map (.view v), v.statements p.statements, v.count p.nodeCount⟩

theorem Class.view_default : (default : Class).view v = default :=
  congrArg (fun span => (⟨⟨default, span⟩, ⟨default, span⟩, [], none, [], []⟩ : Class)) v.move_default

theorem Function.view_default : (default : Function).view v = default := by
  change (⟨⟨default, v.move default⟩, .primitive ⟨default, v.move default⟩ default default,
    ⟨default, v.move default⟩, [], v.body default, none, none⟩ : Function) = _
  rw [v.move_default, v.body_default]
  rfl

end Views

variable {α β ι : Type} {v : View}

/-! ## Declarations -/

theorem positions_map {test : α → Bool} (r : ι → α) (items : List ι) :
    positions test (items.map r) = positions (fun item => test (r item)) items := by
  rw [positions, positions, List.zipIdx_map, List.filter_map, List.map_map]
  rfl

theorem repeatedNames_map {name : α → String} (r : ι → α) (items : List ι) :
    repeatedNames name (items.map r) = (repeatedNames (fun item => name (r item)) items).map r := by
  rw [repeatedNames, repeatedNames, List.zipIdx_map, List.filter_map, List.map_map, List.map_map]
  simp only [Function.comp_def, ← List.map_take, List.any_map]
  rfl

namespace Class

variable (c : Class)

@[simp] theorem name_view : (c.view v).name.name = c.name.name := rfl

@[simp] theorem params_view : (c.view v).params = c.params := by
  rw [params, view, relocate, List.map_map]
  rfl

@[simp] theorem length_generics_view : (c.view v).generics.length = c.generics.length :=
  List.length_map _

@[simp] theorem isGeneric_view : (c.view v).isGeneric = c.isGeneric := by
  rw [isGeneric, view, relocate, List.isEmpty_map]
  rfl

@[simp] theorem fieldIndex?_view (name : String) : (c.view v).fieldIndex? name = c.fieldIndex? name :=
  List.findIdx?_map ..

@[simp] theorem memberTitle_view (name : String) :
    (c.view v).memberTitle name = c.memberTitle name := rfl

end Class

namespace Program

variable (p : Program)

@[simp] theorem classAt_view (i : Nat) : (p.view v).classAt i = (p.classAt i).view v := by
  have mapped := List.getD_map p.classes default (n := i) (Class.view v)
  rwa [Class.view_default] at mapped

@[simp] theorem functionAt_view (i : Nat) : (p.view v).functionAt i = (p.functionAt i).view v := by
  have mapped := List.getD_map p.functions default (n := i) (Function.view v)
  rwa [Function.view_default] at mapped

@[simp] theorem classIndices_view : (p.view v).classIndices = p.classIndices := by
  rw [classIndices, view, List.length_map]
  rfl

@[simp] theorem functionIndices_view : (p.view v).functionIndices = p.functionIndices := by
  rw [functionIndices, view, List.length_map]
  rfl

@[simp] theorem hasClass_view (name : String) : (p.view v).hasClass name = p.hasClass name :=
  List.any_map

@[simp] theorem findClass_view (name : String) : (p.view v).findClass name = p.findClass name := by
  unfold findClass classesNamed view
  rw [positions_map]
  rfl

@[simp] theorem theClass?_view (name : String) : (p.view v).theClass? name = p.theClass? name := by
  rw [theClass?, findClass_view, theClass?]

@[simp] theorem functionsNamed_view (name : String) :
    (p.view v).functionsNamed name = p.functionsNamed name := by
  unfold functionsNamed view
  rw [positions_map]
  rfl

@[simp] theorem functionGroups_view : (p.view v).functionGroups = p.functionGroups := by
  unfold functionGroups
  simp only [functionsNamed_view]
  rw [view, List.map_map]
  rfl

@[simp] theorem classOf?_view (t : Ty) : (p.view v).classOf? t = p.classOf? t := by
  simp only [classOf?, funext p.theClass?_view]

@[simp] theorem argsOf_view (owner : Nat) (t : Ty) : (p.view v).argsOf owner t = p.argsOf owner t := by
  cases t <;> simp only [argsOf, classAt_view, Class.params_view]

@[simp] theorem typeWithin_view (i : Nat) : (p.view v).typeWithin i = p.typeWithin i := by
  simp only [typeWithin, classAt_view, Class.isGeneric_view, Class.params_view, Class.name_view]

end Program

/-! ## Reports and surroundings -/

def CheckError.relocate (f : Span → Span) (e : CheckError) : CheckError := ⟨f e.span, e.cause⟩

def Warning.relocate (f : Span → Span) (w : Warning) : Warning := ⟨f w.span, w.cause⟩

def Event.relocate (f : Span → Span) : Event → Event
  | resolvedCall call decl => resolvedCall (call.relocate f) decl
  | event => event

def CheckState.relocate (f : Span → Span) (s : CheckState) : CheckState :=
  ⟨s.findings, s.errors.map (.relocate f), s.warnings.map (.relocate f), s.events.map (.relocate f)⟩

@[simp] theorem CheckState.relocate_id (s : CheckState) : s.relocate id = s := by
  have errors : CheckError.relocate id = id := rfl
  have warnings : Warning.relocate id = id := rfl
  have events : Event.relocate id = id := funext fun event => by
    cases event with
    | resolvedCall call decl => rw [Event.relocate, expr_relocate_id, id]
    | _ => rfl
  rw [relocate, errors, warnings, events, List.map_id, List.map_id, List.map_id]

def Scope.view (v : View) (scope : Scope) : Scope := { scope with program := scope.program.view v }

namespace Scope

variable (scope : Scope)

@[simp] theorem view_program : (scope.view v).program = scope.program.view v := rfl

@[simp] theorem view_settings : (scope.view v).settings = scope.settings := rfl

@[simp] theorem view_env : (scope.view v).env = scope.env := rfl

@[simp] theorem view_inLoop : (scope.view v).inLoop = scope.inLoop := rfl

@[simp] theorem view_returnType : (scope.view v).returnType = scope.returnType := rfl

@[simp] theorem view_selfClass : (scope.view v).selfClass = scope.selfClass := rfl

@[simp] theorem view_isInstance : (scope.view v).isInstance = scope.isInstance := rfl

@[simp] theorem view_generics : (scope.view v).generics = scope.generics := rfl

@[simp] theorem mayUse_view (findings : Findings) (owner : Nat) (access : Access) :
    (scope.view v).mayUse findings owner access = scope.mayUse findings owner access := by
  cases access <;> rfl

theorem inClass_view (owner : Nat) (isInstance : Bool) :
    (scope.inClass owner isInstance).view v =
      (scope.view v).inClass owner isInstance := by
  simp [inClass, view]

end Scope

/-! ## Checks -/

/-- The second check does in a program as it is viewed what the first does in the program itself. -/
def Blind (v : View) (r : α → α) (x y : Check α) : Prop :=
  ∀ scope s, y.exec (scope.view v) (s.relocate v.move) =
    (r (x.exec scope s).1, (x.exec scope s).2.relocate v.move)

namespace Blind

variable {r : α → α} {r' : β → β} {x y : Check α} {k k' : α → Check β}

theorem pure {a b : α} (same : b = r a) : Blind v r (Pure.pure a) (Pure.pure b) :=
  fun _ _ => by rw [same]; rfl

theorem pure_same (a : α) : Blind v id (Pure.pure a) (Pure.pure a) := .pure rfl

theorem bind (first : Blind v r x y) (rest : ∀ a, Blind v r' (k a) (k' (r a))) :
    Blind v r' (x >>= k) (y >>= k') := by
  intro scope s
  rw [Check.exec_bind, Check.exec_bind, first scope s]
  exact rest _ scope _

theorem bind_same (first : Blind v id x y) (rest : ∀ a, Blind v r' (k a) (k' a)) :
    Blind v r' (x >>= k) (y >>= k') := bind first rest

theorem read {k k' : Scope → Check β}
    (rest : ∀ scope : Scope, Blind v r' (k scope) (k' (scope.view v))) :
    Blind v r' ((MonadReader.read : Check Scope) >>= k) ((MonadReader.read : Check Scope) >>= k') :=
  fun scope s => rest scope scope s

theorem findings {k k' : Findings → Check β} (rest : ∀ f, Blind v r' (k f) (k' f)) :
    Blind v r' (ClassLang.findings >>= k) (ClassLang.findings >>= k') :=
  fun scope s => rest s.findings scope s

theorem learn (l : Findings → Findings) : Blind v id (ClassLang.learn l) (ClassLang.learn l) :=
  fun _ _ => rfl

theorem judge (n : Nat) (valid : Bool) :
    Blind v id (ClassLang.judge n valid) (ClassLang.judge n valid) :=
  .bind_same (.learn _) fun _ => .findings fun _ => .pure_same _

theorem note (event : Event) :
    Blind v id (ClassLang.note event) (ClassLang.note (event.relocate v.move)) := by
  intro scope s
  simp only [Check.exec_note, CheckState.relocate, List.map_append, List.map_singleton, id_eq]

theorem reportAll (errors : List CheckError) :
    Blind v id (ClassLang.reportAll errors)
      (ClassLang.reportAll (errors.map (.relocate v.move))) := by
  intro scope s
  simp only [Check.exec_reportAll, CheckState.relocate, List.map_append, List.isEmpty_map, id_eq]

theorem report (e : CheckError) :
    Blind v id (ClassLang.report e) (ClassLang.report (e.relocate v.move)) := by
  intro scope s
  simp only [Check.exec_report, CheckState.relocate, List.map_append, List.map_singleton, id_eq]

theorem warn (w : Warning) : Blind v id (ClassLang.warn w) (ClassLang.warn (w.relocate v.move)) := by
  intro scope s
  simp only [Check.exec_warn, CheckState.relocate, List.map_append, List.map_singleton, id_eq]

theorem withReader {u u' : Scope → Scope} (inner : Blind v r x y)
    (scopes : ∀ scope : Scope, u' (scope.view v) = (u scope).view v) :
    Blind v r (MonadWithReader.withReader u x : Check α) (MonadWithReader.withReader u' y) := by
  intro scope s
  rw [Check.exec_withReader, Check.exec_withReader, scopes]
  exact inner (u scope) s

theorem mapM {κ : Type} {x : ι → Check α} {y : κ → Check α} (w : ι → κ) (items : List ι)
    (each : ∀ i, Blind v id (x i) (y (w i))) :
    Blind v id (items.mapM x) ((items.map w).mapM y) := by
  induction items with
  | nil =>
    intro scope s
    rw [List.map_nil, Check.exec_mapM_nil, Check.exec_mapM_nil]
    rfl
  | cons i rest ih =>
    intro scope s
    rw [List.map_cons, Check.exec_mapM_cons, Check.exec_mapM_cons, each i scope s]
    dsimp only [id_eq]
    rw [ih scope _]
    rfl

theorem mapM_same {x y : ι → Check α} (items : List ι) (each : ∀ i, Blind v id (x i) (y i)) :
    Blind v id (items.mapM x) (items.mapM y) := by
  have all := mapM id items each
  rwa [List.map_id] at all

end Blind

/-- What is blind to bodies comes to the same wherever the declarations are the same. -/
theorem Blind.elsewhere {x y : Check α} (blind : Blind .declarations id x y) {scope scope' : Scope}
    (same : scope.view .declarations = scope'.view .declarations) (s : CheckState) :
    x.exec scope s = x.exec scope' s := by
  have here := blind scope s
  have there := blind scope' s
  rw [same, there, show View.declarations.move = id from rfl, CheckState.relocate_id,
    CheckState.relocate_id] at here
  exact here.symm

/-! ## Inferences -/

/-- The same of two inferences. -/
def Blindly (v : View) (r : α → α) (x y : Infer α) : Prop := Blind v (Except.map r) x.run y.run

theorem except_map_id {ε : Type} : (Except.map id : Except ε α → Except ε α) = id :=
  funext fun r => by cases r <;> rfl

namespace Blindly

variable {r : α → α} {r' : β → β} {x y : Infer α} {k k' : α → Infer β}

theorem run (h : Blindly v id x y) : Blind v id x.run y.run := by rwa [Blindly, except_map_id] at h

theorem of_run (h : Blind v id x.run y.run) : Blindly v id x y := by rwa [Blindly, except_map_id]

theorem pure {a b : α} (same : b = r a) : Blindly v r (Pure.pure a) (Pure.pure b) :=
  Blind.pure (congrArg Except.ok same)

theorem pure_same (a : α) : Blindly v id (Pure.pure a) (Pure.pure a) := .pure rfl

theorem throw : Blindly v r (MonadExcept.throw ⟨⟩) (MonadExcept.throw ⟨⟩) := Blind.pure rfl

theorem bind (first : Blindly v r x y) (rest : ∀ a, Blindly v r' (k a) (k' (r a))) :
    Blindly v r' (x >>= k) (y >>= k') := by
  intro scope s
  have before := first scope s
  rw [Infer.exec_bind, Infer.exec_bind, before]
  rcases Check.exec x.run scope s with ⟨e | a, t⟩
  · rfl
  · exact rest a scope t

theorem bind_same (first : Blindly v id x y) (rest : ∀ a, Blindly v r' (k a) (k' a)) :
    Blindly v r' (x >>= k) (y >>= k') := bind first rest

theorem lift_bind {x y : Check α} (first : Blind v r x y)
    (rest : ∀ a, Blindly v r' (k a) (k' (r a))) :
    Blindly v r' ((liftM x : Infer α) >>= k) ((liftM y : Infer α) >>= k') :=
  Blind.bind first rest

theorem lift_same {x y : Check α} (first : Blind v id x y) (rest : ∀ a, Blindly v r' (k a) (k' a)) :
    Blindly v r' ((liftM x : Infer α) >>= k) ((liftM y : Infer α) >>= k') :=
  lift_bind first rest

theorem lift {x y : Check α} (h : Blind v id x y) :
    Blindly v id (liftM x : Infer α) (liftM y : Infer α) := by
  have bound := lift_same h fun a => pure_same a
  rwa [bind_pure, bind_pure] at bound

theorem attempt_same {k k' : Except Reported α → Infer β} (first : Blindly v id x y)
    (rest : ∀ a, Blindly v r' (k a) (k' a)) :
    Blindly v r' (ClassLang.attempt x >>= k) (ClassLang.attempt y >>= k') :=
  Blind.bind first.run rest

theorem read {k k' : Scope → Infer β}
    (rest : ∀ scope : Scope, Blindly v r' (k scope) (k' (scope.view v))) :
    Blindly v r' ((MonadReader.read : Infer Scope) >>= k) ((MonadReader.read : Infer Scope) >>= k') :=
  Blind.read rest

theorem findings {k k' : Findings → Infer β} (rest : ∀ f, Blindly v r' (k f) (k' f)) :
    Blindly v r' ((liftM findings : Infer Findings) >>= k)
      ((liftM findings : Infer Findings) >>= k') :=
  Blind.findings rest

theorem settle (a : Except Reported α) : Blindly v id (ClassLang.settle a) (ClassLang.settle a) :=
  of_run (Blind.pure rfl)

theorem fail (span : Span) (cause : CheckCause) :
    Blindly v r (ClassLang.fail span cause) (ClassLang.fail (v.move span) cause) :=
  lift_same (.report ⟨span, cause⟩) fun _ => throw

theorem fail_bind (span : Span) (cause : CheckCause) :
    Blindly v r' (ClassLang.fail span cause >>= k) (ClassLang.fail (v.move span) cause >>= k') :=
  fun scope s => fail (r := r') span cause scope s

theorem settleBy {a b : Except CheckError α}
    (same : b = (a.mapError (.relocate v.move)).map r) :
    Blindly v r (ClassLang.settleBy a) (ClassLang.settleBy b) := by
  subst same
  cases a with
  | error e => exact fail e.span e.cause
  | ok a => exact pure rfl

theorem settleBy_same {a b : Except CheckError α} (same : b = a.mapError (.relocate v.move)) :
    Blindly v id (ClassLang.settleBy a) (ClassLang.settleBy b) :=
  settleBy (by rw [same, except_map_id]; rfl)

theorem recorded (n : Nat) {x y : Infer Ty} (h : Blindly v id x y) :
    Blindly v id (ClassLang.recorded n x) (ClassLang.recorded n y) :=
  attempt_same h fun result => lift_same (.learn _) fun _ => settle result

theorem remembered (n : Nat) {x y : Infer Ty} (h : Blindly v id x y) :
    Blindly v id (ClassLang.remembered n x) (ClassLang.remembered n y) := by
  refine findings fun f => ?_
  cases f.cached n with
  | none => exact recorded n h
  | some result => exact settle result

end Blindly

theorem Blind.succeeds {x y : Infer α} (h : Blindly v id x y) :
    Blind v id (ClassLang.succeeds x) (ClassLang.succeeds y) :=
  .bind_same h.run fun _ => .pure_same _

end ClassLang
