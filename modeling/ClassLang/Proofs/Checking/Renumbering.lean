import ClassLang.Proofs.Checking.PhaseHonesty
import Mathlib.Logic.Equiv.Basic

/-!
Programs that differ in the order of their classes. A class has another position in the other program,
and everything that is named by its position is named anew; what a name stands for stays the same.
-/

namespace ClassLang

/-! ## Positions -/

/-- A renumbering of all numbers but the first. -/
def shifted (σ : Equiv.Perm Nat) : Equiv.Perm Nat where
  toFun
    | 0 => 0
    | i + 1 => σ i + 1
  invFun
    | 0 => 0
    | i + 1 => σ.symm i + 1
  left_inv i := by cases i <;> simp
  right_inv i := by cases i <;> simp

theorem exists_renumbering {α : Type} {as bs : List α} (perm : as.Perm bs) :
    ∃ σ : Equiv.Perm Nat, ∀ i, bs[σ i]? = as[i]? := by
  induction perm with
  | nil => exact ⟨Equiv.refl Nat, fun _ => rfl⟩
  | cons a _ ih =>
    obtain ⟨σ, same⟩ := ih
    refine ⟨shifted σ, fun i => ?_⟩
    cases i with
    | zero => rfl
    | succ i => exact same i
  | swap a b rest =>
    refine ⟨Equiv.swap 0 1, fun i => ?_⟩
    rcases i with _ | _ | i
    · simp
    · simp
    · simp [Equiv.swap_apply_of_ne_of_ne]
  | trans _ _ first second =>
    obtain ⟨σ, same⟩ := first
    obtain ⟨τ, same'⟩ := second
    exact ⟨σ.trans τ, fun i => (same' (σ i)).trans (same i)⟩

namespace Decl

def renumber (σ : Equiv.Perm Nat) : Decl → Decl
  | .class i => .class (σ i)
  | .function i => .function i
  | .method owner i => .method (σ owner) i
  | .field owner i => .field (σ owner) i

@[simp] theorem renumber_refl (d : Decl) : d.renumber (Equiv.refl Nat) = d := by cases d <;> rfl

theorem renumber_trans (σ τ : Equiv.Perm Nat) (d : Decl) :
    (d.renumber σ).renumber τ = d.renumber (σ.trans τ) := by cases d <;> rfl

end Decl

namespace Ancestor

def renumber (σ : Equiv.Perm Nat) (a : Ancestor) : Ancestor := ⟨σ a.index, a.args⟩

@[simp] theorem renumber_refl (a : Ancestor) : a.renumber (Equiv.refl Nat) = a := rfl

end Ancestor

def ClassLookup.renumber (σ : Equiv.Perm Nat) : ClassLookup → ClassLookup
  | .found i => .found (σ i)
  | .missing => .missing
  | .ambiguous => .ambiguous

/-! ## Programs -/

/-- The same program up to the order of its classes: the class at a position of the first stands at the
new number in the second. -/
structure Program.Renumbered (p q : Program) (σ : Equiv.Perm Nat) : Prop where
  classes : ∀ i, q.classes[σ i]? = p.classes[i]?
  functions : q.functions = p.functions
  statements : q.statements = p.statements

namespace Program.Renumbered

theorem refl (p : Program) : p.Renumbered p (Equiv.refl Nat) := ⟨fun _ => rfl, rfl, rfl⟩

variable {p q : Program} {σ : Equiv.Perm Nat} (h : p.Renumbered q σ)
include h

theorem classAt (i : Nat) : q.classAt (σ i) = p.classAt i := by
  rw [Program.classAt, Program.classAt, List.getD_eq_getElem?_getD, List.getD_eq_getElem?_getD,
    h.classes]

theorem functionAt (i : Nat) : q.functionAt i = p.functionAt i := by
  rw [Program.functionAt, Program.functionAt, h.functions]

theorem functionIndices : q.functionIndices = p.functionIndices := by
  rw [Program.functionIndices, Program.functionIndices, h.functions]

theorem functionsNamed (name : String) : q.functionsNamed name = p.functionsNamed name := by
  rw [Program.functionsNamed, Program.functionsNamed, h.functions]

theorem functionGroups : q.functionGroups = p.functionGroups := by
  simp only [Program.functionGroups, h.functions, h.functionsNamed]

theorem mem_classIndices (i : Nat) : σ i ∈ q.classIndices ↔ i ∈ p.classIndices := by
  have there := h.classes i
  rw [Program.classIndices, Program.classIndices, List.mem_range, List.mem_range]
  by_contra differ
  by_cases listed : i < p.classes.length
  · rw [List.getElem?_eq_getElem listed, List.getElem?_eq_some_iff] at there
    exact differ ⟨fun _ => listed, fun _ => there.1⟩
  · rw [List.getElem?_eq_none (Nat.le_of_not_lt listed), List.getElem?_eq_none_iff] at there
    exact differ ⟨fun below => absurd below (Nat.not_lt.2 there), fun below => absurd below listed⟩

theorem indices : q.classIndices.Perm (p.classIndices.map σ) := by
  refine (List.perm_ext_iff_of_nodup List.nodup_range
    (List.nodup_range.map σ.injective)).2 fun i => ?_
  obtain ⟨j, rfl⟩ := σ.surjective i
  rw [List.mem_map_of_injective σ.injective]
  exact h.mem_classIndices j

/-- The classes of the first program in the order of the second. -/
theorem order : ∃ order : List Nat, order.Perm p.classIndices ∧ q.classIndices = order.map σ := by
  refine ⟨q.classIndices.map σ.symm, ?_, by simp⟩
  simpa using h.indices.map σ.symm

theorem length : q.classes.length = p.classes.length := by
  simpa [Program.classIndices] using h.indices.length_eq

/-! ### Names -/

theorem classesNamed (name : String) : (q.classesNamed name).Perm ((p.classesNamed name).map σ) := by
  have nodup (p : Program) : (p.classesNamed name).Nodup :=
    (positions_sorted _ _).imp fun h => Nat.ne_of_lt h
  refine (List.perm_ext_iff_of_nodup (nodup q) ((nodup p).map σ.injective)).2 fun i => ?_
  obtain ⟨j, rfl⟩ := σ.surjective i
  rw [List.mem_map_of_injective σ.injective, mem_classesNamed, mem_classesNamed, h.classes]

theorem findClass (name : String) : q.findClass name = (p.findClass name).renumber σ := by
  have perm := h.classesNamed name
  unfold Program.findClass
  match p.classesNamed name, perm with
  | [], perm => rw [perm.eq_nil]; rfl
  | [i], perm => rw [List.perm_singleton.1 perm]; rfl
  | i :: j :: rest, perm =>
    have long := perm.length_eq
    match q.classesNamed name, long with
    | _ :: _ :: _, _ => rfl

theorem theClass? (name : String) : q.theClass? name = (p.theClass? name).map σ := by
  unfold Program.theClass?
  rw [h.findClass]
  cases p.findClass name <;> rfl

theorem hasClass (name : String) : q.hasClass name = p.hasClass name := by
  rw [Bool.eq_iff_iff]
  simp only [Program.hasClass, List.any_eq_true, List.mem_iff_getElem?]
  constructor
  · rintro ⟨c, ⟨i, here⟩, named⟩
    exact ⟨c, ⟨σ.symm i, by rw [← h.classes, Equiv.apply_symm_apply, here]⟩, named⟩
  · rintro ⟨c, ⟨i, here⟩, named⟩
    exact ⟨c, ⟨σ i, (h.classes i).trans here⟩, named⟩

theorem classFor (span : Span) (name : String) :
    q.classFor span name = (p.classFor span name).map σ := by
  unfold Program.classFor
  rw [h.findClass]
  cases p.findClass name <;> rfl

/-! ### Types -/

theorem classOf? (t : Ty) : q.classOf? t = (p.classOf? t).map σ := by
  simp only [Program.classOf?, h.theClass?, Option.map_bind, Function.comp_def]

theorem argsOf (owner : Nat) (t : Ty) : q.argsOf (σ owner) t = p.argsOf owner t := by
  unfold Program.argsOf
  rw [h.classAt]

theorem typeWithin (i : Nat) : q.typeWithin (σ i) = p.typeWithin i := by
  unfold Program.typeWithin
  rw [h.classAt]

theorem owner (function : Function) :
    (function.owner.bind fun owner => q.theClass? owner.name) =
      (function.owner.bind fun owner => p.theClass? owner.name).map σ := by
  simp only [h.theClass?, Option.map_bind, Function.comp_def]

theorem ownerParams (function : Function) : q.ownerParams function = p.ownerParams function := by
  unfold Program.ownerParams
  rw [h.owner]
  cases function.owner.bind fun owner => p.theClass? owner.name with
  | none => rfl
  | some i => exact congrArg Class.params (h.classAt i)

/-! ### Extends clauses -/

theorem declaredSuperclass? (i : Nat) :
    q.declaredSuperclass? (σ i) = (p.declaredSuperclass? i).map σ := by
  simp only [Program.declaredSuperclass?, h.classAt, h.theClass?, Option.map_bind, Function.comp_def]

theorem leadsTo (target steps i : Nat) :
    q.leadsTo (σ target) steps (σ i) = p.leadsTo target steps i := by
  induction steps generalizing i with
  | zero => rfl
  | succ steps ih =>
    unfold Program.leadsTo
    rw [h.declaredSuperclass?]
    cases p.declaredSuperclass? i with
    | none => rfl
    | some next =>
      have same : (σ next == σ target) = (next == target) := by
        rw [Bool.eq_iff_iff, beq_iff_eq, beq_iff_eq, σ.apply_eq_iff_eq]
      simp only [Option.map_some, same, ih]

theorem inCycle (i : Nat) : q.inCycle (σ i) = p.inCycle i := by
  rw [Program.inCycle, Program.inCycle, h.length, h.leadsTo]

theorem superclassName (i : Nat) (written : TypeRef) :
    q.superclassName (σ i) written = p.superclassName i written := by
  unfold Program.superclassName
  simp only [h.classAt, h.hasClass, h.inCycle]

end Program.Renumbered

/-- A permutation of the classes gives each of them a new number. -/
theorem Program.exists_renumbered {p q : Program} (classes : p.classes.Perm q.classes)
    (functions : q.functions = p.functions) (statements : q.statements = p.statements) :
    ∃ σ, p.Renumbered q σ := by
  obtain ⟨σ, same⟩ := exists_renumbering classes
  exact ⟨σ, same, functions, statements⟩

/-! ## Surroundings -/

namespace Scope

/-- The same surroundings in the other program. -/
def mirrored (q : Program) (σ : Equiv.Perm Nat) (scope : Scope) : Scope :=
  { scope with program := q, selfClass := scope.selfClass.map σ }

section Mirrored

variable {p q : Program} {σ : Equiv.Perm Nat} {scope : Scope}

@[simp] theorem mirrored_program : (scope.mirrored q σ).program = q := rfl

@[simp] theorem mirrored_settings : (scope.mirrored q σ).settings = scope.settings := rfl

@[simp] theorem mirrored_env : (scope.mirrored q σ).env = scope.env := rfl

@[simp] theorem mirrored_inLoop : (scope.mirrored q σ).inLoop = scope.inLoop := rfl

@[simp] theorem mirrored_returnType : (scope.mirrored q σ).returnType = scope.returnType := rfl

@[simp] theorem mirrored_selfClass : (scope.mirrored q σ).selfClass = scope.selfClass.map σ := rfl

@[simp] theorem mirrored_isInstance : (scope.mirrored q σ).isInstance = scope.isInstance := rfl

@[simp] theorem mirrored_generics : (scope.mirrored q σ).generics = scope.generics := rfl

theorem mirrored_self (same : scope.program = p) : scope.mirrored p (Equiv.refl Nat) = scope := by
  subst same
  cases scope
  simp [mirrored]

theorem mirrored_inClass (h : p.Renumbered q σ) (same : scope.program = p) (owner : Nat)
    (isInstance : Bool) : (scope.inClass owner isInstance).mirrored q σ =
      (scope.mirrored q σ).inClass (σ owner) isInstance := by
  subst same
  simp [mirrored, inClass, h.classAt]

theorem mirrored_ofFunction (h : p.Renumbered q σ) (same : scope.program = p) (function : Function) :
    (scope.ofFunction function).mirrored q σ = (scope.mirrored q σ).ofFunction function := by
  unfold ofFunction
  rw [mirrored_program, same, h.owner]
  cases function.owner.bind fun owner => p.theClass? owner.name with
  | none => rfl
  | some owner => exact mirrored_inClass h same owner false

end Mirrored

end Scope

end ClassLang
