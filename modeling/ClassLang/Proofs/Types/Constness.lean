import ClassLang.Proofs.Types.Formation

/-!
Read-only types: what is read-only stays so when type parameters are replaced, and an alias of it fits
only what is read-only, unless its type is that of the literals `null` and `undefined`. Those are no
types of variables and fields.

* `Ty.accepts_isConst`: an alias of something read-only is only bound to something read-only.
-/

namespace ClassLang

mutual

/-- The types of the literals `null` and `undefined` do not occur. -/
def Ty.Declarable : Ty → Prop
  | .array _ elem => elem.Declarable
  | .keymap _ key value => key.Declarable ∧ value.Declarable
  | .genericClass _ _ args => DeclarableAll args
  | .null _ | .undefined _ => False
  | .primitive .. | .plainClass .. | .param .. | .void _ => True

def Ty.DeclarableAll : List Ty → Prop
  | [] => True
  | t :: rest => t.Declarable ∧ DeclarableAll rest

end

namespace Ty

theorem declarableAll_iff {ts : List Ty} : DeclarableAll ts ↔ ∀ t ∈ ts, t.Declarable := by
  induction ts with
  | nil => simp [DeclarableAll]
  | cons t rest ih => simp [DeclarableAll, ih]

@[simp] theorem declarable_withMods {t : Ty} {m : Modifiers} :
    (t.withMods m).Declarable ↔ t.Declarable := by
  cases t <;> rfl

theorem Declarable.classArgs {t : Ty} (h : t.Declarable) : ∀ arg ∈ t.classArgs, arg.Declarable := by
  cases t with
  | genericClass _ _ _ => exact declarableAll_iff.1 h
  | _ => exact fun _ => nofun

@[simp] theorem isConst_constIf {t : Ty} {readOnly : Bool} :
    (t.constIf readOnly).isConst = (t.isConst || readOnly) := by
  rw [isConst, constIf, mods_withMods]
  rfl

@[simp] theorem isConst_asReference {t : Ty} : t.asReference.isConst = t.isConst := by
  rw [isConst, asReference, mods_withMods]
  rfl

@[simp] theorem declarable_constIf {t : Ty} {readOnly : Bool} :
    (t.constIf readOnly).Declarable ↔ t.Declarable :=
  declarable_withMods

@[simp] theorem declarable_asReference {t : Ty} : t.asReference.Declarable ↔ t.Declarable :=
  declarable_withMods

end Ty

/-! ## Substitutions -/

/-- All type parameters are replaced by types of variables and fields. -/
def Substitution.Declarable (s : Substitution) : Prop :=
  ∀ name t, s.get? name = some t → t.Declarable

namespace Substitution

variable {s outer : Substitution}

/-- What is read-only stays so when type parameters are replaced. -/
theorem isConst_apply {t : Ty} (const : t.isConst = true) : (s.apply t).isConst = true := by
  cases t with
  | param m name =>
    rw [apply]
    split
    · rw [Ty.isConst, Ty.mods_withMods]
      exact Bool.or_eq_true_iff.2 (.inr const)
    · exact const
  | _ =>
    rw [apply]
    exact const

mutual

theorem Declarable.apply (h : s.Declarable) : ∀ {t : Ty}, t.Declarable → (s.apply t).Declarable
  | .param m name, _ => by
    rw [Substitution.apply]
    cases found : s.get? name with
    | none => trivial
    | some t => exact Ty.declarable_withMods.2 (h name t found)
  | .array _ _, declarable => by
    rw [Substitution.apply]
    exact h.apply (t := _) declarable
  | .keymap _ _ _, declarable => by
    rw [Substitution.apply]
    exact ⟨h.apply declarable.1, h.apply declarable.2⟩
  | .genericClass _ _ _, declarable => by
    rw [Substitution.apply]
    exact h.applyAll declarable
  | .primitive .., _ | .plainClass .., _ | .void _, _ => by
    rw [Substitution.apply]
    trivial

theorem Declarable.applyAll (h : s.Declarable) :
    ∀ {ts : List Ty}, Ty.DeclarableAll ts → Ty.DeclarableAll (s.applyAll ts)
  | [], _ => trivial
  | _ :: _, declarable => ⟨h.apply declarable.1, h.applyAll declarable.2⟩

end

theorem Declarable.empty : Substitution.empty.Declarable := fun _ _ => nofun

theorem Declarable.andThen (h : s.Declarable) (h' : outer.Declarable) :
    (s.andThen outer).Declarable := by
  intro name t found
  rw [get?_andThen] at found
  cases bound : s.get? name with
  | none =>
    rw [bound] at found
    exact h' name t found
  | some t' =>
    rw [bound] at found
    cases found
    exact h'.apply (h name t' bound)

theorem Declarable.ofArgs {names : List String} {args : List Ty}
    (declarable : ∀ t ∈ args, t.Declarable) : (ofArgs names args).Declarable :=
  fun _ t found => declarable t (mem_of_get?_ofArgs found)

end Substitution

/-! ## Storing -/

namespace Ty

variable {source target : Ty} (declarable : source.Declarable)
include declarable

theorem Declarable.fits_of_assignable (fits : source.assignable target = true) :
    source.mods.fits target.mods = true := by
  cases source with
  | null _ | undefined _ => exact declarable.elim
  | _ =>
    cases target with
    | _ => simp_all [assignable, mods]

variable (const : source.isConst = true)
include const

theorem assignable_isConst (fits : source.assignable target = true) : target.isConst = true := by
  have outer := declarable.fits_of_assignable fits
  have const : source.mods.const = true := const
  simp only [Modifiers.fits, const, Bool.not_true, Bool.false_or, Bool.and_eq_true] at outer
  exact outer.1.1

/-- An alias of something read-only is only bound to something read-only. -/
theorem accepts_isConst {isPlace : Bool} (isReference : target.isReference = true)
    (accepted : target.accepts source isPlace = true) : target.isConst = true := by
  rw [accepts, if_pos isReference] at accepted
  cases isPlace with
  | true =>
    have alias_ := declarable_asReference.2 declarable
    exact assignable_isConst alias_ (isConst_asReference.trans const) accepted
  | false => exact assignable_isConst declarable const accepted

end Ty

theorem checkStore_isConst {source target : Ty} {name : String} {value : Expr}
    (declarable : source.Declarable) (const : source.isConst = true)
    (stored : checkStore .reference target name value source = .ok ()) : target.isConst = true := by
  unfold checkStore storedType at stored
  dsimp only at stored
  split at stored
  · cases stored
  cases presented : aliasType? value source with
  | none =>
    rw [presented] at stored
    cases stored
  | some type =>
    rw [presented] at stored
    have fits : type.assignable target = true := by
      by_contra refused
      rw [Bool.not_eq_true] at refused
      simp [refused, bind, Except.bind] at stored
    have same : type.Declarable ∧ type.isConst = true := by
      unfold aliasType? at presented
      split at presented
      · cases presented
        exact ⟨Ty.declarable_asReference.2 declarable, Ty.isConst_asReference.trans const⟩
      split at presented
      · cases presented
        exact ⟨declarable, const⟩
      · cases presented
    exact Ty.assignable_isConst same.1 same.2 fits

end ClassLang
