import ClassLang.Checking.Operators
import ClassLang.Checking.Literals
import ClassLang.Proofs.Types.Composition
import Mathlib.Data.Option.Basic

/-!
Well-formed types: classes have as many arguments as they take, and no type parameter occurs that may
not. What the checker makes of well-formed types is well-formed.
-/

namespace ClassLang

variable {takes : String → Nat → Prop} {params : String → Prop}

mutual

/-- Classes have numbers of arguments that they take, and only some type parameters occur. -/
def Ty.Formed (takes : String → Nat → Prop) (params : String → Prop) : Ty → Prop
  | .array _ elem => elem.Formed takes params
  | .keymap _ key value => key.Formed takes params ∧ value.Formed takes params
  | .plainClass _ name => takes name 0
  | .genericClass _ name args => takes name args.length ∧ FormedAll takes params args
  | .param _ name => params name
  | .primitive .. | .null _ | .undefined _ | .void _ => True

def Ty.FormedAll (takes : String → Nat → Prop) (params : String → Prop) : List Ty → Prop
  | [] => True
  | t :: rest => t.Formed takes params ∧ FormedAll takes params rest

end

namespace Ty

theorem formedAll_iff {ts : List Ty} :
    FormedAll takes params ts ↔ ∀ t ∈ ts, t.Formed takes params := by
  induction ts with
  | nil => simp [FormedAll]
  | cons t rest ih => simp [FormedAll, ih]

theorem formed_array {m : Modifiers} {elem : Ty} :
    (array m elem).Formed takes params ↔ elem.Formed takes params :=
  Iff.rfl

@[simp] theorem formed_withMods {t : Ty} {m : Modifiers} :
    (t.withMods m).Formed takes params ↔ t.Formed takes params := by
  cases t <;> rfl

@[simp] theorem formed_decay {t : Ty} : t.decay.Formed takes params ↔ t.Formed takes params :=
  formed_withMods

@[simp] theorem formed_asReference {t : Ty} :
    t.asReference.Formed takes params ↔ t.Formed takes params :=
  formed_withMods

@[simp] theorem formed_constIf {t : Ty} {readOnly : Bool} :
    (t.constIf readOnly).Formed takes params ↔ t.Formed takes params :=
  formed_withMods

end Ty

/-- The arguments of a class type are well-formed. -/
theorem Ty.Formed.classArgs {t : Ty} (h : t.Formed takes params) :
    FormedAll takes params t.classArgs := by
  cases t with
  | genericClass _ _ _ => exact h.2
  | _ => trivial

/-- A class type has a number of arguments that its class takes. -/
theorem Ty.Formed.takes_length {t : Ty} {name : String} (h : t.Formed takes params)
    (class_ : t.className? = some name) : takes name t.classArgs.length := by
  cases t with
  | plainClass _ _ =>
    cases class_
    exact h
  | genericClass _ _ _ =>
    cases class_
    exact h.1
  | _ => cases class_

/-! ## Substitutions -/

/-- Every parameter that may occur is bound to a well-formed type, or may occur afterwards. -/
def Substitution.Forms (s : Substitution) (takes : String → Nat → Prop)
    (params later : String → Prop) : Prop :=
  ∀ name, params name → match s.get? name with
    | some t => t.Formed takes later
    | none => later name

namespace Substitution

variable {s : Substitution} {later : String → Prop}

mutual

theorem Forms.apply (h : s.Forms takes params later) :
    ∀ {t : Ty}, t.Formed takes params → (s.apply t).Formed takes later
  | .param m name, formed => by
    have bound := h name formed
    rw [Substitution.apply]
    cases found : s.get? name with
    | none =>
      rw [found] at bound
      exact bound
    | some t =>
      rw [found] at bound
      exact Ty.formed_withMods.2 bound
  | .array _ _, formed => by
    rw [Substitution.apply]
    exact h.apply (t := _) formed
  | .keymap _ _ _, formed => by
    rw [Substitution.apply]
    exact ⟨h.apply formed.1, h.apply formed.2⟩
  | .genericClass _ _ args, formed => by
    rw [Substitution.apply, Ty.Formed, s.applyAll_eq, List.length_map, ← s.applyAll_eq]
    exact ⟨formed.1, h.applyAll formed.2⟩
  | .plainClass _ _, formed => by
    rw [Substitution.apply]
    exact formed
  | .primitive .., _ | .null _, _ | .undefined _, _ | .void _, _ => by
    rw [Substitution.apply]
    trivial

theorem Forms.applyAll (h : s.Forms takes params later) :
    ∀ {ts : List Ty}, Ty.FormedAll takes params ts → Ty.FormedAll takes later (s.applyAll ts)
  | [], _ => trivial
  | _ :: _, formed => ⟨h.apply formed.1, h.applyAll formed.2⟩

end

theorem Forms.andThen {outer : Substitution} {mid : String → Prop} (h : s.Forms takes params mid)
    (h' : outer.Forms takes mid later) : (s.andThen outer).Forms takes params later := by
  intro name allowed
  have first := h name allowed
  rw [get?_andThen]
  cases found : s.get? name with
  | none =>
    rw [found] at first
    exact h' name first
  | some t =>
    rw [found] at first
    exact h'.apply first

theorem Forms.empty (more : ∀ name, params name → later name) :
    Substitution.empty.Forms takes params later := more

theorem mem_of_get?_ofArgs {names : List String} {args : List Ty} {name : String} {t : Ty}
    (found : (ofArgs names args).get? name = some t) : t ∈ args := by
  obtain ⟨before, after, split_, _⟩ := List.lookup_eq_some_iff.1 found
  have split_ : (names.zip args).reverse = before ++ (name, t) :: after := split_
  have listed : (name, t) ∈ (names.zip args).reverse := split_ ▸ List.mem_append_cons_self
  exact (List.of_mem_zip (List.mem_reverse.1 listed)).2

theorem get?_ofArgs_isSome {names : List String} {args : List Ty} {name : String}
    (length : names.length = args.length) (listed : name ∈ names) :
    ((ofArgs names args).get? name).isSome = true := by
  obtain ⟨i, here, rfl⟩ := List.getElem_of_mem listed
  have inZip : (names[i], args[i]) ∈ names.zip args :=
    List.mem_iff_getElem.2 ⟨i, by simpa [← length] using here, List.getElem_zip⟩
  cases found : (ofArgs names args).get? names[i] with
  | some _ => rfl
  | none =>
    have others := List.lookup_eq_none_iff.1 found _ (List.mem_reverse.2 inZip)
    simp at others

/-- Arguments for all type parameters leave only what may occur in the arguments. -/
theorem Forms.ofArgs {names : List String} {args : List Ty} (length : names.length = args.length)
    (formed : Ty.FormedAll takes later args) :
    (ofArgs names args).Forms takes (· ∈ names) later := by
  intro name listed
  cases found : (Substitution.ofArgs names args).get? name with
  | none => simpa [found] using get?_ofArgs_isSome length listed
  | some t => exact Ty.formedAll_iff.1 formed t (mem_of_get?_ofArgs found)

end Substitution

/-- More type parameters may be allowed to occur. -/
theorem Ty.Formed.mono {later : String → Prop} (more : ∀ name, params name → later name) {t : Ty}
    (h : t.Formed takes params) : t.Formed takes later := by
  rw [← Substitution.apply_empty t]
  exact (Substitution.Forms.empty more).apply h

/-! ## Numbers of arguments -/

/-- Every class in a type has a number of arguments that it takes. -/
def Ty.Saturated (takes : String → Nat → Prop) (t : Ty) : Prop := t.Formed takes fun _ => True

mutual

/-- In a type without type parameters none may occur. -/
theorem Ty.formed_none : ∀ t : Ty,
    t.Formed takes (fun _ => False) ↔ t.Saturated takes ∧ t.isConcrete = true
  | .array _ elem => formed_none elem
  | .keymap _ key value => by
    simp only [Saturated, Formed, isConcrete, Bool.and_eq_true]
    rw [formed_none key, formed_none value, and_and_and_comm]
    rfl
  | .genericClass _ _ args => by
    simp only [Saturated, Formed, isConcrete]
    rw [formedAll_none args, and_assoc]
  | .param _ _ => by simp [Formed, isConcrete]
  | .plainClass _ _ => by simp [Saturated, Formed, isConcrete]
  | .primitive .. | .null _ | .undefined _ | .void _ => by simp [Saturated, Formed, isConcrete]

theorem Ty.formedAll_none : ∀ ts : List Ty, FormedAll takes (fun _ => False) ts ↔
    FormedAll takes (fun _ => True) ts ∧ allConcrete ts = true
  | [] => by simp [FormedAll, allConcrete]
  | t :: rest => by
    simp only [FormedAll, allConcrete, Bool.and_eq_true]
    rw [formed_none t, formedAll_none rest, and_and_and_comm]
    rfl

end

/-! ## Learning -/

/-- Every type that a substitution binds is well-formed. -/
def Substitution.Binds (s : Substitution) (takes : String → Nat → Prop) (params : String → Prop) :
    Prop := ∀ name t, s.get? name = some t → t.Formed takes params

namespace Substitution.Binds

variable {s : Substitution} {generics : List String}

theorem empty : Substitution.empty.Binds takes params := fun _ _ => nofun

theorem cons {name : String} {t : Ty} (h : s.Binds takes params) (formed : t.Formed takes params) :
    (⟨(name, t) :: s.bindings⟩ : Substitution).Binds takes params := by
  intro other t' found
  rw [get?, List.lookup_cons] at found
  split at found
  · cases found
    exact formed
  · exact h other t' found

/-- What is left unbound has to be allowed. -/
theorem forms {names : String → Prop} (h : s.Binds takes params)
    (unbound : ∀ name, names name → s.get? name = none → params name) :
    s.Forms takes names params := by
  intro name allowed
  cases found : s.get? name with
  | none => exact unbound name allowed found
  | some t => exact h name t found

mutual

theorem learn : ∀ {t arg : Ty} {s : Substitution}, s.Binds takes params → arg.Formed takes params →
    (learn generics t arg s).Binds takes params
  | .param m name, arg, s, h, formed => by
    rw [Substitution.learn]
    split
    · exact h.cons (Ty.formed_withMods.2 formed)
    · exact h
  | .array _ t, arg, s, h, formed => by
    cases arg with
    | array _ elem =>
      rw [Substitution.learn]
      exact learn h formed
    | _ => exact h
  | .keymap _ key value, arg, s, h, formed => by
    cases arg with
    | keymap _ key' value' =>
      rw [Substitution.learn]
      exact learn (learn h formed.1) formed.2
    | _ => exact h
  | .genericClass _ name ts, arg, s, h, formed => by
    cases arg with
    | genericClass _ name' args =>
      rw [Substitution.learn]
      split
      · exact learnAll h formed.2
      · exact h
    | _ => exact h
  | .primitive .., _, _, h, _ | .plainClass .., _, _, h, _ | .null _, _, _, h, _
  | .undefined _, _, _, h, _ | .void _, _, _, h, _ => by
    rw [Substitution.learn]
    · exact h
    all_goals simp

theorem learnAll : ∀ {ts args : List Ty} {s : Substitution}, s.Binds takes params →
    Ty.FormedAll takes params args → (learnAll generics ts args s).Binds takes params
  | [], _, _, h, _ => h
  | _ :: _, [], _, h, _ => h
  | _ :: _, _ :: _, _, h, formed => by
    rw [Substitution.learnAll]
    exact learnAll (learn h formed.1) formed.2

end

end Substitution.Binds

/-! ## Types of literals and operators -/

theorem Literal.type_formed (l : Literal) : l.type.Formed takes params := by
  cases l <;> trivial

theorem Ty.widened?_formed {a b t : Ty} (found : a.widened? b = some t) : t.Formed takes params := by
  simp only [widened?, Option.bind_eq_bind, Option.bind_eq_some_iff, Option.pure_def,
    Option.some.injEq] at found
  obtain ⟨_, _, _, _, _, _, _, _, rfl⟩ := found
  trivial

theorem unifyFrom_formed {common t : Ty} {items : List (Ty × Span)}
    (formed : common.Formed takes params) (unified : unifyFrom common items = .ok t) :
    t.Formed takes params := by
  induction items generalizing common with
  | nil =>
    cases unified
    exact formed
  | cons item rest ih =>
    obtain ⟨type, span⟩ := item
    rw [unifyFrom] at unified
    split at unified
    · exact ih (Ty.widened?_formed ‹_›) unified
    · split at unified
      · exact ih formed unified
      · cases unified

theorem unify_formed {items : List (Ty × Span)} {t : Ty}
    (formed : ∀ item ∈ items, item.1.Formed takes params) (unified : unify items = .ok t) :
    t.Formed takes params := by
  cases items with
  | nil =>
    cases unified
    trivial
  | cons item rest =>
    exact unifyFrom_formed (Ty.formed_decay.2 (formed item (List.mem_cons_self ..))) unified

theorem commonType?_formed {test : Primitive → Bool} {a b t : Ty}
    (found : commonType? test a b = some t) : t.Formed takes params := by
  simp only [commonType?, Option.bind_eq_bind, Option.bind_eq_some_iff, Option.pure_def,
    Option.some.injEq] at found
  obtain ⟨_, _, _, _, rfl⟩ := found
  trivial

theorem booleanIf_formed {condition : Bool} {t : Ty} (found : booleanIf condition = some t) :
    t.Formed takes params := by
  rw [booleanIf] at found
  split at found
  · cases found
    trivial
  · cases found

theorem BinaryOp.builtin?_formed {op : BinaryOp} {a b t : Ty} (formed : a.Formed takes params)
    (found : op.builtin? a b = some t) : t.Formed takes params := by
  unfold builtin? at found
  split at found
  · split at found
    · simp only [Option.bind_eq_bind, Option.bind_eq_some_iff, Option.pure_def,
        Option.some.injEq] at found
      obtain ⟨_, _, _, _, rfl⟩ := found
      trivial
    · split at found
      · exact commonType?_formed found
      · split at found
        · exact commonType?_formed found
        · split at found
          · cases found
            exact formed
          · cases found
  · exact booleanIf_formed found
  · exact booleanIf_formed found

theorem UnaryOp.builtin?_formed {op : UnaryOp} {a t : Ty} (found : op.builtin? a = some t) :
    t.Formed takes params := by
  simp only [builtin?, Option.bind_eq_bind, Option.bind_eq_some_iff, Option.pure_def,
    Option.some.injEq] at found
  obtain ⟨_, _, _, _, rfl⟩ := found
  trivial

end ClassLang
