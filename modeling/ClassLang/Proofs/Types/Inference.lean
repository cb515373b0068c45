import ClassLang.Proofs.Types.Constness

/-!
Inference of type arguments. Laying declared types over an instance of them finds the type arguments
again, but for some of their modifiers: a type parameter is bound to the type of a copy, and null is put
down to the parameter if its first occurrence is nullable. The modifiers that are lost do no harm where
they are written on the occurrences themselves.

* `Substitution.get?_learnAll`: what is found by inference.
* `Substitution.accepts_inferred`: when the parameters take arguments of their instance.
-/

namespace ClassLang

variable {s σ : Substitution} {generics : List String} {occurrences : List (String × Modifiers)}

/-! ## What inference finds -/

/-- Whether the first occurrence of a type parameter is nullable. -/
def saysNullable (occurrences : List (String × Modifiers)) (name : String) : Bool :=
  (occurrences.lookup name).any Modifiers.nullable

/-- What inference makes of a type argument, where null may be put down to its type parameter. -/
def Ty.inferred (nullable : Bool) (t : Ty) : Ty :=
  t.withMods ⟨false, false, t.isNullable && !nullable⟩

/-- The type arguments as they are inferred. -/
def Substitution.inferred (s : Substitution) (occurrences : List (String × Modifiers)) : Substitution :=
  ⟨s.bindings.map fun (name, t) => (name, t.inferred (saysNullable occurrences name))⟩

/-- The modifiers of a type argument that inference loses. -/
def Substitution.lost (s : Substitution) (occurrences : List (String × Modifiers)) (name : String) :
    Modifiers :=
  match s.get? name with
  | some t => ⟨t.isConst, t.isReference, t.isNullable && saysNullable occurrences name⟩
  | none => .none

/-- The type parameters that are bound are those of a class. -/
def Substitution.Covers (s : Substitution) (generics : List String) : Prop :=
  ∀ name, name ∈ generics ↔ (s.get? name).isSome = true

namespace Substitution

theorem Covers.ofArgs {args : List Ty} (length : generics.length = args.length) :
    (ofArgs generics args).Covers generics := by
  intro name
  refine ⟨get?_ofArgs_isSome length, fun bound => ?_⟩
  obtain ⟨t, found⟩ := Option.isSome_iff_exists.1 bound
  obtain ⟨before, after, split_, _⟩ := List.lookup_eq_some_iff.1 found
  have split_ : (generics.zip args).reverse = before ++ (name, t) :: after := split_
  have listed : (name, t) ∈ (generics.zip args).reverse := split_ ▸ List.mem_append_cons_self
  exact (List.of_mem_zip (List.mem_reverse.1 listed)).1

theorem get?_inferred (name : String) : (s.inferred occurrences).get? name =
    (s.get? name).map (Ty.inferred (saysNullable occurrences name)) := by
  obtain ⟨bindings⟩ := s
  simp only [get?, inferred]
  induction bindings with
  | nil => rfl
  | cons binding rest ih =>
    obtain ⟨key, t⟩ := binding
    by_cases same : name = key
    · subst same
      simp
    · have differ : (name == key) = false := beq_false_of_ne same
      simpa [List.lookup_cons, differ] using ih

/-- What inference has found once it has seen some occurrences. -/
def inferredAt (s : Substitution) (occurrences : List (String × Modifiers)) (name : String) :
    Option Ty :=
  (occurrences.lookup name).bind fun m => (s.get? name).map (Ty.inferred m.nullable)

theorem inferredAt_append (first later : List (String × Modifiers)) (name : String) :
    s.inferredAt (first ++ later) name = (s.inferredAt first name).or (s.inferredAt later name) := by
  unfold inferredAt
  rw [List.lookup_append]
  cases first.lookup name with
  | none => rfl
  | some m => cases s.get? name <;> cases later.lookup name <;> rfl

/-- A type parameter that occurs is bound as inferred. -/
theorem inferredAt_of_occurs {name : String} (occurs : name ∈ occurrences.map Prod.fst) :
    s.inferredAt occurrences name = (s.inferred occurrences).get? name := by
  rw [get?_inferred, inferredAt, saysNullable]
  cases seen : occurrences.lookup name with
  | none =>
    obtain ⟨o, listed, rfl⟩ := List.mem_map.1 occurs
    have absent := List.lookup_eq_none_iff.1 seen o listed
    simp at absent
  | some m => rfl

theorem get?_cons (key name : String) (t : Ty) : (⟨(key, t) :: s.bindings⟩ : Substitution).get? name =
    if name = key then some t else s.get? name := by
  by_cases same : name = key
  · simp [get?, same]
  · simp [get?, List.lookup_cons, same, beq_false_of_ne same]

theorem learn_param (covers : σ.Covers generics) (m : Modifiers) (name : String) (s : Substitution) :
    learn generics (.param m name) (σ.apply (.param m name)) s =
      match s.get? name, σ.get? name with
      | none, some t => ⟨(name, t.inferred m.nullable) :: s.bindings⟩
      | _, _ => s := by
  rw [learn]
  cases bound : σ.get? name with
  | none =>
    have foreign : name ∉ generics := fun listed => by simpa [bound] using (covers name).1 listed
    cases s.get? name <;> simp [foreign]
  | some t =>
    have listed : name ∈ generics := (covers name).2 (by rw [bound]; rfl)
    have copied : (σ.apply (.param m name)).withMods
        ⟨false, false, (σ.apply (.param m name)).isNullable && !m.nullable⟩ = t.inferred m.nullable := by
      rw [apply, bound]
      simp only [Ty.withMods_withMods, Ty.isNullable, Ty.mods_withMods, Ty.inferred, Modifiers.union]
      cases m.nullable <;> simp
    cases s.get? name <;> simp [listed, copied]

mutual

theorem get?_learn (covers : σ.Covers generics) (name : String) : ∀ (p : Ty) (s : Substitution),
    (learn generics p (σ.apply p) s).get? name = (s.get? name).or (σ.inferredAt p.occurrences name)
  | .param m x, s => by
    rw [Ty.occurrences, learn_param covers]
    by_cases same : name = x
    · subst same
      have first : σ.inferredAt [(name, m)] name = (σ.get? name).map (Ty.inferred m.nullable) := by
        simp [inferredAt]
      rw [first]
      cases σ.get? name <;> cases known : s.get? name <;> simp [known, get?_cons]
    · have differ : (name == x) = false := beq_false_of_ne same
      have other : σ.inferredAt [(x, m)] name = none := by simp [inferredAt, List.lookup_cons, differ]
      rw [other, Option.or_none]
      cases s.get? x <;> cases σ.get? x <;> simp [get?_cons, same]
  | .array _ elem, s => get?_learn covers name elem s
  | .keymap _ key value, s => by
    rw [Ty.occurrences, inferredAt_append, ← Option.or_assoc, ← get?_learn covers name key s]
    exact get?_learn covers name value _
  | .genericClass _ c args, s => by
    rw [apply, learn, if_pos (beq_self_eq_true c)]
    exact get?_learnAll covers name args s
  | .primitive .., s | .plainClass .., s | .null _, s | .undefined _, s | .void _, s => by
    simp [learn, Ty.occurrences, inferredAt]

theorem get?_learnAll (covers : σ.Covers generics) (name : String) :
    ∀ (ps : List Ty) (s : Substitution), (learnAll generics ps (σ.applyAll ps) s).get? name =
      (s.get? name).or (σ.inferredAt (Ty.occurrencesAll ps) name)
  | [], s => by simp [learnAll, Ty.occurrencesAll, inferredAt]
  | p :: rest, s => by
    rw [Ty.occurrencesAll, inferredAt_append, ← Option.or_assoc, ← get?_learn covers name p s]
    exact get?_learnAll covers name rest _

end

/-- A type is replaced as inferred if its type parameters have been seen. -/
theorem apply_learnAll (covers : σ.Covers generics) (ps : List Ty) {t : Ty}
    (seen : ∀ o ∈ t.occurrences, o.1 ∈ generics → o.1 ∈ (Ty.occurrencesAll ps).map Prod.fst) :
    (learnAll generics ps (ps.map σ.apply) .empty).apply t =
      (σ.inferred (Ty.occurrencesAll ps)).apply t := by
  rw [← applyAll_eq]
  apply apply_congr t
  intro o listed
  have found : (learnAll generics ps (σ.applyAll ps) .empty).get? o.1 =
      (σ.inferred (Ty.occurrencesAll ps)).get? o.1 := by
    rw [get?_learnAll covers o.1 ps .empty]
    by_cases own : o.1 ∈ generics
    · exact inferredAt_of_occurs (seen o listed own)
    · have unbound : σ.get? o.1 = none :=
        Option.not_isSome_iff_eq_none.1 fun bound => own ((covers o.1).2 bound)
      rw [get?_inferred, inferredAt, unbound]
      cases (Ty.occurrencesAll ps).lookup o.1 <;> rfl
  rw [apply, apply, found]

end Substitution

/-! ## What is written on occurrences -/

/-- On each occurrence of a type parameter are written the modifiers that its type argument has
lost. -/
def Ty.Restores (lost : String → Modifiers) (t : Ty) : Prop :=
  ∀ o ∈ t.occurrences, (lost o.1).union o.2 = o.2

instance {lost : String → Modifiers} {t : Ty} : Decidable (t.Restores lost) :=
  inferInstanceAs (Decidable (∀ o ∈ t.occurrences, (lost o.1).union o.2 = o.2))

/-- A type parameter by itself and not as a reference. -/
def Ty.isCopiedParam : Ty → Bool
  | .param m _ => !m.reference
  | _ => false

/-- The same for the type of a parameter. If that takes a copy of what a type parameter stands for, only
null has to be written. -/
def Ty.RestoresArgument (lost : String → Modifiers) (t : Ty) : Prop :=
  t.Restores fun name => if t.isCopiedParam then (lost name).decay else lost name

instance {lost : String → Modifiers} {t : Ty} : Decidable (t.RestoresArgument lost) :=
  inferInstanceAs (Decidable (t.Restores _))

namespace Substitution

/-- What inference finds and what it loses make up a type argument. -/
theorem inferred_union_lost (occurrences : List (String × Modifiers)) {name : String} {t : Ty}
    (bound : s.get? name = some t) :
    (t.inferred (saysNullable occurrences name)).mods.union (s.lost occurrences name) = t.mods := by
  rw [lost, bound, Ty.inferred, Ty.mods_withMods]
  simp only [Modifiers.union, Ty.isConst, Ty.isReference, Ty.isNullable, Bool.false_or]
  rcases t.mods with ⟨_, _, nullable⟩
  cases nullable <;> cases saysNullable occurrences name <;> rfl

theorem apply_bound {name : String} {t : Ty} (bound : s.get? name = some t) (m : Modifiers) :
    s.apply (.param m name) = t.withMods (t.mods.union m) := by
  rw [apply, bound]

theorem apply_unbound {name : String} (unbound : s.get? name = none) (m : Modifiers) :
    s.apply (.param m name) = .param m name := by
  rw [apply, unbound]

theorem apply_inferred_bound (occurrences : List (String × Modifiers)) {name : String} {t : Ty}
    (bound : s.get? name = some t) (m : Modifiers) : (s.inferred occurrences).apply (.param m name) =
      t.withMods ((t.inferred (saysNullable occurrences name)).mods.union m) := by
  have found : (s.inferred occurrences).get? name =
      some (t.inferred (saysNullable occurrences name)) := by
    rw [get?_inferred, bound]
    rfl
  rw [apply_bound found]
  exact Ty.withMods_withMods _ _ t

theorem apply_inferred_unbound {name : String} (unbound : s.get? name = none) (m : Modifiers) :
    (s.inferred occurrences).apply (.param m name) = s.apply (.param m name) := by
  rw [apply_unbound unbound, apply_unbound]
  rw [get?_inferred, unbound]
  rfl

theorem apply_inferred {t : Ty} (restores : t.Restores (s.lost occurrences)) :
    (s.inferred occurrences).apply t = s.apply t := by
  apply apply_congr t
  intro o listed
  have written := restores o listed
  cases bound : s.get? o.1 with
  | none => exact apply_inferred_unbound bound o.2
  | some u =>
    rw [apply_inferred_bound occurrences bound, apply_bound bound, ← inferred_union_lost occurrences bound,
      Modifiers.union_assoc, written]

end Substitution

namespace Ty

theorem assignable_withMods {t : Ty} {a b : Modifiers} (declarable : t.Declarable)
    (fits : a.fits b = true) : (t.withMods a).assignable (t.withMods b) = true := by
  cases t with
  | null _ | undefined _ => exact declarable.elim
  | _ => simp [withMods, assignable, fits, assignable_refl, assignableAll_refl, Primitive.widensTo_refl]

/-- A parameter that is no reference takes copies. -/
theorem accepts_copy {t : Ty} {a b : Modifiers} (declarable : t.Declarable) (value : b.reference = false)
    (fits : a.decay.fits b = true) (isPlace : Bool) :
    (t.withMods b).accepts (t.withMods a) isPlace = true := by
  have copies : (t.withMods b).isReference = false := by rw [isReference, mods_withMods, value]
  rw [accepts, if_neg (by rw [copies]; decide), decay, mods_withMods, withMods_withMods]
  exact assignable_withMods declarable fits

/-- A parameter takes arguments of its own type, places or not. -/
theorem accepts_self {t : Ty} (declarable : t.Declarable) (isPlace : Bool) :
    t.accepts t isPlace = true := by
  cases alias_ : t.mods.reference with
  | true =>
    have mods : t.mods.asReference = t.mods := by rw [Modifiers.asReference, ← alias_]
    have same : t.asReference = t := by rw [asReference, mods, withMods_mods]
    rw [accepts, if_pos (show t.isReference = true from alias_), same, ite_self]
    exact assignable_refl t
  | false =>
    have fits : t.mods.decay.fits t.mods = true := by simp [Modifiers.decay, Modifiers.fits, alias_]
    have taken := accepts_copy declarable alias_ fits isPlace
    rwa [withMods_mods] at taken

end Ty

namespace Substitution

/-- The parameters, as inference makes them out, take arguments of the instance that it has seen. -/
theorem accepts_inferred (declarable : s.Declarable) {p : Ty} (plain : p.Declarable)
    (restores : p.RestoresArgument (s.lost occurrences)) (isPlace : Bool) :
    ((s.inferred occurrences).apply p).accepts (s.apply p) isPlace = true := by
  cases copied : p.isCopiedParam with
  | false =>
    have whole : p.Restores (s.lost occurrences) := by simpa [Ty.RestoresArgument, copied] using restores
    rw [apply_inferred whole]
    exact Ty.accepts_self (declarable.apply plain) isPlace
  | true =>
    cases p with
    | param m name =>
      have value : m.reference = false := by simpa [Ty.isCopiedParam] using copied
      cases bound : s.get? name with
      | none =>
        rw [apply_inferred_unbound bound]
        exact Ty.accepts_self (declarable.apply plain) isPlace
      | some u =>
        have written : (s.lost occurrences name).decay.union m = m := by
          simpa [copied] using restores (name, m) (List.mem_singleton_self _)
        -- Null is written here or has been found, and a copy needs nothing else.
        have null : (s.lost occurrences name).nullable = true → m.nullable = true := by
          simpa [Modifiers.union, Modifiers.decay] using congrArg Modifiers.nullable written
        rw [apply_inferred_bound occurrences bound, apply_bound bound,
          ← inferred_union_lost occurrences bound]
        apply Ty.accepts_copy (declarable name u bound)
        · simp [Ty.inferred, Modifiers.union, value]
        · simp only [Modifiers.fits, Modifiers.decay, Modifiers.union, Ty.inferred, Ty.mods_withMods, value]
          grind
    | _ => cases copied

end Substitution

end ClassLang
