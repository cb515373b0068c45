import ClassLang.Types.Substitution

/-!
Composition of substitutions. Modifiers are joined at each replacement, so their order does not
matter.

* `Substitution.andThen_composes`: a composition replaces first here and then outside, and makes the
  substitutions a monoid.
* `Substitution.apply_ofArgs`: distinct type parameters are all replaced at once.
-/

namespace ClassLang

namespace Substitution

theorem apply_withMods (s : Substitution) (t : Ty) (m : Modifiers) :
    s.apply (t.withMods (t.mods.union m)) = (s.apply t).withMods ((s.apply t).mods.union m) := by
  cases t with
  | param k name =>
    change s.apply (.param (k.union m) name) = _
    simp only [apply]
    cases s.get? name with
    | none => rfl
    | some bound =>
      change bound.withMods (bound.mods.union (k.union m)) =
        (bound.withMods (bound.mods.union k)).withMods
          ((bound.withMods (bound.mods.union k)).mods.union m)
      rw [Ty.mods_withMods, Ty.withMods_withMods, Modifiers.union_assoc]
  | _ => rfl

mutual

theorem apply_andThen (s outer : Substitution) :
    ∀ t : Ty, (s.andThen outer).apply t = outer.apply (s.apply t)
  | .param m name => by
    simp only [apply, get?_andThen]
    cases s.get? name with
    | none => rfl
    | some bound => exact (outer.apply_withMods bound m).symm
  | .array m elem => by simp only [apply, apply_andThen s outer elem]
  | .keymap m key value => by simp only [apply, apply_andThen s outer key, apply_andThen s outer value]
  | .genericClass m name args => by simp only [apply, applyAll_andThen s outer args]
  | .primitive .. | .plainClass .. | .null _ | .undefined _ | .void _ => by simp only [apply]

theorem applyAll_andThen (s outer : Substitution) :
    ∀ ts : List Ty, (s.andThen outer).applyAll ts = outer.applyAll (s.applyAll ts)
  | [] => rfl
  | t :: rest => by simp only [applyAll, apply_andThen s outer t, applyAll_andThen s outer rest]

end

theorem ext_bindings {s s' : Substitution} (same : s.bindings = s'.bindings) : s = s' := by
  cases s
  cases s'
  exact congrArg _ same

theorem andThen_assoc (a b c : Substitution) : (a.andThen b).andThen c = a.andThen (b.andThen c) := by
  have first : (a.bindings.map fun binding => (binding.1, b.apply binding.2)).map
      (fun binding => (binding.1, c.apply binding.2)) =
        a.bindings.map fun binding => (binding.1, (b.andThen c).apply binding.2) := by
    rw [List.map_map]
    exact List.map_congr_left fun binding _ =>
      congrArg (Prod.mk binding.1) (apply_andThen b c binding.2).symm
  apply ext_bindings
  simp only [bindings_andThen, List.map_append, first, List.append_assoc]

@[simp] theorem andThen_empty (s : Substitution) : s.andThen empty = s := rfl

@[simp] theorem empty_andThen (s : Substitution) : empty.andThen s = s :=
  ext_bindings (bindings_andThen empty s)

/-- Substitutions compose: in one pass a composition makes the replacements of both, the grouping of
several does not matter, and the empty substitution is neutral on either side. -/
theorem andThen_composes (s outer last : Substitution) :
    (∀ t : Ty, (s.andThen outer).apply t = outer.apply (s.apply t)) ∧
      (∀ name, ((s.andThen outer).andThen last).get? name =
        (s.andThen (outer.andThen last)).get? name) ∧
      s.andThen empty = s ∧ empty.andThen s = s := by
  have grouping := andThen_assoc s outer last
  exact ⟨apply_andThen s outer, fun name => congrArg (get? · name) grouping, andThen_empty s,
    empty_andThen s⟩

end Substitution

/-! ## Occurrences -/

mutual

/-- The occurrences of type parameters in a type, each with the modifiers written on it, from left to
right. -/
def Ty.occurrences : Ty → List (String × Modifiers)
  | .param m name => [(name, m)]
  | .array _ elem => elem.occurrences
  | .keymap _ key value => key.occurrences ++ value.occurrences
  | .genericClass _ _ args => occurrencesAll args
  | .primitive .. | .plainClass .. | .null _ | .undefined _ | .void _ => []

def Ty.occurrencesAll : List Ty → List (String × Modifiers)
  | [] => []
  | t :: rest => t.occurrences ++ occurrencesAll rest

end

theorem Ty.occurrences_subset {t : Ty} {ts : List Ty} (listed : t ∈ ts) :
    t.occurrences ⊆ occurrencesAll ts := by
  induction ts with
  | nil => cases listed
  | cons first rest ih =>
    rcases List.mem_cons.1 listed with rfl | later
    · exact List.subset_append_left _ _
    · exact fun o inside => List.mem_append_right _ (ih later inside)

namespace Substitution

mutual

/-- Substitutions that replace the occurrences in a type alike replace the type alike. -/
theorem apply_congr {s s' : Substitution} : ∀ t : Ty,
    (∀ o ∈ t.occurrences, s.apply (.param o.2 o.1) = s'.apply (.param o.2 o.1)) →
      s.apply t = s'.apply t
  | .param _ _, same => same _ (List.mem_singleton_self _)
  | .array m elem, same => by rw [apply, apply, apply_congr elem same]
  | .keymap m key value, same => by
    obtain ⟨keys, values⟩ := List.forall_mem_append.1 same
    rw [apply, apply, apply_congr key keys, apply_congr value values]
  | .genericClass m name args, same => by rw [apply, apply, applyAll_congr args same]
  | .primitive .., _ | .plainClass .., _ | .null _, _ | .undefined _, _ | .void _, _ => by
    rw [apply, apply]

theorem applyAll_congr {s s' : Substitution} : ∀ ts : List Ty,
    (∀ o ∈ Ty.occurrencesAll ts, s.apply (.param o.2 o.1) = s'.apply (.param o.2 o.1)) →
      s.applyAll ts = s'.applyAll ts
  | [], _ => rfl
  | t :: rest, same => by
    obtain ⟨first, others⟩ := List.forall_mem_append.1 same
    rw [applyAll, applyAll, apply_congr t first, applyAll_congr rest others]

end

end Substitution

/-! ## Arguments -/

/-- A type with each type parameter replaced by the argument in its position, all at once. -/
def Ty.replacing (params : List String) (args : List Ty) (t : Ty) : Ty :=
  Substitution.apply ⟨params.zip args⟩ t

namespace Substitution

theorem get?_ofArgs {params : List String} (distinct : params.Nodup) (args : List Ty)
    (name : String) : (ofArgs params args).get? name = (params.zip args).lookup name := by
  induction params generalizing args with
  | nil => rfl
  | cons first rest ih =>
    cases args with
    | nil => rfl
    | cons arg args =>
      obtain ⟨fresh, distinct⟩ := List.nodup_cons.1 distinct
      have last : (ofArgs (first :: rest) (arg :: args)).get? name =
          ((rest.zip args).lookup name).or ([(first, arg)].lookup name) := by
        rw [← ih distinct args, get?, ofArgs, List.zip_cons_cons, List.reverse_cons,
          List.lookup_append]
        rfl
      rw [last, List.zip_cons_cons]
      by_cases same : name = first
      · subst same
        have unbound : (rest.zip args).lookup name = none :=
          List.lookup_eq_none_iff.2 fun binding listed =>
            bne_iff_ne.2 fun same => fresh (same ▸ (List.of_mem_zip listed).1)
        simp [unbound]
      · have differ : (name == first) = false := beq_false_of_ne same
        simp [List.lookup_cons, differ]

theorem apply_ofArgs {params : List String} (distinct : params.Nodup) (args : List Ty) (t : Ty) :
    (ofArgs params args).apply t = t.replacing params args := by
  refine apply_congr t fun o _ => ?_
  rw [apply, apply, get?_ofArgs distinct args]
  rfl

end Substitution

end ClassLang
