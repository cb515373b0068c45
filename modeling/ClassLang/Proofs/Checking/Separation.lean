import ClassLang.Proofs.Checking.DeclarationParallels

/-!
Checks of the classes one after the other, each with nodes of its own. What one of them comes to does
not depend on those before it, so their order does not matter.
-/

namespace ClassLang

variable {p q : Program} {σ : Equiv.Perm Nat} {own : Subject → Prop}

/-! ## What a run leaves as it was -/

/-- The nodes that entries may be made about. -/
def Mine (own : Subject → Prop) (id : Nat) : Prop := own (.node id) ∨ own (.type id)

namespace Findings

variable {f g : Findings} {id n : Nat}

theorem MirrorsAt.of_eq (validity : g.validity id = f.validity id) (typeOf : g.typeOf id = f.typeOf id)
    (failed : id ∈ g.failures ↔ id ∈ f.failures) (resolution : g.resolution id = f.resolution id) :
    f.MirrorsAt (Equiv.refl Nat) g id :=
  ⟨validity, typeOf, failed, by rw [resolution]; simp [funext Decl.renumber_refl]⟩

theorem setValid_spares (apart : id ≠ n) (valid : Bool) :
    f.MirrorsAt (Equiv.refl Nat) (f.setValid n valid) id := by
  refine .of_eq ?_ ?_ ?_ (f.setValid_resolution n id valid)
  · rw [validity_setValid, if_neg apart]
  · simp [typeOf]
  · simp

theorem record_spares (apart : id ≠ n) (result : Resolved) :
    f.MirrorsAt (Equiv.refl Nat) (f.record n result) id := by
  refine .of_eq ?_ ?_ (f.mem_record_failures result apart) (f.resolution_record n id result)
  · rw [validity_record, (setValid_spares apart result.isOk).validity]
  · rw [typeOf_record, if_neg apart]

end Findings

theorem Entry.spares {f g : Findings} (h : Entry own f g) {id : Nat} (node : ¬own (.node id))
    (type : own (.type id) → (f.cached id).isSome = true) :
    f.MirrorsAt (Equiv.refl Nat) g id := by
  have apart {n : Nat} (mine : own (.node n)) : id ≠ n := fun same => node (same ▸ mine)
  cases h with
  | setValid n valid mine => exact Findings.setValid_spares (apart mine) valid
  | record n result mine => exact Findings.record_spares (apart mine) result
  | resolve n result mine fresh =>
    refine Findings.record_spares (fun same => ?_) result
    subst same
    rw [fresh] at type
    cases type mine
  | refer n decl mine =>
    exact .of_eq rfl rfl Iff.rfl ((Table.get?_insert ..).trans (if_neg (apart mine)))
  | instantiate name args =>
    obtain ⟨_, same⟩ := f.instantiate_eq name args
    rw [same]
    exact .of_eq rfl rfl Iff.rfl rfl
  | setAlias _ _ _ | useClass _ | number _ _ | setMark _ _ _ | setSuperclass _ _ _ =>
    exact .of_eq rfl rfl Iff.rfl rfl

theorem Steps.spares {s t : CheckState} (h : Steps own s t) {id : Nat} (node : ¬own (.node id))
    (type : own (.type id) → (s.findings.cached id).isSome = true) :
    s.findings.MirrorsAt (Equiv.refl Nat) t.findings id := by
  refine h.findings_keep (P := (s.findings.MirrorsAt (Equiv.refl Nat) · id)) (fun f g entry kept => ?_)
    (.refl _ _)
  exact kept.trans (entry.spares node fun mine => kept.cached ▸ type mine)

/-! ## Separate checks -/

/-- Checks of the classes of a program, in whichever order it has them. Each of them reads, apart from
nodes of its own, only shared nodes, and those it leaves alone once they are known. -/
structure Separate (p : Program) (check : Nat → Check Bool) (own : Nat → Subject → Prop)
    (shared : Nat → Prop) : Prop where
  within : ∀ {q σ}, p.Renumbered q σ → ∀ i ∈ p.classIndices, ∀ {scope : Scope} (t : CheckState),
    scope.program = q → Steps (own i) t ((check (σ i)).exec scope t).2
  parallel : ∀ {q σ}, p.Renumbered q σ → ∀ i ∈ p.classIndices, ∀ {nodes : Sight},
    (∀ id, shared id → nodes id) → (∀ id, Mine (own i) id → nodes id) → nodes.classes →
      Parallel p q σ nodes id (check i) (check (σ i))
  apart : ∀ i ∈ p.classIndices, ∀ j ∈ p.classIndices, i ≠ j → ∀ id, Mine (own i) id →
    ¬Mine (own j) id
  spared : ∀ i ∈ p.classIndices, ∀ id, shared id → ¬own i (.node id)
  places : ∀ i k, ¬own i (.class k)

/-- What has been reported from one state to another. -/
def CheckState.newErrors (s t : CheckState) : List CheckError := t.errors.drop s.errors.length

def CheckState.newWarnings (s t : CheckState) : List Warning := t.warnings.drop s.warnings.length

section Reports

variable {α β : Type} {nodes : Sight} {ren : α → β} {s t : CheckState} {outcome : α × CheckState}
  {other : β × CheckState} (alike : Alike σ nodes ren s t outcome other)
include alike

theorem Alike.newErrors : outcome.2.errors = s.errors ++ s.newErrors outcome.2 ∧
    other.2.errors = t.errors ++ s.newErrors outcome.2 := by
  obtain ⟨es, reported, reported', _⟩ := alike.errors
  rw [CheckState.newErrors, reported, List.drop_left]
  exact ⟨rfl, reported'⟩

theorem Alike.newWarnings : outcome.2.warnings = s.warnings ++ s.newWarnings outcome.2 ∧
    other.2.warnings = t.warnings ++ s.newWarnings outcome.2 := by
  obtain ⟨ws, warned, warned'⟩ := alike.warnings
  rw [CheckState.newWarnings, warned, List.drop_left]
  exact ⟨rfl, warned'⟩

theorem Alike.newErrors_eq : t.newErrors other.2 = s.newErrors outcome.2 := by
  rw [CheckState.newErrors, alike.newErrors.2, List.drop_left]

theorem Alike.newWarnings_eq : t.newWarnings other.2 = s.newWarnings outcome.2 := by
  rw [CheckState.newWarnings, alike.newWarnings.2, List.drop_left]

end Reports

/-- What the checks of some classes come to, one after the other, in terms of what each of them comes to
from one and the same state. -/
structure Assembled (σ : Equiv.Perm Nat) (own : Nat → Subject → Prop) (s : CheckState)
    (alone : Nat → Bool × CheckState) (items : List Nat) (t : CheckState)
    (outcome : List Bool × CheckState) : Prop where
  results : outcome.1 = items.map fun i => (alone i).1
  errors : outcome.2.errors = t.errors ++ items.flatMap fun i => s.newErrors (alone i).2
  warnings : outcome.2.warnings = t.warnings ++ items.flatMap fun i => s.newWarnings (alone i).2
  mine : ∀ i ∈ items, ∀ id, Mine (own i) id →
    (alone i).2.findings.MirrorsAt σ outcome.2.findings id
  others : ∀ id, (∀ i ∈ items, ¬Mine (own i) id) →
    t.findings.MirrorsAt (Equiv.refl Nat) outcome.2.findings id
  links : outcome.2.findings.superclasses = t.findings.superclasses
  marks : ∀ k, outcome.2.findings.mark k = t.findings.mark k

/-- Two states that agree on everything, up to the numbers of classes and the order of reports. -/
structure Agree (σ : Equiv.Perm Nat) (s t : CheckState) : Prop where
  findings : s.findings.MirrorsOn σ .full t.findings
  errors : s.errors.Perm t.errors
  warnings : s.warnings.Perm t.warnings

namespace Separate

variable {check : Nat → Check Bool} {own : Nat → Subject → Prop} {shared : Nat → Prop}
  {scope : Scope} {s : CheckState} (sep : Separate p check own shared)
include sep

section Step

variable (h : p.Renumbered q σ) {i : Nat} (here : i ∈ p.classIndices) {t : CheckState}
include h here

/-- The check of a class comes to what it would have come to in the given state. -/
theorem alike (same : scope.program = p)
    (start : s.findings.MirrorsOn σ ⟨fun id => shared id ∨ Mine (own i) id, True⟩ t.findings) :
    Alike σ ⟨fun id => shared id ∨ Mine (own i) id, True⟩ id s t ((check i).exec scope s)
      ((check (σ i)).exec (scope.mirrored q σ) t) := by
  refine sep.parallel h i here (fun _ inside => ?_) (fun _ mine => ?_) trivial scope s t same start
  · exact .inl inside
  · exact .inr mine

theorem steps (scope : Scope) (t : CheckState) :
    Steps (own i) t ((check (σ i)).exec (scope.mirrored q σ) t).2 :=
  sep.within h i here t rfl

theorem spares_others {id : Nat} (other : ¬Mine (own i) id) : t.findings.MirrorsAt (Equiv.refl Nat)
    ((check (σ i)).exec (scope.mirrored q σ) t).2.findings id :=
  (sep.steps h here scope t).spares (fun mine => other (.inl mine)) fun mine => absurd (.inr mine) other

theorem spares_shared {id : Nat} (inside : shared id) (known : (t.findings.cached id).isSome = true) :
    t.findings.MirrorsAt (Equiv.refl Nat) ((check (σ i)).exec (scope.mirrored q σ) t).2.findings id :=
  (sep.steps h here scope t).spares (sep.spared i here id inside) fun _ => known

/-- After the check of one class, the same is known of all that the rest of them read. -/
theorem start_rest (scope : Scope) {rest : List Nat} (later : rest ⊆ p.classIndices)
    (first : i ∉ rest)
    (known : ∀ id, shared id → (s.findings.cached id).isSome = true)
    (start : s.findings.MirrorsOn σ ⟨fun id => shared id ∨ ∃ j ∈ i :: rest, Mine (own j) id, True⟩
      t.findings) :
    s.findings.MirrorsOn σ ⟨fun id => shared id ∨ ∃ j ∈ rest, Mine (own j) id, True⟩
      ((check (σ i)).exec (scope.mirrored q σ) t).2.findings where
  node id inside := by
    have before := start.node id (inside.imp_right fun ⟨j, below, mine⟩ =>
      ⟨j, List.mem_cons_of_mem i below, mine⟩)
    rcases inside with isShared | ⟨j, below, mine⟩
    · exact before.trans (sep.spares_shared h here isShared (before.cached ▸ known id isShared))
    · refine before.trans (sep.spares_others h here fun mine' => ?_)
      have differ : i ≠ j := fun same => first (same ▸ below)
      exact sep.apart i here j (later below) differ id mine' mine
  chain _ k := by
    have links := (sep.steps h here scope t).superclasses_eq (sep.places i)
    rw [Findings.chain, Findings.chain, Findings.ancestors_congr links]
    exact start.chain trivial k
  mark _ k := ((sep.steps h here scope t).mark_eq (sep.places i _)).trans (start.mark trivial k)

end Step

theorem assembled (h : p.Renumbered q σ) (same : scope.program = p)
    (known : ∀ id, shared id → (s.findings.cached id).isSome = true) (items : List Nat)
    (listed : items ⊆ p.classIndices) (nodup : items.Nodup) (t : CheckState)
    (start : s.findings.MirrorsOn σ ⟨fun id => shared id ∨ ∃ i ∈ items, Mine (own i) id, True⟩
      t.findings) :
    Assembled σ own s (fun i => (check i).exec scope s) items t
      (((items.map σ).mapM check).exec (scope.mirrored q σ) t) := by
  induction items generalizing t with
  | nil =>
    rw [List.map_nil, Check.exec_mapM_nil]
    exact ⟨rfl, (List.append_nil _).symm, (List.append_nil _).symm, fun _ => nofun,
      fun _ _ => .refl _ _, rfl, fun _ => rfl⟩
  | cons i rest ih =>
    obtain ⟨first, later⟩ := List.nodup_cons.1 nodup
    obtain ⟨here, others⟩ := List.cons_subset.1 listed
    -- The first class is checked as from the given state, and reads nothing that has changed since.
    have alike := sep.alike h here same
      (start.mono (fun id inside => inside.imp_right fun mine => ⟨i, List.mem_cons_self .., mine⟩) id)
    have steps := sep.steps h here scope t
    have after := ih others later _ (sep.start_rest h here scope others first known start)
    rw [List.map_cons, Check.exec_mapM_cons]
    refine ⟨?_, ?_, ?_, fun j below id mine => ?_, fun id none => ?_,
      after.links.trans (steps.superclasses_eq (sep.places i)),
      fun k => (after.marks k).trans (steps.mark_eq (sep.places i k))⟩
    · rw [after.results, List.map_cons]
      exact congrArg (· :: _) alike.result
    · rw [after.errors, List.flatMap_cons, ← List.append_assoc]
      exact congrArg (· ++ _) alike.newErrors.2
    · rw [after.warnings, List.flatMap_cons, ← List.append_assoc]
      exact congrArg (· ++ _) alike.newWarnings.2
    · rcases List.mem_cons.1 below with rfl | below
      · refine (alike.findings.node id (.inr mine)).trans (after.others id fun k later mine' => ?_)
        exact sep.apart j here k (others later) (fun same => first (same ▸ later)) id mine mine'
      · exact after.mine j below id mine
    · exact (sep.spares_others h here (none i (List.mem_cons_self ..))).trans
        (after.others id fun j below => none j (List.mem_cons_of_mem i below))

/-- In the two orders the checks come to the same. -/
theorem agree (h : p.Renumbered q σ) {order : List Nat} (perm : order.Perm p.classIndices)
    (indices : q.classIndices = order.map σ) (same : scope.program = p)
    (known : ∀ id, shared id → (s.findings.cached id).isSome = true) {t : CheckState}
    (before : Agree σ s t) :
    (∃ verdict : Nat → Bool,
      ((p.classIndices.mapM check).exec scope s).1 = p.classIndices.map verdict ∧
        ((q.classIndices.mapM check).exec (scope.mirrored q σ) t).1 = order.map verdict) ∧
      Agree σ ((p.classIndices.mapM check).exec scope s).2
        ((q.classIndices.mapM check).exec (scope.mirrored q σ) t).2 := by
  have there := sep.assembled h same known order perm.subset (perm.nodup_iff.2 List.nodup_range) t
    (before.findings.mono (fun _ _ => trivial) id)
  have here := sep.assembled (.refl p) same known p.classIndices (List.Subset.refl _)
    List.nodup_range s (.refl _)
  rw [Scope.mirrored_self same, show p.classIndices.map (Equiv.refl Nat) = p.classIndices from
    List.map_id _] at here
  rw [← indices] at there
  refine ⟨⟨_, here.results, there.results⟩, ⟨fun id _ => ?_, fun _ i => ?_, fun _ i => ?_⟩, ?_, ?_⟩
  · by_cases mine : ∃ i ∈ p.classIndices, Mine (own i) id
    · obtain ⟨i, listed, mine⟩ := mine
      exact (here.mine i listed id mine).symm.trans (there.mine i (perm.mem_iff.2 listed) id mine)
    · have none (i : Nat) (listed : i ∈ p.classIndices) : ¬Mine (own i) id :=
        fun mine' => mine ⟨i, listed, mine'⟩
      have unchanged := (here.others id none).symm.trans (before.findings.node id trivial)
      exact unchanged.trans (there.others id fun i listed => none i (perm.mem_iff.1 listed))
  · rw [Findings.chain, Findings.chain, Findings.ancestors_congr here.links,
      Findings.ancestors_congr there.links]
    exact before.findings.chain trivial i
  · rw [here.marks, there.marks]
    exact before.findings.mark trivial i
  · rw [here.errors, there.errors]
    exact before.errors.append (perm.symm.flatMap_right _)
  · rw [here.warnings, there.warnings]
    exact before.warnings.append (perm.symm.flatMap_right _)

end Separate

end ClassLang
