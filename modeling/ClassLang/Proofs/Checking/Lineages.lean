import ClassLang.Proofs.Checking.Surveys
import Mathlib.Order.WellFoundedSet

/-!
Two examinations of the same classes, in different orders, come to the same. A class on no cycle stands
below its superclass, so the verdicts, the links and the chains agree from the roots downwards.
-/

namespace ClassLang

variable {p q : Program} {σ : Equiv.Perm Nat} {scope : Scope} {s t s' t' : CheckState}

/-! ## Programs -/

namespace Program.Renumbered

variable (h : p.Renumbered q σ)
include h

theorem classes_perm : q.classes.Perm p.classes := by
  obtain ⟨order, perm, indices⟩ := h.order
  have same : order.map (q.classAt ∘ σ) = order.map p.classAt :=
    List.map_congr_left fun i _ => h.classAt i
  rw [← q.map_classAt, ← p.map_classAt, indices, List.map_map, same]
  exact perm.map _

theorem nodes_perm : q.nodes.Perm p.nodes := by
  rw [Program.nodes, Program.nodes, h.functions, h.statements]
  exact ((h.classes_perm.flatMap_right _).append_right _).append_right _

theorem distinct (distinct : Distinct p.nodes) : Distinct q.nodes := distinct.perm h.nodes_perm.symm

theorem mem_signature {w : TypeRef} : w ∈ q.signature ↔ w ∈ p.signature := by
  rw [Program.signature, Program.signature, h.functions]
  exact ((h.classes_perm.flatMap_right _).append_right _).mem_iff

theorem superclassNodes (i : Nat) : q.superclassNodes (σ i) = p.superclassNodes i := by
  rw [Program.superclassNodes, Program.superclassNodes, h.classAt]

end Program.Renumbered

/-- What holds of a class if it holds of the class that it extends, unless it lies on a cycle, holds of
all classes. -/
theorem Program.names_induction {motive : Nat → Prop}
    (step : ∀ i, (∀ j, p.Names i j → p.inCycle i = false → motive j) → motive i) (i : Nat) :
    motive i := by
  let above (j i : Nat) : Prop :=
    Relation.TransGen (fun i j => p.Names i j ∧ p.inCycle i = false) i j
  have strict : IsStrictOrder Nat above :=
    { irrefl := fun i cycle => by
        obtain ⟨_, ⟨_, acyclic⟩, _⟩ := Relation.TransGen.head'_iff.1 cycle
        have whole : Relation.TransGen p.Names i i :=
          Relation.TransGen.mono (fun _ _ names => names.1) i i cycle
        rw [inCycle_iff.2 whole] at acyclic
        cases acyclic
      trans := fun _ _ _ first second => second.trans first }
  have founded := (List.finite_toSet p.classIndices).wellFoundedOn (r := above)
  by_cases listed : i ∈ p.classIndices
  · exact founded.induction listed fun k _ ih => step k fun j names acyclic =>
      ih j names.mem (.single ⟨names, acyclic⟩)
  · exact step i fun j names _ => absurd names.mem_left listed

/-! ## Ancestors -/

theorem Findings.ancestors_linked {f : Findings} (h : Chained f.superclasses.bindings) (i : Nat) :
    f.ancestors i =
      match f.superclass? i with
      | none => []
      | some link =>
        ⟨link.superclass, link.args⟩ :: (f.ancestors link.superclass).map (·.under link.args) := by
  rw [ancestors_eq h, h.lineOf_eq]
  cases linked : f.superclass? i with
  | none =>
    have unlinked : f.superclasses.bindings.lookup i = none := linked
    rw [unlinked]
  | some link =>
    have found : f.superclasses.bindings.lookup i = some link := linked
    rw [found]
    dsimp only
    rw [ancestors_eq h]

/-- The same place among the others. -/
structure SamePlace (σ : Equiv.Perm Nat) (f g : Findings) (i : Nat) : Prop where
  mark : g.mark (σ i) = f.mark i
  ancestors : g.ancestors (σ i) = (f.ancestors i).map (.renumber σ)

theorem SamePlace.sound {f g : Findings} {i : Nat} (h : SamePlace σ f g i) :
    g.sound (σ i) = f.sound i := by
  rw [Findings.sound, Findings.sound, h.mark]

/-! ## Two examinations -/

/-- Two examinations of all classes, from two states that agree. -/
structure Paired (p q : Program) (σ : Equiv.Perm Nat) (scope : Scope) (s t s' t' : CheckState) :
    Prop where
  renumbered : p.Renumbered q σ
  program : scope.program = p
  distinct : Distinct p.nodes
  before : Agree σ s t
  untouched : s.Untouched p
  here : Survey scope s [] p.classIndices s'
  there : Survey (scope.mirrored q σ) t [] q.classIndices t'

namespace Paired

variable (pair : Paired p q σ scope s t s' t')
include pair

theorem alike (i : Nat) : Alike σ .full (Standing.renumber σ) s t ((resolveSuperclass i).exec scope s)
    ((resolveSuperclass (σ i)).exec (scope.mirrored q σ) t) :=
  resolveSuperclass_parallel pair.renumbered .full _ (fun _ _ => trivial) scope s t pair.program
    pair.before.findings

theorem standing (i : Nat) :
    (scope.mirrored q σ).standing t (σ i) = (scope.standing s i).renumber σ := (pair.alike i).result

theorem typeOf : ∀ w ∈ p.signature, t'.findings.typeOf w.id = s'.findings.typeOf w.id := by
  obtain ⟨h, same, distinct, before, _, here, there⟩ := pair
  subst same
  intro w written
  refine (there.typeOf (h.distinct distinct) w (h.mem_signature.2 written)).trans ?_
  exact (before.findings.node w.id trivial).typeOf.trans (here.typeOf distinct w written).symm

section Below

variable {i : Nat} (above : ∀ j, (scope.standing s i).superclass? = some j →
  SamePlace σ s'.findings t'.findings j)
include above

theorem superclassSound : (scope.mirrored q σ).superclassSound t t'.findings (σ i) =
    scope.superclassSound s s'.findings i := by
  rw [Scope.superclassSound, pair.standing]
  exact Standing.sound_renumber fun j extends_ => (above j extends_).sound

theorem link? (listed : i ∈ p.classIndices) : t'.findings.superclass? (σ i) =
    (s'.findings.superclass? i).map fun link => ⟨σ link.superclass, link.args⟩ := by
  rw [(pair.here.placed i listed).link,
    (pair.there.placed (σ i) ((pair.renumbered.mem_classIndices i).2 listed)).link, pair.standing]
  exact Standing.link?_renumber fun j extends_ => (above j extends_).sound

theorem ancestors (listed : i ∈ p.classIndices) :
    t'.findings.ancestors (σ i) = (s'.findings.ancestors i).map (.renumber σ) := by
  rw [Findings.ancestors_linked pair.here.chained, Findings.ancestors_linked pair.there.chained,
    pair.link? above listed]
  cases linked : s'.findings.superclass? i with
  | none => rfl
  | some link =>
    have extends_ : (scope.standing s i).superclass? = some link.superclass :=
      Standing.link?_superclass ((pair.here.placed i listed).link.symm.trans linked)
    dsimp only [Option.map_some]
    rw [(above _ extends_).ancestors, List.map_cons, List.map_map, List.map_map]
    rfl

theorem memberFaults (listed : i ∈ p.classIndices) :
    q.memberFaults t'.findings (σ i)
        ((scope.mirrored q σ).superclassSound t t'.findings (σ i)) =
      p.memberFaults s'.findings i (scope.superclassSound s s'.findings i) := by
  rw [pair.superclassSound above]
  exact pair.renumbered.memberFaults pair.typeOf fun _ => pair.ancestors above listed

theorem samePlace (listed : i ∈ p.classIndices) : SamePlace σ s'.findings t'.findings i where
  mark := by
    have here := (pair.here.placed i listed).mark
    rw [pair.program] at here
    rw [here, (pair.there.placed (σ i) ((pair.renumbered.mem_classIndices i).2 listed)).mark,
      Scope.mirrored_program, pair.memberFaults above listed, pair.superclassSound above]
  ancestors := pair.ancestors above listed

end Below

theorem samePlace_outside {i : Nat} (outside : i ∉ p.classIndices) :
    SamePlace σ s'.findings t'.findings i := by
  have there : σ i ∉ q.classIndices := outside ∘ (pair.renumbered.mem_classIndices i).1
  refine ⟨(pair.there.rest _ there).trans (pair.here.rest i outside).symm, ?_⟩
  rw [Findings.ancestors_linked pair.here.chained, Findings.ancestors_linked pair.there.chained,
    pair.here.unlinked outside, pair.there.unlinked there]
  rfl

/-- Each class has the same place in the end. -/
theorem samePlaces (i : Nat) : SamePlace σ s'.findings t'.findings i := by
  induction i using p.names_induction with
  | step i ih =>
    by_cases listed : i ∈ p.classIndices
    · refine pair.samePlace (fun j extends_ => ?_) listed
      obtain ⟨names, acyclic⟩ :=
        resolveSuperclass_names pair.program (pair.untouched.fresh i) extends_
      exact ih j names acyclic
    · exact pair.samePlace_outside listed

theorem faultsOf {i : Nat} (listed : i ∈ p.classIndices) :
    (scope.mirrored q σ).faultsOf t t'.findings (σ i) = scope.faultsOf s s'.findings i := by
  have above (j : Nat) (_ : (scope.standing s i).superclass? = some j) := pair.samePlaces j
  have faults : ((scope.mirrored q σ).standing t (σ i)).faults t'.findings.sound =
      (scope.standing s i).faults s'.findings.sound := by
    rw [pair.standing]
    exact Standing.faults_renumber fun j extends_ => (above j extends_).sound
  rw [Scope.faultsOf, Scope.faultsOf, faults, Scope.mirrored_program, pair.memberFaults above listed,
    pair.program]
  exact congrArg (· ++ _) (pair.alike i).newErrors_eq

theorem warningsOf (i : Nat) :
    (scope.mirrored q σ).warningsOf t t'.findings (σ i) = scope.warningsOf s s'.findings i := by
  have warnings (sound : Bool) : q.shadowWarnings t'.findings (σ i) sound =
      p.shadowWarnings s'.findings i sound :=
    pair.renumbered.shadowWarnings pair.typeOf fun _ => (pair.samePlaces i).ancestors
  rw [Scope.warningsOf, Scope.warningsOf, Scope.mirrored_program,
    pair.superclassSound fun j _ => pair.samePlaces j, warnings, pair.program]
  exact congrArg (· ++ _) (pair.alike i).newWarnings_eq

theorem node (id : Nat) : s'.findings.MirrorsAt σ t'.findings id := by
  have alike := pair.alike
  obtain ⟨h, same, _, before, _, here, there⟩ := pair
  subst same
  by_cases mine : ∃ i ∈ scope.program.classIndices,
      id ∈ (scope.program.superclassNodes i).map Node.id
  · obtain ⟨i, listed, inside⟩ := mine
    obtain ⟨n, written, rfl⟩ := List.mem_map.1 inside
    have first := here.mine i listed n written
    have last := there.mine (σ i) ((h.mem_classIndices i).2 listed) n
      ((h.superclassNodes i).symm ▸ written)
    exact first.symm.trans (((alike i).findings.node n.id trivial).trans last)
  · have first := here.others id fun i listed written => mine ⟨i, listed, written⟩
    have last := there.others id fun i listed written => ?_
    · exact first.symm.trans ((before.findings.node id trivial).trans last)
    · obtain ⟨i, rfl⟩ := σ.surjective i
      refine mine ⟨i, (h.mem_classIndices i).1 listed, ?_⟩
      rwa [← h.superclassNodes i]

theorem agree : Agree σ s' t' where
  findings :=
    { node := fun id _ => pair.node id
      chain := fun _ i => by
        rw [Findings.chain, Findings.chain, (pair.samePlaces i).ancestors]
        rfl
      mark := fun _ i => (pair.samePlaces i).mark }
  errors := by
    refine pair.here.errors.trans (.trans ?_ pair.there.errors.symm)
    refine pair.before.errors.append ?_
    have told := (pair.renumbered.indices.flatMap_right
      ((scope.mirrored q σ).faultsOf t t'.findings)).symm
    rw [List.flatMap_map, List.flatMap_congr fun i listed => pair.faultsOf listed] at told
    exact told
  warnings := by
    refine pair.here.warnings.trans (.trans ?_ pair.there.warnings.symm)
    refine pair.before.warnings.append ?_
    have told := (pair.renumbered.indices.flatMap_right
      ((scope.mirrored q σ).warningsOf t t'.findings)).symm
    rw [List.flatMap_map, List.flatMap_congr fun i _ => pair.warningsOf i] at told
    exact told

end Paired

end ClassLang
