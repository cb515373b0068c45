import ClassLang.Proofs.Checking.Examinations
import ClassLang.Proofs.Checking.TreeParallels

/-!
What the extends clause of a class comes to, before its superclass has been examined. It depends on the
clause alone, and together with the verdict on the superclass it decides all the rest.
-/

namespace ClassLang

variable {p q : Program} {σ : Equiv.Perm Nat} {nodes : Sight} {scope : Scope} {s : CheckState}

/-! ## Extends clauses -/

/-- A class extends none, or its clause is refused, or it extends one; the fault is then reported if the
superclass is not sound. -/
inductive Standing where
  | root
  | refused (faults : List CheckError)
  | under (link : SuperclassLink) (fault : CheckError)

namespace Standing

def renumber (σ : Equiv.Perm Nat) : Standing → Standing
  | .root => .root
  | .refused faults => .refused faults
  | .under link fault => .under ⟨σ link.superclass, link.args⟩ fault

def superclass? : Standing → Option Nat
  | .root | .refused _ => none
  | .under link _ => some link.superclass

/-- Whether the superclass is sound, given the verdicts on classes. -/
def sound (verdict : Nat → Bool) : Standing → Bool
  | .root => true
  | .refused _ => false
  | .under link _ => verdict link.superclass

def faults (verdict : Nat → Bool) : Standing → List CheckError
  | .root => []
  | .refused faults => faults
  | .under link fault => if verdict link.superclass then [] else [fault]

def link? (verdict : Nat → Bool) : Standing → Option SuperclassLink
  | .root | .refused _ => none
  | .under link _ => if verdict link.superclass then some link else none

@[simp] theorem renumber_refl : renumber (Equiv.refl Nat) = id := by
  funext standing
  cases standing <;> rfl

theorem link?_superclass {standing : Standing} {verdict : Nat → Bool} {link : SuperclassLink}
    (linked : standing.link? verdict = some link) : standing.superclass? = some link.superclass := by
  cases standing with
  | root | refused _ => cases linked
  | under link fault =>
    dsimp only [link?] at linked
    split at linked <;> cases linked
    rfl

section Verdicts

variable {verdict verdict' : Nat → Bool} {standing : Standing}
  (same : ∀ j, standing.superclass? = some j → verdict' (σ j) = verdict j)
include same

theorem sound_renumber : (standing.renumber σ).sound verdict' = standing.sound verdict := by
  cases standing with
  | root | refused _ => rfl
  | under link fault => exact same _ rfl

theorem faults_renumber : (standing.renumber σ).faults verdict' = standing.faults verdict := by
  cases standing with
  | root | refused _ => rfl
  | under link fault =>
    have agreed := same link.superclass rfl
    simp only [renumber, faults, agreed]

theorem link?_renumber : (standing.renumber σ).link? verdict' =
    (standing.link? verdict).map fun link => ⟨σ link.superclass, link.args⟩ := by
  cases standing with
  | root | refused _ => rfl
  | under link fault =>
    have agreed := same link.superclass rfl
    simp only [renumber, link?, agreed]
    cases verdict link.superclass <;> rfl

end Verdicts

end Standing

def Program.standing (p : Program) (i : Nat) (written : TypeRef) (name : String) : Resolved → Standing
  | .error _ => .refused []
  | .ok type =>
    match p.classOf? type with
    | none => .refused []
    | some j => .under ⟨j, p.argsOf j type⟩
      ⟨written.span, .invalidSuperclass (p.classAt i).name.name name⟩

/-- The first half of the examination of a superclass, which does not examine it. -/
def resolveSuperclass (i : Nat) : Check Standing := do
  let p := (← read).program
  match (p.classAt i).superclass with
  | none => return .root
  | some written =>
    match p.superclassName i written with
    | .error e => return .refused [e]
    | .ok name => do
      let result ← withReader (fun scope => { scope with generics := (p.classAt i).params })
        written.resolve.run
      return p.standing i written name result

theorem exec_resolveSuperclass {i : Nat} (same : scope.program = p) :
    (resolveSuperclass i).exec scope s =
      match (p.classAt i).superclass with
      | none => (.root, s)
      | some written =>
        match p.superclassName i written with
        | .error e => (.refused [e], s)
        | .ok name =>
          match Check.exec written.resolve.run { scope with generics := (p.classAt i).params } s with
          | (result, t) => (p.standing i written name result, t) := by
  subst same
  unfold resolveSuperclass
  rw [Check.exec_bind, Check.exec_read]
  dsimp only
  cases (scope.program.classAt i).superclass with
  | none => rfl
  | some written =>
    dsimp only
    cases scope.program.superclassName i written <;> rfl

def Findings.linked (f : Findings) (i : Nat) (link? : Option SuperclassLink) : Findings :=
  link?.elim f (f.setSuperclass i)

/-- The state in which a class is left by the second half, which examines the superclass. -/
def CheckState.placed (s : CheckState) (i : Nat) (standing : Standing) (verdict : Nat → Bool) :
    CheckState :=
  { s with
    findings := s.findings.linked i (standing.link? verdict)
    errors := s.errors ++ standing.faults verdict }

theorem exec_checkSuperclass_halves {examine : Nat → Check Bool} {i : Nat} (same : scope.program = p)
    {standing : Standing} {t u : CheckState} {verdict : Nat → Bool}
    (first : (resolveSuperclass i).exec scope s = (standing, t))
    (second : match standing.superclass? with
      | none => u = t
      | some j => (examine j).exec scope t = (verdict j, u)) :
    (checkSuperclass examine i).exec scope s =
      (standing.sound verdict, u.placed i standing verdict) := by
  have unreported (u : CheckState) : u.placed i (.refused []) verdict = u := by
    simp [CheckState.placed, Findings.linked, Standing.link?,
      Standing.faults]
  rw [exec_resolveSuperclass same] at first
  cases extends_ : (p.classAt i).superclass with
  | none =>
    rw [extends_] at first
    cases first
    cases second
    rw [exec_checkSuperclass_none same extends_]
    simp [Standing.sound, CheckState.placed, Findings.linked, Standing.link?,
      Standing.faults]
  | some written =>
    rw [extends_] at first
    dsimp only at first
    rw [exec_checkSuperclass same extends_]
    cases legal : p.superclassName i written with
    | error e =>
      rw [legal] at first
      cases first
      cases second
      rfl
    | ok name =>
      rw [legal] at first
      dsimp only at first ⊢
      rcases run : Check.exec written.resolve.run _ s with ⟨e | type, t'⟩
      · rw [run] at first
        cases first
        cases second
        exact congrArg (Prod.mk false) (unreported _).symm
      rw [run] at first
      dsimp only [Program.standing] at first ⊢
      cases class_ : p.classOf? type with
      | none =>
        rw [class_] at first
        cases first
        cases second
        exact congrArg (Prod.mk false) (unreported _).symm
      | some j =>
        rw [class_] at first
        cases first
        change (examine j).exec scope t = (verdict j, u) at second
        dsimp only
        rw [second]
        cases sound : verdict j <;>
          simp [Standing.sound, CheckState.placed, Findings.linked, Standing.link?, Standing.faults,
            sound]

/-! ## What a clause says -/

/-- A class that gets past its clause is not on a cycle. -/
theorem Program.superclassName_acyclic {i : Nat} {written : TypeRef} {name : String}
    (legal : p.superclassName i written = .ok name) : p.inCycle i = false := by
  unfold superclassName at legal
  dsimp only at legal
  split at legal
  · cases legal
  split at legal
  · cases legal
  split at legal
  · cases legal
  split at legal
  · cases legal
  · rename_i acyclic
    exact Bool.eq_false_iff.2 acyclic

theorem resolveSuperclass_names {i j : Nat} (same : scope.program = p)
    (fresh : s.Fresh (p.superclassNodes i))
    (extends_ : ((resolveSuperclass i).exec scope s).1.superclass? = some j) :
    p.Names i j ∧ p.inCycle i = false := by
  rw [exec_resolveSuperclass same] at extends_
  cases clause : (p.classAt i).superclass with
  | none =>
    rw [clause] at extends_
    cases extends_
  | some written =>
    rw [clause] at extends_
    dsimp only at extends_
    cases legal : p.superclassName i written with
    | error e =>
      rw [legal] at extends_
      cases extends_
    | ok name =>
      refine ⟨?_, p.superclassName_acyclic legal⟩
      rw [legal] at extends_
      obtain ⟨named, free⟩ := Program.superclassName_ok legal
      have mine : written.node ∈ p.superclassNodes i := by
        rw [Program.superclassNodes, clause]
        exact written.node_mem_nodes
      dsimp only at extends_
      rcases run : Check.exec written.resolve.run _ s with ⟨e | type, t⟩
      · rw [run] at extends_
        cases extends_
      rw [run] at extends_
      obtain ⟨called, _⟩ := TypeRef.resolve_className named free (fresh _ mine) run
      unfold Program.standing at extends_
      dsimp only at extends_
      cases class_ : p.classOf? type with
      | none =>
        rw [class_] at extends_
        cases extends_
      | some j' =>
        rw [class_] at extends_
        cases extends_
        rw [Program.classOf?, called] at class_
        rw [Program.Names, Program.declaredSuperclass?, clause]
        exact (congrArg (Option.bind · p.theClass?) named).trans class_

theorem resolveSuperclass_parallel (h : p.Renumbered q σ) (nodes : Sight) (i : Nat)
    (inside : Inside nodes (p.superclassNodes i)) :
    Parallel p q σ nodes (Standing.renumber σ) (resolveSuperclass i) (resolveSuperclass (σ i)) := by
  refine .read fun scope same => ?_
  dsimp only
  rw [Scope.mirrored_program, same, h.classAt]
  cases extends_ : (p.classAt i).superclass with
  | none => exact .pure rfl
  | some written =>
    dsimp only
    rw [h.superclassName]
    cases p.superclassName i written with
    | error e => exact .pure rfl
    | ok name =>
      have mine : p.superclassNodes i = written.nodes := by
        rw [Program.superclassNodes, extends_]
        rfl
      have resolve := (written.resolve_along h (mine ▸ inside)).run
      refine .bind_same (.inner _ resolve (fun _ => rfl) fun _ => rfl) fun result => .pure ?_
      cases result with
      | error _ => rfl
      | ok type =>
        unfold Program.standing
        dsimp only
        rw [h.classOf?, h.classAt]
        cases p.classOf? type with
        | none => rfl
        | some j => exact congrArg (fun args => Standing.under ⟨σ j, args⟩ _) (h.argsOf j type)

/-! ## Members -/

section Members

variable (h : p.Renumbered q σ) {f g : Findings}
  (typeOf : ∀ t ∈ p.signature, g.typeOf t.id = f.typeOf t.id)

theorem Findings.ancestors_if {i : Nat} {sound : Bool}
    (ancestors : sound = true → g.ancestors (σ i) = (f.ancestors i).map (.renumber σ)) :
    (if sound then g.ancestors (σ i) else []) =
      (if sound then f.ancestors i else []).map (.renumber σ) := by
  cases sound with
  | true => exact ancestors rfl
  | false => rfl

include typeOf in
theorem Findings.signature?_declared {i : Nat} {m : Method} (declared : m ∈ (p.classAt i).methods) :
    g.signature? m = f.signature? m :=
  Findings.signature?_congr fun t written => typeOf t (Program.signature_of_mem declared written)

include h

theorem Program.Renumbered.inheritedFieldFaults (c : Class) (ancestors : List Ancestor) :
    q.inheritedFieldFaults c (ancestors.map (.renumber σ)) = p.inheritedFieldFaults c ancestors := by
  have classes : (ancestors.map (Ancestor.renumber σ)).map (fun a => q.classAt a.index) =
      ancestors.map fun a => p.classAt a.index := by
    rw [List.map_map]
    exact List.map_congr_left fun a _ => h.classAt a.index
  simp only [Program.inheritedFieldFaults, Program.inheritedField?, classes]

include typeOf

theorem Program.Renumbered.overridden? (ancestors : List Ancestor) (name : String)
    (params : List Ty) : q.overridden? g (ancestors.map (.renumber σ)) name params =
      p.overridden? f ancestors name params := by
  unfold Program.overridden?
  rw [List.findSome?_map]
  refine congrArg (List.findSome? · ancestors) (funext fun a => ?_)
  rw [Function.comp_apply, Ancestor.renumber, h.classAt]
  exact findSome?_congr fun m declared => by rw [Findings.signature?_declared typeOf declared]

theorem Program.Renumbered.methodFaults {i : Nat} {m : Method} (declared : m ∈ (p.classAt i).methods)
    (sound : Bool) (ancestors : List Ancestor) :
    q.methodFaults g (p.classAt i) sound (ancestors.map (.renumber σ)) m =
      p.methodFaults f (p.classAt i) sound ancestors m := by
  have signature := Findings.signature?_declared typeOf declared
  simp only [Program.methodFaults, Program.overrideFaults, signature, h.overridden? typeOf]

theorem Program.Renumbered.shadowsVirtual {i : Nat} {m : Method}
    (declared : m ∈ (p.classAt i).methods) (ancestors : List Ancestor) :
    q.shadowsVirtual g (ancestors.map (.renumber σ)) m = p.shadowsVirtual f ancestors m := by
  have signature := Findings.signature?_declared typeOf declared
  simp only [Program.shadowsVirtual, signature, h.overridden? typeOf]

variable {i : Nat} {sound : Bool}
  (ancestors : sound = true → g.ancestors (σ i) = (f.ancestors i).map (.renumber σ))
include ancestors

theorem Program.Renumbered.memberFaults : q.memberFaults g (σ i) sound = p.memberFaults f i sound := by
  have seen := Findings.ancestors_if ancestors
  simp only [Program.memberFaults, h.classAt, seen, h.inheritedFieldFaults]
  rw [List.flatMap_congr fun m declared => h.methodFaults typeOf declared sound _]

theorem Program.Renumbered.shadowWarnings :
    q.shadowWarnings g (σ i) sound = p.shadowWarnings f i sound := by
  have seen := Findings.ancestors_if ancestors
  simp only [Program.shadowWarnings, h.classAt, seen]
  rw [List.filter_congr fun m declared => by rw [h.shadowsVirtual typeOf declared]]

end Members

section Later

variable {f g : Findings} {i : Nat} (ancestors : g.ancestors i = f.ancestors i)
  (typeOf : ∀ t ∈ p.signature, g.typeOf t.id = f.typeOf t.id) (sound : Bool)
include ancestors typeOf

theorem Program.memberFaults_congr : p.memberFaults g i sound = p.memberFaults f i sound :=
  (Program.Renumbered.refl p).memberFaults typeOf fun _ => ancestors.trans (List.map_id' _).symm

theorem Program.shadowWarnings_congr : p.shadowWarnings g i sound = p.shadowWarnings f i sound :=
  (Program.Renumbered.refl p).shadowWarnings typeOf fun _ => ancestors.trans (List.map_id' _).symm

end Later

end ClassLang
