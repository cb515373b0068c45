import ClassLang.Proofs.Checking.Phases
import ClassLang.Proofs.Parsing.Numbering

/-!
A program is sound according to its verdict exactly if no error is reported. After each phase the
state is clean or dirty, as the verdicts so far have it.
-/

namespace ClassLang

variable {α : Type} {p : Program}

/-! ## Verdicts so far -/

def CheckState.Tells (s : CheckState) (sound : Bool) : Prop :=
  sound = true ∧ s.Clean ∨ sound = false ∧ s.Dirty

theorem CheckState.Tells.noted {s : CheckState} {sound : Bool} (h : s.Tells sound) (event : Event) :
    (s.noted event).Tells sound := h

theorem Honest.tells {own : Subject → Prop} {given : CheckState → Prop} {x : Check α}
    (flag : α → Bool) {scope : Scope} {s : CheckState} {sound : Bool}
    (h : Honest p own given x (flag · = true) (flag · = false)) (tidy : scope.Clean p)
    (before : s.Tells sound) (holds : s.Clean → given s) :
    (x.exec scope s).2.Tells (sound && flag (x.exec scope s).1) := by
  rcases before with ⟨rfl, clean⟩ | ⟨rfl, dirty⟩
  · rcases h.faithful scope s tidy clean (holds clean) with ⟨fine, after⟩ | ⟨faulty, after⟩
    · exact .inl ⟨fine, after⟩
    · exact .inr ⟨faulty, after⟩
  · exact .inr ⟨rfl, (h.within scope s tidy.program).dirty dirty⟩

theorem Scope.top_clean (p : Program) (settings : Settings) : (Scope.top p settings).Clean p :=
  ⟨rfl, fun _ _ => nofun, fun _ => nofun⟩

namespace Phase

variable (settings : Settings)

theorem named_tells (p : Program) :
    (named p settings).2.Tells ((named p settings).1.all id) := by
  have empty : CheckState.empty.Clean := ⟨rfl, fun _ => nofun, fun _ => nofun⟩
  have silent : Honest p (fun _ => False) (fun _ => True) (reportAll p.redeclarations) (· = true)
      (· = false) := .reportAll
  have reported : ((reportAll p.redeclarations).exec (.top p settings) .empty).2.Tells
      p.redeclarations.isEmpty :=
    silent.tells id (Scope.top_clean p settings) (.inl ⟨rfl, empty⟩) fun _ => trivial
  have checked := checkNames_honest.tells (List.all · id) (Scope.top_clean p settings) reported fun clean => clean.1
  have same : (p.redeclarations.isEmpty && (named p settings).1.all id) = (named p settings).1.all id := by
    cases sound : (named p settings).1.all id with
    | false => exact Bool.and_false _
    | true =>
      rw [Phase.named_sound settings sound]
      rfl
  rw [← same]
  exact checked

variable (distinct : Distinct p.nodes)
include distinct

theorem functionsTyped_tells : (functionsTyped p settings).2.Tells
    ((named p settings).1.all id && (typed p settings).1.all id &&
      (functionsTyped p settings).1.all id) := by
  have tidy := Scope.top_clean p settings
  have classes := (classSignatures_honest distinct).tells (List.all · id) tidy
    ((named_tells settings p).noted .resolvingSignatures) fun _ => trivial
  exact (functionSignatures_honest distinct).tells (List.all · id) tidy classes fun _ => trivial

theorem functionsTyped_idle : (functionsTyped p settings).2.Idle p := by
  have parts := (Program.distinct_parts distinct).right
  have steps := functionsTyped_steps settings distinct
  have supers : (functionsTyped p settings).2.Fresh p.superNodes :=
    steps.fresh (parts.apart.mono (List.Subset.refl _) (List.subset_append_left _ _)).mentions
      fun _ _ => rfl
  refine ⟨fun i _ => supers.mono (Program.superclassNodes_subset i), fun i busy => ?_⟩
  rw [steps.mark_eq id] at busy
  cases busy

theorem methodSets_tells : (methodSets p settings).2.Tells
    ((named p settings).1.all id && (typed p settings).1.all id &&
      (functionsTyped p settings).1.all id && (derived p settings).1.all id &&
        (functionSets p settings).1 && (methodSets p settings).1.all id) := by
  have tidy := Scope.top_clean p settings
  have derived := (inheritance_honest distinct).tells (List.all · id) tidy
    ((functionsTyped_tells settings distinct).noted .validatingInheritance)
    fun _ => functionsTyped_idle settings distinct
  have functions := checkFunctionSets_honest.tells id tidy
    (derived.noted .validatingOverloads) fun _ => trivial
  exact (methodSets_honest p.classIndices).tells (List.all · id) tidy functions fun _ => trivial

theorem methodSets_fresh : (methodSets p settings).2.Fresh p.bodyNodes := by
  have parts := (Program.distinct_parts distinct).right
  have typed := (functionsTyped_steps settings distinct).fresh
    (parts.apart.mono (List.Subset.refl _) (List.subset_append_right _ _)).mentions fun _ _ => rfl
  have derived := (derived_steps settings distinct).fresh (lineage_spares parts.right.apart) typed
  exact (methodSets_steps settings fun _ => False).fresh (fun _ _ => ⟨id, id⟩) derived

theorem methodSets_known : (methodSets p settings).2.findings.Known p.signature := by
  have typed := functionsTyped_known settings distinct
  have derived := (derived_steps settings distinct).known (lineage_spares_types distinct) typed
  exact (methodSets_steps settings fun _ => False).known (fun _ _ => id) derived

theorem implemented_tells : (implemented p settings).2.Tells
    ((named p settings).1.all id && (typed p settings).1.all id &&
      (functionsTyped p settings).1.all id && (derived p settings).1.all id &&
        (functionSets p settings).1 && (methodSets p settings).1.all id &&
          (implemented p settings).1.all id) := by
  have fresh := methodSets_fresh settings distinct
  have known := methodSets_known settings distinct
  exact (classBodies_honest distinct).tells (List.all · id) (Scope.top_clean p settings)
    ((methodSets_tells settings distinct).noted .checkingBodies)
    fun clean => ⟨known.settled clean.2, fresh.mono fun n below =>
      List.mem_append_left _ (List.mem_append_left _ below)⟩

theorem functionsImplemented_tells : (functionsImplemented p settings).2.Tells
    ((named p settings).1.all id && (typed p settings).1.all id &&
      (functionsTyped p settings).1.all id && (derived p settings).1.all id &&
        (functionSets p settings).1 && (methodSets p settings).1.all id &&
          (implemented p settings).1.all id && (functionsImplemented p settings).1.all id) := by
  have parts := (Program.distinct_parts distinct).right
  have steps := implemented_steps settings distinct
  have inside : p.classes.flatMap Class.bodyNodes ⊆ p.bodyNodes := fun n below =>
    List.mem_append_left _ (List.mem_append_left _ below)
  have inside' : (p.functions.flatMap fun f => f.body.nodes) ⊆ p.bodyNodes := fun n below =>
    List.mem_append_left _ (List.mem_append_right _ below)
  have known := (steps.mono (reaches_mono (List.Subset.refl _) inside)).known
    (reaches_spares_types distinct) (methodSets_known settings distinct)
  have apart := parts.apart.mono (List.Subset.refl _) fun n below =>
    List.mem_append_right _ (inside' below)
  have fresh := steps.fresh (apart.reaches parts.right.right.left.apart)
    ((methodSets_fresh settings distinct).mono inside')
  exact (functionBodies_honest distinct).tells (List.all · id) (Scope.top_clean p settings)
    (implemented_tells settings distinct) fun clean => ⟨known.settled clean.2, fresh⟩

theorem statements_tells : (statements p settings).2.Tells (verdict p settings).valid := by
  have parts := (Program.distinct_parts distinct).right
  have inside : statementNodes p.statements ⊆ p.bodyNodes := List.subset_append_right _ _
  have apart := parts.apart.mono (List.Subset.refl _) fun n below =>
    List.mem_append_right _ (inside below)
  have bodies := parts.right.right.apart
  have classes := (implemented_steps settings distinct).fresh
    (apart.reaches (bodies.mono (List.subset_append_left _ _) (List.Subset.refl _)))
    ((methodSets_fresh settings distinct).mono inside)
  have fresh := (functionsImplemented_steps settings distinct).fresh
    (apart.reaches (bodies.mono (List.subset_append_right _ _) (List.Subset.refl _))) classes
  have told := (checkStatements_honest [] false p.statements parts.right.right.right).tells
    id (Scope.top_clean p settings) (functionsImplemented_tells settings distinct)
    fun _ => ⟨trivial, fresh⟩
  have same : (verdict p settings).valid = ((named p settings).1.all id &&
      (typed p settings).1.all id && (functionsTyped p settings).1.all id &&
        (derived p settings).1.all id && (functionSets p settings).1 &&
          (methodSets p settings).1.all id && (implemented p settings).1.all id &&
            (functionsImplemented p settings).1.all id && (statements p settings).1) := by
    simp only [Verdict.valid, verdict, all_classVerdicts, all_functionVerdicts]
    ac_rfl
  rw [same]
  exact told

theorem judged_tells : (judged p settings).Tells (verdict p settings).valid := by
  rcases statements_tells settings distinct with ⟨valid, clean⟩ | ⟨failed, dirty⟩
  · have tidy := Scope.top_clean p settings
    have sound := valid
    simp only [Verdict.valid, verdict, Bool.and_eq_true] at sound
    obtain ⟨⟨classes, _, functions⟩, _⟩ := sound
    have first := (judgeEach_honest (p.classes.map Class.node) _).faithful _ _ tidy clean classes
    rcases first with ⟨_, middle⟩ | ⟨impossible, _⟩
    swap
    · exact impossible.elim
    have second := (judgeEach_honest (p.functions.map Function.node) _).faithful _ _ tidy middle functions
    rcases second with ⟨_, after⟩ | ⟨impossible, _⟩
    swap
    · exact impossible.elim
    rw [List.map_map, List.map_map] at after
    exact .inl ⟨valid, after⟩
  · exact .inr ⟨failed, (judged_steps settings).dirty dirty⟩

end Phase

theorem Program.analyze_tells (distinct : Distinct p.nodes) (settings : Settings) :
    (p.analyze settings).state.Tells (p.analyze settings).verdict.valid :=
  (Phase.judged_tells settings distinct).noted _

/-- The program is sound exactly if no error is reported, and no node is faulty without one. -/
theorem Program.analyze_valid_iff (p : Program) (settings : Settings)
    (distinct : (p.nodes.map Node.id).Nodup) :
    ((p.analyze settings).verdict.valid = true ↔ (p.analyze settings).state.errors = []) ∧
      ∀ id, (p.analyze settings).state.findings.validity id = some false →
        (p.analyze settings).state.errors ≠ [] := by
  rcases p.analyze_tells distinct settings with ⟨valid, clean⟩ | ⟨failed, dirty⟩
  · exact ⟨⟨fun _ => clean.1, fun _ => valid⟩, fun id faulty => absurd faulty (clean.2.nodes id)⟩
  · refine ⟨⟨fun valid => ?_, fun none_ => absurd none_ dirty⟩, fun _ _ => dirty⟩
    rw [failed] at valid
    cases valid

-- Two classes on a cycle, one of which calls a function that does not exist.
theorem cyclic_classes_analyze_valid_iff : ∃ p : Program,
    (⟨"class A extends B \x7b \x7d class B extends A \x7b void f() \x7b g(); \x7d \x7d", none⟩ :
      Source).parse Parser.program = .ok p ∧
      (p.analyze ⟨false, false⟩).verdict = ⟨false, true, true⟩ ∧
      (p.analyze ⟨false, false⟩).state.errors.length = 3 ∧
      ((p.analyze ⟨false, false⟩).verdict.valid = true ↔
        (p.analyze ⟨false, false⟩).state.errors = []) ∧
      ∀ id, (p.analyze ⟨false, false⟩).state.findings.validity id = some false →
        (p.analyze ⟨false, false⟩).state.errors ≠ [] := by
  have run : ((⟨"class A extends B \x7b \x7d class B extends A \x7b void f() \x7b g(); \x7d \x7d",
      none⟩ : Source).parse Parser.program).toOption.map (fun p =>
        ((p.analyze ⟨false, false⟩).verdict, (p.analyze ⟨false, false⟩).state.errors.length)) =
      some (⟨false, true, true⟩, 3) := by
    decide +kernel
  obtain ⟨p, parsed, same⟩ := Option.map_eq_some_iff.1 run
  obtain ⟨verdict, errors⟩ := Prod.mk.inj same
  have h := ok_of_toOption parsed
  exact ⟨p, h, verdict, errors, p.analyze_valid_iff ⟨false, false⟩ (Source.parse_program_nodup h)⟩

end ClassLang
