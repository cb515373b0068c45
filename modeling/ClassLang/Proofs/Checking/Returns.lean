import ClassLang.Proofs.Checking.Certificates
import ClassLang.Proofs.Checking.DeclarationVerdicts

/-!
What is known of the returns and conditions in a body that has been found valid.

* `Source.routine_returns`: a function that gives a value returns one, every return at any depth fits
  the return type, and every condition is a truth value.
-/

namespace ClassLang

variable {p : Program} {settings : Settings} {f : Findings} {r : Routine}

/-- A function or method of a program has been found valid: the types in its signature and its body
are sound, and a missing return has not been reported; or the whole declaration has a good verdict. -/
inductive Compilation.FoundValid (c : Compilation) : Routine → Prop
  | unreported {r : Routine} : r ∈ c.program.routines →
    (∀ t ∈ r.signature, (c.findings.typeOf t.id).isSome = true) →
    c.findings.validity r.body.id = some true →
    (∀ title, ⟨r.body.span, .missingReturn title⟩ ∉ c.errors) → FoundValid c r
  | method {i : Nat} {m : Method} : i ∈ c.program.classIndices → m ∈ (c.program.classAt i).methods →
    c.findings.validity (c.program.classAt i).id = some true →
    FoundValid c (c.program.methodRoutine i m)
  | function {i : Nat} : i ∈ c.program.functionIndices →
    c.findings.validity (c.program.functionAt i).node.id = some true →
    FoundValid c (c.program.functionRoutine (c.program.functionAt i))

/-- The returns of a body fit a return type, and its conditions are truth values. -/
structure Block.Keeps (b : Block) (f : Findings) (type : Ty) : Prop where
  returns : type.isVoid = false → ∃ n value, .return n value ∈ b.within
  valued : type.isVoid = false → ∀ n value, .return n value ∈ b.within →
    ∃ e result, value = some e ∧ f.typeOf e.id = some result ∧ type.accepts result e.isPlace = true
  unvalued : type.isVoid = true → ∀ n value, .return n value ∈ b.within → value = none
  conditions : ∀ s ∈ b.within, ∀ c ∈ s.conditions,
    ∃ result, f.typeOf c.id = some result ∧ result.isBoolean = true

/-- In a valid body every statement at any depth is valid, and keeps its rules. -/
theorem Explained.upheld {place : Place} {returns : Option TypeRef} {vars : Variables} {b : Block}
    (explained : Explained p place returns (b.scoped vars) f)
    (inner : ∀ s ∈ b.statements, f.validity s.id = some true) :
    ∀ s ∈ b.within, ∃ scope here, scope.Fits f ⟨place, here, returns⟩ ∧ s.Upheld scope f := by
  have checked (s : Statement) (inside : s ∈ b.within) : ∃ scope here,
      scope.Fits f ⟨place, here, returns⟩ ∧ (f.validity s.id = some true → s.Upheld scope f) := by
    obtain ⟨here, listed⟩ := Block.exists_scoped inside vars
    obtain ⟨scope, -, fits, checked⟩ := explained here s listed
    exact ⟨scope, here, fits, checked.upheld⟩
  have inward : Inward (fun s => f.validity s.id = some true) b.within := by
    intro s inside valid
    obtain ⟨scope, _, _, upheld⟩ := checked s inside
    exact (upheld valid).blocks
  intro s inside
  obtain ⟨scope, here, fits, upheld⟩ := checked s inside
  exact ⟨scope, here, fits, upheld (b.within_all inward inner s inside)⟩

theorem Routine.Checked.keeps {sound : Bool} {s : CheckState} {type : Ty}
    (checked : r.Checked p sound s) (tidy : s.findings.Tidy)
    (known : s.findings.typeOf r.returnType.id = some type)
    (valid : s.findings.validity r.body.id = some true)
    (reported : sound = true ∨ ∀ title, ⟨r.body.span, .missingReturn title⟩ ∉ s.errors) :
    r.body.Keeps s.findings type := by
  have upheld := checked.explained.upheld (checked.inner valid)
  have known := tidy.cached.1 known
  have returned {n : Node} {value : Option Expr} (inside : .return n value ∈ r.body.within) :
      type.isVoid = value.isNone ∧ ∀ e, value = some e → ∃ result,
        s.findings.typeOf e.id = some result ∧ type.accepts result e.isPlace = true := by
    obtain ⟨scope, here, fits, upheld⟩ := upheld _ inside
    obtain ⟨expected, there, void, handed⟩ := upheld.returned n value rfl
    cases fits.returned rfl known there
    refine ⟨void, fun e given => ?_⟩
    obtain ⟨result, typed, accepted⟩ := handed e given
    exact ⟨result, tidy.cached.2 typed, accepted⟩
  refine ⟨fun valued => ?_, fun valued n value inside => ?_, fun void n value inside => ?_,
    fun s inside c listed => ?_⟩
  · have contains : r.body.containsReturn = true := by
      by_contra empty
      obtain ⟨failed, title, listed⟩ := checked.returns type known valued (Bool.eq_false_iff.2 empty)
      rcases reported with sound | unreported
      · cases sound.symm.trans failed
      · exact unreported title listed
    obtain ⟨s, inside, isReturn⟩ := r.body.containsReturn_iff.1 contains
    cases s with
    | «return» n value => exact ⟨n, value, inside⟩
    | _ => cases isReturn
  · obtain ⟨void, handed⟩ := returned inside
    cases value with
    | none =>
      rw [valued] at void
      cases void
    | some e =>
      obtain ⟨result, typed, accepted⟩ := handed e rfl
      exact ⟨e, result, rfl, typed, accepted⟩
  · obtain ⟨same, -⟩ := returned inside
    rw [void] at same
    exact Option.isNone_iff_eq_none.1 same.symm
  · obtain ⟨scope, here, -, upheld⟩ := upheld s inside
    obtain ⟨result, typed, boolean⟩ := upheld.conditions c listed
    exact ⟨result, tidy.cached.2 typed, boolean⟩

/-- The type of a function or method with a sound signature. -/
theorem Findings.Sound.returnType {types : List TypeRef} (sound : f.Sound types) (tidy : f.Tidy)
    (written : r.returnType ∈ types) : ∃ type, f.typeOf r.returnType.id = some type := by
  obtain ⟨type, known⟩ := sound _ written
  exact ⟨type, tidy.cached.2 known⟩

/-- A function or method that has been found valid returns what it declares: if that is a value, its
body holds a return, and every return at any depth carries a value that fits; otherwise none does. The
conditions in its body are truth values. -/
theorem Source.routine_returns {source : Source} {settings : Settings} {c : Compilation}
    (compiled : source.compile settings = .ok c) (r : Routine) (valid : c.FoundValid r) :
    ∃ type, c.findings.typeOf r.returnType.id = some type ∧ r.body.Keeps c.findings type := by
  obtain ⟨p, distinct, rfl⟩ := Source.compile_ok compiled
  have tidy := (p.analyze_complete settings distinct).tidy
  have last {t : TypeRef} {types : List TypeRef} : t ∈ types ++ [t] :=
    List.mem_append_right _ (List.mem_singleton_self _)
  cases valid with
  | unreported declared types body unreported =>
    obtain ⟨type, known⟩ := Option.isSome_iff_exists.1 (types r.returnType last)
    exact ⟨type, known, (Program.routine_checked settings distinct declared).keeps tidy known body
      (.inr unreported)⟩
  | @method i m listed declared valid =>
    obtain ⟨sound, checked⟩ := Program.class_sound settings distinct listed valid
    have checked := checked.methods m declared
    obtain ⟨type, known⟩ := sound.returnType (r := p.methodRoutine i m) tidy
      (List.mem_append_right _ (List.mem_flatMap.2 ⟨m, declared, last⟩))
    exact ⟨type, known, checked.keeps tidy known (checked.judged rfl) (.inl rfl)⟩
  | @function i listed valid =>
    obtain ⟨sound, checked⟩ := Program.function_sound settings distinct listed valid
    obtain ⟨type, known⟩ := sound.returnType (r := p.functionRoutine (p.functionAt i)) tidy last
    exact ⟨type, known, checked.keeps tidy known (checked.judged rfl) (.inl rfl)⟩

/-- Returns in an if chain and in a loop, and a method that returns nothing. -/
def nestedReturns : Source :=
  ⟨"integer sign(integer n) \x7b if (n < 0) \x7b return 0 - 1; \x7d else if (n > 0) \x7b " ++
    "while (true) \x7b return 1; \x7d \x7d return 0; \x7d " ++
    "class A \x7b void stop() \x7b return; \x7d \x7d", none⟩

theorem nestedReturns_routine_returns : ∃ c : Compilation,
    nestedReturns.compile ⟨true, true⟩ = .ok c ∧ c.program.routines.length = 2 ∧
      ∀ r ∈ c.program.routines, c.FoundValid r ∧
        ∃ type, c.findings.typeOf r.returnType.id = some type ∧ r.body.Keeps c.findings type := by
  have run : (nestedReturns.compile ⟨true, true⟩).toOption.map (fun c =>
        (c.errors, c.program.routines.length, c.program.routines.all fun r =>
          (r.signature.all fun t => (c.findings.typeOf t.id).isSome) &&
            c.findings.validity r.body.id == some true)) = some ([], 2, true) := by
    decide +kernel
  obtain ⟨c, compiled, views⟩ := Option.map_eq_some_iff.1 run
  simp only [Prod.mk.injEq, List.all_eq_true, Bool.and_eq_true, beq_iff_eq] at views
  obtain ⟨none, two, sound⟩ := views
  have h := ok_of_toOption compiled
  have valid (r : Routine) (declared : r ∈ c.program.routines) : c.FoundValid r := by
    obtain ⟨types, body⟩ := sound r declared
    exact .unreported declared types body (none ▸ fun _ => List.not_mem_nil)
  exact ⟨c, h, two, fun r declared =>
    ⟨valid r declared, Source.routine_returns h r (valid r declared)⟩⟩

end ClassLang
