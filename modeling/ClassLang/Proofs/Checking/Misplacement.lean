import ClassLang.Proofs.Checking.DeclarationReporting
import ClassLang.Proofs.Parsing.Grammar

/-!
The check of a parsed program never complains of the place of a statement. The parser keeps track of
loops and functions by its context, the checker by the scope of a statement; what the parser admits
in its context the checker admits in its scope, so the checker finds nothing out of place.

* `Source.parseFile_placed`: parsed programs are in order, and are never told that a jump is outside
  a loop or a return outside a function.
-/

namespace ClassLang

/-- An error that is not about the place of a statement. -/
def CheckError.InPlace (e : CheckError) : Prop := e.cause.isMisplacement = false

theorem admitsPlain_inPlace : AdmitsPlain CheckError.InPlace := fun _ plain =>
  (CheckCause.isPlain_iff.1 plain).2.1

namespace Program.Placed

variable {p : Program} (placed : p.Placed)
include placed

theorem reports (settings : Settings) :
    Reports CheckError.InPlace Warning.Any (.top p settings) ClassLang.checkProgram := by
  have plain := admitsPlain_inPlace
  have cycles (e : CheckError) (cyclic : e.cause.isCycle = true) : e.InPlace := by
    obtain ⟨span, cause⟩ := e
    cases cause with
    | inheritanceCycle => rfl
    | _ => cases cyclic
  have repeated (e : CheckError) (duplicate : e.cause.isDuplicate = true) : e.InPlace :=
    (CheckCause.of_isDuplicate duplicate).2
  have without {jumps : Bool} (none_ : jumps = false) (has : jumps = true) (span : Span)
      (word : Keyword) : CheckError.InPlace ⟨span, .jumpOutsideLoop word⟩ := by
    rw [none_] at has
    cases has
  refine .read <| .bind (.reportPlain plain p.redeclarations_plain) fun _ =>
    .bind (.mapM fun i _ => checkNames_reports plain i) fun _ => .bind (.note _) fun _ =>
    .bind (.mapM fun i _ => checkClassSignatures_reports plain i) fun _ =>
    .bind (.mapM fun i _ => checkFunctionSignature_reports plain i) fun _ => .bind (.note _) fun _ =>
    .bind (.mapM fun i _ => checkInheritance_reports plain cycles _ i) fun _ =>
    .bind (.note _) fun _ => .bind (checkFunctionSets_reports repeated) fun _ =>
    .bind (.mapM fun i _ => checkMethodSets_reports plain repeated i) fun _ =>
    .bind (.note _) fun _ => .bind (.mapM fun i listed => checkClassBody_reports plain ?_) fun _ =>
    .bind (.mapM fun i listed => checkFunctionBody_reports plain ?_) fun _ =>
    .bind (checkStatements_reports [] false p.statements ⟨plain.admits _, ?_, ?_⟩) fun _ =>
    .bind (.judgeEach _ _) fun _ => .bind (.judgeEach _ _) fun _ => .get fun _ =>
    .bind (.note _) fun _ => .pure
  · exact fun m written => without ((placed.classes _ (classAt_mem listed)).methods m written).jumps
  · exact without (placed.functions _ (functionAt_mem listed)).callable.jumps
  · exact fun _ has span _ word => without placed.jumps has span word
  · intro _ has
    rw [placed.returns] at has
    cases has

theorem checkProgram (settings : Settings) (s : CheckState)
    (before : ∀ e ∈ s.errors, e.cause.isMisplacement = false) :
    ∀ e ∈ (ClassLang.checkProgram.exec (.top p settings) s).2.errors,
      e.cause.isMisplacement = false := by
  obtain ⟨⟨errors, told, fine⟩, -⟩ := placed.reports settings s
  rw [told]
  exact List.forall_mem_append.2 ⟨before, fine⟩

end Program.Placed

/-- A parsed program is in order: each jump has a loop around it in the same function, method or
statement of the program, no statement of the program returns, `void` is a return type without
modifiers, and each operator function has an owner and as many parameters as operands. So the check
never tells of a jump outside a loop or a return outside a function. -/
theorem Source.parseFile_placed {source : Source} {handler : Handler} {p : Program}
    (parsed : (source.parseFile handler).1 = some p) :
    p.Placed ∧ ∀ (settings : Settings), ∀ e ∈ (p.analyze settings).state.errors,
      e.cause ≠ .returnOutsideFunction ∧ ∀ word, e.cause ≠ .jumpOutsideLoop word := by
  have placed : p.Placed := by
    rw [parseFile_eq] at parsed
    split at parsed
    · rename_i q read
      cases parsed
      exact source.program_placed read
    · cases parsed
  refine ⟨placed, fun settings e reported => ?_⟩
  have inPlace := placed.checkProgram settings .empty (fun _ => nofun) e reported
  constructor
  · intro same
    rw [same] at inPlace
    cases inPlace
  · intro word same
    rw [same] at inPlace
    cases inPlace

/-- Jumps below a loop of a statement and of an operator function, a method that is `void`, and an
initializer whose name is unknown. -/
def nestedJumps : Source :=
  ⟨"class V \x7b V operator -(V a) \x7b while (true) \x7b if (true) \x7b break; \x7d else \x7b " ++
    "continue; \x7d \x7d return a; \x7d public void clear() \x7b return; \x7d \x7d " ++
    "try \x7b while (true) \x7b break; \x7d \x7d catch \x7b integer i := unknown; \x7d", none⟩

theorem nestedJumps_placed : ∃ p, (nestedJumps.parseFile .empty).1 = some p ∧ p.Placed ∧
    (p.analyze ⟨true, true⟩).state.errors.map CheckError.cause = [.unknownVariable "unknown"] ∧
      ∀ e ∈ (p.analyze ⟨true, true⟩).state.errors,
        e.cause ≠ .returnOutsideFunction ∧ ∀ word, e.cause ≠ .jumpOutsideLoop word := by
  have run : (nestedJumps.parseFile .empty).1.map (fun p =>
      (p.analyze ⟨true, true⟩).state.errors.map CheckError.cause) =
        some [.unknownVariable "unknown"] := by
    decide +kernel
  obtain ⟨p, parsed, told⟩ := Option.map_eq_some_iff.1 run
  obtain ⟨placed, inPlace⟩ := Source.parseFile_placed parsed
  exact ⟨p, parsed, placed, told, inPlace ⟨true, true⟩⟩

end ClassLang
