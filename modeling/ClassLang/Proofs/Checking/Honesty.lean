import ClassLang.Proofs.Checking.Steps

/-!
A check is honest if it says that something is wrong exactly when it reports an error. `Honest` says
so for one run from a clean state, and that the run keeps to its own subjects; each combinator has
one rule for it. After a failed part a check may go on, but must fail in the end.
-/

namespace ClassLang

variable {α β : Type}

/-! ## Clean states -/

structure Scope.Clean (p : Program) (scope : Scope) : Prop where
  program : scope.program = p
  bindings : ∀ name type, scope.env.get? name = some type → type.isOk = true
  returns : ∀ type, scope.returnType = some type → type.isOk = true

structure Findings.Clean (f : Findings) : Prop where
  nodes : ∀ id, f.validity id ≠ some false
  marks : ∀ i, f.mark i ≠ .done false

def CheckState.Clean (s : CheckState) : Prop := s.errors = [] ∧ s.findings.Clean

def CheckState.Dirty (s : CheckState) : Prop := s.errors ≠ []

theorem Steps.dirty {own : Subject → Prop} {s t : CheckState} (h : Steps own s t) (before : s.Dirty) :
    t.Dirty := by
  intro none_
  have grown := h.errors_prefix
  rw [none_, List.prefix_nil] at grown
  exact before grown

namespace Findings.Clean

variable {f g : Findings}

theorem of_eq (h : f.Clean) (nodes : ∀ id, g.validity id = f.validity id)
    (marks : ∀ i, g.mark i = f.mark i) : g.Clean :=
  ⟨fun id => nodes id ▸ h.nodes id, fun i => marks i ▸ h.marks i⟩

theorem setValid (h : f.Clean) (id : Nat) : (f.setValid id true).Clean where
  nodes other := by
    rw [validity_setValid]
    split
    · have known := h.nodes id
      cases stored : f.validity id with
      | none => simp
      | some valid =>
        rw [stored] at known
        simpa using known
    · exact h.nodes other
  marks i := by
    have same : (f.setValid id true).mark i = f.mark i := by simp [mark]
    exact same ▸ h.marks i

theorem record (h : f.Clean) (id : Nat) (type : Ty) : (f.record id (.ok type)).Clean :=
  (h.setValid id).of_eq (fun _ => rfl) fun _ => rfl

theorem instantiate (h : f.Clean) (name : String) (args : List Ty) :
    (f.instantiate name args).Clean := by
  obtain ⟨_, same⟩ := f.instantiate_eq name args
  rw [same]
  exact h.of_eq (fun _ => rfl) fun _ => rfl

/-- In clean findings what is known of a node is a type. -/
theorem cached_isOk (h : f.Clean) {id : Nat} {result : Resolved} (known : f.cached id = some result) :
    result.isOk = true := by
  unfold cached at known
  split at known
  · cases known
  · rw [Option.map_eq_some_iff] at known
    obtain ⟨_, _, rfl⟩ := known
    rfl
  · rename_i invalid
    exact absurd invalid (h.nodes id)

end Findings.Clean

/-! ## Honest checks -/

def Verdict.Fits (good bad : α → Prop) (outcome : α × CheckState) : Prop :=
  good outcome.1 ∧ outcome.2.Clean ∨ bad outcome.1 ∧ outcome.2.Dirty

structure Honest (p : Program) (own : Subject → Prop) (given : CheckState → Prop) (x : Check α)
    (good bad : α → Prop) : Prop where
  within : ∀ scope s, scope.program = p → Steps own s (x.exec scope s).2
  faithful : ∀ scope s, scope.Clean p → s.Clean → given s →
    Verdict.Fits good bad (x.exec scope s)

namespace Honest

variable {p : Program} {own less : Subject → Prop} {given Q : CheckState → Prop}
  {good bad : α → Prop} {good' bad' : β → Prop} {x : Check α} {f : α → Check β}

theorem pure {a : α} (h : ∀ s, given s → good a) :
    Honest p own given (Pure.pure a : Check α) good bad where
  within _ s _ := Steps.refl s
  faithful _ s _ clean holds := .inl ⟨h s holds, clean⟩

theorem weaken (h : Honest p own given x good bad) (pre : ∀ s, Q s → given s)
    {good' bad' : α → Prop} (right : ∀ a, good a → good' a) (wrong : ∀ a, bad a → bad' a) :
    Honest p own Q x good' bad' where
  within := h.within
  faithful scope s tidy clean holds := by
    rcases h.faithful scope s tidy clean (pre s holds) with ⟨fine, after⟩ | ⟨faulty, after⟩
    · exact .inl ⟨right _ fine, after⟩
    · exact .inr ⟨wrong _ faulty, after⟩

theorem bind (hx : Honest p less given x good bad) (le : ∀ subject, less subject → own subject)
    (keep : ∀ s t, given s → Steps less s t → Q t)
    (hf : ∀ a, Honest p own (fun s => good a ∧ Q s) (f a) good' bad')
    (hb : ∀ a scope s, bad a → Q s → bad' ((f a).exec scope s).1) :
    Honest p own given (x >>= f) good' bad' where
  within scope s same := by
    rw [Check.exec_bind]
    exact ((hx.within scope s same).mono le).trans ((hf _).within scope _ same)
  faithful scope s tidy clean holds := by
    rw [Check.exec_bind]
    have steps := hx.within scope s tidy.program
    rcases hx.faithful scope s tidy clean holds with ⟨fine, after⟩ | ⟨faulty, after⟩
    · exact (hf _).faithful scope _ tidy after ⟨fine, keep _ _ holds steps⟩
    · have doomed := hb _ scope _ faulty (keep _ _ holds steps)
      exact .inr ⟨doomed, ((hf _).within scope _ tidy.program).dirty after⟩

theorem widen (h : Honest p less given x good bad) (le : ∀ subject, less subject → own subject) :
    Honest p own given x good bad where
  within scope s same := (h.within scope s same).mono le
  faithful := h.faithful

theorem read {f : Scope → Check α} (hf : ∀ scope : Scope, scope.program = p →
    Honest p own (fun s => scope.Clean p ∧ given s) (f scope) good bad) :
    Honest p own given ((MonadReader.read : Check Scope) >>= f) good bad where
  within scope s same := (hf scope same).within scope s same
  faithful scope s tidy clean holds :=
    (hf scope tidy.program).faithful scope s tidy clean ⟨tidy, holds⟩

theorem findings {f : Findings → Check α} (hf : ∀ known : Findings,
    Honest p own (fun s => known.Clean ∧ given s) (f known) good bad) :
    Honest p own given (ClassLang.findings >>= f) good bad where
  within scope s same := (hf s.findings).within scope s same
  faithful scope s tidy clean holds :=
    (hf s.findings).faithful scope s tidy clean ⟨clean.2, holds⟩

theorem note {event : Event} {f : Unit → Check α} (hf : Honest p own given (f ()) good bad)
    (keep : ∀ s t, given s → Steps (fun _ => False) s t → given t) :
    Honest p own given (ClassLang.note event >>= f) good bad where
  within scope _ same := (Steps.single (.note event)).trans (hf.within scope _ same)
  faithful scope _ tidy clean holds :=
    hf.faithful scope _ tidy clean (keep _ _ holds (Steps.single (.note event)))

theorem learn {g : Findings → Findings} {f : Unit → Check α} (entry : ∀ known, Entry own known (g known))
    (tidies : ∀ s known, given s → known.Clean → (g known).Clean)
    (hf : Honest p own given (f ()) good bad) (keep : ∀ s t, given s → Steps own s t → given t) :
    Honest p own given (ClassLang.learn g >>= f) good bad where
  within scope _ same := (Steps.single (.enter (entry _))).trans (hf.within scope _ same)
  faithful scope s tidy clean holds :=
    hf.faithful scope _ tidy ⟨clean.1, tidies s _ holds clean.2⟩
      (keep _ _ holds (Steps.single (.enter (entry _))))

theorem reportAll {errors : List CheckError} :
    Honest p own given (ClassLang.reportAll errors) (· = true) (· = false) where
  within _ _ _ := Steps.single (.report errors)
  faithful _ _ _ clean _ := by
    cases errors with
    | nil => exact .inl ⟨rfl, by simpa [CheckState.Clean] using clean⟩
    | cons e rest => exact .inr ⟨rfl, by simp [CheckState.Dirty]⟩

theorem report {error : CheckError} {f : Unit → Check α}
    (within : ∀ scope s, scope.program = p → Steps own s ((f ()).exec scope s).2)
    (hb : ∀ scope s, bad ((f ()).exec scope s).1) :
    Honest p own given (ClassLang.report error >>= f) good bad where
  within scope _ same := (Steps.single (.report [error])).trans (within scope _ same)
  faithful scope s tidy _ _ := by
    have dirty : CheckState.Dirty { s with errors := s.errors ++ [error] } := by
      simp [CheckState.Dirty]
    exact .inr ⟨hb scope _, (within scope _ tidy.program).dirty dirty⟩

theorem withReader {g : Scope → Scope} (h : Honest p own given x good bad)
    (same : ∀ scope, (g scope).program = scope.program)
    (tidies : ∀ s scope, given s → scope.Clean p → (g scope).Clean p) :
    Honest p own given (MonadWithReader.withReader g x : Check α) good bad where
  within scope s program := h.within (g scope) s ((same scope).trans program)
  faithful scope s tidy clean holds := h.faithful (g scope) s (tidies s scope holds tidy) clean holds

/-- Checks of several items, none of which spoils what the check of a later one asks for. -/
theorem mapM {ι : Type} {f : ι → Check Bool} {territory : ι → Subject → Prop}
    {asked : ι → CheckState → Prop} (items : List ι)
    (h : ∀ i ∈ items, Honest p (territory i) (asked i) (f i) (· = true) (· = false))
    (keep : items.Pairwise fun i j => ∀ s t, asked j s → Steps (territory i) s t → asked j t) :
    Honest p (fun subject => ∃ i ∈ items, territory i subject) (fun s => ∀ i ∈ items, asked i s)
      (items.mapM f) (·.all id = true) (·.all id = false) := by
  induction items with
  | nil => exact .pure fun _ _ => rfl
  | cons i rest ih =>
    obtain ⟨keepFirst, keepRest⟩ := List.pairwise_cons.1 keep
    have first := h i (List.mem_cons_self ..)
    have others := ih (fun j listed => h j (List.mem_cons_of_mem i listed)) keepRest
    rw [List.mapM_cons]
    refine .bind (first.weaken (Q := fun s => ∀ j ∈ i :: rest, asked j s)
      (fun _ all => all i (List.mem_cons_self ..)) (fun _ h => h) fun _ h => h)
      (Q := fun s => ∀ j ∈ rest, asked j s) (fun _ mine => ⟨i, List.mem_cons_self .., mine⟩)
      (fun s t all steps j listed =>
        keepFirst j listed s t (all j (List.mem_cons_of_mem i listed)) steps)
      (fun valid => ?_) fun valid scope s failed _ => ?_
    · refine .bind (others.weaken (Q := fun s => valid = true ∧ ∀ j ∈ rest, asked j s) (fun _ h => h.2)
        (fun _ h => h) fun _ h => h) (Q := fun _ => valid = true)
        (fun _ ⟨j, listed, mine⟩ => ⟨j, List.mem_cons_of_mem i listed, mine⟩) (fun _ _ h _ => h.1)
        (fun valids => .pure fun _ ⟨all, first⟩ => ?_) fun valids scope s failed _ => ?_
      · simp only [List.all_cons, first, all]
        rfl
      · simp only [Check.exec_pure, List.all_cons, failed, Bool.and_false]
    · simp only [Check.exec_bind, Check.exec_pure, List.all_cons, failed]
      rfl

end Honest

/-! ## Honest inferences -/

/-- An honest inference: a good result, or an error that is reported. What is known of the values at
hand is the proposition `P`. -/
def Infers (p : Program) (own : Subject → Prop) (P : Prop) (x : Infer α) (good : α → Prop) : Prop :=
  Honest p own (fun _ => P) x.run (fun r => ∃ a, r = .ok a ∧ good a) (·.isOk = false)

def Fails (x : Infer α) : Prop := ∀ scope s, (Check.exec x.run scope s).1.isOk = false

namespace Fails

variable {x : Infer α} {f : α → Infer β}

theorem fail (span : Span) (cause : CheckCause) : Fails (ClassLang.fail span cause : Infer α) :=
  fun _ _ => rfl

theorem settle_error (e : Reported) : Fails (settle (.error e) : Infer α) := fun _ _ => rfl

theorem left (h : Fails x) : Fails (x >>= f) := by
  intro scope s
  have failed := h scope s
  rw [Infer.exec_bind]
  rcases run : Check.exec x.run scope s with ⟨_ | a, t⟩
  · rfl
  · rw [run] at failed
    cases failed

theorem right (h : ∀ a, Fails (f a)) : Fails (x >>= f) := by
  intro scope s
  rw [Infer.exec_bind]
  rcases Check.exec x.run scope s with ⟨_ | a, t⟩
  · rfl
  · exact h a scope t

end Fails

namespace Infers

variable {p : Program} {own : Subject → Prop} {P : Prop} {good : α → Prop} {good' : β → Prop}

theorem of_honest {x : Infer α}
    (h : Honest p own (fun _ => P) x.run (fun r => ∃ a, r = .ok a ∧ good a) (·.isOk = false)) :
    Infers p own P x good := h

theorem weaken {x : Infer α} {Q : Prop} (h : Infers p own P x good) (pre : Q → P)
    {good' : α → Prop} (post : ∀ a, good a → good' a) : Infers p own Q x good' := by
  refine Honest.weaken h (fun _ => pre) ?_ fun _ failed => failed
  rintro _ ⟨a, rfl, fine⟩
  exact ⟨a, rfl, post a fine⟩

theorem pure {a : α} (h : P → good a) : Infers p own P (Pure.pure a : Infer α) good :=
  Honest.pure fun _ known => ⟨a, rfl, h known⟩

theorem bind {x : Infer α} {f : α → Infer β} (hx : Infers p own P x good)
    (hf : ∀ a, Infers p own (good a ∧ P) (f a) good') : Infers p own P (x >>= f) good' where
  within scope s same := by
    have first := hx.within scope s same
    rw [Infer.exec_bind]
    rcases run : Check.exec x.run scope s with ⟨_ | a, t⟩
    · rw [run] at first
      exact first
    · rw [run] at first
      exact first.trans ((hf a).within scope t same)
  faithful scope s tidy clean known := by
    have first := hx.faithful scope s tidy clean known
    rw [Infer.exec_bind]
    rcases run : Check.exec x.run scope s with ⟨_ | a, t⟩
    · rw [run] at first
      rcases first with ⟨⟨_, impossible, _⟩, _⟩ | ⟨_, after⟩
      · cases impossible
      · exact .inr ⟨rfl, after⟩
    · rw [run] at first
      rcases first with ⟨⟨_, same, fine⟩, after⟩ | ⟨impossible, _⟩
      · cases same
        exact (hf a).faithful scope t tidy after ⟨fine, known⟩
      · cases impossible

theorem fail {span : Span} {cause : CheckCause} :
    Infers p own P (ClassLang.fail span cause : Infer α) good where
  within _ _ _ := Steps.single (.report [_])
  faithful _ s _ _ _ := .inr ⟨rfl, by
    change s.errors ++ [_] ≠ []
    simp⟩

theorem fail_bind {span : Span} {cause : CheckCause} {f : α → Infer β} :
    Infers p own P ((ClassLang.fail span cause : Infer α) >>= f) good' where
  within _ _ _ := Steps.single (.report [_])
  faithful _ s _ _ _ := .inr ⟨rfl, by
    change s.errors ++ [_] ≠ []
    simp⟩

theorem settle {r : Except Reported α} (h : P → ∃ a, r = .ok a ∧ good a) :
    Infers p own P (ClassLang.settle r) good :=
  Honest.pure fun _ known => h known

theorem settle_isOk {r : Except Reported α} (h : P → r.isOk = true) :
    Infers p own P (ClassLang.settle r) fun _ => True := by
  refine settle fun known => ?_
  have sound := h known
  cases r with
  | ok a => exact ⟨a, rfl, trivial⟩
  | error e => cases sound

theorem settle_bind {r : Except Reported α} {f : α → Infer β} (h : P → r.isOk = true)
    (hf : ∀ a, r = .ok a → Infers p own P (f a) good') :
    Infers p own P (ClassLang.settle r >>= f) good' := by
  cases r with
  | ok a => exact hf a rfl
  | error e =>
    refine of_honest (Honest.pure fun _ known => ?_)
    cases h known

theorem settleBy_bind {r : Except CheckError α} {f : α → Infer β}
    (hf : ∀ a, r = .ok a → Infers p own P (f a) good') :
    Infers p own P (settleBy r >>= f) good' := by
  cases r with
  | ok a => exact hf a rfl
  | error e => exact fail_bind

theorem settleBy {r : Except CheckError α} (h : ∀ a, r = .ok a → P → good a) :
    Infers p own P (ClassLang.settleBy r) good := by
  cases r with
  | ok a => exact pure (h a rfl)
  | error e => exact fail

theorem lift_bind {x : Check α} {f : α → Infer β} {bad : α → Prop}
    (hx : Honest p own (fun _ => P) x good bad)
    (hf : ∀ a, Infers p own (good a ∧ P) (f a) good') (hb : ∀ a, bad a → Fails (f a)) :
    Infers p own P ((liftM x : Infer α) >>= f) good' := by
  refine of_honest ?_
  rw [Infer.run_lift_bind]
  exact Honest.bind hx (fun _ mine => mine) (fun _ _ known _ => known) hf
    fun a scope s failed _ => hb a failed scope s

/-- An attempt that fails must not be forgotten. -/
theorem attempt_bind {x : Infer α} {f : Except Reported α → Infer β} (hx : Infers p own P x good)
    (hf : ∀ r, Infers p own ((∃ a, r = .ok a ∧ good a) ∧ P) (f r) good')
    (hb : ∀ e, Fails (f (.error e))) : Infers p own P (attempt x >>= f) good' := by
  refine lift_bind hx hf fun r failed => ?_
  cases r with
  | ok a => cases failed
  | error e => exact hb e

theorem read_bind {f : Scope → Infer β} (hf : ∀ scope : Scope, scope.program = p →
    Infers p own (scope.Clean p ∧ P) (f scope) good') :
    Infers p own P ((read : Infer Scope) >>= f) good' :=
  Honest.read hf

theorem findings_bind {f : Findings → Infer β}
    (hf : ∀ known : Findings, Infers p own (known.Clean ∧ P) (f known) good') :
    Infers p own P ((liftM findings : Infer Findings) >>= f) good' :=
  Honest.findings hf

theorem learn_bind {g : Findings → Findings} {f : Unit → Infer β}
    (entry : ∀ known, Entry own known (g known))
    (tidies : P → ∀ known : Findings, known.Clean → (g known).Clean)
    (hf : Infers p own P (f ()) good') :
    Infers p own P ((liftM (learn g) : Infer Unit) >>= f) good' :=
  Honest.learn entry (fun _ known holds => tidies holds known) hf fun _ _ holds _ => holds

theorem note_bind {event : Event} {f : Unit → Infer β} (hf : Infers p own P (f ()) good') :
    Infers p own P ((liftM (note event) : Infer Unit) >>= f) good' :=
  Honest.note hf fun _ _ holds _ => holds

theorem recorded {x : Infer Ty} {id : Nat} {good : Ty → Prop} (hx : Infers p own P x good) (mine : own (.node id)) :
    Infers p own P (ClassLang.recorded id x) good := by
  refine attempt_bind hx (fun r => ?_) fun e => .right fun _ => .settle_error e
  refine learn_bind (fun known => .record id r mine) (fun known f clean => ?_) (settle (·.1))
  obtain ⟨⟨type, rfl, _⟩, _⟩ := known
  exact clean.record id type

theorem remembered {x : Infer Ty} {id : Nat} (hx : Infers p own P x fun _ => True)
    (mine : own (.node id)) : Infers p own P (ClassLang.remembered id x) fun _ => True := by
  refine findings_bind fun known => ?_
  cases stored : known.cached id with
  | none => exact (recorded hx mine).weaken (·.2) fun _ _ => trivial
  | some result =>
    exact settle_isOk fun ⟨clean, _⟩ => clean.cached_isOk stored

/-- As `remembered`, for an entry that stays: nothing below makes an entry about it. -/
theorem remembered_once {x : Infer Ty} {id : Nat} {less : Subject → Prop}
    (hx : Infers p less P x fun _ => True) (le : ∀ subject, less subject → own subject)
    (mine : own (.type id)) (node : ¬less (.node id)) (type : ¬less (.type id)) :
    Infers p own P (ClassLang.remembered id x) fun _ => True := by
  have wider : Infers p (fun subject => less subject ∨ subject = .node id) P x fun _ => True :=
    ⟨fun scope s same => (hx.within scope s same).mono fun _ h => .inl h, hx.faithful⟩
  refine ⟨fun scope s same => ?_, (remembered wider (.inr rfl)).faithful⟩
  cases stored : s.findings.cached id with
  | some result =>
    rw [exec_remembered_known stored]
    exact Steps.refl s
  | none =>
    rw [exec_remembered_unknown stored]
    have first := hx.within scope s same
    have unknown := (first.cached_eq node type).trans stored
    exact (first.mono le).trans (Steps.single (.enter (.resolve id _ mine unknown)))

end Infers

theorem succeeds_honest {p : Program} {own : Subject → Prop} {P : Prop} {x : Infer α}
    (h : Infers p own P x fun _ => True) :
    Honest p own (fun _ => P) (succeeds x) (· = true) (· = false) := by
  refine .bind h (fun _ mine => mine) (fun _ _ known _ => known) (fun r => .pure ?_)
    fun r scope s failed _ => failed
  rintro s ⟨⟨a, rfl, _⟩, _⟩
  rfl

end ClassLang
