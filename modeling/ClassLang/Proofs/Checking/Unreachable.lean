import ClassLang.Proofs.Checking.StatementReporting

/-!
Warnings about unreachable statements. The check of a list of statements warns at every statement right
after a jump of the list; all other warnings come from within its statements, whose lists are treated
alike. The first warning of a list is thus at the first statement that is not reached. Others follow if
there are jumps among the statements that are not reached.

* `checkStatements_warnings`: what the check of a list of statements warns of.
-/

namespace ClassLang

variable {α β : Type} {scope : Scope}

/-! ## Statements after jumps -/

/-- Each statement of a list, and whether it comes right after a jump; the first may. -/
def afterJumps (afterJump : Bool) (ss : List Statement) : List (Statement × Bool) :=
  ss.zip (afterJump :: ss.map Statement.isTerminator)

@[simp] theorem afterJumps_cons (afterJump : Bool) (s : Statement) (rest : List Statement) :
    afterJumps afterJump (s :: rest) = (s, afterJump) :: afterJumps s.isTerminator rest := rfl

/-- The statements of a list right after its jumps. -/
def followers (ss : List Statement) : List Statement :=
  ((afterJumps false ss).filter Prod.snd).map Prod.fst

mutual

/-- The statements right after jumps in all lists of statements inside a statement. -/
def Statement.unreached : Statement → List Statement
  | .ifElse _ _ thenBlock alternative => thenBlock.unreached ++ alternative.unreached
  | .while _ _ body | .block _ body => body.unreached
  | .tryCatch _ body handler => body.unreached ++ handler.unreached
  | .varDecl .. | .expr .. | .return .. | .break _ | .continue _ => []

def Alternative.unreached : Alternative → List Statement
  | .none => []
  | .block body => body.unreached
  | .elseIf _ thenBlock alternative => thenBlock.unreached ++ alternative.unreached

def Block.unreached : Block → List Statement
  | .mk _ statements => unreachedFrom false statements

def unreachedFrom (afterJump : Bool) : List Statement → List Statement
  | [] => []
  | s :: rest => (if afterJump then [s] else []) ++ s.unreached ++ unreachedFrom s.isTerminator rest

end

theorem unreachedFrom_eq (afterJump : Bool) (ss : List Statement) :
    unreachedFrom afterJump ss = (afterJumps afterJump ss).flatMap
      fun (s, afterJump) => (if afterJump then [s] else []) ++ s.unreached := by
  induction ss generalizing afterJump with
  | nil => rfl
  | cons s rest ih => rw [unreachedFrom, ih, afterJumps_cons, List.flatMap_cons]

theorem followers_eq_nil {ss : List Statement} :
    followers ss = [] ↔ ∀ s ∈ ss.dropLast, s.isTerminator = false := by
  induction ss with
  | nil => simp [followers, afterJumps]
  | cons s rest ih =>
    cases rest with
    | nil => simp [followers, afterJumps]
    | cons next rest => cases jump : s.isTerminator <;> simp_all [followers]

theorem followers_of_first {before after : List Statement} {jump next : Statement}
    (reached : ∀ s ∈ before, s.isTerminator = false) (jumps : jump.isTerminator = true) :
    followers (before ++ jump :: next :: after) = next :: followers (next :: after) := by
  induction before with
  | nil => simp [followers, jumps]
  | cons s before ih =>
    obtain ⟨here, later⟩ := List.forall_mem_cons.1 reached
    have rest := ih later
    cases before <;> simp_all [followers]

/-! ## Checks that warn -/

/-- The check adds just these warnings. -/
def Warns (warnings : List Warning) (scope : Scope) (x : Check α) : Prop :=
  ∀ s, (x.exec scope s).2.warnings = s.warnings ++ warnings

namespace Warns

variable {ws ws' : List Warning} {x : Check α} {k : α → Check β}

theorem bind (hx : Warns ws scope x) (hk : ∀ a, Warns ws' scope (k a)) :
    Warns (ws ++ ws') scope (x >>= k) := by
  intro s
  rw [Check.exec_bind, hk, hx, List.append_assoc]

theorem before (hx : Warns ws scope x) (hk : ∀ a, Warns [] scope (k a)) :
    Warns ws scope (x >>= k) := by
  have both := bind hx hk
  rwa [List.append_nil] at both

/-- A check that may not warn of anything does not warn. -/
theorem silent {allowed : CheckError → Prop} (h : Reports allowed (fun _ => False) scope x) :
    Warns [] scope x := by
  intro s
  obtain ⟨-, warnings, noted, none_⟩ := h s
  rw [noted, List.eq_nil_iff_forall_not_mem.2 none_]

theorem pure {a : α} : Warns [] scope (Pure.pure a : Check α) := fun _ => (List.append_nil _).symm

end Warns

theorem judge_warns (id : Nat) (valid : Bool) : Warns [] scope (judge id valid) := by
  have silent : Reports (fun _ => True) (fun _ => False) scope (judge id valid) := .judge id valid
  exact .silent silent

/-! ## Statements -/

/-- The warnings at statements, if such are wanted. -/
def Settings.unreachable (settings : Settings) (statements : List Statement) : List Warning :=
  if settings.warnUnreachable then statements.map fun s => ⟨s.span, .unreachable⟩ else []

theorem Settings.unreachable_nil (settings : Settings) : settings.unreachable [] = [] := by
  simp [unreachable]

theorem Settings.unreachable_append (settings : Settings) (ss ss' : List Statement) :
    settings.unreachable (ss ++ ss') = settings.unreachable ss ++ settings.unreachable ss' := by
  unfold unreachable
  split
  · exact List.map_append
  · rfl

theorem warnUnreachable_warns (s : Statement) :
    Warns (scope.settings.unreachable [s]) scope (warnUnreachable s.span) := by
  intro t
  unfold warnUnreachable Settings.unreachable
  rw [Check.exec_bind, Check.exec_read]
  split
  · rfl
  · exact (List.append_nil _).symm

theorem settings_bindAny (bound : Option (String × Resolved)) :
    (scope.bindAny bound).settings = scope.settings := by
  cases bound <;> rfl

theorem undeclaring_warns {check : Check Bool} {ws : List Warning} (h : Warns ws scope check) :
    Warns ws scope (undeclaring check) := h.before fun _ => .pure

/-- A check that may report any error but warn of nothing. -/
theorem unwarned {x : Check α} (h : Reports (fun _ => True) (fun _ => False) scope x) :
    Warns (scope.settings.unreachable []) scope x := by
  rw [Settings.unreachable_nil]
  exact .silent h

theorem Scope.permits_all (scope : Scope) (spans : List Span) (jumps returns : Bool) :
    scope.Permits (fun _ => True) spans jumps returns :=
  ⟨fun _ _ _ _ => trivial, fun _ _ _ _ _ => trivial, fun _ _ _ _ => trivial⟩

theorem checkCondition_warns (condition : Expr) : Warns [] scope (checkCondition condition) :=
  .silent (checkCondition_reports condition (scope.permits_all _ false false).plain)

mutual

theorem Statement.check_warns {scope : Scope} (declared : List String) : ∀ s : Statement,
    Warns (scope.settings.unreachable s.unreached) scope (s.check declared)
  | .varDecl _ decl =>
    unwarned (checkVarDecl_reports declared decl (scope.permits_all _ false false).plain)
  | .expr _ value =>
    undeclaring_warns (unwarned (checkEffect_reports value (scope.permits_all _ false false).plain))
  | .ifElse _ condition thenBlock alternative => by
    rw [Statement.unreached, Settings.unreachable_append]
    exact undeclaring_warns <| (checkCondition_warns condition).bind fun _ =>
      thenBlock.check_warns.bind fun _ => alternative.check_warns.before fun _ => .pure
  | .while _ condition body => by
    have repeated : Warns (scope.settings.unreachable body.unreached) scope
        (withReader (fun scope => { scope with inLoop := true }) body.check) :=
      fun s => body.check_warns s
    exact undeclaring_warns <| (checkCondition_warns condition).bind fun _ =>
      repeated.before fun _ => .pure
  | .tryCatch _ body handler => by
    rw [Statement.unreached, Settings.unreachable_append]
    exact undeclaring_warns <| body.check_warns.bind fun _ => handler.check_warns.before fun _ => .pure
  | .return n value =>
    undeclaring_warns (unwarned (checkReturn_reports
      (scope.permits_all (n.span :: value.elim [] Expr.spans) false true) (List.mem_cons_self ..)
      (List.subset_cons_self ..)))
  | .break n =>
    undeclaring_warns (unwarned (checkJump_reports (scope.permits_all [n.span] true false)
      (List.mem_cons_self ..) .kwBreak))
  | .continue n =>
    undeclaring_warns (unwarned (checkJump_reports (scope.permits_all [n.span] true false)
      (List.mem_cons_self ..) .kwContinue))
  | .block _ body => undeclaring_warns body.check_warns

theorem Alternative.check_warns {scope : Scope} : ∀ a : Alternative,
    Warns (scope.settings.unreachable a.unreached) scope a.check
  | .none => unwarned .pure
  | .block body => body.check_warns
  | .elseIf condition thenBlock alternative => by
    rw [Alternative.unreached, Settings.unreachable_append]
    exact (checkCondition_warns condition).bind fun _ =>
      thenBlock.check_warns.bind fun _ => alternative.check_warns.before fun _ => .pure

theorem Block.check_warns {scope : Scope} : ∀ b : Block,
    Warns (scope.settings.unreachable b.unreached) scope b.check
  | .mk n statements => (checkStatements_warns [] false statements).before fun _ => judge_warns n.id _

theorem checkStatements_warns {scope : Scope} (declared : List String) (afterJump : Bool) :
    ∀ ss : List Statement, Warns (scope.settings.unreachable (unreachedFrom afterJump ss)) scope
      (checkStatements declared afterJump ss)
  | [] => unwarned .pure
  | s :: rest => by
    have others (outcome : StatementOutcome) (declared : List String) :
        Warns (scope.settings.unreachable (unreachedFrom s.isTerminator rest)) scope
          (withReader (Scope.bindAny outcome.bound) (checkStatements declared s.isTerminator rest)) := by
      intro t
      rw [← settings_bindAny outcome.bound]
      exact checkStatements_warns declared s.isTerminator rest t
    have first : Warns _ scope (s.check declared) := s.check_warns declared
    have checked := first.bind fun outcome =>
      (judge_warns s.id outcome.valid).bind fun sound =>
      (others outcome (outcome.bound.elim declared fun (name, _) => name :: declared)).before
        fun restSound => .pure (a := sound && restSound)
    unfold checkStatements
    rw [unreachedFrom, List.append_assoc, Settings.unreachable_append, Settings.unreachable_append]
    dsimp only
    split
    · exact (warnUnreachable_warns s).bind fun _ => checked
    · rw [Settings.unreachable_nil]
      exact checked

end

/-- If the warnings are wanted, the check of a list of statements warns at each statement right after
a jump of the list, before what the check of that statement itself warns of. There are none of the list
itself if no statement but the last is a jump. Otherwise the statement after the first jump comes
first, and then those that come right after a jump in the rest from there on. -/
theorem checkStatements_warnings {scope : Scope} (wanted : scope.settings.warnUnreachable = true)
    (declared : List String) (ss : List Statement) :
    (∀ s, ((checkStatements declared false ss).exec scope s).2.warnings = s.warnings ++
      (afterJumps false ss).flatMap fun (t, afterJump) =>
        (if afterJump then [⟨t.span, .unreachable⟩] else []) ++
          t.unreached.map fun inner => ⟨inner.span, .unreachable⟩) ∧
    (∀ t ∈ ss, ∀ (declared : List String) (inside : Scope), inside.settings = scope.settings →
      ∀ s, ((t.check declared).exec inside s).2.warnings = s.warnings ++
        t.unreached.map fun inner => ⟨inner.span, .unreachable⟩) ∧
    (followers ss = [] ↔ ∀ t ∈ ss.dropLast, t.isTerminator = false) ∧
    ∀ before jump next after, ss = before ++ jump :: next :: after →
      (∀ t ∈ before, t.isTerminator = false) → jump.isTerminator = true →
        followers ss = next :: followers (next :: after) := by
  have told (ts : List Statement) : scope.settings.unreachable ts =
      ts.map fun t => ⟨t.span, .unreachable⟩ := by rw [Settings.unreachable, if_pos wanted]
  refine ⟨fun s => ?_, fun t _ declared inside same s => ?_, followers_eq_nil, ?_⟩
  · rw [checkStatements_warns declared false ss s, told, unreachedFrom_eq, List.map_flatMap]
    congr 2
    funext ⟨t, afterJump⟩
    cases afterJump <;> simp
  · rw [t.check_warns declared s, same, told]
  · rintro before jump next after rfl reached jumps
    exact followers_of_first reached jumps

/-- Of two returns and a statement after them, the second return and the statement are warned of. -/
theorem twoReturns_checkStatements_warnings :
    let first : Statement := .return ⟨0, ⟨0, 7⟩⟩ none
    let second : Statement := .return ⟨1, ⟨8, 15⟩⟩ none
    let last : Statement := .break ⟨2, ⟨16, 22⟩⟩
    let scope := Scope.top ⟨[], [], [], 3⟩ ⟨true, true⟩
    ((checkStatements [] false [first, second, last]).exec scope .empty).2.warnings =
        [⟨⟨8, 15⟩, .unreachable⟩, ⟨⟨16, 22⟩, .unreachable⟩] ∧
      ((first.check []).exec scope .empty).2.warnings = [] ∧
      followers [first, second, last] = second :: followers [second, last] := by
  intro first second last scope
  have wanted : scope.settings.warnUnreachable = true := rfl
  obtain ⟨all, each, -, leading⟩ := checkStatements_warnings wanted [] [first, second, last]
  exact ⟨all .empty, each first (List.mem_cons_self ..) [] scope rfl .empty,
    leading [] first second [last] rfl (fun _ => nofun) rfl⟩

end ClassLang
