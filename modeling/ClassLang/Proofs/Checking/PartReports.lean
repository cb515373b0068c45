import ClassLang.Proofs.Checking.Reporting
import ClassLang.Proofs.Checking.RuleHonesty
import ClassLang.Proofs.Checking.Separation
import ClassLang.Proofs.Parsing.Runs
import ClassLang.Proofs.Syntax.Subtrees

/-!
What is reported about an expression with a faulty part. The checks of its parts are listed with the
states that they start from; their reports make up the reports about the whole, and only a call adds
one of its own.

* `Expr.infer_relays`: an expression with a faulty part is faulty, and not reported again.
-/

namespace ClassLang

variable {α β : Type} {scope : Scope} {s t u : CheckState}

/-! ## Checks of parts -/

/-- The check of an expression, from a state. -/
structure PartCheck where
  part : Expr
  before : CheckState

namespace PartCheck

def outcome (scope : Scope) (c : PartCheck) : Resolved × CheckState :=
  Check.exec c.part.infer.run scope c.before

def Fails (scope : Scope) (c : PartCheck) : Prop := (c.outcome scope).1 = .error ⟨⟩

instance (c : PartCheck) : Decidable (c.Fails scope) :=
  inferInstanceAs (Decidable ((c.outcome scope).1 = .error ⟨⟩))

/-- What the check reports. -/
def told (scope : Scope) (c : PartCheck) : List CheckError := c.before.newErrors (c.outcome scope).2

theorem errors_outcome (scope : Scope) (c : PartCheck) :
    (c.outcome scope).2.errors = c.before.errors ++ c.told scope := by
  have admits : Admits (fun _ => True) c.part.spans := fun _ _ _ _ => trivial
  have reports : Reports (fun _ => True) Warning.Any scope c.part.infer.run :=
    Expr.infer_reports c.part admits
  obtain ⟨⟨errors, told, -⟩, -⟩ := reports c.before
  have told : (c.outcome scope).2.errors = c.before.errors ++ errors := told
  rw [PartCheck.told, CheckState.newErrors, told, List.drop_left]

end PartCheck

/-- The checks of some expressions, one after the other. -/
def inTurn (scope : Scope) : List Expr → CheckState → List PartCheck
  | [], _ => []
  | e :: rest, s => ⟨e, s⟩ :: inTurn scope rest (PartCheck.outcome scope ⟨e, s⟩).2

/-- The checks of the keys and values of some pairs, each pair recorded before the next is checked. -/
def pairsInTurn (scope : Scope) : List KeymapPair → CheckState → List PartCheck
  | [], _ => []
  | .mk node key value :: rest, s =>
    inTurn scope [key, value] s ++
      pairsInTurn scope rest ((recordedPair node (pairType key.infer value.infer)).exec scope s).2

/-- The check of what a member is taken from. The name of a class is not checked. -/
def receiverInTurn (scope : Scope) (target : Expr) (s : CheckState) : List PartCheck :=
  if (scope.namedClass? s.findings target).isSome then [] else [⟨target, s⟩]

/-- The check of what is called. -/
def calleeInTurn (scope : Scope) (callee : Expr) (s : CheckState) : List PartCheck :=
  match callee with
  | .ident .. => []
  | .member _ target _ _ => receiverInTurn scope target s
  | other => [⟨other, s⟩]

/-- The checks of the parts of an expression, in the order in which the check of the expression makes
them. -/
def Expr.partsInTurn (scope : Scope) (s : CheckState) : Expr → List PartCheck
  | .ident .. | .this _ | .literal .. | .new .. => []
  | .list _ elems => inTurn scope elems s
  | .keymap _ pairs => pairsInTurn scope pairs s
  | .binary _ _ a b | .index _ a b | .assign _ _ a b => inTurn scope [a, b] s
  | .unary _ _ operand => inTurn scope [operand] s
  | .member _ target _ _ => receiverInTurn scope target s
  | .call _ callee args =>
    inTurn scope args s ++ calleeInTurn scope callee ((inferEach args).exec scope s).2

/-- Nothing is reported beside what is reported about some parts, or one error where none of them
fails. -/
def AddsOnce (scope : Scope) (parts : List PartCheck) (spans : List Span) (own : List CheckError) :
    Prop :=
  own = [] ∨ (∀ c ∈ parts, ¬c.Fails scope) ∧ ∃ e, own = [e] ∧ e.span ∈ spans

/-- What a call may report beside what is reported about its parts: once that a name, or a member of
something that is no fault, cannot be called, and in any case that nothing else can. -/
def Expr.calleeAdds (scope : Scope) (s : CheckState) (own : List CheckError) : Expr → Prop
  | .ident n _ => AddsOnce scope [] [n.span] own
  | .member _ target _ name =>
    AddsOnce scope (receiverInTurn scope target s) [target.span, name.span] own
  | other => own = [⟨other.span, .notCallable⟩]

/-- What an expression with a faulty part may report beside what is reported about its parts. -/
def Expr.adds (scope : Scope) (s : CheckState) (own : List CheckError) : Expr → Prop
  | .call _ callee args => callee.calleeAdds scope ((inferEach args).exec scope s).2 own
  | _ => own = []

/-! ## Runs of parts -/

/-- A run comes to nothing, and has reported what some checks of parts report and a little more. -/
structure Relays (scope : Scope) (s : CheckState) (parts : List PartCheck) (own : List CheckError)
    (outcome : Except Reported α × CheckState) : Prop where
  failed : outcome.1 = .error ⟨⟩
  errors : outcome.2.errors = s.errors ++ (parts.flatMap (PartCheck.told scope) ++ own)

theorem mapM_id_fault {rs : List (Except Reported α)} (fault : .error ⟨⟩ ∈ rs) :
    rs.mapM id = .error ⟨⟩ := by
  refine (not_allOk_iff.1 (?_ : ¬AllOk rs)).elim fun _ failed => failed
  induction rs with
  | nil => cases fault
  | cons r rest ih =>
    rw [AllOk, mapM_id_cons, Bool.and_eq_true, not_and]
    rcases List.mem_cons.1 fault with rfl | later
    · exact fun sound => absurd sound Bool.false_ne_true
    · exact fun _ => ih later

theorem exec_inferEach_cons (e : Expr) (rest : List Expr) (s : CheckState) :
    (inferEach (e :: rest)).exec scope s =
      let first := PartCheck.outcome scope ⟨e, s⟩
      let others := (inferEach rest).exec scope first.2
      (first.1 :: others.1, others.2) := rfl

theorem inferEach_results (es : List Expr) (s : CheckState) :
    ((inferEach es).exec scope s).1 = (inTurn scope es s).map fun c => (c.outcome scope).1 := by
  induction es generalizing s with
  | nil => rfl
  | cons e rest ih => rw [exec_inferEach_cons, inTurn, List.map_cons, ← ih]

theorem inferEach_errors (es : List Expr) (s : CheckState) :
    ((inferEach es).exec scope s).2.errors =
      s.errors ++ (inTurn scope es s).flatMap (PartCheck.told scope) := by
  induction es generalizing s with
  | nil => exact (List.append_nil _).symm
  | cons e rest ih =>
    rw [exec_inferEach_cons, ih, PartCheck.errors_outcome, inTurn, List.flatMap_cons, List.append_assoc]

theorem inferEach_fault {es : List Expr} (failed : ∃ c ∈ inTurn scope es s, c.Fails scope) :
    allResolved ((inferEach es).exec scope s).1 = .error ⟨⟩ := by
  obtain ⟨c, listed, fault⟩ := failed
  refine mapM_id_fault ?_
  rw [inferEach_results, ← fault]
  exact List.mem_map_of_mem (f := fun c : PartCheck => (c.outcome scope).1) listed

/-- Two parts are checked one after the other, and then their types are asked for. -/
def bothTypes (a b : Infer Ty) (next : Ty → Ty → Infer α) : Infer α := do
  let left ← attempt a
  let right ← attempt b
  next (← settle left) (← settle right)

/-- A first step that comes to nothing is the whole run. -/
theorem exec_bind_error {x : Infer α} {next : α → Infer β} {t : CheckState}
    (run : Check.exec x.run scope s = (.error ⟨⟩, t)) :
    Check.exec (x >>= next).run scope s = (.error ⟨⟩, t) := by
  rw [Infer.exec_bind, run]

theorem settle_both_fault {γ : Type} {r : Except Reported α} {r' : Except Reported β}
    (next : α → β → Infer γ) (fault : r = .error ⟨⟩ ∨ r' = .error ⟨⟩) (s : CheckState) :
    Check.exec (do next (← settle r) (← settle r')).run scope s = (.error ⟨⟩, s) := by
  rcases fault with rfl | rfl
  · rfl
  · cases r <;> rfl

theorem exec_bothTypes_fault {a b : Expr} (next : Ty → Ty → Infer α)
    (failed : ∃ c ∈ inTurn scope [a, b] s, c.Fails scope) :
    Check.exec (bothTypes a.infer b.infer next).run scope s =
      (.error ⟨⟩, ((inferEach [a, b]).exec scope s).2) := by
  let first := PartCheck.outcome scope ⟨a, s⟩
  let second := PartCheck.outcome scope ⟨b, first.2⟩
  have fault : first.1 = .error ⟨⟩ ∨ second.1 = .error ⟨⟩ := by
    simpa [inTurn, PartCheck.Fails] using failed
  exact settle_both_fault next fault second.2

theorem bothTypes_relays {a b : Expr} (next : Ty → Ty → Infer α)
    (failed : ∃ c ∈ inTurn scope [a, b] s, c.Fails scope) :
    Relays scope s (inTurn scope [a, b] s) []
      (Check.exec (bothTypes a.infer b.infer next).run scope s) := by
  rw [exec_bothTypes_fault next failed]
  exact ⟨rfl, by rw [List.append_nil]; exact inferEach_errors [a, b] s⟩

/-! ## Rules -/

theorem listType_relays {elems : List Expr} (failed : ∃ c ∈ inTurn scope elems s, c.Fails scope) :
    Relays scope s (inTurn scope elems s) []
      (Check.exec (listType elems (inferEach elems)).run scope s) := by
  have run : Check.exec (listType elems (inferEach elems)).run scope s =
      (.error ⟨⟩, ((inferEach elems).exec scope s).2) := by
    rw [listType, Infer.run_lift_bind, Check.exec_bind, inferEach_fault failed]
    rfl
  rw [run]
  exact ⟨rfl, by rw [List.append_nil]; exact inferEach_errors elems s⟩

theorem Relays.bind {x : Infer α} {next : α → Infer β} {parts : List PartCheck} {own : List CheckError}
    (relays : Relays scope s parts own (Check.exec x.run scope s)) :
    Relays scope s parts own (Check.exec (x >>= next).run scope s) := by
  rw [exec_bind_error (Prod.ext relays.failed rfl)]
  exact ⟨rfl, relays.errors⟩

/-- A run reports what some checks of parts report, and one error more only where it comes to nothing
though none of them fails. -/
structure Adds (scope : Scope) (s : CheckState) (parts : List PartCheck) (spans : List Span)
    (own : List CheckError) (outcome : Except Reported α × CheckState) : Prop where
  errors : outcome.2.errors = s.errors ++ (parts.flatMap (PartCheck.told scope) ++ own)
  once : AddsOnce scope parts spans own
  fault : (∃ c ∈ parts, c.Fails scope) ∨ own ≠ [] → outcome.1 = .error ⟨⟩

namespace Adds

variable {parts : List PartCheck} {spans : List Span}

theorem part (spans : List Span) (e : Expr) : Adds scope s [⟨e, s⟩] spans [] (Check.exec e.infer.run scope s) where
  errors := by
    rw [List.append_nil]
    exact inferEach_errors [e] s
  once := .inl rfl
  fault := by simp [PartCheck.Fails, PartCheck.outcome]

theorem settleBy {r : Except CheckError α} (blames : Blames spans r) (scope : Scope) (s : CheckState) :
    ∃ own, Adds scope s [] spans own (Check.exec (ClassLang.settleBy r).run scope s) := by
  cases r with
  | ok a => exact ⟨[], (List.append_nil _).symm, .inl rfl, by simp⟩
  | error e => exact ⟨[e], rfl, .inr ⟨fun _ => nofun, e, rfl, (blames e rfl).1⟩, fun _ => rfl⟩

theorem bind {x : Infer α} {next : α → Infer β}
    (first : ∃ own, Adds scope s parts spans own (Check.exec x.run scope s))
    (later : ∀ a t, ∃ own, Adds scope t [] spans own (Check.exec (next a).run scope t)) :
    ∃ own, Adds scope s parts spans own (Check.exec (x >>= next).run scope s) := by
  obtain ⟨own, errors, once, fault⟩ := first
  cases run : Check.exec x.run scope s with
  | mk result t =>
    rw [run] at errors fault
    cases result with
    | error reported =>
      rw [exec_bind_error run]
      exact ⟨own, errors, once, fun _ => rfl⟩
    | ok a =>
      -- The second step starts with nothing added and no part that fails, so what it adds is all.
      have sound : ∀ c ∈ parts, ¬c.Fails scope := fun c listed fails =>
        nomatch fault (.inl ⟨c, listed, fails⟩)
      have silent : own = [] := by
        by_contra told
        exact nomatch fault (.inr told)
      subst silent
      rw [Infer.exec_bind, run]
      obtain ⟨own, added, once, fault⟩ := later a t
      refine ⟨own, ?_, once.imp_right fun ⟨_, more⟩ => ⟨sound, more⟩, fun cause => fault ?_⟩
      · rw [added, errors, List.append_nil, List.append_assoc]
        rfl
      · exact cause.imp_left fun ⟨c, listed, fails⟩ => absurd fails (sound c listed)

/-- Nothing is added where a part fails. -/
theorem relays {own : List CheckError} {outcome : Except Reported α × CheckState}
    (adds : Adds scope s parts spans own outcome) (failed : ∃ c ∈ parts, c.Fails scope) :
    Relays scope s parts [] outcome := by
  obtain ⟨errors, once, fault⟩ := adds
  rcases once with rfl | ⟨sound, -⟩
  · exact ⟨fault (.inl failed), errors⟩
  · obtain ⟨c, listed, fails⟩ := failed
    exact absurd fails (sound c listed)

end Adds

theorem exec_receiver (target : Expr) (access : MemberAccess) (infer : Infer Ty) :
    Check.exec (receiver target access infer).run scope s =
      match scope.namedClass? s.findings target with
      | some owner => (.ok (.static owner),
        { s with findings :=
          ((s.findings.record target.id (.ok (scope.program.typeWithin owner))).use
            (.class owner)).setResolution target.id (.class owner) })
      | none => Check.exec
        (infer >>= fun type => settleBy (scope.instanceReceiver target access type)).run scope s := by
  unfold receiver
  rw [Infer.run_read_bind, Check.exec_bind, Check.exec_read, Infer.run_lift_bind, Check.exec_bind,
    Check.exec_findings]
  dsimp only
  cases scope.namedClass? s.findings target <;> rfl

theorem receiver_adds {target : Expr} {spans : List Span} (access : MemberAccess)
    (here : target.span ∈ spans) (s : CheckState) :
    ∃ own, Adds scope s (receiverInTurn scope target s) spans own
      (Check.exec (receiver target access target.infer).run scope s) := by
  rw [receiverInTurn, exec_receiver]
  cases scope.namedClass? s.findings target with
  | some owner => exact ⟨[], (List.append_nil _).symm, .inl rfl, by simp⟩
  | none =>
    refine Adds.bind ⟨[], .part spans target⟩ fun type t => Adds.settleBy (fun e refused => ?_) scope t
    have blames := scope.instanceReceiver_blames target access type e refused
    exact ⟨List.mem_singleton.1 blames.1 ▸ here, blames.2⟩

theorem unaryType_relays {node : Node} {op : UnaryOp} {operand : Expr}
    (failed : ∃ c ∈ inTurn scope [operand] s, c.Fails scope) :
    Relays scope s (inTurn scope [operand] s) []
      (Check.exec (unaryType node op operand operand.infer).run scope s) :=
  ((Adds.part [] operand).relays failed).bind

theorem memberType_relays {node : Node} {target : Expr} {access : MemberAccess} {name : Ident}
    (failed : ∃ c ∈ receiverInTurn scope target s, c.Fails scope) :
    Relays scope s (receiverInTurn scope target s) []
      (Check.exec (memberType node name (receiver target access target.infer)).run scope s) := by
  obtain ⟨_, adds⟩ := receiver_adds access (List.mem_singleton_self target.span) s
  exact (adds.relays failed).bind

/-! ## Pairs -/

theorem recordedPair_errors (node : Node) (key value : Expr) (s : CheckState) :
    ((recordedPair node (pairType key.infer value.infer)).exec scope s).2.errors =
      ((inferEach [key, value]).exec scope s).2.errors := by
  let first := PartCheck.outcome scope ⟨key, s⟩
  let second := PartCheck.outcome scope ⟨value, first.2⟩
  have silent (r r' : Resolved) (t : CheckState) :
      (Check.exec (do return (← settle r, ← settle r') : Infer (Ty × Ty)).run scope t).2 = t := by
    cases r <;> cases r' <;> rfl
  have kept : (Check.exec (pairType key.infer value.infer).run scope s).2 = second.2 :=
    silent first.1 second.1 second.2
  change (Check.exec (pairType key.infer value.infer).run scope s).2.errors = second.2.errors
  rw [kept]

theorem recordedPair_fault {node : Node} {key value : Expr}
    (failed : ∃ c ∈ inTurn scope [key, value] s, c.Fails scope) :
    ((recordedPair node (pairType key.infer value.infer)).exec scope s).1 = .error ⟨⟩ :=
  congrArg Prod.fst (exec_bothTypes_fault (fun a b => pure (a, b)) failed)

theorem exec_inferPairs_cons (node : Node) (key value : Expr) (rest : List KeymapPair)
    (s : CheckState) : (inferPairs (.mk node key value :: rest)).exec scope s =
      let first := (recordedPair node (pairType key.infer value.infer)).exec scope s
      let others := (inferPairs rest).exec scope first.2
      (first.1 :: others.1, others.2) := rfl

theorem inferPairs_errors (pairs : List KeymapPair) (s : CheckState) :
    ((inferPairs pairs).exec scope s).2.errors =
      s.errors ++ (pairsInTurn scope pairs s).flatMap (PartCheck.told scope) := by
  induction pairs generalizing s with
  | nil => exact (List.append_nil _).symm
  | cons pair rest ih =>
    obtain ⟨node, key, value⟩ := pair
    rw [exec_inferPairs_cons, ih, recordedPair_errors, inferEach_errors, pairsInTurn,
      List.flatMap_append, List.append_assoc]

theorem inferPairs_fault {pairs : List KeymapPair} (s : CheckState)
    (failed : ∃ c ∈ pairsInTurn scope pairs s, c.Fails scope) :
    .error ⟨⟩ ∈ ((inferPairs pairs).exec scope s).1 := by
  induction pairs generalizing s with
  | nil => simp [pairsInTurn] at failed
  | cons pair rest ih =>
    obtain ⟨node, key, value⟩ := pair
    obtain ⟨c, listed, failing⟩ := failed
    rw [exec_inferPairs_cons]
    dsimp only
    rcases List.mem_append.1 listed with here | later
    · rw [recordedPair_fault ⟨c, here, failing⟩]
      exact List.mem_cons_self ..
    · exact List.mem_cons_of_mem _ (ih _ ⟨c, later, failing⟩)

theorem keymapLiteralType_relays {pairs : List KeymapPair}
    (failed : ∃ c ∈ pairsInTurn scope pairs s, c.Fails scope) :
    Relays scope s (pairsInTurn scope pairs s) []
      (Check.exec (keymapLiteralType pairs (inferPairs pairs)).run scope s) := by
  have run : Check.exec (keymapLiteralType pairs (inferPairs pairs)).run scope s =
      (.error ⟨⟩, ((inferPairs pairs).exec scope s).2) := by
    rw [keymapLiteralType, Infer.run_lift_bind, Check.exec_bind,
      mapM_id_fault (inferPairs_fault s failed)]
    rfl
  rw [run]
  exact ⟨rfl, by rw [List.append_nil]; exact inferPairs_errors pairs s⟩

/-! ## Calls -/

/-- The search for a callee reports what its parts report and a little more, and finds nothing if one
of them fails. -/
structure CalleeAdds (scope : Scope) (s : CheckState) (callee : Expr) (own : List CheckError)
    (outcome : Except Reported Callee × CheckState) : Prop where
  adds : callee.calleeAdds scope s own
  errors : outcome.2.errors =
    s.errors ++ ((calleeInTurn scope callee s).flatMap (PartCheck.told scope) ++ own)
  fault : (∃ c ∈ calleeInTurn scope callee s, c.Fails scope) → outcome.1 = .error ⟨⟩

/-- What is neither a name nor a member is checked, and reported whatever the check says. -/
theorem CalleeAdds.uncallable {callee : Expr} {find : Infer Callee}
    (rule : Check.exec find.run scope s = (.error ⟨⟩, { ((inferEach [callee]).exec scope s).2 with
      errors := ((inferEach [callee]).exec scope s).2.errors ++ [⟨callee.span, .notCallable⟩] }))
    (parts : calleeInTurn scope callee s = [⟨callee, s⟩])
    (adds : callee.calleeAdds scope s [⟨callee.span, .notCallable⟩]) :
    CalleeAdds scope s callee [⟨callee.span, .notCallable⟩] (Check.exec find.run scope s) := by
  rw [rule]
  refine ⟨adds, ?_, fun _ => rfl⟩
  rw [parts, ← List.append_assoc]
  exact congrArg (· ++ _) (inferEach_errors [callee] s)

theorem findCallee_adds (callee : Expr) (s : CheckState) : ∃ own, CalleeAdds scope s callee own
    (Check.exec (findCallee callee callee.infer callee.inferTarget).run scope s) := by
  cases callee with
  | ident n name =>
    obtain ⟨own, errors, once, fault⟩ :=
      Adds.settleBy (scope.calleeNamed_blames s.findings n.span name.name) scope s
    exact ⟨own, once, errors, fun failed => fault (.inl failed)⟩
  | member n target access name =>
    let later (from_ : Receiver) : Infer Callee := do settleBy (scope.calleeOf (← findings) from_ name)
    have sought (from_ : Receiver) (t : CheckState) : ∃ own,
        Adds scope t [] [target.span, name.span] own (Check.exec (later from_).run scope t) :=
      Adds.settleBy ((scope.calleeOf_blames t.findings from_ name).mono (List.subset_cons_self _ _))
        scope t
    obtain ⟨own, errors, once, fault⟩ :=
      Adds.bind (receiver_adds access (List.mem_cons_self ..) s) sought
    exact ⟨own, once, errors, fun failed => fault (.inl failed)⟩
  | this | literal | list | keymap | binary | unary | new | index | call | assign =>
    exact ⟨_, .uncallable rfl rfl rfl⟩

theorem exec_callType_fault {call callee : Expr} {args : List Expr} {infer inferTarget : Infer Ty}
    {inferArgs : Check (List Resolved)} {results : List Resolved} {found : Except Reported Callee}
    (first : inferArgs.exec scope s = (results, t))
    (second : Check.exec (findCallee callee infer inferTarget).run scope t = (found, u))
    (fault : found = .error ⟨⟩ ∨ allResolved results = .error ⟨⟩) :
    Check.exec (callType call callee args infer inferTarget inferArgs).run scope s =
      (.error ⟨⟩, { u with findings := u.findings.setValid callee.id found.isOk }) := by
  rw [callType, Infer.run_lift_bind, Check.exec_bind, first]
  dsimp only
  rw [Infer.run_attempt_bind, Check.exec_bind, second]
  dsimp only
  rw [Infer.run_lift_bind, Check.exec_bind, Check.exec_learn]
  exact settle_both_fault _ fault _

theorem callType_relays {n : Node} {callee : Expr} {args : List Expr}
    (failed : ∃ c ∈ (Expr.call n callee args).partsInTurn scope s, c.Fails scope) :
    ∃ own, (Expr.call n callee args).adds scope s own ∧
      Relays scope s ((Expr.call n callee args).partsInTurn scope s) own
        (Check.exec (callType (.call n callee args) callee args callee.infer callee.inferTarget
          (inferEach args)).run scope s) := by
  obtain ⟨own, adds, errors, fault⟩ := findCallee_adds callee ((inferEach args).exec scope s).2
  refine ⟨own, adds, ?_⟩
  rw [exec_callType_fault rfl rfl ?_]
  · refine ⟨rfl, ?_⟩
    rw [inferEach_errors] at errors
    exact errors.trans (by
      rw [Expr.partsInTurn, List.flatMap_append, List.append_assoc, List.append_assoc])
  · obtain ⟨c, listed, fails⟩ := failed
    rcases List.mem_append.1 listed with ofArg | ofCallee
    · exact .inr (inferEach_fault ⟨c, ofArg, fails⟩)
    · exact .inl (fault ⟨c, ofCallee, fails⟩)

/-! ## Expressions -/

theorem Relays.remembered {e : Expr} {x : Infer Ty} {parts : List PartCheck} {own : List CheckError}
    (fresh : s.findings.cached e.id = none)
    (relays : Relays scope s parts own (Check.exec x.run scope s)) :
    Relays scope s parts own (Check.exec (remembered e.id x).run scope s) := by
  rw [exec_remembered_unknown fresh]
  exact ⟨relays.failed, relays.errors⟩

theorem Expr.relays (e : Expr) (fresh : s.findings.cached e.id = none)
    (failed : ∃ c ∈ e.partsInTurn scope s, c.Fails scope) : ∃ own, e.adds scope s own ∧
      Relays scope s (e.partsInTurn scope s) own (Check.exec e.infer.run scope s) := by
  cases e with
  | ident | this | literal | new => simp [Expr.partsInTurn] at failed
  | list n elems => exact ⟨[], rfl, .remembered fresh (listType_relays failed)⟩
  | keymap n pairs => exact ⟨[], rfl, .remembered fresh (keymapLiteralType_relays failed)⟩
  | binary n op a b => exact ⟨[], rfl, .remembered fresh (bothTypes_relays _ failed)⟩
  | unary n op operand => exact ⟨[], rfl, .remembered fresh (unaryType_relays failed)⟩
  | member n target access name => exact ⟨[], rfl, .remembered fresh (memberType_relays failed)⟩
  | index n target index => exact ⟨[], rfl, .remembered fresh (bothTypes_relays _ failed)⟩
  | call n callee args =>
    obtain ⟨own, adds, relays⟩ := callType_relays failed
    exact ⟨own, adds, .remembered fresh relays⟩
  | assign n kind target value => exact ⟨[], rfl, .remembered fresh (bothTypes_relays _ failed)⟩

/-- An expression with a faulty part is faulty. What is reported about it is what is reported about its
parts, in their order, unless it is a call: a name that cannot be called, or a member of something that
is no fault, may be reported once, and a callee that is neither is reported in any case. -/
theorem Expr.infer_relays (e : Expr) (scope : Scope) {s : CheckState}
    (fresh : s.findings.cached e.id = none) (failed : ∃ c ∈ e.partsInTurn scope s, c.Fails scope) :
    let check : PartCheck := ⟨e, s⟩
    check.Fails scope ∧ ∃ own, e.adds scope s own ∧
      check.told scope = (e.partsInTurn scope s).flatMap (PartCheck.told scope) ++ own := by
  obtain ⟨own, adds, fault, errors⟩ := e.relays fresh failed
  exact ⟨fault, own, adds, List.append_cancel_left ((PartCheck.errors_outcome ..).symm.trans errors)⟩

/-- A call of a list with an unknown element. -/
def calledList : Source := ⟨"[x](2);", none⟩

theorem calledList_relays : ∃ p e own, calledList.parse Parser.program = .ok p ∧ e ∈ p.exprs ∧
    let scope := Scope.top p ⟨true, true⟩
    (⟨e, .empty⟩ : PartCheck).Fails scope ∧ e.adds scope .empty own ∧
      PartCheck.told scope ⟨e, .empty⟩ =
        (e.partsInTurn scope .empty).flatMap (PartCheck.told scope) ++ own ∧
      (PartCheck.told scope ⟨e, .empty⟩).map CheckError.cause =
        [.unknownVariable "x", .notCallable] ∧
      own.map CheckError.cause = [.notCallable] := by
  have run : (calledList.parse Parser.program).toOption.map (fun p => p.exprs.any fun e =>
      let scope := Scope.top p ⟨true, true⟩
      let parts := e.partsInTurn scope .empty
      parts.any (fun c => c.Fails scope) &&
        ((parts.flatMap (PartCheck.told scope)).map CheckError.cause,
          (PartCheck.told scope ⟨e, .empty⟩).map CheckError.cause) ==
        ([.unknownVariable "x"], [.unknownVariable "x", .notCallable])) = some true := by
    decide +kernel
  obtain ⟨p, parsed, views⟩ := Option.map_eq_some_iff.1 run
  obtain ⟨e, listed, views⟩ := List.any_eq_true.1 views
  simp only [Bool.and_eq_true, List.any_eq_true, decide_eq_true_eq, beq_iff_eq, Prod.mk.injEq] at views
  obtain ⟨failed, ofParts, told⟩ := views
  obtain ⟨fault, own, adds, errors⟩ := Expr.infer_relays e (.top p ⟨true, true⟩) rfl failed
  refine ⟨p, e, own, ok_of_toOption parsed, listed, fault, adds, errors, told, ?_⟩
  rw [errors, List.map_append, ofParts] at told
  exact List.append_cancel_left told

end ClassLang
