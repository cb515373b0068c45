import ClassLang.Proofs.Checking.Honesty

/-!
The rules for written types, members, operators and calls are honest if what they are given is.
-/

namespace ClassLang

variable {α : Type} {p : Program} {own : Subject → Prop} {P : Prop}

/-! ## Lists of results -/

def AllOk (results : List (Except Reported α)) : Prop := (results.mapM id).isOk = true

theorem mapM_id_cons (r : Except Reported α) (rs : List (Except Reported α)) :
    ((r :: rs).mapM id).isOk = (r.isOk && (rs.mapM id).isOk) := by
  rw [List.mapM_cons]
  cases r with
  | error e => rfl
  | ok a => cases rs.mapM id <;> rfl

theorem not_allOk_iff {results : List (Except Reported α)} :
    ¬AllOk results ↔ ∃ e, results.mapM id = .error e := by
  unfold AllOk
  cases results.mapM id <;> simp [Except.isOk, Except.toBool]

theorem Honest.consResults {x : Check (Except Reported α)}
    {rest : Check (List (Except Reported α))}
    (hx : Honest p own (fun _ => P) x (·.isOk = true) (·.isOk = false))
    (hrest : Honest p own (fun _ => P) rest AllOk (¬AllOk ·)) :
    Honest p own (fun _ => P) (do
      let r ← x
      return r :: (← rest)) AllOk (¬AllOk ·) := by
  refine .bind hx (fun _ h => h) (fun _ _ holds _ => holds) (fun r => ?_) fun r scope s failed _ => ?_
  · refine .bind (hrest.weaken (fun _ h => h.2) (fun _ h => h) fun _ h => h) (fun _ h => h)
      (fun _ _ holds _ => holds) (fun rs => .pure fun s holds => ?_) fun rs scope s failed _ => ?_
    · obtain ⟨others, first, _⟩ := holds
      simp only [AllOk, mapM_id_cons, first, Bool.true_and]
      exact others
    · simp only [Check.exec_pure, AllOk, mapM_id_cons, Bool.and_eq_true, not_and]
      exact fun _ => failed
  · simp only [Check.exec_bind, Check.exec_pure, AllOk, mapM_id_cons, failed, Bool.false_and]
    simp

theorem Infers.results_bind {β : Type} {x : Check (List (Except Reported α))}
    {f : List (Except Reported α) → Infer β} {good : β → Prop}
    (hx : Honest p own (fun _ => P) x AllOk (¬AllOk ·))
    (hf : ∀ rs, Infers p own (AllOk rs ∧ P) (f rs) good)
    (hb : ∀ rs e, rs.mapM id = .error e → Fails (f rs)) :
    Infers p own P ((liftM x : Infer _) >>= f) good := by
  refine .lift_bind hx hf fun rs failed => ?_
  obtain ⟨e, failed⟩ := not_allOk_iff.1 failed
  exact hb rs e failed

theorem Infers.run_honest {x : Infer α} {good : α → Prop} (h : Infers p own P x good) :
    Honest p own (fun _ => P) x.run (·.isOk = true) (·.isOk = false) := by
  refine Honest.weaken h (fun _ known => known) ?_ fun _ failed => failed
  rintro _ ⟨a, rfl, _⟩
  rfl

/-! ## Written types -/

section WrittenTypes

variable {args : Check (List Resolved)} (node : Node) (mods : Modifiers) (name : String)

theorem arrayType_infers (h : Honest p own (fun _ => P) args AllOk (¬AllOk ·)) :
    Infers p own P (arrayType node mods args) fun _ => True := by
  refine .results_bind h (fun rs => ?_) fun rs e failed => .left ?_
  · refine .settle_bind (·.1) fun types _ => ?_
    split
    · exact .pure fun _ => trivial
    · exact .fail
  · rw [allResolved, failed]
    exact .settle_error e

theorem keymapType_infers (h : Honest p own (fun _ => P) args AllOk (¬AllOk ·)) :
    Infers p own P (keymapType node mods args) fun _ => True := by
  refine .results_bind h (fun rs => ?_) fun rs e failed => .left ?_
  · refine .settle_bind (·.1) fun types _ => ?_
    split
    · exact .pure fun _ => trivial
    · exact .fail
  · rw [allResolved, failed]
    exact .settle_error e

theorem namedType_infers (mine : own (.name node.id)) :
    Infers p own P (namedType node mods name) fun _ => True := by
  refine .read_bind fun scope same => ?_
  refine .learn_bind (fun known => .setAlias node.id _ mine)
    (fun _ known clean => clean.of_eq (fun _ => rfl) fun _ => rfl) ?_
  split
  · exact .pure fun _ => trivial
  refine .settleBy_bind fun owner _ => ?_
  dsimp only
  split
  · exact .fail_bind
  · refine .learn_bind (fun known => .useClass owner)
      (fun _ known clean => clean.of_eq (fun _ => rfl) fun _ => rfl) ?_
    exact .pure fun _ => trivial

theorem genericType_infers (h : Honest p own (fun _ => P) args AllOk (¬AllOk ·))
    (mine : own (.name node.id)) :
    Infers p own P (genericType node mods name args) fun _ => True := by
  refine .read_bind fun scope same => ?_
  split
  · refine .learn_bind (fun known => .setAlias node.id _ mine)
      (fun _ known clean => clean.of_eq (fun _ => rfl) fun _ => rfl) ?_
    exact .fail_bind
  refine .results_bind (h.weaken (fun _ known => known.2) (fun _ h => h) fun _ h => h)
    (fun rs => ?_) fun rs e failed => .right fun _ => .left ?_
  · refine .settleBy_bind fun owner _ => .settle_bind (·.1) fun types _ => ?_
    dsimp only
    split
    · exact .fail_bind
    split
    · exact .fail_bind
    refine .learn_bind (fun known => .useClass owner)
      (fun _ known clean => clean.of_eq (fun _ => rfl) fun _ => rfl) ?_
    split
    · refine .learn_bind (fun known => .instantiate name types)
        (fun _ known clean => clean.instantiate name types) ?_
      exact .pure fun _ => trivial
    · exact .pure fun _ => trivial
  · rw [allResolved, failed]
    exact .settle_error e

end WrittenTypes

/-! ## Members -/

theorem Infers.refer_bind {id : Nat} {decl : Decl} {f : Unit → Infer α} {good : α → Prop}
    (mine : own (.node id)) (hf : Infers p own P (f ()) good) :
    Infers p own P ((liftM (refer id decl) : Infer Unit) >>= f) good :=
  .learn_bind (fun _ => .refer id decl mine)
    (fun _ _ clean => clean.of_eq (fun _ => rfl) fun _ => rfl) hf

theorem Program.findField?_isOk {f : Findings} (clean : f.Clean) {owner : Nat} {name : String}
    {receiver : Substitution} {found : FoundField}
    (h : p.findField? f owner name receiver = some found) : found.type.isOk = true := by
  obtain ⟨ancestor, _, h⟩ := List.exists_of_findSome?_eq_some h
  simp only [Option.bind_eq_bind, Option.bind_eq_some_iff, Option.pure_def, Option.some.injEq] at h
  obtain ⟨_, _, _, _, type, known, rfl⟩ := h
  have sound := clean.cached_isOk known
  cases type with
  | ok type => rfl
  | error e => cases sound

theorem Scope.memberOf_isOk {scope : Scope} {f : Findings} (clean : f.Clean) {receiver : Receiver}
    {name : Ident} {found : FoundField} (h : scope.memberOf f receiver name = .ok found) :
    found.type.isOk = true := by
  unfold Scope.memberOf at h
  dsimp only at h
  split at h
  · cases h
  · rename_i located
    have sound := Program.findField?_isOk clean located
    revert h
    cases scope.checkAccess f name.span _ _ name.name with
    | error e => exact nofun
    | ok _ =>
      cases checkInstance name.span name.name _ receiver.hasInstance with
      | error e => exact nofun
      | ok _ =>
        intro h
        cases h
        exact sound

theorem useField_infers {id : Nat} {found : FoundField} (mine : own (.node id))
    (sound : P → found.type.isOk = true) : Infers p own P (useField id found) fun _ => True :=
  .refer_bind mine (.settle_isOk sound)

theorem nameType_infers (node : Node) (name : String) (mine : own (.node node.id)) :
    Infers p own P (nameType node name) fun _ => True := by
  refine .read_bind fun scope same => .findings_bind fun f => ?_
  split
  · rename_i bound inScope
    exact .settle_isOk fun ⟨_, tidy, _⟩ => tidy.bindings name bound inScope
  · rename_i found _ located
    refine .settleBy_bind fun _ _ => useField_infers mine fun ⟨clean, _⟩ => ?_
    unfold Scope.ownField? at located
    obtain ⟨owner, _, located⟩ := Option.bind_eq_some_iff.1 located
    exact Program.findField?_isOk clean located
  · exact .fail

theorem receiver_infers (target : Expr) (access : MemberAccess) {infer : Infer Ty}
    (mine : own (.node target.id)) (h : Infers p own P infer fun _ => True) :
    Infers p own P (receiver target access infer) fun _ => True := by
  refine .read_bind fun scope same => .findings_bind fun f => ?_
  split
  · refine .learn_bind (fun known => .record target.id _ mine) (fun _ _ clean => clean.record _ _) ?_
    exact .refer_bind mine (.pure fun _ => trivial)
  · refine .bind (h.weaken (fun known => known.2.2) fun _ h => h) fun type => ?_
    exact .settleBy fun _ _ _ => trivial

theorem memberType_infers (node : Node) (name : Ident) {receiver : Infer Receiver}
    (mine : own (.node node.id)) (h : Infers p own P receiver fun _ => True) :
    Infers p own P (memberType node name receiver) fun _ => True := by
  refine .bind h fun receiver => .read_bind fun scope same => .findings_bind fun f => ?_
  refine .settleBy_bind fun found located => ?_
  refine .bind (useField_infers mine fun ⟨clean, _⟩ => ?_) fun type => .pure fun _ => trivial
  exact Scope.memberOf_isOk clean located

/-! ## Operators -/

theorem overloadType_infers {id : Nat} (operator : Operator) (args : List Operand)
    (otherwise : CheckError) (mine : own (.node id)) :
    Infers p own P (overloadType id operator args otherwise) fun _ => True := by
  refine .read_bind fun scope same => .findings_bind fun f => ?_
  split
  · exact .refer_bind mine (.note_bind (.pure fun _ => trivial))
  · exact .settleBy fun _ _ _ => trivial

section Operators

variable {a b : Infer Ty} (node : Node)

theorem binaryType_infers (op : BinaryOp) (lhs rhs : Expr) (mine : own (.node node.id))
    (ha : Infers p own P a fun _ => True) (hb : Infers p own P b fun _ => True) :
    Infers p own P (binaryType node op lhs rhs a b) fun _ => True := by
  refine .attempt_bind ha (fun left => ?_) fun e => .right fun _ => .left (.settle_error e)
  refine .attempt_bind (hb.weaken (·.2) fun _ h => h) (fun right => ?_)
    fun e => .right fun _ => .left (.settle_error e)
  refine .settle_bind ?_ fun leftType _ => .settle_bind ?_ fun rightType _ => ?_
  · rintro ⟨_, ⟨_, rfl, _⟩, _⟩
    rfl
  · rintro ⟨⟨_, rfl, _⟩, _⟩
    rfl
  split
  · exact .pure fun _ => trivial
  · exact overloadType_infers _ _ _ mine

theorem unaryType_infers (op : UnaryOp) (operand : Expr) (mine : own (.node node.id))
    (ha : Infers p own P a fun _ => True) :
    Infers p own P (unaryType node op operand a) fun _ => True := by
  refine .bind ha fun type => ?_
  split
  · split
    · exact .pure fun _ => trivial
    · exact .fail
  · split
    · exact .pure fun _ => trivial
    · exact .fail
  all_goals
    split
    · exact .pure fun _ => trivial
    · exact overloadType_infers _ _ _ mine

theorem indexType_infers (target index : Expr) (mine : own (.node node.id))
    (ha : Infers p own P a fun _ => True) (hb : Infers p own P b fun _ => True) :
    Infers p own P (indexType node target index a b) fun _ => True := by
  refine .attempt_bind ha (fun left => ?_) fun e => .right fun _ => .left (.settle_error e)
  refine .attempt_bind (hb.weaken (·.2) fun _ h => h) (fun right => ?_)
    fun e => .right fun _ => .left (.settle_error e)
  refine .settle_bind ?_ fun collection _ => .settle_bind ?_ fun place _ => ?_
  · rintro ⟨_, ⟨_, rfl, _⟩, _⟩
    rfl
  · rintro ⟨⟨_, rfl, _⟩, _⟩
    rfl
  dsimp only
  split
  · exact .settleBy fun _ _ _ => trivial
  · exact .settleBy fun _ _ _ => trivial
  · exact overloadType_infers _ _ _ mine
  · exact overloadType_infers _ _ _ mine
  · exact .settleBy fun _ _ _ => trivial

end Operators

/-! ## Calls -/

def Callee.Sound (callee : Callee) : Prop :=
  ∀ candidate ∈ callee.candidates, candidate.signature.isOk = true

theorem mapM_cached_isOk {f : Findings} (clean : f.Clean) {ids : List Nat} {results : List Resolved}
    (h : ids.mapM f.cached = some results) : (allResolved results).isOk = true := by
  induction ids generalizing results with
  | nil =>
    cases h
    rfl
  | cons i rest ih =>
    simp only [List.mapM_cons, Option.bind_eq_bind, Option.bind_eq_some_iff, Option.pure_def,
      Option.some.injEq] at h
    obtain ⟨first, known, others, knownOthers, rfl⟩ := h
    rw [allResolved, mapM_id_cons, clean.cached_isOk known, Bool.true_and]
    exact ih knownOthers

theorem Findings.signatureThrough?_isOk {f : Findings} (clean : f.Clean) {params : List Param}
    {returnType : TypeRef} {s : Substitution} {signature : Except Reported (List Ty × Ty)}
    (h : f.signatureThrough? params returnType s = some signature) : signature.isOk = true := by
  simp only [signatureThrough?, Option.bind_eq_bind, Option.bind_eq_some_iff, Option.pure_def,
    Option.some.injEq] at h
  obtain ⟨results, knownParams, result, known, rfl⟩ := h
  have paramsSound : (allResolved results).isOk = true := by
    have known : (params.map (·.type.id)).mapM f.cached = some results := by
      rw [List.mapM_map]
      exact knownParams
    exact mapM_cached_isOk clean known
  have resultSound := clean.cached_isOk known
  cases params : allResolved results with
  | error e =>
    rw [params] at paramsSound
    cases paramsSound
  | ok _ =>
    cases result with
    | ok _ => rfl
    | error e => cases resultSound

theorem MethodSearch.candidates_sound {f : Findings} (clean : f.Clean) (search : MethodSearch) :
    ∀ candidate ∈ search.candidates f, candidate.signature.isOk = true := by
  intro candidate listed
  obtain ⟨found, _, built⟩ := List.mem_filterMap.1 listed
  simp only [FoundMethod.candidate?, Option.bind_eq_bind, Option.bind_eq_some_iff, Option.pure_def,
    Option.some.injEq] at built
  obtain ⟨signature, through, rfl⟩ := built
  exact Findings.signatureThrough?_isOk clean through

theorem Program.functionCandidates_sound {f : Findings} (clean : f.Clean) (name : String) :
    ∀ candidate ∈ p.functionCandidates f name, candidate.signature.isOk = true := by
  intro candidate listed
  obtain ⟨i, _, built⟩ := List.mem_filterMap.1 listed
  obtain ⟨signature, through, rfl⟩ := Option.map_eq_some_iff.1 built
  exact Findings.signatureThrough?_isOk clean through

theorem Scope.calleeNamed_sound {scope : Scope} {f : Findings} (clean : f.Clean) {span : Span}
    {name : String} {callee : Callee} (h : scope.calleeNamed f span name = .ok callee) :
    callee.Sound := by
  unfold calleeNamed at h
  extract_lets methods functions at h
  split at h
  · cases h
  split at h
  · cases h
  split at h
  · cases h
  cases h
  intro candidate listed
  rcases List.mem_append.1 listed with method | function
  · exact MethodSearch.candidates_sound clean _ candidate method
  · exact Program.functionCandidates_sound clean name candidate function

theorem Scope.calleeOf_sound {scope : Scope} {f : Findings} (clean : f.Clean) {receiver : Receiver}
    {name : Ident} {callee : Callee} (h : scope.calleeOf f receiver name = .ok callee) :
    callee.Sound := by
  unfold calleeOf at h
  dsimp only at h
  split at h
  · cases h
  split at h
  · cases h
  split at h
  · split at h
    · cases h
    · cases h
      exact MethodSearch.candidates_sound clean _
  · cases h
    exact MethodSearch.candidates_sound clean _

/-- A callee whose candidates all have sound types leaves no silent way to fail. -/
theorem Callee.choose_infers (callee : Callee) (span : Span) (args : List Operand)
    (sound : P → callee.Sound) : Infers p own P (callee.choose span args) fun _ => True := by
  unfold choose
  split
  · exact .pure fun _ => trivial
  split
  · exact .fail
  · rename_i faulty
    refine .settle (r := .error ⟨⟩) fun known => ?_
    have all := sound known
    simp only [List.all_eq_true] at faulty
    exact absurd all faulty

theorem findCallee_infers (callee : Expr) {infer inferTarget : Infer Ty}
    (targets : ∀ n target access name, callee = .member n target access name →
      own (.node target.id) ∧ Infers p own P inferTarget fun _ => True)
    (h : Infers p own P infer fun _ => True) :
    Infers p own P (findCallee callee infer inferTarget) Callee.Sound := by
  refine .read_bind fun scope same => ?_
  split
  · refine .findings_bind fun f => .settleBy fun found located ⟨clean, _⟩ => ?_
    exact Scope.calleeNamed_sound clean located
  · rename_i n target access name
    obtain ⟨mine, hTarget⟩ := targets n target access name rfl
    refine .bind (receiver_infers target access mine (hTarget.weaken (·.2) fun _ h => h))
      fun receiver => ?_
    refine .findings_bind fun f => .settleBy fun found located ⟨clean, _⟩ => ?_
    exact Scope.calleeOf_sound clean located
  · refine .attempt_bind (h.weaken (·.2) fun _ h => h) (fun _ => .fail) fun e => ?_
    exact fun _ _ => rfl

theorem callType_infers (call callee : Expr) (args : List Expr) {infer inferTarget : Infer Ty}
    {inferArgs : Check (List Resolved)} (mine : own (.node call.id))
    (mineCallee : own (.node callee.id))
    (hArgs : Honest p own (fun _ => P) inferArgs AllOk (¬AllOk ·))
    (targets : ∀ n target access name, callee = .member n target access name →
      own (.node target.id) ∧ Infers p own P inferTarget fun _ => True)
    (h : Infers p own P infer fun _ => True) :
    Infers p own P (callType call callee args infer inferTarget inferArgs) fun _ => True := by
  have forget (rs : List Resolved) (e : Reported) (failed : rs.mapM id = .error e)
      (found : Except Reported Callee) (f : Callee → List Ty → Infer Ty) : Fails (do
        let meaning ← settle found
        let types ← settle (allResolved rs)
        f meaning types) := by
    refine .right fun _ => .left ?_
    rw [allResolved, failed]
    exact .settle_error e
  refine .results_bind hArgs (fun rs => ?_) fun rs e failed =>
    .right fun found => .right fun _ => forget rs e failed found _
  have found := findCallee_infers (p := p) callee
    (fun n target access name same => targets n target access name same) h
  refine .attempt_bind (found.weaken (·.2) fun _ h => h) (fun found => ?_)
    fun e => .right fun _ => .left (.settle_error e)
  refine .learn_bind (fun known => .setValid callee.id _ mineCallee) ?_ ?_
  · rintro ⟨⟨_, rfl, _⟩, _⟩ known clean
    exact clean.setValid callee.id
  refine .settle_bind ?_ fun meaning same => .settle_bind (·.2.1) fun types _ => ?_
  · rintro ⟨⟨_, rfl, _⟩, _⟩
    rfl
  refine .bind (meaning.choose_infers call.span _ ?_) fun chosen => ?_
  · rintro ⟨⟨_, found, sound⟩, _⟩
    cases same.symm.trans found
    exact sound
  · exact .note_bind (.refer_bind mine (.pure fun _ => trivial))

end ClassLang
