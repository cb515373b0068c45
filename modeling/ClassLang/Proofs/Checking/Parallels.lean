import ClassLang.Proofs.Checking.Mirrors
import ClassLang.Proofs.Checking.Steps

/-!
Two checks side by side, each in one of two renumbered programs. From findings that mirror each other
they come to the same result, report the same, and leave findings that mirror each other: one rule for
each combinator. None of the reports is about a cycle; only the examination of superclasses tells of
those.
-/

namespace ClassLang

/-! ## Findings -/

/-- A part of the findings: some nodes, and perhaps the place of each class among the others. -/
structure Sight where
  nodes : Nat → Prop
  classes : Prop

instance : CoeFun Sight fun _ => Nat → Prop := ⟨Sight.nodes⟩

def Sight.full : Sight := ⟨fun _ => True, True⟩

/-- Look-ups read the types in signatures and the ancestors of classes. -/
structure Sight.Reads (sight : Sight) (p : Program) : Prop where
  types : ∀ t ∈ p.signature, sight t.id
  classes : sight.classes

variable {α β γ δ : Type} {p q : Program} {σ : Equiv.Perm Nat} {nodes : Sight}

namespace Findings

/-- The same is known of a node. -/
structure MirrorsAt (σ : Equiv.Perm Nat) (f g : Findings) (id : Nat) : Prop where
  validity : g.validity id = f.validity id
  typeOf : g.typeOf id = f.typeOf id
  failed : id ∈ g.failures ↔ id ∈ f.failures
  resolution : g.resolution id = (f.resolution id).map (Decl.renumber σ)

/-- The same is known of what is in sight. -/
structure MirrorsOn (σ : Equiv.Perm Nat) (nodes : Sight) (f g : Findings) : Prop where
  node : ∀ id, nodes id → f.MirrorsAt σ g id
  chain : nodes.classes → ∀ i, g.chain (σ i) = (f.chain i).map (Ancestor.renumber σ)
  mark : nodes.classes → ∀ i, g.mark (σ i) = f.mark i

variable {f g : Findings} {id : Nat}

namespace MirrorsAt

theorem refl (f : Findings) (id : Nat) : f.MirrorsAt (Equiv.refl Nat) f id :=
  ⟨rfl, rfl, Iff.rfl, by simp [funext Decl.renumber_refl]⟩

theorem trans {τ : Equiv.Perm Nat} {h : Findings} (m : f.MirrorsAt σ g id) (m' : g.MirrorsAt τ h id) :
    f.MirrorsAt (σ.trans τ) h id := by
  refine ⟨m'.validity.trans m.validity, m'.typeOf.trans m.typeOf, m'.failed.trans m.failed, ?_⟩
  rw [m'.resolution, m.resolution, Option.map_map]
  exact congrArg (Option.map · _) (funext (Decl.renumber_trans σ τ))

theorem symm (m : f.MirrorsAt σ g id) : g.MirrorsAt σ.symm f id := by
  refine ⟨m.validity.symm, m.typeOf.symm, m.failed.symm, ?_⟩
  rw [m.resolution, Option.map_map]
  simp [Function.comp_def, Decl.renumber_trans]

theorem cached (m : f.MirrorsAt σ g id) : g.cached id = f.cached id := by
  unfold Findings.cached
  rw [m.validity, m.typeOf]
  simp [m.failed]

theorem setValid (m : f.MirrorsAt σ g id) (other : Nat) (valid : Bool)
    (same : f.validity other = g.validity other) :
    (f.setValid other valid).MirrorsAt σ (g.setValid other valid) id where
  validity := by rw [validity_setValid, validity_setValid, same, m.validity]
  typeOf := by simpa [Findings.typeOf] using m.typeOf
  failed := by simpa using m.failed
  resolution := by rw [f.setValid_resolution, g.setValid_resolution, m.resolution]

theorem record (m : f.MirrorsAt σ g id) (other : Nat) (result : Resolved)
    (same : f.validity other = g.validity other) (typed : f.typeOf other = g.typeOf other) :
    (f.record other result).MirrorsAt σ (g.record other result) id where
  validity := by
    rw [validity_record, validity_record]
    exact (m.setValid other result.isOk same).validity
  typeOf := by rw [typeOf_record, typeOf_record, typed, m.typeOf]
  failed := by
    cases result with
    | ok _ => simpa [Findings.record] using m.failed
    | error _ => simp [Findings.record, m.failed]
  resolution := by rw [f.resolution_record, g.resolution_record, m.resolution]

theorem refer (m : f.MirrorsAt σ g id) (other : Nat) (decl : Decl) :
    ((f.use decl).setResolution other decl).MirrorsAt σ
      ((g.use (decl.renumber σ)).setResolution other (decl.renumber σ)) id where
  validity := m.validity
  typeOf := m.typeOf
  failed := m.failed
  resolution := by
    change (g.resolutions.insert other _).get? id = ((f.resolutions.insert other _).get? id).map _
    rw [Table.get?_insert, Table.get?_insert]
    split
    · rfl
    · exact m.resolution

end MirrorsAt

namespace MirrorsOn

variable {f' g' : Findings}

theorem refl (f : Findings) : f.MirrorsOn (Equiv.refl Nat) nodes f :=
  ⟨fun id _ => .refl f id, fun _ _ => (List.map_id' _).symm, fun _ _ => rfl⟩

theorem mono {fewer : Sight} (m : f.MirrorsOn σ nodes g) (sub : ∀ id, fewer id → nodes id)
    (classes : fewer.classes → nodes.classes) : f.MirrorsOn σ fewer g :=
  ⟨fun id inside => m.node id (sub id inside), m.chain ∘ classes, m.mark ∘ classes⟩

theorem mirrors (m : f.MirrorsOn σ nodes g) (reads : nodes.Reads p) :
    f.Mirrors p σ g where
  chain := m.chain reads.classes
  cached t written := (m.node _ (reads.types t written)).cached
  typeOf t written := (m.node _ (reads.types t written)).typeOf

/-- Entries about nodes leave the classes as they are. -/
theorem enter (m : f.MirrorsOn σ nodes g) (node : ∀ id, nodes id → f'.MirrorsAt σ g' id)
    (places : f'.superclasses = f.superclasses ∧ f'.marks = f.marks)
    (places' : g'.superclasses = g.superclasses ∧ g'.marks = g.marks) : f'.MirrorsOn σ nodes g' where
  node := node
  chain seen i := by
    rw [Findings.chain, Findings.chain, ancestors_congr places.1, ancestors_congr places'.1]
    exact m.chain seen i
  mark seen i := by
    rw [Findings.mark, Findings.mark, places.2, places'.2]
    exact m.mark seen i

/-- Entries that look-ups do not read, and that say nothing of nodes. -/
theorem enter_aside (m : f.MirrorsOn σ nodes g)
    (same : ∀ id, f'.validity id = f.validity id ∧ f'.typeOf id = f.typeOf id ∧
      f'.resolution id = f.resolution id)
    (same' : ∀ id, g'.validity id = g.validity id ∧ g'.typeOf id = g.typeOf id ∧
      g'.resolution id = g.resolution id)
    (failures : f'.failures = f.failures) (failures' : g'.failures = g.failures)
    (places : f'.superclasses = f.superclasses ∧ f'.marks = f.marks)
    (places' : g'.superclasses = g.superclasses ∧ g'.marks = g.marks) :
    f'.MirrorsOn σ nodes g' := by
  refine m.enter (fun id inside => ?_) places places'
  obtain ⟨validity, typeOf, failed, resolution⟩ := m.node id inside
  obtain ⟨kept, keptType, keptDecl⟩ := same id
  obtain ⟨kept', keptType', keptDecl'⟩ := same' id
  exact ⟨kept'.trans (validity.trans kept.symm), keptType'.trans (typeOf.trans keptType.symm),
    by rw [failures, failures', failed], by rw [keptDecl', resolution, keptDecl]⟩

section Entries

variable (m : f.MirrorsOn σ nodes g)
include m

theorem setValid {n : Nat} (inside : nodes n) (valid : Bool) :
    (f.setValid n valid).MirrorsOn σ nodes (g.setValid n valid) :=
  m.enter (fun other listed => (m.node other listed).setValid n valid (m.node n inside).validity.symm)
    ⟨setValid_superclasses .., setValid_marks ..⟩ ⟨setValid_superclasses .., setValid_marks ..⟩

theorem record {n : Nat} (inside : nodes n) (result : Resolved) :
    (f.record n result).MirrorsOn σ nodes (g.record n result) :=
  have here := m.node n inside
  m.enter (fun other listed =>
      (m.node other listed).record n result here.validity.symm here.typeOf.symm)
    ⟨record_superclasses .., record_marks ..⟩ ⟨record_superclasses .., record_marks ..⟩

theorem setAlias (id : Nat) (isAlias : Bool) :
    (f.setAlias id isAlias).MirrorsOn σ nodes (g.setAlias id isAlias) :=
  m.enter_aside (fun _ => ⟨rfl, rfl, rfl⟩) (fun _ => ⟨rfl, rfl, rfl⟩) rfl rfl ⟨rfl, rfl⟩ ⟨rfl, rfl⟩

theorem use (decl decl' : Decl) : (f.use decl).MirrorsOn σ nodes (g.use decl') :=
  m.enter_aside (fun _ => ⟨rfl, rfl, rfl⟩) (fun _ => ⟨rfl, rfl, rfl⟩) rfl rfl ⟨rfl, rfl⟩ ⟨rfl, rfl⟩

theorem instantiate (name : String) (args : List Ty) :
    (f.instantiate name args).MirrorsOn σ nodes (g.instantiate name args) := by
  obtain ⟨_, same⟩ := f.instantiate_eq name args
  obtain ⟨_, same'⟩ := g.instantiate_eq name args
  rw [same, same']
  exact m.enter_aside (fun _ => ⟨rfl, rfl, rfl⟩) (fun _ => ⟨rfl, rfl, rfl⟩) rfl rfl ⟨rfl, rfl⟩
    ⟨rfl, rfl⟩

end Entries

end MirrorsOn

end Findings

/-! ## Two runs -/

def CheckCause.isCycle : CheckCause → Bool
  | .inheritanceCycle _ => true
  | _ => false

/-- Whether an error is about the place of a statement. -/
def CheckCause.isMisplacement : CheckCause → Bool
  | .jumpOutsideLoop _ | .returnOutsideFunction => true
  | _ => false

/-- Whether an error is about an overload set. -/
def CheckCause.isDuplicate : CheckCause → Bool
  | .duplicateOverload .. => true
  | _ => false

/-- Whether an error is about something else than a cycle, the place of a statement or an overload
set. -/
def CheckCause.isPlain (cause : CheckCause) : Bool :=
  !cause.isCycle && !cause.isMisplacement && !cause.isDuplicate

theorem CheckCause.isPlain_iff {cause : CheckCause} : cause.isPlain = true ↔
    cause.isCycle = false ∧ cause.isMisplacement = false ∧ cause.isDuplicate = false := by
  simp [isPlain, and_assoc]

theorem CheckCause.isCycle_of_isPlain {cause : CheckCause} (plain : cause.isPlain = true) :
    cause.isCycle = false := (isPlain_iff.1 plain).1

/-- An error about an overload set is about nothing else. -/
theorem CheckCause.of_isDuplicate {cause : CheckCause} (duplicate : cause.isDuplicate = true) :
    cause.isCycle = false ∧ cause.isMisplacement = false := by
  cases cause with
  | duplicateOverload => exact ⟨rfl, rfl⟩
  | _ => cases duplicate

/-- A plain error, if there is one. -/
def Plain (r : Except CheckError α) : Prop := ∀ e, r = .error e → e.cause.isPlain = true

/-- What two runs come to that began in two states. -/
structure Alike (σ : Equiv.Perm Nat) (nodes : Sight) (ren : α → β) (s t : CheckState)
    (outcome : α × CheckState) (other : β × CheckState) : Prop where
  result : other.1 = ren outcome.1
  findings : outcome.2.findings.MirrorsOn σ nodes other.2.findings
  errors : ∃ es, outcome.2.errors = s.errors ++ es ∧ other.2.errors = t.errors ++ es ∧
    ∀ e ∈ es, e.cause.isCycle = false
  warnings : ∃ ws, outcome.2.warnings = s.warnings ++ ws ∧ other.2.warnings = t.warnings ++ ws

/-- Two checks run alike in the two programs, wherever the same is known of some nodes. -/
def Parallel (p q : Program) (σ : Equiv.Perm Nat) (nodes : Sight) (ren : α → β) (x : Check α)
    (y : Check β) : Prop :=
  ∀ (scope : Scope) (s t : CheckState), scope.program = p →
    s.findings.MirrorsOn σ nodes t.findings →
      Alike σ nodes ren s t (x.exec scope s) (y.exec (scope.mirrored q σ) t)

namespace Alike

variable {s t : CheckState} {ren : α → β} {ren' : γ → δ}

/-- A step that reports nothing. -/
theorem quiet {a : α} {f g : Findings} (events events' : List Event)
    (findings : f.MirrorsOn σ nodes g) : Alike σ nodes ren s t
      (a, { s with findings := f, events := events })
      (ren a, { t with findings := g, events := events' }) where
  result := rfl
  findings := findings
  errors := ⟨[], (List.append_nil _).symm, (List.append_nil _).symm, fun _ => nofun⟩
  warnings := ⟨[], (List.append_nil _).symm, (List.append_nil _).symm⟩

theorem trans {outcome : α × CheckState} {other : β × CheckState} {last : γ × CheckState}
    {last' : δ × CheckState} (first : Alike σ nodes ren s t outcome other)
    (second : Alike σ nodes ren' outcome.2 other.2 last last') : Alike σ nodes ren' s t last last' := by
  obtain ⟨es, reported, reported', plain⟩ := first.errors
  obtain ⟨es', later, later', plain'⟩ := second.errors
  obtain ⟨ws, warned, warned'⟩ := first.warnings
  obtain ⟨ws', warnedLater, warnedLater'⟩ := second.warnings
  refine ⟨second.result, second.findings, ⟨es ++ es', ?_, ?_, ?_⟩, ⟨ws ++ ws', ?_, ?_⟩⟩
  · rw [later, reported, List.append_assoc]
  · rw [later', reported', List.append_assoc]
  · exact List.forall_mem_append.2 ⟨plain, plain'⟩
  · rw [warnedLater, warned, List.append_assoc]
  · rw [warnedLater', warned', List.append_assoc]

end Alike

/-! ## Checks -/

namespace Parallel

variable {ren : α → β} {ren' : γ → δ}

theorem pure {a : α} {b : β} (same : b = ren a) :
    Parallel p q σ nodes ren (Pure.pure a) (Pure.pure b) :=
  fun _ _ _ _ m => same ▸ .quiet _ _ m

theorem pure_same (a : α) : Parallel p q σ nodes id (Pure.pure a) (Pure.pure a) := .pure rfl

theorem bind {x : Check α} {y : Check β} {k : α → Check γ} {k' : β → Check δ}
    (first : Parallel p q σ nodes ren x y)
    (rest : ∀ a, Parallel p q σ nodes ren' (k a) (k' (ren a))) :
    Parallel p q σ nodes ren' (x >>= k) (y >>= k') := by
  intro scope s t same m
  have before := first scope s t same m
  rw [Check.exec_bind, Check.exec_bind, before.result]
  exact before.trans (rest _ scope _ _ same before.findings)

theorem bind_same {x y : Check α} {k : α → Check γ} {k' : α → Check δ}
    (first : Parallel p q σ nodes id x y) (rest : ∀ a, Parallel p q σ nodes ren' (k a) (k' a)) :
    Parallel p q σ nodes ren' (x >>= k) (y >>= k') := bind first rest

theorem read {k : Scope → Check γ} {k' : Scope → Check δ}
    (rest : ∀ scope : Scope, scope.program = p →
      Parallel p q σ nodes ren' (k scope) (k' (scope.mirrored q σ))) :
    Parallel p q σ nodes ren' ((MonadReader.read : Check Scope) >>= k)
      ((MonadReader.read : Check Scope) >>= k') :=
  fun scope s t same m => rest scope same scope s t same m

theorem findings {k : Findings → Check γ} {k' : Findings → Check δ}
    (rest : ∀ f g : Findings, f.MirrorsOn σ nodes g → Parallel p q σ nodes ren' (k f) (k' g)) :
    Parallel p q σ nodes ren' (ClassLang.findings >>= k) (ClassLang.findings >>= k') :=
  fun scope s t same m => rest s.findings t.findings m scope s t same m

theorem learn {l l' : Findings → Findings}
    (entry : ∀ f g : Findings, f.MirrorsOn σ nodes g → (l f).MirrorsOn σ nodes (l' g)) :
    Parallel p q σ nodes id (ClassLang.learn l) (ClassLang.learn l') :=
  fun _ s t _ m => .quiet s.events t.events (entry _ _ m)

theorem note (event event' : Event) :
    Parallel p q σ nodes id (ClassLang.note event) (ClassLang.note event') :=
  fun _ _ _ _ m => .quiet _ _ m

theorem reportAll {errors : List CheckError} (plain : ∀ e ∈ errors, e.cause.isCycle = false) :
    Parallel p q σ nodes id (ClassLang.reportAll errors) (ClassLang.reportAll errors) :=
  fun _ s t _ m => ⟨rfl, m, ⟨errors, rfl, rfl, plain⟩,
    ⟨[], (List.append_nil s.warnings).symm, (List.append_nil t.warnings).symm⟩⟩

theorem reportPlain {errors : List CheckError} (plain : ∀ e ∈ errors, e.cause.isPlain = true) :
    Parallel p q σ nodes id (ClassLang.reportAll errors) (ClassLang.reportAll errors) :=
  .reportAll fun e listed => CheckCause.isCycle_of_isPlain (plain e listed)

theorem report {e : CheckError} (plain : e.cause.isCycle = false) :
    Parallel p q σ nodes id (ClassLang.report e) (ClassLang.report e) :=
  fun _ s t _ m => ⟨rfl, m, ⟨[e], rfl, rfl, List.forall_mem_singleton.2 plain⟩,
    ⟨[], (List.append_nil s.warnings).symm, (List.append_nil t.warnings).symm⟩⟩

theorem warn (w : Warning) : Parallel p q σ nodes id (ClassLang.warn w) (ClassLang.warn w) :=
  fun _ s t _ m => ⟨rfl, m,
    ⟨[], (List.append_nil s.errors).symm, (List.append_nil t.errors).symm, fun _ => nofun⟩,
    ⟨[w], rfl, rfl⟩⟩

theorem withReader {x : Check α} {y : Check β} {u u' : Scope → Scope}
    (inner : Parallel p q σ nodes ren x y)
    (scopes : ∀ scope : Scope, scope.program = p →
      (u scope).program = p ∧ u' (scope.mirrored q σ) = (u scope).mirrored q σ) :
    Parallel p q σ nodes ren (MonadWithReader.withReader u x : Check α)
      (MonadWithReader.withReader u' y : Check β) := by
  intro scope s t same m
  rw [Check.exec_withReader, Check.exec_withReader, (scopes scope same).2]
  exact inner (u scope) s t (scopes scope same).1 m

theorem mapM {ι κ : Type} {x : ι → Check α} {y : κ → Check β} (r : ι → κ) (items : List ι)
    (each : ∀ i ∈ items, Parallel p q σ nodes ren (x i) (y (r i))) :
    Parallel p q σ nodes (List.map ren) (items.mapM x) ((items.map r).mapM y) := by
  induction items with
  | nil =>
    intro scope s t same m
    rw [List.map_nil, Check.exec_mapM_nil, Check.exec_mapM_nil]
    exact .quiet _ _ m
  | cons i rest ih =>
    intro scope s t same m
    have first := each i (List.mem_cons_self ..) scope s t same m
    have others := ih (fun j listed => each j (List.mem_cons_of_mem i listed)) scope _ _ same
      first.findings
    rw [List.map_cons, Check.exec_mapM_cons, Check.exec_mapM_cons]
    refine first.trans ⟨?_, others.findings, others.errors, others.warnings⟩
    rw [first.result, others.result]
    rfl

theorem mapM_same {ι : Type} {x y : ι → Check α} (items : List ι)
    (each : ∀ i ∈ items, Parallel p q σ nodes id (x i) (y i)) :
    Parallel p q σ nodes id (items.mapM x) (items.mapM y) := by
  have all := mapM id items each
  rwa [List.map_id, List.map_id_fun] at all

theorem judge {n : Nat} (valid : Bool) (inside : nodes n) :
    Parallel p q σ nodes id (ClassLang.judge n valid) (ClassLang.judge n valid) := by
  intro scope s t same m
  rw [Check.exec_judge, Check.exec_judge, (m.node n inside).validity]
  exact .quiet s.events t.events (m.setValid inside valid)

end Parallel

/-! ## Inferences -/

/-- Two inferences run alike, up to a view of the results. -/
def Along (p q : Program) (σ : Equiv.Perm Nat) (nodes : Sight) (ren : α → β) (x : Infer α)
    (y : Infer β) : Prop := Parallel p q σ nodes (Except.map ren) x.run y.run

theorem Except.map_id_eq {ε : Type} : (Except.map id : Except ε α → Except ε α) = id :=
  funext fun r => by cases r <;> rfl

namespace Along

variable {ren : α → β} {ren' : γ → δ}

theorem run {x y : Infer α} (h : Along p q σ nodes id x y) : Parallel p q σ nodes id x.run y.run := by
  rwa [Along, Except.map_id_eq] at h

theorem of_run {x y : Infer α} (h : Parallel p q σ nodes id x.run y.run) :
    Along p q σ nodes id x y := by
  rwa [Along, Except.map_id_eq]

theorem pure {a : α} {b : β} (same : b = ren a) :
    Along p q σ nodes ren (Pure.pure a) (Pure.pure b) :=
  Parallel.pure (congrArg Except.ok same)

theorem throw : Along p q σ nodes ren (MonadExcept.throw ⟨⟩) (MonadExcept.throw ⟨⟩) :=
  Parallel.pure rfl

theorem bind {x : Infer α} {y : Infer β} {k : α → Infer γ} {k' : β → Infer δ}
    (first : Along p q σ nodes ren x y) (rest : ∀ a, Along p q σ nodes ren' (k a) (k' (ren a))) :
    Along p q σ nodes ren' (x >>= k) (y >>= k') := by
  intro scope s t same m
  have before := first scope s t same m
  rw [Infer.exec_bind, Infer.exec_bind]
  rcases run : Check.exec x.run scope s with ⟨r, s'⟩
  rcases run' : Check.exec y.run (scope.mirrored q σ) t with ⟨r', t'⟩
  rw [run, run'] at before
  obtain rfl : r' = r.map ren := before.result
  cases r with
  | error e => exact ⟨rfl, before.findings, before.errors, before.warnings⟩
  | ok a => exact before.trans (rest a scope s' t' same before.findings)

theorem bind_same {x y : Infer α} {k : α → Infer γ} {k' : α → Infer δ}
    (first : Along p q σ nodes id x y) (rest : ∀ a, Along p q σ nodes ren' (k a) (k' a)) :
    Along p q σ nodes ren' (x >>= k) (y >>= k') := bind first rest

theorem lift_bind {x : Check α} {y : Check β} {k : α → Infer γ} {k' : β → Infer δ}
    (first : Parallel p q σ nodes ren x y)
    (rest : ∀ a, Along p q σ nodes ren' (k a) (k' (ren a))) :
    Along p q σ nodes ren' ((liftM x : Infer α) >>= k) ((liftM y : Infer β) >>= k') :=
  Parallel.bind first rest

theorem lift_same {x y : Check α} {k : α → Infer γ} {k' : α → Infer δ}
    (first : Parallel p q σ nodes id x y) (rest : ∀ a, Along p q σ nodes ren' (k a) (k' a)) :
    Along p q σ nodes ren' ((liftM x : Infer α) >>= k) ((liftM y : Infer α) >>= k') :=
  lift_bind first rest

theorem attempt_bind {x : Infer α} {y : Infer β} {k : Except Reported α → Infer γ}
    {k' : Except Reported β → Infer δ} (first : Along p q σ nodes ren x y)
    (rest : ∀ r, Along p q σ nodes ren' (k r) (k' (r.map ren))) :
    Along p q σ nodes ren' (attempt x >>= k) (attempt y >>= k') :=
  Parallel.bind first rest

theorem attempt_same {x y : Infer α} {k : Except Reported α → Infer γ}
    {k' : Except Reported α → Infer δ} (first : Along p q σ nodes id x y) (rest : ∀ r, Along p q σ nodes ren' (k r) (k' r)) :
    Along p q σ nodes ren' (ClassLang.attempt x >>= k) (ClassLang.attempt y >>= k') :=
  Parallel.bind first.run rest

theorem read_bind {k : Scope → Infer γ} {k' : Scope → Infer δ}
    (rest : ∀ scope : Scope, scope.program = p →
      Along p q σ nodes ren' (k scope) (k' (scope.mirrored q σ))) :
    Along p q σ nodes ren' ((MonadReader.read : Infer Scope) >>= k)
      ((MonadReader.read : Infer Scope) >>= k') :=
  Parallel.read rest

theorem findings_bind {k : Findings → Infer γ} {k' : Findings → Infer δ}
    (rest : ∀ f g : Findings, f.MirrorsOn σ nodes g → Along p q σ nodes ren' (k f) (k' g)) :
    Along p q σ nodes ren' ((liftM findings : Infer Findings) >>= k)
      ((liftM findings : Infer Findings) >>= k') :=
  Parallel.findings rest

theorem settle {r : Except Reported α} :
    Along p q σ nodes ren (ClassLang.settle r) (ClassLang.settle (r.map ren)) :=
  Parallel.pure rfl

theorem settle_same {r : Except Reported α} :
    Along p q σ nodes id (ClassLang.settle r) (ClassLang.settle r) :=
  of_run (Parallel.pure rfl)

theorem fail {span : Span} {cause : CheckCause} (plain : cause.isCycle = false) :
    Along p q σ nodes ren (ClassLang.fail span cause) (ClassLang.fail span cause) :=
  lift_same (.report (e := ⟨span, cause⟩) plain) fun _ => throw

theorem fail_bind {span : Span} {cause : CheckCause} {k : α → Infer γ} {k' : α → Infer δ}
    (plain : cause.isCycle = false) :
    Along p q σ nodes ren' (ClassLang.fail span cause >>= k) (ClassLang.fail span cause >>= k') := by
  intro scope s t same m
  have reported := Parallel.report (q := q) (e := ⟨span, cause⟩) plain scope s t same m
  exact ⟨rfl, reported.findings, reported.errors, reported.warnings⟩

theorem settleBy {r : Except CheckError α} {r' : Except CheckError β} (same : r' = r.map ren)
    (plain : Plain r) : Along p q σ nodes ren (ClassLang.settleBy r) (ClassLang.settleBy r') := by
  subst same
  cases r with
  | error e => exact fail (CheckCause.isCycle_of_isPlain (plain e rfl))
  | ok a => exact pure rfl

theorem settleBy_same {r : Except CheckError α} (plain : Plain r) :
    Along p q σ nodes id (ClassLang.settleBy r) (ClassLang.settleBy r) :=
  settleBy (by rw [Except.map_id_eq]; rfl) plain

/-! ## What is remembered -/

theorem recorded {x y : Infer Ty} {n : Nat} (h : Along p q σ nodes id x y) (inside : nodes n) :
    Along p q σ nodes id (ClassLang.recorded n x) (ClassLang.recorded n y) := by
  refine attempt_same h fun r => lift_same (.learn fun f g m => ?_) fun _ => settle_same
  exact m.record inside r

theorem remembered {x y : Infer Ty} {n : Nat} (h : Along p q σ nodes id x y) (inside : nodes n) :
    Along p q σ nodes id (ClassLang.remembered n x) (ClassLang.remembered n y) := by
  refine findings_bind fun f g m => ?_
  rw [(m.node n inside).cached]
  cases f.cached n with
  | none => exact recorded h inside
  | some r => exact settle_same

end Along

theorem Parallel.succeeds {x y : Infer α} (h : Along p q σ nodes id x y) :
    Parallel p q σ nodes id (succeeds x) (succeeds y) :=
  .bind_same h.run fun _ => .pure rfl

end ClassLang
