import ClassLang.Proofs.Checking.Signatures

/-!
Examining the superclasses of all classes is honest. A class on a cycle is refused silently where it
is reached again; the class that names it reports that. First stands what each step of the examination
does, and which entries it makes.
-/

namespace ClassLang

variable {p : Program} {scope : Scope} {s t : CheckState}

/-! ## One class -/

theorem exec_checkSuperclass_none {examine : Nat → Check Bool} {i : Nat} (same : scope.program = p)
    (root : (p.classAt i).superclass = none) :
    (checkSuperclass examine i).exec scope s = (true, s) := by
  subst same
  unfold checkSuperclass
  rw [Check.exec_bind, Check.exec_read]
  dsimp only
  rw [root]
  rfl

theorem exec_checkSuperclass {examine : Nat → Check Bool} {i : Nat} {written : TypeRef}
    (same : scope.program = p) (extends_ : (p.classAt i).superclass = some written) :
    (checkSuperclass examine i).exec scope s =
      match p.superclassName i written with
      | .error e => (false, { s with errors := s.errors ++ [e] })
      | .ok name =>
        match Check.exec written.resolve.run { scope with generics := (p.classAt i).params } s with
        | (.error _, t) => (false, t)
        | (.ok type, t) =>
          match p.classOf? type with
          | none => (false, t)
          | some j =>
            match (examine j).exec scope t with
            | (false, u) => (false, { u with errors := u.errors ++
                [⟨written.span, .invalidSuperclass (p.classAt i).name.name name⟩] })
            | (true, u) =>
              (true, { u with findings := u.findings.setSuperclass i ⟨j, p.argsOf j type⟩ }) := by
  subst same
  unfold checkSuperclass
  rw [Check.exec_bind, Check.exec_read]
  dsimp only
  rw [extends_]
  dsimp only
  rw [Check.exec_succeeds]
  cases scope.program.superclassName i written with
  | error e => rfl
  | ok name =>
    change ((Check.exec ((withReader _ written.resolve >>= _ : Infer Unit).run) scope s).1.isOk,
      (Check.exec ((withReader _ written.resolve >>= _ : Infer Unit).run) scope s).2) = _
    rw [Infer.exec_bind, Infer.run_withReader, Check.exec_withReader]
    rcases Check.exec written.resolve.run _ s with ⟨e | type, t⟩
    · rfl
    · dsimp only
      cases scope.program.classOf? type with
      | none => rfl
      | some j =>
        dsimp only
        rw [Infer.run_lift_bind, Check.exec_bind]
        rcases (examine j).exec scope t with ⟨_ | _, u⟩ <;> rfl

theorem exec_forM_warn (warnings : List Warning) (scope : Scope) (s : CheckState) :
    (warnings.forM warn : Check Unit).exec scope s =
      ((), { s with warnings := s.warnings ++ warnings }) := by
  induction warnings generalizing s with
  | nil =>
    rw [List.append_nil]
    rfl
  | cons w rest ih =>
    change (rest.forM warn : Check Unit).exec scope
      { s with warnings := s.warnings ++ [w] } = _
    rw [ih]
    simp

def CheckState.examining (s : CheckState) (i : Nat) : CheckState :=
  { s with findings := s.findings.setMark i .inProgress }

/-- The state in which a class is left whose superclass is sound or not. -/
def CheckState.examined (s : CheckState) (p : Program) (i : Nat) (sound : Bool) : CheckState :=
  let faults := p.memberFaults s.findings i sound
  { findings := s.findings.setMark i (.done (sound && faults.isEmpty))
    errors := s.errors ++ faults
    warnings := s.warnings ++ p.shadowWarnings s.findings i sound
    events := s.events ++ [.inheritance (p.classAt i).name.name (sound && faults.isEmpty)] }

theorem exec_examineClass {examine : Nat → Check Bool} {i : Nat} (same : scope.program = p) :
    (examineClass examine i).exec scope s =
      match (checkSuperclass examine i).exec scope (s.examining i) with
      | (sound, t) => (sound && (p.memberFaults t.findings i sound).isEmpty, t.examined p i sound) := by
  subst same
  unfold examineClass checkMembers
  simp only [Check.exec_bind, Check.exec_read, Check.exec_learn, Check.exec_findings,
    Check.exec_reportAll, Check.exec_note, Check.exec_pure, exec_forM_warn]
  rfl

theorem exec_checkInheritance (depth i : Nat) :
    (checkInheritance depth i).exec scope s =
      match s.findings.mark i, depth with
      | .done valid, _ => (valid, s)
      | .inProgress, _ | .unvisited, 0 => (false, s)
      | .unvisited, depth + 1 => (examineClass (checkInheritance depth) i).exec scope s := by
  unfold checkInheritance
  rw [Check.exec_bind, Check.exec_findings]
  dsimp only
  cases s.findings.mark i with
  | done valid => rfl
  | inProgress => rfl
  | unvisited => cases depth <;> rfl

/-! ## Entries -/

def Program.superclassNodes (p : Program) (i : Nat) : List Node :=
  (p.classAt i).superclass.elim [] TypeRef.nodes

/-- The classes, and the types in their extends clauses. -/
def lineage (p : Program) : Subject → Prop
  | .node id | .name id => ∃ i, id ∈ (p.superclassNodes i).map Node.id
  | .class _ => True
  | .type _ => False

theorem owns_lineage {i : Nat} {written : TypeRef} (h : (p.classAt i).superclass = some written) :
    Owns (lineage p) written.nodes := by
  intro n listed
  have mine : n.id ∈ (p.superclassNodes i).map Node.id := by
    rw [Program.superclassNodes, h]
    exact List.mem_map_of_mem listed
  exact ⟨⟨i, mine⟩, ⟨i, mine⟩⟩

theorem checkSuperclass_within {examine : Nat → Check Bool}
    (h : ∀ j scope s, scope.program = p → Steps (lineage p) s ((examine j).exec scope s).2) (i : Nat)
    (same : scope.program = p) :
    Steps (lineage p) s ((checkSuperclass examine i).exec scope s).2 := by
  cases extends_ : (p.classAt i).superclass with
  | none =>
    rw [exec_checkSuperclass_none same extends_]
    exact Steps.refl s
  | some written =>
    rw [exec_checkSuperclass same extends_]
    have resolved := (written.resolve_infers (p := p) (P := True) (owns_lineage extends_)).within
      { scope with generics := (p.classAt i).params } s same
    cases p.superclassName i written with
    | error e => exact Steps.single (.report [e])
    | ok name =>
      dsimp only
      rcases run : Check.exec written.resolve.run _ s with ⟨e | type, t⟩
      · rw [run] at resolved
        exact resolved
      rw [run] at resolved
      dsimp only
      cases p.classOf? type with
      | none => exact resolved
      | some j =>
        dsimp only
        have examined := h j scope t same
        rcases answer : (examine j).exec scope t with ⟨_ | _, u⟩
        · rw [answer] at examined
          exact (resolved.trans examined).trans (Steps.single (.report [_]))
        · rw [answer] at examined
          exact (resolved.trans examined).trans (Steps.single (.enter (.setSuperclass i _ trivial)))

theorem CheckState.examined_steps (s : CheckState) (i : Nat) (sound : Bool) :
    Steps (lineage p) s (s.examined p i sound) := by
  have reported : Steps (lineage p) s { s with
      errors := s.errors ++ p.memberFaults s.findings i sound } := Steps.single (.report _)
  have warned (t : CheckState) (warnings : List Warning) :
      Steps (lineage p) t { t with warnings := t.warnings ++ warnings } := by
    induction warnings generalizing t with
    | nil =>
      rw [List.append_nil]
      exact Steps.refl t
    | cons w rest ih =>
      have first := (Steps.single (.warn w)).trans (ih { t with warnings := t.warnings ++ [w] })
      simpa using first
  have marked (t : CheckState) (mark : InheritanceMark) :
      Steps (lineage p) t { t with findings := t.findings.setMark i mark } :=
    Steps.single (.enter (.setMark i mark trivial))
  have noted (t : CheckState) (event : Event) :
      Steps (lineage p) t { t with events := t.events ++ [event] } := Steps.single (.note event)
  exact reported.trans ((warned _ _).trans ((marked _ _).trans (noted _ _)))

theorem checkInheritance_within (depth i : Nat) (same : scope.program = p) :
    Steps (lineage p) s ((checkInheritance depth i).exec scope s).2 := by
  induction depth generalizing i scope s with
  | zero =>
    rw [exec_checkInheritance]
    cases s.findings.mark i <;> exact Steps.refl s
  | succ depth ih =>
    rw [exec_checkInheritance]
    cases s.findings.mark i with
    | done valid => exact Steps.refl s
    | inProgress => exact Steps.refl s
    | unvisited =>
      dsimp only
      rw [exec_examineClass same]
      have marked : Steps (lineage p) s (s.examining i) :=
        Steps.single (.enter (.setMark i _ trivial))
      have superclass := checkSuperclass_within (s := s.examining i)
        (fun j scope s same => ih j same) i same
      exact (marked.trans superclass).trans (CheckState.examined_steps _ i _)

/-! ## The class that an extends clause names -/

theorem Program.superclassName_ok {i : Nat} {written : TypeRef} {name : String}
    (h : p.superclassName i written = .ok name) :
    written.className? = some name ∧ (p.classAt i).params.contains name = false := by
  unfold superclassName at h
  dsimp only at h
  split at h
  · cases h
  rename_i named
  split at h
  · cases h
  rename_i plain
  split at h
  · cases h
  split at h
  · cases h
  cases h
  refine ⟨named, ?_⟩
  cases own : (p.classAt i).params.contains name with
  | true => exact absurd (by rw [own, Bool.or_true]) plain
  | false => rfl

theorem Program.classFor_ok {span : Span} {name : String} {owner : Nat}
    (h : p.classFor span name = .ok owner) : p.findClass name = .found owner := by
  unfold classFor at h
  split at h
  · cases h
    assumption
  · cases h
  · cases h

theorem namedType_ok {n : Node} {mods : Modifiers} {name : String} {type : Ty}
    (free : scope.generics.contains name = false)
    (run : Check.exec (namedType n mods name).run scope s = (.ok type, t)) :
    type.className? = some name ∧ ∃ owner, scope.program.findClass name = .found owner := by
  obtain ⟨here, _, reading, run⟩ := Infer.bind_ok run
  cases reading
  obtain ⟨_, _, _, run⟩ := Infer.bind_ok run
  rw [if_neg (by simpa using free)] at run
  obtain ⟨owner, _, named, run⟩ := Infer.bind_ok run
  have found := Program.classFor_ok (Infer.settleBy_ok named).1
  dsimp only at run
  split at run
  · cases run
  · cases run
    exact ⟨rfl, owner, found⟩

theorem genericType_ok {n : Node} {mods : Modifiers} {name : String} {args : Check (List Resolved)}
    {type : Ty} (free : scope.generics.contains name = false)
    (run : Check.exec (genericType n mods name args).run scope s = (.ok type, t)) :
    type.className? = some name ∧ ∃ owner, scope.program.findClass name = .found owner := by
  obtain ⟨here, _, reading, run⟩ := Infer.bind_ok run
  cases reading
  rw [if_neg (by simpa using free)] at run
  obtain ⟨results, _, _, run⟩ := Infer.bind_ok run
  obtain ⟨owner, _, named, run⟩ := Infer.bind_ok run
  have found := Program.classFor_ok (Infer.settleBy_ok named).1
  obtain ⟨types, _, _, run⟩ := Infer.bind_ok run
  dsimp only at run
  split at run
  · cases run
  split at run
  · cases run
  obtain ⟨_, _, _, run⟩ := Infer.bind_ok run
  split at run
  · obtain ⟨_, _, _, run⟩ := Infer.bind_ok run
    cases run
    exact ⟨rfl, owner, found⟩
  · cases run
    exact ⟨rfl, owner, found⟩

theorem remembered_ok {id : Nat} {x : Infer Ty} {type : Ty}
    (fresh : s.findings.validity id = none)
    (run : Check.exec (remembered id x).run scope s = (.ok type, t)) :
    ∃ middle, Check.exec x.run scope s = (.ok type, middle) := by
  have unknown : s.findings.cached id = none := by simp [Findings.cached, fresh]
  rw [exec_remembered_unknown unknown] at run
  have same : (Check.exec (recorded id x).run scope s).1 = .ok type := congrArg Prod.fst run
  exact ⟨_, Prod.ext same rfl⟩

theorem TypeRef.resolve_className {written : TypeRef} {name : String} {type : Ty}
    (named : written.className? = some name) (free : scope.generics.contains name = false)
    (fresh : s.findings.validity written.id = none)
    (run : Check.exec written.resolve.run scope s = (.ok type, t)) :
    type.className? = some name ∧ ∃ owner, scope.program.findClass name = .found owner := by
  cases written with
  | named n mods ident =>
    cases named
    obtain ⟨_, run⟩ := remembered_ok fresh run
    exact namedType_ok free run
  | generic n mods ident args =>
    cases named
    obtain ⟨_, run⟩ := remembered_ok fresh run
    exact genericType_ok free run
  | primitive _ _ _ | array _ _ _ | keymap _ _ _ | void _ _ => cases named

theorem TypeRef.resolve_classOf {written : TypeRef} {name : String} {type : Ty}
    (named : written.className? = some name) (free : scope.generics.contains name = false)
    (fresh : s.findings.validity written.id = none)
    (run : Check.exec written.resolve.run scope s = (.ok type, t)) :
    ∃ owner, scope.program.classOf? type = some owner := by
  obtain ⟨same, owner, found⟩ := TypeRef.resolve_className named free fresh run
  exact ⟨owner, by simp [Program.classOf?, same, Program.theClass?, found]⟩

/-! ## Examining a class -/

/-- The types in the extends clauses of classes that are still to be examined are fresh. -/
def CheckState.Unexplored (p : Program) (s : CheckState) : Prop :=
  ∀ i, s.findings.mark i = .unvisited → s.Fresh (p.superclassNodes i)

/-- No class is under examination that was not before. -/
def CheckState.Settles (s t : CheckState) : Prop :=
  ∀ i, t.findings.mark i = .inProgress → s.findings.mark i = .inProgress

theorem Findings.mark_setMark (f : Findings) (i j : Nat) (mark : InheritanceMark) :
    (f.setMark i mark).mark j = if j = i then mark else f.mark j := by
  by_cases same : j = i <;> simp [Findings.mark, setMark, Table.get?_insert, same]

theorem Findings.Clean.setMark {f : Findings} (h : f.Clean) {i : Nat} {mark : InheritanceMark}
    (sound : mark ≠ .done false) : (f.setMark i mark).Clean := by
  refine ⟨h.nodes, fun j => ?_⟩
  rw [mark_setMark]
  split
  · exact sound
  · exact h.marks j

/-- What the examination of a class comes to. Where it fails without a word, the class had been
reached before, or the depth did not suffice. -/
def Examined (p : Program) (s : CheckState) (silent : Prop) (outcome : Bool × CheckState) : Prop :=
  outcome.1 = true ∧ outcome.2.Clean ∧ outcome.2.Unexplored p ∧ s.Settles outcome.2 ∨
    outcome.1 = false ∧ (outcome.2.Dirty ∨ silent)

theorem CheckState.dirty_append (s : CheckState) (e : CheckError) :
    CheckState.Dirty { s with errors := s.errors ++ [e] } := by
  simp [CheckState.Dirty]

theorem checkSuperclass_examined {examine : Nat → Check Bool} {i : Nat}
    (apart : ∀ i j, i ≠ j → Apart (p.superclassNodes i) (p.superclassNodes j))
    (h : ∀ j scope s, scope.Clean p → s.Clean → s.Unexplored p →
      Examined p s True ((examine j).exec scope s))
    (tidy : scope.Clean p) (clean : s.Clean) (unexplored : s.Unexplored p)
    (busy : s.findings.mark i = .inProgress) (fresh : s.Fresh (p.superclassNodes i)) :
    Examined p s False ((checkSuperclass examine i).exec scope s) := by
  cases extends_ : (p.classAt i).superclass with
  | none =>
    rw [exec_checkSuperclass_none tidy.program extends_]
    exact .inl ⟨rfl, clean, unexplored, fun _ h => h⟩
  | some written =>
    have nodes : p.superclassNodes i = written.nodes := by rw [Program.superclassNodes, extends_]; rfl
    rw [exec_checkSuperclass tidy.program extends_]
    cases legal : p.superclassName i written with
    | error e => exact .inr ⟨rfl, .inl (s.dirty_append e)⟩
    | ok name =>
      obtain ⟨named, free⟩ := Program.superclassName_ok legal
      let inside : Scope := { scope with generics := (p.classAt i).params }
      have tidyInside : inside.Clean p := ⟨tidy.program, tidy.bindings, tidy.returns⟩
      have resolve := written.resolve_infers (p := p) (P := True) (owns_covers written.nodes)
      have steps := resolve.within inside s tidyInside.program
      have verdict := resolve.faithful inside s tidyInside clean trivial
      dsimp only
      rcases run : Check.exec written.resolve.run inside s with ⟨e | type, t⟩
      · rw [run] at verdict
        rcases verdict with ⟨⟨_, impossible, _⟩, _⟩ | ⟨_, dirty⟩
        · cases impossible
        · exact .inr ⟨rfl, .inl dirty⟩
      rw [run] at verdict steps
      rcases verdict with ⟨_, cleanAfter⟩ | ⟨impossible, _⟩
      swap
      · cases impossible
      have denotes := TypeRef.resolve_classOf named free
        (fresh written.node (nodes ▸ written.node_mem_nodes)) run
      rw [tidyInside.program] at denotes
      obtain ⟨owner, denotes⟩ := denotes
      have marks (j : Nat) : t.findings.mark j = s.findings.mark j := steps.mark_eq id
      have unexploredAfter : t.Unexplored p := by
        intro j unvisited
        rw [marks] at unvisited
        have other : i ≠ j := by
          rintro rfl
          rw [busy] at unvisited
          cases unvisited
        exact steps.fresh (nodes ▸ apart i j other).covers (unexplored j unvisited)
      dsimp only
      rw [denotes]
      dsimp only
      have examined := h owner scope t tidy cleanAfter unexploredAfter
      rcases answer : (examine owner).exec scope t with ⟨_ | _, u⟩
      · exact .inr ⟨rfl, .inl (u.dirty_append _)⟩
      · rw [answer] at examined
        rcases examined with ⟨_, cleanLast, unexploredLast, settles⟩ | ⟨impossible, _⟩
        swap
        · cases impossible
        refine .inl ⟨rfl, ⟨cleanLast.1, cleanLast.2.of_eq (fun _ => rfl) fun _ => rfl⟩,
          fun j unvisited => unexploredLast j unvisited, fun j busy => ?_⟩
        rw [← marks]
        exact settles j busy

theorem Examined.of_superclass {i : Nat} {silent : Prop} {sound : Bool}
    (h : Examined p (s.examining i) False (sound, t)) :
    Examined p s silent
      (sound && (p.memberFaults t.findings i sound).isEmpty, t.examined p i sound) := by
  rcases h with ⟨rfl, clean, unexplored, settles⟩ | ⟨rfl, dirty | impossible⟩
  · cases faults : p.memberFaults t.findings i true with
    | cons e rest => exact .inr ⟨rfl, .inl (by simp [CheckState.Dirty, CheckState.examined, faults])⟩
    | nil =>
      have marks (j : Nat) : (t.examined p i true).findings.mark j =
          if j = i then .done true else t.findings.mark j := by
        simp only [CheckState.examined, faults, Findings.mark_setMark]
        rfl
      have errors : (t.examined p i true).errors = [] := by
        simp only [CheckState.examined, faults, List.append_nil]
        exact clean.1
      refine .inl ⟨rfl, ⟨errors, ?_⟩, fun j unvisited => ?_, fun j busy => ?_⟩
      · refine clean.2.setMark ?_
        simp [faults]
      · rw [marks] at unvisited
        split at unvisited
        · cases unvisited
        · exact unexplored j unvisited
      · rw [marks] at busy
        split at busy
        · cases busy
        · rename_i other
          have before := settles j busy
          rw [CheckState.examining, Findings.mark_setMark, if_neg other] at before
          exact before
  · exact .inr ⟨rfl, .inl ((t.examined_steps i false).dirty dirty)⟩
  · exact impossible.elim

theorem checkInheritance_examined
    (apart : ∀ i j, i ≠ j → Apart (p.superclassNodes i) (p.superclassNodes j)) (depth i : Nat)
    (tidy : scope.Clean p) (clean : s.Clean) (unexplored : s.Unexplored p) :
    Examined p s (s.findings.mark i = .inProgress ∨ depth = 0)
      ((checkInheritance depth i).exec scope s) := by
  induction depth generalizing i scope s with
  | zero =>
    rw [exec_checkInheritance]
    cases marked : s.findings.mark i with
    | done valid =>
      cases valid with
      | true => exact .inl ⟨rfl, clean, unexplored, fun _ h => h⟩
      | false => exact absurd marked (clean.2.marks i)
    | inProgress => exact .inr ⟨rfl, .inr (.inl rfl)⟩
    | unvisited => exact .inr ⟨rfl, .inr (.inr rfl)⟩
  | succ depth ih =>
    rw [exec_checkInheritance]
    cases marked : s.findings.mark i with
    | done valid =>
      cases valid with
      | true => exact .inl ⟨rfl, clean, unexplored, fun _ h => h⟩
      | false => exact absurd marked (clean.2.marks i)
    | inProgress => exact .inr ⟨rfl, .inr (.inl rfl)⟩
    | unvisited =>
      dsimp only
      rw [exec_examineClass tidy.program]
      have marks (j : Nat) := s.findings.mark_setMark i j .inProgress
      have cleanFirst : (s.examining i).Clean := ⟨clean.1, clean.2.setMark nofun⟩
      have unexploredFirst : (s.examining i).Unexplored p := by
        intro j unvisited
        have before : (s.findings.setMark i .inProgress).mark j = .unvisited := unvisited
        rw [marks] at before
        split at before
        · cases before
        · exact unexplored j before
      have busy : (s.examining i).findings.mark i = .inProgress := (marks i).trans (if_pos rfl)
      have examine (j : Nat) (scope : Scope) (s : CheckState) (tidy : scope.Clean p)
          (clean : s.Clean) (unexplored : s.Unexplored p) :
          Examined p s True ((checkInheritance depth j).exec scope s) := by
        rcases ih j tidy clean unexplored with sound | ⟨failed, dirty | _⟩
        · exact .inl sound
        · exact .inr ⟨failed, .inl dirty⟩
        · exact .inr ⟨failed, .inr trivial⟩
      exact .of_superclass (checkSuperclass_examined apart examine tidy cleanFirst
        unexploredFirst busy (unexplored i marked))

/-- The examination of a class while no other is under examination. -/
def CheckState.Idle (p : Program) (s : CheckState) : Prop :=
  s.Unexplored p ∧ ∀ i, s.findings.mark i ≠ .inProgress

theorem checkInheritances_within (depth : Nat) (classes : List Nat) (same : scope.program = p) :
    Steps (lineage p) s ((classes.mapM (checkInheritance depth)).exec scope s).2 := by
  induction classes generalizing s with
  | nil =>
    rw [Check.exec_mapM_nil]
    exact Steps.refl s
  | cons i rest ih =>
    rw [Check.exec_mapM_cons]
    exact (checkInheritance_within depth i same).trans ih

theorem checkInheritances_honest
    (apart : ∀ i j, i ≠ j → Apart (p.superclassNodes i) (p.superclassNodes j)) {depth : Nat}
    (enough : depth ≠ 0) (classes : List Nat) :
    Honest p (lineage p) (·.Idle p) (classes.mapM (checkInheritance depth)) (·.all id = true)
      (·.all id = false) where
  within _ _ same := checkInheritances_within depth classes same
  faithful scope s tidy clean idle := by
    induction classes generalizing s with
    | nil =>
      rw [Check.exec_mapM_nil]
      exact .inl ⟨rfl, clean⟩
    | cons i rest ih =>
      rw [Check.exec_mapM_cons]
      rcases checkInheritance_examined apart depth i tidy clean idle.1 with
        ⟨sound, cleanAfter, unexplored, settles⟩ | ⟨failed, dirty | busy | none_⟩
      · have idleAfter := fun j busy => idle.2 j (settles j busy)
        rcases ih _ cleanAfter ⟨unexplored, idleAfter⟩ with ⟨fine, after⟩ | ⟨faulty, after⟩
        · exact .inl ⟨congrArg₂ and sound fine, after⟩
        · exact .inr ⟨(congrArg (and _) faulty).trans (Bool.and_false _), after⟩
      · refine .inr ⟨congrArg (and · _) failed, ?_⟩
        exact (checkInheritances_within depth rest tidy.program).dirty dirty
      · exact absurd busy (idle.2 i)
      · exact absurd none_ enough

end ClassLang
