import ClassLang.Proofs.Checking.Separation
import ClassLang.Proofs.Checking.Standings
import ClassLang.Proofs.Checking.Verdict

/-!
What the examination of all classes comes to, class by class: a verdict, a link, entries about the
types in its extends clause, and reports of its own. None of it depends on the order in which they are
reached, except for the order of the reports.
-/

namespace ClassLang

variable {scope : Scope} {s t : CheckState} {i j : Nat} {busy log : List Nat}

/-! ## One class -/

namespace Scope

variable (scope : Scope) (s : CheckState) (f : Findings) (i : Nat)

/-- What the extends clause of a class comes to in the state before all examinations. -/
def standing : Standing := ((resolveSuperclass i).exec scope s).1

/-- The state after that. -/
def resolved : CheckState := ((resolveSuperclass i).exec scope s).2

end Scope

/-- Whether a class has been found sound. -/
def Findings.sound (f : Findings) (i : Nat) : Bool := f.mark i == .done true

theorem Findings.sound_of_done {f : Findings} {valid : Bool} (settled : f.mark i = .done valid) :
    f.sound i = valid := by
  rw [sound, settled]
  cases valid <;> rfl

namespace Scope

variable (scope : Scope) (s : CheckState) (f : Findings) (i : Nat)

/-- Whether the superclass of a class is sound, in view of the verdicts so far. -/
def superclassSound : Bool := (scope.standing s i).sound f.sound

/-- What is reported when a class is examined, in view of the verdicts so far. -/
def faultsOf : List CheckError :=
  s.newErrors (scope.resolved s i) ++ ((scope.standing s i).faults f.sound ++
    scope.program.memberFaults f i (scope.superclassSound s f i))

def warningsOf : List Warning :=
  s.newWarnings (scope.resolved s i) ++
    scope.program.shadowWarnings f i (scope.superclassSound s f i)

/-- A class with its verdict and its link, and so is its superclass. -/
structure Placed : Prop where
  above : ∀ j, (scope.standing s i).superclass? = some j → ∃ valid, f.mark j = .done valid
  mark : f.mark i = .done (scope.superclassSound s f i &&
    (scope.program.memberFaults f i (scope.superclassSound s f i)).isEmpty)
  link : f.superclass? i = (scope.standing s i).link? f.sound

end Scope

/-- The state in which the examination of a class ends, from one in which its superclass has been
examined. -/
def Scope.settled (scope : Scope) (s t : CheckState) (i : Nat) : CheckState :=
  (t.placed i (scope.standing s i) t.findings.sound).examined scope.program i
    (scope.superclassSound s t.findings i)

namespace Standing

variable {standing : Standing} {verdict verdict' : Nat → Bool}
  (same : ∀ j, standing.superclass? = some j → verdict' j = verdict j)
include same

theorem sound_congr : standing.sound verdict' = standing.sound verdict := by
  simpa using sound_renumber (σ := Equiv.refl Nat) same

theorem faults_congr : standing.faults verdict' = standing.faults verdict := by
  simpa using faults_renumber (σ := Equiv.refl Nat) same

theorem link?_congr : standing.link? verdict' = standing.link? verdict := by
  simpa using link?_renumber (σ := Equiv.refl Nat) same

end Standing

/-- From some findings to later ones, nothing changes for a class. -/
structure Keeps (p : Program) (f g : Findings) (i : Nat) : Prop where
  mark : g.mark i = f.mark i
  link : g.superclass? i = f.superclass? i
  ancestors : g.ancestors i = f.ancestors i
  typeOf : ∀ t ∈ p.signature, g.typeOf t.id = f.typeOf t.id

namespace Keeps

variable {f g : Findings} (keeps : Keeps scope.program f g i)
  (above : ∀ j, (scope.standing s i).superclass? = some j → g.mark j = f.mark j)
include above

omit keeps in
theorem superclassSound : scope.superclassSound s g i = scope.superclassSound s f i :=
  Standing.sound_congr fun j extends_ => by rw [Findings.sound, Findings.sound, above j extends_]

include keeps

theorem memberFaults :
    scope.program.memberFaults g i (scope.superclassSound s g i) =
      scope.program.memberFaults f i (scope.superclassSound s f i) := by
  rw [superclassSound above, Program.memberFaults_congr keeps.ancestors keeps.typeOf]

theorem faultsOf : scope.faultsOf s g i = scope.faultsOf s f i := by
  have faults : (scope.standing s i).faults g.sound = (scope.standing s i).faults f.sound :=
    Standing.faults_congr fun j extends_ => by rw [Findings.sound, Findings.sound, above j extends_]
  rw [Scope.faultsOf, Scope.faultsOf, faults, keeps.memberFaults above]

theorem warningsOf : scope.warningsOf s g i = scope.warningsOf s f i := by
  rw [Scope.warningsOf, Scope.warningsOf, superclassSound above,
    Program.shadowWarnings_congr keeps.ancestors keeps.typeOf]

theorem placed (placed : scope.Placed s f i) : scope.Placed s g i where
  above j extends_ := by
    obtain ⟨valid, settled⟩ := placed.above j extends_
    exact ⟨valid, (above j extends_).trans settled⟩
  mark := by
    rw [keeps.mark, placed.mark, keeps.memberFaults above, superclassSound above]
  link := by
    rw [keeps.link, placed.link]
    exact (Standing.link?_congr fun j extends_ => by
      rw [Findings.sound, Findings.sound, above j extends_]).symm

end Keeps

/-! ## Part of the classes -/

/-- No class has been examined, and the types in extends clauses are fresh. -/
structure CheckState.Untouched (p : Program) (s : CheckState) : Prop where
  marks : ∀ i, s.findings.mark i = .unvisited
  links : s.findings.superclasses.bindings = []
  fresh : ∀ i, s.Fresh (p.superclassNodes i)

/-- What has been found out since when some classes are under examination and others have been
examined. -/
structure Survey (scope : Scope) (s : CheckState) (busy log : List Nat) (t : CheckState) : Prop where
  placed : ∀ i ∈ log, scope.Placed s t.findings i
  examining : ∀ i ∈ busy, t.findings.mark i = .inProgress
  rest : ∀ i, i ∉ busy ++ log → t.findings.mark i = .unvisited
  listed : ∀ i ∈ log, i ∈ scope.program.classIndices
  nodup : (busy ++ log).Nodup
  mine : ∀ i ∈ busy ++ log, ∀ n ∈ scope.program.superclassNodes i,
    (scope.resolved s i).findings.MirrorsAt (Equiv.refl Nat) t.findings n.id
  others : ∀ id, (∀ i ∈ busy ++ log, id ∉ (scope.program.superclassNodes i).map Node.id) →
    s.findings.MirrorsAt (Equiv.refl Nat) t.findings id
  chained : Chained t.findings.superclasses.bindings
  links : ∀ entry ∈ t.findings.superclasses.bindings, entry.1 ∈ log ∧ entry.2.superclass ∈ log
  errors : t.errors.Perm (s.errors ++ (busy.flatMap (fun i => s.newErrors (scope.resolved s i)) ++
    log.flatMap (scope.faultsOf s t.findings)))
  warnings : t.warnings.Perm (s.warnings ++
    (busy.flatMap (fun i => s.newWarnings (scope.resolved s i)) ++
      log.flatMap (scope.warningsOf s t.findings)))

theorem Scope.resolved_steps (scope : Scope) (s : CheckState) (i : Nat) :
    Steps (covers (scope.program.superclassNodes i)) s (scope.resolved s i) := by
  rw [Scope.resolved, exec_resolveSuperclass rfl]
  cases extends_ : (scope.program.classAt i).superclass with
  | none => exact Steps.refl s
  | some written =>
    dsimp only
    cases scope.program.superclassName i written with
    | error e => exact Steps.refl s
    | ok name =>
      have mine : scope.program.superclassNodes i = written.nodes := by
        rw [Program.superclassNodes, extends_]
        rfl
      rw [mine]
      exact (written.resolve_infers (p := scope.program) (P := True) (owns_covers written.nodes)).within
        { scope with generics := (scope.program.classAt i).params } s rfl

namespace Findings

variable {f : Findings} {link? : Option SuperclassLink} {k : Nat}

theorem linked_mark : (f.linked i link?).mark k = f.mark k := by cases link? <;> rfl

theorem linked_at (id : Nat) : f.MirrorsAt (Equiv.refl Nat) (f.linked i link?) id := by
  cases link? with
  | none => exact .refl f id
  | some link => exact ⟨rfl, rfl, Iff.rfl, (MirrorsAt.refl f id).resolution⟩

theorem linked_superclass? (unlinked : f.superclass? i = none) :
    (f.linked i link?).superclass? k = if k = i then link? else f.superclass? k := by
  cases link? with
  | none =>
    split
    · rename_i same
      exact same ▸ unlinked
    · rfl
  | some link => exact superclass?_setSuperclass ..

theorem linked_chained (chained : Chained f.superclasses.bindings)
    (apart : ∀ link, link? = some link → link.superclass ≠ i)
    (others : ∀ entry ∈ f.superclasses.bindings, entry.1 ≠ i ∧ entry.2.superclass ≠ i) :
    Chained (f.linked i link?).superclasses.bindings := by
  cases link? with
  | none => exact chained
  | some link => exact .cons chained (apart link rfl) others

theorem linked_ancestors (before : Chained f.superclasses.bindings)
    (after : Chained (f.linked i link?).superclasses.bindings) (other : k ≠ i) :
    (f.linked i link?).ancestors k = f.ancestors k := by
  cases link? with
  | none => rfl
  | some link =>
    rw [ancestors_eq before, ancestors_eq after]
    exact lineOf_other other

theorem mem_linked {entry : Nat × SuperclassLink}
    (known : entry ∈ (f.linked i link?).superclasses.bindings) :
    entry ∈ f.superclasses.bindings ∨ entry.1 = i ∧ link? = some entry.2 := by
  cases link? with
  | none => exact .inl known
  | some link =>
    rcases List.mem_cons.1 known with rfl | known
    · exact .inr ⟨rfl, rfl⟩
    · exact .inl known

end Findings

/-! ## The state during an examination and after it -/

namespace Scope

variable {k : Nat}

theorem resolved_mark : (scope.resolved (t.examining i) i).findings.mark k =
    if k = i then .inProgress else t.findings.mark k :=
  ((scope.resolved_steps (t.examining i) i).mark_eq id).trans (Findings.mark_setMark ..)

theorem resolved_superclasses :
    (scope.resolved (t.examining i) i).findings.superclasses = t.findings.superclasses :=
  (scope.resolved_steps (t.examining i) i).superclasses_eq fun _ => id

theorem resolved_spares {id : Nat} (not : id ∉ (scope.program.superclassNodes i).map Node.id) :
    t.findings.MirrorsAt (Equiv.refl Nat) (scope.resolved (t.examining i) i).findings id := by
  have kept : (t.examining i).findings.MirrorsAt (Equiv.refl Nat) _ id :=
    (scope.resolved_steps (t.examining i) i).spares not nofun
  exact ⟨kept.validity, kept.typeOf, kept.failed, kept.resolution⟩

theorem resolved_keeps (distinct : Distinct scope.program.nodes) (other : k ≠ i) :
    Keeps scope.program t.findings (scope.resolved (t.examining i) i).findings k where
  mark := resolved_mark.trans (if_neg other)
  link := congrArg (Table.get? · k) resolved_superclasses
  ancestors := Findings.ancestors_congr (f := t.findings) resolved_superclasses k
  typeOf w written := (resolved_spares fun mine =>
    lineage_spares_types distinct w written ⟨i, mine⟩).typeOf

theorem settled_mark (other : k ≠ i) :
    (scope.settled s t i).findings.mark k = t.findings.mark k :=
  ((Findings.mark_setMark ..).trans (if_neg other)).trans Findings.linked_mark

theorem settled_superclass? (unlinked : t.findings.superclass? i = none) :
    (scope.settled s t i).findings.superclass? k =
      if k = i then (scope.standing s i).link? t.findings.sound else t.findings.superclass? k :=
  Findings.linked_superclass? unlinked

theorem settled_ancestors : (scope.settled s t i).findings.ancestors k =
    (t.findings.linked i ((scope.standing s i).link? t.findings.sound)).ancestors k := by
  refine Findings.ancestors_congr ?_ k
  rfl

theorem settled_at (id : Nat) :
    t.findings.MirrorsAt (Equiv.refl Nat) (scope.settled s t i).findings id := by
  have kept : t.findings.MirrorsAt (Equiv.refl Nat) (t.findings.linked i
      ((scope.standing s i).link? t.findings.sound)) id := Findings.linked_at id
  exact ⟨kept.validity, kept.typeOf, kept.failed, kept.resolution⟩

/-- The faults of the members are told from the state before the verdict on the class. -/
theorem settled_memberFaults (sound : Bool) :
    scope.program.memberFaults (scope.settled s t i).findings i sound =
      scope.program.memberFaults (t.findings.linked i
        ((scope.standing s i).link? t.findings.sound)) i sound :=
  Program.memberFaults_congr settled_ancestors (fun _ _ => rfl) sound

end Scope

theorem perm_append_first {α : Type} {all first under visited new : List α}
    (h : all.Perm (first ++ (under ++ visited))) :
    (all ++ new).Perm (first ++ (new ++ under ++ visited)) := by
  refine (h.append_right new).trans ?_
  rw [List.append_assoc, List.append_assoc new]
  exact List.perm_append_comm.append_left first

theorem perm_append_last {α : Type} {all first under visited new rest : List α}
    (h : all.Perm (first ++ (new ++ under ++ visited))) :
    (all ++ rest).Perm (first ++ (under ++ (new ++ rest ++ visited))) := by
  have moved : (new ++ under ++ visited ++ rest).Perm (under ++ (new ++ rest ++ visited)) := by
    rw [List.append_assoc new, List.append_assoc new, List.append_assoc new, List.append_assoc under]
    refine (List.perm_append_comm_assoc new under _).trans ?_
    exact (List.perm_append_comm.append_left new).append_left under
  refine (h.append_right rest).trans ?_
  rw [List.append_assoc]
  exact moved.append_left first

namespace Survey

theorem start (untouched : s.Untouched scope.program) : Survey scope s [] [] s where
  placed := nofun
  examining := nofun
  rest i _ := untouched.marks i
  listed := nofun
  nodup := List.nodup_nil
  mine := nofun
  others id _ := .refl _ id
  chained := untouched.links ▸ .nil
  links := untouched.links ▸ nofun
  errors := by simp
  warnings := by simp

section Visited

variable (survey : Survey scope s busy log t)
include survey

theorem typeOf (distinct : Distinct scope.program.nodes) :
    ∀ w ∈ scope.program.signature, t.findings.typeOf w.id = s.findings.typeOf w.id :=
  fun w written => (survey.others w.id fun i _ mine =>
    lineage_spares_types distinct w written ⟨i, mine⟩).typeOf

theorem done_mem {valid : Bool} (settled : t.findings.mark i = .done valid) : i ∈ log := by
  by_contra other
  by_cases under : i ∈ busy
  · cases (survey.examining i under).symm.trans settled
  · have apart : i ∉ busy ++ log := fun listed => (List.mem_append.1 listed).elim under other
    cases (survey.rest i apart).symm.trans settled

/-- A class that is not linked yet has no ancestors yet. -/
theorem unlinked (other : i ∉ log) : t.findings.superclass? i = none := by
  cases linked : t.findings.superclass? i with
  | none => rfl
  | some link =>
    obtain ⟨before, after, split_, _⟩ := List.lookup_eq_some_iff.1 linked
    refine absurd (survey.links (i, link) ?_).1 other
    rw [split_]
    exact List.mem_append_right _ (List.mem_cons_self ..)

/-- What has been said of the classes examined so far is said of them later if nothing changes for
them. -/
theorem kept {g : Findings} (keeps : ∀ k ∈ log, Keeps scope.program t.findings g k) :
    (∀ k ∈ log, scope.Placed s g k) ∧
      log.flatMap (scope.faultsOf s g) = log.flatMap (scope.faultsOf s t.findings) ∧
        log.flatMap (scope.warningsOf s g) = log.flatMap (scope.warningsOf s t.findings) := by
  have above (k : Nat) (visited : k ∈ log) (j : Nat)
      (extends_ : (scope.standing s k).superclass? = some j) : g.mark j = t.findings.mark j := by
    obtain ⟨valid, settled⟩ := (survey.placed k visited).above j extends_
    exact (keeps j (survey.done_mem settled)).mark
  exact ⟨fun k visited => (keeps k visited).placed (above k visited) (survey.placed k visited),
    List.flatMap_congr fun k visited => (keeps k visited).faultsOf (above k visited),
    List.flatMap_congr fun k visited => (keeps k visited).warningsOf (above k visited)⟩

section Enter

variable (distinct : Distinct scope.program.nodes) (first : i ∉ busy ++ log)
include distinct first

/-- The extends clause of a class that comes under examination comes to what it would have come to in
the beginning. -/
theorem resolves : Alike (Equiv.refl Nat)
    ⟨(· ∈ (scope.program.superclassNodes i).map Node.id), False⟩ id s (t.examining i)
    ((resolveSuperclass i).exec scope s) ((resolveSuperclass i).exec scope (t.examining i)) := by
  have untouched (id : Nat) (mine : id ∈ (scope.program.superclassNodes i).map Node.id) :
      s.findings.MirrorsAt (Equiv.refl Nat) (t.examining i).findings id := by
    have before := survey.others id fun k visited other =>
      Program.superclasses_apart (Program.distinct_parts distinct).right.right.left i k
        (fun same => first (same ▸ visited)) mine other
    exact ⟨before.validity, before.typeOf, before.failed, before.resolution⟩
  have alike := resolveSuperclass_parallel (.refl scope.program)
    ⟨(· ∈ (scope.program.superclassNodes i).map Node.id), False⟩ i
    (fun n listed => List.mem_map_of_mem listed) scope s (t.examining i) rfl ⟨untouched, nofun, nofun⟩
  rwa [Scope.mirrored_self rfl, Standing.renumber_refl] at alike

/-- A class comes under examination. -/
theorem enter : Survey scope s (i :: busy) log (scope.resolved (t.examining i) i) := by
  have differ (k : Nat) (visited : k ∈ busy ++ log) : k ≠ i := fun same => first (same ▸ visited)
  have alike := survey.resolves distinct first
  obtain ⟨placed, faults, warnings⟩ := survey.kept fun k visited =>
    Scope.resolved_keeps (i := i) distinct (differ k (List.mem_append_right _ visited))
  constructor
  case placed => exact placed
  case examining =>
    intro k under
    rw [Scope.resolved_mark]
    split
    · rfl
    · rename_i other
      exact survey.examining k ((List.mem_cons.1 under).resolve_left other)
  case rest =>
    intro k unvisited
    obtain ⟨other, before⟩ := not_or.1 (List.mem_cons.not.1 unvisited)
    rw [Scope.resolved_mark, if_neg other]
    exact survey.rest k before
  case listed => exact survey.listed
  case nodup => exact List.nodup_cons.2 ⟨first, survey.nodup⟩
  case mine =>
    intro k visited n written
    rcases List.mem_cons.1 visited with rfl | visited
    · exact alike.findings.node n.id (List.mem_map_of_mem written)
    · refine (survey.mine k visited n written).trans (Scope.resolved_spares fun other => ?_)
      exact Program.superclasses_apart (Program.distinct_parts distinct).right.right.left k i
        (differ k visited) (List.mem_map_of_mem written) other
  case others =>
    intro id none
    refine (survey.others id fun k visited => none k (List.mem_cons_of_mem i visited)).trans
      (Scope.resolved_spares (none i (List.mem_cons_self ..)))
  case chained =>
    rw [Scope.resolved_superclasses]
    exact survey.chained
  case links =>
    rw [Scope.resolved_superclasses]
    exact survey.links
  case errors =>
    rw [faults, List.flatMap_cons]
    exact (List.Perm.of_eq alike.newErrors.2).trans (perm_append_first survey.errors)
  case warnings =>
    rw [warnings, List.flatMap_cons]
    exact (List.Perm.of_eq alike.newWarnings.2).trans (perm_append_first survey.warnings)

end Enter

theorem perm {log' : List Nat} (same : log.Perm log') : Survey scope s busy log' t := by
  have all := same.append_left busy
  exact {
    placed := fun i visited => survey.placed i (same.mem_iff.2 visited)
    examining := survey.examining
    rest := fun i unvisited => survey.rest i (unvisited ∘ all.mem_iff.1)
    listed := fun i visited => survey.listed i (same.mem_iff.2 visited)
    nodup := all.nodup_iff.1 survey.nodup
    mine := fun i visited => survey.mine i (all.mem_iff.2 visited)
    others := fun id none => survey.others id fun i visited => none i (all.mem_iff.1 visited)
    chained := survey.chained
    links := fun entry known =>
      (survey.links entry known).imp same.mem_iff.1 same.mem_iff.1
    errors := survey.errors.trans (((same.flatMap_right _).append_left _).append_left _)
    warnings := survey.warnings.trans (((same.flatMap_right _).append_left _).append_left _) }

end Visited

section Leave

variable (survey : Survey scope s (i :: busy) log t)
  (superclass : ∀ j, (scope.standing s i).superclass? = some j → j ∈ log)
include survey

theorem ne_of_visited {k : Nat} (visited : k ∈ busy ++ log) : k ≠ i := by
  rintro rfl
  exact (List.nodup_cons.1 survey.nodup).1 visited

theorem unlinked_busy : t.findings.superclass? i = none :=
  survey.unlinked fun visited => survey.ne_of_visited (List.mem_append_right _ visited) rfl

include superclass

theorem superclass_ne {j : Nat} (extends_ : (scope.standing s i).superclass? = some j) : j ≠ i :=
  survey.ne_of_visited (List.mem_append_right _ (superclass j extends_))

theorem settled_chained : Chained (scope.settled s t i).findings.superclasses.bindings := by
  refine Findings.linked_chained survey.chained (fun link linked => ?_) fun entry known => ?_
  · exact survey.superclass_ne superclass (Standing.link?_superclass linked)
  · obtain ⟨lower, higher⟩ := survey.links entry known
    exact ⟨survey.ne_of_visited (List.mem_append_right _ lower),
      survey.ne_of_visited (List.mem_append_right _ higher)⟩

theorem settled_keeps {k : Nat} (visited : k ∈ log) :
    Keeps scope.program t.findings (scope.settled s t i).findings k :=
  have other := survey.ne_of_visited (List.mem_append_right _ visited)
  { mark := Scope.settled_mark other
    link := (Scope.settled_superclass? survey.unlinked_busy).trans (if_neg other)
    ancestors := Scope.settled_ancestors.trans
      (Findings.linked_ancestors survey.chained (survey.settled_chained superclass) other)
    typeOf := fun w _ => (Scope.settled_at w.id).typeOf }

/-- The verdict on a class itself does not change the one on its superclass. -/
theorem settled_sound {j : Nat} (extends_ : (scope.standing s i).superclass? = some j) :
    (scope.settled s t i).findings.sound j = t.findings.sound j := by
  rw [Findings.sound, Findings.sound, Scope.settled_mark (survey.superclass_ne superclass extends_)]

theorem settled_superclassSound : scope.superclassSound s (scope.settled s t i).findings i =
    scope.superclassSound s t.findings i :=
  Standing.sound_congr fun _ => survey.settled_sound superclass

theorem settled_placed : scope.Placed s (scope.settled s t i).findings i where
  above j extends_ := by
    have placed := survey.placed j (superclass j extends_)
    exact ⟨_, (Scope.settled_mark (survey.superclass_ne superclass extends_)).trans placed.mark⟩
  mark := by
    rw [survey.settled_superclassSound superclass, Scope.settled_memberFaults]
    exact (Findings.mark_setMark ..).trans (if_pos rfl)
  link := by
    rw [Standing.link?_congr fun _ => survey.settled_sound superclass]
    exact (Scope.settled_superclass? survey.unlinked_busy).trans (if_pos rfl)

/-- The examination of a class ends, after that of its superclass. -/
theorem leave (listed : i ∈ scope.program.classIndices) :
    Survey scope s busy (i :: log) (scope.settled s t i) := by
  obtain ⟨placed, faults, warnings⟩ := survey.kept fun _ => survey.settled_keeps superclass
  constructor
  case placed =>
    intro k visited
    rcases List.mem_cons.1 visited with rfl | visited
    · exact survey.settled_placed superclass
    · exact placed k visited
  case examining =>
    intro k under
    exact (Scope.settled_mark (survey.ne_of_visited (List.mem_append_left _ under))).trans
      (survey.examining k (List.mem_cons_of_mem i under))
  case rest =>
    intro k unvisited
    have before := unvisited ∘ List.perm_middle.mem_iff.2
    have other : k ≠ i := fun same => before (same ▸ List.mem_cons_self ..)
    exact (Scope.settled_mark other).trans (survey.rest k before)
  case listed =>
    intro k visited
    rcases List.mem_cons.1 visited with rfl | visited
    · exact listed
    · exact survey.listed k visited
  case nodup => exact (List.perm_middle.nodup_iff).2 survey.nodup
  case mine =>
    intro k visited n written
    exact (survey.mine k (List.perm_middle.mem_iff.1 visited) n written).trans
      (Scope.settled_at n.id)
  case others =>
    intro id none
    exact (survey.others id fun k visited => none k (List.perm_middle.mem_iff.2 visited)).trans
      (Scope.settled_at id)
  case chained => exact survey.settled_chained superclass
  case links =>
    intro entry known
    rcases Findings.mem_linked known with before | ⟨here, linked⟩
    · obtain ⟨lower, higher⟩ := survey.links entry before
      exact ⟨List.mem_cons_of_mem i lower, List.mem_cons_of_mem i higher⟩
    · have above := superclass _ (Standing.link?_superclass linked)
      exact ⟨here ▸ List.mem_cons_self .., List.mem_cons_of_mem i above⟩
  case errors =>
    have reported : (scope.settled s t i).errors = t.errors ++
        ((scope.standing s i).faults t.findings.sound ++ scope.program.memberFaults
          (scope.settled s t i).findings i (scope.superclassSound s t.findings i)) := by
      rw [Scope.settled_memberFaults]
      exact List.append_assoc ..
    rw [List.flatMap_cons, faults, Scope.faultsOf,
      Standing.faults_congr fun _ => survey.settled_sound superclass,
      survey.settled_superclassSound superclass, reported]
    exact perm_append_last survey.errors
  case warnings =>
    have warned : (scope.settled s t i).warnings = t.warnings ++ scope.program.shadowWarnings
        (scope.settled s t i).findings i (scope.superclassSound s t.findings i) :=
      congrArg _ (Program.shadowWarnings_congr Scope.settled_ancestors (fun _ _ => rfl) _).symm
    rw [List.flatMap_cons, warnings, Scope.warningsOf, survey.settled_superclassSound superclass,
      warned]
    exact perm_append_last survey.warnings

end Leave

end Survey

/-! ## The recursion -/

/-- What the examination of a class comes to, while others are under examination. -/
structure Surveys (scope : Scope) (s t : CheckState) (busy log : List Nat) (i : Nat)
    (log' : List Nat) (outcome : Bool × CheckState) : Prop where
  survey : Survey scope s busy log' outcome.2
  visited : i ∈ log'
  grows : log ⊆ log'
  result : outcome.1 = outcome.2.findings.sound i
  keeps : ∀ j valid, t.findings.mark j = .done valid → outcome.2.findings.mark j = .done valid

/-- A class that has been visited keeps its verdict; it is not one of those under examination, since
they lead to it through their extends clauses and none of them is on a cycle. -/
theorem checkInheritance_visited (survey : Survey scope s busy log t) (visited : i ∈ busy ++ log)
    (trail : ∀ k ∈ busy, Relation.TransGen scope.program.Names k i ∧ scope.program.inCycle k = false)
    (depth : Nat) : Surveys scope s t busy log i log ((checkInheritance depth i).exec scope t) := by
  rcases List.mem_append.1 visited with under | before
  · obtain ⟨cycle, acyclic⟩ := trail i under
    rw [Program.inCycle_iff.2 cycle] at acyclic
    cases acyclic
  · have settled := (survey.placed i before).mark
    rw [exec_checkInheritance, settled]
    exact ⟨survey, before, List.Subset.refl log, (Findings.sound_of_done settled).symm, fun _ _ => id⟩

theorem examineClass_surveys {examine : Nat → Check Bool} (distinct : Distinct scope.program.nodes)
    (listed : i ∈ scope.program.classIndices) (survey : Survey scope s busy log t)
    (first : i ∉ busy ++ log)
    (examines : ∀ j u, (scope.standing s i).superclass? = some j → Survey scope s (i :: busy) log u →
      (∀ k, u.findings.mark k = (t.examining i).findings.mark k) →
        ∃ log', Surveys scope s u (i :: busy) log j log' ((examine j).exec scope u)) :
    ∃ log', Surveys scope s t busy log i log' ((examineClass examine i).exec scope t) := by
  have entered := survey.enter distinct first
  have start : (resolveSuperclass i).exec scope (t.examining i) =
      (scope.standing s i, scope.resolved (t.examining i) i) :=
    Prod.ext (survey.resolves distinct first).result rfl
  have marks (k : Nat) : (scope.resolved (t.examining i) i).findings.mark k =
      (t.examining i).findings.mark k := (scope.resolved_steps (t.examining i) i).mark_eq id
  have closed {u : CheckState} {log' : List Nat} (after : Survey scope s (i :: busy) log' u)
      (superclass : ∀ j, (scope.standing s i).superclass? = some j → j ∈ log') (grows : log ⊆ log')
      (keeps : ∀ j valid, (t.examining i).findings.mark j = .done valid →
        u.findings.mark j = .done valid)
      (run : (checkSuperclass examine i).exec scope (t.examining i) =
        ((scope.standing s i).sound u.findings.sound,
          u.placed i (scope.standing s i) u.findings.sound)) :
      ∃ log', Surveys scope s t busy log i log' ((examineClass examine i).exec scope t) := by
    have left := after.leave superclass listed
    rw [exec_examineClass rfl, run]
    refine ⟨i :: log', left, List.mem_cons_self .., List.subset_cons_of_subset i grows, ?_,
      fun k valid settled => ?_⟩
    · exact (Findings.sound_of_done ((Findings.mark_setMark ..).trans (if_pos rfl))).symm
    · have other : k ≠ i := by
        rintro rfl
        exact first (List.mem_append_right _ (survey.done_mem settled))
      refine (Scope.settled_mark other).trans (keeps k valid ?_)
      exact ((Findings.mark_setMark ..).trans (if_neg other)).trans settled
  cases extends_ : (scope.standing s i).superclass? with
  | none =>
    refine closed entered (fun j impossible => by cases extends_.symm.trans impossible)
      (List.Subset.refl log) (fun j valid settled => (marks j).trans settled)
      (exec_checkSuperclass_halves rfl start ?_)
    rw [extends_]
  | some j =>
    obtain ⟨log', surveys⟩ := examines j _ extends_ entered marks
    refine closed surveys.survey (fun j' same => ?_) surveys.grows
      (fun k valid settled => surveys.keeps k valid ((marks k).trans settled))
      (exec_checkSuperclass_halves rfl start ?_)
    · cases extends_.symm.trans same
      exact surveys.visited
    · rw [extends_]
      exact Prod.ext surveys.result rfl

theorem checkInheritance_surveys (untouched : s.Untouched scope.program)
    (distinct : Distinct scope.program.nodes) (depth : Nat) (listed : i ∈ scope.program.classIndices)
    (survey : Survey scope s busy log t)
    (enough : (scope.program.unvisited t.findings).length ≤ depth)
    (trail : ∀ k ∈ busy, Relation.TransGen scope.program.Names k i ∧ scope.program.inCycle k = false) :
    ∃ log', Surveys scope s t busy log i log' ((checkInheritance depth i).exec scope t) := by
  induction depth generalizing i busy log t with
  | zero =>
    by_cases visited : i ∈ busy ++ log
    · exact ⟨log, checkInheritance_visited survey visited trail 0⟩
    · have waiting : i ∈ scope.program.unvisited t.findings :=
        List.mem_filter.2 ⟨listed, decide_eq_true (survey.rest i visited)⟩
      rw [List.length_eq_zero_iff.1 (Nat.le_zero.1 enough)] at waiting
      cases waiting
  | succ depth ih =>
    by_cases visited : i ∈ busy ++ log
    · exact ⟨log, checkInheritance_visited survey visited trail (depth + 1)⟩
    · rw [exec_checkInheritance, survey.rest i visited]
      refine examineClass_surveys distinct listed survey visited fun j u extends_ entered marks => ?_
      obtain ⟨names, acyclic⟩ := resolveSuperclass_names rfl (untouched.fresh i) extends_
      refine ih names.mem entered ?_ fun k under => ?_
      · have fewer : (scope.program.unvisited (t.examining i).findings).length <
            (scope.program.unvisited t.findings).length :=
          Program.unvisited_setMark listed (survey.rest i visited) nofun
        rw [Program.unvisited_congr marks]
        exact Nat.le_of_lt_succ (Nat.lt_of_lt_of_le fewer enough)
      · rcases List.mem_cons.1 under with rfl | under
        · exact ⟨.single names, acyclic⟩
        · exact ⟨(trail k under).1.tail names, (trail k under).2⟩

/-! ## All classes -/

theorem checkInheritances_surveys (untouched : s.Untouched scope.program)
    (distinct : Distinct scope.program.nodes) (classes : List Nat)
    (listed : classes ⊆ scope.program.classIndices) (survey : Survey scope s [] log t) :
    ∃ log' u, (classes.mapM (checkInheritance scope.program.classIndices.length)).exec scope t =
        (classes.map u.findings.sound, u) ∧ Survey scope s [] log' u ∧ classes ⊆ log' ∧
      ∀ j valid, t.findings.mark j = .done valid → u.findings.mark j = .done valid := by
  induction classes generalizing log t with
  | nil => exact ⟨log, t, Check.exec_mapM_nil .., survey, List.nil_subset _, fun _ _ => id⟩
  | cons i rest ih =>
    obtain ⟨here, later⟩ := List.cons_subset.1 listed
    obtain ⟨log₁, first⟩ := checkInheritance_surveys untouched distinct _ here survey
      (List.length_filter_le _ _) nofun
    obtain ⟨log₂, u, run, last, visited, keeps⟩ := ih later first.survey
    have settled := (first.survey.placed i first.visited).mark
    have same := keeps i _ settled
    refine ⟨log₂, u, ?_, last, List.cons_subset.2 ⟨last.done_mem same, visited⟩,
      fun j valid done_ => keeps j valid (first.keeps j valid done_)⟩
    rw [Check.exec_mapM_cons, run, first.result, List.map_cons, Findings.sound_of_done settled,
      Findings.sound_of_done same]

/-- In the end each class has been examined, and whatever the order, each has come to what its extends
clause and the verdict on its superclass say. -/
theorem checkInheritances_survey (scope : Scope) (untouched : s.Untouched scope.program)
    (distinct : Distinct scope.program.nodes) :
    ∃ u, (scope.program.classIndices.mapM
        (checkInheritance scope.program.classIndices.length)).exec scope s =
        (scope.program.classIndices.map u.findings.sound, u) ∧
      Survey scope s [] scope.program.classIndices u := by
  obtain ⟨log, u, run, survey, visited, _⟩ := checkInheritances_surveys untouched distinct _
    (List.Subset.refl _) (Survey.start untouched)
  have same : log.Perm scope.program.classIndices :=
    (List.perm_ext_iff_of_nodup survey.nodup List.nodup_range).2 fun i =>
      ⟨survey.listed i, fun listed => visited listed⟩
  exact ⟨u, run, survey.perm same⟩

namespace Phase

variable {p : Program} (settings : Settings) (distinct : Distinct p.nodes)
include distinct

theorem functionsTyped_untouched :
    ((functionsTyped p settings).2.noted .validatingInheritance).Untouched p := by
  have steps := functionsTyped_steps settings distinct
  have marks (i : Nat) : (functionsTyped p settings).2.findings.mark i = .unvisited := steps.mark_eq id
  exact ⟨marks, congrArg Table.bindings (steps.superclasses_eq fun _ => id),
    fun i => (functionsTyped_idle settings distinct).1 i (marks i)⟩

theorem derived_survey :
    (derived p settings).1 = p.classIndices.map (derived p settings).2.findings.sound ∧
      Survey (.top p settings) ((functionsTyped p settings).2.noted .validatingInheritance) []
        p.classIndices (derived p settings).2 := by
  obtain ⟨u, run, survey⟩ := checkInheritances_survey (.top p settings)
    (functionsTyped_untouched settings distinct) distinct
  rw [derived]
  have run : (p.classIndices.mapM (checkInheritance p.classIndices.length)).exec (.top p settings)
      ((functionsTyped p settings).2.noted .validatingInheritance) =
        (p.classIndices.map u.findings.sound, u) := run
  rw [run]
  exact ⟨rfl, survey⟩

end Phase

end ClassLang
