import ClassLang.Proofs.Checking.VirtualSlots
import Mathlib.Dynamics.PeriodicPts.Defs
import Mathlib.Logic.Relation

/-!
The examination of superclasses ends, whatever the extends clauses say, and leaves nothing open.
Neither the bound on its depth nor the bound on the walk through extends clauses is ever felt.
-/

namespace ClassLang

variable {p : Program} {scope : Scope}

/-! ## Extends clauses -/

namespace Program

/-- The class that an extends clause names, from one class to the next. -/
def Names (p : Program) (i j : Nat) : Prop := p.declaredSuperclass? i = some j

theorem Names.mem {i j : Nat} (h : p.Names i j) : j ∈ p.classIndices :=
  have ⟨_, _, found⟩ := Option.bind_eq_some_iff.1 h
  theClass?_mem found

theorem Names.mem_left {i j : Nat} (h : p.Names i j) : i ∈ p.classIndices := by
  obtain ⟨_, clause, _⟩ := Option.bind_eq_some_iff.1 h
  obtain ⟨_, extends_, _⟩ := Option.bind_eq_some_iff.1 clause
  exact mem_of_extends extends_

theorem leadsTo_names {target steps i : Nat} (h : p.leadsTo target steps i = true) :
    Relation.TransGen p.Names i target := by
  induction steps generalizing i with
  | zero => cases h
  | succ steps ih =>
    unfold leadsTo at h
    split at h
    · cases h
    rename_i next named
    rcases Bool.or_eq_true_iff.1 h with here | above
    · exact .single (eq_of_beq here ▸ named)
    · exact .head named (ih above)

/-- The walk through extends clauses, with an end to it where there is no superclass. -/
def climb (p : Program) (i : Option Nat) : Option Nat := i.bind p.declaredSuperclass?

theorem climb_mem {i : Option Nat} {j : Nat} (h : p.climb i = some j) : j ∈ p.classIndices :=
  have ⟨_, _, named⟩ := Option.bind_eq_some_iff.1 h
  Names.mem named

theorem iterate_climb_none (steps : Nat) : p.climb^[steps] none = none :=
  Function.iterate_fixed rfl steps

theorem leadsTo_iff {target steps i : Nat} : p.leadsTo target steps i = true ↔
    ∃ k < steps, p.climb^[k + 1] (some i) = some target := by
  induction steps generalizing i with
  | zero => simp [leadsTo]
  | succ steps ih =>
    have first : p.climb (some i) = p.declaredSuperclass? i := rfl
    unfold leadsTo
    split
    · rename_i root
      simp [Function.iterate_succ_apply, first, root, iterate_climb_none]
    · rename_i next named
      rw [Bool.or_eq_true_iff, beq_iff_eq, ih]
      constructor
      · rintro (rfl | ⟨k, below, reached⟩)
        · exact ⟨0, Nat.succ_pos _, by rw [Function.iterate_one, first, named]⟩
        · exact ⟨k + 1, Nat.succ_lt_succ below, by
            rwa [Function.iterate_succ_apply, first, named]⟩
      · rintro ⟨k, below, reached⟩
        rw [Function.iterate_succ_apply, first, named] at reached
        cases k with
        | zero => exact .inl (Option.some.inj reached)
        | succ k => exact .inr ⟨k, Nat.lt_of_succ_lt_succ below, reached⟩

/-- A cycle visits each of its classes once, so it is no longer than the list of classes. -/
theorem period_le {i : Nat} (cyclic : 0 < Function.minimalPeriod p.climb (some i)) :
    Function.minimalPeriod p.climb (some i) ≤ p.classes.length := by
  have visited : ∀ k, ∃ j ∈ p.classIndices, p.climb^[k] (some i) = some j := by
    intro k
    have back : p.climb^[Function.minimalPeriod p.climb (some i) * (k + 1)] (some i) = some i :=
      (Function.isPeriodicPt_minimalPeriod p.climb (some i)).mul_const (k + 1)
    have later : k < Function.minimalPeriod p.climb (some i) * (k + 1) :=
      Nat.lt_of_lt_of_le (Nat.lt_succ_self k) (Nat.le_mul_of_pos_left _ cyclic)
    obtain ⟨rest, split_⟩ := Nat.exists_eq_add_of_lt later
    cases reached : p.climb^[k] (some i) with
    | none =>
      rw [split_, show k + rest + 1 = (rest + 1) + k by omega, Function.iterate_add_apply, reached,
        iterate_climb_none] at back
      cases back
    | some j =>
      refine ⟨j, ?_, rfl⟩
      cases k with
      | zero =>
        obtain rfl : i = j := Option.some.inj reached
        obtain ⟨m, period⟩ := Nat.exists_eq_succ_of_ne_zero (Nat.pos_iff_ne_zero.1 cyclic)
        have again := Function.isPeriodicPt_minimalPeriod p.climb (some i)
        rw [period, Function.IsPeriodicPt, Function.IsFixedPt, Function.iterate_succ_apply'] at again
        exact climb_mem again
      | succ k =>
        rw [Function.iterate_succ_apply'] at reached
        exact climb_mem reached
  have different : ((List.range (Function.minimalPeriod p.climb (some i))).map
      fun k => p.climb^[k] (some i)).Nodup := by
    refine List.Nodup.map_on (fun k below l other same => ?_) List.nodup_range
    exact Function.iterate_injOn_Iio_minimalPeriod (List.mem_range.1 below) (List.mem_range.1 other)
      same
  have inside : ((List.range (Function.minimalPeriod p.climb (some i))).map
      fun k => p.climb^[k] (some i)) ⊆ p.classIndices.map some := by
    intro j listed
    obtain ⟨k, _, rfl⟩ := List.mem_map.1 listed
    obtain ⟨j, known, reached⟩ := visited k
    rw [reached]
    exact List.mem_map_of_mem known
  simpa [classIndices] using (different.subperm inside).length_le

theorem climb_names {i j : Nat} (h : Relation.TransGen p.Names i j) :
    ∃ k, p.climb^[k + 1] (some i) = some j := by
  induction h with
  | single named => exact ⟨0, named⟩
  | tail _ named ih =>
    obtain ⟨k, reached⟩ := ih
    refine ⟨k + 1, ?_⟩
    rw [Function.iterate_succ_apply', reached]
    exact named

/-- The bound on the walk through extends clauses cuts off no cycle. -/
theorem inCycle_iff {i : Nat} : p.inCycle i = true ↔ Relation.TransGen p.Names i i := by
  refine ⟨leadsTo_names, fun cycle => ?_⟩
  obtain ⟨k, back⟩ := climb_names cycle
  have periodic : Function.IsPeriodicPt p.climb (k + 1) (some i) := back
  obtain ⟨m, period⟩ := Nat.exists_eq_succ_of_ne_zero
    (Nat.pos_iff_ne_zero.1 (periodic.minimalPeriod_pos (Nat.succ_pos k)))
  have short := period_le (p := p) (i := i) (period ▸ Nat.succ_pos m)
  have around := Function.isPeriodicPt_minimalPeriod p.climb (some i)
  rw [period] at short around
  exact leadsTo_iff.2 ⟨m, short, around⟩

end Program

/-! ## The recursion -/

/-- The examination of a class, in some state, goes on to that of its superclass, in another. -/
inductive GoesOn (scope : Scope) : Nat × CheckState → Nat × CheckState → Prop
  | superclass {i j : Nat} {s t : CheckState} {written : TypeRef} {name : String} {type : Ty} :
    s.findings.mark i = .unvisited → (scope.program.classAt i).superclass = some written →
      scope.program.superclassName i written = .ok name →
        Check.exec written.resolve.run
            { scope with generics := (scope.program.classAt i).params } (s.examining i) =
          (.ok type, t) →
          scope.program.classOf? type = some j → GoesOn scope (i, s) (j, t)

def Program.unvisited (p : Program) (f : Findings) : List Nat :=
  p.classIndices.filter fun i => f.mark i = .unvisited

theorem Program.unvisited_congr {f g : Findings} (same : ∀ i, g.mark i = f.mark i) :
    p.unvisited g = p.unvisited f := by
  simp only [unvisited, same]

theorem Program.unvisited_setMark {f : Findings} {i : Nat} {mark : InheritanceMark}
    (listed : i ∈ p.classIndices) (first : f.mark i = .unvisited) (visited : mark ≠ .unvisited) :
    (p.unvisited (f.setMark i mark)).length < (p.unvisited f).length := by
  have rest : p.unvisited (f.setMark i mark) = (p.unvisited f).filter fun j => decide (j ≠ i) := by
    rw [unvisited, unvisited, List.filter_filter]
    refine List.filter_congr fun j _ => ?_
    rw [Findings.mark_setMark]
    by_cases same : j = i <;> simp [same, visited]
  rw [rest, List.length_filter_lt_length_iff_exists]
  exact ⟨i, List.mem_filter.2 ⟨listed, decide_eq_true first⟩, by simp⟩

namespace GoesOn

variable {i j : Nat} {s t : CheckState}

theorem mem (h : GoesOn scope (i, s) (j, t)) : j ∈ scope.program.classIndices := by
  cases h with
  | superclass _ _ _ _ class_ =>
    obtain ⟨_, _, found⟩ := Option.bind_eq_some_iff.1 class_
    exact Program.theClass?_mem found

/-- The class that goes on has been visited by then, and no mark is taken away. -/
theorem unvisited_lt (h : GoesOn scope (i, s) (j, t)) :
    (scope.program.unvisited t.findings).length < (scope.program.unvisited s.findings).length := by
  cases h with
  | @superclass _ _ _ _ written _ _ first extends_ _ run _ =>
    have resolved := (written.resolve_infers (p := scope.program) (P := True)
      (owns_covers written.nodes)).within
        { scope with generics := (scope.program.classAt i).params } (s.examining i) rfl
    rw [run] at resolved
    have marks (k : Nat) : t.findings.mark k = (s.examining i).findings.mark k := resolved.mark_eq id
    rw [Program.unvisited_congr marks]
    exact Program.unvisited_setMark (Program.mem_of_extends extends_) first nofun

/-- However long the extends clauses go on, the examinations do not. -/
theorem wellFounded (scope : Scope) : WellFounded fun b a => GoesOn scope a b :=
  Subrelation.wf (fun h => h.unvisited_lt)
    (measure fun a : Nat × CheckState => (scope.program.unvisited a.2.findings).length).wf

end GoesOn

theorem examineClass_congr {examine other : Nat → Check Bool} {i : Nat} {s : CheckState}
    (first : s.findings.mark i = .unvisited)
    (agree : ∀ j t, GoesOn scope (i, s) (j, t) → (examine j).exec scope t = (other j).exec scope t) :
    (examineClass examine i).exec scope s = (examineClass other i).exec scope s := by
  have superclass : (checkSuperclass examine i).exec scope (s.examining i) =
      (checkSuperclass other i).exec scope (s.examining i) := by
    cases extends_ : (scope.program.classAt i).superclass with
    | none => rw [exec_checkSuperclass_none rfl extends_, exec_checkSuperclass_none rfl extends_]
    | some written =>
      rw [exec_checkSuperclass rfl extends_, exec_checkSuperclass rfl extends_]
      cases named : scope.program.superclassName i written with
      | error e => rfl
      | ok name =>
        dsimp only
        rcases run : Check.exec written.resolve.run _ (s.examining i) with ⟨e | type, t⟩
        · rfl
        dsimp only
        cases class_ : scope.program.classOf? type with
        | none => rfl
        | some j =>
          dsimp only
          rw [agree j t (.superclass first extends_ named run class_)]
  rw [exec_examineClass rfl, exec_examineClass rfl, superclass]

/-- Any two bounds that cover the unvisited classes give the same examination. -/
theorem checkInheritance_bounds {depth other i : Nat} {s : CheckState}
    (listed : i ∈ scope.program.classIndices)
    (enough : (scope.program.unvisited s.findings).length ≤ depth)
    (enoughToo : (scope.program.unvisited s.findings).length ≤ other) :
    (checkInheritance depth i).exec scope s = (checkInheritance other i).exec scope s := by
  induction depth generalizing other i s with
  | zero =>
    rw [exec_checkInheritance, exec_checkInheritance]
    cases marked : s.findings.mark i with
    | done valid => rfl
    | inProgress => rfl
    | unvisited =>
      have waiting : i ∈ scope.program.unvisited s.findings :=
        List.mem_filter.2 ⟨listed, decide_eq_true marked⟩
      rw [List.length_eq_zero_iff.1 (Nat.le_zero.1 enough)] at waiting
      cases waiting
  | succ depth ih =>
    rw [exec_checkInheritance, exec_checkInheritance]
    cases marked : s.findings.mark i with
    | done valid => rfl
    | inProgress => rfl
    | unvisited =>
      cases other with
      | zero =>
        have waiting : i ∈ scope.program.unvisited s.findings :=
          List.mem_filter.2 ⟨listed, decide_eq_true marked⟩
        rw [List.length_eq_zero_iff.1 (Nat.le_zero.1 enoughToo)] at waiting
        cases waiting
      | succ other =>
        refine examineClass_congr marked fun j t goes => ih goes.mem ?_ ?_
        · exact Nat.le_of_lt_succ (Nat.lt_of_lt_of_le goes.unvisited_lt enough)
        · exact Nat.le_of_lt_succ (Nat.lt_of_lt_of_le goes.unvisited_lt enoughToo)

/-- With the number of classes as its bound, the examination is the recursion without a bound. -/
theorem checkInheritance_unbounded {i : Nat} (listed : i ∈ scope.program.classIndices)
    (s : CheckState) :
    (checkInheritance scope.program.classIndices.length i).exec scope s =
      match s.findings.mark i with
      | .done valid => (valid, s)
      | .inProgress => (false, s)
      | .unvisited =>
        (examineClass (checkInheritance scope.program.classIndices.length) i).exec scope s := by
  have all : (scope.program.unvisited s.findings).length ≤ scope.program.classIndices.length :=
    List.length_filter_le _ _
  rw [checkInheritance_bounds listed all (Nat.le_succ_of_le all), exec_checkInheritance]
  cases s.findings.mark i <;> rfl

/-! ## What is left -/

/-- Every sound class that extends another is linked to it. -/
def Program.Linked (p : Program) (f : Findings) : Prop :=
  ∀ i, f.mark i = .done true → (p.classAt i).superclass.isSome → (f.superclass? i).isSome

theorem Program.Linked.congr {f g : Findings} (h : p.Linked f) (marks : ∀ i, g.mark i = f.mark i)
    (links : g.superclasses = f.superclasses) : p.Linked g := by
  intro i sound extends_
  have linked := h i ((marks i).symm.trans sound) extends_
  rwa [Findings.superclass?, links]

theorem Program.Linked.setMark {f : Findings} {i : Nat} {mark : InheritanceMark} (h : p.Linked f)
    (linked : mark = .done true → (p.classAt i).superclass.isSome → (f.superclass? i).isSome) :
    p.Linked (f.setMark i mark) := by
  intro j sound extends_
  rw [Findings.mark_setMark] at sound
  split at sound
  · rename_i same
    subst same
    exact linked sound extends_
  · exact h j sound extends_

theorem Findings.superclass?_setSuperclass (f : Findings) (i j : Nat) (link : SuperclassLink) :
    (f.setSuperclass i link).superclass? j = if j = i then some link else f.superclass? j :=
  Table.get?_insert ..

theorem Program.Linked.setSuperclass {f : Findings} (h : p.Linked f) (i : Nat)
    (link : SuperclassLink) : p.Linked (f.setSuperclass i link) := by
  intro j sound extends_
  rw [Findings.superclass?_setSuperclass]
  split
  · rfl
  · exact h j sound extends_

/-- From some findings to later ones, no class is left under examination that was not so before, and
no verdict on a class changes. -/
structure Progress (f g : Findings) : Prop where
  closes : ∀ i, g.mark i = .inProgress → f.mark i = .inProgress
  keeps : ∀ i valid, f.mark i = .done valid → g.mark i = .done valid

theorem Progress.of_eq {f g : Findings} (marks : ∀ i, g.mark i = f.mark i) : Progress f g :=
  ⟨fun i busy => (marks i).symm.trans busy, fun i _ done_ => (marks i).trans done_⟩

theorem Progress.trans {f g h : Findings} (first : Progress f g) (second : Progress g h) :
    Progress f h :=
  ⟨fun i busy => first.closes i (second.closes i busy),
    fun i valid done_ => second.keeps i valid (first.keeps i valid done_)⟩

theorem Progress.setSuperclass {f g : Findings} (h : Progress f g) (i : Nat)
    (link : SuperclassLink) : Progress f (g.setSuperclass i link) :=
  ⟨h.closes, h.keeps⟩

/-- Around the examination of a class, its own mark changes from unvisited to settled. -/
theorem Progress.examined {f g : Findings} {i : Nat} {valid : Bool} (first : f.mark i = .unvisited)
    (inner : Progress (f.setMark i .inProgress) g) : Progress f (g.setMark i (.done valid)) where
  closes j busy := by
    rw [Findings.mark_setMark] at busy
    split at busy
    · cases busy
    · rename_i other
      have before := inner.closes j busy
      rwa [Findings.mark_setMark, if_neg other] at before
  keeps j old done_ := by
    have other : j ≠ i := by
      rintro rfl
      rw [first] at done_
      cases done_
    rw [Findings.mark_setMark, if_neg other]
    refine inner.keeps j old ?_
    rwa [Findings.mark_setMark, if_neg other]

theorem checkSuperclass_progress {examine : Nat → Check Bool} {i : Nat} {s : CheckState}
    (same : scope.program = p)
    (examines : ∀ j t, p.Linked t.findings → Progress t.findings ((examine j).exec scope t).2.findings ∧
      p.Linked ((examine j).exec scope t).2.findings)
    (linked : p.Linked s.findings) :
    Progress s.findings ((checkSuperclass examine i).exec scope s).2.findings ∧
      p.Linked ((checkSuperclass examine i).exec scope s).2.findings ∧
        (((checkSuperclass examine i).exec scope s).1 = true → (p.classAt i).superclass.isSome →
          (((checkSuperclass examine i).exec scope s).2.findings.superclass? i).isSome) := by
  have unchanged : Progress s.findings s.findings := .of_eq fun _ => rfl
  cases extends_ : (p.classAt i).superclass with
  | none =>
    rw [exec_checkSuperclass_none same extends_]
    exact ⟨unchanged, linked, fun _ => nofun⟩
  | some written =>
    rw [exec_checkSuperclass same extends_]
    have resolved := (written.resolve_infers (p := p) (P := True) (owns_covers written.nodes)).within
      { scope with generics := (p.classAt i).params } s same
    cases p.superclassName i written with
    | error e => exact ⟨unchanged, linked, nofun⟩
    | ok name =>
      dsimp only
      rcases run : Check.exec written.resolve.run _ s with ⟨e | type, t⟩
      all_goals
        rw [run] at resolved
        have marks (j : Nat) : t.findings.mark j = s.findings.mark j := resolved.mark_eq id
        have stillLinked := linked.congr marks (resolved.superclasses_eq fun _ => id)
      · exact ⟨.of_eq marks, stillLinked, nofun⟩
      dsimp only
      cases p.classOf? type with
      | none => exact ⟨.of_eq marks, stillLinked, nofun⟩
      | some j =>
        dsimp only
        have examined := examines j t stillLinked
        rcases answer : (examine j).exec scope t with ⟨_ | _, u⟩
        all_goals rw [answer] at examined
        · exact ⟨(Progress.of_eq marks).trans examined.1, examined.2, nofun⟩
        · refine ⟨(Progress.of_eq marks).trans (examined.1.setSuperclass i _),
            examined.2.setSuperclass i _, fun _ _ => ?_⟩
          rw [Findings.superclass?_setSuperclass, if_pos rfl]
          rfl

theorem examineClass_progress {examine : Nat → Check Bool} {i : Nat} {s : CheckState}
    (same : scope.program = p)
    (examines : ∀ j t, p.Linked t.findings → Progress t.findings ((examine j).exec scope t).2.findings ∧
      p.Linked ((examine j).exec scope t).2.findings)
    (linked : p.Linked s.findings) (first : s.findings.mark i = .unvisited) :
    Progress s.findings ((examineClass examine i).exec scope s).2.findings ∧
      p.Linked ((examineClass examine i).exec scope s).2.findings := by
  obtain ⟨progress, stillLinked, link⟩ := checkSuperclass_progress (i := i) (s := s.examining i) same
    examines (linked.setMark nofun)
  rw [exec_examineClass same]
  rcases answer : (checkSuperclass examine i).exec scope (s.examining i) with ⟨sound, t⟩
  rw [answer] at progress stillLinked link
  refine ⟨.examined first progress, stillLinked.setMark fun valid extends_ => ?_⟩
  have both : (sound && (p.memberFaults t.findings i sound).isEmpty) = true :=
    InheritanceMark.done.inj valid
  exact link (Bool.and_eq_true_iff.1 both).1 extends_

theorem checkInheritance_progress (depth i : Nat) {s : CheckState} (same : scope.program = p)
    (linked : p.Linked s.findings) :
    Progress s.findings ((checkInheritance depth i).exec scope s).2.findings ∧
      p.Linked ((checkInheritance depth i).exec scope s).2.findings := by
  have unchanged : Progress s.findings s.findings := .of_eq fun _ => rfl
  induction depth generalizing i s with
  | zero =>
    rw [exec_checkInheritance]
    cases s.findings.mark i <;> exact ⟨unchanged, linked⟩
  | succ depth ih =>
    rw [exec_checkInheritance]
    cases marked : s.findings.mark i with
    | done valid => exact ⟨unchanged, linked⟩
    | inProgress => exact ⟨unchanged, linked⟩
    | unvisited =>
      exact examineClass_progress same (fun j t linked => ih j linked (.of_eq fun _ => rfl)) linked
        marked

/-- A class that is not under examination already has its verdict afterwards. -/
theorem checkInheritance_done (scope : Scope) (depth i : Nat) {s : CheckState}
    (idle : s.findings.mark i ≠ .inProgress) :
    ∃ valid, ((checkInheritance (depth + 1) i).exec scope s).2.findings.mark i = .done valid := by
  rw [exec_checkInheritance]
  cases marked : s.findings.mark i with
  | done valid => exact ⟨valid, marked⟩
  | inProgress => exact absurd marked idle
  | unvisited =>
    dsimp only
    rw [exec_examineClass rfl]
    exact ⟨_, (Findings.mark_setMark ..).trans (if_pos rfl)⟩

theorem checkInheritances_done (depth : Nat) (classes : List Nat) {s : CheckState}
    (same : scope.program = p) (linked : p.Linked s.findings)
    (idle : ∀ i, s.findings.mark i ≠ .inProgress) :
    Progress s.findings ((classes.mapM (checkInheritance (depth + 1))).exec scope s).2.findings ∧
      p.Linked ((classes.mapM (checkInheritance (depth + 1))).exec scope s).2.findings ∧
        ∀ i ∈ classes, ∃ valid,
          ((classes.mapM (checkInheritance (depth + 1))).exec scope s).2.findings.mark i =
            .done valid := by
  induction classes generalizing s with
  | nil =>
    rw [Check.exec_mapM_nil]
    exact ⟨.of_eq fun _ => rfl, linked, nofun⟩
  | cons i rest ih =>
    rw [Check.exec_mapM_cons]
    obtain ⟨progress, stillLinked⟩ := checkInheritance_progress (depth + 1) i same linked
    obtain ⟨valid, first⟩ := checkInheritance_done scope depth i (idle i)
    obtain ⟨later, linkedAfter, others⟩ := ih stillLinked fun j busy => idle j (progress.closes j busy)
    refine ⟨progress.trans later, linkedAfter, fun j listed => ?_⟩
    rcases List.mem_cons.1 listed with rfl | listed
    · exact ⟨valid, later.keeps _ _ first⟩
    · exact others j listed

/-- What the examination of all classes comes to: each of them has a verdict, the links that it
leaves behind join sound classes, and the chains along them end by themselves. -/
structure InheritanceClosed (p : Program) (f : Findings) : Prop where
  settled : ∀ i ∈ p.classIndices, ∃ valid, f.mark i = .done valid
  sound : ∀ i link, f.superclass? i = some link → f.mark link.superclass = .done true
  linked : ∀ i, f.mark i = .done true → (p.classAt i).superclass.isSome → (f.superclass? i).isSome
  above : ∀ i, List.IsChain f.Above (f.chain i)
  ends : ∀ i top, (f.chain i).getLast? = some top → f.superclass? top.index = none
  once : ∀ i, ((f.chain i).map Ancestor.index).Nodup

theorem InheritanceClosed.congr {f g : Findings} (h : InheritanceClosed p f)
    (marks : ∀ i, g.mark i = f.mark i) (links : g.superclasses = f.superclasses) :
    InheritanceClosed p g := by
  have chain (i : Nat) : g.chain i = f.chain i := by
    rw [Findings.chain, Findings.chain, Findings.ancestors_congr links]
  have link (i : Nat) : g.superclass? i = f.superclass? i := by
    rw [Findings.superclass?, Findings.superclass?, links]
  have above : g.Above = f.Above := by
    funext a b
    rw [Findings.Above, Findings.Above, link]
  refine ⟨?_, ?_, ?_, ?_, ?_, ?_⟩
  · simpa only [marks] using h.settled
  · simpa only [marks, link] using h.sound
  · simpa only [marks, link] using h.linked
  · simpa only [chain, above] using h.above
  · simpa only [chain, link] using h.ends
  · simpa only [chain] using h.once

namespace Phase

variable (settings : Settings)

theorem derived_closed (distinct : Distinct p.nodes) :
    InheritanceClosed p (derived p settings).2.findings := by
  have typed := functionsTyped_steps settings distinct
  have marks (i : Nat) : (functionsTyped p settings).2.findings.mark i = .unvisited :=
    typed.mark_eq id
  have start : p.Linked (functionsTyped p settings).2.findings := fun i sound _ => by
    rw [marks] at sound
    cases sound
  have lineal := derived_lineal settings distinct
  have chained := lineal.chained
  have top : (Scope.top p settings).program = p := rfl
  have closed : p.Linked (derived p settings).2.findings ∧
      ∀ i ∈ p.classIndices, ∃ valid, (derived p settings).2.findings.mark i = .done valid := by
    cases count : p.classIndices.length with
    | zero =>
      rw [derived, List.length_eq_zero_iff.1 count, Check.exec_mapM_nil]
      exact ⟨start, fun _ impossible => absurd impossible List.not_mem_nil⟩
    | succ n =>
      rw [derived, count]
      exact (checkInheritances_done n p.classIndices top
        (s := (functionsTyped p settings).2.noted .validatingInheritance) start
        fun i busy => by cases (marks i).symm.trans busy).2
  refine ⟨closed.2, fun i link linked => ?_, closed.1, Findings.chain_above chained,
    fun i top highest => Findings.chain_ends chained i highest, Findings.chain_nodup chained⟩
  obtain ⟨before, after, split_, _⟩ := List.lookup_eq_some_iff.1 linked
  refine lineal.settled (i, link) ?_
  rw [split_]
  exact List.mem_append_right _ (List.mem_cons_self ..)

/-- After the examination of superclasses, the place of each class among the others stays. -/
theorem judged_places (distinct : Distinct p.nodes) :
    (∀ i, (judged p settings).findings.mark i = (derived p settings).2.findings.mark i) ∧
      (judged p settings).findings.superclasses = (derived p settings).2.findings.superclasses := by
  have sets := methodSets_steps (p := p) settings fun _ => False
  have bodies := statements_steps settings distinct
  have verdicts := judged_steps (p := p) settings
  refine ⟨fun i => ?_, ?_⟩
  · exact (verdicts.mark_eq id).trans
      ((bodies.mark_eq fun h => h.elim id id).trans (sets.mark_eq id))
  · exact (verdicts.superclasses_eq fun _ => id).trans
      ((bodies.superclasses_eq fun _ h => h.elim id id).trans (sets.superclasses_eq fun _ => id))

theorem judged_closed (distinct : Distinct p.nodes) :
    InheritanceClosed p (judged p settings).findings :=
  have ⟨marks, links⟩ := judged_places settings distinct
  (derived_closed settings distinct).congr marks links

end Phase

/-- The examination of superclasses ends for all extends clauses, with cycles or without, and the
bounds in it cut nothing off; what it leaves behind, for the phases after it and in the end, is
closed. -/
theorem Program.inheritance_closed (distinct : (p.nodes.map Node.id).Nodup) (settings : Settings) :
    (∀ i, p.inCycle i = true ↔ Relation.TransGen p.Names i i) ∧
      (∀ scope : Scope, scope.program = p →
        (WellFounded fun b a => GoesOn scope a b) ∧
          ∀ i ∈ p.classIndices, ∀ s,
            (checkInheritance p.classIndices.length i).exec scope s =
              match s.findings.mark i with
              | .done valid => (valid, s)
              | .inProgress => (false, s)
              | .unvisited =>
                (examineClass (checkInheritance p.classIndices.length) i).exec scope s) ∧
        InheritanceClosed p (Phase.derived p settings).2.findings ∧
          InheritanceClosed p (p.analyze settings).state.findings := by
  refine ⟨fun i => inCycle_iff, fun scope same => ?_, Phase.derived_closed settings distinct,
    Phase.judged_closed settings distinct⟩
  subst same
  exact ⟨GoesOn.wellFounded scope, fun i listed s => checkInheritance_unbounded listed s⟩

/-- A cycle of two classes, a class that leads into it, and a class with a sound superclass. -/
def mixedLines : Source :=
  ⟨"class A extends B \x7b \x7d class B extends A \x7b \x7d class C extends A \x7b \x7d " ++
    "class D extends E[integer] \x7b \x7d class E[T] \x7b \x7d", none⟩

theorem mixedLines_inheritance_closed : ∃ p : Program,
    mixedLines.parse Parser.program = .ok p ∧
      p.classIndices.map (p.analyze ⟨false, false⟩).state.findings.mark =
        [.done false, .done false, .done false, .done true, .done true] ∧
      ((p.analyze ⟨false, false⟩).state.findings.chain 3).map Ancestor.index = [3, 4] ∧
      (p.inCycle 0 = true ↔ Relation.TransGen p.Names 0 0) ∧
      (WellFounded fun b a => GoesOn (.top p ⟨false, false⟩) a b) ∧
      InheritanceClosed p (Phase.derived p ⟨false, false⟩).2.findings ∧
      InheritanceClosed p (p.analyze ⟨false, false⟩).state.findings := by
  have run : (mixedLines.parse Parser.program).toOption.map (fun p =>
        (p.classIndices.map (p.analyze ⟨false, false⟩).state.findings.mark,
          ((p.analyze ⟨false, false⟩).state.findings.chain 3).map Ancestor.index)) =
      some ([.done false, .done false, .done false, .done true, .done true], [3, 4]) := by
    decide +kernel
  obtain ⟨p, parsed, views⟩ := Option.map_eq_some_iff.1 run
  obtain ⟨marks, chain⟩ := Prod.mk.inj views
  have h := ok_of_toOption parsed
  obtain ⟨cycles, recursion, after, finally_⟩ :=
    p.inheritance_closed (Source.parse_program_nodup h) ⟨false, false⟩
  exact ⟨p, h, marks, chain, cycles 0, (recursion _ rfl).1, after, finally_⟩

end ClassLang
