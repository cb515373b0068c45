import ClassLang.Compile
import ClassLang.Proofs.Checking.Analyses
import ClassLang.Proofs.Parsing.Numbering

/-!
Uses are counted exactly: the counter of a declaration is the number of nodes that refer to it, and so
the declarations that are reported as unused are those that no node refers to.
-/

namespace ClassLang

variable {p : Program} {own : Subtree → Place → Prop} {f g : Findings} {d : Decl}

/-! ## References -/

/-- The class that a written type denotes. -/
def Findings.denotedClass? (f : Findings) (p : Program) (t : TypeRef) : Option Nat :=
  (f.typeOf t.id).bind p.classOf?

namespace Findings

/-- Whether a subtree denotes a declaration as a written type. -/
def denotes (f : Findings) (p : Program) (d : Decl) (x : Subtree) : Bool :=
  (x.type?.bind (f.denotedClass? p)).map Decl.class == some d

def refers (f : Findings) (d : Decl) (x : Subtree) : Bool := f.resolution x.id == some d

/-- How often a subtree refers to a declaration. -/
def references (f : Findings) (p : Program) (d : Decl) (x : Subtree) : Nat :=
  (f.refers d x).toNat + (f.denotes p d x).toNat

/-- Every use is counted. -/
def Counted (p : Program) (f : Findings) : Prop :=
  ∀ d, f.usage d = p.subtrees.countP (f.refers d) + p.subtrees.countP (f.denotes p d)

theorem refers_congr {x : Subtree} (resolution : g.resolution x.id = f.resolution x.id) :
    g.refers d x = f.refers d x := by
  rw [refers, resolution, refers]

theorem denotes_congr {x : Subtree} (typeOf : ∀ t, x = .type t → g.typeOf t.id = f.typeOf t.id) :
    g.denotes p d x = f.denotes p d x := by
  cases x with
  | type t => simp only [denotes, Subtree.type?, Option.bind_some, denotedClass?, typeOf t rfl]
  | expr _ | pair _ | head _ => rfl

theorem references_fresh {x : Subtree} (tidy : f.Tidy) (fresh : f.validity x.id = none) :
    f.references p d x = 0 := by
  have unreferred := tidy.unreferred fresh
  cases x with
  | type t =>
    have untyped : f.typeOf t.id = none := tidy.untyped fresh
    simp [references, refers, unreferred, denotes, Subtree.type?, denotedClass?, untyped]
  | expr _ | pair _ | head _ => simp [references, refers, unreferred, denotes, Subtree.type?]

theorem references_of_resolution {x : Subtree} (decl : Option Decl) (untyped : x.type? = none)
    (refers : f.resolution x.id = decl) : f.references p d x = (decl == some d).toNat := by
  rw [references, Findings.refers, refers, denotes, untyped]
  rfl

theorem references_of_type {t : TypeRef} (type : Option Ty) (unreferred : f.resolution t.id = none)
    (typed : f.typeOf t.id = type) : f.references p d (.type t) =
      ((type.bind p.classOf?).map Decl.class == some d).toNat := by
  have unreferred : f.resolution (Subtree.type t).id = none := unreferred
  rw [references, refers, unreferred, denotes, Subtree.type?, Option.bind_some, denotedClass?, typed]
  exact Nat.zero_add _

theorem usage_setValid (id : Nat) (valid : Bool) : (f.setValid id valid).usage d = f.usage d := by
  unfold setValid
  split <;> rfl

theorem usage_record (id : Nat) (r : Resolved) : (f.record id r).usage d = f.usage d := by
  cases r with
  | ok type => exact f.usage_setValid id true
  | error _ => exact f.usage_setValid id false

theorem usage_referAny (id : Nat) (decl : Option Decl) :
    (f.referAny id decl).usage d = f.usage d + (decl == some d).toNat := by
  cases decl with
  | none => rfl
  | some decl =>
    change (f.use decl).usage d = _
    rw [usage_use]
    by_cases same : d = decl
    · simp [same]
    · simp [same, Ne.symm same]

theorem usage_instantiate (name : String) (args : List Ty) :
    (f.instantiate name args).usage d = f.usage d := by
  obtain ⟨_, same⟩ := f.instantiate_eq name args
  rw [same]
  rfl

theorem usage_taken (id : Nat) (isAlias : Option Bool) (r : Resolved) :
    ((f.aliasAny id isAlias).taken p r).usage d =
      f.usage d + ((r.toOption.bind p.classOf?).map Decl.class == some d).toNat := by
  have aliased : (f.aliasAny id isAlias).usage d = f.usage d := by cases isAlias <;> rfl
  have listed (f : Findings) (type : Ty) : (f.instantiated type).usage d = f.usage d := by
    unfold instantiated
    split
    · split
      · exact f.usage_instantiate _ _
      · rfl
    · rfl
  cases r with
  | error _ => exact aliased
  | ok type =>
    rw [taken, listed]
    cases found : p.classOf? type with
    | none => simp [Except.toOption, found, aliased]
    | some i =>
      rw [Option.elim_some, usage_use, aliased]
      by_cases same : d = .class i
      · simp [Except.toOption, found, same]
      · simp [Except.toOption, found, same, Ne.symm same]

end Findings

/-! ## Counting -/

/-- A visit adds as many uses of a declaration as there are references where it is made. -/
structure Counts (p : Program) (d : Decl) (f g : Findings) (x : Subtree) : Prop where
  refers : ∀ y, y.id ≠ x.id → g.refers d y = f.refers d y
  denotes : ∀ y, y.id ≠ x.id → g.denotes p d y = f.denotes p d y
  here : g.usage d + f.references p d x = f.usage d + g.references p d x

/-- A visit of a fresh node counts if its uses are its references. -/
theorem Findings.Fills.counts {x : Subtree} (h : f.Fills g x.id) (tidy : f.Tidy)
    (uses : g.usage d = f.usage d + g.references p d x) : Counts p d f g x where
  refers _ apart := f.refers_congr (h.resolution _ apart)
  denotes y apart := by
    refine f.denotes_congr ?_
    rintro t rfl
    exact h.typeOf _ apart
  here := by rw [f.references_fresh tidy h.fresh, uses, Nat.add_zero]

theorem Visit.counts (v : Visit p own f g) (tidy : f.Tidy) (d : Decl) :
    ∃ x place, own x place ∧ Counts p d f g x := by
  cases v with
  | @judge x place valid mine =>
    have refers (y : Subtree) : (f.setValid x.id valid).refers d y = f.refers d y :=
      f.refers_congr (f.setValid_resolution _ _ _)
    have denotes (y : Subtree) : (f.setValid x.id valid).denotes p d y = f.denotes p d y :=
      f.denotes_congr fun _ _ => f.setValid_typeOf _ _ _
    refine ⟨x, place, mine, fun y _ => refers y, fun y _ => denotes y, ?_⟩
    rw [Findings.references, Findings.references, refers, denotes, f.usage_setValid]
  | @resolve t place r mine fresh denoted =>
    refine ⟨.type t, place, mine, (Findings.resolved_fills _ r fresh).counts tidy ?_⟩
    rw [Findings.usage_record, Findings.usage_taken, Findings.references_of_type r.toOption]
    · obtain ⟨_, _, _, same⟩ := f.taken_eq (p := p) t.id (t.aliasIn place.generics) r
      rw [same, Findings.resolution_record]
      exact tidy.unreferred fresh
    · obtain ⟨_, _, _, same⟩ := f.taken_eq (p := p) t.id (t.aliasIn place.generics) r
      rw [same, Findings.typeOf_record, if_pos rfl]
      exact (congrArg r.toOption.or (tidy.untyped fresh)).trans Option.or_none
  | @infer scope e decl r same mine fresh _ judged =>
    refine ⟨.expr e, scope.place, mine, (Findings.inferred_fills decl r fresh).counts tidy ?_⟩
    rw [Findings.usage_record, Findings.usage_referAny, Findings.references_of_resolution _ rfl]
    exact tidy.resolution_inferred decl r fresh
  | @name scope e owner same mine fresh named =>
    refine ⟨.expr e, scope.place, mine, (Findings.named_fills _ _ fresh).counts tidy ?_⟩
    rw [Findings.usage_referAny, Findings.usage_record, Findings.references_of_resolution _ rfl]
    exact tidy.resolution_named _ _ fresh
  | @pair both place r mine fresh _ =>
    refine ⟨.pair both, place, mine, (Findings.record_fills r fresh).counts tidy ?_⟩
    rw [Findings.usage_record, Findings.references_of_resolution none rfl]
    · rfl
    · rw [Findings.resolution_record]
      exact tidy.unreferred fresh

theorem Turn.counts (t : Turn p own f g) (tidy : f.Tidy) (d : Decl) :
    (∃ x place, own x place ∧ Counts p d f g x) ∨
      g.usage d = f.usage d ∧ g.refers d = f.refers d ∧ g.denotes p d = f.denotes p d := by
  cases t with
  | visit v => exact .inl (v.counts tidy d)
  | mark _ _ | link _ _ _ | number _ _ => exact .inr ⟨rfl, rfl, rfl⟩

/-- Where a test changes on one item, so does the number of items that pass. -/
theorem countP_change {ι : Type} {items : List ι} {key : ι → Nat} {test later : ι → Bool} {x : ι}
    (distinct : (items.map key).Nodup) (listed : x ∈ items)
    (others : ∀ y, key y ≠ key x → later y = test y) :
    items.countP later + (test x).toNat = items.countP test + (later x).toNat := by
  obtain ⟨before, after, rfl⟩ := List.append_of_mem listed
  rw [List.map_append, List.map_cons, List.nodup_middle, List.nodup_cons, ← List.map_append] at distinct
  have same (y : ι) (other : y ∈ before ++ after) : later y = test y :=
    others y fun clash => distinct.1 (clash ▸ List.mem_map_of_mem other)
  have first : before.countP later = before.countP test :=
    List.countP_congr fun y inside => by rw [same y (List.mem_append_left _ inside)]
  have last : after.countP later = after.countP test :=
    List.countP_congr fun y inside => by rw [same y (List.mem_append_right _ inside)]
  rw [List.countP_append, List.countP_append, List.countP_cons, List.countP_cons, first, last]
  cases test x <;> cases later x <;> simp <;> omega

namespace Findings.Counted

theorem empty : Findings.empty.Counted p := by
  intro d
  have fresh (x : Subtree) :
      Findings.empty.refers d x = false ∧ Findings.empty.denotes p d x = false := by
    have none : Findings.empty.references p d x = 0 := references_fresh ⟨nofun, nofun⟩ rfl
    simpa [references] using none
  have unreferred : p.subtrees.countP (Findings.empty.refers d) = 0 := by simp [fresh]
  have untyped : p.subtrees.countP (Findings.empty.denotes p d) = 0 := by simp [fresh]
  rw [unreferred, untyped]
  rfl

theorem turn (counted : f.Counted p) (t : Turn p p.Stands f g) (tidy : f.Tidy)
    (distinct : Distinct p.nodes) : g.Counted p := by
  intro d
  rcases t.counts tidy d with ⟨x, place, stands, counts⟩ | ⟨usage, refers, denotes⟩
  · have ids := Program.subtrees_distinct distinct
    have refers := countP_change ids stands.mem counts.refers
    have denotes := countP_change ids stands.mem counts.denotes
    have here := counts.here
    rw [counted d, references, references] at here
    omega
  · rw [usage, refers, denotes]
    exact counted d

theorem course (counted : f.Counted p) (c : Course p p.Stands f g) (tidy : f.Tidy)
    (distinct : Distinct p.nodes) : g.Counted p := by
  induction c with
  | refl => exact counted
  | tail c t ih => exact ih.turn t (Course.tidy c tidy) distinct

end Findings.Counted

/-! ## Where references stand -/

/-- Only expressions refer to declarations. -/
def Findings.RefersFromExprs (p : Program) (f : Findings) : Prop :=
  ∀ id decl, f.resolution id = some decl → ∃ e, .expr e ∈ p.subtrees ∧ e.id = id

theorem Visit.resolution (v : Visit p own f g) (id : Nat) :
    g.resolution id = f.resolution id ∨ ∃ e place, own (.expr e) place ∧ e.id = id := by
  cases v with
  | judge _ => exact .inl (f.setValid_resolution _ _ _)
  | @resolve t place r _ _ _ =>
    left
    obtain ⟨_, _, _, same⟩ := f.taken_eq (p := p) t.id (t.aliasIn place.generics) r
    rw [same, Findings.resolution_record]
    rfl
  | @infer scope e decl r _ mine _ _ _ =>
    by_cases same : id = e.id
    · exact .inr ⟨e, _, mine, same.symm⟩
    · rw [Findings.resolution_record]
      exact .inl (Findings.resolution_referAny decl same)
  | @name scope e owner _ mine _ _ =>
    by_cases same : id = e.id
    · exact .inr ⟨e, _, mine, same.symm⟩
    · refine .inl ((Findings.resolution_referAny _ same).trans ?_)
      rw [Findings.resolution_record]
  | pair _ _ _ => exact .inl (f.resolution_record _ _ _)

theorem Findings.RefersFromExprs.turn (before : f.RefersFromExprs p) (t : Turn p p.Stands f g) :
    g.RefersFromExprs p := by
  intro id decl refers
  cases t with
  | visit v =>
    rcases v.resolution id with same | ⟨e, place, stands, same⟩
    · exact before id decl (same ▸ refers)
    · exact ⟨e, stands.mem, same⟩
  | mark _ _ | link _ _ _ | number _ _ => exact before id decl refers

theorem Findings.RefersFromExprs.course (before : f.RefersFromExprs p) (c : Course p p.Stands f g) :
    g.RefersFromExprs p := by
  induction c with
  | refl => exact before
  | tail _ t ih => exact ih.turn t

/-! ## What is reported as unused -/

namespace Program

/-- What is reported if it is not used: functions, classes and methods that are not overridable. -/
def Reportable (p : Program) : Decl → Prop
  | .class i => i ∈ p.classIndices
  | .function i => i ∈ p.functionIndices
  | .method i j => i ∈ p.classIndices ∧
    ∃ m, (p.classAt i).methods[j]? = some m ∧ m.isOverridable = false
  | .field _ _ => False

variable (p) (f)

theorem unusedFunctions_decls : (p.unusedFunctions f).map Prod.fst =
    (p.functionIndices.filter fun i => f.usage (.function i) == 0).map Decl.function := by
  rw [unusedFunctions, List.map_map]
  rfl

theorem unusedInClass_decls (i : Nat) : (p.unusedInClass f i).map Prod.fst =
    (if f.usage (.class i) = 0 then [.class i] else []) ++
      ((p.classAt i).methods.zipIdx.filter fun m =>
        !m.1.isOverridable && f.usage (.method i m.2) == 0).map fun m => Decl.method i m.2 := by
  rw [unusedInClass, List.map_append, unusedMethods, List.map_map]
  congr 1
  split <;> rfl

theorem mem_unusedInClass (i : Nat) : d ∈ (p.unusedInClass f i).map Prod.fst ↔
    (d = .class i ∨ ∃ j m, d = .method i j ∧ (p.classAt i).methods[j]? = some m ∧
      m.isOverridable = false) ∧ f.usage d = 0 := by
  rw [unusedInClass_decls, List.mem_append, List.mem_map]
  constructor
  · rintro (isClass | ⟨⟨m, j⟩, listed, rfl⟩)
    · split at isClass
      · cases List.mem_singleton.1 isClass
        exact ⟨.inl rfl, ‹_›⟩
      · cases isClass
    · simp only [List.mem_filter, List.mem_zipIdx_iff_getElem?, Bool.and_eq_true, Bool.not_eq_true',
        beq_iff_eq] at listed
      exact ⟨.inr ⟨j, m, rfl, listed.1, listed.2.1⟩, listed.2.2⟩
  · rintro ⟨rfl | ⟨j, m, rfl, declared, final⟩, unused⟩
    · left
      rw [if_pos unused]
      exact List.mem_singleton_self _
    · refine .inr ⟨(m, j), ?_, rfl⟩
      simp [List.mem_filter, List.mem_zipIdx_iff_getElem?, declared, final, unused]

theorem mem_unused : d ∈ (p.unused f).map Prod.fst ↔ p.Reportable d ∧ f.usage d = 0 := by
  rw [unused, List.map_append, List.mem_append, unusedFunctions_decls, List.map_flatMap,
    List.mem_flatMap, List.mem_map]
  simp only [mem_unusedInClass, List.mem_filter, beq_iff_eq]
  constructor
  · rintro (⟨i, ⟨listed, unused⟩, rfl⟩ | ⟨i, listed, rfl | ⟨j, m, rfl, declared, final⟩, unused⟩)
    · exact ⟨listed, unused⟩
    · exact ⟨listed, unused⟩
    · exact ⟨⟨listed, m, declared, final⟩, unused⟩
  · rintro ⟨reportable, unused⟩
    cases d with
    | function i => exact .inl ⟨i, ⟨reportable, unused⟩, rfl⟩
    | «class» i => exact .inr ⟨i, reportable, .inl rfl, unused⟩
    | method i j =>
      obtain ⟨listed, m, declared, final⟩ := reportable
      exact .inr ⟨i, listed, .inr ⟨j, m, rfl, declared, final⟩, unused⟩
    | field i j => exact reportable.elim

theorem unusedInClass_nodup (i : Nat) : ((p.unusedInClass f i).map Prod.fst).Nodup := by
  rw [unusedInClass_decls, List.nodup_append]
  refine ⟨by split <;> simp, ?_, ?_⟩
  · have positions : ((p.classAt i).methods.zipIdx.map Prod.snd).Nodup := by
      rw [List.zipIdx_map_snd]
      exact List.nodup_range'
    have decls := (positions.map (f := Decl.method i) fun _ _ same => by cases same; rfl)
    rw [List.map_map] at decls
    exact decls.sublist (List.filter_sublist.map _)
  · rintro _ isClass _ isMethod rfl
    obtain ⟨_, _, rfl⟩ := List.mem_map.1 isMethod
    split at isClass
    · cases List.mem_singleton.1 isClass
    · cases isClass

/-- Nothing is reported twice. -/
theorem unused_nodup : ((p.unused f).map Prod.fst).Nodup := by
  rw [unused, List.map_append, unusedFunctions_decls, List.map_flatMap, List.nodup_append]
  refine ⟨?_, ?_, ?_⟩
  · exact (List.nodup_range.filter _).map fun _ _ same => by cases same; rfl
  · refine List.nodup_flatMap.2 ⟨fun i _ => p.unusedInClass_nodup f i, ?_⟩
    refine List.nodup_range.imp fun {i j} apart d inFirst inSecond => ?_
    obtain ⟨first, _⟩ := (p.mem_unusedInClass f i).1 inFirst
    obtain ⟨second, _⟩ := (p.mem_unusedInClass f j).1 inSecond
    rcases first with rfl | ⟨_, _, rfl, _⟩ <;> rcases second with same | ⟨_, _, same, _⟩ <;>
      cases same <;> exact apart rfl
  · rintro _ isFunction _ inClass rfl
    obtain ⟨_, _, rfl⟩ := List.mem_map.1 isFunction
    obtain ⟨i, _, inClass⟩ := List.mem_flatMap.1 inClass
    rcases ((p.mem_unusedInClass f i).1 inClass).1 with same | ⟨_, _, same, _⟩ <;> cases same

end Program

/-! ## Counts of nodes -/

namespace Findings

theorem countP_refers (p : Program) (f : Findings) (d : Decl) :
    p.subtrees.countP (f.refers d) = p.nodes.countP fun n => f.resolution n.id == some d := by
  rw [← p.subtrees_nodes, List.countP_map]
  rfl

theorem countP_denotes (p : Program) (f : Findings) (d : Decl) :
    p.subtrees.countP (f.denotes p d) =
      p.typeRefs.countP fun t => (f.denotedClass? p t).map Decl.class == some d := by
  rw [Program.typeRefs, List.countP_filterMap]
  refine List.countP_congr fun x _ => ?_
  cases x <;> simp [denotes, Subtree.type?]

/-- Among all nodes, only those of expressions refer to declarations. -/
theorem RefersFromExprs.countP (refers : f.RefersFromExprs p) (distinct : Distinct p.nodes)
    (d : Decl) : (p.nodes.countP fun n => f.resolution n.id == some d) =
      p.exprs.countP fun e => f.resolution e.id == some d := by
  rw [← countP_refers, Program.exprs, List.countP_filterMap]
  refine List.countP_congr fun x inside => ?_
  have isExpr (found : f.resolution x.id = some d) : ∃ e, x = .expr e := by
    obtain ⟨e, listed, same⟩ := refers _ _ found
    exact ⟨e, List.inj_on_of_nodup_map (Program.subtrees_distinct distinct) inside listed same.symm⟩
  have unreferred (other : x.expr? = none) : f.refers d x = false := by
    refine beq_eq_false_iff_ne.2 fun found => ?_
    obtain ⟨e, rfl⟩ := isExpr found
    cases other
  cases x with
  | expr e => simp [Findings.refers, Subtree.expr?, Subtree.id, Subtree.node, Expr.id]
  | type _ | pair _ | head _ => simp [unreferred rfl, Subtree.expr?]

end Findings

/-- In the end every use is counted, and only expressions refer to declarations. -/
theorem Program.analyze_counted (settings : Settings) (distinct : Distinct p.nodes) :
    (p.analyze settings).state.findings.Counted p ∧
      (p.analyze settings).state.findings.RefersFromExprs p := by
  obtain ⟨f, course, _, trail⟩ := p.analyze_course settings distinct
  have whole := course.trans trail.course
  have silent : Findings.empty.RefersFromExprs p := fun _ _ => nofun
  exact ⟨Findings.Counted.empty.course whole ⟨nofun, nofun⟩ distinct, silent.course whole⟩

section Exact

variable (counted : f.Counted p)
include counted

theorem Findings.Counted.usage (d : Decl) : f.usage d =
    (p.nodes.countP fun n => f.resolution n.id == some d) +
      p.typeRefs.countP fun t => (f.denotedClass? p t).map Decl.class == some d := by
  rw [counted d, Findings.countP_refers, Findings.countP_denotes]

theorem Findings.Counted.usage_of_not_class (other : ∀ i, d ≠ .class i) :
    f.usage d = p.nodes.countP fun n => f.resolution n.id == some d := by
  have none : (p.typeRefs.countP fun t => (f.denotedClass? p t).map Decl.class == some d) = 0 := by
    rw [List.countP_eq_zero]
    intro t _ same
    obtain ⟨i, _, rfl⟩ := Option.map_eq_some_iff.1 (beq_iff_eq.1 same)
    exact other i rfl
  rw [counted.usage, none, Nat.add_zero]

theorem Findings.Counted.usage_class (refers : f.RefersFromExprs p) (distinct : Distinct p.nodes)
    (i : Nat) : f.usage (.class i) =
      (p.typeRefs.countP fun t => f.denotedClass? p t == some i) +
        p.exprs.countP fun e => f.resolution e.id == some (.class i) := by
  rw [counted.usage, refers.countP distinct, Nat.add_comm]
  congr 1
  refine List.countP_congr fun t _ => ?_
  cases f.denotedClass? p t <;> simp

theorem Findings.Counted.unused (d : Decl) : f.usage d = 0 ↔
    (∀ n ∈ p.nodes, f.resolution n.id ≠ some d) ∧
      ∀ t ∈ p.typeRefs, ∀ i, f.denotedClass? p t = some i → d ≠ .class i := by
  rw [counted.usage, Nat.add_eq_zero_iff, List.countP_eq_zero, List.countP_eq_zero]
  simp only [beq_iff_eq, Option.map_eq_some_iff, not_exists, not_and]
  refine and_congr_right fun _ => forall₂_congr fun t _ => forall₂_congr fun i _ => ?_
  rw [ne_comm]

end Exact

/-- Every use of a declaration in a program is counted once: a counter is the number of nodes that
refer to the declaration, for a class that of the types and expressions that do. So what is reported
as unused is what nothing refers to, each once, whatever the settings. -/
theorem Source.usage_exact {source : Source} {settings : Settings} {c : Compilation}
    (compiled : source.compile settings = .ok c) :
    (∀ id d, c.findings.resolution id = some d → ∃ e ∈ c.program.exprs, e.id = id) ∧
      (∀ d, (∀ i, d ≠ .class i) → c.findings.usage d =
        c.program.nodes.countP fun n => c.findings.resolution n.id == some d) ∧
      (∀ i, c.findings.usage (.class i) =
        (c.program.typeRefs.countP fun t =>
          (c.findings.typeOf t.id).bind c.program.classOf? == some i) +
        c.program.exprs.countP fun e => c.findings.resolution e.id == some (.class i)) ∧
      c.unused.Nodup ∧
      ∀ d, d ∈ c.unused ↔ c.program.Reportable d ∧
        (∀ n ∈ c.program.nodes, c.findings.resolution n.id ≠ some d) ∧
        ∀ t ∈ c.program.typeRefs, ∀ i, (c.findings.typeOf t.id).bind c.program.classOf? = some i →
          d ≠ .class i := by
  obtain ⟨p, parsed, same⟩ : ∃ p, source.parse Parser.program = .ok p ∧ p.compile settings = c := by
    rw [Source.compile] at compiled
    cases parsed : source.parse Parser.program with
    | error e =>
      rw [parsed] at compiled
      cases compiled
    | ok p =>
      rw [parsed] at compiled
      exact ⟨p, rfl, Except.ok.inj compiled⟩
  subst same
  have distinct : Distinct p.nodes := source.parse_program_nodup parsed
  obtain ⟨counted, refers⟩ := p.analyze_counted settings distinct
  refine ⟨fun id d found => ?_, fun d => counted.usage_of_not_class,
    counted.usage_class refers distinct, p.unused_nodup _, fun d => ?_⟩
  · obtain ⟨e, listed, same⟩ := refers id d found
    exact ⟨e, List.mem_filterMap.2 ⟨_, listed, rfl⟩, same⟩
  · exact (p.mem_unused _).trans (and_congr_right fun _ => counted.unused d)

/-- Two classes, of which one is used, and a function that is not. -/
def usedAndUnused : Source :=
  ⟨"class A \x7b static integer size := 1; void quiet() \x7b \x7d virtual void open() \x7b \x7d \x7d " ++
    "class B \x7b \x7d void free() \x7b \x7d A a := new A; integer first := A.size + A.size;", none⟩

theorem usedAndUnused_usage_exact : ∃ c : Compilation,
    usedAndUnused.compile ⟨true, true⟩ = .ok c ∧
      c.findings.usage (.class 0) = 4 ∧ c.findings.usage (.field 0 0) = 2 ∧
      c.unused = [.function 0, .method 0 0, .class 1] ∧
      (c.program.nodes.countP fun n => c.findings.resolution n.id == some (.field 0 0)) = 2 ∧
      (c.program.typeRefs.countP fun t =>
          (c.findings.typeOf t.id).bind c.program.classOf? == some 0) +
        (c.program.exprs.countP fun e => c.findings.resolution e.id == some (.class 0)) = 4 ∧
      c.unused.Nodup ∧
      ∀ n ∈ c.program.nodes, c.findings.resolution n.id ≠ some (.function 0) := by
  have run : (usedAndUnused.compile ⟨true, true⟩).toOption.map (fun c =>
        (c.findings.usage (.class 0), c.findings.usage (.field 0 0), c.unused)) =
      some (4, 2, [.function 0, .method 0 0, .class 1]) := by
    decide +kernel
  obtain ⟨c, compiled, views⟩ := Option.map_eq_some_iff.1 run
  simp only [Prod.mk.injEq] at views
  obtain ⟨classUses, fieldUses, unused⟩ := views
  have h := ok_of_toOption compiled
  obtain ⟨-, members, classes, nodup, reported⟩ := Source.usage_exact h
  refine ⟨c, h, classUses, fieldUses, unused, ?_, ?_, nodup, ?_⟩
  · exact (members (.field 0 0) fun _ => nofun).symm.trans fieldUses
  · exact (classes 0).symm.trans classUses
  · exact ((reported _).1 (unused ▸ List.mem_cons_self ..)).2.1

end ClassLang
