import ClassLang.Proofs.Checking.Mirrors
import ClassLang.Proofs.Checking.Phases
import ClassLang.Proofs.Parsing.Numbering
import Mathlib.Data.Option.Basic

/-!
A method that overrides takes the place of a virtual one. The check compares it with the nearest
method that it may override, which may override another in its turn; up the line of superclasses the
types are rewritten step by step, and the rewritings compose.
-/

namespace ClassLang

variable {p : Program} {f g : Findings}

/-! ## What is overridden -/

theorem overridden_of_some {ancestors : List Ancestor} {name : String} {params : List Ty}
    {base : Method} {inherited : Ty}
    (h : p.overridden? f ancestors name params = some (base, inherited)) :
    ∃ a ∈ ancestors, base ∈ (p.classAt a.index).methods ∧ base.name.name = name ∧
      base.isOverridable = true ∧ base.isStatic = false ∧
        ∃ ps r, f.signature? base = some (ps, r) ∧ ps.map a.args.apply = params ∧
          a.args.apply r = inherited := by
  obtain ⟨a, above, found⟩ := List.exists_of_findSome?_eq_some h
  obtain ⟨m, declared, found⟩ := List.exists_of_findSome?_eq_some found
  obtain ⟨_, candidate, found⟩ := Option.bind_eq_some_iff.1 found
  obtain ⟨⟨ps, r⟩, types, found⟩ := Option.bind_eq_some_iff.1 found
  obtain ⟨_, fits, found⟩ := Option.bind_eq_some_iff.1 found
  cases found
  have suitable := (Option.guard_eq_some' _).1 candidate
  simp only [Bool.and_eq_true, beq_iff_eq, Bool.not_eq_true'] at suitable
  obtain ⟨⟨named, overridable⟩, instance_⟩ := suitable
  have same : ps.map a.args.apply = params := by simpa using (Option.guard_eq_some' _).1 fits
  exact ⟨a, above, declared, named, overridable, instance_, ps, r, types, same, rfl⟩

/-- A faultless class compares each override with a method of the same access and types. -/
theorem override_of_faultless {i : Nat} (faultless : p.memberFaults f i true = []) {m : Method}
    (declared : m ∈ (p.classAt i).methods) (instance_ : m.isStatic = false)
    (marked : m.isOverload = true) {params : List Ty} {result : Ty}
    (types : f.signature? m = some (params, result)) :
    ∃ base, p.overridden? f (f.ancestors i) m.name.name params = some (base, result) ∧
      base.access = m.access := by
  unfold Program.memberFaults at faultless
  dsimp only at faultless
  have own := List.flatMap_eq_nil_iff.1 (List.append_eq_nil_iff.1 faultless).2 m declared
  have compared := (List.append_eq_nil_iff.1 own).2
  rw [if_pos rfl] at compared
  cases extends_ : (p.classAt i).superclass with
  | none => simp [marked, extends_] at compared
  | some written =>
    have notRoot : ¬(m.isOverload && (p.classAt i).superclass.isNone) = true := by simp [extends_]
    have compares : (p.classAt i).comparesWithInherited true m = true := by
      simp [Class.comparesWithInherited, instance_, extends_]
    rw [if_neg notRoot, if_pos compares] at compared
    unfold Program.overrideFaults at compared
    rw [types] at compared
    dsimp only at compared
    rw [marked] at compared
    cases nearest : p.overridden? f (f.ancestors i) m.name.name params with
    | none => simp [nearest] at compared
    | some found =>
      obtain ⟨base, inherited⟩ := found
      have access : base.access = m.access := by
        by_contra other
        simp [nearest, other] at compared
      have same : inherited = result := by
        by_contra other
        simp [nearest, other] at compared
      exact ⟨base, by rw [same], access⟩

/-! ## Slots -/

/-- Some virtual method further up has the access of a method and, seen from its class, its types. -/
def Program.HasSlot (p : Program) (f : Findings) (i : Nat) (m : Method) (params : List Ty)
    (result : Ty) : Prop :=
  ∃ a ∈ f.ancestors i, ∃ base ∈ (p.classAt a.index).methods,
    base.isStatic = false ∧ base.isVirtual = true ∧ base.name.name = m.name.name ∧
      base.access = m.access ∧ ∃ ps r, f.signature? base = some (ps, r) ∧
        ps.map a.args.apply = params ∧ a.args.apply r = result

def Program.Coherent (p : Program) (f : Findings) (i : Nat) : Prop :=
  ∀ m ∈ (p.classAt i).methods, m.isStatic = false → m.isOverload = true →
    ∀ params result, f.signature? m = some (params, result) → p.HasSlot f i m params result

theorem coherent_of_faultless {i : Nat} (chained : Chained f.superclasses.bindings)
    (above : ∀ a ∈ f.ancestors i, p.Coherent f a.index) (faultless : p.memberFaults f i true = []) :
    p.Coherent f i := by
  intro m declared instance_ marked params result types
  obtain ⟨base, nearest, access⟩ := override_of_faultless faultless declared instance_ marked types
  obtain ⟨a, listed, inBase, named, overridable, baseInstance, ps, r, baseTypes, sameParams, sameResult⟩ :=
    overridden_of_some nearest
  cases virtual_ : base.isVirtual with
  | true =>
    exact ⟨a, listed, base, inBase, baseInstance, virtual_, named, access, ps, r, baseTypes,
      sameParams, sameResult⟩
  | false =>
    have overrides : base.isOverload = true := by
      simpa [Method.isOverridable, virtual_] using overridable
    obtain ⟨b, further, root, inRoot, rootInstance, rootVirtual, rootNamed, rootAccess, qs, q, rootTypes,
      rootParams, rootResult⟩ := above a listed base inBase baseInstance overrides ps r baseTypes
    rw [Findings.ancestors_eq chained] at listed further
    refine ⟨b.under a.args, ?_, root, inRoot, rootInstance, rootVirtual, rootNamed.trans named,
      rootAccess.trans access, qs, q, rootTypes, ?_, ?_⟩
    · rw [Findings.ancestors_eq chained]
      exact chained.trans listed further
    · rw [← sameParams, ← rootParams, List.map_map]
      exact List.map_congr_left fun t _ => Substitution.apply_andThen b.args a.args t
    · rw [← sameResult, ← rootResult]
      exact Substitution.apply_andThen b.args a.args q

/-! ## Findings that change -/

theorem Findings.signature?_congr {m : Method}
    (same : ∀ t ∈ m.signature, g.typeOf t.id = f.typeOf t.id) : g.signature? m = f.signature? m := by
  have params : (m.params.mapM fun param => g.typeOf param.type.id) =
      m.params.mapM fun param => f.typeOf param.type.id :=
    mapM_option_congr fun _ listed => same _ (List.mem_append_left _ (List.mem_map_of_mem listed))
  unfold signature?
  rw [params, same m.returnType (List.mem_append_right _ (List.mem_singleton_self _))]

theorem Program.signature_of_mem {i : Nat} {m : Method} (declared : m ∈ (p.classAt i).methods) :
    m.signature ⊆ p.signature := by
  intro t written
  have known : p.classAt i ∈ p.classes := by
    by_cases listed : i < p.classes.length
    · exact classAt_mem (List.mem_range.2 listed)
    · have missing : p.classes[i]? = none := List.getElem?_eq_none (Nat.le_of_not_lt listed)
      rw [classAt, List.getD_eq_getElem?_getD, missing] at declared
      cases declared
  exact List.mem_append_left _ (List.mem_flatMap.2 ⟨_, known, List.mem_append_right _
    (List.mem_flatMap.2 ⟨m, declared, written⟩)⟩)

theorem Program.Coherent.congr {i : Nat} (h : p.Coherent f i)
    (ancestors : g.ancestors i = f.ancestors i)
    (same : ∀ t ∈ p.signature, g.typeOf t.id = f.typeOf t.id) : p.Coherent g i := by
  have types {j : Nat} {m : Method} (declared : m ∈ (p.classAt j).methods) :
      g.signature? m = f.signature? m :=
    Findings.signature?_congr fun t written => same t (signature_of_mem declared written)
  intro m declared instance_ marked params result known
  rw [types declared] at known
  obtain ⟨a, listed, base, inBase, baseInstance, virtual_, named, access, ps, r, baseTypes, rest⟩ :=
    h m declared instance_ marked params result known
  rw [← ancestors] at listed
  exact ⟨a, listed, base, inBase, baseInstance, virtual_, named, access, ps, r,
    (types inBase).trans baseTypes, rest⟩

/-! ## Examining classes -/

/-- Links lead to settled classes, and settled classes are coherent. -/
structure Lineal (p : Program) (f : Findings) : Prop where
  chained : Chained f.superclasses.bindings
  linked : ∀ entry ∈ f.superclasses.bindings, f.mark entry.1 ≠ .unvisited
  settled : ∀ entry ∈ f.superclasses.bindings, f.mark entry.2.superclass = .done true
  known : f.Known p.signature
  coherent : ∀ i, f.mark i = .done true → p.Coherent f i

namespace Lineal

theorem congr (h : Lineal p f) (marks : ∀ i, g.mark i = f.mark i)
    (links : g.superclasses = f.superclasses) (known : g.Known p.signature)
    (types : ∀ t ∈ p.signature, g.typeOf t.id = f.typeOf t.id) : Lineal p g where
  chained := links ▸ h.chained
  linked entry listed := marks _ ▸ h.linked entry (links ▸ listed)
  settled entry listed := (marks _).trans (h.settled entry (links ▸ listed))
  known := known
  coherent i done_ := (h.coherent i ((marks i).symm.trans done_)).congr
    (Findings.ancestors_congr links i) types

theorem of_steps {own : Subject → Prop} {s t : CheckState} (h : Lineal p s.findings)
    (steps : Steps own s t) (classes : ∀ i, ¬own (.class i))
    (spared : ∀ t ∈ p.signature, ¬own (.node t.id)) : Lineal p t.findings := by
  refine h.congr (fun i => steps.mark_eq (classes i)) (steps.superclasses_eq classes)
    (steps.known spared h.known) fun type written => ?_
  obtain ⟨result, known⟩ := Option.isSome_iff_exists.1 (h.known type written)
  exact (steps.cached_of_some (spared type written) known).2

theorem setMark {i : Nat} {mark : InheritanceMark} (h : Lineal p f) (open_ : f.mark i ≠ .done true)
    (visited : mark ≠ .unvisited) (coherent : mark = .done true → p.Coherent f i) :
    Lineal p (f.setMark i mark) where
  chained := h.chained
  linked entry listed := by
    rw [Findings.mark_setMark]
    split
    · exact visited
    · exact h.linked entry listed
  settled entry listed := by
    have before := h.settled entry listed
    have other : entry.2.superclass ≠ i := fun same => open_ (same ▸ before)
    rw [Findings.mark_setMark, if_neg other, before]
  known := h.known
  coherent j done_ := by
    have ancestors : (f.setMark i mark).ancestors j = f.ancestors j :=
      Findings.ancestors_congr (f := f) (g := f.setMark i mark) rfl j
    rw [Findings.mark_setMark] at done_
    by_cases same : j = i
    · rw [if_pos same] at done_
      subst same
      exact (coherent done_).congr ancestors fun _ _ => rfl
    · rw [if_neg same] at done_
      exact (h.coherent j done_).congr ancestors fun _ _ => rfl

theorem setSuperclass {i : Nat} {link : SuperclassLink} (h : Lineal p f)
    (busy : f.mark i = .inProgress) (unlinked : ∀ entry ∈ f.superclasses.bindings, entry.1 ≠ i)
    (sound : f.mark link.superclass = .done true) : Lineal p (f.setSuperclass i link) := by
  have other {j : Nat} (done_ : f.mark j = .done true) : j ≠ i := by
    rintro rfl
    rw [busy] at done_
    cases done_
  have chained : Chained ((i, link) :: f.superclasses.bindings) :=
    .cons h.chained (other sound) fun entry listed =>
      ⟨unlinked entry listed, other (h.settled entry listed)⟩
  refine ⟨chained, fun entry listed => ?_, fun entry listed => ?_, h.known, fun j done_ => ?_⟩
  · rcases List.mem_cons.1 listed with rfl | listed
    · exact fun unvisited => by cases busy.symm.trans unvisited
    · exact h.linked entry listed
  · rcases List.mem_cons.1 listed with rfl | listed
    · exact sound
    · exact h.settled entry listed
  · refine (h.coherent j done_).congr ?_ fun _ _ => rfl
    rw [Findings.ancestors_eq h.chained, Findings.ancestors_eq chained]
    exact lineOf_other (other done_)

end Lineal

/-- A run leaves alone the classes that have been visited before it. -/
structure Visits (f g : Findings) : Prop where
  marks : ∀ i, f.mark i ≠ .unvisited → g.mark i = f.mark i
  links : ∀ entry ∈ g.superclasses.bindings,
    entry ∈ f.superclasses.bindings ∨ f.mark entry.1 = .unvisited

namespace Visits

theorem of_eq (marks : ∀ i, g.mark i = f.mark i) (links : g.superclasses = f.superclasses) :
    Visits f g := ⟨fun i _ => marks i, fun _ listed => .inl (links ▸ listed)⟩

theorem trans {h : Findings} (first : Visits f g) (second : Visits g h) : Visits f h where
  marks i visited := by
    have same := first.marks i visited
    exact (second.marks i (same ▸ visited)).trans same
  links entry listed := by
    rcases second.links entry listed with before | unvisited
    · exact first.links entry before
    · by_contra neither
      obtain ⟨_, visited⟩ := not_or.1 neither
      exact visited ((first.marks _ visited).symm.trans unvisited)

theorem setMark {i : Nat} {mark : InheritanceMark} (h : Visits f g) (first : f.mark i = .unvisited) :
    Visits f (g.setMark i mark) where
  marks j visited := by
    have other : j ≠ i := fun same => visited (same ▸ first)
    rw [Findings.mark_setMark, if_neg other]
    exact h.marks j visited
  links := h.links

theorem setSuperclass {i : Nat} {link : SuperclassLink} (h : Visits f g)
    (first : f.mark i = .unvisited) : Visits f (g.setSuperclass i link) where
  marks := h.marks
  links entry listed := by
    rcases List.mem_cons.1 listed with rfl | listed
    · exact .inr first
    · exact h.links entry listed

end Visits

/-- What the examination of a class comes to, if it began with some findings. -/
def Explored (p : Program) (before : Findings) (i : Nat) (outcome : Bool × CheckState) : Prop :=
  Lineal p outcome.2.findings ∧ Visits before outcome.2.findings ∧
    (outcome.1 = true → outcome.2.findings.mark i = .done true)

theorem checkSuperclass_lineal {examine : Nat → Check Bool} {scope : Scope} {s : CheckState} {i : Nat}
    {before : Findings} (spared : ∀ t ∈ p.signature, ¬lineage p (.node t.id))
    (examines : ∀ j scope s, scope.program = p → Lineal p s.findings →
      Explored p s.findings j ((examine j).exec scope s))
    (same : scope.program = p) (h : Lineal p s.findings) (visits : Visits before s.findings)
    (first : before.mark i = .unvisited) (busy : s.findings.mark i = .inProgress)
    (unlinked : ∀ entry ∈ s.findings.superclasses.bindings, entry.1 ≠ i) :
    Lineal p ((checkSuperclass examine i).exec scope s).2.findings ∧
      Visits before ((checkSuperclass examine i).exec scope s).2.findings ∧
        ((checkSuperclass examine i).exec scope s).2.findings.mark i = .inProgress := by
  cases extends_ : (p.classAt i).superclass with
  | none =>
    rw [exec_checkSuperclass_none same extends_]
    exact ⟨h, visits, busy⟩
  | some written =>
    rw [exec_checkSuperclass same extends_]
    have resolved := (written.resolve_infers (p := p) (P := True) (owns_covers written.nodes)).within
      { scope with generics := (p.classAt i).params } s same
    cases p.superclassName i written with
    | error e => exact ⟨h, visits, busy⟩
    | ok name =>
      dsimp only
      rcases run : Check.exec written.resolve.run _ s with ⟨r, t⟩
      rw [run] at resolved
      have lineal : Lineal p t.findings := h.of_steps resolved (fun _ => id) fun type written_ mine =>
        spared type written_ ⟨i, by
          rw [Program.superclassNodes, extends_]
          exact mine⟩
      have marks (j : Nat) : t.findings.mark j = s.findings.mark j := resolved.mark_eq id
      have links : t.findings.superclasses = s.findings.superclasses :=
        resolved.superclasses_eq fun _ => id
      have visitsResolved := visits.trans (.of_eq marks links)
      have busyResolved := (marks i).trans busy
      cases r with
      | error e => exact ⟨lineal, visitsResolved, busyResolved⟩
      | ok type =>
        dsimp only
        cases p.classOf? type with
        | none => exact ⟨lineal, visitsResolved, busyResolved⟩
        | some j =>
          dsimp only
          have examined := examines j scope t same lineal
          rcases answer : (examine j).exec scope t with ⟨sound, u⟩
          rw [answer] at examined
          obtain ⟨linealAfter, visitsAfter, settled⟩ := examined
          have visitsBefore := visitsResolved.trans visitsAfter
          have busyAfter : u.findings.mark i = .inProgress :=
            (visitsAfter.marks i (by rw [busyResolved]; decide)).trans busyResolved
          cases sound with
          | false => exact ⟨linealAfter, visitsBefore, busyAfter⟩
          | true =>
            refine ⟨linealAfter.setSuperclass busyAfter (fun entry listed same => ?_) (settled rfl),
              visitsBefore.setSuperclass first, busyAfter⟩
            rcases visitsAfter.links entry listed with old | unvisited
            · exact unlinked entry (links ▸ old) same
            · rw [same, busyResolved] at unvisited
              cases unvisited

theorem checkInheritance_lineal (spared : ∀ t ∈ p.signature, ¬lineage p (.node t.id))
    (depth i : Nat) {scope : Scope} {s : CheckState} (same : scope.program = p)
    (h : Lineal p s.findings) :
    Explored p s.findings i ((checkInheritance depth i).exec scope s) := by
  induction depth generalizing i scope s with
  | zero =>
    rw [exec_checkInheritance]
    cases marked : s.findings.mark i with
    | done valid => exact ⟨h, .of_eq (fun _ => rfl) rfl, fun sound => sound ▸ marked⟩
    | inProgress | unvisited => exact ⟨h, .of_eq (fun _ => rfl) rfl, nofun⟩
  | succ depth ih =>
    rw [exec_checkInheritance]
    cases marked : s.findings.mark i with
    | done valid => exact ⟨h, .of_eq (fun _ => rfl) rfl, fun sound => sound ▸ marked⟩
    | inProgress => exact ⟨h, .of_eq (fun _ => rfl) rfl, nofun⟩
    | unvisited =>
      dsimp only
      rw [exec_examineClass same]
      have begun : Lineal p (s.examining i).findings :=
        h.setMark (by rw [marked]; nofun) nofun nofun
      have visits : Visits s.findings (s.examining i).findings :=
        (Visits.of_eq (fun _ => rfl) rfl).setMark marked
      have busy : (s.examining i).findings.mark i = .inProgress :=
        (s.findings.mark_setMark i i .inProgress).trans (if_pos rfl)
      have unlinked : ∀ entry ∈ (s.examining i).findings.superclasses.bindings, entry.1 ≠ i :=
        fun entry listed same => h.linked entry listed (same ▸ marked)
      obtain ⟨lineal, visitsAfter, busyAfter⟩ := checkSuperclass_lineal spared
        (fun j scope s same h => ih j same h) same begun visits marked busy unlinked
      rcases answer : (checkSuperclass (checkInheritance depth) i).exec scope (s.examining i) with
        ⟨sound, t⟩
      rw [answer] at lineal visitsAfter busyAfter
      dsimp only at lineal visitsAfter busyAfter ⊢
      have closed : Lineal p (t.examined p i sound).findings := by
        refine lineal.setMark (by rw [busyAfter]; nofun) nofun fun done_ => ?_
        have both : (sound && (p.memberFaults t.findings i sound).isEmpty) = true := by
          simpa using done_
        obtain ⟨rfl, faultless⟩ := Bool.and_eq_true_iff.1 both
        refine coherent_of_faultless lineal.chained (fun a listed => ?_) (List.isEmpty_iff.1 faultless)
        rw [Findings.ancestors_eq lineal.chained] at listed
        obtain ⟨entry, known, leads⟩ := lineOf_links listed
        exact lineal.coherent _ (leads ▸ lineal.settled entry known)
      refine ⟨closed, visitsAfter.setMark marked, fun valid => ?_⟩
      change (t.findings.setMark i _).mark i = _
      rw [Findings.mark_setMark, if_pos rfl]
      exact congrArg _ valid

theorem checkInheritances_lineal (spared : ∀ t ∈ p.signature, ¬lineage p (.node t.id))
    (depth : Nat) (classes : List Nat) {scope : Scope} {s : CheckState} (same : scope.program = p)
    (h : Lineal p s.findings) :
    Lineal p ((classes.mapM (checkInheritance depth)).exec scope s).2.findings := by
  induction classes generalizing s with
  | nil =>
    rw [Check.exec_mapM_nil]
    exact h
  | cons i rest ih =>
    rw [Check.exec_mapM_cons]
    exact ih (checkInheritance_lineal spared depth i same h).1

/-! ## Programs -/

theorem Phase.derived_lineal (settings : Settings) (distinct : Distinct p.nodes) :
    Lineal p (Phase.derived p settings).2.findings := by
  have typed := Phase.functionsTyped_steps settings distinct
  have marks (i : Nat) : (Phase.functionsTyped p settings).2.findings.mark i = .unvisited :=
    typed.mark_eq id
  have links : (Phase.functionsTyped p settings).2.findings.superclasses = .empty :=
    typed.superclasses_eq fun _ => id
  have start : Lineal p (Phase.functionsTyped p settings).2.findings := by
    refine ⟨?_, ?_, ?_, Phase.functionsTyped_known settings distinct, fun i done_ => ?_⟩
    · rw [links]
      exact .nil
    · rw [links]
      exact fun _ => nofun
    · rw [links]
      exact fun _ => nofun
    · rw [marks] at done_
      cases done_
  have top : (Scope.top p settings).program = p := rfl
  exact checkInheritances_lineal (lineage_spares_types distinct) _ _ top
    (s := (Phase.functionsTyped p settings).2.noted .validatingInheritance) start

theorem Program.analyze_lineal (distinct : Distinct p.nodes) (settings : Settings) :
    Lineal p (p.analyze settings).state.findings := by
  have derived := Phase.derived_lineal settings distinct
  have sets := derived.of_steps (Phase.methodSets_steps settings fun _ => False)
    (fun _ => id) fun _ _ => id
  have bodies := sets.of_steps (Phase.statements_steps settings distinct)
    (fun _ h => h.elim id id) (reaches_spares_types distinct)
  change Lineal p (Phase.judged p settings).findings
  refine bodies.of_steps (Phase.judged_steps settings) (fun _ => id) fun t written mine => ?_
  have below := List.mem_map_of_mem (f := Node.id)
    (TypeRef.nodes_subset_nodesAll written t.node_mem_nodes)
  exact (Program.distinct_parts distinct).apart mine
    (List.map_subset _ (List.subset_append_left _ _) below)

/-- In a class whose superclasses are sound, each method that overrides has the slot of a virtual one. -/
theorem Source.override_has_virtual_slot {source : Source} {p : Program} (settings : Settings)
    (parsed : source.parse Parser.program = .ok p) {i : Nat} {c : Class} (here : p.classes[i]? = some c)
    (sound : (p.analyze settings).state.findings.mark i = .done true) {m : Method}
    (declared : m ∈ c.methods) (instance_ : m.isStatic = false) (marked : m.isOverload = true)
    {params : List Ty} {result : Ty}
    (types : (p.analyze settings).state.findings.signature? m = some (params, result)) :
    ∃ a ∈ (p.analyze settings).state.findings.chain i, a.index ≠ i ∧
      ∃ base ∈ (p.classAt a.index).methods, base.isStatic = false ∧ base.isVirtual = true ∧
        base.name.name = m.name.name ∧ base.access = m.access ∧
          ∃ ps r, (p.analyze settings).state.findings.signature? base = some (ps, r) ∧
            ps.map a.args.apply = params ∧ a.args.apply r = result := by
  have lineal := Program.analyze_lineal (source.parse_program_nodup parsed) settings
  have class_ : p.classAt i = c := by
    rw [Program.classAt, List.getD_eq_getElem?_getD, here]
    rfl
  obtain ⟨a, above, slot⟩ :=
    lineal.coherent i sound m (class_ ▸ declared) instance_ marked params result types
  refine ⟨a, List.mem_cons_of_mem _ above, ?_, slot⟩
  rw [Findings.ancestors_eq lineal.chained] at above
  exact lineal.chained.index_ne above

/-- Three classes, of which the one in between overrides the virtual method as well. -/
def threeLayers : Source :=
  ⟨"class C extends B[integer] \x7b public overload array[integer] f(array[integer] x) \x7b return x; \x7d \x7d " ++
    "class B[U] extends A[array[U]] \x7b public overload array[U] f(array[U] x) \x7b return x; \x7d \x7d " ++
    "class A[T] \x7b public virtual T f(T x) \x7b return x; \x7d \x7d", none⟩

theorem threeLayers_override_has_virtual_slot : ∃ (p : Program) (c : Class) (m : Method)
    (params : List Ty) (result : Ty), threeLayers.parse Parser.program = .ok p ∧
      p.classes[0]? = some c ∧ m ∈ c.methods ∧
      (p.analyze ⟨false, false⟩).state.findings.signature? m = some (params, result) ∧
      ∃ a ∈ (p.analyze ⟨false, false⟩).state.findings.chain 0, a.index ≠ 0 ∧
        ∃ base ∈ (p.classAt a.index).methods, base.isStatic = false ∧ base.isVirtual = true ∧
          base.name.name = m.name.name ∧ base.access = m.access ∧
            ∃ ps r, (p.analyze ⟨false, false⟩).state.findings.signature? base = some (ps, r) ∧
              ps.map a.args.apply = params ∧ a.args.apply r = result := by
  have run : (threeLayers.parse Parser.program).toOption.map (fun p =>
        ((p.analyze ⟨false, false⟩).state.findings.mark 0, (p.classes[0]?).bind fun c =>
          c.methods.head?.map fun m => (m.isStatic, m.isOverload,
            ((p.analyze ⟨false, false⟩).state.findings.signature? m).isSome))) =
      some (.done true, some (false, true, true)) := by
    decide +kernel
  obtain ⟨p, parsed, views⟩ := Option.map_eq_some_iff.1 run
  obtain ⟨sound, view⟩ := Prod.mk.inj views
  obtain ⟨c, here, view⟩ := Option.bind_eq_some_iff.1 view
  obtain ⟨m, first, view⟩ := Option.map_eq_some_iff.1 view
  obtain ⟨instance_, view⟩ := Prod.mk.inj view
  obtain ⟨marked, known⟩ := Prod.mk.inj view
  obtain ⟨⟨params, result⟩, types⟩ := Option.isSome_iff_exists.1 known
  have h := ok_of_toOption parsed
  have declared := List.mem_of_mem_head? first
  exact ⟨p, c, m, params, result, h, here, declared, types,
    Source.override_has_virtual_slot ⟨false, false⟩ h here sound declared instance_ marked types⟩

end ClassLang
