import ClassLang.Proofs.Checking.Lookups
import ClassLang.Proofs.Checking.Surveys

/-!
Fields along a chain of superclasses. A class is compared with its own ancestors alone, and only with
the fields that they hand down; the comparisons of all classes of a chain together leave each name with
one field that is handed down, and with none in front of it.

* `Source.inherited_fields_unhidden`: a field that is handed down is found from every class below.
-/

namespace ClassLang

variable {p : Program} {f : Findings} {i : Nat}

/-! ## One class -/

/-- A class declares a field of a name, at a position, that its subclasses inherit. -/
structure Program.HandsDown (p : Program) (name : String) (i k : Nat) (x : Field) : Prop where
  declared : (p.classAt i).fields[k]? = some x
  named : x.name.name = name
  inherited : x.access ≠ .private

theorem nodup_of_repeatedNames {α : Type} {name : α → String} {items : List α}
    (never : repeatedNames name items = []) : (items.map name).Nodup := by
  rw [repeatedNames, List.map_eq_nil_iff, List.filter_eq_nil_iff] at never
  rw [List.nodup_iff_getElem?_ne_getElem?]
  intro k l before bound same
  rw [List.length_map] at bound
  have listed : (items[l], l) ∈ items.zipIdx :=
    List.mem_zipIdx_iff_getElem?.2 (List.getElem?_eq_getElem bound)
  refine never _ listed (List.any_eq_true.2 ⟨items[k], ?_, ?_⟩)
  · exact List.mem_take_iff_getElem.2 ⟨k, by omega, rfl⟩
  · simpa [List.getElem?_eq_getElem bound, List.getElem?_eq_getElem (before.trans bound)] using same

theorem Class.fieldNames_nodup {c : Class} (faultless : c.memberNameFaults = []) :
    (c.fields.map fun x => x.name.name).Nodup :=
  nodup_of_repeatedNames (List.map_eq_nil_iff.1 (List.append_eq_nil_iff.1 faultless).1)

theorem Class.fieldIndex?_of_nodup {c : Class} (nodup : (c.fields.map fun x => x.name.name).Nodup)
    {k : Nat} {x : Field} (declared : c.fields[k]? = some x) : c.fieldIndex? x.name.name = some k := by
  obtain ⟨bound, rfl⟩ := List.getElem?_eq_some_iff.1 declared
  refine List.findIdx?_eq_some_iff_getElem.2 ⟨bound, beq_self_eq_true _, fun l before same => ?_⟩
  refine List.nodup_iff_getElem?_ne_getElem?.1 nodup l k before (by rwa [List.length_map]) ?_
  simpa [List.getElem?_eq_getElem bound, List.getElem?_eq_getElem (before.trans bound)] using same

/-- A class that repeats no inherited field has other names than those that its ancestors hand down. -/
theorem Program.names_apart {c : Class} {ancestors : List Ancestor} {a : Ancestor}
    (faultless : p.inheritedFieldFaults c ancestors = []) (above : a ∈ ancestors)
    (nodup : ((p.classAt a.index).fields.map fun x => x.name.name).Nodup) {name : String} {k : Nat}
    {x : Field} (hands : p.HandsDown name a.index k x) : ∀ y ∈ c.fields, y.name.name ≠ name := by
  intro y declared same
  have none_ := List.filterMap_eq_nil_iff.1 faultless y declared
  rw [Option.map_eq_none_iff, inheritedField?, List.find?_eq_none] at none_
  refine none_ _ (List.mem_map_of_mem above) ?_
  have listed := List.mem_of_getElem? hands.declared
  cases first : (p.classAt a.index).fields.find? fun z => z.name.name == y.name.name with
  | none =>
    have other := List.find?_eq_none.1 first x listed
    simp [hands.named, same] at other
  | some z =>
    have called : z.name.name = y.name.name := by simpa using List.find?_some first
    have only : z = x := List.inj_on_of_nodup_map nodup (List.mem_of_find?_eq_some first) listed
      (called.trans (same.trans hands.named.symm))
    simp [only, hands.inherited]

/-! ## Chains -/

/-- Each class of a chain has the later ones among its own ancestors. -/
theorem Findings.chain_pairwise (chained : Chained f.superclasses.bindings) (i : Nat) :
    (f.chain i).Pairwise fun b a => ∃ own ∈ f.ancestors b.index, own.index = a.index := by
  rw [chain_eq chained]
  generalize Ancestor.mk i .empty = last
  induction last using line_induction chained with
  | highest last none =>
    rw [lineFrom_unlinked chained none]
    exact List.pairwise_singleton _ _
  | below last link linked next =>
    refine lineFrom_linked chained linked ▸ List.pairwise_cons.2 ⟨fun a further => ?_, next⟩
    have tail : a ∈ (lineOf f.superclasses.bindings last.index).map (·.under last.args) := by
      have whole := lineFrom_linked chained linked
      rw [lineFrom, List.cons.injEq] at whole
      exact whole.2 ▸ further
    obtain ⟨own, listed, rfl⟩ := List.mem_map.1 tail
    exact ⟨own, ancestors_eq chained _ ▸ listed, rfl⟩

/-- The chain of a sound class consists of sound classes. -/
theorem Lineal.chain_sound (lineal : Lineal p f) (sound : f.mark i = .done true) :
    ∀ a ∈ f.chain i, f.mark a.index = .done true := by
  intro a listed
  rw [Findings.chain, Findings.ancestors_eq lineal.chained] at listed
  rcases List.mem_cons.1 listed with rfl | above
  · exact sound
  · obtain ⟨entry, known, leads⟩ := lineOf_links above
    exact leads ▸ lineal.settled entry known

/-- The members of a sound class have different names, other than those that it inherits. -/
structure Program.Unhidden (p : Program) (f : Findings) (i : Nat) : Prop where
  nodup : ((p.classAt i).fields.map fun x => x.name.name).Nodup
  inherits : p.inheritedFieldFaults (p.classAt i) (f.ancestors i) = []

theorem Program.analyze_unhidden (distinct : Distinct p.nodes) (settings : Settings)
    (sound : (p.analyze settings).state.findings.mark i = .done true) :
    p.Unhidden (p.analyze settings).state.findings i := by
  obtain ⟨_, survey⟩ := Phase.derived_survey settings distinct
  obtain ⟨marks, links⟩ := Phase.judged_places settings distinct
  have settled : (Phase.derived p settings).2.findings.mark i = .done true := (marks i).symm.trans sound
  have mark := (survey.placed i (survey.done_mem settled)).mark
  rw [settled, InheritanceMark.done.injEq, eq_comm, Bool.and_eq_true] at mark
  obtain ⟨superclass, faultless⟩ := mark
  rw [superclass, List.isEmpty_iff] at faultless
  obtain ⟨names, inherits⟩ := List.append_eq_nil_iff.1 (List.append_eq_nil_iff.1 faultless).1
  rw [if_pos rfl, ← Findings.ancestors_congr links] at inherits
  exact ⟨Class.fieldNames_nodup names, inherits⟩

/-- In a chain of such classes, nothing of the name stands in front of a field that is handed down. -/
theorem Program.chain_unhidden (chained : Chained f.superclasses.bindings)
    (unhidden : ∀ a ∈ f.chain i, p.Unhidden f a.index) (name : String) :
    (f.chain i).Pairwise fun b a => ∀ k x, p.HandsDown name a.index k x →
      ∀ y ∈ (p.classAt b.index).fields, y.name.name ≠ name := by
  refine (Findings.chain_pairwise chained i).imp_of_mem fun {b a} below above order k x hands => ?_
  obtain ⟨own, listed, same⟩ := order
  rw [← same] at hands
  exact names_apart (unhidden b below).inherits listed (same ▸ (unhidden a above).nodup) hands

/-! ## Lookups -/

theorem Program.findField?_of_first {name : String} {receiver : Substitution}
    {before after : List Ancestor} {a : Ancestor} (walk : f.chain i = before ++ a :: after)
    (passed : ∀ b ∈ before, ∀ y ∈ (p.classAt b.index).fields, y.name.name ≠ name) {k : Nat} {x : Field}
    (declared : (p.classAt a.index).fields[k]? = some x)
    (first : (p.classAt a.index).fieldIndex? name = some k) {r : Resolved}
    (known : f.cached x.type.id = some r) :
    p.findField? f i name receiver =
      some ⟨a.index, k, x, r.map (a.args.andThen receiver).apply⟩ := by
  have skipped : ∀ b ∈ before, (p.classAt b.index).fieldIndex? name = none := fun b listed =>
    List.findIdx?_eq_none_iff.2 fun y declared => by simpa using passed b listed y declared
  rw [findField?, walk, List.findSome?_append, List.findSome?_eq_none_iff.2, Option.none_or,
    List.findSome?_cons]
  · simp [first, declared, known]
  · intro b listed
    simp [skipped b listed]

/-- A field that is handed down is found from a sound class below it, with nothing in front of it. -/
theorem Program.analyze_finds (distinct : Distinct p.nodes) (settings : Settings)
    (final : (p.analyze settings).state.findings = f) (sound : f.mark i = .done true) {name : String}
    {before after : List Ancestor} {a : Ancestor} (walk : f.chain i = before ++ a :: after) {k : Nat}
    {x : Field} (hands : p.HandsDown name a.index k x) :
    (∀ b ∈ before, ∀ y ∈ (p.classAt b.index).fields, y.name.name ≠ name) ∧
      ∀ receiver, ∃ r, f.cached x.type.id = some r ∧ p.findField? f i name receiver =
        some ⟨a.index, k, x, r.map (a.args.andThen receiver).apply⟩ := by
  have lineal := p.analyze_lineal distinct settings
  rw [final] at lineal
  have unhidden : ∀ b ∈ f.chain i, p.Unhidden f b.index := fun b listed =>
    final ▸ p.analyze_unhidden distinct settings (final ▸ lineal.chain_sound sound b listed)
  have ordered := Program.chain_unhidden lineal.chained unhidden name
  rw [walk, List.pairwise_append] at ordered
  have passed : ∀ b ∈ before, ∀ y ∈ (p.classAt b.index).fields, y.name.name ≠ name :=
    fun b listed => ordered.2.2 b listed a List.mem_cons_self k x hands
  have first := Class.fieldIndex?_of_nodup
    (unhidden a (walk ▸ List.mem_append_cons_self)).nodup hands.declared
  have written : x.type ∈ p.signature := Program.classAt_signature a.index
    (List.mem_append_left _ (List.mem_map_of_mem (List.mem_of_getElem? hands.declared)))
  obtain ⟨r, known⟩ := Option.isSome_iff_exists.1 (lineal.known x.type written)
  exact ⟨passed, fun receiver => ⟨r, known,
    Program.findField?_of_first walk passed hands.declared (hands.named ▸ first) known⟩⟩

/-- In the chain of a class whose inheritance is sound, each name has one field at most that is handed
down. No class in front of it declares a field of the name, so a look-up from the class finds it; and
where a look-up finds a private field, the chain hands down none of that name. -/
theorem Source.inherited_fields_unhidden {source : Source} {p : Program} (settings : Settings)
    (parsed : source.parse Parser.program = .ok p) {f : Findings}
    (final : (p.analyze settings).state.findings = f) {i : Nat} (sound : f.mark i = .done true)
    (name : String) :
    (∀ a ∈ f.chain i, ∀ b ∈ f.chain i, ∀ k l x y,
      p.HandsDown name a.index k x → p.HandsDown name b.index l y → a = b ∧ k = l) ∧
    (∀ before a after k x, f.chain i = before ++ a :: after → p.HandsDown name a.index k x →
      (∀ b ∈ before, ∀ y ∈ (p.classAt b.index).fields, y.name.name ≠ name) ∧
        ∀ receiver, ∃ r, f.cached x.type.id = some r ∧ p.findField? f i name receiver =
          some ⟨a.index, k, x, r.map (a.args.andThen receiver).apply⟩) ∧
    ∀ receiver found, p.findField? f i name receiver = some found →
      found.field.access = .private →
        ∀ a ∈ f.chain i, ∀ k x, ¬p.HandsDown name a.index k x := by
  have distinct : Distinct p.nodes := source.parse_program_nodup parsed
  have chained := (p.analyze_lineal distinct settings).chained
  rw [final] at chained
  refine ⟨fun a here b there k l x y first second => ?_,
    fun before a after k x walk hands => p.analyze_finds distinct settings final sound walk hands,
    fun receiver found located hidden a listed k x hands => ?_⟩
  · -- One look-up finds the two of them.
    obtain ⟨before, after, walk⟩ := List.append_of_mem here
    obtain ⟨before', after', walk'⟩ := List.append_of_mem there
    obtain ⟨_, _, located⟩ := (p.analyze_finds distinct settings final sound walk first).2 .empty
    obtain ⟨_, _, located'⟩ := (p.analyze_finds distinct settings final sound walk' second).2 .empty
    have same := Option.some.inj (located.symm.trans located')
    exact ⟨List.inj_on_of_nodup_map (Findings.chain_nodup chained i) here there
      (congrArg FoundField.owner same), congrArg FoundField.index same⟩
  · obtain ⟨before, after, walk⟩ := List.append_of_mem listed
    obtain ⟨_, _, located'⟩ := (p.analyze_finds distinct settings final sound walk hands).2 receiver
    have same := Option.some.inj (located.symm.trans located')
    subst same
    exact hands.inherited hidden

/-- The field of the highest class that the class below it does not inherit, and declares anew. -/
def privateAbove : Source :=
  ⟨"class A \x7b public integer x; private integer y; \x7d " ++
    "class B extends A \x7b public integer y; \x7d class C extends B \x7b private integer z; \x7d", none⟩

theorem privateAbove_found : ∃ p f x, privateAbove.parse Parser.program = .ok p ∧
    (p.analyze ⟨true, true⟩).state.findings = f ∧ f.mark 2 = .done true ∧
    (f.chain 2).map Ancestor.index = [2, 1, 0] ∧ p.HandsDown "y" 1 0 x ∧
    (∃ r, p.findField? f 2 "y" .empty = some ⟨1, 0, x, r⟩) ∧
    ∀ a ∈ f.chain 2, ∀ k y, p.HandsDown "y" a.index k y → a.index = 1 := by
  have run : (privateAbove.parse Parser.program).toOption.map (fun p =>
      let f := (p.analyze ⟨true, true⟩).state.findings
      (f.mark 2, (f.chain 2).map Ancestor.index,
        (p.classAt 1).fields.map fun x => (x.name.name, x.access))) =
      some (.done true, [2, 1, 0], [("y", .public)]) := by
    decide +kernel
  obtain ⟨p, parsed, views⟩ := Option.map_eq_some_iff.1 run
  simp only [Prod.mk.injEq] at views
  obtain ⟨sound, line, fields⟩ := views
  obtain ⟨x, rest, declared, named, -⟩ := List.map_eq_cons_iff.1 fields
  obtain ⟨c, above, walk, -, line'⟩ := List.map_eq_cons_iff.1 line
  obtain ⟨b, above', rfl, owner, -⟩ := List.map_eq_cons_iff.1 line'
  rw [Prod.mk.injEq] at named
  have hands : p.HandsDown "y" 1 0 x :=
    ⟨by rw [declared]; rfl, named.1, by rw [named.2]; decide⟩
  obtain ⟨only, nearest, -⟩ :=
    Source.inherited_fields_unhidden ⟨true, true⟩ (ok_of_toOption parsed) rfl sound "y"
  obtain ⟨r, -, found⟩ := (nearest [c] b above' 0 x walk (owner ▸ hands)).2 .empty
  refine ⟨p, _, x, ok_of_toOption parsed, rfl, sound, line, hands, ⟨_, owner ▸ found⟩,
    fun a listed k y also => ?_⟩
  rw [(only a listed b (walk ▸ by simp) k 0 y x also (owner ▸ hands)).1, owner]

end ClassLang
