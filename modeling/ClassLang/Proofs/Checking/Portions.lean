import ClassLang.Proofs.Checking.Upholding

/-!
The portions of a run: a check that was made in the course of a longer one, seen from its end. What it
has brought about is still there.
-/

namespace ClassLang

variable {α β ι : Type} {p : Program} {base f g h : Findings} {scope : Scope} {ns ms : List Node}
  {s last : CheckState} {x : Check α} {k : α → Check β}

/-! ## Later findings -/

theorem Findings.Alike.trans (first : f.Alike p ns g) (second : g.Alike p ns h) : f.Alike p ns h where
  links := second.links.trans first.links
  cached t written := (second.cached t written).trans (first.cached t written)
  typeOf t written := (second.typeOf t written).trans (first.typeOf t written)
  entered n listed type := (second.entered n listed type).trans (first.entered n listed type)
  refers n listed := (second.refers n listed).trans (first.refers n listed)
  judged n listed valid known := second.judged n listed valid (first.judged n listed valid known)

theorem Findings.Later.trans (first : f.Later p ns g) (second : g.Later p ns h) : f.Later p ns h :=
  ⟨first.extends_.trans second.extends_, first.alike.trans second.alike⟩

theorem Findings.Later.refl (f : Findings) : f.Later p ns f :=
  ⟨.refl f, .of_eq ⟨rfl, fun _ _ => rfl, fun _ _ => rfl⟩ (fun _ _ => rfl) (fun _ _ => rfl)
    fun _ _ => rfl⟩

theorem Findings.judgeAll_append (f : Findings) (entries more : List (Nat × Bool)) :
    f.judgeAll (entries ++ more) = (f.judgeAll entries).judgeAll more :=
  List.foldl_append

/-- Verdicts on nodes that come last. -/
theorem Findings.Later.judgeAll (entries : List (Nat × Bool)) (tidy : f.Tidy)
    (known : f.Known p.signature) : f.Later p ns (f.judgeAll entries) := by
  induction entries generalizing f with
  | nil => exact .refl f
  | cons entry rest ih =>
    have visit : Visit p _ f (f.setValid entry.1 entry.2) := Alike.visit_setValid f entry.1 entry.2
    exact (Findings.Later.setValid tidy known entry.1 entry.2).trans
      (ih (visit.tidy tidy) ((visit.extends_ tidy).known known))

/-! ## Checks that pass -/

/-- After some base, a check visits only some nodes, and takes no report back. -/
def Passes (p : Program) (base : Findings) (x : Check α) (scope : Scope) (ns : List Node) : Prop :=
  ∀ s : CheckState, base.Extends s.findings → s.findings.Awaits p.signature ns →
    (∃ own, (∀ x place, own x place → x.node ∈ ns) ∧
      Trail p own s.findings (x.exec scope s).2.findings) ∧ s.errors <+: (x.exec scope s).2.errors

namespace Passes

theorem pure (a : α) : Passes p base (Pure.pure a) scope ns :=
  fun _ _ _ => ⟨⟨fun _ _ => False, fun _ _ => False.elim, .refl _⟩, List.prefix_rfl⟩

theorem reportAll (errors : List CheckError) : Passes p base (reportAll errors) scope ns :=
  fun _ _ _ => ⟨⟨fun _ _ => False, fun _ _ => False.elim, .refl _⟩, List.prefix_append _ _⟩

theorem bind (hx : Passes p base x scope ns) (hk : ∀ a, Passes p base (k a) scope ms) :
    Passes p base (x >>= k) scope (ns ++ ms) := by
  intro s later awaits
  obtain ⟨⟨own, inside, first⟩, grown⟩ := hx s later awaits.left
  have next := awaits.after first inside
  obtain ⟨⟨own', inside', second⟩, grown'⟩ :=
    hk (x.exec scope s).1 _ (later.trans (first.extends_ awaits.tidy)) next
  refine ⟨⟨fun y place => own y place ∨ own' y place, ?_, ?_⟩, grown.trans grown'⟩
  · rintro y place (mine | mine)
    · exact List.mem_append_left _ (inside y place mine)
    · exact List.mem_append_right _ (inside' y place mine)
  · exact (first.mono fun _ _ => .inl).trans (second.mono fun _ _ => .inr)

theorem map {k : α → β} (hx : Passes p base x scope ns) :
    Passes p base (do return k (← x)) scope ns :=
  fun s later awaits => hx s later awaits

theorem mapM {check : ι → Check α} {nodes : ι → List Node} {items : List ι}
    (each : ∀ i ∈ items, Passes p base (check i) scope (nodes i)) :
    Passes p base (items.mapM check) scope (items.flatMap nodes) := by
  induction items with
  | nil =>
    rw [List.mapM_nil]
    exact .pure _
  | cons i rest ih =>
    rw [List.mapM_cons]
    exact bind (each i (List.mem_cons_self ..)) fun _ =>
      (ih fun j listed => each j (List.mem_cons_of_mem i listed)).map

end Passes

/-! ## Checks that were made -/

theorem exists_paired {items : List ι} (results : List α) (same : items.length = results.length)
    {i : ι} (listed : i ∈ items) : ∃ a ∈ results, (i, a) ∈ items.zip results := by
  obtain ⟨j, here, rfl⟩ := List.getElem_of_mem listed
  refine ⟨results.get ⟨j, same ▸ here⟩, List.getElem_mem _, ?_⟩
  rw [List.get_eq_getElem,
    ← List.getElem_zip (h := by rw [List.length_zip, ← same, Nat.min_self]; exact here)]
  exact List.getElem_mem _

/-- A check was made in some state after some base, and what it has brought about is still there in
the end. -/
structure Ran (p : Program) (base : Findings) (x : Check α) (scope : Scope) (ns : List Node)
    (s last : CheckState) : Prop where
  later : base.Extends s.findings
  awaits : s.findings.Awaits p.signature ns
  keeps : (x.exec scope s).2.findings.Later p ns last.findings
  reports : (x.exec scope s).2.errors <+: last.errors

namespace Ran

theorem extends_ (ran : Ran p base x scope ns s last) (hx : Passes p base x scope ns) :
    base.Extends last.findings := by
  obtain ⟨⟨own, inside, trail⟩, _⟩ := hx s ran.later ran.awaits
  exact (ran.later.trans (trail.extends_ ran.awaits.tidy)).trans ran.keeps.extends_

theorem left (ran : Ran p base (x >>= k) scope (ns ++ ms) s last)
    (hx : Passes p base x scope ns) (hk : ∀ a, Passes p base (k a) scope ms) :
    Ran p base x scope ns s last := by
  obtain ⟨⟨own, inside, first⟩, _⟩ := hx s ran.later ran.awaits.left
  have next := ran.awaits.after first inside
  obtain ⟨⟨own', inside', second⟩, grown⟩ :=
    hk (x.exec scope s).1 _ (ran.later.trans (first.extends_ ran.awaits.tidy)) next
  exact ⟨ran.later, ran.awaits.left,
    (ran.awaits.later second inside' next.tidy next.known).trans
      (ran.keeps.mono (List.subset_append_left _ _)), grown.trans ran.reports⟩

theorem right (ran : Ran p base (x >>= k) scope (ns ++ ms) s last)
    (hx : Passes p base x scope ns) :
    Ran p base (k (x.exec scope s).1) scope ms (x.exec scope s).2 last := by
  obtain ⟨⟨own, inside, first⟩, _⟩ := hx s ran.later ran.awaits.left
  exact ⟨ran.later.trans (first.extends_ ran.awaits.tidy), ran.awaits.after first inside,
    ran.keeps.mono (List.subset_append_right _ _), ran.reports⟩

/-- What comes after a check that has found nothing out was made in its place. -/
theorem still (ran : Ran p base (x >>= k) scope ns s last)
    (same : (x.exec scope s).2.findings = s.findings) :
    Ran p base (k (x.exec scope s).1) scope ns (x.exec scope s).2 last :=
  ⟨same ▸ ran.later, same ▸ ran.awaits, ran.keeps, ran.reports⟩

/-- Each of several checks was made, with its result. -/
theorem mapM {check : ι → Check α} {nodes : ι → List Node} {items : List ι}
    (each : ∀ i ∈ items, Passes p base (check i) scope (nodes i))
    (ran : Ran p base (items.mapM check) scope (items.flatMap nodes) s last) :
    ∀ pair ∈ items.zip ((items.mapM check).exec scope s).1, ∃ t,
      Ran p base (check pair.1) scope (nodes pair.1) t last ∧
        ((check pair.1).exec scope t).1 = pair.2 := by
  induction items generalizing s with
  | nil => exact fun _ => nofun
  | cons i rest ih =>
    have first := each i (List.mem_cons_self ..)
    have others (j : ι) (listed : j ∈ rest) := each j (List.mem_cons_of_mem i listed)
    rw [List.mapM_cons] at ran ⊢
    rintro pair listed
    rcases List.mem_cons.1 listed with rfl | listed
    · exact ⟨s, ran.left first fun _ => (Passes.mapM others).map, rfl⟩
    · have later := ran.right first
      exact ih others ⟨later.later, later.awaits, later.keeps, later.reports⟩ pair listed

/-- One of several checks was made, and if all have succeeded, so has it. -/
theorem mapM_all {check : ι → Check Bool} {nodes : ι → List Node} {items : List ι}
    (each : ∀ i ∈ items, Passes p base (check i) scope (nodes i))
    (ran : Ran p base (items.mapM check) scope (items.flatMap nodes) s last) (i : ι)
    (listed : i ∈ items) : ∃ t, Ran p base (check i) scope (nodes i) t last ∧
      (((items.mapM check).exec scope s).1.all id = true → ((check i).exec scope t).1 = true) := by
  obtain ⟨a, answered, paired⟩ := exists_paired _ (Check.length_mapM scope s check items).symm listed
  obtain ⟨t, made, answer⟩ := ran.mapM each _ paired
  exact ⟨t, made, fun all => answer.trans (List.all_eq_true.1 all a answered)⟩

end Ran

end ClassLang
