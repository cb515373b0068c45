import ClassLang.Checking.Findings
import ClassLang.Proofs.Types.Composition
import Mathlib.Data.List.Chain

/-!
Ancestors. As long as a class is linked once, and only to a class that will not be linked later, the
walk up its superclasses ends, and an ancestor of an ancestor is an ancestor.
-/

namespace ClassLang

def Ancestor.under (a : Ancestor) (args : Substitution) : Ancestor := ⟨a.index, a.args.andThen args⟩

/-- The classes that links lead to, the latest link first: a link can only lead to earlier ones. -/
def lineOf : List (Nat × SuperclassLink) → Nat → List Ancestor
  | [], _ => []
  | (j, link) :: earlier, i =>
    if i = j then
      ⟨link.superclass, link.args⟩ :: (lineOf earlier link.superclass).map (·.under link.args)
    else lineOf earlier i

/-- Links, the latest first. -/
inductive Chained : List (Nat × SuperclassLink) → Prop
  | nil : Chained []
  | cons {i : Nat} {link : SuperclassLink} {earlier : List (Nat × SuperclassLink)} :
    Chained earlier → link.superclass ≠ i →
      (∀ entry ∈ earlier, entry.1 ≠ i ∧ entry.2.superclass ≠ i) → Chained ((i, link) :: earlier)

variable {links earlier : List (Nat × SuperclassLink)} {i j : Nat} {link : SuperclassLink}

theorem lineOf_other (other : i ≠ j) : lineOf ((j, link) :: earlier) i = lineOf earlier i :=
  if_neg other

theorem lineOf_linked : lineOf ((i, link) :: earlier) i =
    ⟨link.superclass, link.args⟩ :: (lineOf earlier link.superclass).map (·.under link.args) :=
  if_pos rfl

theorem lineOf_links {a : Ancestor} (listed : a ∈ lineOf links i) :
    ∃ entry ∈ links, entry.2.superclass = a.index := by
  induction links generalizing i a with
  | nil => cases listed
  | cons first earlier ih =>
    obtain ⟨j, link⟩ := first
    by_cases same : i = j
    · subst same
      rw [lineOf_linked] at listed
      rcases List.mem_cons.1 listed with rfl | above
      · exact ⟨(i, link), List.mem_cons_self .., rfl⟩
      · obtain ⟨b, further, rfl⟩ := List.mem_map.1 above
        obtain ⟨entry, known, leads⟩ := ih further
        exact ⟨entry, List.mem_cons_of_mem _ known, leads⟩
    · rw [lineOf_other same] at listed
      obtain ⟨entry, known, leads⟩ := ih listed
      exact ⟨entry, List.mem_cons_of_mem _ known, leads⟩

theorem length_lineOf (links : List (Nat × SuperclassLink)) (i : Nat) :
    (lineOf links i).length ≤ links.length := by
  induction links generalizing i with
  | nil => exact Nat.le_refl 0
  | cons first earlier ih =>
    obtain ⟨j, link⟩ := first
    by_cases same : i = j
    · subst same
      rw [lineOf_linked, List.length_cons, List.length_map, List.length_cons]
      exact Nat.succ_le_succ (ih _)
    · rw [lineOf_other same, List.length_cons]
      exact Nat.le_succ_of_le (ih i)

namespace Chained

/-- No class is its own ancestor. -/
theorem index_ne (h : Chained links) {a : Ancestor} (listed : a ∈ lineOf links i) : a.index ≠ i := by
  induction h generalizing i a with
  | nil => cases listed
  | @cons j link earlier _ apart later ih =>
    by_cases same : i = j
    · subst same
      rw [lineOf_linked] at listed
      rcases List.mem_cons.1 listed with rfl | above
      · exact apart
      · obtain ⟨b, further, rfl⟩ := List.mem_map.1 above
        obtain ⟨entry, known, leads⟩ := lineOf_links further
        exact fun same => (later entry known).2 (leads.trans same)
    · rw [lineOf_other same] at listed
      exact ih listed

theorem trans (h : Chained links) {a b : Ancestor} (first : a ∈ lineOf links i)
    (second : b ∈ lineOf links a.index) : b.under a.args ∈ lineOf links i := by
  induction h generalizing i a b with
  | nil => cases first
  | @cons j link earlier _ apart later ih =>
    by_cases same : i = j
    · subst same
      rw [lineOf_linked] at first ⊢
      rcases List.mem_cons.1 first with rfl | above
      · rw [lineOf_other apart] at second
        exact List.mem_cons_of_mem _ (List.mem_map_of_mem second)
      · obtain ⟨c, listed, rfl⟩ := List.mem_map.1 above
        obtain ⟨entry, known, leads⟩ := lineOf_links listed
        have below : c.index ≠ i := leads ▸ (later entry known).2
        rw [Ancestor.under, lineOf_other below] at second
        have both := List.mem_map_of_mem (f := (·.under link.args)) (ih listed second)
        refine List.mem_cons_of_mem _ ?_
        simpa only [Ancestor.under, Substitution.andThen_assoc] using both
    · rw [lineOf_other same] at first ⊢
      obtain ⟨entry, known, leads⟩ := lineOf_links first
      rw [lineOf_other (leads ▸ (later entry known).2)] at second
      exact ih first second

/-- The line of a class goes on as the line of its superclass. -/
theorem lineOf_eq (h : Chained links) (i : Nat) : lineOf links i =
    match links.lookup i with
    | none => []
    | some link =>
      ⟨link.superclass, link.args⟩ :: (lineOf links link.superclass).map (·.under link.args) := by
  induction h generalizing i with
  | nil => rfl
  | @cons j link earlier _ apart later ih =>
    by_cases same : i = j
    · subst same
      rw [lineOf_linked, List.lookup_cons_self]
      dsimp only
      rw [lineOf_other apart]
    · have differ : (i == j) = false := beq_false_of_ne same
      rw [lineOf_other same, ih, List.lookup_cons, differ]
      dsimp only
      cases found : earlier.lookup i with
      | none => rfl
      | some link =>
        have known : (i, link) ∈ earlier := by
          obtain ⟨_, _, split_, _⟩ := List.lookup_eq_some_iff.1 found
          simp [split_]
        dsimp only
        rw [lineOf_other (later _ known).2]

theorem nodup_lineOf (h : Chained links) (i : Nat) :
    ((lineOf links i).map Ancestor.index).Nodup := by
  induction h generalizing i with
  | nil => exact List.nodup_nil
  | @cons j link earlier before _ _ ih =>
    by_cases same : i = j
    · subst same
      rw [lineOf_linked, List.map_cons, List.map_map, List.nodup_cons]
      refine ⟨fun again => ?_, ih link.superclass⟩
      obtain ⟨a, listed, same⟩ := List.mem_map.1 again
      exact before.index_ne listed same
    · rw [lineOf_other same]
      exact ih i

end Chained

/-! ## The walk -/

namespace Findings

variable {f g : Findings}

theorem ancestorsAbove_congr (links : g.superclasses = f.superclasses) (bound : Nat) (seen : List Nat)
    (last : Ancestor) : g.ancestorsAbove bound seen last = f.ancestorsAbove bound seen last := by
  induction bound generalizing seen last with
  | zero => rfl
  | succ bound ih =>
    unfold ancestorsAbove superclass?
    simp only [links, ih]

theorem ancestors_congr (links : g.superclasses = f.superclasses) (i : Nat) :
    g.ancestors i = f.ancestors i := by
  rw [ancestors, ancestors, ancestorsAbove_congr links, links]

theorem ancestorsAbove_eq (h : Chained f.superclasses.bindings) (bound : Nat) (seen : List Nat)
    (last : Ancestor) (enough : (lineOf f.superclasses.bindings last.index).length ≤ bound)
    (unseen : ∀ a ∈ lineOf f.superclasses.bindings last.index, a.index ∉ seen) :
    f.ancestorsAbove bound seen last =
      (lineOf f.superclasses.bindings last.index).map (·.under last.args) := by
  induction bound generalizing seen last with
  | zero =>
    rw [List.length_eq_zero_iff.1 (Nat.le_zero.1 enough)]
    rfl
  | succ bound ih =>
    rw [h.lineOf_eq] at enough unseen ⊢
    unfold ancestorsAbove superclass? Table.get?
    cases found : f.superclasses.bindings.lookup last.index with
    | none => rfl
    | some link =>
      rw [found] at enough unseen
      dsimp only at enough unseen ⊢
      have fresh : seen.contains link.superclass = false := by
        simpa using unseen _ (List.mem_cons_self ..)
      rw [fresh, if_neg Bool.false_ne_true, ih]
      · simp only [List.map_cons, List.map_map, Ancestor.under]
        congr 1
        refine List.map_congr_left fun a _ => ?_
        simp only [Function.comp_apply, Substitution.andThen_assoc]
      · simpa using enough
      · intro a listed mem
        rcases List.mem_cons.1 mem with same | old
        · exact h.index_ne listed same
        · refine unseen (a.under link.args) (List.mem_cons_of_mem _ (List.mem_map_of_mem listed)) old

theorem ancestors_eq (h : Chained f.superclasses.bindings) (i : Nat) :
    f.ancestors i = lineOf f.superclasses.bindings i := by
  rw [ancestors, ancestorsAbove_eq h _ _ _ (length_lineOf _ _) fun a listed => ?_]
  · simp only [Ancestor.under, Substitution.andThen_empty, List.map_id']
  · simpa using h.index_ne listed

/-- A class of a chain and the classes above it there. -/
def lineFrom (f : Findings) (last : Ancestor) : List Ancestor :=
  last :: (lineOf f.superclasses.bindings last.index).map (·.under last.args)

section Chained

variable (h : Chained f.superclasses.bindings)
include h

theorem chain_eq (i : Nat) : f.chain i = f.lineFrom ⟨i, .empty⟩ := by
  rw [chain, ancestors_eq h, lineFrom]
  simp only [Ancestor.under, Substitution.andThen_empty, List.map_id']

theorem lineFrom_unlinked {last : Ancestor} (none : f.superclass? last.index = none) :
    f.lineFrom last = [last] := by
  have unlinked : f.superclasses.bindings.lookup last.index = .none := none
  rw [lineFrom, h.lineOf_eq, unlinked]
  rfl

theorem lineFrom_linked {last : Ancestor} {link : SuperclassLink}
    (linked : f.superclass? last.index = some link) :
    f.lineFrom last = last :: f.lineFrom ⟨link.superclass, link.args.andThen last.args⟩ := by
  have found : f.superclasses.bindings.lookup last.index = some link := linked
  rw [lineFrom, h.lineOf_eq, found]
  simp only [lineFrom, List.map_cons, List.map_map, Function.comp_def, Ancestor.under,
    Substitution.andThen_assoc]

/-- What holds of the last class of each line, and of a class if it holds of the one above it, holds of
all. -/
theorem line_induction {motive : Ancestor → Prop}
    (highest : ∀ last, f.superclass? last.index = none → motive last)
    (below : ∀ last link, f.superclass? last.index = some link →
      motive ⟨link.superclass, link.args.andThen last.args⟩ → motive last)
    (last : Ancestor) : motive last := by
  generalize length : (f.lineFrom last).length = n
  induction n generalizing last with
  | zero => cases length
  | succ n ih =>
    cases linked : f.superclass? last.index with
    | none => exact highest last linked
    | some link =>
      refine below last link linked (ih _ ?_)
      rw [lineFrom_linked h linked] at length
      exact Nat.succ.inj length

end Chained

/-- One class stands directly above another in a chain. -/
def Above (f : Findings) (a b : Ancestor) : Prop :=
  ∃ link, f.superclass? a.index = some link ∧ b = ⟨link.superclass, link.args.andThen a.args⟩

/-- Each class of a chain is linked to the next one. -/
theorem chain_above (h : Chained f.superclasses.bindings) (i : Nat) :
    List.IsChain f.Above (f.chain i) := by
  rw [chain_eq h]
  generalize Ancestor.mk i .empty = last
  induction last using line_induction h with
  | highest last none =>
    rw [lineFrom_unlinked h none]
    exact List.isChain_singleton _
  | below last link linked next =>
    rw [lineFrom_linked h linked]
    exact List.isChain_cons_cons.2 ⟨⟨link, linked, rfl⟩, next⟩

/-- The last class of a chain is linked to none. -/
theorem chain_ends (h : Chained f.superclasses.bindings) (i : Nat) {top : Ancestor}
    (highest : (f.chain i).getLast? = some top) : f.superclass? top.index = none := by
  rw [chain_eq h] at highest
  generalize Ancestor.mk i .empty = last at highest
  induction last using line_induction h with
  | highest last none =>
    rw [lineFrom_unlinked h none] at highest
    cases highest
    exact none
  | below last link linked next =>
    rw [lineFrom_linked h linked, lineFrom, List.getLast?_cons_cons] at highest
    exact next highest

/-- No class is listed twice in a chain. -/
theorem chain_nodup (h : Chained f.superclasses.bindings) (i : Nat) :
    ((f.chain i).map Ancestor.index).Nodup := by
  rw [chain, ancestors_eq h, List.map_cons, List.nodup_cons]
  refine ⟨fun again => ?_, h.nodup_lineOf i⟩
  obtain ⟨a, listed, same⟩ := List.mem_map.1 again
  exact h.index_ne listed same

end Findings

end ClassLang
