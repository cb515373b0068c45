import ClassLang.Checking.Literals
import ClassLang.Proofs.Types.Assignability

/-!
The common type of the elements of a collection. Where scalar types have a common one it is their
join; other types have to fit what came before, and never change it.

* `unify_fits`: the elements of a collection fit their common type.
* `unify_scalars`: the common type of equally nullable scalar types is the least that they widen to.
-/

namespace ClassLang

namespace Primitive

/-- The common type of two scalar types is their join. -/
theorem common_widensTo {a b c : Primitive} (joined : common a b = some c) (d : Primitive) :
    c.widensTo d = true ↔ a.widensTo d = true ∧ b.widensTo d = true := by
  have table : ∀ a ∈ all, ∀ b ∈ all, ∀ c ∈ (common a b).toList, ∀ d ∈ all,
      c.widensTo d = true ↔ a.widensTo d = true ∧ b.widensTo d = true := by decide +kernel
  exact table a a.mem_all b b.mem_all c (Option.mem_toList.2 joined) d d.mem_all

/-- The narrowest scalar type that some scalar types widen to. -/
structure Joins (kinds : List Primitive) (top : Primitive) : Prop where
  above : ∀ kind ∈ kinds, kind.widensTo top = true
  least : ∀ other, (∀ kind ∈ kinds, kind.widensTo other = true) → top.widensTo other = true

namespace Joins

variable {kinds kinds' : List Primitive} {a b c top : Primitive}

theorem iff_upper : Joins kinds top ↔
    ∀ other, top.widensTo other = true ↔ ∀ kind ∈ kinds, kind.widensTo other = true := by
  constructor
  · exact fun join other =>
      ⟨fun wide kind listed => widensTo_trans (join.above kind listed) wide, join.least other⟩
  · exact fun upper => ⟨(upper top).1 top.widensTo_refl, fun other => (upper other).2⟩

theorem congr (same : ∀ kind, kind ∈ kinds ↔ kind ∈ kinds') : Joins kinds top ↔ Joins kinds' top := by
  simp only [iff_upper, same]

theorem singleton_iff : Joins [a] top ↔ top = a := by
  refine ⟨fun join => ?_, ?_⟩
  · have above := join.above a (List.mem_singleton_self a)
    have least := join.least a (List.forall_mem_singleton.2 a.widensTo_refl)
    exact widensTo_antisymm least above
  · rintro rfl
    simp [iff_upper]

theorem cons_cons_iff (joined : common a b = some c) :
    Joins (a :: b :: kinds) top ↔ Joins (c :: kinds) top := by
  simp only [iff_upper, List.forall_mem_cons, common_widensTo joined, and_assoc]

theorem common_isSome (join : Joins kinds top) (left : a ∈ kinds) (right : b ∈ kinds) :
    (common a b).isSome = true :=
  common_isSome_iff.2 ⟨top, top.mem_all, join.above a left, join.above b right⟩

end Joins

end Primitive

/-! ## Elements of any types -/

theorem Ty.widened?_primitive (m : Modifiers) (k l : Primitive) :
    (primitive m k).widened? (primitive m l) = (k.common l).map (primitive m) := by
  cases joined : k.common l <;> simp [widened?, primitive?, mods, joined, guard]

theorem Ty.widened?_some {a b wider : Ty} (widened : a.widened? b = some wider) :
    ∃ m k l kind, a = primitive m k ∧ b = primitive m l ∧ k.common l = some kind ∧
      wider = primitive m kind := by
  cases a with
  | primitive m k =>
    cases b with
    | primitive n l =>
      have same : n = m := by
        by_contra other
        simp [widened?, mods, other, guard] at widened
      subst same
      rw [widened?_primitive] at widened
      obtain ⟨kind, joined, rfl⟩ := Option.map_eq_some_iff.1 widened
      exact ⟨n, k, l, kind, rfl, rfl, joined, rfl⟩
    | _ => simp [widened?, primitive?] at widened
  | _ => simp [widened?, primitive?] at widened

theorem unifyFrom_fits {common t : Ty} {elems : List (Ty × Span)}
    (unified : unifyFrom common elems = .ok t) :
    (∀ a : Ty, a.assignable common = true → a.assignable t = true) ∧
      ∀ e ∈ elems, e.1.decay.assignable t = true := by
  induction elems generalizing common with
  | nil =>
    cases unified
    exact ⟨fun _ => id, fun _ => nofun⟩
  | cons e rest ih =>
    rw [unifyFrom] at unified
    split at unified
    next wider widened =>
      obtain ⟨m, k, l, kind, rfl, decayed, joined, rfl⟩ := Ty.widened?_some widened
      obtain ⟨passes, others⟩ := ih unified
      obtain ⟨left, right⟩ := (Primitive.common_widensTo joined kind).1 kind.widensTo_refl
      have fits (k' : Primitive) (wide : k'.widensTo kind = true) :
          (Ty.primitive m k').assignable (.primitive m kind) = true :=
        Ty.assignable_of_primitive.2 ⟨m, kind, rfl, m.fits_refl, wide⟩
      have plain : (Ty.primitive m k).Declarable := trivial
      refine ⟨fun a below => passes a (Ty.assignable_trans plain below (fits k left)), ?_⟩
      exact List.forall_mem_cons.2 ⟨passes _ (decayed ▸ fits l right), others⟩
    next =>
      split at unified
      next fits =>
        obtain ⟨passes, others⟩ := ih unified
        exact ⟨passes, List.forall_mem_cons.2 ⟨passes _ fits, others⟩⟩
      next => cases unified

/-- Every element of a collection fits the common type of all of them. -/
theorem unify_fits {elems : List (Ty × Span)} {t : Ty} (unified : unify elems = .ok t) :
    ∀ e ∈ elems, e.1.decay.assignable t = true := by
  cases elems with
  | nil => exact fun _ => nofun
  | cons e rest =>
    obtain ⟨passes, others⟩ := unifyFrom_fits unified
    exact List.forall_mem_cons.2 ⟨passes _ e.1.decay.assignable_refl, others⟩

/-! ## Scalar elements -/

/-- A scalar type that holds null, or does not. -/
def Ty.IsScalar (nullable : Bool) (t : Ty) : Prop := t.primitive?.isSome = true ∧ t.isNullable = nullable

theorem Ty.IsScalar.decay_eq {nullable : Bool} {t : Ty} (scalar : t.IsScalar nullable) :
    ∃ kind, t.primitive? = some kind ∧ t.decay = .primitive ⟨false, false, nullable⟩ kind := by
  obtain ⟨known, rfl⟩ := scalar
  cases t with
  | primitive m kind => exact ⟨kind, rfl, rfl⟩
  | _ => cases known

theorem unifyFrom_scalars {nullable : Bool} {kind : Primitive} {elems : List (Ty × Span)}
    (scalars : ∀ e ∈ elems, e.1.IsScalar nullable) (t : Ty) :
    unifyFrom (.primitive ⟨false, false, nullable⟩ kind) elems = .ok t ↔
      ∃ top, Primitive.Joins (kind :: elems.filterMap fun e => e.1.primitive?) top ∧
        t = .primitive ⟨false, false, nullable⟩ top := by
  induction elems generalizing kind with
  | nil => simp [unifyFrom, Primitive.Joins.singleton_iff, eq_comm]
  | cons e rest ih =>
    obtain ⟨first, others⟩ := List.forall_mem_cons.1 scalars
    obtain ⟨kind', known, decayed⟩ := first.decay_eq
    have kinds : (e :: rest).filterMap (fun e => e.1.primitive?) =
        kind' :: rest.filterMap fun e => e.1.primitive? := List.filterMap_cons_some known
    rw [unifyFrom, decayed, Ty.widened?_primitive, kinds]
    cases joined : kind.common kind' with
    | some wider => simp only [Option.map_some, ih others, Primitive.Joins.cons_cons_iff joined]
    | none =>
      have apart : kind'.widensTo kind = false := by
        simp [Primitive.widensTo, Primitive.common_comm kind' kind, joined]
      simp only [Option.map_none, Ty.assignable, apart, Bool.and_false, Bool.false_eq_true, if_false,
        reduceCtorEq, false_iff, not_exists, not_and]
      intro top join
      have some_ := join.common_isSome (a := kind) (b := kind') (by simp) (by simp)
      simp [joined] at some_

/-- The common type of equally nullable scalar types is the least one that all of them widen to. There
is none exactly where they widen to no type. -/
theorem unify_scalars {nullable : Bool} {elems : List (Ty × Span)} (filled : elems ≠ [])
    (scalars : ∀ e ∈ elems, e.1.IsScalar nullable) (t : Ty) :
    unify elems = .ok t ↔ ∃ top, Primitive.Joins (elems.filterMap fun e => e.1.primitive?) top ∧
      t = .primitive ⟨false, false, nullable⟩ top := by
  cases elems with
  | nil => exact absurd rfl filled
  | cons e rest =>
    obtain ⟨first, others⟩ := List.forall_mem_cons.1 scalars
    obtain ⟨kind, known, decayed⟩ := first.decay_eq
    have kinds : (e :: rest).filterMap (fun e => e.1.primitive?) =
        kind :: rest.filterMap fun e => e.1.primitive? := List.filterMap_cons_some known
    rw [unify, decayed, unifyFrom_scalars others, kinds]

/-- The order of equally nullable scalar types does not matter to their common type. -/
theorem unify_perm {nullable : Bool} {elems elems' : List (Ty × Span)}
    (perm : (elems.map Prod.fst).Perm (elems'.map Prod.fst))
    (scalars : ∀ e ∈ elems, e.1.IsScalar nullable) (t : Ty) :
    unify elems = .ok t ↔ unify elems' = .ok t := by
  have types (elems : List (Ty × Span)) : elems.filterMap (fun e => e.1.primitive?) =
      (elems.map Prod.fst).filterMap Ty.primitive? := by
    rw [List.filterMap_map]
    rfl
  have scalars' : ∀ e ∈ elems', e.1.IsScalar nullable := by
    intro e listed
    obtain ⟨e', listed', same⟩ := List.mem_map.1 (perm.mem_iff.2 (List.mem_map_of_mem listed))
    exact same ▸ scalars e' listed'
  by_cases filled : elems = []
  · subst filled
    have empty : elems' = [] := by simpa using perm.symm
    rw [empty]
  · have filled' : elems' ≠ [] := by
      rintro rfl
      exact filled (by simpa using perm)
    rw [unify_scalars filled scalars, unify_scalars filled' scalars', types, types]
    simp only [Primitive.Joins.congr fun _ => (perm.filterMap Ty.primitive?).mem_iff]

end ClassLang
