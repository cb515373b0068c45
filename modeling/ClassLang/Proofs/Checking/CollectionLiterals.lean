import ClassLang.Proofs.Checking.Decoration
import ClassLang.Proofs.Checking.Lookups
import ClassLang.Proofs.Checking.Routines
import ClassLang.Proofs.Types.Widening

/-!
Types of collection literals.

* `Source.collections_typed`: the elements of a typed collection literal fit, and scalar elements of
  any order give the least type that all of them widen to.
-/

namespace ClassLang

variable {p : Program} {f : Findings} {scope : Scope} {s : CheckState} {n : Node}

/-! ## Columns -/

/-- The common type of a column of expressions that have types. -/
structure Findings.Column (f : Findings) (elems : List Expr) (types : List Ty) (common : Ty) :
    Prop where
  typed : List.Forall₂ (fun e type => f.typeOf e.id = some type) elems types
  unified : unify (types.zip (elems.map Expr.span)) = .ok common
  fits : ∀ type ∈ types, type.decay.assignable common = true

theorem Findings.Column.of_unified {elems : List Expr} {types : List Ty} {common : Ty}
    (typed : List.Forall₂ (fun e type => f.typeOf e.id = some type) elems types)
    (unified : unify (types.zip (elems.map Expr.span)) = .ok common) : f.Column elems types common := by
  refine ⟨typed, unified, fun type listed => ?_⟩
  have whole : (types.zip (elems.map Expr.span)).map Prod.fst = types :=
    List.map_fst_zip (by rw [List.length_map, typed.length_eq])
  obtain ⟨e, inside, rfl⟩ := List.mem_map.1 (whole.symm ▸ listed)
  exact unify_fits unified e inside

theorem Findings.Complete.list_typed (complete : f.Complete p) {elems : List Expr} {type : Ty}
    (listed : .list n elems ∈ p.exprs) (known : f.typeOf n.id = some type) :
    ∃ types elem, type = .array .none elem ∧ f.Column elems types elem := by
  have stands := p.expr_stands (Program.mem_exprs.1 listed)
  obtain ⟨_, -, judged⟩ := complete.judged stands (complete.tidy.cached.1 known) fun _ _ => nofun
  generalize f.resolution _ = decl at judged
  cases judged with
  | list typed unified =>
    have typed := typed.imp fun _ _ known => complete.tidy.cached.2 known
    exact ⟨_, _, rfl, .of_unified typed unified⟩

theorem Findings.Complete.keymap_typed (complete : f.Complete p) {pairs : List KeymapPair} {type : Ty}
    (listed : .keymap n pairs ∈ p.exprs) (known : f.typeOf n.id = some type) :
    ∃ keys values key value, type = .keymap .none key value ∧
      f.Column (pairs.map KeymapPair.key) keys key ∧
      f.Column (pairs.map KeymapPair.value) values value := by
  have stands := p.expr_stands (Program.mem_exprs.1 listed)
  obtain ⟨_, -, judged⟩ := complete.judged stands (complete.tidy.cached.1 known) fun _ _ => nofun
  generalize f.resolution _ = decl at judged
  cases judged with
  | @keymap _ _ types key value typed inKeys inValues =>
    refine ⟨types.map Prod.fst, types.map Prod.snd, key, value, rfl, .of_unified ?_ ?_,
      .of_unified ?_ ?_⟩
    · rw [List.forall₂_map_left_iff, List.forall₂_map_right_iff]
      exact typed.imp fun _ _ known => complete.tidy.cached.2 known.1
    · rw [List.map_map]
      exact inKeys
    · rw [List.forall₂_map_left_iff, List.forall₂_map_right_iff]
      exact typed.imp fun _ _ known => complete.tidy.cached.2 known.2.1
    · rw [List.map_map]
      exact inValues

/-! ## Checks of literals -/

theorem exec_recorded (id : Nat) (x : Infer Ty) :
    (Check.exec (recorded id x).run scope s).1 = (Check.exec x.run scope s).1 := rfl

theorem exec_settleBy_bind {α β : Type} {r : Except CheckError α} {next : α → Infer β} {b : β} :
    (Check.exec (settleBy r >>= next).run scope s).1 = .ok b ↔
      ∃ a, r = .ok a ∧ (Check.exec (next a).run scope s).1 = .ok b := by
  cases r with
  | error _ => exact ⟨nofun, nofun⟩
  | ok a => simp [settleBy]

/-- A list literal whose elements have types has a type exactly if these have a common one. -/
theorem exec_list (fresh : s.findings.cached n.id = none) {elems : List Expr} {types : List Ty}
    (checked : ((inferEach elems).exec scope s).1 = types.map .ok) (type : Ty) :
    (Check.exec (Expr.list n elems).infer.run scope s).1 = .ok type ↔
      ∃ elem, unify (types.zip (elems.map Expr.span)) = .ok elem ∧ type = .array .none elem := by
  rw [Expr.infer, exec_remembered_unknown fresh, exec_recorded, listType, Infer.run_lift_bind,
    Check.exec_bind, checked, allResolved_map_ok, Infer.settle_ok_bind, exec_settleBy_bind]
  simp only [Infer.run_pure, Check.exec_pure, Except.ok.injEq, eq_comm (b := type)]

theorem exec_keymap (fresh : s.findings.cached n.id = none) {pairs : List KeymapPair}
    {types : List (Ty × Ty)} (checked : ((inferPairs pairs).exec scope s).1 = types.map .ok)
    (type : Ty) :
    (Check.exec (Expr.keymap n pairs).infer.run scope s).1 = .ok type ↔
      ∃ key value,
        unify ((types.map Prod.fst).zip (pairs.map fun pair => pair.key.span)) = .ok key ∧
        unify ((types.map Prod.snd).zip (pairs.map fun pair => pair.value.span)) = .ok value ∧
        type = .keymap .none key value := by
  rw [Expr.infer, exec_remembered_unknown fresh, exec_recorded, keymapLiteralType,
    Infer.run_lift_bind, Check.exec_bind, checked, mapM_id_map_ok, Infer.settle_ok_bind,
    exec_settleBy_bind]
  simp only [exec_settleBy_bind, Infer.run_pure, Check.exec_pure, Except.ok.injEq,
    eq_comm (b := type), exists_and_left]

/-- The elements of a list literal that has a type fit the type that is found for them, and so do the
keys and the values of a keymap literal. Where elements have types, the literal has one exactly if each
column of them has a common one. That of equally nullable scalar types is the least type that all of them
widen to, in whichever order they stand. -/
theorem Source.collections_typed {source : Source} {p : Program} (settings : Settings)
    (parsed : source.parse Parser.program = .ok p) {f : Findings}
    (final : (p.analyze settings).state.findings = f) :
    ((∀ n elems type, .list n elems ∈ p.exprs → f.typeOf n.id = some type →
        ∃ types elem, type = .array .none elem ∧ f.Column elems types elem) ∧
      ∀ n pairs type, .keymap n pairs ∈ p.exprs → f.typeOf n.id = some type →
        ∃ keys values key value, type = .keymap .none key value ∧
          f.Column (pairs.map KeymapPair.key) keys key ∧
          f.Column (pairs.map KeymapPair.value) values value) ∧
    (∀ scope s n, s.findings.cached n.id = none →
      (∀ elems (types : List Ty), ((inferEach elems).exec scope s).1 = types.map .ok → ∀ type,
        (Check.exec (Expr.list n elems).infer.run scope s).1 = .ok type ↔
          ∃ elem, unify (types.zip (elems.map Expr.span)) = .ok elem ∧ type = .array .none elem) ∧
      ∀ pairs (types : List (Ty × Ty)), ((inferPairs pairs).exec scope s).1 = types.map .ok → ∀ type,
        (Check.exec (Expr.keymap n pairs).infer.run scope s).1 = .ok type ↔
          ∃ key value,
            unify ((types.map Prod.fst).zip (pairs.map fun pair => pair.key.span)) = .ok key ∧
            unify ((types.map Prod.snd).zip (pairs.map fun pair => pair.value.span)) = .ok value ∧
            type = .keymap .none key value) ∧
    ∀ nullable (elems : List (Ty × Span)), (∀ e ∈ elems, e.1.IsScalar nullable) →
      (∀ elems' : List (Ty × Span), (elems.map Prod.fst).Perm (elems'.map Prod.fst) →
        ∀ t, unify elems = .ok t ↔ unify elems' = .ok t) ∧
      (elems ≠ [] → ∀ t, unify elems = .ok t ↔
        ∃ top, Primitive.Joins (elems.filterMap fun e => e.1.primitive?) top ∧
          t = .primitive ⟨false, false, nullable⟩ top) := by
  have complete := p.analyze_complete settings (source.parse_program_nodup parsed)
  rw [final] at complete
  refine ⟨⟨fun n elems type => complete.list_typed, fun n pairs type => complete.keymap_typed⟩,
    fun scope s n fresh => ⟨fun elems types => exec_list fresh, fun pairs types => exec_keymap fresh⟩,
    fun nullable elems scalars => ⟨fun elems' perm => unify_perm perm scalars,
      fun filled => unify_scalars filled scalars⟩⟩

def Expr.isList : Expr → Bool
  | .list .. => true
  | _ => false

def Expr.isKeymap : Expr → Bool
  | .keymap .. => true
  | _ => false

/-- A list of whole numbers with a fraction among them, and a keymap. -/
def mixedNumbers : Source :=
  ⟨"array[float] xs := [1, 2.5, 3]; keymap[integer, float] halves := \x7b1: 0.5\x7d;", none⟩

theorem mixedNumbers_typed : ∃ p f, mixedNumbers.parse Parser.program = .ok p ∧
    (p.analyze ⟨true, true⟩).state.findings = f ∧
    let integer : Ty := .primitive .none .integer
    let float : Ty := .primitive .none .float
    (∃ n elems types, .list n elems ∈ p.exprs ∧ f.typeOf n.id = some (.array .none float) ∧
      f.Column elems types float) ∧
    (∃ n pairs keys values, .keymap n pairs ∈ p.exprs ∧
      f.typeOf n.id = some (.keymap .none integer float) ∧
      f.Column (pairs.map KeymapPair.key) keys integer ∧
      f.Column (pairs.map KeymapPair.value) values float) ∧
    ∀ a b : Span, unify [(float, a), (integer, b)] = .ok float := by
  let integer : Ty := .primitive .none .integer
  let float : Ty := .primitive .none .float
  have run : (mixedNumbers.parse Parser.program).toOption.map (fun p =>
      let f := (p.analyze ⟨true, true⟩).state.findings
      (p.exprs.any fun e => e.isList && f.typeOf e.id == some (.array .none float),
        p.exprs.any fun e => e.isKeymap && f.typeOf e.id == some (.keymap .none integer float))) =
      some (true, true) := by
    decide +kernel
  obtain ⟨p, parsed, views⟩ := Option.map_eq_some_iff.1 run
  simp only [Prod.mk.injEq, List.any_eq_true, Bool.and_eq_true] at views
  obtain ⟨⟨e, listed, isList, typed⟩, e', listed', isKeymap, typed'⟩ := views
  have parsed := ok_of_toOption parsed
  obtain ⟨⟨lists, keymaps⟩, -, scalar⟩ := Source.collections_typed ⟨true, true⟩ parsed rfl
  refine ⟨p, _, parsed, rfl, ?_, ?_, fun a b => ?_⟩
  · cases e with
    | list n elems =>
      have typed := eq_of_beq typed
      obtain ⟨types, elem, same, column⟩ := lists n elems _ listed typed
      cases same
      exact ⟨n, elems, types, listed, typed, column⟩
    | _ => cases isList
  · cases e' with
    | keymap n pairs =>
      have typed := eq_of_beq typed'
      obtain ⟨keys, values, key, value, same, inKeys, inValues⟩ := keymaps n pairs _ listed' typed
      cases same
      exact ⟨n, pairs, keys, values, listed', typed, inKeys, inValues⟩
    | _ => cases isKeymap
  · have scalars : ∀ e ∈ [(integer, b), (float, a)], e.1.IsScalar false := by
      simp [Ty.IsScalar, integer, float, Ty.primitive?, Ty.isNullable, Ty.mods, Modifiers.none]
    exact ((scalar false _ scalars).1 [(float, a), (integer, b)] (List.Perm.swap ..) float).1 rfl

end ClassLang
