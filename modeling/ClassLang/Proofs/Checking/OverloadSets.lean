import ClassLang.Proofs.Checking.DeclarationParallels
import Mathlib.Data.List.Perm.Basic

/-!
Declarations that share a name. The check takes them apart by signature and reports all but the first of
each part; taken together, that is one report for each declaration with the signature of an earlier one.
It numbers them in the order in which they are declared.

* `Overloads.faults_perm`: what is reported of overloads.
* `Overloads.apart_of`: where nothing is reported, they differ.
-/

namespace ClassLang

/-! ## Groups -/

section Groups

variable {α κ : Type} [BEq κ] [LawfulBEq κ]

theorem nodup_eraseDups [BEq α] [LawfulBEq α] (items : List α) : items.eraseDups.Nodup := by
  match items with
  | [] => exact List.nodup_nil
  | a :: rest =>
    rw [List.eraseDups_cons, List.nodup_cons]
    refine ⟨?_, nodup_eraseDups _⟩
    simp [List.mem_eraseDups]
termination_by items.length
decreasing_by simpa using Nat.lt_succ_of_le (List.length_filter_le _ rest)

/-- Items that are sorted into groups by a key stay the same items. -/
theorem groups_perm (key : α → κ) {keys : List κ} (nodup : keys.Nodup) {items : List α}
    (covered : ∀ a ∈ items, key a ∈ keys) :
    (keys.flatMap fun k => items.filter fun a => key a == k).Perm items := by
  induction keys generalizing items with
  | nil =>
    cases items with
    | nil => exact .refl _
    | cons a rest => exact absurd (covered a (List.mem_cons_self ..)) List.not_mem_nil
  | cons k rest ih =>
    obtain ⟨new, nodup⟩ := List.nodup_cons.1 nodup
    have others : (rest.flatMap fun k' => (items.filter fun a => !(key a == k)).filter
        fun a => key a == k').Perm (items.filter fun a => !(key a == k)) := ih nodup fun a listed => by
      obtain ⟨listed, other⟩ := List.mem_filter.1 listed
      refine (List.mem_cons.1 (covered a listed)).resolve_left fun same => ?_
      simp [same] at other
    have same : (rest.flatMap fun k' => items.filter fun a => key a == k') =
        rest.flatMap fun k' => (items.filter fun a => !(key a == k)).filter fun a => key a == k' := by
      refine List.flatMap_congr fun k' listed => ?_
      rw [List.filter_filter]
      refine List.filter_congr fun a _ => ?_
      by_cases here : key a = k'
      · have apart : key a ≠ k := fun same => new (same ▸ here ▸ listed)
        simp [here, here ▸ apart]
      · simp [here]
    rw [List.flatMap_cons, same]
    exact (others.append_left _).trans (List.filter_append_perm _ items)

/-- Of the items that pass a test, all but the first have one before them. -/
theorem drop_one_filter_zipIdx (test : α → Bool) (items : List α) :
    (items.zipIdx.filter fun m => test m.1).drop 1 =
      items.zipIdx.filter fun m => test m.1 && (items.take m.2).any test := by
  induction items using List.reverseRecOn with
  | nil => rfl
  | append_singleton items a ih =>
    have before : (items.zipIdx.filter fun m => test m.1 && ((items ++ [a]).take m.2).any test) =
        (items.zipIdx.filter fun m => test m.1).drop 1 := by
      rw [ih]
      refine List.filter_congr fun m listed => ?_
      have below := (List.mem_zipIdx' listed).1
      rw [List.take_append_of_le_length (Nat.le_of_lt below)]
    have last : (items ++ [a]).take items.length = items := by simp
    rw [List.zipIdx_append, List.filter_append, List.filter_append, before]
    simp only [Nat.zero_add, List.zipIdx_singleton, List.filter_cons, List.filter_nil, last]
    by_cases none_ : items.any test = true
    · have some_ : 1 ≤ (items.zipIdx.filter fun m => test m.1).length := by
        obtain ⟨b, listed, passes⟩ := List.any_eq_true.1 none_
        obtain ⟨i, here⟩ := List.mem_iff_getElem?.1 listed
        exact List.length_pos_of_mem (List.mem_filter.2
          ⟨show (b, i) ∈ _ from List.mem_zipIdx_iff_getElem?.2 here, passes⟩)
      rw [List.drop_append_of_le_length some_]
      simp [none_]
    · have empty : (items.zipIdx.filter fun m => test m.1) = [] := by
        refine List.filter_eq_nil_iff.2 fun m listed passes => none_ ?_
        exact List.any_eq_true.2 ⟨m.1, List.fst_mem_of_mem_zipIdx listed, passes⟩
      rw [empty]
      cases test a <;> simp [none_]

end Groups

/-! ## Numbers -/

/-- A declaration that is only given one number has it. -/
theorem Findings.overloadIndex_numberAll (f : Findings) {numbers : List (Decl × Nat)} {decl : Decl}
    {k : Nat} (given : (decl, k) ∈ numbers) (only : ∀ j, (decl, j) ∈ numbers → j = k) :
    (f.numberAll numbers).overloadIndex decl = some k := by
  induction numbers using List.reverseRecOn with
  | nil => cases given
  | append_singleton numbers last ih =>
    rw [numberAll, List.foldl_append, List.foldl_cons, List.foldl_nil, overloadIndex, setOverloadIndex,
      Table.get?_insert]
    split
    · rename_i same
      rw [only last.2 (List.mem_append_right _ (by simp [same]))]
    · rename_i other
      refine ih ?_ fun j earlier => only j (List.mem_append_left _ earlier)
      refine (List.mem_append.1 given).resolve_right fun here => other ?_
      exact congrArg Prod.fst (List.mem_singleton.1 here)

/-! ## Declarations that share names -/

/-- Declarations that may share names: the functions, or the methods of a class. -/
structure Overloads (α : Type) where
  items : List α
  name : α → Ident
  params : α → List Param
  /-- The declaration at a position. -/
  decl : Nat → Decl
  /-- What a name is shown as. -/
  title : String → String

def Program.functionOverloads (p : Program) : Overloads Function where
  items := p.functions
  name := Function.name
  params := Function.params
  decl := .function
  title name := ((p.function? name).map Function.title).getD name

def Program.methodOverloads (p : Program) (owner : Nat) : Overloads Method where
  items := (p.classAt owner).methods
  name := Method.name
  params := Method.params
  decl := .method owner
  title := (p.classAt owner).memberTitle

namespace Overloads

variable {α : Type} (o : Overloads α) (f : Findings)

/-- The parameter types of a declaration, if all are sound. -/
def types? (a : α) : Option (List Ty) := f.paramTypes? (o.params a)

/-- The declarations of a name, with their positions. -/
def named (name : String) : List (α × Nat) :=
  o.items.zipIdx.filter fun m => (o.name m.1).name == name

/-- Whether the parameter types of a declaration are sound, and strictly equal to those of an earlier one
of its name. -/
def repeats (m : α × Nat) : Bool :=
  (o.types? f m.1).isSome && (o.items.take m.2).any fun a =>
    (o.name a).name == (o.name m.1).name && o.types? f a == o.types? f m.1

/-- One error for each declaration that repeats an earlier one. -/
def duplicates : List CheckError :=
  (o.items.zipIdx.filter (o.repeats f)).map fun m =>
    ⟨(o.name m.1).span, .duplicateOverload (o.title (o.name m.1).name) ((o.types? f m.1).getD [])⟩

/-- The numbers of the declarations of a name are 0, 1, and so on, as they are declared. -/
def Numbered : Prop := ∀ name, ((o.named name).map fun m => f.overloadIndex (o.decl m.2)) =
  (List.range (o.named name).length).map some

/-- No two declarations of a name have the same parameter types or the same number. -/
def Apart : Prop := ∀ i j a b, i < j → o.items[i]? = some a → o.items[j]? = some b →
  (o.name a).name = (o.name b).name → ∃ types types', o.types? f a = some types ∧
    o.types? f b = some types' ∧ types ≠ types' ∧
      f.overloadIndex (o.decl i) ≠ f.overloadIndex (o.decl j)

/-- The names in the order in which they come up first. -/
def names : List String := (o.items.map fun a => (o.name a).name).eraseDups

/-- The overload sets. -/
def sets : List OverloadSet := o.names.map fun name =>
  ⟨o.title name, (o.named name).map fun m => ⟨o.decl m.2, o.types? f m.1, (o.name m.1).span⟩⟩

def numbers : List (Decl × Nat) := o.names.flatMap fun name =>
  (o.named name).zipIdx.map fun m => (o.decl m.1.2, m.2)

variable {o f}

theorem mem_named {m : α × Nat} {name : String} :
    m ∈ o.named name ↔ o.items[m.2]? = some m.1 ∧ (o.name m.1).name = name := by
  rw [named, List.mem_filter, beq_iff_eq, List.mem_zipIdx_iff_getElem?]

theorem named_nodup (name : String) : (o.named name).Nodup :=
  List.Nodup.filter _ (List.Nodup.of_map Prod.snd (by
    rw [List.zipIdx_map_snd]
    exact List.nodup_range'))

theorem mem_names {m : α × Nat} {name : String} (listed : m ∈ o.named name) : name ∈ o.names := by
  obtain ⟨here, named⟩ := mem_named.1 listed
  exact List.mem_eraseDups.2 (List.mem_map.2 ⟨m.1, List.mem_of_getElem? here, named⟩)

/-! ### Reports -/

/-- All but the first of the declarations with a name and a signature repeat it. -/
theorem drop_one_named (name : String) (types : List Ty) :
    ((o.named name).filter fun m => o.types? f m.1 == some types).drop 1 =
      ((o.items.zipIdx.filter (o.repeats f)).filter fun m => (o.name m.1).name == name).filter
        fun m => o.types? f m.1 == some types := by
  have whole := drop_one_filter_zipIdx
    (fun a => o.types? f a == some types && (o.name a).name == name) o.items
  rw [named, List.filter_filter, whole, List.filter_filter, List.filter_filter]
  refine List.filter_congr fun m _ => ?_
  by_cases typed : o.types? f m.1 = some types
  · by_cases here : (o.name m.1).name = name
    · simp [repeats, typed, here, Bool.and_comm]
    · simp [beq_false_of_ne here]
  · simp [beq_false_of_ne typed]

/-- What is said of a declaration that repeats an earlier one. -/
theorem faults_eq (name : String) :
    OverloadSet.faults ⟨o.title name, (o.named name).map fun m =>
      ⟨o.decl m.2, o.types? f m.1, (o.name m.1).span⟩⟩ =
      ((((o.named name).filterMap fun m => o.types? f m.1).eraseDups.map some).flatMap fun types? =>
        ((o.items.zipIdx.filter (o.repeats f)).filter fun m => (o.name m.1).name == name).filter
          fun m => o.types? f m.1 == types?).map fun m => ⟨(o.name m.1).span,
            .duplicateOverload (o.title (o.name m.1).name) ((o.types? f m.1).getD [])⟩ := by
  unfold OverloadSet.faults
  dsimp only
  rw [List.filterMap_map, List.flatMap_map, List.map_flatMap]
  refine List.flatMap_congr fun types _ => ?_
  rw [List.filter_map, ← List.map_drop, List.map_map]
  have same := o.drop_one_named (f := f) name types
  simp only [Function.comp_def] at same ⊢
  rw [same]
  refine List.map_congr_left fun m listed => ?_
  obtain ⟨listed, typed⟩ := List.mem_filter.1 listed
  rw [beq_iff_eq.1 typed, beq_iff_eq.1 (List.mem_filter.1 listed).2]
  rfl

/-- Each declaration that repeats an earlier one is reported once, and no other is. -/
theorem faults_perm : ((o.sets f).flatMap OverloadSet.faults).Perm (o.duplicates f) := by
  rw [sets, List.flatMap_map]
  simp only [faults_eq]
  rw [← List.map_flatMap, duplicates]
  refine List.Perm.map _ (.trans (List.Perm.flatMap_left _ fun name _ => ?_)
    (groups_perm (fun m : α × Nat => (o.name m.1).name) (nodup_eraseDups _) fun m listed => ?_))
  · refine groups_perm (fun m : α × Nat => o.types? f m.1)
      ((nodup_eraseDups _).map fun _ _ => Option.some.inj) fun m listed => ?_
    obtain ⟨listed, here⟩ := List.mem_filter.1 listed
    obtain ⟨listed, repeated⟩ := List.mem_filter.1 listed
    obtain ⟨types, typed⟩ := Option.isSome_iff_exists.1 (Bool.and_eq_true_iff.1 repeated).1
    refine List.mem_map.2 ⟨types, List.mem_eraseDups.2 (List.mem_filterMap.2 ⟨m, ?_, typed⟩),
      typed.symm⟩
    exact List.mem_filter.2 ⟨listed, here⟩
  · refine mem_names (m := m) (mem_named.2 ⟨?_, rfl⟩)
    exact List.mem_zipIdx_iff_getElem?.1 (List.mem_filter.1 listed).1

/-! ### Numbers -/

theorem flatMap_numbers (o : Overloads α) (f : Findings) :
    (o.sets f).flatMap OverloadSet.numbers = o.numbers := by
  rw [sets, List.flatMap_map, numbers]
  simp only [OverloadSet.numbers, List.zipIdx_map, List.map_map]
  rfl

theorem mem_numbers {decl : Decl} {k : Nat} :
    (decl, k) ∈ o.numbers ↔ ∃ name m, (o.named name)[k]? = some m ∧ o.decl m.2 = decl := by
  constructor
  · intro listed
    obtain ⟨name, _, listed⟩ := List.mem_flatMap.1 listed
    obtain ⟨⟨m, _⟩, numbered, same⟩ := List.mem_map.1 listed
    cases same
    exact ⟨name, m, List.mem_zipIdx_iff_getElem?.1 numbered, rfl⟩
  · rintro ⟨name, m, here, rfl⟩
    refine List.mem_flatMap.2 ⟨name, mem_names (List.mem_of_getElem? here), ?_⟩
    exact List.mem_map.2 ⟨(m, k), List.mem_zipIdx_iff_getElem?.2 here, rfl⟩

/-- Each declaration has one place among those of its name. -/
theorem numbers_unique (injective : Function.Injective o.decl) {decl : Decl} {j k : Nat}
    (first : (decl, j) ∈ o.numbers) (second : (decl, k) ∈ o.numbers) : j = k := by
  obtain ⟨name, m, here, rfl⟩ := mem_numbers.1 first
  obtain ⟨name', m', here', same⟩ := mem_numbers.1 second
  obtain ⟨declared, named⟩ := mem_named.1 (List.mem_of_getElem? here)
  obtain ⟨declared', named'⟩ := mem_named.1 (List.mem_of_getElem? here')
  rw [injective same, declared] at declared'
  have item : m' = m := Prod.ext (Option.some.inj declared').symm (injective same)
  rw [item] at here' named'
  rw [← named', named] at here'
  exact (List.getElem?_inj (List.getElem?_eq_some_iff.1 here).1 (named_nodup name)).1
    (here.trans here'.symm)

theorem numbered_of (given : ∀ decl k, (decl, k) ∈ o.numbers → f.overloadIndex decl = some k) :
    o.Numbered f := by
  intro name
  refine List.ext_getElem? fun k => ?_
  rw [List.getElem?_map, List.getElem?_map]
  cases here : (o.named name)[k]? with
  | none =>
    rw [List.getElem?_eq_none (by simpa using List.getElem?_eq_none_iff.1 here)]
    rfl
  | some m =>
    rw [List.getElem?_range (List.getElem?_eq_some_iff.1 here).1, Option.map_some, Option.map_some,
      given _ k (mem_numbers.2 ⟨name, m, here, rfl⟩)]

/-- Where nothing is repeated, declarations of one name differ in their parameter types; and so they do in
their numbers. -/
theorem apart_of (numbered : o.Numbered f) (none_ : o.duplicates f = [])
    (typed : ∀ a ∈ o.items, (o.types? f a).isSome = true) : o.Apart f := by
  intro i j a b before here there same
  obtain ⟨types, known⟩ := Option.isSome_iff_exists.1 (typed a (List.mem_of_getElem? here))
  obtain ⟨types', known'⟩ := Option.isSome_iff_exists.1 (typed b (List.mem_of_getElem? there))
  refine ⟨types, types', known, known', ?_, ?_⟩
  · rintro rfl
    refine List.filter_eq_nil_iff.1 (List.map_eq_nil_iff.1 none_) (b, j)
      (List.mem_zipIdx_iff_getElem?.2 there) ?_
    refine Bool.and_eq_true_iff.2 ⟨by rw [known']; rfl, List.any_eq_true.2 ⟨a, ?_, ?_⟩⟩
    · exact List.mem_of_getElem? ((List.getElem?_take_of_lt before).trans here)
    · simp [same, known, known']
  · obtain ⟨k, first⟩ := List.mem_iff_getElem?.1 (mem_named (m := (a, i)).2 ⟨here, rfl⟩)
    obtain ⟨l, second⟩ := List.mem_iff_getElem?.1 (mem_named (m := (b, j)).2 ⟨there, same.symm⟩)
    have index {m : α × Nat} {k : Nat} (at_ : (o.named (o.name a).name)[k]? = some m) :
        f.overloadIndex (o.decl m.2) = some k := by
      have all := congrArg (·[k]?) (numbered (o.name a).name)
      simp only [List.getElem?_map, at_, Option.map_some,
        List.getElem?_range (List.getElem?_eq_some_iff.1 at_).1] at all
      exact Option.some.inj all
    rw [index first, index second]
    intro equal
    cases equal
    cases first.symm.trans second
    exact Nat.lt_irrefl _ before

end Overloads

/-! ## Sets of a program -/

section Sets

variable (p : Program) (f : Findings)

theorem head?_filter_zipIdx {α : Type} (test : α → Bool) (items : List α) :
    (items.zipIdx.filter fun m => test m.1).head?.map Prod.fst = items.find? test := by
  have firsts : (items.zipIdx.filter fun m => test m.1).map Prod.fst = items.filter test := by
    have mapped := List.filter_map (f := Prod.fst) (p := test) (l := items.zipIdx)
    rw [List.zipIdx_map_fst] at mapped
    exact mapped.symm
  rw [← List.head?_map, firsts, List.head?_filter]

theorem Program.functionSets_eq : p.functionSets f = p.functionOverloads.sets f := by
  unfold functionSets functionGroups Overloads.sets
  rw [List.map_map]
  refine List.map_congr_left fun name _ => ?_
  have members : p.functionsNamed name = (p.functionOverloads.named name).map Prod.snd := rfl
  have item {m : Function × Nat} (listed : m ∈ p.functionOverloads.named name) :
      p.functionAt m.2 = m.1 := by
    have here : p.functions[m.2]? = some m.1 := (Overloads.mem_named.1 listed).1
    rw [functionAt, List.getD_eq_getElem?_getD, here]
    rfl
  have title : ((p.functionsNamed name).head?.map fun i => (p.functionAt i).title) =
      (p.function? name).map Function.title := by
    rw [function?, ← head?_filter_zipIdx, members, List.head?_map, Option.map_map, Option.map_map]
    cases first : (p.functionOverloads.named name).head? with
    | none =>
      have first : (p.functions.zipIdx.filter fun m => m.1.name.name == name).head? = none := first
      rw [first]
      rfl
    | some m =>
      have first' : (p.functions.zipIdx.filter fun m => m.1.name.name == name).head? = some m := first
      rw [first']
      exact congrArg (some ∘ Function.title) (item (List.mem_of_mem_head? first))
  simp only [Function.comp_def]
  rw [title, members, List.map_map]
  congr 1
  refine List.map_congr_left fun m listed => ?_
  simp only [Function.comp_def, item listed]
  rfl

/-- The numbers that all declarations of a program are given. -/
def Program.overloadNumbers : List (Decl × Nat) :=
  p.functionOverloads.numbers ++ p.classIndices.flatMap fun i => (p.methodOverloads i).numbers

theorem Program.overloadNumbers_unique {decl : Decl} {j k : Nat}
    (first : (decl, j) ∈ p.overloadNumbers) (second : (decl, k) ∈ p.overloadNumbers) : j = k := by
  have ofMethod {k : Nat} (given : (decl, k) ∈ p.classIndices.flatMap fun i =>
      (p.methodOverloads i).numbers) : ∃ owner index, decl = .method owner index ∧
        (decl, k) ∈ (p.methodOverloads owner).numbers := by
    obtain ⟨owner, _, given⟩ := List.mem_flatMap.1 given
    obtain ⟨_, m, _, same⟩ := Overloads.mem_numbers.1 given
    exact ⟨owner, m.2, same.symm, given⟩
  have ofFunction {k : Nat} (given : (decl, k) ∈ p.functionOverloads.numbers) :
      ∃ index, decl = .function index := by
    obtain ⟨_, m, _, same⟩ := Overloads.mem_numbers.1 given
    exact ⟨m.2, same.symm⟩
  rcases List.mem_append.1 first with first | first <;>
    rcases List.mem_append.1 second with second | second
  · exact Overloads.numbers_unique (fun _ _ => Decl.function.inj) first second
  · obtain ⟨_, rfl⟩ := ofFunction first
    obtain ⟨_, _, same, _⟩ := ofMethod second
    cases same
  · obtain ⟨_, rfl⟩ := ofFunction second
    obtain ⟨_, _, same, _⟩ := ofMethod first
    cases same
  · obtain ⟨owner, _, rfl, first⟩ := ofMethod first
    obtain ⟨_, _, same, second⟩ := ofMethod second
    cases same
    exact Overloads.numbers_unique (fun _ _ same => (Decl.method.inj same).2) first second

end Sets

end ClassLang
