import ClassLang.Syntax.Program
import Mathlib.Data.List.Count
import Mathlib.Data.List.Nodup
import Mathlib.Data.List.Pairwise

/-!
The nodes of lists of trees, how often a number stands in a list of nodes, and the numbers of a
renumbered tree.
-/

namespace ClassLang

/-! ## Lists of trees -/

theorem TypeRef.nodesAll_eq (ts : List TypeRef) : nodesAll ts = ts.flatMap nodes := by
  induction ts with
  | nil => rfl
  | cons t rest ih => rw [nodesAll, ih, List.flatMap_cons]

theorem TypeRef.nodesAll_append (types more : List TypeRef) :
    nodesAll (types ++ more) = nodesAll types ++ nodesAll more := by
  simp only [nodesAll_eq, List.flatMap_append]

theorem TypeRef.nodesAll_subset {types more : List TypeRef} (sub : types ⊆ more) :
    nodesAll types ⊆ nodesAll more := by
  intro n listed
  rw [nodesAll_eq, List.mem_flatMap] at listed ⊢
  obtain ⟨t, written, below⟩ := listed
  exact ⟨t, sub written, below⟩

theorem TypeRef.nodes_subset_nodesAll {t : TypeRef} {types : List TypeRef} (written : t ∈ types) :
    t.nodes ⊆ nodesAll types := by
  intro n below
  rw [nodesAll_eq, List.mem_flatMap]
  exact ⟨t, written, below⟩

theorem Expr.nodesAll_eq (es : List Expr) : nodesAll es = es.flatMap nodes := by
  induction es with
  | nil => rfl
  | cons e rest ih => rw [nodesAll, ih, List.flatMap_cons]

def KeymapPair.nodes : KeymapPair → List Node
  | mk n key value => n :: (key.nodes ++ value.nodes)

theorem Expr.nodesPairs_eq (pairs : List KeymapPair) :
    nodesPairs pairs = pairs.flatMap KeymapPair.nodes := by
  induction pairs with
  | nil => rfl
  | cons pair rest ih =>
    obtain ⟨n, key, value⟩ := pair
    rw [nodesPairs, ih, List.flatMap_cons, KeymapPair.nodes]

theorem statementNodes_eq (ss : List Statement) :
    statementNodes ss = ss.flatMap Statement.nodes := by
  induction ss with
  | nil => rfl
  | cons s rest ih => rw [statementNodes, ih, List.flatMap_cons]

theorem TypeRef.node_mem_nodes (t : TypeRef) : t.node ∈ t.nodes := by
  cases t <;> simp [node, nodes]

theorem Expr.node_mem_nodes (e : Expr) : e.node ∈ e.nodes := by
  cases e <;> simp [node, nodes]

theorem Statement.nodes_eq (s : Statement) : s.nodes = s.node :: s.nodes.tail := by
  cases s <;> rfl

/-! ## Distinct numbers -/

def Distinct (nodes : List Node) : Prop := (nodes.map Node.id).Nodup

/-- No number of the one list is one of the other. -/
def Apart (xs ys : List Node) : Prop := List.Disjoint (xs.map Node.id) (ys.map Node.id)

theorem Apart.mono {xs xs' ys ys' : List Node} (h : Apart xs' ys') (sub : xs ⊆ xs')
    (sub' : ys ⊆ ys') : Apart xs ys := fun _ mine other =>
  h (List.map_subset _ sub mine) (List.map_subset _ sub' other)

namespace Distinct

variable {n : Node} {xs ys : List Node}

theorem left (h : Distinct (xs ++ ys)) : Distinct xs := by
  unfold Distinct at h
  rw [List.map_append] at h
  exact h.of_append_left

theorem right (h : Distinct (xs ++ ys)) : Distinct ys := by
  unfold Distinct at h
  rw [List.map_append] at h
  exact h.of_append_right

theorem apart (h : Distinct (xs ++ ys)) : Apart xs ys := by
  unfold Distinct at h
  rw [List.map_append] at h
  exact List.disjoint_of_nodup_append h

theorem append (h : Distinct xs) (h' : Distinct ys) (apart : Apart xs ys) : Distinct (xs ++ ys) := by
  unfold Distinct
  rw [List.map_append]
  exact List.nodup_append'.2 ⟨h, h', apart⟩

theorem perm (h : Distinct xs) (same : xs.Perm ys) : Distinct ys :=
  (same.map Node.id).nodup_iff.1 h

theorem below (h : Distinct (n :: xs)) : Distinct xs := (List.nodup_cons.1 h).2

theorem flatMap_iff {items : List α} {view : α → List Node} : Distinct (items.flatMap view) ↔
    (∀ a ∈ items, Distinct (view a)) ∧ items.Pairwise fun a b => Apart (view a) (view b) := by
  unfold Distinct
  rw [List.map_flatMap]
  exact List.nodup_flatMap

theorem of_flatMap {items : List α} {view : α → List Node} (h : Distinct (items.flatMap view))
    {a : α} (listed : a ∈ items) : Distinct (view a) := (flatMap_iff.1 h).1 a listed

theorem flatMap_apart {items : List α} {view : α → List Node} (h : Distinct (items.flatMap view))
    {a b : α} (first : a ∈ items) (second : b ∈ items) (other : a ≠ b) :
    Apart (view a) (view b) := by
  have symmetric : Std.Symm fun a b => Apart (view a) (view b) :=
    ⟨fun _ _ apart _ mine other => apart other mine⟩
  exact (flatMap_iff.1 h).2.forall first second other

end Distinct

/-! ## Copies of a number -/

def copies (i : Nat) (nodes : List Node) : Nat := (nodes.map Node.id).count i

@[simp] theorem copies_nil (i : Nat) : copies i [] = 0 := rfl

@[simp] theorem copies_append (i : Nat) (front back : List Node) :
    copies i (front ++ back) = copies i front + copies i back := by
  simp [copies]

theorem copies_cons (i : Nat) (n : Node) (nodes : List Node) :
    copies i (n :: nodes) = copies i [n] + copies i nodes :=
  copies_append i [n] nodes

theorem copies_flatMap_reverse (i : Nat) (items : List α) (view : α → List Node) :
    copies i (items.reverse.flatMap view) = copies i (items.flatMap view) :=
  (((List.reverse_perm items).flatMap_right view).map Node.id).count_eq i

theorem copies_flatMap_le {α : Type} {i : Nat} {items : List α} {view wider : α → List Node}
    (le : ∀ a ∈ items, copies i (view a) ≤ copies i (wider a)) :
    copies i (items.flatMap view) ≤ copies i (items.flatMap wider) := by
  induction items with
  | nil => exact Nat.le_refl _
  | cons a rest ih =>
    have first := le a (List.mem_cons_self ..)
    have others := ih fun b listed => le b (List.mem_cons_of_mem a listed)
    simp only [List.flatMap_cons, copies_append]
    omega

theorem copies_flatMap_append {α : Type} (i : Nat) (items : List α) (left right : α → List Node) :
    copies i (items.flatMap fun a => left a ++ right a) =
      copies i (items.flatMap left) + copies i (items.flatMap right) := by
  induction items with
  | nil => rfl
  | cons a rest ih =>
    simp only [List.flatMap_cons, copies_append, ih]
    omega

theorem Distinct.of_copies_le {xs ys : List Node} (h : Distinct ys)
    (le : ∀ i, copies i xs ≤ copies i ys) : Distinct xs :=
  List.nodup_iff_count_le_one.2 fun i => Nat.le_trans (le i) (List.nodup_iff_count_le_one.1 h i)

def stillFree (i next : Nat) : Nat := if i < next then 0 else 1

theorem copies_singleton_add (i next : Nat) (span : Span) :
    copies i [⟨next, span⟩] + stillFree i (next + 1) = stillFree i next := by
  by_cases h : next = i
  · subst h
    simp [copies, stillFree]
  · have after : i < next + 1 ↔ i < next := by omega
    simp [copies, stillFree, h, after]

theorem stillFree_le_one (i next : Nat) : stillFree i next ≤ 1 := by
  unfold stillFree
  split <;> omega

/-! ## Copies of trees -/

mutual

theorem TypeRef.copies_renumber (i : Nat) : ∀ (t : TypeRef) (next : Nat),
    copies i (t.renumber next).1.nodes + stillFree i (t.renumber next).2 = stillFree i next
  | .primitive n m kind, next | .named n m name, next | .void n m, next =>
    copies_singleton_add i next n.span
  | .array n m args, next | .keymap n m args, next | .generic n m name args, next => by
    have inner := TypeRef.copies_renumberAll i args (next + 1)
    have outer := copies_singleton_add i next n.span
    simp only [TypeRef.renumber, TypeRef.nodes]
    rw [copies_cons]
    omega

theorem TypeRef.copies_renumberAll (i : Nat) : ∀ (ts : List TypeRef) (next : Nat),
    copies i (TypeRef.nodesAll (TypeRef.renumberAll ts next).1) +
      stillFree i (TypeRef.renumberAll ts next).2 = stillFree i next
  | [], next => by simp [TypeRef.renumberAll, TypeRef.nodesAll]
  | t :: rest, next => by
    have first := TypeRef.copies_renumber i t next
    have others := TypeRef.copies_renumberAll i rest (t.renumber next).2
    simp only [TypeRef.renumberAll, TypeRef.nodesAll, copies_append]
    omega

end

mutual

theorem Expr.copies_renumber (i : Nat) : ∀ (e : Expr) (next : Nat),
    copies i (e.renumber next).1.nodes + stillFree i (e.renumber next).2 = stillFree i next
  | .ident n name, next | .this n, next | .literal n value, next =>
    copies_singleton_add i next n.span
  | .list n elems, next => by
    have inner := Expr.copies_renumberAll i elems (next + 1)
    have outer := copies_singleton_add i next n.span
    simp only [Expr.renumber, Expr.nodes]
    rw [copies_cons]
    omega
  | .keymap n pairs, next => by
    have inner := Expr.copies_renumberPairs i pairs (next + 1)
    have outer := copies_singleton_add i next n.span
    simp only [Expr.renumber, Expr.nodes]
    rw [copies_cons]
    omega
  | .new n type, next => by
    have inner := TypeRef.copies_renumber i type (next + 1)
    have outer := copies_singleton_add i next n.span
    simp only [Expr.renumber, Expr.nodes]
    rw [copies_cons]
    omega
  | .unary n op e, next | .member n e access name, next => by
    have inner := Expr.copies_renumber i e (next + 1)
    have outer := copies_singleton_add i next n.span
    simp only [Expr.renumber, Expr.nodes]
    rw [copies_cons]
    omega
  | .binary n op a b, next | .index n a b, next | .assign n kind a b, next => by
    have left := Expr.copies_renumber i a (next + 1)
    have right := Expr.copies_renumber i b (a.renumber (next + 1)).2
    have outer := copies_singleton_add i next n.span
    simp only [Expr.renumber, Expr.nodes]
    rw [copies_cons, copies_append]
    omega
  | .call n callee args, next => by
    have left := Expr.copies_renumber i callee (next + 1)
    have right := Expr.copies_renumberAll i args (callee.renumber (next + 1)).2
    have outer := copies_singleton_add i next n.span
    simp only [Expr.renumber, Expr.nodes]
    rw [copies_cons, copies_append]
    omega

theorem Expr.copies_renumberAll (i : Nat) : ∀ (es : List Expr) (next : Nat),
    copies i (Expr.nodesAll (Expr.renumberAll es next).1) +
      stillFree i (Expr.renumberAll es next).2 = stillFree i next
  | [], next => by simp [Expr.renumberAll, Expr.nodesAll]
  | e :: rest, next => by
    have first := Expr.copies_renumber i e next
    have others := Expr.copies_renumberAll i rest (e.renumber next).2
    simp only [Expr.renumberAll, Expr.nodesAll, copies_append]
    omega

theorem Expr.copies_renumberPairs (i : Nat) : ∀ (pairs : List KeymapPair) (next : Nat),
    copies i (Expr.nodesPairs (Expr.renumberPairs pairs next).1) +
      stillFree i (Expr.renumberPairs pairs next).2 = stillFree i next
  | [], next => by simp [Expr.renumberPairs, Expr.nodesPairs]
  | .mk n key value :: rest, next => by
    have left := Expr.copies_renumber i key (next + 1)
    have right := Expr.copies_renumber i value (key.renumber (next + 1)).2
    have others := Expr.copies_renumberPairs i rest
      (value.renumber (key.renumber (next + 1)).2).2
    have outer := copies_singleton_add i next n.span
    simp only [Expr.renumberPairs, Expr.nodesPairs, List.cons_append]
    rw [copies_cons, copies_append, copies_append]
    omega

end

end ClassLang
