/-!
Finite maps, written as lists of bindings. The latest binding of a key counts.

* `Table.get?_insert`: what an insertion does to look-ups.
-/

namespace ClassLang

/-- Values under keys. -/
structure Table (α : Type) (β : Type) where
  bindings : List (α × β)
deriving Repr, Inhabited

namespace Table

variable {α β : Type} [BEq α]

/-- Nothing bound. -/
def empty : Table α β := ⟨[]⟩

/-- The value under a key. -/
def get? (t : Table α β) (key : α) : Option β := t.bindings.lookup key

/-- Binds a key anew. -/
def insert (t : Table α β) (key : α) (value : β) : Table α β := ⟨(key, value) :: t.bindings⟩

@[simp] theorem get?_empty (key : α) : (empty : Table α β).get? key = none := rfl

theorem get?_insert [LawfulBEq α] [DecidableEq α] (t : Table α β) (key other : α) (value : β) :
    (t.insert key value).get? other = if other = key then some value else t.get? other := by
  by_cases h : other = key
  · subst h; simp [get?, insert]
  · have differ : (other == key) = false := by simpa using h
    simp [get?, insert, List.lookup_cons, differ, h]

end Table

end ClassLang
