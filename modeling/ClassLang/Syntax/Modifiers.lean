/-!
The modifiers of a type, ordered by what they add.
-/

namespace ClassLang

/-- What is said of a type beside its base: read-only, an alias of a place, may hold null. -/
structure Modifiers where
  const : Bool
  reference : Bool
  nullable : Bool
deriving DecidableEq, Repr, Inhabited

namespace Modifiers

/-- No modifier. -/
def none : Modifiers := ⟨false, false, false⟩

/-- The modifiers of either side. -/
def union (a b : Modifiers) : Modifiers :=
  ⟨a.const || b.const, a.reference || b.reference, a.nullable || b.nullable⟩

/-- Those of a fresh copy: it has a place of its own and may be written. -/
def decay (m : Modifiers) : Modifiers := { m with const := false, reference := false }

/-- Those of an alias of the place. -/
def asReference (m : Modifiers) : Modifiers := { m with reference := true }

/-- Const and nullable may be gained but not lost, and an alias stays an alias. -/
def fits (source target : Modifiers) : Bool :=
  (!source.const || target.const) && (!source.nullable || target.nullable) &&
    source.reference == target.reference

/-- The modifiers as written in front of a type, each followed by a blank. -/
def text (m : Modifiers) : String :=
  (if m.const then "const " else "") ++ (if m.reference then "reference " else "") ++
    (if m.nullable then "nullable " else "")

@[simp] theorem union_none (m : Modifiers) : m.union none = m := by
  simp [union, none]

@[simp] theorem none_union (m : Modifiers) : none.union m = m := by
  simp [union, none]

theorem union_assoc (a b c : Modifiers) : (a.union b).union c = a.union (b.union c) := by
  simp [union, Bool.or_assoc]

theorem fits_refl (m : Modifiers) : m.fits m = true := by
  obtain ⟨c, r, n⟩ := m
  cases c <;> cases r <;> cases n <;> rfl

theorem fits_trans {a b c : Modifiers} (hab : a.fits b = true) (hbc : b.fits c = true) :
    a.fits c = true := by
  simp only [fits, Bool.and_eq_true, Bool.or_eq_true, beq_iff_eq] at *
  grind

theorem fits_antisymm {a b : Modifiers} (hab : a.fits b = true) (hba : b.fits a = true) :
    a = b := by
  obtain ⟨c, r, n⟩ := a
  obtain ⟨c', r', n'⟩ := b
  revert hab hba
  cases c <;> cases r <;> cases n <;> cases c' <;> cases r' <;> cases n' <;> decide

theorem nullable_of_fits {a b : Modifiers} (fits : a.fits b = true) (nullable : a.nullable = true) :
    b.nullable = true := by
  simp_all [Modifiers.fits]

theorem reference_of_fits {a b : Modifiers} (fits : a.fits b = true) : a.reference = b.reference := by
  simp_all [Modifiers.fits]

end Modifiers

end ClassLang
