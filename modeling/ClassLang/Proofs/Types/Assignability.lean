import ClassLang.Proofs.Types.Constness

/-!
Assignability as an order. A type is assignable only to types of its own form, so the order is that of
modifiers and scalar types, taken part by part. The types of the literals `null` and `undefined` are
below types of other forms; in the middle they would make the relation intransitive.

* `Ty.assignable_partial_order`: assignability is a partial order on the types of variables and fields.
-/

namespace ClassLang

namespace Ty

variable {m : Modifiers} {t : Ty}

/-! ## Types of one form -/

theorem assignable_of_null : (null m).assignable t = true ↔ t = null m ∨ t.isNullable = true := by
  cases t <;> simp [assignable]

theorem assignable_of_undefined :
    (undefined m).assignable t = true ↔ t = undefined m ∨ t.isReference = false := by
  cases t <;> simp [assignable]

theorem assignable_of_primitive {kind : Primitive} : (primitive m kind).assignable t = true ↔
    ∃ n kind', t = primitive n kind' ∧ m.fits n = true ∧ kind.widensTo kind' = true := by
  cases t <;> grind [assignable]

theorem assignable_of_array {elem : Ty} : (array m elem).assignable t = true ↔
    ∃ n elem', t = array n elem' ∧ m.fits n = true ∧ elem.assignable elem' = true := by
  cases t <;> grind [assignable]

theorem assignable_of_keymap {key value : Ty} : (keymap m key value).assignable t = true ↔
    ∃ n key' value', t = keymap n key' value' ∧ m.fits n = true ∧ key.assignable key' = true ∧
      value.assignable value' = true := by
  cases t <;> grind [assignable]

theorem assignable_of_plainClass {name : String} : (plainClass m name).assignable t = true ↔
    ∃ n, t = plainClass n name ∧ m.fits n = true := by
  cases t <;> grind [assignable]

theorem assignable_of_genericClass {name : String} {args : List Ty} :
    (genericClass m name args).assignable t = true ↔
      ∃ n args', t = genericClass n name args' ∧ m.fits n = true ∧ assignableAll args args' = true := by
  cases t <;> grind [assignable]

theorem assignable_of_param {name : String} : (param m name).assignable t = true ↔
    ∃ n, t = param n name ∧ m.fits n = true := by
  cases t <;> grind [assignable]

theorem assignable_of_void : (void m).assignable t = true ↔ ∃ n, t = void n ∧ m.fits n = true := by
  cases t <;> grind [assignable]

/-! ## Order -/

mutual

/-- A type between two others passes assignability on, part by part. -/
theorem assignable_trans {b c : Ty} (plain : b.Declarable) :
    ∀ {a : Ty}, a.assignable b = true → b.assignable c = true → a.assignable c = true
  | null m, ab, bc => by
    rcases assignable_of_null.1 ab with rfl | nullable
    · exact plain.elim
    · have fits := plain.fits_of_assignable bc
      exact assignable_of_null.2 (.inr (Modifiers.nullable_of_fits fits nullable))
  | undefined m, ab, bc => by
    rcases assignable_of_undefined.1 ab with rfl | copied
    · exact plain.elim
    · have fits := plain.fits_of_assignable bc
      exact assignable_of_undefined.2 (.inr ((Modifiers.reference_of_fits fits).symm.trans copied))
  | primitive m kind, ab, bc => by
    obtain ⟨n, _, rfl, first, widens⟩ := assignable_of_primitive.1 ab
    obtain ⟨k, _, rfl, second, further⟩ := assignable_of_primitive.1 bc
    exact assignable_of_primitive.2
      ⟨k, _, rfl, Modifiers.fits_trans first second, Primitive.widensTo_trans widens further⟩
  | array m elem, ab, bc => by
    obtain ⟨n, elem', rfl, first, inner⟩ := assignable_of_array.1 ab
    obtain ⟨k, elem'', rfl, second, inner'⟩ := assignable_of_array.1 bc
    have elems := assignable_trans (b := elem') plain inner inner'
    exact assignable_of_array.2 ⟨k, elem'', rfl, Modifiers.fits_trans first second, elems⟩
  | keymap m key value, ab, bc => by
    obtain ⟨n, key', value', rfl, first, inKey, inValue⟩ := assignable_of_keymap.1 ab
    obtain ⟨k, key'', value'', rfl, second, inKey', inValue'⟩ := assignable_of_keymap.1 bc
    have keys := assignable_trans plain.1 inKey inKey'
    have values := assignable_trans plain.2 inValue inValue'
    exact assignable_of_keymap.2
      ⟨k, key'', value'', rfl, Modifiers.fits_trans first second, keys, values⟩
  | plainClass m name, ab, bc => by
    obtain ⟨n, rfl, first⟩ := assignable_of_plainClass.1 ab
    obtain ⟨k, rfl, second⟩ := assignable_of_plainClass.1 bc
    exact assignable_of_plainClass.2 ⟨k, rfl, Modifiers.fits_trans first second⟩
  | genericClass m name args, ab, bc => by
    obtain ⟨n, args', rfl, first, inner⟩ := assignable_of_genericClass.1 ab
    obtain ⟨k, args'', rfl, second, inner'⟩ := assignable_of_genericClass.1 bc
    have all : assignableAll args args'' = true := assignableAll_trans plain inner inner'
    exact assignable_of_genericClass.2 ⟨k, args'', rfl, Modifiers.fits_trans first second, all⟩
  | param m name, ab, bc => by
    obtain ⟨n, rfl, first⟩ := assignable_of_param.1 ab
    obtain ⟨k, rfl, second⟩ := assignable_of_param.1 bc
    exact assignable_of_param.2 ⟨k, rfl, Modifiers.fits_trans first second⟩
  | void m, ab, bc => by
    obtain ⟨n, rfl, first⟩ := assignable_of_void.1 ab
    obtain ⟨k, rfl, second⟩ := assignable_of_void.1 bc
    exact assignable_of_void.2 ⟨k, rfl, Modifiers.fits_trans first second⟩

theorem assignableAll_trans {bs cs : List Ty} (plain : DeclarableAll bs) :
    ∀ {as : List Ty}, assignableAll as bs = true → assignableAll bs cs = true →
      assignableAll as cs = true
  | [], ab, bc => by
    cases bs with
    | nil => exact bc
    | cons b bs => simp [assignableAll] at ab
  | a :: as, ab, bc => by
    cases bs with
    | nil => simp [assignableAll] at ab
    | cons b bs =>
      cases cs with
      | nil => simp [assignableAll] at bc
      | cons c cs =>
        simp only [assignableAll, Bool.and_eq_true] at ab bc ⊢
        exact ⟨assignable_trans plain.1 ab.1 bc.1, assignableAll_trans plain.2 ab.2 bc.2⟩

end

mutual

theorem assignable_antisymm {b : Ty} :
    ∀ {a : Ty}, a.Declarable → a.assignable b = true → b.assignable a = true → a = b
  | null _, plain, _, _ | undefined _, plain, _, _ => plain.elim
  | primitive m kind, _, ab, ba => by
    obtain ⟨n, kind', rfl, up, widens⟩ := assignable_of_primitive.1 ab
    obtain ⟨_, _, same, down, widens'⟩ := assignable_of_primitive.1 ba
    cases same
    rw [Modifiers.fits_antisymm up down, Primitive.widensTo_antisymm widens widens']
  | array m elem, plain, ab, ba => by
    obtain ⟨n, elem', rfl, up, inner⟩ := assignable_of_array.1 ab
    obtain ⟨_, _, same, down, inner'⟩ := assignable_of_array.1 ba
    cases same
    rw [Modifiers.fits_antisymm up down, assignable_antisymm (a := elem) plain inner inner']
  | keymap m key value, plain, ab, ba => by
    obtain ⟨n, key', value', rfl, up, inKey, inValue⟩ := assignable_of_keymap.1 ab
    obtain ⟨_, _, _, same, down, inKey', inValue'⟩ := assignable_of_keymap.1 ba
    cases same
    rw [Modifiers.fits_antisymm up down, assignable_antisymm plain.1 inKey inKey',
      assignable_antisymm plain.2 inValue inValue']
  | plainClass m name, _, ab, ba => by
    obtain ⟨n, rfl, up⟩ := assignable_of_plainClass.1 ab
    obtain ⟨_, same, down⟩ := assignable_of_plainClass.1 ba
    cases same
    rw [Modifiers.fits_antisymm up down]
  | genericClass m name args, plain, ab, ba => by
    obtain ⟨n, args', rfl, up, inner⟩ := assignable_of_genericClass.1 ab
    obtain ⟨_, _, same, down, inner'⟩ := assignable_of_genericClass.1 ba
    cases same
    have all : args = args' := assignableAll_antisymm plain inner inner'
    rw [Modifiers.fits_antisymm up down, all]
  | param m name, _, ab, ba => by
    obtain ⟨n, rfl, up⟩ := assignable_of_param.1 ab
    obtain ⟨_, same, down⟩ := assignable_of_param.1 ba
    cases same
    rw [Modifiers.fits_antisymm up down]
  | void m, _, ab, ba => by
    obtain ⟨n, rfl, up⟩ := assignable_of_void.1 ab
    obtain ⟨_, same, down⟩ := assignable_of_void.1 ba
    cases same
    rw [Modifiers.fits_antisymm up down]

theorem assignableAll_antisymm {bs : List Ty} :
    ∀ {as : List Ty}, DeclarableAll as → assignableAll as bs = true →
      assignableAll bs as = true → as = bs
  | [], _, ab, _ => by
    cases bs with
    | nil => rfl
    | cons b bs => simp [assignableAll] at ab
  | a :: as, plain, ab, ba => by
    cases bs with
    | nil => simp [assignableAll] at ab
    | cons b bs =>
      simp only [assignableAll, Bool.and_eq_true] at ab ba
      rw [assignable_antisymm plain.1 ab.1 ba.1, assignableAll_antisymm plain.2 ab.2 ba.2]

end

/-- Assignability is a partial order where the types of `null` and `undefined` do not occur; one of
them may be at the lower end, and the upper end may be any type. -/
theorem assignable_partial_order (a b c : Ty) :
    a.assignable a = true ∧
    (b.Declarable → a.assignable b = true → b.assignable c = true → a.assignable c = true) ∧
    (a.Declarable → b.Declarable → a.assignable b = true → b.assignable a = true → a = b) :=
  ⟨assignable_refl a, fun between => assignable_trans between,
    fun plain _ => assignable_antisymm plain⟩

/-- `array[nullable integer]` stands between `array[short]` and `const array[nullable double]`, and is
the type of its copies. -/
theorem assignable_partial_order_array :
    let short := array .none (primitive .none .short)
    let integer := array .none (primitive ⟨false, false, true⟩ .integer)
    let double := array ⟨true, false, false⟩ (primitive ⟨false, false, true⟩ .double)
    short.assignable double = true ∧ integer.decay = integer := by
  intro short integer double
  obtain ⟨-, between, -⟩ := assignable_partial_order short integer double
  obtain ⟨-, -, same⟩ := assignable_partial_order integer.decay integer double
  exact ⟨between trivial (by decide) (by decide),
    same trivial trivial (by decide) (by decide)⟩

end Ty

end ClassLang
