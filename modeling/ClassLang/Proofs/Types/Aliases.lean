import ClassLang.Compile
import ClassLang.Proofs.Parsing.Runs
import ClassLang.Proofs.Types.Assignability

/-!
What an alias may be bound to. The target has to agree with the type that the value presents at every
position: with the whole type, and with each element, key, value and argument inside it. That is looser
than equality up to the outermost modifiers, since scalars widen also where an alias is bound.

* `Ty.assignable_iff_positions`: assignability is agreement at every position.
* `alias_iff`: an alias is bound exactly to a place or another alias whose type agrees with its own at
  every position.
* `widenedAliases_bound`: places of narrower scalars are bound, also inside of collections.
-/

namespace ClassLang

namespace Ty

/-! ## Positions -/

/-- The types that stand directly inside a type. -/
def parts : Ty → List Ty
  | array _ elem => [elem]
  | keymap _ key value => [key, value]
  | genericClass _ _ args => args
  | _ => []

/-- The type at the position that a path of indices leads to. -/
def at? (t : Ty) : List Nat → Option Ty
  | [] => some t
  | i :: path => t.parts[i]?.bind fun part => part.at? path

/-- Two collections of one kind, uses of one class or type parameter, or a scalar and one that it widens
to. Modifiers and parts do not count, but a class has equally many arguments. -/
def SameForm : Ty → Ty → Prop
  | primitive _ kind, primitive _ kind' => kind.widensTo kind' = true
  | array .., array .. | keymap .., keymap .. | void _, void _ => True
  | plainClass _ name, plainClass _ name' | param _ name, param _ name' => name = name'
  | genericClass _ name args, genericClass _ name' args' =>
    name = name' ∧ args.length = args'.length
  | _, _ => False

/-- Agreement at one position: the form is the same, and read-only or nullable may be gained. Below null
and undefined values stand types of every form. -/
def AgreesWith : Ty → Ty → Prop
  | null m, target => target = null m ∨ target.isNullable = true
  | undefined m, target => target = undefined m ∨ target.isReference = false
  | source, target => source.mods.fits target.mods = true ∧ source.SameForm target

/-- Agreement at every position. -/
def AgreesThroughout (source target : Ty) : Prop :=
  ∀ (path : List Nat) (part : Ty), source.at? path = some part →
    ∃ part', target.at? path = some part' ∧ part.AgreesWith part'

/-- The type of the literals `null` and `undefined`. -/
def isLiteral : Ty → Bool
  | null _ | undefined _ => true
  | _ => false

theorem sizeOf_parts {s part : Ty} (inside : part ∈ s.parts) : sizeOf part < sizeOf s := by
  cases s with
  | array _ elem =>
    cases List.mem_singleton.1 inside
    simp only [array.sizeOf_spec]
    omega
  | keymap _ key value =>
    simp only [parts, List.mem_cons, List.not_mem_nil, or_false] at inside
    obtain rfl | rfl := inside <;> simp only [keymap.sizeOf_spec] <;> omega
  | genericClass _ name args =>
    have within : sizeOf part < sizeOf args := List.sizeOf_lt_of_mem inside
    simp only [genericClass.sizeOf_spec]
    omega
  | _ => cases inside

theorem assignableAll_iff {ss ts : List Ty} : assignableAll ss ts = true ↔ ss.length = ts.length ∧
    ∀ (i : Nat) (part : Ty), ss[i]? = some part → ∃ part', ts[i]? = some part' ∧ part.assignable part' = true := by
  induction ss generalizing ts with
  | nil => cases ts <;> simp [assignableAll]
  | cons s ss ih =>
    cases ts with
    | nil => simp [assignableAll]
    | cons t ts =>
      simp only [assignableAll, Bool.and_eq_true, ih, List.length_cons, Nat.add_right_cancel_iff]
      constructor
      · rintro ⟨first, count, others⟩
        refine ⟨count, fun i part here => ?_⟩
        cases i with
        | zero =>
          cases here
          exact ⟨t, rfl, first⟩
        | succ i => exact others i part here
      · rintro ⟨count, each⟩
        obtain ⟨t', here, first⟩ := each 0 s rfl
        cases here
        exact ⟨first, count, fun i part here => each (i + 1) part here⟩

/-- Assignability is agreement of the types themselves and assignability of their parts. -/
theorem assignable_iff_parts {s t : Ty} : s.assignable t = true ↔ s.AgreesWith t ∧
    ∀ (i : Nat) (part : Ty), s.parts[i]? = some part →
      ∃ part', t.parts[i]? = some part' ∧ part.assignable part' = true := by
  cases s with
  | null m => simp [assignable_of_null, AgreesWith, parts]
  | undefined m => simp [assignable_of_undefined, AgreesWith, parts]
  | array m elem =>
    cases t with
    | array n elem' =>
      have listed : elem.assignable elem' = assignableAll [elem] [elem'] := by simp [assignableAll]
      simp [assignable, AgreesWith, SameForm, mods, parts, listed, assignableAll_iff]
    | _ => simp [assignable, AgreesWith, SameForm]
  | keymap m key value =>
    cases t with
    | keymap n key' value' =>
      have listed : (key.assignable key' && value.assignable value') =
          assignableAll [key, value] [key', value'] := by simp [assignableAll]
      rw [assignable, Bool.and_assoc, listed]
      simp [AgreesWith, SameForm, mods, parts, assignableAll_iff]
    | _ => simp [assignable, AgreesWith, SameForm]
  | genericClass m name args =>
    cases t with
    | genericClass n name' args' =>
      simp [assignable, AgreesWith, SameForm, mods, parts, assignableAll_iff, and_assoc]
    | _ => simp [assignable, AgreesWith, SameForm]
  | _ => cases t <;> simp [assignable, AgreesWith, SameForm, mods, parts]

/-- The target of an assignable type agrees with it at every position. -/
theorem AgreesThroughout.of_assignable {s t : Ty} (fits : s.assignable t = true) :
    s.AgreesThroughout t := by
  intro path
  induction path generalizing s t with
  | nil =>
    rintro _ ⟨⟩
    exact ⟨t, rfl, (assignable_iff_parts.1 fits).1⟩
  | cons i path ih =>
    intro part found
    obtain ⟨inner, here, below⟩ := Option.bind_eq_some_iff.1 found
    obtain ⟨inner', here', fits⟩ := (assignable_iff_parts.1 fits).2 i inner here
    obtain ⟨part', below', agrees⟩ := ih fits part below
    exact ⟨part', Option.bind_eq_some_iff.2 ⟨inner', here', below'⟩, agrees⟩

theorem AgreesThroughout.part {s t inner : Ty} {i : Nat} (agree : s.AgreesThroughout t)
    (here : s.parts[i]? = some inner) :
    ∃ inner', t.parts[i]? = some inner' ∧ inner.AgreesThroughout inner' := by
  have down {path : List Nat} {part : Ty} (below : inner.at? path = some part) :
      ∃ inner' part', t.parts[i]? = some inner' ∧ inner'.at? path = some part' ∧
        part.AgreesWith part' := by
    obtain ⟨part', found, agrees⟩ :=
      agree (i :: path) part (Option.bind_eq_some_iff.2 ⟨inner, here, below⟩)
    obtain ⟨inner', here', below'⟩ := Option.bind_eq_some_iff.1 found
    exact ⟨inner', part', here', below', agrees⟩
  obtain ⟨inner', _, here', -⟩ := @down [] inner rfl
  refine ⟨inner', here', fun path part below => ?_⟩
  obtain ⟨other, part', there, below', agrees⟩ := down below
  cases here'.symm.trans there
  exact ⟨part', below', agrees⟩

/-- Types that agree at every position are assignable, from the innermost parts outwards. -/
theorem AgreesThroughout.assignable {s t : Ty} (agree : s.AgreesThroughout t) :
    s.assignable t = true := by
  obtain ⟨_, ⟨⟩, outer⟩ := agree [] s rfl
  refine assignable_iff_parts.2 ⟨outer, fun i part here => ?_⟩
  obtain ⟨part', here', inner⟩ := agree.part here
  have smaller : sizeOf part < sizeOf s := sizeOf_parts (List.mem_of_getElem? here)
  exact ⟨part', here', inner.assignable⟩
termination_by sizeOf s

theorem assignable_iff_positions {s t : Ty} : s.assignable t = true ↔ s.AgreesThroughout t :=
  ⟨.of_assignable, AgreesThroughout.assignable⟩

theorem asReference_of_isReference {t : Ty} (alias_ : t.isReference = true) : t.asReference = t := by
  have same : t.mods.asReference = t.mods := by
    rw [Modifiers.asReference, ← alias_]
    rfl
  rw [asReference, same, withMods_mods]

end Ty

/-! ## Aliases -/

variable {target type : Ty} (alias_ : target.isReference = true)
include alias_

/-- An alias is assigned or initialised with places and aliases, whose type has to be assignable. -/
theorem checkStore_reference (name : String) (value : Expr) :
    checkStore .reference target name value type = .ok () ↔
      (value.isPlace = true ∨ type.isReference = true) ∧
        type.asReference.assignable target = true := by
  cases place : value.isPlace with
  | true =>
    cases fits : type.asReference.assignable target <;>
      simp [checkStore, storedType, aliasType?, alias_, place, fits, bind, Except.bind]
  | false =>
    cases bound : type.isReference with
    | true =>
      rw [Ty.asReference_of_isReference bound]
      cases fits : type.assignable target <;>
        simp [checkStore, storedType, aliasType?, alias_, place, bound, fits, bind, Except.bind]
    | false => simp [checkStore, storedType, aliasType?, alias_, place, bound, bind, Except.bind]

/-- Arguments are bound like the values of assignments, but for literals that stand for any type. -/
theorem accepts_reference (plain : type.isLiteral = false) (isPlace : Bool) :
    target.accepts type isPlace = true ↔
      (isPlace = true ∨ type.isReference = true) ∧ type.asReference.assignable target = true := by
  rw [Ty.accepts, if_pos alias_]
  cases isPlace with
  | true => simp
  | false =>
    cases bound : type.isReference with
    | true => simp [Ty.asReference_of_isReference bound]
    | false =>
      simp only [Bool.false_eq_true, if_false, or_self, false_and, iff_false]
      intro fits
      have outer : type.mods.reference = target.mods.reference := by
        cases type with
        | null _ | undefined _ => cases plain
        | _ =>
          obtain ⟨agrees, -⟩ := Ty.assignable_iff_parts.1 fits
          exact Modifiers.reference_of_fits agrees.1
      cases (bound.symm.trans outer).trans alias_

/-- An alias is bound by an assignment, an initialiser, an argument or a result exactly if what it is
bound to is a place or an alias, whose type as an alias agrees with its own at every position. -/
theorem alias_iff (plain : type.isLiteral = false) (name : String) (value : Expr) :
    (checkStore .reference target name value type = .ok () ↔
      (value.isPlace = true ∨ type.isReference = true) ∧ type.asReference.AgreesThroughout target) ∧
    (target.accepts type value.isPlace = true ↔
      (value.isPlace = true ∨ type.isReference = true) ∧
        type.asReference.AgreesThroughout target) := by
  rw [checkStore_reference alias_, accepts_reference alias_ plain, Ty.assignable_iff_positions]
  exact ⟨Iff.rfl, Iff.rfl⟩

omit alias_

/-- An alias of an array that may hold null in it is bound to an array of bytes, but only if that is a
place. -/
theorem alias_iff_elements :
    let bytes : Ty := .array .none (.primitive .none .byte)
    let wide : Ty := .array ⟨true, true, false⟩ (.primitive ⟨false, false, true⟩ .integer)
    (wide.isReference = true ∧ bytes.isLiteral = false) ∧ bytes.asReference.AgreesThroughout wide ∧
      checkStore .reference wide "r" (.ident default ⟨"a", default⟩) bytes = .ok () ∧
      wide.accepts bytes false = false := by
  intro bytes wide
  have alias_ : wide.isReference = true := rfl
  have plain : bytes.isLiteral = false := rfl
  obtain ⟨assigned, passed⟩ := alias_iff alias_ plain "r" (.ident default ⟨"a", default⟩)
  obtain ⟨-, refused⟩ := alias_iff alias_ plain "r" (.list default [])
  have agree : bytes.asReference.AgreesThroughout wide := (passed.1 (by decide)).2
  refine ⟨⟨rfl, rfl⟩, agree, assigned.2 ⟨.inl rfl, agree⟩, Bool.eq_false_iff.2 fun given => ?_⟩
  exact (refused.1 given).1.elim nofun nofun

/-- The types of the aliases that a program declares outside of functions, each with the type of what it
is bound to. -/
def Compilation.aliasTypes (c : Compilation) : List (Ty × Ty) :=
  c.program.statements.filterMap fun
    | .varDecl _ ⟨written, name, some ⟨.reference, value⟩⟩ => do
      let target ← c.findings.typeOf written.id
      let type ← c.findings.typeOf value.id
      guard (checkStore .reference target name.name value type).isOk
      return (target, type)
    | _ => none

/-- Aliases of wider scalars than the places that they are bound to. -/
def widenedAliases : Source :=
  ⟨"byte b; reference integer r = b; array[byte] a; reference array[nullable integer] s = a;", none⟩

/-- Scalars widen where aliases are bound, and inside of collections other modifiers are gained too. -/
theorem widenedAliases_bound :
    let scalar (m : Modifiers) (kind : Primitive) : Ty := .primitive m kind
    let alias_ : Modifiers := ⟨false, true, false⟩
    ∃ c, widenedAliases.compile ⟨true, true⟩ = .ok c ∧ c.errors = [] ∧
      c.aliasTypes = [(scalar alias_ .integer, scalar .none .byte),
        (.array alias_ (scalar ⟨false, false, true⟩ .integer), .array .none (scalar .none .byte))] ∧
      ∀ bound ∈ c.aliasTypes, ∀ m, bound.2.asReference.withMods m ≠ bound.1 := by
  intro scalar alias_
  have run : (widenedAliases.compile ⟨true, true⟩).toOption.map (fun c => (c.errors, c.aliasTypes)) =
      some ([], [(scalar alias_ .integer, scalar .none .byte),
        (.array alias_ (scalar ⟨false, false, true⟩ .integer),
          .array .none (scalar .none .byte))]) := by
    decide +kernel
  obtain ⟨c, compiled, views⟩ := Option.map_eq_some_iff.1 run
  obtain ⟨errors, types⟩ := Prod.mk.inj views
  refine ⟨c, ok_of_toOption compiled, errors, types, ?_⟩
  rw [types]
  simp [scalar, Ty.asReference, Ty.withMods]

end ClassLang
