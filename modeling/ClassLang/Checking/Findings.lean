import ClassLang.Checking.Declaration
import ClassLang.Table
import ClassLang.Types.Environment

/-!
What checking finds out about a program: about its nodes, by number, and about its declarations.

* `Findings.validity_setValid`: the first verdict on a node stays.
* `Findings.cached_record`: a node that had no verdict keeps the result recorded for it.
* `Findings.usage_use`: each use counts once, for its own declaration.
-/

namespace ClassLang

/-- How far the superclasses of a class have been examined. -/
inductive InheritanceMark where
  | unvisited
  | inProgress
  | done (valid : Bool)
deriving DecidableEq, Repr

/-- A superclass, and what stands for its type parameters. -/
structure SuperclassLink where
  superclass : Nat
  args : Substitution
deriving Repr, Inhabited

/-- A class among the ancestors of another, and what stands for its type parameters there. -/
structure Ancestor where
  index : Nat
  args : Substitution
deriving Repr, Inhabited

/-- What has been found out so far. -/
structure Findings where
  validities : Table Nat Bool
  types : Table Nat Ty
  failures : List Nat
  resolutions : Table Nat Decl
  /-- Whether a written name denotes a type parameter. -/
  aliases : Table Nat Bool
  usages : Table Decl Nat
  /-- Positions among the declarations of one name. -/
  overloads : Table Decl Nat
  instances : Table String (List (List Ty))
  marks : Table Nat InheritanceMark
  superclasses : Table Nat SuperclassLink
deriving Repr, Inhabited

namespace Findings

/-- Nothing found out. -/
def empty : Findings :=
  ⟨.empty, .empty, [], .empty, .empty, .empty, .empty, .empty, .empty, .empty⟩

/-! ## Nodes -/

/-- The verdict on a node, if there is one. -/
def validity (f : Findings) (id : Nat) : Option Bool := f.validities.get? id

/-- Sets the verdict on a node unless there is one. -/
def setValid (f : Findings) (id : Nat) (valid : Bool) : Findings :=
  match f.validity id with
  | some _ => f
  | none => { f with validities := f.validities.insert id valid }

/-- The type of an expression or of a written type. -/
def typeOf (f : Findings) (id : Nat) : Option Ty := f.types.get? id

/-- Records the result of checking an expression or a written type. -/
def record (f : Findings) (id : Nat) : Resolved → Findings
  | .ok type => let f := f.setValid id true; { f with types := f.types.insert id type }
  | .error _ => let f := f.setValid id false; { f with failures := id :: f.failures }

/-- The result recorded for a node, if it has been checked. -/
def cached (f : Findings) (id : Nat) : Option Resolved :=
  match f.validity id with
  | none => none
  | some true => (f.typeOf id).map .ok
  | some false => if f.failures.contains id then some (.error ⟨⟩) else none

/-- The declaration that a node refers to. -/
def resolution (f : Findings) (id : Nat) : Option Decl := f.resolutions.get? id

/-- Sets the declaration that a node refers to. -/
def setResolution (f : Findings) (id : Nat) (decl : Decl) : Findings :=
  { f with resolutions := f.resolutions.insert id decl }

/-- Whether a written name denotes a type parameter, once that is settled. -/
def isAlias? (f : Findings) (id : Nat) : Option Bool := f.aliases.get? id

/-- Settles whether a written name denotes a type parameter. -/
def setAlias (f : Findings) (id : Nat) (isAlias : Bool) : Findings :=
  { f with aliases := f.aliases.insert id isAlias }

theorem validity_setValid (f : Findings) (id other : Nat) (valid : Bool) :
    (f.setValid id valid).validity other =
      if other = id then some ((f.validity id).getD valid) else f.validity other := by
  unfold setValid
  split
  · rename_i old h
    by_cases same : other = id <;> simp [same, h]
  · rename_i h
    simp [validity, Table.get?_insert] at h ⊢
    simp [h]

theorem cached_record (f : Findings) (id : Nat) (result : Resolved)
    (fresh : f.validity id = none) : (f.record id result).cached id = some result := by
  cases result with
  | ok type =>
    simp [record, cached, validity, setValid, typeOf, Table.get?_insert] at fresh ⊢
    simp [fresh, Table.get?_insert]
  | error reason =>
    simp [record, cached, validity, setValid] at fresh ⊢
    simp [fresh, Table.get?_insert]

/-! ## Declarations -/

/-- How often a declaration is used. -/
def usage (f : Findings) (decl : Decl) : Nat := (f.usages.get? decl).getD 0

/-- Counts one use of a declaration. -/
def use (f : Findings) (decl : Decl) : Findings :=
  { f with usages := f.usages.insert decl (f.usage decl + 1) }

theorem usage_use (f : Findings) (decl other : Decl) :
    (f.use decl).usage other = f.usage other + if other = decl then 1 else 0 := by
  by_cases h : other = decl
  · subst h; simp [use, usage, Table.get?_insert]
  · simp [use, usage, Table.get?_insert, h]

/-- The position of a declaration among those of its name. -/
def overloadIndex (f : Findings) (decl : Decl) : Option Nat := f.overloads.get? decl

/-- Sets the position of a declaration among those of its name. -/
def setOverloadIndex (f : Findings) (decl : Decl) (index : Nat) : Findings :=
  { f with overloads := f.overloads.insert decl index }

/-- The argument lists that a generic class is used with. -/
def instancesOf (f : Findings) (className : String) : List (List Ty) :=
  (f.instances.get? className).getD []

/-- Adds an argument list for a generic class unless it is known. -/
def instantiate (f : Findings) (className : String) (args : List Ty) : Findings :=
  let known := f.instancesOf className
  if known.contains args then f
  else { f with instances := f.instances.insert className (known ++ [args]) }

/-! ## Ancestors -/

/-- How far the superclasses of a class have been examined. -/
def mark (f : Findings) (i : Nat) : InheritanceMark := (f.marks.get? i).getD .unvisited

/-- Notes how far the superclasses of a class have been examined. -/
def setMark (f : Findings) (i : Nat) (mark : InheritanceMark) : Findings :=
  { f with marks := f.marks.insert i mark }

/-- The superclass of a class, once it has proved sound. -/
def superclass? (f : Findings) (i : Nat) : Option SuperclassLink := f.superclasses.get? i

/-- Sets the superclass of a class. -/
def setSuperclass (f : Findings) (i : Nat) (link : SuperclassLink) : Findings :=
  { f with superclasses := f.superclasses.insert i link }

/-- The ancestors above the last class of a chain. The chain is walked once, and each link of it
starts at a different class, so the number of links bounds its length. -/
def ancestorsAbove (f : Findings) : Nat → List Nat → Ancestor → List Ancestor
  | 0, _, _ => []
  | links + 1, seen, last =>
    match f.superclass? last.index with
    | none => []
    | some link =>
      if seen.contains link.superclass then []
      else
        let next := ⟨link.superclass, link.args.andThen last.args⟩
        next :: f.ancestorsAbove links (link.superclass :: seen) next

/-- The ancestors of a class, nearest first. -/
def ancestors (f : Findings) (i : Nat) : List Ancestor :=
  f.ancestorsAbove f.superclasses.bindings.length [i] ⟨i, .empty⟩

/-- A class followed by its ancestors, nearest first. -/
def chain (f : Findings) (i : Nat) : List Ancestor := ⟨i, .empty⟩ :: f.ancestors i

end Findings

end ClassLang
