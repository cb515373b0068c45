import ClassLang.Syntax.Program
import ClassLang.Types.Substitution

/-!
Declarations of a program and the names they are known by. A declaration is named by its position.

* `Program.mem_classesNamed`: the classes that a name may stand for.
* `Program.findClass_found`: a name stands for a class if it is the only one of that name.
-/

namespace ClassLang

/-! ## Declarations -/

/-- A declaration, by its position in the program or in its class. -/
inductive Decl where
  | «class» (index : Nat)
  | function (index : Nat)
  | method (owner index : Nat)
  | field (owner index : Nat)
deriving DecidableEq, Repr

/-- What a name says about the classes of a program. -/
inductive ClassLookup where
  | found (index : Nat)
  | missing
  /-- More than one class has the name. -/
  | ambiguous
deriving DecidableEq, Repr

/-- The positions of the items that pass a test. -/
def positions (test : α → Bool) (items : List α) : List Nat :=
  (items.zipIdx.filter fun item => test item.1).map Prod.snd

theorem mem_positions {test : α → Bool} {items : List α} {i : Nat} :
    i ∈ positions test items ↔ ∃ item, items[i]? = some item ∧ test item = true := by
  simp only [positions, List.mem_map, List.mem_filter, Prod.exists, List.mem_zipIdx_iff_getElem?]
  constructor
  · rintro ⟨item, j, ⟨at_j, passes⟩, rfl⟩
    exact ⟨item, at_j, passes⟩
  · rintro ⟨item, at_i, passes⟩
    exact ⟨item, i, ⟨at_i, passes⟩, rfl⟩

/-- The items that have the name of an earlier item. -/
def repeatedNames (name : α → String) (items : List α) : List α :=
  (items.zipIdx.filter fun item =>
    (items.take item.2).any fun earlier => name earlier == name item.1).map Prod.fst

namespace Program

/-- The class at a position. -/
def classAt (p : Program) (i : Nat) : Class := p.classes.getD i default

/-- The function at a position. -/
def functionAt (p : Program) (i : Nat) : Function := p.functions.getD i default

/-- The positions of the classes. -/
def classIndices (p : Program) : List Nat := List.range p.classes.length

/-- The positions of the functions. -/
def functionIndices (p : Program) : List Nat := List.range p.functions.length

/-- The classes of a name. -/
def classesNamed (p : Program) (name : String) : List Nat :=
  positions (fun c => c.name.name == name) p.classes

/-- Whether a class of the name exists. -/
def hasClass (p : Program) (name : String) : Bool := p.classes.any fun c => c.name.name == name

/-- What a name stands for among the classes. -/
def findClass (p : Program) (name : String) : ClassLookup :=
  match p.classesNamed name with
  | [] => .missing
  | [i] => .found i
  | _ => .ambiguous

/-- The class of a name, if there is exactly one. -/
def theClass? (p : Program) (name : String) : Option Nat :=
  match p.findClass name with
  | .found i => some i
  | _ => none

/-- The functions of a name. An operator function has the name of its operator. -/
def functionsNamed (p : Program) (name : String) : List Nat :=
  positions (fun f => f.name.name == name) p.functions

/-- The functions by name, in the order in which the names come up first. -/
def functionGroups (p : Program) : List (String × List Nat) :=
  (p.functions.map fun f => f.name.name).eraseDups.map fun name => (name, p.functionsNamed name)

theorem mem_classesNamed {p : Program} {name : String} {i : Nat} :
    i ∈ p.classesNamed name ↔ ∃ c, p.classes[i]? = some c ∧ c.name.name = name := by
  simp [classesNamed, mem_positions]

theorem findClass_found {p : Program} {name : String} {i : Nat} :
    p.findClass name = .found i ↔ p.classesNamed name = [i] := by
  unfold findClass
  split
  · simp [*]
  · simp [*]
  · rename_i h; simpa using h i

/-! ## Class types -/

/-- The class that a type is built on. -/
def classOf? (p : Program) (t : Ty) : Option Nat := t.className?.bind p.theClass?

/-- What the arguments of a type put in place of the type parameters of its class. -/
def argsOf (p : Program) (owner : Nat) (t : Ty) : Substitution :=
  match t with
  | .genericClass _ _ args => Substitution.ofArgs (p.classAt owner).params args
  | _ => .empty

/-- The type of a class inside itself: its type parameters are the arguments. -/
def typeWithin (p : Program) (i : Nat) : Ty :=
  let c := p.classAt i
  if c.isGeneric then .genericClass .none c.name.name (c.params.map (.param .none))
  else .plainClass .none c.name.name

end Program

end ClassLang
