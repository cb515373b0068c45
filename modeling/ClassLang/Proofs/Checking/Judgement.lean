import ClassLang.Proofs.Checking.Mirrors
import ClassLang.Proofs.Types.Formation
import Mathlib.Data.List.Forall2

/-!
The rules of the type system, apart from the order in which the checker follows them: what a written
type denotes, and which type an expression has, as far as the types of its parts are known.

* `Judged.congr`: a judgement reads no more than the types of the parts, the types in signatures and
  the superclasses.
-/

namespace ClassLang

/-! ## Places -/

/-- Where code stands: what does not change from one statement of a body to the next. -/
structure Place where
  selfClass : Option Nat
  isInstance : Bool
  generics : List String

def Scope.place (scope : Scope) : Place := ⟨scope.selfClass, scope.isInstance, scope.generics⟩

/-! ## Rules -/

/-- What a written type denotes where some type parameters may be named. A faulty type denotes
nothing. -/
inductive Denoted (p : Program) (generics : List String) (f : Findings) : TypeRef → Resolved → Prop
  | fault {t : TypeRef} : Denoted p generics f t (.error ⟨⟩)
  | primitive {n : Node} {m : Modifiers} {kind : Primitive} :
    Denoted p generics f (.primitive n m kind) (.ok (.primitive m kind))
  | void {n : Node} {m : Modifiers} : Denoted p generics f (.void n m) (.ok (.void m))
  | array {n : Node} {m : Modifiers} {arg : TypeRef} {elem : Ty} :
    f.cached arg.id = some (.ok elem) → Denoted p generics f (.array n m [arg]) (.ok (.array m elem))
  | keymap {n : Node} {m : Modifiers} {arg arg' : TypeRef} {key value : Ty} :
    f.cached arg.id = some (.ok key) → f.cached arg'.id = some (.ok value) →
      Denoted p generics f (.keymap n m [arg, arg']) (.ok (.keymap m key value))
  | param {n : Node} {m : Modifiers} {name : Ident} : name.name ∈ generics →
    Denoted p generics f (.named n m name) (.ok (.param m name.name))
  | plainClass {n : Node} {m : Modifiers} {name : Ident} {owner : Nat} : name.name ∉ generics →
    p.theClass? name.name = some owner → (p.classAt owner).params = [] →
      Denoted p generics f (.named n m name) (.ok (.plainClass m name.name))
  | genericClass {n : Node} {m : Modifiers} {name : Ident} {args : List TypeRef} {owner : Nat}
    {types : List Ty} : name.name ∉ generics → p.theClass? name.name = some owner →
      List.Forall₂ (fun arg type => f.cached arg.id = some (.ok type)) args types →
        (p.classAt owner).params ≠ [] → (p.classAt owner).params.length = types.length →
          Denoted p generics f (.generic n m name args) (.ok (.genericClass m name.name types))

/-- What a member is taken from, once the type of the expression there is known. -/
inductive Receives (scope : Scope) (f : Findings) (target : Expr) (access : MemberAccess) :
    Receiver → Prop
  | static {owner : Nat} : scope.namedClass? f target = some owner →
    f.resolution target.id = some (.class owner) → Receives scope f target access (.static owner)
  | instance {type : Ty} {from_ : Receiver} : scope.namedClass? f target = none →
    f.cached target.id = some (.ok type) → (∀ i, f.resolution target.id ≠ some (.class i)) →
      scope.instanceReceiver target access type = .ok from_ → Receives scope f target access from_

/-- What a call may mean. -/
inductive Means (scope : Scope) (f : Findings) : Expr → Callee → Prop
  | named {n : Node} {name : Ident} {callee : Callee} :
    scope.calleeNamed f n.span name.name = .ok callee → Means scope f (.ident n name) callee
  | member {n : Node} {target : Expr} {access : MemberAccess} {name : Ident} {from_ : Receiver}
    {callee : Callee} : Receives scope f target access from_ →
      scope.calleeOf f from_ name = .ok callee → Means scope f (.member n target access name) callee

/-- The type of an expression, or the failure to find one, and the declaration that its node refers
to. A node may refer to a declaration whose type is faulty. -/
inductive Judged (scope : Scope) (f : Findings) : Expr → Option Decl → Resolved → Prop
  | fault {e : Expr} : Judged scope f e none (.error ⟨⟩)
  | variable {n : Node} {name : Ident} {bound : Resolved} : scope.env.get? name.name = some bound →
    Judged scope f (.ident n name) none bound
  | field {n : Node} {name : Ident} {found : FoundField} : scope.env.get? name.name = none →
    scope.ownField? f name.name = some found →
      scope.checkAccess f n.span found.owner found.field.access name.name = .ok () →
        checkInstance n.span name.name found.field.isStatic scope.isInstance = .ok () →
          Judged scope f (.ident n name) (some found.decl) found.type
  | this {n : Node} {owner : Nat} : scope.selfClass = some owner → scope.isInstance = true →
    Judged scope f (.this n) none (.ok (scope.program.typeWithin owner).asReference)
  | literal {n : Node} {value : Literal} : Judged scope f (.literal n value) none (.ok value.type)
  | list {n : Node} {elems : List Expr} {types : List Ty} {elem : Ty} :
    List.Forall₂ (fun e type => f.cached e.id = some (.ok type)) elems types →
      unify (types.zip (elems.map Expr.span)) = .ok elem →
        Judged scope f (.list n elems) none (.ok (.array .none elem))
  | keymap {n : Node} {pairs : List KeymapPair} {types : List (Ty × Ty)} {key value : Ty} :
    List.Forall₂ (fun (pair : KeymapPair) both => f.cached pair.key.id = some (.ok both.1) ∧
      f.cached pair.value.id = some (.ok both.2) ∧
        f.cached pair.node.id = some (.ok (.keymap .none both.1 both.2))) pairs types →
        unify ((types.map Prod.fst).zip (pairs.map fun pair => pair.key.span)) = .ok key →
          unify ((types.map Prod.snd).zip (pairs.map fun pair => pair.value.span)) = .ok value →
            Judged scope f (.keymap n pairs) none (.ok (.keymap .none key value))
  | binary {n : Node} {op : BinaryOp} {lhs rhs : Expr} {a b type : Ty} :
    f.cached lhs.id = some (.ok a) → f.cached rhs.id = some (.ok b) →
      op.builtin? a.decay b.decay = some type → Judged scope f (.binary n op lhs rhs) none (.ok type)
  | binaryFunction {n : Node} {op : BinaryOp} {lhs rhs : Expr} {a b type : Ty} {i : Nat} :
    f.cached lhs.id = some (.ok a) → f.cached rhs.id = some (.ok b) →
      op.builtin? a.decay b.decay = none →
        scope.program.findOperator? f (.binary op) (operands [lhs, rhs] [a, b]) = some (i, type) →
          Judged scope f (.binary n op lhs rhs) (some (.function i)) (.ok type)
  | reference {n : Node} {operand : Expr} {type presented : Ty} :
    f.cached operand.id = some (.ok type) → aliasType? operand type = some presented →
      Judged scope f (.unary n .ref operand) none (.ok presented)
  | delete {n : Node} {operand : Expr} {type : Ty} : f.cached operand.id = some (.ok type) →
    type.className?.isSome = true → Judged scope f (.unary n .delete operand) none (.ok (.void .none))
  | unary {n : Node} {op : UnaryOp} {operand : Expr} {type result : Ty} :
    f.cached operand.id = some (.ok type) → op.builtin? type = some result →
      Judged scope f (.unary n op operand) none (.ok result)
  | unaryFunction {n : Node} {op : UnaryOp} {operand : Expr} {type result : Ty} {i : Nat} :
    op ≠ .ref → op ≠ .delete → f.cached operand.id = some (.ok type) → op.builtin? type = none →
      scope.program.findOperator? f (.unary op) (operands [operand] [type]) = some (i, result) →
        Judged scope f (.unary n op operand) (some (.function i)) (.ok result)
  | new {n : Node} {written : TypeRef} {type : Ty} : f.cached written.id = some (.ok type) →
    type.className?.isSome = true → Judged scope f (.new n written) none (.ok type)
  | member {n : Node} {target : Expr} {access : MemberAccess} {name : Ident} {from_ : Receiver}
    {found : FoundField} : Receives scope f target access from_ →
      scope.memberOf f from_ name = .ok found →
        Judged scope f (.member n target access name) (some found.decl)
          (found.type.map (·.constIf from_.isConst))
  | element {n : Node} {target place : Expr} {m : Modifiers} {elem index : Ty} :
    f.cached target.id = some (.ok (.array m elem)) → f.cached place.id = some (.ok index) →
      index.primitive?.any Primitive.isIntegral = true →
        Judged scope f (.index n target place) none (.ok (elem.constIf m.const))
  | value {n : Node} {target place : Expr} {m : Modifiers} {key value index : Ty} :
    f.cached target.id = some (.ok (.keymap m key value)) → f.cached place.id = some (.ok index) →
      index.decay.assignable key = true →
        Judged scope f (.index n target place) none (.ok (value.constIf m.const))
  | indexFunction {n : Node} {target place : Expr} {collection index type : Ty} {i : Nat} :
    f.cached target.id = some (.ok collection) → f.cached place.id = some (.ok index) →
      collection.className?.isSome = true →
        scope.program.findOperator? f .index (operands [target, place] [collection, index]) =
          some (i, type) → Judged scope f (.index n target place) (some (.function i)) (.ok type)
  | call {n : Node} {callee : Expr} {args : List Expr} {meaning : Callee} {types : List Ty}
    {decl : Decl} {type : Ty} : Means scope f callee meaning → f.validity callee.id = some true →
      List.Forall₂ (fun e type => f.cached e.id = some (.ok type)) args types →
        meaning.candidates.findSome? (Candidate.take? (operands args types)) = some (decl, type) →
          Judged scope f (.call n callee args) (some decl) (.ok type)
  | assign {n : Node} {kind : AssignKind} {target value : Expr} {a b : Ty} :
    f.cached target.id = some (.ok a) → f.cached value.id = some (.ok b) → a.isConst = false →
      checkStore kind a target.text value b = .ok () →
        Judged scope f (.assign n kind target value) none (.ok a)

/-! ## What rules read -/

/-- Later findings know the same of superclasses and of the types in signatures. -/
structure Findings.Agrees (p : Program) (f g : Findings) : Prop where
  links : g.superclasses = f.superclasses
  cached : ∀ t ∈ p.signature, g.cached t.id = f.cached t.id
  typeOf : ∀ t ∈ p.signature, g.typeOf t.id = f.typeOf t.id

namespace Findings.Agrees

variable {p : Program} {f g : Findings}

theorem mirrors (same : f.Agrees p g) : f.Mirrors p (Equiv.refl Nat) g where
  chain i := by
    rw [Equiv.refl_apply, Findings.chain, Findings.chain, Findings.ancestors_congr same.links]
    exact (List.map_id' _).symm
  cached := same.cached
  typeOf := same.typeOf

variable {scope : Scope} (same : f.Agrees scope.program g)
include same

theorem ownField? (name : String) : scope.ownField? g name = scope.ownField? f name := by
  simpa [Scope.mirrored_self] using same.mirrors.ownField? (.refl _) rfl name

theorem checkAccess (span : Span) (owner : Nat) (access : Access) (name : String) :
    scope.checkAccess g span owner access name = scope.checkAccess f span owner access name := by
  simpa [Scope.mirrored_self] using same.mirrors.checkAccess (.refl _) rfl span owner access name

theorem namedClass? (e : Expr) : scope.namedClass? g e = scope.namedClass? f e := by
  simpa [Scope.mirrored_self] using same.mirrors.namedClass? (.refl _) rfl e

theorem memberOf (from_ : Receiver) (name : Ident) :
    scope.memberOf g from_ name = scope.memberOf f from_ name := by
  simpa [Scope.mirrored_self] using same.mirrors.memberOf (.refl _) rfl from_ name

theorem calleeNamed (span : Span) (name : String) :
    scope.calleeNamed g span name = scope.calleeNamed f span name := by
  simpa [Scope.mirrored_self] using same.mirrors.calleeNamed (.refl _) rfl span name

theorem calleeOf (from_ : Receiver) (name : Ident) :
    scope.calleeOf g from_ name = scope.calleeOf f from_ name := by
  simpa [Scope.mirrored_self] using same.mirrors.calleeOf (.refl _) rfl from_ name

theorem findOperator? (operator : Operator) (args : List Operand) :
    scope.program.findOperator? g operator args = scope.program.findOperator? f operator args :=
  same.mirrors.findOperator? (.refl _) operator args

end Findings.Agrees

/-! ## Later findings -/

theorem Findings.cached_of_validity (f : Findings) {id : Nat} {r : Resolved}
    (known : f.cached id = some r) : f.validity id = some r.isOk := by
  unfold cached at known
  split at known
  · cases known
  · rename_i valid
    obtain ⟨type, _, rfl⟩ := Option.map_eq_some_iff.1 known
    exact valid
  · rename_i invalid
    split at known
    · cases known
      exact invalid
    · cases known

/-- Later findings keep what is known of each node. -/
structure Findings.Extends (f g : Findings) : Prop where
  validity : ∀ {id : Nat} {valid : Bool}, f.validity id = some valid → g.validity id = some valid
  cached : ∀ {id : Nat} {r : Resolved}, f.cached id = some r → g.cached id = some r
  typeOf : ∀ {id : Nat} {r : Resolved}, f.cached id = some r → g.typeOf id = f.typeOf id
  resolution : ∀ {id : Nat} {decl : Decl}, f.resolution id = some decl → g.resolution id = some decl
  settled : ∀ {id : Nat} {valid : Bool}, f.validity id = some valid →
    g.resolution id = f.resolution id

namespace Findings.Extends

variable {f g h : Findings}

theorem refl (f : Findings) : f.Extends f :=
  ⟨id, id, fun _ => rfl, id, fun _ => rfl⟩

theorem trans (first : f.Extends g) (second : g.Extends h) : f.Extends h :=
  ⟨fun judged => second.validity (first.validity judged),
    fun known => second.cached (first.cached known),
    fun known => (second.typeOf (first.cached known)).trans (first.typeOf known),
    fun known => second.resolution (first.resolution known),
    fun judged => (second.settled (first.validity judged)).trans (first.settled judged)⟩

theorem known {types : List TypeRef} (later : f.Extends g) (before : f.Known types) :
    g.Known types := by
  intro t listed
  obtain ⟨r, known⟩ := Option.isSome_iff_exists.1 (before t listed)
  exact Option.isSome_iff_exists.2 ⟨r, later.cached known⟩

/-- Once all types in signatures are known, the rules read the same ever after. -/
theorem agrees {p : Program} (later : f.Extends g) (known : f.Known p.signature)
    (links : g.superclasses = f.superclasses) : f.Agrees p g where
  links := links
  cached t written := by
    obtain ⟨r, known⟩ := Option.isSome_iff_exists.1 (known t written)
    rw [known, later.cached known]
  typeOf t written := by
    obtain ⟨r, known⟩ := Option.isSome_iff_exists.1 (known t written)
    exact later.typeOf known

theorem cachedAll {α : Type} {id : α → Nat} {items : List α} {types : List Ty} (later : f.Extends g)
    (known : List.Forall₂ (fun item type => f.cached (id item) = some (.ok type)) items types) :
    List.Forall₂ (fun item type => g.cached (id item) = some (.ok type)) items types :=
  known.imp fun _ _ known => later.cached known

end Findings.Extends

theorem Denoted.mono {p : Program} {generics : List String} {f g : Findings} {t : TypeRef}
    {r : Resolved} (later : f.Extends g) (h : Denoted p generics f t r) :
    Denoted p generics g t r := by
  cases h with
  | fault => exact .fault
  | primitive => exact .primitive
  | void => exact .void
  | array elem => exact .array (later.cached elem)
  | keymap key value => exact .keymap (later.cached key) (later.cached value)
  | param named => exact .param named
  | plainClass free found bare => exact .plainClass free found bare
  | genericClass free found args generic length =>
    exact .genericClass free found (later.cachedAll args) generic length

/-! ## Formation -/

/-- How many arguments a class takes, if the name stands for one class. -/
def Program.Takes (p : Program) (name : String) (count : Nat) : Prop :=
  ∀ owner, p.theClass? name = some owner → (p.classAt owner).params.length = count

/-- A sound result is a well-formed type, in which only some type parameters occur. -/
def Program.Forms (p : Program) (generics : List String) (r : Resolved) : Prop :=
  ∀ type, r = .ok type → type.Formed p.Takes (· ∈ generics)

/-- The variables in scope have well-formed types, with type parameters that may be named there. -/
def Scope.Grounded (scope : Scope) : Prop :=
  ∀ name r, scope.env.get? name = some r → scope.program.Forms scope.generics r

theorem Scope.Grounded.of_empty {scope : Scope} (none : scope.env = .empty) : scope.Grounded := by
  intro name r inScope
  rw [none] at inScope
  cases inScope

theorem mem_of_forall₂ {α β : Type} {R : α → β → Prop} {as : List α} {bs : List β}
    (h : List.Forall₂ R as bs) : ∀ b ∈ bs, ∃ a ∈ as, R a b := by
  induction h with
  | nil => exact fun _ => nofun
  | cons first _ ih =>
    refine List.forall_mem_cons.2 ⟨⟨_, List.mem_cons_self .., first⟩, fun b listed => ?_⟩
    obtain ⟨a, inside, related⟩ := ih b listed
    exact ⟨a, List.mem_cons_of_mem _ inside, related⟩

theorem Findings.all_of_known {f : Findings} {α : Type} {id : α → Nat} {items : List α}
    {types : List Ty} {motive : Ty → Prop}
    (each : ∀ item ∈ items, ∀ type, f.cached (id item) = some (.ok type) → motive type)
    (known : List.Forall₂ (fun item type => f.cached (id item) = some (.ok type)) items types) :
    ∀ t ∈ types, motive t := by
  intro t listed
  obtain ⟨item, inside, typed⟩ := mem_of_forall₂ known t listed
  exact each item inside t typed

/-- A written type denotes a well-formed type if its arguments do. -/
theorem Denoted.formed {p : Program} {f : Findings} {params : String → Prop} {generics : List String}
    {t : TypeRef} {type : Ty} (named : ∀ name ∈ generics, params name)
    (args : ∀ arg ∈ t.args, ∀ type, f.cached arg.id = some (.ok type) → type.Formed p.Takes params)
    (h : Denoted p generics f t (.ok type)) : type.Formed p.Takes params := by
  cases h with
  | primitive | void => trivial
  | array elem => exact Ty.formed_array.2 (args _ (List.mem_cons_self ..) _ elem)
  | keymap key value =>
    exact ⟨args _ (List.mem_cons_self ..) _ key,
      args _ (List.mem_cons_of_mem _ (List.mem_cons_self ..)) _ value⟩
  | param listed => exact named _ listed
  | plainClass _ found bare =>
    intro owner same
    cases found.symm.trans same
    rw [bare]
    rfl
  | genericClass _ found known _ length =>
    refine ⟨fun owner' same => ?_, Ty.formedAll_iff.2 (Findings.all_of_known args known)⟩
    cases found.symm.trans same
    exact length

section Later

variable {scope : Scope} {f g : Findings} (later : f.Extends g) (same : f.Agrees scope.program g)
include later same

theorem Receives.mono {target : Expr} {access : MemberAccess} {from_ : Receiver}
    (h : Receives scope f target access from_) : Receives scope g target access from_ := by
  cases h with
  | static named refers =>
    exact .static ((same.namedClass? target).trans named) (later.resolution refers)
  | «instance» unnamed known value receives =>
    refine .instance ((same.namedClass? target).trans unnamed) (later.cached known) ?_ receives
    rw [later.settled (f.cached_of_validity known)]
    exact value

theorem Means.mono {e : Expr} {callee : Callee} (h : Means scope f e callee) :
    Means scope g e callee := by
  cases h with
  | named found => exact .named ((same.calleeNamed _ _).trans found)
  | member receives found =>
    exact .member (receives.mono later same) ((same.calleeOf _ _).trans found)

theorem Judged.mono {e : Expr} {decl : Option Decl} {r : Resolved} (h : Judged scope f e decl r) :
    Judged scope g e decl r := by
  cases h with
  | fault => exact .fault
  | «variable» bound => exact .variable bound
  | field free found access inst =>
    exact .field free ((same.ownField? _).trans found) ((same.checkAccess _ _ _ _).trans access) inst
  | this here inst => exact .this here inst
  | literal => exact .literal
  | list elems unified => exact .list (later.cachedAll elems) unified
  | keymap pairs keys values =>
    refine .keymap (pairs.imp fun _ _ known => ?_) keys values
    exact ⟨later.cached known.1, later.cached known.2.1, later.cached known.2.2⟩
  | binary a b builtin => exact .binary (later.cached a) (later.cached b) builtin
  | binaryFunction a b builtin found =>
    exact .binaryFunction (later.cached a) (later.cached b) builtin
      ((same.findOperator? _ _).trans found)
  | reference a presents => exact .reference (later.cached a) presents
  | delete a named => exact .delete (later.cached a) named
  | unary a builtin => exact .unary (later.cached a) builtin
  | unaryFunction ref delete a builtin found =>
    exact .unaryFunction ref delete (later.cached a) builtin ((same.findOperator? _ _).trans found)
  | new written named => exact .new (later.cached written) named
  | member receives found =>
    exact .member (receives.mono later same) ((same.memberOf _ _).trans found)
  | element a b whole => exact .element (later.cached a) (later.cached b) whole
  | value a b fits => exact .value (later.cached a) (later.cached b) fits
  | indexFunction a b named found =>
    exact .indexFunction (later.cached a) (later.cached b) named
      ((same.findOperator? _ _).trans found)
  | call means sound args chosen =>
    exact .call (means.mono later same) (later.validity sound) (later.cachedAll args) chosen
  | assign a b writable fits => exact .assign (later.cached a) (later.cached b) writable fits

end Later

end ClassLang
