import ClassLang.Proofs.Lexing.Spelling
import ClassLang.Syntax.Expr

/-!
Tests of expressions and of all that is below them. Of an expression that the parser makes, the
names are names, the literals have values that the lexer gives, what is allocated is no `void`, and
what is assigned to may be assigned to; numbering the nodes anew changes none of this.

* `Expr.all_renumber`: a copy with new numbers passes the tests that its original passes.
-/

namespace ClassLang

namespace TypeRef

mutual

/-- Whether the names in the type are names, and nothing in it is `void`. -/
def isSound : TypeRef → Bool
  | primitive .. => true
  | array _ _ args | keymap _ _ args => soundAll args
  | named _ _ name => isName name.name
  | generic _ _ name args => isName name.name && soundAll args
  | void .. => false

/-- Whether some types are sound. -/
def soundAll : List TypeRef → Bool
  | [] => true
  | t :: rest => t.isSound && soundAll rest

end

theorem soundAll_eq (types : List TypeRef) : soundAll types = types.all isSound := by
  induction types with
  | nil => rfl
  | cons t rest ih => rw [soundAll, ih, List.all_cons]

mutual

theorem isSound_renumber : ∀ (t : TypeRef) (next : Nat), (t.renumber next).1.isSound = t.isSound
  | primitive .., _ => rfl
  | named .., _ => rfl
  | void .., _ => rfl
  | array _ _ args, next => by
    simp only [renumber, isSound, soundAll_renumber args]
  | keymap _ _ args, next => by
    simp only [renumber, isSound, soundAll_renumber args]
  | generic _ _ name args, next => by
    simp only [renumber, isSound, soundAll_renumber args]

theorem soundAll_renumber : ∀ (types : List TypeRef) (next : Nat),
    soundAll (renumberAll types next).1 = soundAll types
  | [], _ => rfl
  | t :: rest, next => by
    simp only [renumberAll, soundAll, isSound_renumber t, soundAll_renumber rest]

end

end TypeRef

namespace Expr

/-! ## Tests of all parts -/

mutual

/-- Whether a test holds of the expression and of every expression below it. -/
def all (test : Expr → Bool) : Expr → Bool
  | ident n name => test (ident n name)
  | this n => test (this n)
  | literal n value => test (literal n value)
  | list n elems => test (list n elems) && allOf test elems
  | keymap n pairs => test (keymap n pairs) && allPairs test pairs
  | binary n op lhs rhs => test (binary n op lhs rhs) && lhs.all test && rhs.all test
  | unary n op operand => test (unary n op operand) && operand.all test
  | new n type => test (new n type)
  | member n target access name => test (member n target access name) && target.all test
  | index n target i => test (index n target i) && target.all test && i.all test
  | call n callee args => test (call n callee args) && callee.all test && allOf test args
  | assign n kind target value =>
    test (assign n kind target value) && target.all test && value.all test

/-- Whether a test holds of some expressions and of every expression below them. -/
def allOf (test : Expr → Bool) : List Expr → Bool
  | [] => true
  | e :: rest => e.all test && allOf test rest

/-- Whether a test holds of the keys and values of some pairs and of every expression below them. -/
def allPairs (test : Expr → Bool) : List KeymapPair → Bool
  | [] => true
  | .mk _ key value :: rest => key.all test && value.all test && allPairs test rest

end

theorem allOf_eq (test : Expr → Bool) (es : List Expr) :
    allOf test es = List.all es (all test) := by
  induction es with
  | nil => rfl
  | cons e rest ih => rw [allOf, ih, List.all_cons]

theorem allPairs_eq (test : Expr → Bool) (pairs : List KeymapPair) : allPairs test pairs =
    List.all pairs fun pair => pair.key.all test && pair.value.all test := by
  induction pairs with
  | nil => rfl
  | cons pair rest ih =>
    obtain ⟨n, key, value⟩ := pair
    rw [allPairs, ih, List.all_cons]
    rfl

mutual

theorem all_and (p q : Expr → Bool) : ∀ e : Expr,
    (e.all fun e => p e && q e) = (e.all p && e.all q)
  | ident .. | this _ | literal .. | new .. => rfl
  | list _ elems => by
    simp only [all, allOf_and p q elems]
    ac_rfl
  | keymap _ pairs => by
    simp only [all, allPairs_and p q pairs]
    ac_rfl
  | binary _ _ lhs rhs => by
    simp only [all, all_and p q lhs, all_and p q rhs]
    ac_rfl
  | unary _ _ operand => by
    simp only [all, all_and p q operand]
    ac_rfl
  | member _ target _ _ => by
    simp only [all, all_and p q target]
    ac_rfl
  | index _ target i => by
    simp only [all, all_and p q target, all_and p q i]
    ac_rfl
  | call _ callee args => by
    simp only [all, all_and p q callee, allOf_and p q args]
    ac_rfl
  | assign _ _ target value => by
    simp only [all, all_and p q target, all_and p q value]
    ac_rfl

theorem allOf_and (p q : Expr → Bool) : ∀ es : List Expr,
    allOf (fun e => p e && q e) es = (allOf p es && allOf q es)
  | [] => rfl
  | e :: rest => by
    simp only [allOf, all_and p q e, allOf_and p q rest]
    ac_rfl

theorem allPairs_and (p q : Expr → Bool) : ∀ pairs : List KeymapPair,
    allPairs (fun e => p e && q e) pairs = (allPairs p pairs && allPairs q pairs)
  | [] => rfl
  | .mk _ key value :: rest => by
    simp only [allPairs, all_and p q key, all_and p q value, allPairs_and p q rest]
    ac_rfl

end

section Renumbered

variable {test : Expr → Bool}

/-- The numbers do not matter to a test. -/
def Numberless (test : Expr → Bool) : Prop := ∀ e next, test (renumber e next).1 = test e

mutual

theorem all_renumber (h : Numberless test) :
    ∀ (e : Expr) (next : Nat), (e.renumber next).1.all test = e.all test
  | ident n name, next => h (ident n name) next
  | this n, next => h (this n) next
  | literal n value, next => h (literal n value) next
  | new n type, next => h (new n type) next
  | list n elems, next => by
    have here := h (list n elems) next
    simp only [renumber] at here
    simp only [renumber, all, here, allOf_renumber h elems]
  | keymap n pairs, next => by
    have here := h (keymap n pairs) next
    simp only [renumber] at here
    simp only [renumber, all, here, allPairs_renumber h pairs]
  | binary n op lhs rhs, next => by
    have here := h (binary n op lhs rhs) next
    simp only [renumber] at here
    simp only [renumber, all, here, all_renumber h lhs, all_renumber h rhs]
  | unary n op operand, next => by
    have here := h (unary n op operand) next
    simp only [renumber] at here
    simp only [renumber, all, here, all_renumber h operand]
  | member n target access name, next => by
    have here := h (member n target access name) next
    simp only [renumber] at here
    simp only [renumber, all, here, all_renumber h target]
  | index n target i, next => by
    have here := h (index n target i) next
    simp only [renumber] at here
    simp only [renumber, all, here, all_renumber h target, all_renumber h i]
  | call n callee args, next => by
    have here := h (call n callee args) next
    simp only [renumber] at here
    simp only [renumber, all, here, all_renumber h callee, allOf_renumber h args]
  | assign n kind target value, next => by
    have here := h (assign n kind target value) next
    simp only [renumber] at here
    simp only [renumber, all, here, all_renumber h target, all_renumber h value]

theorem allOf_renumber (h : Numberless test) : ∀ (es : List Expr) (next : Nat),
    allOf test (renumberAll es next).1 = allOf test es
  | [], _ => rfl
  | e :: rest, next => by
    simp only [renumberAll, allOf, all_renumber h e, allOf_renumber h rest]

theorem allPairs_renumber (h : Numberless test) : ∀ (pairs : List KeymapPair) (next : Nat),
    allPairs test (renumberPairs pairs next).1 = allPairs test pairs
  | [], _ => rfl
  | .mk _ key value :: rest, next => by
    simp only [renumberPairs, allPairs, all_renumber h key, all_renumber h value,
      allPairs_renumber h rest]

end

end Renumbered

/-! ## Sound expressions -/

/-- What the parser makes sure of at a node. -/
def soundHere : Expr → Bool
  | ident _ name | member _ _ _ name => isName name.name
  | literal _ value => value.token.isLexical
  | new _ type => type.isSound
  | assign _ _ target _ => target.isAssignable
  | _ => true

/-- Whether the expression is as the parser makes it. -/
def isSound (e : Expr) : Bool := e.all soundHere

theorem isAssignable_renumber (e : Expr) (next : Nat) :
    (e.renumber next).1.isAssignable = e.isAssignable := by
  cases e <;> rfl

theorem soundHere_numberless : Numberless soundHere := by
  intro e next
  cases e with
  | new n type => exact type.isSound_renumber (next + 1)
  | assign n kind target value => exact isAssignable_renumber target (next + 1)
  | _ => rfl

theorem isSound_renumber (e : Expr) (next : Nat) : (e.renumber next).1.isSound = e.isSound :=
  all_renumber soundHere_numberless e next

end Expr

end ClassLang
