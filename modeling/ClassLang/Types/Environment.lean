import ClassLang.Types.Ty

/-!
The variables in scope.

* `Environment.get?_insert`: the latest binding of a name counts.
-/

namespace ClassLang

/-- Stands for a result that could not be found, once the reason has been reported. -/
structure Reported where
deriving DecidableEq, Repr, Inhabited

/-- A type, unless the reason why there is none has been reported. -/
abbrev Resolved := Except Reported Ty

/-- The variables in scope, the latest first. A variable whose declared type was faulty is bound to
the failure, so that its uses stay quiet. -/
structure Environment where
  bindings : List (String × Resolved)

namespace Environment

/-- No variable. -/
def empty : Environment := ⟨[]⟩

/-- What a name is bound to. -/
def get? (env : Environment) (name : String) : Option Resolved := env.bindings.lookup name

/-- Whether a name is bound. -/
def contains (env : Environment) (name : String) : Bool := (env.get? name).isSome

/-- Binds a name and hides its earlier binding. -/
def insert (env : Environment) (name : String) (type : Resolved) : Environment :=
  ⟨(name, type) :: env.bindings⟩

theorem get?_insert (env : Environment) (name other : String) (type : Resolved) :
    (env.insert name type).get? other = if other = name then some type else env.get? other := by
  by_cases h : other = name
  · subst h; simp [get?, insert]
  · have key : (other == name) = false := by simpa using h
    simp [get?, insert, List.lookup_cons, key, h]

end Environment

end ClassLang
