import ClassLang.Types.Ty

/-!
Substitutions of types for type parameters. Written as a list of bindings, the first binding of a
name counts.

* `Substitution.get?_andThen`: what a composition binds a parameter to.
-/

namespace ClassLang

/-- Bindings of type parameters to types. -/
structure Substitution where
  bindings : List (String × Ty)
deriving Repr, Inhabited

namespace Substitution

/-- Binds nothing. -/
def empty : Substitution := ⟨[]⟩

/-- What a parameter is bound to. -/
def get? (s : Substitution) (name : String) : Option Ty := s.bindings.lookup name

/-- Whether nothing is bound. -/
def isEmpty (s : Substitution) : Bool := s.bindings.isEmpty

/-- Binds each parameter to the argument in its position. Of a repeated parameter the last
position counts. -/
def ofArgs (params : List String) (args : List Ty) : Substitution :=
  ⟨(params.zip args).reverse⟩

mutual

/-- Replaces every bound parameter; the modifiers written on it are added to the replacement. -/
def apply (s : Substitution) : Ty → Ty
  | .param m name =>
    match s.get? name with
    | some t => t.withMods (t.mods.union m)
    | none => .param m name
  | .array m elem => .array m (s.apply elem)
  | .keymap m key value => .keymap m (s.apply key) (s.apply value)
  | .genericClass m name args => .genericClass m name (s.applyAll args)
  | .primitive m kind => .primitive m kind
  | .plainClass m name => .plainClass m name
  | .null m => .null m
  | .undefined m => .undefined m
  | .void m => .void m

/-- Replaces every bound parameter in each of the types. -/
def applyAll (s : Substitution) : List Ty → List Ty
  | [] => []
  | t :: rest => s.apply t :: s.applyAll rest

end

theorem applyAll_eq (s : Substitution) (ts : List Ty) : s.applyAll ts = ts.map s.apply := by
  induction ts with
  | nil => rfl
  | cons t rest ih => simp [applyAll, ih]

/-- First this substitution and then the outer one: parameters that are not bound here keep their
outer binding. -/
def andThen (s outer : Substitution) : Substitution :=
  if outer.isEmpty then s
  else ⟨s.bindings.map (fun binding => (binding.1, outer.apply binding.2)) ++ outer.bindings⟩

theorem lookup_map_snd (f : Ty → Ty) (bindings : List (String × Ty)) (name : String) :
    (bindings.map fun binding => (binding.1, f binding.2)).lookup name =
      (bindings.lookup name).map f := by
  induction bindings with
  | nil => rfl
  | cons binding rest ih =>
    obtain ⟨key, value⟩ := binding
    by_cases h : name == key <;> simp [List.lookup_cons, h, ih]

mutual

theorem apply_empty : ∀ t : Ty, empty.apply t = t
  | .param m name => by simp [apply, get?, empty]
  | .array m elem => by simp [apply, apply_empty elem]
  | .keymap m key value => by simp [apply, apply_empty key, apply_empty value]
  | .genericClass m name args => by simp [apply, applyAll_empty args]
  | .primitive .. | .plainClass .. | .null _ | .undefined _ | .void _ => by simp [apply]

theorem applyAll_empty : ∀ ts : List Ty, empty.applyAll ts = ts
  | [] => rfl
  | t :: rest => by simp [applyAll, apply_empty t, applyAll_empty rest]

end

theorem bindings_andThen (s outer : Substitution) : (s.andThen outer).bindings =
    s.bindings.map (fun binding => (binding.1, outer.apply binding.2)) ++ outer.bindings := by
  obtain ⟨outer⟩ := outer
  cases outer with
  | nil =>
    change s.bindings = s.bindings.map (fun binding => (binding.1, empty.apply binding.2)) ++ []
    simp [apply_empty]
  | cons binding rest => rfl

theorem get?_andThen (s outer : Substitution) (name : String) :
    (s.andThen outer).get? name = ((s.get? name).map outer.apply).or (outer.get? name) := by
  simp only [get?, bindings_andThen, List.lookup_append, lookup_map_snd]

/-- Whether both bind the same parameters to the same types. -/
def same (a b : Substitution) : Bool :=
  (a.bindings ++ b.bindings).all fun binding => a.get? binding.1 == b.get? binding.1

mutual

/-- Learns bindings of the given parameters by laying a declared type over the type of an argument.
What is bound already stays. A parameter takes the type of a copy, null included only if it is not
declared nullable there. -/
def learn (generics : List String) : Ty → Ty → Substitution → Substitution
  | .param m name, arg, s =>
    if generics.contains name && (s.get? name).isNone then
      ⟨(name, arg.withMods ⟨false, false, arg.isNullable && !m.nullable⟩) :: s.bindings⟩
    else s
  | .array _ p, .array _ a, s => learn generics p a s
  | .keymap _ pk pv, .keymap _ ak av, s => learn generics pv av (learn generics pk ak s)
  | .genericClass _ p ps, .genericClass _ a as, s =>
    if p == a then learnAll generics ps as s else s
  | _, _, s => s

/-- Learns bindings from pairs of a declared type and the type of an argument. -/
def learnAll (generics : List String) : List Ty → List Ty → Substitution → Substitution
  | p :: ps, a :: as, s => learnAll generics ps as (learn generics p a s)
  | _, _, s => s

end

end Substitution

end ClassLang
