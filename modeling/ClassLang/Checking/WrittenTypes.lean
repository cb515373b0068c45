import ClassLang.Checking.Check

/-!
From written types to resolved ones: names are looked up, and arguments are counted. The result for
a written type is recorded with its node.
-/

namespace ClassLang

/-- The class that a name at a place stands for. -/
def Program.classFor (p : Program) (span : Span) (name : String) : Except CheckError Nat :=
  match p.findClass name with
  | .found i => .ok i
  | .missing => .error ⟨span, .unknownType name⟩
  | .ambiguous => .error ⟨span, .ambiguousType name⟩

/-! ## Rules -/

/-- An array has one argument. -/
def arrayType (node : Node) (mods : Modifiers) (args : Check (List Resolved)) : Infer Ty := do
  match ← settle (allResolved (← args)) with
  | [elem] => return .array mods elem
  | other => fail node.span (.collectionArity .kwArray other.length 1)

/-- A keymap has two arguments, for its keys and for its values. -/
def keymapType (node : Node) (mods : Modifiers) (args : Check (List Resolved)) : Infer Ty := do
  match ← settle (allResolved (← args)) with
  | [key, value] => return .keymap mods key value
  | other => fail node.span (.collectionArity .kwKeymap other.length 2)

/-- A bare name is a type parameter of the class around, or else a class without parameters. -/
def namedType (node : Node) (mods : Modifiers) (name : String) : Infer Ty := do
  let scope ← read
  let isParam := scope.generics.contains name
  learn (·.setAlias node.id isParam)
  if isParam then return .param mods name
  let owner ← settleBy (scope.program.classFor node.span name)
  let expected := (scope.program.classAt owner).generics.length
  if expected ≠ 0 then fail node.span (.missingTypeArguments name expected)
  learn (·.use (.class owner))
  return .plainClass mods name

/-- A name with arguments is a class with as many parameters. The arguments are resolved even if
there is no such class. -/
def genericType (node : Node) (mods : Modifiers) (name : String) (args : Check (List Resolved)) :
    Infer Ty := do
  let scope ← read
  if scope.generics.contains name then
    learn (·.setAlias node.id true)
    fail node.span (.notGeneric name)
  let results ← args
  let owner ← settleBy (scope.program.classFor node.span name)
  let args ← settle (allResolved results)
  let expected := (scope.program.classAt owner).generics.length
  if expected = 0 then fail node.span (.notGeneric name)
  if expected ≠ args.length then fail node.span (.typeArgumentCount name args.length expected)
  learn (·.use (.class owner))
  if Ty.allConcrete args then learn (·.instantiate name args)
  return .genericClass mods name args

/-! ## Resolution -/

mutual

/-- Resolves a written type. -/
def TypeRef.resolve : TypeRef → Infer Ty
  | .primitive node mods kind => remembered node.id (pure (.primitive mods kind))
  | .void node mods => remembered node.id (pure (.void mods))
  | .array node mods args => remembered node.id (arrayType node mods (resolveEach args))
  | .keymap node mods args => remembered node.id (keymapType node mods (resolveEach args))
  | .named node mods name => remembered node.id (namedType node mods name.name)
  | .generic node mods name args =>
    remembered node.id (genericType node mods name.name (resolveEach args))

/-- Resolves some written types, each whether those before it are sound or not. -/
def resolveEach : List TypeRef → Check (List Resolved)
  | [] => return []
  | t :: rest => do
    let result ← t.resolve.run
    return result :: (← resolveEach rest)

end

/-- Resolves some written types and says whether all are sound. -/
def resolveAll (types : List TypeRef) : Check Bool := do
  return (← resolveEach types).all Except.isOk

end ClassLang
