import ClassLang.Proofs.Checking.Ensures
import ClassLang.Proofs.Checking.Trails
import ClassLang.Proofs.Parsing.Numbering
import ClassLang.Proofs.Syntax.Subtrees

/-!
What a written type means, apart from the order in which its parts are resolved and from what is entered
for them on the way.

* `TypeRef.resolve_exact`: a written type resolves exactly if it is well-formed, to a type of the same
  text, and types are equal exactly if they are written alike.
-/

namespace ClassLang

variable {p : Program} {generics : List String}

/-! ## Meanings -/

/-- How many type parameters the class of a name has, if there is exactly one class of that name. -/
def Program.arity? (p : Program) (name : String) : Option Nat :=
  (p.theClass? name).map fun i => (p.classAt i).generics.length

mutual

/-- The type that a written type stands for where some type parameters may be named. -/
def TypeRef.meaning? (p : Program) (generics : List String) : TypeRef → Option Ty
  | .primitive _ m kind => some (.primitive m kind)
  | .void _ m => some (.void m)
  | .array _ m args =>
    match meanings? p generics args with
    | some [elem] => some (.array m elem)
    | _ => none
  | .keymap _ m args =>
    match meanings? p generics args with
    | some [key, value] => some (.keymap m key value)
    | _ => none
  | .named _ m name =>
    if name.name ∈ generics then some (.param m name.name)
    else if p.arity? name.name = some 0 then some (.plainClass m name.name)
    else none
  | .generic _ m name args =>
    match meanings? p generics args with
    | some types =>
      if name.name ∉ generics ∧ types ≠ [] ∧ p.arity? name.name = some types.length then
        some (.genericClass m name.name types)
      else none
    | none => none

/-- The types that some written types stand for, if each of them stands for one. -/
def meanings? (p : Program) (generics : List String) : List TypeRef → Option (List Ty)
  | [] => some []
  | t :: rest =>
    match t.meaning? p generics, meanings? p generics rest with
    | some type, some types => some (type :: types)
    | _, _ => none

end

/-! ## Well-formed types -/

/-- A name stands for exactly one class, with as many type parameters. -/
def Program.Denotes (p : Program) (name : String) (count : Nat) : Prop :=
  ∃ c, p.classes.filter (fun c => c.name.name == name) = [c] ∧ c.generics.length = count

/-- The outermost part of a written type is in order. -/
def TypeRef.InOrder (p : Program) (generics : List String) : TypeRef → Prop
  | .array _ _ args => args.length = 1
  | .keymap _ _ args => args.length = 2
  | .named _ _ name => name.name ∈ generics ∨ p.Denotes name.name 0
  | .generic _ _ name args => name.name ∉ generics ∧ args ≠ [] ∧ p.Denotes name.name args.length
  | .primitive .. | .void .. => True

theorem Program.arity?_eq_some {name : String} {count : Nat} :
    p.arity? name = some count ↔ p.Denotes name count := by
  let entries := p.classes.zipIdx.filter fun entry => entry.1.name.name == name
  have indices : p.classesNamed name = entries.map Prod.snd := rfl
  have classes : p.classes.filter (fun c => c.name.name == name) = entries.map Prod.fst := by
    have projected := p.classes.zipIdx_map_fst 0
    conv_lhs => rw [← projected]
    exact List.filter_map
  have declared : ∀ entry ∈ entries, p.classAt entry.2 = entry.1 := by
    intro entry listed
    have found := List.mem_zipIdx_iff_getElem?.1 (List.mem_filter.1 listed).1
    rw [Program.classAt, List.getD_eq_getElem?_getD, found, Option.getD_some]
  rw [arity?, theClass?, findClass, Denotes, indices, classes]
  clear_value entries
  rcases entries with _ | ⟨⟨c, i⟩, _ | ⟨_, _⟩⟩
  · simp
  · simp [declared (c, i) (List.mem_singleton_self _)]
  · simp

theorem length_of_meanings? {ts : List TypeRef} {types : List Ty}
    (known : meanings? p generics ts = some types) : types.length = ts.length := by
  induction ts generalizing types with
  | nil =>
    cases known
    rfl
  | cons t rest ih =>
    rw [meanings?] at known
    split at known
    next _ others =>
      cases known
      exact congrArg (· + 1) (ih others)
    next => cases known

theorem TypeRef.subtrees_eq_cons (t : TypeRef) :
    t.subtrees = .type t :: TypeRef.subtreesAll t.args := by
  cases t <;> rfl

/-- A written type means something if its outermost part is in order and its arguments mean something. -/
theorem TypeRef.meaning?_isSome_iff (t : TypeRef) : (t.meaning? p generics).isSome = true ↔
    t.InOrder p generics ∧ (meanings? p generics t.args).isSome = true := by
  cases t with
  | primitive | void => simp [meaning?, InOrder, args, meanings?]
  | named n m name =>
    simp only [meaning?, InOrder, args, meanings?, ← Program.arity?_eq_some]
    by_cases param : name.name ∈ generics <;> by_cases bare : p.arity? name.name = some 0 <;>
      simp [param, bare]
  | array n m args =>
    cases known : meanings? p generics args with
    | none => simp [meaning?, TypeRef.args, known]
    | some types =>
      have counted := length_of_meanings? known
      rcases types with _ | ⟨_, _ | ⟨_, _⟩⟩ <;>
        simp [meaning?, InOrder, TypeRef.args, known, ← counted]
  | keymap n m args =>
    cases known : meanings? p generics args with
    | none => simp [meaning?, TypeRef.args, known]
    | some types =>
      have counted := length_of_meanings? known
      rcases types with _ | ⟨_, _ | ⟨_, _ | ⟨_, _⟩⟩⟩ <;>
        simp [meaning?, InOrder, TypeRef.args, known, ← counted]
  | generic n m name args =>
    cases known : meanings? p generics args with
    | none => simp [meaning?, TypeRef.args, known]
    | some types =>
      have counted := length_of_meanings? known
      have filled : types ≠ [] ↔ args ≠ [] := by
        rw [← List.length_pos_iff, ← List.length_pos_iff, counted]
      simp [meaning?, InOrder, TypeRef.args, known, Program.arity?_eq_some, counted, filled]

mutual

theorem TypeRef.meaning?_isSome : ∀ t : TypeRef, (t.meaning? p generics).isSome = true ↔
    ∀ u, .type u ∈ t.subtrees → u.InOrder p generics
  | .primitive .. | .void .. | .named .. => by
    rw [TypeRef.meaning?_isSome_iff, TypeRef.subtrees_eq_cons]
    simp [TypeRef.args, meanings?, TypeRef.subtreesAll]
  | .array n m args | .keymap n m args | .generic n m name args => by
    rw [TypeRef.meaning?_isSome_iff, TypeRef.subtrees_eq_cons, TypeRef.args, meanings?_isSome args]
    simp [or_imp, forall_and]

theorem meanings?_isSome : ∀ ts : List TypeRef, (meanings? p generics ts).isSome = true ↔
    ∀ u, .type u ∈ TypeRef.subtreesAll ts → u.InOrder p generics
  | [] => by simp [meanings?, TypeRef.subtreesAll]
  | t :: rest => by
    have both : (meanings? p generics (t :: rest)).isSome = true ↔
        (t.meaning? p generics).isSome = true ∧ (meanings? p generics rest).isSome = true := by
      rw [meanings?]
      cases t.meaning? p generics <;> cases meanings? p generics rest <;> simp
    rw [both, TypeRef.meaning?_isSome t, meanings?_isSome rest, TypeRef.subtreesAll]
    simp [or_imp, forall_and]

end

/-! ## Forms -/

/-- The form of the type that a written type stands for. -/
inductive TypeRef.Means (p : Program) (generics : List String) : TypeRef → Ty → Prop
  | primitive {n : Node} {m : Modifiers} {kind : Primitive} :
    Means p generics (.primitive n m kind) (.primitive m kind)
  | void {n : Node} {m : Modifiers} : Means p generics (.void n m) (.void m)
  | array {n : Node} {m : Modifiers} {args : List TypeRef} {elem : Ty} :
    meanings? p generics args = some [elem] → Means p generics (.array n m args) (.array m elem)
  | keymap {n : Node} {m : Modifiers} {args : List TypeRef} {key value : Ty} :
    meanings? p generics args = some [key, value] →
      Means p generics (.keymap n m args) (.keymap m key value)
  | param {n : Node} {m : Modifiers} {name : Ident} : name.name ∈ generics →
    Means p generics (.named n m name) (.param m name.name)
  | plainClass {n : Node} {m : Modifiers} {name : Ident} : name.name ∉ generics →
    Means p generics (.named n m name) (.plainClass m name.name)
  | genericClass {n : Node} {m : Modifiers} {name : Ident} {args : List TypeRef} {types : List Ty} :
    meanings? p generics args = some types →
      Means p generics (.generic n m name args) (.genericClass m name.name types)

theorem TypeRef.meaning?_means {t : TypeRef} {type : Ty} (known : t.meaning? p generics = some type) :
    t.Means p generics type := by
  cases t with
  | primitive n m kind =>
    cases known
    exact .primitive
  | void n m =>
    cases known
    exact .void
  | array n m args =>
    rw [meaning?] at known
    split at known
    next elem inner =>
      cases known
      exact .array inner
    next => cases known
  | keymap n m args =>
    rw [meaning?] at known
    split at known
    next key value inner =>
      cases known
      exact .keymap inner
    next => cases known
  | named n m name =>
    rw [meaning?] at known
    split_ifs at known with param bare
    · cases known
      exact .param param
    · cases known
      exact .plainClass param
  | generic n m name args =>
    rw [meaning?] at known
    split at known
    next types inner =>
      split_ifs at known
      cases known
      exact .genericClass inner
    next => cases known

theorem meanings?_cons {t : TypeRef} {rest : List TypeRef} {types : List Ty}
    (known : meanings? p generics (t :: rest) = some types) :
    ∃ type others, types = type :: others ∧ t.meaning? p generics = some type ∧
      meanings? p generics rest = some others := by
  rw [meanings?] at known
  split at known
  next type others first following =>
    cases known
    exact ⟨type, others, rfl, first, following⟩
  next => cases known

/-! ## Texts -/

theorem textOf_append (front back : List Ink) :
    Ink.textOf (front ++ back) = Ink.textOf front ++ Ink.textOf back := by
  simp [Ink.textOf, String.join_append]

theorem textOf_cons (ink : Ink) (rest : List Ink) :
    Ink.textOf (ink :: rest) = ink.text ++ Ink.textOf rest := by
  simp [Ink.textOf]

theorem textOf_modifierInk (m : Modifiers) : Ink.textOf (TypeRef.modifierInk m) = m.text := by
  obtain ⟨c, r, n⟩ := m
  cases c <;> cases r <;> cases n <;> rfl

theorem textOf_commas : ∀ items : List (List Ink),
    Ink.textOf (Ink.commas items) = String.intercalate ", " (items.map Ink.textOf)
  | [] => rfl
  | [item] => String.intercalate_singleton.symm
  | item :: next :: rest => by
    have following := textOf_commas (next :: rest)
    rw [List.map_cons] at following
    have comma (tail : String) :
        (Ink.mark .comma).text ++ (Ink.space.text ++ tail) = ", " ++ tail := by
      rw [← String.append_assoc]
      rfl
    rw [Ink.commas, textOf_append, textOf_cons, textOf_cons, following, comma, List.map_cons,
      List.map_cons, String.intercalate_cons_cons, String.append_assoc]
    nofun

/-- A word with arguments in brackets, after modifiers. -/
theorem textOf_applied (m : Modifiers) (head : Ink) (args : List TypeRef) :
    Ink.textOf (TypeRef.modifierInk m ++
        head :: Ink.enclosed .openBracket .closeBracket (TypeRef.inkAll args)) =
      m.text ++ (head.text ++ ("[" ++
        String.intercalate ", " ((TypeRef.inkAll args).map Ink.textOf) ++ "]")) := by
  rw [textOf_append, textOf_modifierInk, textOf_cons, Ink.enclosed, textOf_append, textOf_cons,
    textOf_commas]
  rfl

mutual

theorem TypeRef.meaning?_text : ∀ (t : TypeRef) (type : Ty), t.meaning? p generics = some type →
    type.text = t.text
  | .primitive n m kind, _, known | .void n m, _, known | .named n m name, _, known => by
    cases TypeRef.meaning?_means known <;>
      rw [TypeRef.text, TypeRef.ink, textOf_append, textOf_modifierInk] <;> rfl
  | .array n m args, _, known => by
    cases TypeRef.meaning?_means known with
    | array inner =>
      rw [TypeRef.text, TypeRef.ink, textOf_applied, ← meanings?_text args _ inner, Ty.text]
      have word : "array[" = (Ink.word .kwArray).text ++ "[" := rfl
      rw [word]
      simp only [String.append_assoc, List.map_cons, List.map_nil, String.intercalate_singleton]
  | .keymap n m args, _, known => by
    cases TypeRef.meaning?_means known with
    | keymap inner =>
      rw [TypeRef.text, TypeRef.ink, textOf_applied, ← meanings?_text args _ inner, Ty.text]
      have word : "keymap[" = (Ink.word .kwKeymap).text ++ "[" := rfl
      rw [word]
      simp only [String.append_assoc, List.map_cons, List.map_nil, String.intercalate_cons_cons,
        String.intercalate_singleton]
  | .generic n m name args, _, known => by
    cases TypeRef.meaning?_means known with
    | genericClass inner =>
      rw [TypeRef.text, TypeRef.ink, textOf_applied, ← meanings?_text args _ inner, Ty.text, Ty.texts_eq]
      simp only [String.append_assoc]
      rfl

theorem meanings?_text : ∀ (ts : List TypeRef) (types : List Ty),
    meanings? p generics ts = some types → types.map Ty.text = (TypeRef.inkAll ts).map Ink.textOf
  | [], _, known => by
    cases known
    rfl
  | t :: rest, _, known => by
    obtain ⟨type, others, rfl, first, following⟩ := meanings?_cons known
    rw [List.map_cons, t.meaning?_text type first, meanings?_text rest others following]
    rfl

end

/-! ## Equality -/

mutual

theorem TypeRef.meaning?_same : ∀ (t u : TypeRef) (a b : Ty), t.meaning? p generics = some a →
    u.meaning? p generics = some b → (a = b ↔ t.same u = true)
  | .primitive n m kind, _, _, _, known, known' | .void n m, _, _, _, known, known' => by
    cases TypeRef.meaning?_means known
    cases TypeRef.meaning?_means known' <;> simp [TypeRef.same]
  | .named n m name, _, _, _, known, known' => by
    cases TypeRef.meaning?_means known <;> cases TypeRef.meaning?_means known' <;>
      simp [TypeRef.same, Ident.same] <;> grind
  | .array n m args, _, _, _, known, known' => by
    cases TypeRef.meaning?_means known with
    | array inner =>
    cases TypeRef.meaning?_means known' with
    | array inner' => simp [TypeRef.same, ← meanings?_same args _ _ _ inner inner']
    | _ => simp [TypeRef.same]
  | .keymap n m args, _, _, _, known, known' => by
    cases TypeRef.meaning?_means known with
    | keymap inner =>
    cases TypeRef.meaning?_means known' with
    | keymap inner' => simp [TypeRef.same, ← meanings?_same args _ _ _ inner inner']
    | _ => simp [TypeRef.same]
  | .generic n m name args, _, _, _, known, known' => by
    cases TypeRef.meaning?_means known with
    | genericClass inner =>
    cases TypeRef.meaning?_means known' with
    | genericClass inner' =>
      simp [TypeRef.same, Ident.same, ← meanings?_same args _ _ _ inner inner', and_assoc]
    | _ => simp [TypeRef.same]

theorem meanings?_same : ∀ (ts us : List TypeRef) (as bs : List Ty),
    meanings? p generics ts = some as → meanings? p generics us = some bs →
      (as = bs ↔ TypeRef.sameAll ts us = true)
  | [], [], _, _, known, known' => by
    cases known
    cases known'
    simp [TypeRef.sameAll]
  | [], _ :: _, _, _, known, known' => by
    obtain ⟨_, _, rfl, _, _⟩ := meanings?_cons known'
    cases known
    simp [TypeRef.sameAll]
  | _ :: _, [], _, _, known, known' => by
    obtain ⟨_, _, rfl, _, _⟩ := meanings?_cons known
    cases known'
    simp [TypeRef.sameAll]
  | t :: ts, u :: us, _, _, known, known' => by
    obtain ⟨a, as, rfl, first, following⟩ := meanings?_cons known
    obtain ⟨b, bs, rfl, first', following'⟩ := meanings?_cons known'
    have heads := t.meaning?_same u a b first first'
    have tails := meanings?_same ts us as bs following following'
    simp [TypeRef.sameAll, heads, tails]

end

/-! ## Resolution -/

variable {f g : Findings} {scope : Scope}

/-- Some nodes are different, and none of them is visited. -/
structure Findings.Unvisited (f : Findings) (nodes : List Node) : Prop where
  distinct : Distinct nodes
  fresh : ∀ n ∈ nodes, f.validity n.id = none

/-- Nothing is entered for other nodes than some. -/
def Findings.EntersOnly (f g : Findings) (nodes : List Node) : Prop :=
  ∀ id, id ∉ nodes.map Node.id → g.validity id = f.validity id

namespace Findings.Unvisited

variable {n : Node} {xs ys : List Node}

theorem below (h : f.Unvisited (n :: xs)) : f.Unvisited xs :=
  ⟨h.distinct.below, fun m listed => h.fresh m (List.mem_cons_of_mem n listed)⟩

theorem left (h : f.Unvisited (xs ++ ys)) : f.Unvisited xs :=
  ⟨h.distinct.left, fun m listed => h.fresh m (List.mem_append_left ys listed)⟩

theorem right (h : f.Unvisited (xs ++ ys)) (enters : f.EntersOnly g xs) : g.Unvisited ys := by
  refine ⟨h.distinct.right, fun m listed => ?_⟩
  have apart : m.id ∉ xs.map Node.id := fun mine =>
    h.distinct.apart mine (List.mem_map_of_mem listed)
  exact (enters m.id apart).trans (h.fresh m (List.mem_append_right xs listed))

end Findings.Unvisited

/-- Resolving a written type gives what it stands for, if it stands for a type. -/
def TypeRef.Evaluates (t : TypeRef) : Prop := ∀ scope f, f.Unvisited t.nodes →
  Ensures t.resolve.run scope f fun r g =>
    r.toOption = t.meaning? scope.program scope.generics ∧ f.EntersOnly g t.nodes

def evaluatesEach (ts : List TypeRef) : Prop := ∀ scope f, f.Unvisited (TypeRef.nodesAll ts) →
  Ensures (resolveEach ts) scope f fun rs g =>
    (allResolved rs).toOption = meanings? scope.program scope.generics ts ∧
      f.EntersOnly g (TypeRef.nodesAll ts)

theorem TypeRef.nodes_eq_cons (t : TypeRef) : t.nodes = t.node :: TypeRef.nodesAll t.args := by
  cases t <;> rfl

section Rules

/-- The rule of a written type, whose node is not visited. -/
theorem TypeRef.evaluates_remembered {t : TypeRef} (unvisited : f.Unvisited t.nodes) {x : Infer Ty}
    (rule : Ensures x.run scope f fun r g => r.toOption = t.meaning? scope.program scope.generics ∧
      f.EntersOnly g (TypeRef.nodesAll t.args)) :
    Ensures (remembered t.id x).run scope f fun r g =>
      r.toOption = t.meaning? scope.program scope.generics ∧ f.EntersOnly g t.nodes := by
  rw [t.nodes_eq_cons] at unvisited ⊢
  change Ensures (remembered t.node.id x).run scope f _
  refine .remembered (unvisited.fresh _ (List.mem_cons_self ..)) rule fun r g ⟨value, enters⟩ => ?_
  refine ⟨value, fun id other => ?_⟩
  rw [List.map_cons, List.mem_cons, not_or] at other
  rw [Findings.validity_record_other g r other.1, enters id other.2]

variable {n : Node} {m : Modifiers} {args : List TypeRef}

theorem arrayType_evaluates (inner : evaluatesEach args)
    (unvisited : f.Unvisited (TypeRef.nodesAll args)) :
    Ensures (arrayType n m (resolveEach args)).run scope f fun r g =>
      r.toOption = (TypeRef.array n m args).meaning? scope.program scope.generics ∧
        f.EntersOnly g (TypeRef.nodesAll args) := by
  refine .lift_bind (inner scope f unvisited) fun rs g ⟨all, enters⟩ => ?_
  rw [TypeRef.meaning?, ← all]
  refine .settle_bind (fun types known => ?_) fun fault => ⟨by rw [fault]; rfl, enters⟩
  rw [known]
  match types with
  | [elem] => exact .pure ⟨rfl, enters⟩
  | [] | _ :: _ :: _ => exact .fail ⟨rfl, enters⟩

theorem keymapType_evaluates (inner : evaluatesEach args)
    (unvisited : f.Unvisited (TypeRef.nodesAll args)) :
    Ensures (keymapType n m (resolveEach args)).run scope f fun r g =>
      r.toOption = (TypeRef.keymap n m args).meaning? scope.program scope.generics ∧
        f.EntersOnly g (TypeRef.nodesAll args) := by
  refine .lift_bind (inner scope f unvisited) fun rs g ⟨all, enters⟩ => ?_
  rw [TypeRef.meaning?, ← all]
  refine .settle_bind (fun types known => ?_) fun fault => ⟨by rw [fault]; rfl, enters⟩
  rw [known]
  match types with
  | [key, value] => exact .pure ⟨rfl, enters⟩
  | [] | [_] | _ :: _ :: _ :: _ => exact .fail ⟨rfl, enters⟩

theorem Program.theClass?_eq (p : Program) (span : Span) (name : String) :
    p.theClass? name = (p.classFor span name).toOption := by
  unfold theClass? classFor
  cases p.findClass name <;> rfl

theorem Ensures.settleBy_ok_bind {α β : Type} {a : α} {k : α → Infer β}
    {post : Except Reported β → Findings → Prop} (h : Ensures (k a).run scope f post) :
    Ensures (ClassLang.settleBy (.ok a) >>= k).run scope f post := h

theorem namedType_evaluates {name : Ident} :
    Ensures (namedType n m name.name).run scope f fun r g =>
      r.toOption = (TypeRef.named n m name).meaning? scope.program scope.generics ∧
        f.EntersOnly g [] := by
  refine .read_bind (.learn_bind ?_)
  rw [TypeRef.meaning?]
  split
  · rename_i listed
    rw [if_pos (by simpa using listed)]
    exact .pure ⟨rfl, fun _ _ => rfl⟩
  · rename_i free
    rw [if_neg (by simpa using free), Program.arity?, Program.theClass?_eq _ n.span]
    cases scope.program.classFor n.span name.name with
    | error _ => exact .fail_bind ⟨rfl, fun _ _ => rfl⟩
    | ok owner =>
      refine .settleBy_ok_bind ?_
      dsimp only
      split
      · rename_i generic
        refine .fail_bind ⟨?_, fun _ _ => rfl⟩
        simp [Except.toOption, generic]
      · rename_i bare
        refine .learn_bind (.pure ⟨?_, fun _ _ => rfl⟩)
        simp only [ne_eq, not_not] at bare
        simp [Except.toOption, bare]

/-- What is left of the rule of a name with arguments once it names a class and these have types. -/
def appliedClass (scope : Scope) (n : Node) (m : Modifiers) (name : String) (owner : Nat)
    (types : List Ty) : Infer Ty := do
  let expected := (scope.program.classAt owner).generics.length
  if expected = 0 then fail n.span (.notGeneric name)
  if expected ≠ types.length then fail n.span (.typeArgumentCount name types.length expected)
  learn (·.use (.class owner))
  if Ty.allConcrete types then learn (·.instantiate name types)
  return .genericClass m name types

theorem appliedClass_evaluates {name : String} {owner : Nat} (types : List Ty) :
    Ensures (appliedClass scope n m name owner types).run scope f fun r g =>
      r.toOption = (if types ≠ [] ∧ (scope.program.classAt owner).generics.length = types.length then
        some (.genericClass m name types) else none) ∧ f.EntersOnly g [] := by
  unfold appliedClass
  dsimp only
  split
  · rename_i bare
    refine .fail_bind ⟨(if_neg fun both => both.1 ?_).symm, fun _ _ => rfl⟩
    exact List.length_eq_zero_iff.1 (both.2 ▸ bare)
  rename_i generic
  split
  · rename_i other
    exact .fail_bind ⟨(if_neg fun both => other both.2).symm, fun _ _ => rfl⟩
  rename_i counted
  rw [ne_eq, not_not] at counted
  have filled : types ≠ [] := fun empty => generic (counted.trans (congrArg List.length empty))
  have sound := And.intro filled counted
  rw [if_pos sound]
  refine .learn_bind ?_
  split
  · refine .learn_bind (.pure ⟨rfl, fun id _ => ?_⟩)
    obtain ⟨_, entered⟩ := (f.use (.class owner)).instantiate_eq name types
    rw [entered]
    rfl
  · exact .pure ⟨rfl, fun _ _ => rfl⟩

theorem genericType_evaluates {name : Ident} (inner : evaluatesEach args)
    (unvisited : f.Unvisited (TypeRef.nodesAll args)) :
    Ensures (genericType n m name.name (resolveEach args)).run scope f fun r g =>
      r.toOption = (TypeRef.generic n m name args).meaning? scope.program scope.generics ∧
        f.EntersOnly g (TypeRef.nodesAll args) := by
  refine .read_bind ?_
  split
  · rename_i listed
    have listed : name.name ∈ scope.generics := by simpa using listed
    refine .learn_bind (.fail_bind ⟨?_, fun _ _ => rfl⟩)
    rw [TypeRef.meaning?]
    split <;> simp [Except.toOption, listed]
  · rename_i free
    have free : name.name ∉ scope.generics := by simpa using free
    refine .lift_bind (inner scope f unvisited) fun rs g found => ?_
    obtain ⟨all, enters⟩ := found
    rw [TypeRef.meaning?, ← all, Program.arity?, Program.theClass?_eq _ n.span]
    cases scope.program.classFor n.span name.name with
    | error _ =>
      refine .fail_bind ⟨?_, enters⟩
      cases allResolved rs <;> simp [Except.toOption]
    | ok owner =>
      refine .settleBy_ok_bind ?_
      cases allResolved rs with
      | error _ => exact .settle_bind (fun _ known => by cases known) fun _ => ⟨rfl, enters⟩
      | ok types =>
        refine (appliedClass_evaluates types).weaken fun r h applied => ?_
        refine ⟨applied.1.trans (by simp [Except.toOption, free]), fun id other => ?_⟩
        exact (applied.2 id List.not_mem_nil).trans (enters id other)

end Rules

mutual

theorem TypeRef.evaluates : ∀ t : TypeRef, t.Evaluates
  | .primitive .., _, _, unvisited | .void .., _, _, unvisited =>
    TypeRef.evaluates_remembered unvisited (.pure ⟨rfl, fun _ _ => rfl⟩)
  | .named .., _, _, unvisited => TypeRef.evaluates_remembered unvisited namedType_evaluates
  | .array _ _ args, _, _, unvisited =>
    TypeRef.evaluates_remembered unvisited (arrayType_evaluates (evaluates_each args) unvisited.below)
  | .keymap _ _ args, _, _, unvisited =>
    TypeRef.evaluates_remembered unvisited (keymapType_evaluates (evaluates_each args) unvisited.below)
  | .generic _ _ _ args, _, _, unvisited =>
    TypeRef.evaluates_remembered unvisited (genericType_evaluates (evaluates_each args) unvisited.below)

theorem evaluates_each : ∀ ts : List TypeRef, evaluatesEach ts
  | [], _, _, _ => .pure ⟨rfl, fun _ _ => rfl⟩
  | t :: rest, scope, f, unvisited => by
    refine .bind (t.evaluates scope f unvisited.left) fun r g ⟨value, enters⟩ => ?_
    refine .bind (evaluates_each rest scope g (unvisited.right enters)) fun rs h ⟨values, enters'⟩ => ?_
    refine .pure ⟨?_, fun id other => ?_⟩
    · rw [meanings?, ← value, ← values, allResolved, allResolved, List.mapM_cons]
      cases r with
      | error _ => rfl
      | ok type => cases rs.mapM id <;> rfl
    · rw [TypeRef.nodesAll, List.map_append, List.mem_append, not_or] at other
      rw [enters' id other.2, enters id other.1]

end

/-! ## Written types as they are read -/

/-- A written type of a program that has been parsed, or one that has been parsed by itself. -/
inductive TypeRef.Parsed : TypeRef → Prop
  | inProgram {source : Source} {p : Program} {t : TypeRef} :
    source.parse Parser.program = .ok p → t ∈ p.typeRefs → Parsed t
  | alone {source : Source} {t : TypeRef} : source.parse Parser.typeRef = .ok t → Parsed t

theorem TypeRef.Parsed.distinct {t : TypeRef} (parsed : t.Parsed) : Distinct t.nodes := by
  cases parsed with
  | inProgram whole listed => exact Program.typeRef_distinct (Source.parse_program_nodup whole) listed
  | @alone source _ whole =>
    obtain ⟨tokens, s, _, run, _⟩ := Source.parse_eq_ok.1 whole
    refine List.nodup_iff_count_le_one.2 fun i => ?_
    have begins : 0 + (ParserState.start tokens source.whole).claims i ≤ 1 := by
      simpa [ParserState.claims, ParserState.start] using stillFree_le_one i 0
    have kept := Parser.typeRef_conserves i 1 _ t s run begins
    exact (Nat.le_add_right _ _).trans kept

theorem TypeRef.exec_resolve {t : TypeRef} (parsed : t.Parsed) {s : CheckState}
    (fresh : ∀ n ∈ t.nodes, s.findings.validity n.id = none) :
    (Check.exec t.resolve.run scope s).1.toOption = t.meaning? scope.program scope.generics :=
  (t.evaluates scope s.findings ⟨parsed.distinct, fresh⟩ s rfl).1

/-- A written type resolves exactly if each part of it is in order. The type that it resolves to has the
same text, and two of them are equal exactly if they are written alike. -/
theorem TypeRef.resolve_exact {t : TypeRef} (parsed : t.Parsed) (scope : Scope) {s : CheckState}
    (fresh : ∀ n ∈ t.nodes, s.findings.validity n.id = none) :
    ((∃ type, (Check.exec t.resolve.run scope s).1 = .ok type) ↔
      ∀ u, .type u ∈ t.subtrees → u.InOrder scope.program scope.generics) ∧
    ∀ type, (Check.exec t.resolve.run scope s).1 = .ok type → type.text = t.text ∧
      ∀ (u : TypeRef) (s' : CheckState) (type' : Ty), u.Parsed →
        (∀ n ∈ u.nodes, s'.findings.validity n.id = none) →
        (Check.exec u.resolve.run scope s').1 = .ok type' → (type = type' ↔ t.same u = true) := by
  have meaning (v : TypeRef) (s : CheckState) (parsed : v.Parsed)
      (fresh : ∀ n ∈ v.nodes, s.findings.validity n.id = none) (type : Ty) :
      (Check.exec v.resolve.run scope s).1 = .ok type ↔
        v.meaning? scope.program scope.generics = some type := by
    rw [← v.exec_resolve parsed fresh]
    cases (Check.exec v.resolve.run scope s).1 <;> simp [Except.toOption]
  refine ⟨?_, fun type resolved => ?_⟩
  · simp only [meaning t s parsed fresh, ← Option.isSome_iff_exists]
    exact t.meaning?_isSome
  · rw [meaning t s parsed fresh] at resolved
    refine ⟨t.meaning?_text type resolved, fun u s' type' parsed' fresh' resolved' => ?_⟩
    rw [meaning u s' parsed' fresh'] at resolved'
    exact t.meaning?_same u type type' resolved resolved'

/-- Two types that differ in one modifier, inside a class with a type parameter. -/
theorem boxes_resolve : ∃ p t u type type',
    (⟨"class A \x7b \x7d class Box[T] \x7b \x7d", none⟩ : Source).parse Parser.program = .ok p ∧
    (⟨"keymap[T, array[nullable Box[A]]]", none⟩ : Source).parse Parser.typeRef = .ok t ∧
    (⟨"keymap[T, array[Box[A]]]", none⟩ : Source).parse Parser.typeRef = .ok u ∧
    let scope := (Scope.top p ⟨true, true⟩).inClass 1 true
    (Check.exec t.resolve.run scope .empty).1 = .ok type ∧
    (Check.exec u.resolve.run scope .empty).1 = .ok type' ∧
    (∀ v, .type v ∈ t.subtrees → v.InOrder p ["T"]) ∧ type.text = t.text ∧ type ≠ type' := by
  let program : Source := ⟨"class A \x7b \x7d class Box[T] \x7b \x7d", none⟩
  let first : Source := ⟨"keymap[T, array[nullable Box[A]]]", none⟩
  let second : Source := ⟨"keymap[T, array[Box[A]]]", none⟩
  let boxes (m : Modifiers) : Ty :=
    .keymap .none (.param .none "T") (.array .none (.genericClass m "Box" [.plainClass .none "A"]))
  have run : ((program.parse Parser.program).toOption.bind fun p =>
      (first.parse Parser.typeRef).toOption.bind fun t =>
      (second.parse Parser.typeRef).toOption.map fun u =>
      let scope := (Scope.top p ⟨true, true⟩).inClass 1 true
      (scope.generics, (Check.exec t.resolve.run scope .empty).1.toOption,
        (Check.exec u.resolve.run scope .empty).1.toOption, t.same u)) =
      some (["T"], some (boxes ⟨false, false, true⟩), some (boxes .none), false) := by
    decide +kernel
  obtain ⟨p, parsed, run⟩ := Option.bind_eq_some_iff.1 run
  obtain ⟨t, read, run⟩ := Option.bind_eq_some_iff.1 run
  obtain ⟨u, read', views⟩ := Option.map_eq_some_iff.1 run
  simp only [Prod.mk.injEq] at views
  obtain ⟨generics, resolved, resolved', apart⟩ := views
  have resolved := ok_of_toOption resolved
  have resolved' := ok_of_toOption resolved'
  obtain ⟨exact, faithful⟩ := TypeRef.resolve_exact (.alone (ok_of_toOption read))
    ((Scope.top p ⟨true, true⟩).inClass 1 true) (s := .empty) fun _ _ => rfl
  obtain ⟨text, same⟩ := faithful _ resolved
  refine ⟨p, t, u, _, _, ok_of_toOption parsed, ok_of_toOption read, ok_of_toOption read', resolved,
    resolved', generics ▸ exact.1 ⟨_, resolved⟩, text, fun alike => ?_⟩
  have alike := (same u .empty _ (.alone (ok_of_toOption read')) (fun _ _ => rfl) resolved').1 alike
  rw [apart] at alike
  cases alike

end ClassLang
