import ClassLang.Proofs.Checking.Trails

/-!
Resolving a written type that has not been visited leaves a trail over it and its arguments, and its
result is what the type denotes: a well-formed type, or none.
-/

namespace ClassLang

variable {p : Program} {own : Subtree → Place → Prop} {f g : Findings} {types : List TypeRef}
  {xs ys : List Node} {subtrees : List Subtree} {place : Place}

/-! ## Subtrees to visit -/

/-- Some subtrees, all at one place. -/
def At (subtrees : List Subtree) (place : Place) (x : Subtree) (here : Place) : Prop :=
  x ∈ subtrees ∧ here = place

theorem At.mono {more : List Subtree} (sub : subtrees ⊆ more) :
    ∀ x here, At subtrees place x here → At more place x here :=
  fun _ _ ⟨listed, same⟩ => ⟨sub listed, same⟩

theorem At.inside (nodes : subtrees.map Subtree.node = xs) :
    ∀ x here, At subtrees place x here → x.node ∈ xs :=
  fun _ _ mine => nodes ▸ List.mem_map_of_mem mine.1

/-- Some nodes are still to be visited, while some types are known. -/
structure Findings.Awaits (f : Findings) (types : List TypeRef) (nodes : List Node) : Prop where
  tidy : f.Tidy
  distinct : Distinct nodes
  fresh : ∀ n ∈ nodes, f.validity n.id = none
  known : f.Known types

namespace Findings.Awaits

theorem left (h : f.Awaits types (xs ++ ys)) : f.Awaits types xs :=
  ⟨h.tidy, h.distinct.left, fun n listed => h.fresh n (List.mem_append_left _ listed), h.known⟩

theorem below {n : Node} (h : f.Awaits types (n :: xs)) : f.Awaits types xs :=
  ⟨h.tidy, h.distinct.below, fun n listed => h.fresh n (List.mem_cons_of_mem _ listed), h.known⟩

theorem perm (h : f.Awaits types xs) (same : xs.Perm ys) : f.Awaits types ys :=
  ⟨h.tidy, h.distinct.perm same, fun n listed => h.fresh n (same.mem_iff.2 listed), h.known⟩

/-- What is left to visit when nothing is entered about it. -/
theorem keep (h : f.Awaits types (xs ++ ys)) (tidy : g.Tidy) (later : f.Extends g)
    (same : ∀ n ∈ ys, g.validity n.id = f.validity n.id) : g.Awaits types ys :=
  ⟨tidy, h.distinct.right,
    fun n listed => (same n listed).trans (h.fresh n (List.mem_append_right _ listed)),
    later.known h.known⟩

/-- What is left to visit after a trail over the first nodes. -/
theorem after (h : f.Awaits types (xs ++ ys)) (t : Trail p own f g)
    (inside : ∀ x place, own x place → x.node ∈ xs) : g.Awaits types ys := by
  refine h.keep (t.tidy h.tidy) (t.extends_ h.tidy) fun n listed => ?_
  refine t.validity_eq fun x place mine same => ?_
  refine h.distinct.apart (List.mem_map_of_mem (inside x place mine)) ?_
  rw [show x.node.id = n.id from same]
  exact List.mem_map_of_mem listed

theorem swap (h : f.Awaits types (xs ++ ys)) : f.Awaits types (ys ++ xs) :=
  h.perm List.perm_append_comm

/-- A node is not visited with those below it. -/
theorem head_fresh {n : Node} (h : f.Awaits types (n :: xs)) (t : Trail p own f g)
    (inside : ∀ x place, own x place → x.node ∈ xs) : g.validity n.id = none :=
  (h.perm (List.perm_append_singleton n xs).symm |>.after t inside).fresh n
    (List.mem_singleton_self n)

end Findings.Awaits

/-! ## Results -/

theorem mapM_id_ok {α : Type} {rs : List (Except Reported α)} {values : List α}
    (h : rs.mapM id = .ok values) : rs = values.map .ok := by
  induction rs generalizing values with
  | nil =>
    cases h
    rfl
  | cons r rest ih =>
    rw [List.mapM_cons] at h
    cases r with
    | error _ => cases h
    | ok value =>
      cases others : rest.mapM id with
      | error _ =>
        rw [others] at h
        cases h
      | ok values =>
        rw [others] at h
        cases h
        rw [ih others]
        rfl

/-- If all results are there, they are known as such. -/
theorem forall₂_of_mapM_id {α β : Type} {R : α → Except Reported β → Prop} {as : List α}
    {rs : List (Except Reported β)} {values : List β} (h : List.Forall₂ R as rs)
    (all : rs.mapM id = .ok values) : List.Forall₂ (fun a value => R a (.ok value)) as values := by
  rw [mapM_id_ok all] at h
  exact List.forall₂_map_right_iff.1 h

theorem exists_of_forall₂ {α β : Type} {R : α → β → Prop} {as : List α} {bs : List β}
    (h : List.Forall₂ R as bs) : ∀ a ∈ as, ∃ b, R a b := by
  induction h with
  | nil => exact fun _ => nofun
  | cons first _ ih => exact List.forall_mem_cons.2 ⟨⟨_, first⟩, ih⟩

/-! ## Rules -/

/-- The rule of a written type, whose arguments are visited. -/
def Resolves (scope : Scope) (t : TypeRef) (below : List Subtree) (f : Findings) (r : Resolved)
    (g : Findings) : Prop :=
  ∃ h, Trail scope.program (At below scope.place) f h ∧
    g = (h.aliasAny t.id (t.aliasIn scope.generics)).taken scope.program r ∧
      Denoted scope.program scope.generics h t r ∧ scope.program.Forms scope.generics r

def TypeRef.Traced (t : TypeRef) : Prop := ∀ scope f types, f.Awaits types t.nodes →
  Ensures t.resolve.run scope f fun r g =>
    Trail scope.program (At t.subtrees scope.place) f g ∧ g.cached t.id = some r ∧
      scope.program.Forms scope.generics r

def resolveEachTraced (ts : List TypeRef) : Prop := ∀ scope f types,
  f.Awaits types (TypeRef.nodesAll ts) → Ensures (resolveEach ts) scope f fun rs g =>
    Trail scope.program (At (TypeRef.subtreesAll ts) scope.place) f g ∧
      List.Forall₂ (fun t r => g.cached t.id = some r ∧ scope.program.Forms scope.generics r) ts rs

section Rules

variable {scope : Scope}

theorem Resolves.remembered {t : TypeRef} {below : List Subtree} {x : Infer Ty}
    (subtrees : t.subtrees = .type t :: below) (awaits : f.Awaits types t.nodes)
    (rule : Ensures x.run scope f (Resolves scope t below f)) :
    Ensures (remembered t.id x).run scope f fun r g =>
      Trail scope.program (At t.subtrees scope.place) f g ∧ g.cached t.id = some r ∧
        scope.program.Forms scope.generics r := by
  have nodes : t.nodes = t.node :: below.map Subtree.node := by rw [← t.subtrees_nodes, subtrees]; rfl
  rw [nodes] at awaits
  refine .remembered (awaits.fresh _ (List.mem_cons_self ..)) rule ?_
  rintro r _ ⟨h, trail, rfl, denoted, forms⟩
  have fresh : h.validity t.id = none := awaits.head_fresh trail (At.inside rfl)
  have here : At t.subtrees scope.place (.type t) scope.place := ⟨t.subtree_mem_subtrees, rfl⟩
  have visit : Visit scope.program (At t.subtrees scope.place) h _ :=
    .resolve here fresh denoted
  refine ⟨(trail.mono (At.mono ?_)).trans (.single visit),
    Findings.cached_record _ _ _ ((h.validity_resolved _ _ r _).trans fresh), forms⟩
  rw [subtrees]
  exact List.subset_cons_self _ _

theorem Resolves.fault {t : TypeRef} {below : List Subtree} (silent : t.aliasIn scope.generics = none)
    (trail : Trail scope.program (At below scope.place) f g) :
    Resolves scope t below f (.error ⟨⟩) g :=
  ⟨g, trail, by rw [silent]; rfl, .fault, fun _ => nofun⟩

/-- The arguments of a type are known, so it is well-formed. -/
theorem Resolves.of_denoted {t : TypeRef} {below : List Subtree} {h : Findings} {type : Ty}
    {values : List Ty}
    (trail : Trail scope.program (At below scope.place) f h)
    (entered : g = (h.aliasAny t.id (t.aliasIn scope.generics)).taken scope.program (.ok type))
    (denoted : Denoted scope.program scope.generics h t (.ok type))
    (known : List.Forall₂ (fun arg type => h.cached arg.id = some (.ok type) ∧
      scope.program.Forms scope.generics (.ok type)) t.args values) :
    Resolves scope t below f (.ok type) g := by
  refine ⟨h, trail, entered, denoted, ?_⟩
  rintro _ ⟨⟩
  refine denoted.formed (fun _ named => named) fun arg listed type typed => ?_
  obtain ⟨type', same, forms⟩ := exists_of_forall₂ known arg listed
  cases same.symm.trans typed
  exact forms _ rfl

theorem arrayType_resolves {n : Node} {m : Modifiers} {args : List TypeRef}
    (inner : resolveEachTraced args) (awaits : f.Awaits types (TypeRef.nodesAll args)) :
    Ensures (arrayType n m (resolveEach args)).run scope f
      (Resolves scope (.array n m args) (TypeRef.subtreesAll args) f) := by
  refine .lift_bind (inner scope f types awaits) fun rs g ⟨trail, known⟩ => ?_
  refine .settle_bind (fun values all => ?_) fun _ => .fault rfl trail
  have known := forall₂_of_mapM_id known all
  split
  · cases known with
    | cons first rest =>
      cases rest
      exact .pure (.of_denoted trail rfl (.array first.1) (.cons first .nil))
  · exact .fail (.fault rfl trail)

theorem keymapType_resolves {n : Node} {m : Modifiers} {args : List TypeRef}
    (inner : resolveEachTraced args) (awaits : f.Awaits types (TypeRef.nodesAll args)) :
    Ensures (keymapType n m (resolveEach args)).run scope f
      (Resolves scope (.keymap n m args) (TypeRef.subtreesAll args) f) := by
  refine .lift_bind (inner scope f types awaits) fun rs g ⟨trail, known⟩ => ?_
  refine .settle_bind (fun values all => ?_) fun _ => .fault rfl trail
  have known := forall₂_of_mapM_id known all
  split
  · cases known with
    | cons key rest =>
      cases rest with
      | cons value rest =>
        cases rest
        exact .pure (.of_denoted trail rfl (.keymap key.1 value.1) (.cons key (.cons value .nil)))
  · exact .fail (.fault rfl trail)

theorem Program.theClass?_of_classFor {span : Span} {name : String} {owner : Nat}
    (h : p.classFor span name = .ok owner) : p.theClass? name = some owner := by
  rw [theClass?, classFor_ok h]

theorem namedType_resolves {n : Node} {m : Modifiers} {name : Ident} :
    Ensures (namedType n m name.name).run scope f (Resolves scope (.named n m name) [] f) := by
  refine .read_bind (.learn_bind ?_)
  have fault : Resolves scope (.named n m name) [] f (.error ⟨⟩)
      (f.setAlias n.id (scope.generics.contains name.name)) := ⟨f, .refl f, rfl, .fault, fun _ => nofun⟩
  split
  · rename_i listed
    exact .pure (.of_denoted (.refl f) rfl (.param (by simpa using listed)) .nil)
  · rename_i free
    refine .settleBy_bind (fun owner found => ?_) fault
    have found := Program.theClass?_of_classFor found
    dsimp only
    split
    · exact .fail_bind fault
    · rename_i bare
      refine .learn_bind (.pure (.of_denoted (.refl f) ?_
        (.plainClass (by simpa using free) found ?_) .nil))
      · simp only [Findings.taken, Program.classOf?, Ty.className?, Option.bind_some, found]
        rfl
      · simpa [Class.params] using bare

theorem genericType_resolves {n : Node} {m : Modifiers} {name : Ident} {args : List TypeRef}
    (inner : resolveEachTraced args) (awaits : f.Awaits types (TypeRef.nodesAll args)) :
    Ensures (genericType n m name.name (resolveEach args)).run scope f
      (Resolves scope (.generic n m name args) (TypeRef.subtreesAll args) f) := by
  refine .read_bind ?_
  split
  · rename_i listed
    refine .learn_bind (.fail_bind ⟨f, .refl f, ?_, .fault, fun _ => nofun⟩)
    rw [TypeRef.aliasIn, if_pos listed]
    rfl
  · rename_i free
    have silent : (TypeRef.generic n m name args).aliasIn scope.generics = none := if_neg free
    refine .lift_bind (inner scope f types awaits) fun rs g ⟨trail, known⟩ => ?_
    refine .settleBy_bind (fun owner found => ?_) (.fault silent trail)
    have found := Program.theClass?_of_classFor found
    refine .settle_bind (fun values all => ?_) fun _ => .fault silent trail
    have known := forall₂_of_mapM_id known all
    dsimp only
    split
    · exact .fail_bind (.fault silent trail)
    rename_i generic
    split
    · exact .fail_bind (.fault silent trail)
    rename_i length
    have denoted : Denoted scope.program scope.generics g (.generic n m name args)
        (.ok (.genericClass m name.name values)) := by
      refine .genericClass (by simpa using free) found (known.imp fun _ _ => And.left) ?_ ?_
      · simpa [Class.params] using generic
      · simpa [Class.params] using length
    have counted : (g.aliasAny n.id ((TypeRef.generic n m name args).aliasIn scope.generics)).taken
        scope.program (.ok (.genericClass m name.name values)) =
          (g.use (.class owner)).instantiated (.genericClass m name.name values) := by
      simp only [silent, Findings.taken, Program.classOf?, Ty.className?, Option.bind_some, found]
      rfl
    refine .learn_bind ?_
    split
    · rename_i concrete
      refine .learn_bind (.pure (.of_denoted trail ?_ denoted known))
      rw [TypeRef.id, TypeRef.node, counted, Findings.instantiated, if_pos concrete]
    · rename_i open_
      refine .pure (.of_denoted trail ?_ denoted known)
      rw [TypeRef.id, TypeRef.node, counted, Findings.instantiated, if_neg open_]

end Rules

/-! ## Resolution -/

mutual

theorem TypeRef.traced : ∀ t : TypeRef, t.Traced
  | .primitive .., _, f, _, awaits | .void .., _, f, _, awaits =>
    Resolves.remembered rfl awaits (.pure (.of_denoted (.refl f) rfl (by constructor) .nil))
  | .named .., _, _, _, awaits =>
    Resolves.remembered rfl awaits namedType_resolves
  | .array _ _ args, _, _, _, awaits =>
    Resolves.remembered rfl awaits (arrayType_resolves (resolveEach_traced args) awaits.below)
  | .keymap _ _ args, _, _, _, awaits =>
    Resolves.remembered rfl awaits (keymapType_resolves (resolveEach_traced args) awaits.below)
  | .generic _ _ _ args, _, _, _, awaits =>
    Resolves.remembered rfl awaits (genericType_resolves (resolveEach_traced args) awaits.below)

theorem resolveEach_traced : ∀ ts : List TypeRef, resolveEachTraced ts
  | [], _, f, _, _ => .pure ⟨.refl f, .nil⟩
  | t :: rest, scope, f, types, awaits => by
    refine .bind (t.traced scope f types awaits.left) fun r g ⟨first, known, forms⟩ => ?_
    have later := awaits.after first (At.inside t.subtrees_nodes)
    refine .bind (resolveEach_traced rest scope g types later) fun rs h ⟨others, knownRest⟩ => ?_
    refine .pure ⟨(first.mono (At.mono ?_)).trans (others.mono (At.mono ?_)), .cons ?_ knownRest⟩
    · exact List.subset_append_left _ _
    · exact List.subset_append_right _ _
    · exact ⟨(others.extends_ later.tidy).cached known, forms⟩

end

end ClassLang
