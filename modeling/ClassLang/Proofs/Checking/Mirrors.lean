import ClassLang.Checking.Exprs
import ClassLang.Proofs.Checking.Ancestry
import ClassLang.Proofs.Checking.Renumbering

/-!
What is found when a name is looked up in renumbered programs, or later in the same one: the same, up
to the numbers of the classes. Look-ups read the types in signatures and the ancestors of classes, and
nothing else.
-/

namespace ClassLang

variable {p q : Program} {σ : Equiv.Perm Nat} {f g : Findings}

/-! ## What is found -/

def FoundField.renumber (σ : Equiv.Perm Nat) (found : FoundField) : FoundField :=
  { found with owner := σ found.owner }

def FoundMethod.renumber (σ : Equiv.Perm Nat) (found : FoundMethod) : FoundMethod :=
  { found with owner := σ found.owner }

def MethodSearch.renumber (σ : Equiv.Perm Nat) (search : MethodSearch) : MethodSearch :=
  ⟨search.found.map (.renumber σ), search.accessible.map (.renumber σ), search.hasInstance⟩

def Candidate.renumber (σ : Equiv.Perm Nat) (c : Candidate) : Candidate :=
  { c with decl := c.decl.renumber σ }

def Callee.renumber (σ : Equiv.Perm Nat) (callee : Callee) : Callee :=
  { callee with candidates := callee.candidates.map (.renumber σ) }

namespace Receiver

def renumber (σ : Equiv.Perm Nat) : Receiver → Receiver
  | .static owner => .static (σ owner)
  | .instance owner args mods => .instance (σ owner) args mods

variable (from_ : Receiver)

theorem owner_renumber : (from_.renumber σ).owner = σ from_.owner := by cases from_ <;> rfl

theorem args_renumber : (from_.renumber σ).args = from_.args := by cases from_ <;> rfl

theorem hasInstance_renumber : (from_.renumber σ).hasInstance = from_.hasInstance := by
  cases from_ <;> rfl

theorem isConst_renumber : (from_.renumber σ).isConst = from_.isConst := by cases from_ <;> rfl

end Receiver

/-! Where nothing is named anew, what is found stays as it is. -/

@[simp] theorem FoundField.renumber_refl : FoundField.renumber (Equiv.refl Nat) = id := rfl

@[simp] theorem Candidate.renumber_refl : Candidate.renumber (Equiv.refl Nat) = id :=
  funext fun c => by simp [Candidate.renumber]

@[simp] theorem Callee.renumber_refl : Callee.renumber (Equiv.refl Nat) = id := by
  funext callee
  rw [Callee.renumber, Candidate.renumber_refl, List.map_id]
  rfl

@[simp] theorem Receiver.renumber_refl : Receiver.renumber (Equiv.refl Nat) = id :=
  funext fun from_ => by cases from_ <;> rfl

/-! ## What look-ups read -/

/-- The same is known of the types in signatures, and of the ancestors of each class. -/
structure Findings.Mirrors (p : Program) (σ : Equiv.Perm Nat) (f g : Findings) : Prop where
  chain : ∀ i, g.chain (σ i) = (f.chain i).map (Ancestor.renumber σ)
  cached : ∀ t ∈ p.signature, g.cached t.id = f.cached t.id
  typeOf : ∀ t ∈ p.signature, g.typeOf t.id = f.typeOf t.id

theorem findSome?_mirrored {α β : Type} {view view' : α → Option β} (r : α → α) (s : β → β)
    (items : List α) (each : ∀ a ∈ items, view' (r a) = (view a).map s) :
    (items.map r).findSome? view' = (items.findSome? view).map s := by
  induction items with
  | nil => rfl
  | cons a rest ih =>
    rw [List.map_cons, List.findSome?_cons, List.findSome?_cons, each a (List.mem_cons_self ..),
      ih fun b listed => each b (List.mem_cons_of_mem a listed)]
    cases view a <;> rfl

theorem findSome?_congr {α β : Type} {view view' : α → Option β} {items : List α}
    (each : ∀ a ∈ items, view' a = view a) : items.findSome? view' = items.findSome? view := by
  have same := findSome?_mirrored id id items fun a listed =>
    (each a listed).trans (congrFun Option.map_id (view a)).symm
  rwa [List.map_id, Option.map_id] at same

theorem mapM_option_congr {α β : Type} {view view' : α → Option β} {items : List α}
    (each : ∀ a ∈ items, view' a = view a) : items.mapM view' = items.mapM view := by
  induction items with
  | nil => rfl
  | cons a rest ih =>
    rw [List.mapM_cons, List.mapM_cons, each a (List.mem_cons_self ..),
      ih fun b listed => each b (List.mem_cons_of_mem a listed)]

theorem Program.findMethods_declared {owner : Nat} {name : String} {args : Substitution}
    {m : FoundMethod} (found : m ∈ p.findMethods f owner name args) :
    (p.classAt m.owner).methods[m.index]? = some m.method := by
  obtain ⟨ancestor, _, found⟩ := List.mem_flatMap.1 found
  obtain ⟨declared, listed, rfl⟩ := List.mem_map.1 found
  exact List.mem_zipIdx_iff_getElem?.1 (List.mem_filter.1 listed).1

theorem Program.findMethods_signature {owner : Nat} {name : String} {args : Substitution}
    {m : FoundMethod} (found : m ∈ p.findMethods f owner name args) :
    m.method.signature ⊆ p.signature := fun _ listed =>
  Program.classAt_signature m.owner (List.mem_append_right _
    (List.mem_flatMap.2 ⟨_, List.mem_of_getElem? (findMethods_declared found), listed⟩))

namespace Findings.Mirrors

section Signatures

variable (m : f.Mirrors p σ g)
include m

theorem paramTypes? {params : List Param} (written : params.map Param.type ⊆ p.signature) :
    g.paramTypes? params = f.paramTypes? params :=
  mapM_option_congr fun _ listed => m.typeOf _ (written (List.mem_map_of_mem listed))

theorem signatureThrough? {params : List Param} {returnType : TypeRef} (args : Substitution)
    (written : params.map Param.type ++ [returnType] ⊆ p.signature) :
    g.signatureThrough? params returnType args = f.signatureThrough? params returnType args := by
  have types : (params.mapM fun param => g.cached param.type.id) =
      params.mapM fun param => f.cached param.type.id :=
    mapM_option_congr fun _ listed =>
      m.cached _ (written (List.mem_append_left _ (List.mem_map_of_mem listed)))
  rw [Findings.signatureThrough?, types,
    m.cached _ (written (List.mem_append_right _ (List.mem_singleton_self _)))]
  rfl

theorem candidate? {found : FoundMethod} (written : found.method.signature ⊆ p.signature) :
    (found.renumber σ).candidate? g = (found.candidate? f).map (Candidate.renumber σ) := by
  have types := m.signatureThrough? found.args written
  unfold FoundMethod.candidate? FoundMethod.renumber
  dsimp only
  rw [types]
  cases f.signatureThrough? found.method.params found.method.returnType found.args <;> rfl

end Signatures

variable (h : p.Renumbered q σ) (m : f.Mirrors p σ g)
include h m

/-! ## Declarations -/

theorem findField? (owner : Nat) (name : String) (receiver : Substitution) :
    q.findField? g (σ owner) name receiver =
      (p.findField? f owner name receiver).map (FoundField.renumber σ) := by
  unfold Program.findField?
  rw [m.chain]
  refine findSome?_mirrored _ _ _ fun a _ => ?_
  dsimp only [Ancestor.renumber]
  rw [h.classAt]
  cases (p.classAt a.index).fieldIndex? name with
  | none => rfl
  | some index =>
    cases declared : (p.classAt a.index).fields[index]? with
    | none => simp [declared]
    | some field =>
      have known : g.cached field.type.id = f.cached field.type.id :=
        m.cached _ (Program.classAt_signature _ (List.mem_append_left _
          (List.mem_map_of_mem (List.mem_of_getElem? declared))))
      simp only [declared, known, Option.bind_eq_bind, Option.bind_some, Option.pure_def]
      cases f.cached field.type.id <;> rfl

theorem findMethods (owner : Nat) (name : String) (receiver : Substitution) :
    q.findMethods g (σ owner) name receiver =
      (p.findMethods f owner name receiver).map (FoundMethod.renumber σ) := by
  unfold Program.findMethods
  rw [m.chain, List.flatMap_map, List.map_flatMap]
  simp only [Ancestor.renumber, h.classAt, List.map_map]
  rfl

theorem functionCandidates (name : String) :
    q.functionCandidates g name = p.functionCandidates f name := by
  unfold Program.functionCandidates
  simp only [h.functionsNamed, h.functionAt]
  refine List.filterMap_congr fun i listed => ?_
  rw [m.signatureThrough? _ (Program.functionAt_signature (List.mem_filter.1 listed).1)]

theorem operatorResult? (args : List Operand) {i : Nat} {name : String}
    (named : i ∈ p.functionsNamed name) : q.operatorResult? g args i = p.operatorResult? f args i := by
  have written := Program.functionAt_signature named
  unfold Program.operatorResult?
  dsimp only
  rw [h.functionAt, h.ownerParams, m.paramTypes? fun t listed => written (List.mem_append_left _ listed),
    m.typeOf _ (written (List.mem_append_right _ (List.mem_singleton_self _)))]

theorem findOperator? (operator : Operator) (args : List Operand) :
    q.findOperator? g operator args = p.findOperator? f operator args := by
  unfold Program.findOperator?
  rw [h.functionsNamed]
  exact findSome?_congr fun i listed => by rw [m.operatorResult? h args listed]

/-! ## Surroundings -/

variable {scope : Scope} (same : scope.program = p)

omit h in
theorem mayUse (owner : Nat) (access : Access) :
    (scope.mirrored q σ).mayUse g (σ owner) access = scope.mayUse f owner access := by
  cases access with
  | «public» => rfl
  | «private» =>
    rw [Bool.eq_iff_iff]
    cases here : scope.selfClass <;> simp [Scope.mayUse, Scope.mirrored, here]
  | «protected» =>
    rw [Bool.eq_iff_iff]
    cases here : scope.selfClass <;>
      simp [Scope.mayUse, Scope.mirrored, here, m.chain, Ancestor.renumber]

include same

theorem ownField? (name : String) :
    (scope.mirrored q σ).ownField? g name = (scope.ownField? f name).map (FoundField.renumber σ) := by
  subst same
  unfold Scope.ownField? Scope.mirrored
  cases scope.selfClass with
  | none => rfl
  | some here => exact m.findField? h here name .empty

theorem checkAccess (span : Span) (owner : Nat) (access : Access) (name : String) :
    (scope.mirrored q σ).checkAccess g span (σ owner) access name =
      scope.checkAccess f span owner access name := by
  subst same
  unfold Scope.checkAccess
  rw [m.mayUse, Scope.mirrored_program, h.classAt]

theorem namedClass? (e : Expr) :
    (scope.mirrored q σ).namedClass? g e = (scope.namedClass? f e).map σ := by
  cases e with
  | ident n name =>
    unfold Scope.namedClass?
    dsimp only
    rw [Scope.mirrored_env, m.ownField? h same, Scope.mirrored_program, h.theClass?, same,
      Option.isSome_map]
    by_cases bound : (scope.env.contains name.name || (scope.ownField? f name.name).isSome) = true
    · rw [if_pos bound, if_pos bound]
      rfl
    · rw [if_neg bound, if_neg bound]
  | _ => rfl

omit m in
theorem instanceReceiver (target : Expr) (access : MemberAccess) (type : Ty) :
    (scope.mirrored q σ).instanceReceiver target access type =
      (scope.instanceReceiver target access type).map (Receiver.renumber σ) := by
  subst same
  unfold Scope.instanceReceiver
  rw [Scope.mirrored_program, h.classOf?]
  split
  · rfl
  · cases scope.program.classOf? type with
    | none => rfl
    | some owner =>
      dsimp only [Option.map_some]
      rw [h.argsOf]
      rfl

theorem memberOf (from_ : Receiver) (name : Ident) :
    (scope.mirrored q σ).memberOf g (from_.renumber σ) name =
      (scope.memberOf f from_ name).map (FoundField.renumber σ) := by
  unfold Scope.memberOf
  rw [Scope.mirrored_program]
  dsimp only
  rw [from_.owner_renumber, from_.args_renumber, from_.hasInstance_renumber, m.findField? h, h.classAt,
    same]
  cases p.findField? f from_.owner name.name from_.args with
  | none => rfl
  | some found =>
    dsimp only [Option.map_some, FoundField.renumber]
    rw [m.checkAccess h same]
    cases scope.checkAccess f name.span found.owner found.field.access name.name with
    | error e => rfl
    | ok _ => cases checkInstance name.span name.name found.field.isStatic from_.hasInstance <;> rfl

/-! ## Calls -/

theorem searchMethods (owner : Nat) (name : String) (receiver : Substitution) (hasInstance : Bool) :
    (scope.mirrored q σ).searchMethods g (σ owner) name receiver hasInstance =
      (scope.searchMethods f owner name receiver hasInstance).renumber σ := by
  subst same
  unfold Scope.searchMethods
  dsimp only
  rw [Scope.mirrored_program, m.findMethods h, List.filter_map]
  simp only [Function.comp_def, FoundMethod.renumber, m.mayUse]
  rfl

omit h m same in
theorem lacksInstance (search : MethodSearch) :
    (search.renumber σ).lacksInstance = search.lacksInstance := by
  simp [MethodSearch.lacksInstance, MethodSearch.renumber, List.any_map, Function.comp_def,
    FoundMethod.renumber]

omit h in
theorem candidates (owner : Nat) (name : String) (receiver : Substitution) (hasInstance : Bool) :
    ((scope.searchMethods f owner name receiver hasInstance).renumber σ).candidates g =
      ((scope.searchMethods f owner name receiver hasInstance).candidates f).map
        (Candidate.renumber σ) := by
  subst same
  have usable (search : MethodSearch) :
      (search.renumber σ).usable = search.usable.map (FoundMethod.renumber σ) := by
    simp only [MethodSearch.usable, MethodSearch.renumber, List.filter_map]
    rfl
  rw [MethodSearch.candidates, usable, List.filterMap_map, MethodSearch.candidates,
    List.map_filterMap]
  refine List.filterMap_congr fun found listed => ?_
  have accessible := (List.mem_filter.1 (List.mem_filter.1 listed).1).1
  exact m.candidate? (Program.findMethods_signature accessible)

theorem calleeNamed (span : Span) (name : String) :
    (scope.mirrored q σ).calleeNamed g span name =
      (scope.calleeNamed f span name).map (Callee.renumber σ) := by
  have functions : (p.functionCandidates f name).map (Candidate.renumber σ) =
      p.functionCandidates f name := by
    unfold Program.functionCandidates
    rw [List.map_filterMap]
    refine List.filterMap_congr fun i _ => ?_
    rw [Option.map_map]
    rfl
  unfold Scope.calleeNamed
  rw [Scope.mirrored_program, m.functionCandidates h, same]
  cases here : scope.selfClass with
  | none =>
    rw [Scope.mirrored_selfClass, here, Scope.mirrored_env]
    dsimp only [Option.map_none]
    rw [show MethodSearch.none.candidates g = MethodSearch.none.candidates f from rfl]
    split
    · rfl
    split
    · rfl
    split
    · rfl
    rw [Except.map, Callee.renumber, List.map_append, functions]
    rfl
  | some owner =>
    rw [Scope.mirrored_selfClass, here, Scope.mirrored_env, Scope.mirrored_isInstance]
    dsimp only [Option.map_some]
    rw [m.searchMethods h same, m.candidates same, lacksInstance]
    simp only [MethodSearch.renumber, List.isEmpty_map]
    split
    · rfl
    split
    · rfl
    split
    · rfl
    rw [Except.map, Callee.renumber, List.map_append, functions]

theorem calleeOf (from_ : Receiver) (name : Ident) :
    (scope.mirrored q σ).calleeOf g (from_.renumber σ) name =
      (scope.calleeOf f from_ name).map (Callee.renumber σ) := by
  unfold Scope.calleeOf
  dsimp only
  rw [from_.owner_renumber, from_.args_renumber, from_.hasInstance_renumber, m.searchMethods h same,
    m.candidates same, lacksInstance, Scope.mirrored_program, h.classAt, same]
  simp only [MethodSearch.renumber, List.isEmpty_map, List.find?_map]
  split
  · rfl
  split
  · rfl
  have hidden : ((fun found : FoundMethod =>
        !(scope.mirrored q σ).mayUse g found.owner found.method.access) ∘ FoundMethod.renumber σ) =
      fun found => !scope.mayUse f found.owner found.method.access :=
    funext fun found => congrArg not (m.mayUse found.owner found.method.access)
  rw [hidden]
  generalize (scope.searchMethods f from_.owner name.name from_.args from_.hasInstance).found.find?
    (fun found => !scope.mayUse f found.owner found.method.access) = passedOver
  cases passedOver with
  | none => rfl
  | some found =>
    dsimp only [Option.map_some, FoundMethod.renumber]
    rw [h.classAt]
    split <;> rfl

end Findings.Mirrors

end ClassLang
