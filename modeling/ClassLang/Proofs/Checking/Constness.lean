import ClassLang.Proofs.Checking.CallResolution
import ClassLang.Proofs.Checking.DeclarationVerdicts
import ClassLang.Proofs.Types.Constness

/-!
What is read-only stays so along every path: the fields and elements of something read-only are
read-only as well, cannot be assigned to, and are bound by reference only to what is read-only.

* `Source.constness`: this for every path from a read-only variable or field.
-/

namespace ClassLang

variable {p : Program} {f : Findings} {scope : Scope} {around : Surroundings} {e : Expr} {type : Ty}

/-! ## Declared types -/

theorem Denoted.isConst {generics : List String} {t : TypeRef}
    (h : Denoted p generics f t (.ok type)) : type.isConst = t.mods.const := by
  cases h <;> rfl

theorem Denoted.declarable {generics : List String} {t : TypeRef}
    (h : Denoted p generics f t (.ok type))
    (args : ∀ arg ∈ t.args, ∀ type, f.cached arg.id = some (.ok type) → type.Declarable) :
    type.Declarable := by
  cases h with
  | array elem =>
    have inner := args _ (List.mem_cons_self ..) _ elem
    exact inner
  | keymap key value =>
    exact ⟨args _ (List.mem_cons_self ..) _ key,
      args _ (List.mem_cons_of_mem _ (List.mem_cons_self ..)) _ value⟩
  | genericClass _ _ known _ _ => exact Ty.declarableAll_iff.2 (Findings.all_of_known args known)
  | _ => trivial

theorem Program.argsOf_declarable (p : Program) (owner : Nat) (declarable : type.Declarable) :
    (p.argsOf owner type).Declarable := by
  rw [argsOf_eq]
  exact .ofArgs declarable.classArgs

namespace Findings.TypesDenoted

variable (types : f.TypesDenoted p)
include types

/-- A written type denotes a type of variables and fields, read-only if it is written so. -/
theorem declared {t : TypeRef} {place : Place} (stands : p.Stands (.type t) place)
    (known : f.cached t.id = some (.ok type)) :
    type.Declarable ∧ type.isConst = t.mods.const := by
  refine ⟨TypeRef.denoted place (fun t type stands known args => ?_) t
    (fun _ inside => stands.below inside) type known, (types t place _ stands known).isConst⟩
  exact (types t place _ stands known).declarable args

variable (links : f.LinksDenoted p)
include links

theorem ancestorsAbove_declarable {bound : Nat} {seen : List Nat} {last a : Ancestor}
    (before : last.args.Declarable) (listed : a ∈ f.ancestorsAbove bound seen last) :
    a.args.Declarable := by
  induction bound generalizing seen last with
  | zero => cases listed
  | succ bound ih =>
    rw [Findings.ancestorsAbove] at listed
    split at listed
    · cases listed
    · rename_i link linked
      split at listed
      · cases listed
      · obtain ⟨written, type, clause, known, _, args⟩ := links _ _ linked
        have declared := (types.declared (Program.stands_of_clause clause) known).1
        have next : (link.args.andThen last.args).Declarable := by
          rw [args]
          exact .andThen (p.argsOf_declarable _ declared) before
        rcases List.mem_cons.1 listed with rfl | listed
        · exact next
        · exact ih next listed

theorem chain_declarable {i : Nat} {a : Ancestor} (listed : a ∈ f.chain i) : a.args.Declarable := by
  rcases List.mem_cons.1 listed with rfl | listed
  · exact .empty
  · exact types.ancestorsAbove_declarable links .empty listed

/-- The type of a field as seen from where it is looked up: read-only if it is declared so. -/
theorem field_declared {owner : Nat} {name : String} {receiver : Substitution} {found : FoundField}
    (through : receiver.Declarable) (located : p.findField? f owner name receiver = some found)
    (typed : found.type = .ok type) :
    type.Declarable ∧ (found.field.type.mods.const = true → type.isConst = true) := by
  obtain ⟨a, listed, _, _, declared, r, known, same⟩ := Program.findField?_some located
  rw [same] at typed
  cases r with
  | error _ => cases typed
  | ok written =>
    cases typed
    have inSignature : found.field.type ∈ (p.classAt a.index).signature :=
      List.mem_append_left _ (List.mem_map_of_mem (List.mem_of_getElem? declared))
    obtain ⟨declarable, const⟩ := types.declared (Program.stands_of_signature inSignature) known
    have seen := (types.chain_declarable links listed).andThen through
    exact ⟨seen.apply declarable, fun isConst => Substitution.isConst_apply (const.trans isConst)⟩

end Findings.TypesDenoted

/-! ## Paths -/

/-- A path from something read-only: a variable or field of the class around whose declared type is
read-only, and what is reached from such by members and by elements of collections. An index of which
an operator function gives the meaning is no step of a path. -/
inductive Program.ConstPath (p : Program) (f : Findings) (around : Surroundings) : Expr → Prop
  | variable {n : Node} {name : Ident} {t : TypeRef} : around.vars.lookup name.name = some t →
    t.mods.const = true → ConstPath p f around (.ident n name)
  | field {n : Node} {name : Ident} {owner : Nat} {found : FoundField} :
    around.vars.lookup name.name = none → around.place.selfClass = some owner →
      p.findField? f owner name.name .empty = some found → found.field.type.mods.const = true →
        ConstPath p f around (.ident n name)
  | member {n : Node} {target : Expr} {access : MemberAccess} {name : Ident} :
    ConstPath p f around target → ConstPath p f around (.member n target access name)
  | element {n : Node} {target place : Expr} : ConstPath p f around target →
    f.resolution n.id = none → ConstPath p f around (.index n target place)

/-- What a path leads to is no class. -/
theorem Program.ConstPath.unnamed (path : scope.program.ConstPath f around e)
    (fits : scope.Fits f around) : scope.namedClass? f e = none := by
  cases path with
  | «variable» inScope _ =>
    obtain ⟨r, bound, _⟩ := fits.bound inScope
    exact Scope.namedClass?_none (.inl (by rw [bound]; rfl))
  | @field n name owner found _ here located _ =>
    have own : scope.ownField? f name.name = some found := by
      rw [Scope.ownField?, fits.selfClass, here]
      exact located
    exact Scope.namedClass?_none (.inr (by rw [own]; rfl))
  | member _ | element _ _ => rfl

/-- The type of a member comes from the field that is found. -/
theorem Judged.ofMember {n : Node} {target : Expr} {access : MemberAccess} {name : Ident}
    {decl : Option Decl} {r : Resolved} (judged : Judged scope f (.member n target access name) decl r)
    (typed : r = .ok type) : ∃ from_ found, Receives scope f target access from_ ∧
      scope.program.findField? f from_.owner name.name from_.args = some found ∧
        ∃ inner, found.type = .ok inner ∧ type = inner.constIf from_.isConst := by
  cases judged with
  | fault => cases typed
  | @member _ _ _ _ from_ found receives located =>
    refine ⟨from_, found, receives, Scope.memberOf_found located, ?_⟩
    cases inner : found.type with
    | error _ =>
      rw [inner] at typed
      cases typed
    | ok inner =>
      rw [inner] at typed
      cases typed
      exact ⟨_, rfl, rfl⟩

section Path

variable (complete : f.Complete scope.program) (fits : scope.Fits f around)
  (declared : ∀ v ∈ around.vars, .type v.2 ∈ scope.program.subtrees) {xs : List Subtree}
  (settled : AllSettled scope xs f) (closed : Closed xs) (part : xs ⊆ scope.program.subtrees)
include complete fits declared settled closed part

/-- What a path leads to has a type of variables and fields, and it is read-only. -/
theorem Program.ConstPath.typed (path : scope.program.ConstPath f around e) (inside : .expr e ∈ xs)
    (known : f.cached e.id = some (.ok type)) : type.Declarable ∧ type.isConst = true := by
  have types := complete.types
  have links := complete.links
  induction path generalizing type with
  | @«variable» n name t inScope const =>
    obtain ⟨r, bound, written⟩ := fits.bound inScope
    obtain ⟨-, same⟩ := (settled _ inside).bound r bound
    rw [same type known] at written
    obtain ⟨before, after, split, -⟩ := List.lookup_eq_some_iff.1 inScope
    have listed := declared (name.name, t) (split ▸ List.mem_append_cons_self)
    rcases Program.stands_of_mem listed with ⟨_, _, same⟩ | ⟨place, stands⟩
    · cases same
    obtain ⟨declarable, same⟩ := types.declared stands written
    exact ⟨declarable, same.trans const⟩
  | @field n name owner found free here located const =>
    have own : scope.ownField? f name.name = some found := by
      rw [Scope.ownField?, fits.selfClass, here]
      exact located
    have same := (settled _ inside).own (fits.unbound free) found own type known
    obtain ⟨declarable, isConst⟩ := types.field_declared links .empty located same
    exact ⟨declarable, isConst const⟩
  | @member n target access name path ih =>
    have below : .expr target ∈ xs :=
      closed.subset inside (List.mem_cons_of_mem _ target.subtree_mem_subtrees)
    cases complete.certifies _ (part inside) with
    | blank _ untyped => exact absurd known (untyped type)
    | named _ named _ _ => cases named
    | @judged other r program _ _ typed judged =>
      cases known.symm.trans typed
      obtain ⟨from_, found, receives, located, inner, seenAs, rfl⟩ := judged.ofMember rfl
      cases receives with
      | static _ refers =>
        have named := (complete.names_class (part below) (settled _ below)).named _ refers
        rw [path.unnamed fits] at named
        cases named
      | «instance» _ target_known _ receives =>
        obtain ⟨declarable, const⟩ := ih below target_known
        obtain ⟨owner, _, rfl⟩ := Scope.instanceReceiver_ok receives
        rw [program] at located
        obtain ⟨seen, -⟩ := types.field_declared links
          (scope.program.argsOf_declarable owner declarable) located seenAs
        exact ⟨Ty.declarable_constIf.2 seen,
          Ty.isConst_constIf.trans (Bool.or_eq_true_iff.2 (.inr const))⟩
  | @element n target place path builtin ih =>
    have below : .expr target ∈ xs :=
      closed.subset inside
        (List.mem_cons_of_mem _ (List.mem_append_left _ target.subtree_mem_subtrees))
    cases complete.certifies _ (part inside) with
    | blank _ untyped => exact absurd known (untyped type)
    | named _ named _ _ => cases named
    | @judged other r program _ _ typed judged =>
      cases known.symm.trans typed
      have refers : f.resolution (Expr.index n target place).id = none := builtin
      rw [refers] at judged
      cases judged with
      | element collection _ _ =>
        obtain ⟨declarable, const⟩ := ih below collection
        exact ⟨Ty.declarable_constIf.2 declarable,
          Ty.isConst_constIf.trans (Bool.or_eq_true_iff.2 (.inr const))⟩
      | value collection _ _ =>
        obtain ⟨declarable, const⟩ := ih below collection
        exact ⟨Ty.declarable_constIf.2 declarable.2,
          Ty.isConst_constIf.trans (Bool.or_eq_true_iff.2 (.inr const))⟩

end Path

/-! ## References -/

/-- An expression has been bound by reference to a target of some type, and this has been accepted: by
an assignment, as the first value of a variable or field, as an argument of a call or an operand of an
operator function, or by a return. -/
inductive Program.Binds (p : Program) (f : Findings) (around : Surroundings) (e : Expr) (target : Ty) :
    Prop
  | assigned {n : Node} {place : Expr} : .assign n .reference place e ∈ p.exprs →
    (f.typeOf n.id).isSome = true → f.typeOf place.id = some target → Binds p f around e target
  | variable {n : Node} {decl : VarDecl} {init : Initializer} :
    (around, .varDecl n decl) ∈ p.situated → decl.init = some init → init.kind = .reference →
      init.value = e → f.validity n.id = some true → f.typeOf decl.type.id = some target →
        Binds p f around e target
  | field {i : Nat} {field : Field} {init : Initializer} : i ∈ p.classIndices →
    field ∈ (p.classAt i).fields → field.init = some init → init.kind = .reference →
      init.value = e → f.validity (p.classAt i).id = some true →
        f.typeOf field.type.id = some target → Binds p f around e target
  | argument {n : Node} {callee : Expr} {args : List Expr} {k : Nat} {hasInstance : Bool}
    {offers : List Offer} {o : Offer} {param : Param} {declared : Ty} :
    p.Situates around (.call n callee args) → args[k]? = some e →
      p.Offers f around callee hasInstance offers → o ∈ offers → f.resolution n.id = some o.decl →
        o.params[k]? = some param → f.typeOf param.type.id = some declared →
          o.args.apply declared = target → target.isReference = true → Binds p f around e target
  | operand {operation : Expr} {i k : Nat} {given types : List Ty} {declared : Ty} :
    operation ∈ p.exprs → operation.operands[k]? = some e →
      f.resolution operation.id = some (.function i) →
        List.Forall₂ (fun (x : Expr) t => f.typeOf x.id = some t) operation.operands given →
          f.paramTypes? (p.functionAt i).params = some types → types[k]? = some declared →
            (Substitution.learnAll (p.ownerParams (p.functionAt i)) types given .empty).apply declared =
              target → target.isReference = true → Binds p f around e target
  | returned {n : Node} {t : TypeRef} : (around, .return n (some e)) ∈ p.situated →
    around.returns = some t → f.validity n.id = some true → f.typeOf t.id = some target →
      target.isReference = true → Binds p f around e target

theorem forall₂_getElem? {α β : Type} {R : α → β → Prop} {as : List α} {bs : List β}
    (h : List.Forall₂ R as bs) {k : Nat} {a : α} (here : as[k]? = some a) :
    ∃ b, bs[k]? = some b ∧ R a b := by
  induction h generalizing k with
  | nil => cases here
  | cons first _ ih =>
    cases k with
    | zero =>
      cases here
      exact ⟨_, rfl, first⟩
    | succ k => exact ih here

/-- If parameters take some arguments, each takes the argument in its place. -/
theorem accepts_of_acceptsAll {params types : List Ty} {args : List Expr} {k : Nat} {param type : Ty}
    (accepted : acceptsAll params (operands args types) = true) (isParam : params[k]? = some param)
    (isArg : args[k]? = some e) (isType : types[k]? = some type) :
    param.accepts type e.isPlace = true := by
  obtain ⟨-, each⟩ := Bool.and_eq_true_iff.1 accepted
  have both : (args.zip types)[k]? = some (e, type) := List.getElem?_zip_eq_some.2 ⟨isArg, isType⟩
  have operand : (operands args types)[k]? = some ⟨type, e.isPlace⟩ := by
    rw [operands, List.getElem?_map, both]
    rfl
  have pair : (params.zip (operands args types))[k]? = some (param, ⟨type, e.isPlace⟩) :=
    List.getElem?_zip_eq_some.2 ⟨isParam, operand⟩
  exact List.all_eq_true.1 each _ (List.mem_of_getElem? pair)

section Binding

variable (complete : f.Complete p) (declarable : ∀ type, f.cached e.id = some (.ok type) →
  type.Declarable ∧ type.isConst = true)
include complete declarable

/-- Something read-only is never assigned to. -/
theorem Findings.Complete.not_assigned {n : Node} {kind : AssignKind} {value : Expr}
    (listed : .assign n kind e value ∈ p.exprs) : f.typeOf n.id = none := by
  cases typed : f.typeOf n.id with
  | none => rfl
  | some type =>
    have known : f.cached (Expr.assign n kind e value).id = some (.ok type) :=
      complete.tidy.cached.1 typed
    cases complete.certifies _ (Program.mem_exprs.1 listed) with
    | blank _ untyped => exact absurd known (untyped type)
    | named _ named _ _ => cases named
    | @judged other r _ _ _ typed judged =>
      cases known.symm.trans typed
      generalize f.resolution (Expr.assign n kind e value).id = decl at judged
      cases judged with
      | assign target _ writable _ =>
        rw [(declarable _ target).2] at writable
        cases writable

/-- Something read-only is only bound to something read-only by an assignment. -/
theorem Findings.Complete.binds_assigned {n : Node} {place : Expr} {target : Ty}
    (listed : .assign n .reference place e ∈ p.exprs) (typed : (f.typeOf n.id).isSome = true)
    (known : f.typeOf place.id = some target) : target.isConst = true := by
  obtain ⟨type, typed⟩ := Option.isSome_iff_exists.1 typed
  have entered : f.cached (Expr.assign n .reference place e).id = some (.ok type) :=
    complete.tidy.cached.1 typed
  cases complete.certifies _ (Program.mem_exprs.1 listed) with
  | blank _ untyped => exact absurd entered (untyped type)
  | named _ named _ _ => cases named
  | @judged other r _ _ _ typed judged =>
    cases entered.symm.trans typed
    generalize f.resolution (Expr.assign n .reference place e).id = decl at judged
    cases judged with
    | assign goal value _ stored =>
      cases goal.symm.trans (complete.tidy.cached.1 known)
      obtain ⟨declarable, const⟩ := declarable _ value
      exact checkStore_isConst declarable const stored

/-- Something read-only is only bound to something read-only by an operator function. -/
theorem Findings.Complete.binds_operand {operation : Expr} {i k : Nat} {given types : List Ty}
    {declared target : Ty} (listed : operation ∈ p.exprs) (here : operation.operands[k]? = some e)
    (refers : f.resolution operation.id = some (.function i))
    (applied : List.Forall₂ (fun (x : Expr) t => f.typeOf x.id = some t) operation.operands given)
    (params : f.paramTypes? (p.functionAt i).params = some types)
    (isParam : types[k]? = some declared)
    (learned : (Substitution.learnAll (p.ownerParams (p.functionAt i)) types given .empty).apply
      declared = target) (isReference : target.isReference = true) : target.isConst = true := by
  have known := applied.imp fun _ _ => complete.tidy.cached.1
  have taken {operator : Operator} {result : Ty}
      (found : p.findOperator? f operator (operands operation.operands given) = some (i, result)) :
      target.isConst = true := by
    obtain ⟨j, -, found⟩ := List.exists_of_findSome?_eq_some found
    obtain ⟨_, found, same⟩ := Option.map_eq_some_iff.1 found
    cases same
    simp only [Program.operatorResult?, Option.bind_eq_bind, Option.bind_eq_some_iff, Option.pure_def,
      operands_types known] at found
    obtain ⟨_, given_params, _, _, _, accepted, _⟩ := found
    cases params.symm.trans given_params
    obtain ⟨type, isType, typed⟩ := forall₂_getElem? known here
    obtain ⟨declarable, const⟩ := declarable type typed
    have isTarget : (types.map (Substitution.learnAll (p.ownerParams (p.functionAt i)) types given
        .empty).apply)[k]? = some target := by
      rw [List.getElem?_map, isParam, ← learned]
      rfl
    exact Ty.accepts_isConst declarable const isReference
      (accepts_of_acceptsAll ((Option.guard_eq_some' _).1 accepted) isTarget here isType)
  have unique {types : List Ty} (left : List.Forall₂
      (fun (x : Expr) t => f.cached x.id = some (.ok t)) operation.operands types) : types = given :=
    List.right_unique_forall₂' (fun _ _ _ first second => by cases first.symm.trans second; rfl)
      left known
  cases complete.certifies _ (Program.mem_exprs.1 listed) with
  | blank unreferred _ => cases refers.symm.trans unreferred
  | named _ _ _ named => cases refers.symm.trans named
  | @judged other r program _ _ _ judged =>
    subst program
    rw [refers] at judged
    cases judged with
    | binaryFunction a b _ found | indexFunction a b _ found =>
      exact taken (unique (.cons a (.cons b .nil)) ▸ found)
    | unaryFunction _ _ a _ found => exact taken (unique (.cons a .nil) ▸ found)
    | call _ _ _ _ => cases here

end Binding

/-! ## Programs -/

section Program

variable (settings : Settings) (distinct : Distinct p.nodes)
  (analyzed : (p.analyze settings).state.findings = f) (situated : p.Situates around e)
include distinct analyzed

include situated in
theorem Program.ConstPath.sound (path : p.ConstPath f around e) (type : Ty)
    (known : f.cached e.id = some (.ok type)) : type.Declarable ∧ type.isConst = true := by
  subst analyzed
  obtain ⟨-, declared⟩ := situated.subtrees
  obtain ⟨root, stands, inside⟩ := situated
  obtain ⟨scope, rfl, fits, settled⟩ := Program.roots_settled settings distinct stands
  have part : root.subtrees ⊆ scope.program.subtrees := fun x below => by
    obtain ⟨place, here⟩ := Program.expr_stands
      (Program.Situates.subtrees ⟨root, stands, root.subtree_mem_subtrees⟩).1
    exact (here.below below).mem
  exact path.typed (scope.program.analyze_complete settings distinct) fits declared settled
    root.subtrees_closed part inside known

variable (declarable : ∀ type, f.cached e.id = some (.ok type) → type.Declarable ∧ type.isConst = true)
include declarable

theorem Program.binds_argument {n : Node} {callee : Expr} {args : List Expr} {k : Nat}
    {hasInstance : Bool} {offers : List Offer} {o : Offer} {param : Param} {declared target : Ty}
    (lies : p.Situates around (.call n callee args)) (here : args[k]? = some e)
    (offered : p.Offers f around callee hasInstance offers) (listed : o ∈ offers)
    (refers : f.resolution n.id = some o.decl) (isParam : o.params[k]? = some param)
    (known : f.typeOf param.type.id = some declared) (seen : o.args.apply declared = target)
    (isReference : target.isReference = true) : target.isConst = true := by
  have complete := p.analyze_complete settings distinct
  rw [analyzed] at complete
  obtain ⟨types, typed⟩ : ∃ types,
      List.Forall₂ (fun (e : Expr) type => f.cached e.id = some (.ok type)) args types := by
    cases complete.certifies _ lies.subtrees.1 with
    | blank unreferred _ => cases refers.symm.trans unreferred
    | named _ named _ _ => cases named
    | @judged other r _ _ _ _ judged =>
      have refers : f.resolution (Expr.call n callee args).id = some o.decl := refers
      rw [refers] at judged
      cases judged with
      | call _ _ args_typed _ => exact ⟨_, args_typed⟩
  cases Program.call_resolves settings distinct analyzed lies offered
    (typed.imp fun _ _ => complete.tidy.cached.2) with
  | fails _ fails => cases refers.symm.trans fails.unreferred
  | @calls before after o' result split _ viable calls =>
    have same : o = o' := by
      refine List.inj_on_of_nodup_map (offered.nodup complete.chained) listed ?_ ?_
      · rw [split]
        exact List.mem_append_cons_self
      · exact Option.some.inj (refers.symm.trans calls.refers)
    subst same
    obtain ⟨params, declared_params, accepted⟩ := viable.takes
    obtain ⟨type, isType, typed⟩ := forall₂_getElem? typed here
    obtain ⟨_, isDeclared, known'⟩ := forall₂_getElem? (forall₂_of_mapM declared_params) isParam
    cases known.symm.trans known'
    have isTarget : (params.map o.args.apply)[k]? = some target := by
      rw [List.getElem?_map, isDeclared, ← seen]
      rfl
    obtain ⟨declarable, const⟩ := declarable type typed
    exact Ty.accepts_isConst declarable const isReference
      (accepts_of_acceptsAll accepted isTarget here isType)

/-- Something read-only is only bound to something read-only. -/
theorem Program.Binds.isConst {target : Ty} (binds : p.Binds f around e target) :
    target.isConst = true := by
  have complete := p.analyze_complete settings distinct
  rw [analyzed] at complete
  cases binds with
  | assigned listed typed known => exact complete.binds_assigned declarable listed typed known
  | operand listed here refers applied params isParam learned isReference =>
    exact complete.binds_operand declarable listed here refers applied params isParam learned isReference
  | argument lies here offered listed refers isParam known seen isReference =>
    exact Program.binds_argument settings distinct analyzed declarable lies here offered listed refers
      isParam known seen isReference
  | @«variable» n decl init stands given kind value valid known =>
    subst analyzed value
    obtain ⟨scope, -, -, checked⟩ := Program.situated_checked settings distinct stands
    obtain ⟨_, type, declared, typed, stored⟩ := (checked.upheld valid).stored n decl init rfl given
    cases declared.symm.trans (complete.tidy.cached.1 known)
    rw [kind] at stored
    obtain ⟨declarable, const⟩ := declarable type typed
    exact checkStore_isConst declarable const stored
  | @field i field init listed member given kind value valid known =>
    subst analyzed value
    obtain ⟨-, checked⟩ := Program.class_sound settings distinct listed valid
    obtain ⟨_, type, declared, typed, stored⟩ := (checked.fields field member init given).stored rfl
    cases declared.symm.trans (complete.tidy.cached.1 known)
    rw [kind] at stored
    obtain ⟨declarable, const⟩ := declarable type typed
    exact checkStore_isConst declarable const stored
  | returned stands returns valid known isReference =>
    subst analyzed
    obtain ⟨scope, -, fits, checked⟩ := Program.situated_checked settings distinct stands
    obtain ⟨expected, here, -, handed⟩ := (checked.upheld valid).returned _ _ rfl
    cases fits.returned returns (complete.tidy.cached.1 known) here
    obtain ⟨type, typed, accepted⟩ := handed e rfl
    obtain ⟨declarable, const⟩ := declarable type typed
    exact Ty.accepts_isConst declarable const isReference accepted

end Program

/-- A path from a read-only variable or field, by any number of members and of elements of
collections, leads to something read-only: if the path has a type, that is read-only, no assignment to it
has a type, and whatever it is bound to by reference is read-only as well. -/
theorem Source.constness {source : Source} {settings : Settings} {c : Compilation}
    (compiled : source.compile settings = .ok c) {around : Surroundings} {e : Expr}
    (situated : c.program.Situates around e) (path : c.program.ConstPath c.findings around e) :
    (∀ type, c.findings.typeOf e.id = some type → type.isConst = true) ∧
      (∀ n kind value, .assign n kind e value ∈ c.program.exprs → c.findings.typeOf n.id = none) ∧
      ∀ target, c.program.Binds c.findings around e target → target.isConst = true := by
  obtain ⟨p, distinct, rfl⟩ := Source.compile_ok compiled
  have complete := p.analyze_complete settings distinct
  have declarable := path.sound settings distinct rfl situated
  refine ⟨fun type typed => ?_, fun n kind value => complete.not_assigned declarable,
    fun target binds => binds.isConst settings distinct rfl declarable⟩
  exact (declarable type (complete.tidy.cached.1 typed)).2

/-- An element of a field of a read-only variable: bound to a read-only alias, which is accepted, and
bound to another, assigned to and passed by reference, which is not. -/
def readOnlyElements : Source :=
  ⟨"class P \x7b public array[integer] xs := [1]; \x7d void take(reference integer n) \x7b \x7d " ++
    "const P q := new P; const reference integer r = q.xs[0]; reference integer s = q.xs[0]; " ++
    "q.xs[0] := 2; take(q.xs[0]);", none⟩

/-- The types of the elements of fields of variables. -/
def Compilation.elementTypes (c : Compilation) : List (Option Ty) :=
  c.program.exprs.filterMap fun
    | .index n (.member _ (.ident ..) ..) _ => some (c.findings.typeOf n.id)
    | _ => none

/-- Whether the variable whose field holds the element is read-only, if it is such an element. -/
def Subtree.elementOfConst (vars : List (String × TypeRef)) (f : Findings) : Subtree → Bool
  | .expr (.index n (.member _ (.ident _ name) ..) _) =>
    ((vars.lookup name.name).any fun t => t.mods.const) && (f.resolution n.id).isNone
  | _ => true

theorem readOnlyElements_constness : ∃ c : Compilation,
    readOnlyElements.compile ⟨true, true⟩ = .ok c ∧ c.errors.length = 3 ∧
      c.elementTypes = List.replicate 4 (some (.primitive ⟨true, false, false⟩ .integer)) ∧
      ∀ e ∈ c.program.exprs, ∀ n m k name access field place,
        e = .index n (.member m (.ident k name) access field) place →
          ∃ around, c.program.Situates around e ∧ c.program.ConstPath c.findings around e ∧
            (∀ n' kind value, .assign n' kind e value ∈ c.program.exprs →
              c.findings.typeOf n'.id = none) ∧
            ∀ target, c.program.Binds c.findings around e target → target.isConst = true := by
  have run : (readOnlyElements.compile ⟨true, true⟩).toOption.map (fun c =>
        (c.errors.length, c.elementTypes, c.program.roots.all fun here =>
          here.2.subtrees.all (Subtree.elementOfConst here.1.vars c.findings))) =
      some (3, List.replicate 4 (some (.primitive ⟨true, false, false⟩ .integer)), true) := by
    decide +kernel
  obtain ⟨c, compiled, views⟩ := Option.map_eq_some_iff.1 run
  simp only [Prod.mk.injEq, List.all_eq_true] at views
  obtain ⟨errors, types, paths⟩ := views
  have h := ok_of_toOption compiled
  refine ⟨c, h, errors, types, ?_⟩
  rintro e listed n m k name access field place rfl
  obtain ⟨around, root, stands, inside⟩ := Program.exists_situates (Program.mem_exprs.1 listed)
  obtain ⟨inScope, builtin⟩ := Bool.and_eq_true_iff.1 (paths _ stands _ inside)
  obtain ⟨t, inScope, const⟩ := (Option.any_eq_true _ _).1 inScope
  have path : c.program.ConstPath c.findings around
      (.index n (.member m (.ident k name) access field) place) :=
    .element (.member (.variable inScope const)) (Option.isNone_iff_eq_none.1 builtin)
  obtain ⟨-, assigned, bound⟩ := Source.constness h ⟨root, stands, inside⟩ path
  exact ⟨around, ⟨root, stands, inside⟩, path, assigned, bound⟩

end ClassLang
