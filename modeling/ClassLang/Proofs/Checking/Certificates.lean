import ClassLang.Proofs.Checking.TypeScopes
import ClassLang.Proofs.Checking.VirtualSlots

/-!
What is recorded for the expressions of a program follows from the rules of the type system.

* `Program.analyze_complete`: this and what else is known in the end.
-/

namespace ClassLang

variable {p : Program} {f g : Findings}

/-- An expression has no type and refers to nothing, or what is recorded for it follows from the
rules where it stands. -/
inductive Findings.Certifies (p : Program) (f : Findings) (e : Expr) : Prop
  | blank : f.resolution e.id = none → (∀ type, f.cached e.id ≠ some (.ok type)) → Certifies p f e
  | judged {scope : Scope} {r : Resolved} : scope.program = p → p.Stands (.expr e) scope.place →
    scope.Grounded → f.cached e.id = some r → Judged scope f e (f.resolution e.id) r →
      Certifies p f e
  | named {scope : Scope} {owner : Nat} : scope.program = p → scope.namedClass? f e = some owner →
    f.cached e.id = some (.ok (p.typeWithin owner)) → f.resolution e.id = some (.class owner) →
      Certifies p f e

namespace Findings.Certifies

variable {e : Expr}

theorem carried (h : f.Certifies p e) (later : f.Extends g) (agrees : f.Agrees p g)
    (cached : g.cached e.id = f.cached e.id) (resolution : g.resolution e.id = f.resolution e.id) :
    g.Certifies p e := by
  cases h with
  | blank unreferred untyped =>
    exact .blank (resolution.trans unreferred) fun type => cached ▸ untyped type
  | judged program stands grounded known judged =>
    subst program
    refine .judged rfl stands grounded (cached.trans known) ?_
    rw [resolution]
    exact judged.mono later agrees
  | named program named known refers =>
    subst program
    exact .named rfl ((agrees.namedClass? e).trans named) (cached.trans known)
      (resolution.trans refers)

theorem judge (h : f.Certifies p e) (tidy : f.Tidy) (id : Nat) (valid : Bool) (later : f.Extends g)
    (agrees : f.Agrees p g) (same : g = f.setValid id valid) : g.Certifies p e := by
  subst same
  have resolution := f.setValid_resolution id e.id valid
  by_cases here : e.id = id
  · cases before : f.validity e.id with
    | none =>
      refine .blank (resolution.trans (tidy.unreferred before)) fun type known => ?_
      have typed := f.setValid_typeOf id e.id valid
      rw [tidy.untyped before] at typed
      rw [Findings.cached, typed] at known
      split at known
      · cases known
      · cases known
      · split at known <;> cases known
    | some _ =>
      have unchanged : f.setValid id valid = f := by
        rw [Findings.setValid, ← here, before]
      rw [unchanged]
      exact h
  · refine h.carried later agrees (f.cached_congr ?_ (f.setValid_typeOf _ _ _) ?_) resolution
    · rw [f.validity_setValid, if_neg here]
    · rw [f.setValid_failures]

section Visits

variable (h : f.Certifies p e) (tidy : f.Tidy) (known : f.Known p.signature)
  (distinct : Distinct p.nodes) (listed : .expr e ∈ p.subtrees)
include h tidy known distinct listed

theorem visit (v : Visit p p.Stands f g) : g.Certifies p e := by
  have later := v.extends_ tidy
  have agrees := later.agrees known v.links
  have carried (id : Nat) (filled : f.Fills g id) (apart : e.id ≠ id) : g.Certifies p e :=
    h.carried later agrees (filled.cached _ apart) (filled.resolution _ apart)
  have unique {x : Subtree} {place : Place} (stands : p.Stands x place) (same : e.id = x.id) :
      .expr e = x :=
    List.inj_on_of_nodup_map (Program.subtrees_distinct distinct) listed stands.mem same
  cases v with
  | @judge x _ valid _ => exact h.judge tidy x.id valid later agrees rfl
  | @resolve t _ r stands fresh _ =>
    refine carried t.id (Findings.resolved_fills _ r fresh) fun same => ?_
    cases unique stands same
  | @infer scope e' decl r program stands fresh grounded judged =>
    by_cases same : e.id = e'.id
    · cases unique stands same
      subst program
      refine .judged rfl stands grounded
        (Findings.cached_record _ _ _ ((f.validity_referAny _ _ _).trans fresh)) ?_
      rw [tidy.resolution_inferred decl r fresh]
      exact judged.mono later agrees
    · exact carried _ (Findings.inferred_fills decl r fresh) same
  | @name scope e' owner program stands fresh named =>
    by_cases same : e.id = e'.id
    · cases unique stands same
      subst program
      exact .named rfl ((agrees.namedClass? _).trans named)
        ((Findings.cached_referAny _ _ _ _).trans (f.cached_record _ _ fresh))
        (tidy.resolution_named (some (.class owner)) _ fresh)
    · exact carried _ (Findings.named_fills _ _ fresh) same
  | @pair x _ r stands fresh _ =>
    refine carried x.node.id (Findings.record_fills r fresh) fun same => ?_
    cases unique stands same

theorem trail (t : Trail p p.Stands f g) : g.Certifies p e := by
  induction t with
  | refl => exact h
  | tail t v ih =>
    exact ih.visit (Trail.tidy t tidy) (Extends.known (Trail.extends_ t tidy) known) distinct listed v

end Visits

end Findings.Certifies

/-- What is known when a run has ended. -/
structure Findings.Complete (p : Program) (f : Findings) : Prop where
  tidy : f.Tidy
  known : f.Known p.signature
  chained : Chained f.superclasses.bindings
  types : f.TypesDenoted p
  links : f.LinksDenoted p
  scopes : f.Scoped p
  certifies : ∀ e, .expr e ∈ p.subtrees → f.Certifies p e

/-- Each class in a recorded type has as many arguments as it takes. -/
theorem Findings.Complete.saturated (complete : f.Complete p) {id : Nat} {type : Ty}
    (known : f.cached id = some (.ok type)) : type.Saturated p.Takes := by
  obtain ⟨_, _, _, _, formed⟩ := complete.scopes id type known
  exact formed.mono fun _ _ => trivial

theorem Program.analyze_complete (settings : Settings) (distinct : Distinct p.nodes) :
    (p.analyze settings).state.findings.Complete p := by
  obtain ⟨f, course, start, trail⟩ := p.analyze_course settings distinct
  have tidy : Findings.empty.Tidy := ⟨nofun, nofun⟩
  have whole := course.trans trail.course
  have links : Findings.empty.LinksDenoted p := fun _ _ => nofun
  have types : Findings.empty.TypesDenoted p := .empty
  have scopes : Findings.empty.Scoped p := fun _ _ => nofun
  refine ⟨whole.tidy tidy, (trail.extends_ start.tidy).known start.known,
    (p.analyze_lineal distinct settings).chained,
    types.course whole tidy distinct, links.course whole tidy,
    scopes.course distinct types links tidy whole, fun e listed => ?_⟩
  have fresh : f.validity e.id = none := start.fresh _ (expr_mem_bodyNodes listed)
  have blank : f.Certifies p e := by
    refine .blank (start.tidy.unreferred fresh) fun type known => ?_
    rw [Findings.cached, fresh] at known
    cases known
  exact blank.trail start.tidy start.known distinct listed trail

end ClassLang
