import ClassLang.Proofs.Checking.Ensures
import ClassLang.Proofs.Checking.Judgement
import ClassLang.Proofs.Syntax.Subtrees

/-!
The trail that a check leaves in the findings, visit by visit. A subtree is visited at most once, and
what is entered about it follows from the rules of the type system and from what is known of its
parts at that time. Entries stay, so the same follows from all that is known in the end.
-/

namespace ClassLang

variable {p : Program} {own wider : Subtree → Place → Prop} {f g h : Findings}

/-! ## Visits -/

namespace Findings

/-- Notes the declaration that a node refers to, if it does. -/
def referAny (f : Findings) (id : Nat) : Option Decl → Findings
  | some decl => (f.use decl).setResolution id decl
  | none => f

/-- Settles whether a written name denotes a type parameter, if it is known. -/
def aliasAny (f : Findings) (id : Nat) : Option Bool → Findings
  | some isAlias => f.setAlias id isAlias
  | none => f

def instantiated (f : Findings) : Ty → Findings
  | .genericClass _ name args => if Ty.allConcrete args then f.instantiate name args else f
  | _ => f

/-- Counts the use of the class that a written type denotes, if it does. -/
def taken (f : Findings) (p : Program) : Resolved → Findings
  | .ok type => ((p.classOf? type).elim f fun i => f.use (.class i)).instantiated type
  | .error _ => f

end Findings

/-- Whether the name that a type is written with denotes a type parameter, where this is asked. -/
def TypeRef.aliasIn (generics : List String) : TypeRef → Option Bool
  | .named _ _ name => some (generics.contains name.name)
  | .generic _ _ name _ => if generics.contains name.name then some true else none
  | _ => none

/-- A visit of a subtree at its place. -/
inductive Visit (p : Program) (own : Subtree → Place → Prop) (f : Findings) : Findings → Prop
  | judge {x : Subtree} {place : Place} {valid : Bool} : own x place →
    Visit p own f (f.setValid x.id valid)
  | resolve {t : TypeRef} {place : Place} {r : Resolved} : own (.type t) place →
    f.validity t.id = none → Denoted p place.generics f t r →
      Visit p own f (((f.aliasAny t.id (t.aliasIn place.generics)).taken p r).record t.id r)
  | infer {scope : Scope} {e : Expr} {decl : Option Decl} {r : Resolved} : scope.program = p →
    own (.expr e) scope.place → f.validity e.id = none → scope.Grounded →
      Judged scope f e decl r → Visit p own f ((f.referAny e.id decl).record e.id r)
  | name {scope : Scope} {e : Expr} {owner : Nat} : scope.program = p →
    own (.expr e) scope.place → f.validity e.id = none → scope.namedClass? f e = some owner →
      Visit p own f ((f.record e.id (.ok (p.typeWithin owner))).referAny e.id (some (.class owner)))
  | pair {x : KeymapPair} {place : Place} {r : Resolved} : own (.pair x) place →
    f.validity x.node.id = none →
      (∀ type, r = .ok type → ∃ key value, type = .keymap .none key value ∧
        f.cached x.key.id = some (.ok key) ∧ f.cached x.value.id = some (.ok value)) →
          Visit p own f (f.record x.node.id r)

def Trail (p : Program) (own : Subtree → Place → Prop) : Findings → Findings → Prop :=
  Relation.ReflTransGen (Visit p own)

theorem Visit.mono (le : ∀ x place, own x place → wider x place) (v : Visit p own f g) :
    Visit p wider f g := by
  cases v with
  | judge mine => exact .judge (le _ _ mine)
  | resolve mine fresh denoted => exact .resolve (le _ _ mine) fresh denoted
  | infer same mine fresh grounded judged => exact .infer same (le _ _ mine) fresh grounded judged
  | name same mine fresh named => exact .name same (le _ _ mine) fresh named
  | pair mine fresh typed => exact .pair (le _ _ mine) fresh typed

namespace Trail

theorem refl (f : Findings) : Trail p own f f := Relation.ReflTransGen.refl

theorem single (v : Visit p own f g) : Trail p own f g := Relation.ReflTransGen.single v

theorem trans (first : Trail p own f g) (second : Trail p own g h) : Trail p own f h :=
  Relation.ReflTransGen.trans first second

theorem mono (le : ∀ x place, own x place → wider x place) (t : Trail p own f g) :
    Trail p wider f g :=
  Relation.ReflTransGen.mono (fun _ _ v => v.mono le) _ _ t

end Trail

/-! ## What a visit leaves as it was -/

namespace Findings

variable (f)

@[simp] theorem validity_referAny (id other : Nat) (decl : Option Decl) :
    (f.referAny id decl).validity other = f.validity other := by
  cases decl <;> rfl

@[simp] theorem typeOf_referAny (id other : Nat) (decl : Option Decl) :
    (f.referAny id decl).typeOf other = f.typeOf other := by
  cases decl <;> rfl

@[simp] theorem cached_referAny (id other : Nat) (decl : Option Decl) :
    (f.referAny id decl).cached other = f.cached other := by
  cases decl <;> rfl

@[simp] theorem marks_referAny (id : Nat) (decl : Option Decl) :
    (f.referAny id decl).marks = f.marks := by
  cases decl <;> rfl

@[simp] theorem superclasses_referAny (id : Nat) (decl : Option Decl) :
    (f.referAny id decl).superclasses = f.superclasses := by
  cases decl <;> rfl

/-- Only uses, aliases and argument lists differ. -/
theorem taken_eq (id : Nat) (isAlias : Option Bool) (r : Resolved) : ∃ aliases usages instances,
    (f.aliasAny id isAlias).taken p r = { f with aliases, usages, instances } := by
  have aliased : ∃ aliases, f.aliasAny id isAlias = { f with aliases } := by
    cases isAlias with
    | none => exact ⟨f.aliases, rfl⟩
    | some isAlias => exact ⟨_, rfl⟩
  obtain ⟨aliases, same⟩ := aliased
  rw [same]
  cases r with
  | error _ => exact ⟨aliases, f.usages, f.instances, rfl⟩
  | ok type =>
    have counted : ∃ usages, (p.classOf? type).elim { f with aliases }
        (fun i => use { f with aliases } (.class i)) = { f with aliases, usages } := by
      cases p.classOf? type with
      | none => exact ⟨f.usages, rfl⟩
      | some i => exact ⟨_, rfl⟩
    obtain ⟨usages, same⟩ := counted
    rw [taken, same]
    unfold instantiated
    split
    · split
      · obtain ⟨instances, same⟩ := instantiate_eq { f with aliases, usages } _ _
        exact ⟨aliases, usages, instances, same⟩
      · exact ⟨aliases, usages, f.instances, rfl⟩
    · exact ⟨aliases, usages, f.instances, rfl⟩

theorem validity_resolved (id : Nat) (isAlias : Option Bool) (r : Resolved) (other : Nat) :
    ((f.aliasAny id isAlias).taken p r).validity other = f.validity other := by
  obtain ⟨_, _, _, same⟩ := f.taken_eq (p := p) id isAlias r
  rw [same]
  rfl

theorem cached_congr {g : Findings} {id : Nat} (validity : g.validity id = f.validity id)
    (typeOf : g.typeOf id = f.typeOf id) (failed : id ∈ g.failures ↔ id ∈ f.failures) :
    g.cached id = f.cached id := by
  unfold cached
  simp [validity, typeOf, failed]

theorem validity_record_other {id other : Nat} (r : Resolved) (apart : other ≠ id) :
    (f.record id r).validity other = f.validity other := by
  rw [validity_record, validity_setValid, if_neg apart]

theorem cached_record_other {id other : Nat} (r : Resolved) (apart : other ≠ id) :
    (f.record id r).cached other = f.cached other := by
  refine f.cached_congr (f.validity_record_other r apart) ?_ (f.mem_record_failures r apart)
  rw [typeOf_record, if_neg apart]

theorem setValid_known {id : Nat} {r : Resolved} (valid : Bool) (known : f.cached id = some r) :
    f.setValid id valid = f := by
  unfold setValid
  rw [f.cached_of_validity known]

end Findings

/-- Later findings have entries about one more node. -/
structure Findings.Fills (f g : Findings) (id : Nat) : Prop where
  fresh : f.validity id = none
  filled : (g.validity id).isSome = true
  typed : ∀ type, g.typeOf id = some type → f.typeOf id = some type ∨ g.validity id = some true
  validity : ∀ other, other ≠ id → g.validity other = f.validity other
  cached : ∀ other, other ≠ id → g.cached other = f.cached other
  typeOf : ∀ other, other ≠ id → g.typeOf other = f.typeOf other
  resolution : ∀ other, other ≠ id → g.resolution other = f.resolution other
  links : g.superclasses = f.superclasses
  marks : g.marks = f.marks

theorem Findings.record_fills {id : Nat} (r : Resolved) (fresh : f.validity id = none) :
    f.Fills (f.record id r) id where
  fresh := fresh
  filled := by rw [validity_record, validity_setValid, if_pos rfl]; rfl
  typed type known := by
    rw [validity_record, validity_setValid, if_pos rfl, fresh]
    cases r with
    | ok _ => exact .inr rfl
    | error _ =>
      rw [typeOf_record, if_pos rfl] at known
      exact .inl known
  validity _ apart := f.validity_record_other r apart
  cached _ apart := f.cached_record_other r apart
  typeOf _ apart := by rw [typeOf_record, if_neg apart]
  resolution other _ := f.resolution_record id other r
  links := f.record_superclasses id r
  marks := f.record_marks id r

theorem Findings.Fills.after {f f' g : Findings} {id : Nat} (h : f'.Fills g id)
    (validity : ∀ other, f'.validity other = f.validity other)
    (cached : ∀ other, f'.cached other = f.cached other)
    (typeOf : ∀ other, f'.typeOf other = f.typeOf other)
    (resolution : ∀ other, other ≠ id → f'.resolution other = f.resolution other)
    (links : f'.superclasses = f.superclasses) (marks : f'.marks = f.marks) : f.Fills g id where
  fresh := (validity id).symm.trans h.fresh
  filled := h.filled
  typed type known := (h.typed type known).imp_left ((typeOf id).symm.trans ·)
  validity other apart := (h.validity other apart).trans (validity other)
  cached other apart := (h.cached other apart).trans (cached other)
  typeOf other apart := (h.typeOf other apart).trans (typeOf other)
  resolution other apart := (h.resolution other apart).trans (resolution other apart)
  links := h.links.trans links
  marks := h.marks.trans marks

theorem Findings.resolution_referAny {id other : Nat} (decl : Option Decl) (apart : other ≠ id) :
    (f.referAny id decl).resolution other = f.resolution other := by
  cases decl with
  | none => rfl
  | some decl => simp [referAny, resolution, setResolution, use, Table.get?_insert, apart]

theorem Findings.resolved_fills {id : Nat} (isAlias : Option Bool) (r : Resolved)
    (fresh : f.validity id = none) :
    f.Fills (((f.aliasAny id isAlias).taken p r).record id r) id := by
  obtain ⟨_, _, _, same⟩ := f.taken_eq (p := p) id isAlias r
  rw [same]
  exact .after (Findings.record_fills r fresh) (fun _ => rfl) (fun _ => rfl) (fun _ => rfl)
    (fun _ _ => rfl) rfl rfl

theorem Findings.inferred_fills {id : Nat} (decl : Option Decl) (r : Resolved)
    (fresh : f.validity id = none) : f.Fills ((f.referAny id decl).record id r) id :=
  (Findings.record_fills r ((f.validity_referAny _ _ decl).trans fresh)).after
    (fun _ => f.validity_referAny _ _ decl) (fun _ => f.cached_referAny _ _ decl)
    (fun _ => f.typeOf_referAny _ _ decl) (fun _ apart => Findings.resolution_referAny decl apart)
    (f.superclasses_referAny _ decl) (f.marks_referAny _ decl)

theorem Findings.named_fills {id : Nat} (decl : Decl) (r : Resolved) (fresh : f.validity id = none) :
    f.Fills ((f.record id r).referAny id (some decl)) id :=
  have filled := Findings.record_fills r fresh
  ⟨fresh, filled.filled, filled.typed, filled.validity, filled.cached, filled.typeOf,
    fun other apart =>
      (Findings.resolution_referAny _ apart).trans (filled.resolution other apart),
    filled.links, filled.marks⟩

namespace Visit

/-- A visit sets a verdict or fills a node. -/
theorem fills (v : Visit p own f g) : (∃ x place valid, own x place ∧ g = f.setValid x.id valid) ∨
    ∃ x place, own x place ∧ f.Fills g x.id := by
  cases v with
  | judge mine => exact .inl ⟨_, _, _, mine, rfl⟩
  | resolve mine fresh _ => exact .inr ⟨_, _, mine, Findings.resolved_fills _ _ fresh⟩
  | infer _ mine fresh _ _ => exact .inr ⟨_, _, mine, Findings.inferred_fills _ _ fresh⟩
  | name _ mine fresh _ => exact .inr ⟨_, _, mine, Findings.named_fills _ _ fresh⟩
  | pair mine fresh _ => exact .inr ⟨_, _, mine, Findings.record_fills _ fresh⟩

theorem validity_eq (v : Visit p own f g) {id : Nat} (spared : ∀ x place, own x place → x.id ≠ id) :
    g.validity id = f.validity id := by
  rcases v.fills with ⟨x, place, valid, mine, rfl⟩ | ⟨x, place, mine, filled⟩
  · rw [Findings.validity_setValid, if_neg (spared x place mine).symm]
  · exact filled.validity id (spared x place mine).symm

theorem links (v : Visit p own f g) : g.superclasses = f.superclasses := by
  rcases v.fills with ⟨x, _, valid, _, rfl⟩ | ⟨_, _, _, filled⟩
  · exact f.setValid_superclasses x.id valid
  · exact filled.links

theorem marks (v : Visit p own f g) : g.marks = f.marks := by
  rcases v.fills with ⟨x, _, valid, _, rfl⟩ | ⟨_, _, _, filled⟩
  · exact f.setValid_marks x.id valid
  · exact filled.marks

end Visit

/-! ## What stays -/

/-- A node that has other entries has a verdict. -/
structure Findings.Tidy (f : Findings) : Prop where
  refers : ∀ {id : Nat} {decl : Decl}, f.resolution id = some decl → (f.validity id).isSome = true
  typed : ∀ {id : Nat} {type : Ty}, f.typeOf id = some type → f.validity id = some true

theorem Findings.Tidy.cached (tidy : f.Tidy) {id : Nat} {type : Ty} :
    f.typeOf id = some type ↔ f.cached id = some (.ok type) := by
  constructor
  · intro known
    rw [Findings.cached, tidy.typed known, known]
    rfl
  · intro known
    have valid := f.cached_of_validity known
    rw [Findings.cached, valid] at known
    obtain ⟨_, known, same⟩ := Option.map_eq_some_iff.1 known
    cases same
    exact known

theorem Findings.setValid_typeOf (f : Findings) (id other : Nat) (valid : Bool) :
    (f.setValid id valid).typeOf other = f.typeOf other := by
  rw [typeOf, setValid_types, typeOf]

namespace Visit

theorem tidy (v : Visit p own f g) (before : f.Tidy) : g.Tidy := by
  rcases v.fills with ⟨x, place, valid, _, rfl⟩ | ⟨x, place, _, filled⟩
  · refine ⟨fun refers => ?_, fun known => ?_⟩
    · rw [f.setValid_resolution] at refers
      rw [Findings.validity_setValid]
      split
      · rfl
      · exact before.refers refers
    · rw [f.setValid_typeOf] at known
      have judged := before.typed known
      rw [Findings.validity_setValid]
      split
      · rename_i same
        rw [← same, judged]
        rfl
      · exact judged
  · refine ⟨fun {id} decl refers => ?_, fun {id type} known => ?_⟩
    · by_cases same : id = x.id
      · exact same ▸ filled.filled
      · rw [filled.resolution id same] at refers
        rw [filled.validity id same]
        exact before.refers refers
    · by_cases same : id = x.id
      · subst same
        refine (filled.typed type known).resolve_left fun known => ?_
        exact nomatch filled.fresh.symm.trans (before.typed known)
      · rw [filled.typeOf id same] at known
        rw [filled.validity id same]
        exact before.typed known

theorem extends_ (v : Visit p own f g) (tidy : f.Tidy) : f.Extends g := by
  rcases v.fills with ⟨x, place, valid, _, rfl⟩ | ⟨x, place, _, filled⟩
  · refine ⟨fun judged => ?_, fun {id r} known => ?_, fun _ => f.setValid_typeOf _ _ _,
      fun refers => ?_, fun _ => f.setValid_resolution _ _ _⟩
    · rw [Findings.validity_setValid, judged]
      split
      · rename_i same
        rw [← same, judged]
        rfl
      · rfl
    · by_cases same : id = x.id
      · subst same
        rw [f.setValid_known valid known]
        exact known
      · refine (f.cached_congr ?_ (f.setValid_typeOf _ _ _) ?_).trans known
        · rw [Findings.validity_setValid, if_neg same]
        · rw [f.setValid_failures]
    · rw [f.setValid_resolution]
      exact refers
  · have apart {id : Nat} (judged : (f.validity id).isSome = true) : id ≠ x.id := by
      rintro rfl
      rw [filled.fresh] at judged
      cases judged
    have known {id : Nat} {r : Resolved} (known : f.cached id = some r) : id ≠ x.id :=
      apart (by rw [f.cached_of_validity known]; rfl)
    have judged {id : Nat} {valid : Bool} (judged : f.validity id = some valid) : id ≠ x.id :=
      apart (by rw [judged]; rfl)
    exact ⟨fun before => (filled.validity _ (judged before)).trans before,
      fun before => (filled.cached _ (known before)).trans before,
      fun before => filled.typeOf _ (known before),
      fun refers => (filled.resolution _ (apart (tidy.refers refers))).trans refers,
      fun before => filled.resolution _ (judged before)⟩

end Visit

namespace Trail

theorem tidy (t : Trail p own f g) (before : f.Tidy) : g.Tidy := by
  induction t with
  | refl => exact before
  | tail _ v ih => exact v.tidy ih

theorem extends_ (t : Trail p own f g) (tidy : f.Tidy) : f.Extends g := by
  induction t with
  | refl => exact .refl f
  | tail t v ih => exact ih.trans (v.extends_ (Trail.tidy t tidy))

theorem links (t : Trail p own f g) : g.superclasses = f.superclasses := by
  induction t with
  | refl => rfl
  | tail _ v ih => exact v.links.trans ih

theorem marks (t : Trail p own f g) : g.marks = f.marks := by
  induction t with
  | refl => rfl
  | tail _ v ih => exact v.marks.trans ih

theorem validity_eq (t : Trail p own f g) {id : Nat} (spared : ∀ x place, own x place → x.id ≠ id) :
    g.validity id = f.validity id := by
  induction t with
  | refl => rfl
  | tail _ v ih => exact (v.validity_eq spared).trans ih

end Trail

/-! ## What is entered -/

theorem Findings.resolution_referAny_self {id : Nat} (decl : Option Decl)
    (fresh : f.resolution id = none) : (f.referAny id decl).resolution id = decl := by
  cases decl with
  | none => exact fresh
  | some decl => simp [referAny, resolution, setResolution, Table.get?_insert]

namespace Findings.Tidy

variable {id : Nat}

theorem unreferred (tidy : f.Tidy) (fresh : f.validity id = none) : f.resolution id = none := by
  cases known : f.resolution id with
  | none => rfl
  | some decl => exact nomatch fresh ▸ tidy.refers known

theorem untyped (tidy : f.Tidy) (fresh : f.validity id = none) : f.typeOf id = none := by
  cases known : f.typeOf id with
  | none => rfl
  | some type => exact nomatch fresh ▸ tidy.typed known

theorem resolution_inferred (tidy : f.Tidy) (decl : Option Decl) (r : Resolved)
    (fresh : f.validity id = none) : ((f.referAny id decl).record id r).resolution id = decl := by
  rw [resolution_record]
  exact resolution_referAny_self decl (tidy.unreferred fresh)

theorem resolution_named (tidy : f.Tidy) (decl : Option Decl) (r : Resolved)
    (fresh : f.validity id = none) : ((f.record id r).referAny id decl).resolution id = decl := by
  refine resolution_referAny_self decl ?_
  rw [resolution_record]
  exact tidy.unreferred fresh

end Findings.Tidy

/-- What a visit of a subtree at its place enters as a result. -/
inductive Enters (p : Program) (f g : Findings) : Subtree → Place → Resolved → Prop
  | fault {x : Subtree} {place : Place} : Enters p f g x place (.error ⟨⟩)
  | type {t : TypeRef} {place : Place} {r : Resolved} : Denoted p place.generics f t r →
    Enters p f g (.type t) place r
  | expr {scope : Scope} {e : Expr} {r : Resolved} : scope.program = p → scope.Grounded →
    Judged scope f e (g.resolution e.id) r → Enters p f g (.expr e) scope.place r
  | name {scope : Scope} {e : Expr} {owner : Nat} : scope.program = p →
    scope.namedClass? f e = some owner → g.resolution e.id = some (.class owner) →
      Enters p f g (.expr e) scope.place (.ok (p.typeWithin owner))
  | pair {x : KeymapPair} {place : Place} {key value : Ty} : f.cached x.key.id = some (.ok key) →
    f.cached x.value.id = some (.ok value) →
      Enters p f g (.pair x) place (.ok (.keymap .none key value))

/-- A result that is known after a visit was known before or has been entered. -/
theorem Visit.entered (v : Visit p own f g) (tidy : f.Tidy) {id : Nat} {r : Resolved}
    (known : g.cached id = some r) :
    f.cached id = some r ∨ ∃ x place, own x place ∧ x.id = id ∧ Enters p f g x place r := by
  have filled {id' : Nat} (h : f.Fills g id') (apart : id ≠ id') : f.cached id = some r :=
    (h.cached id apart).symm.trans known
  cases v with
  | @judge x place valid mine =>
    by_cases same : id = x.id
    · cases r with
      | error _ => exact .inr ⟨x, place, mine, same.symm, .fault⟩
      | ok type =>
        have typed := (Visit.tidy (p := p) (.judge mine) tidy).cached.2 known
        rw [f.setValid_typeOf] at typed
        exact .inl (tidy.cached.1 typed)
    · left
      refine (f.cached_congr ?_ (f.setValid_typeOf _ _ _) ?_).symm.trans known
      · rw [Findings.validity_setValid, if_neg same]
      · rw [f.setValid_failures]
  | @resolve t place r' mine fresh denoted =>
    by_cases same : id = t.id
    · subst same
      cases known.symm.trans (Findings.cached_record _ _ _ ((f.validity_resolved _ _ _ _).trans fresh))
      exact .inr ⟨.type t, place, mine, rfl, .type denoted⟩
    · exact .inl (filled (Findings.resolved_fills _ _ fresh) same)
  | @infer scope e decl r' program mine fresh grounded judged =>
    by_cases same : id = e.id
    · subst same
      cases known.symm.trans (Findings.cached_record _ _ _ ((f.validity_referAny _ _ _).trans fresh))
      refine .inr ⟨.expr e, scope.place, mine, rfl, .expr program grounded ?_⟩
      rw [tidy.resolution_inferred decl r fresh]
      exact judged
    · exact .inl (filled (Findings.inferred_fills decl r' fresh) same)
  | @name scope e owner program mine fresh named =>
    by_cases same : id = e.id
    · subst same
      have entered := f.cached_record e.id (.ok (p.typeWithin owner)) fresh
      cases known.symm.trans ((Findings.cached_referAny _ _ _ _).trans entered)
      exact .inr ⟨.expr e, scope.place, mine, rfl,
        .name program named (tidy.resolution_named (some (.class owner)) _ fresh)⟩
    · exact .inl (filled (Findings.named_fills _ _ fresh) same)
  | @pair x place r' mine fresh typed =>
    by_cases same : id = x.node.id
    · subst same
      cases known.symm.trans (f.cached_record _ _ fresh)
      refine .inr ⟨.pair x, place, mine, rfl, ?_⟩
      cases r with
      | error _ => exact .fault
      | ok type =>
        obtain ⟨key, value, rfl, keyKnown, valueKnown⟩ := typed type rfl
        exact .pair keyKnown valueKnown
    · exact .inl (filled (Findings.record_fills r' fresh) same)

end ClassLang
