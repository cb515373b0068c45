import ClassLang.Proofs.Checking.StatementTrails

/-!
What names and calls come to where they occur: a name that is bound to a variable has the type of the
variable, and a call means the first candidate that takes its arguments, or nothing.

* `Expr.settles`: inferring the type of an expression settles all names and calls in it.
-/

namespace ClassLang

variable {α β : Type} {p : Program} {own : Subtree → Place → Prop} {f g h : Findings} {scope : Scope}
  {ns : List Node} {xs ys : List Subtree}

/-! ## Findings that agree on some nodes -/

/-- The same types and references are known of some nodes, of the types in signatures and of
superclasses. -/
structure Findings.Echoes (p : Program) (ns : List Node) (f g : Findings) : Prop
    extends f.Agrees p g where
  entered : ∀ n ∈ ns, ∀ type, g.cached n.id = some (.ok type) ↔ f.cached n.id = some (.ok type)
  refers : ∀ n ∈ ns, g.resolution n.id = f.resolution n.id

/-- Later findings know the same of some nodes. -/
structure Findings.Alike (p : Program) (ns : List Node) (f g : Findings) : Prop
    extends f.Echoes p ns g where
  judged : ∀ n ∈ ns, ∀ valid, f.validity n.id = some valid → g.validity n.id = some valid

theorem Findings.Echoes.symm (same : f.Echoes p ns g) : g.Echoes p ns f :=
  ⟨⟨same.links.symm, fun t written => (same.cached t written).symm,
    fun t written => (same.typeOf t written).symm⟩,
    fun n listed type => (same.entered n listed type).symm,
    fun n listed => (same.refers n listed).symm⟩

theorem Visit.entries_eq (v : Visit p own f g) {id : Nat} (spared : ∀ x place, own x place → x.id ≠ id) :
    g.cached id = f.cached id ∧ g.resolution id = f.resolution id := by
  rcases v.fills with ⟨x, place, valid, mine, rfl⟩ | ⟨x, place, mine, filled⟩
  · refine ⟨f.cached_congr ?_ (f.setValid_typeOf _ _ _) ?_, f.setValid_resolution _ _ _⟩
    · rw [Findings.validity_setValid, if_neg (spared x place mine).symm]
    · rw [f.setValid_failures]
  · exact ⟨filled.cached id (spared x place mine).symm, filled.resolution id (spared x place mine).symm⟩

theorem Trail.entries_eq (t : Trail p own f g) {id : Nat} (spared : ∀ x place, own x place → x.id ≠ id) :
    g.cached id = f.cached id ∧ g.resolution id = f.resolution id := by
  induction t with
  | refl => exact ⟨rfl, rfl⟩
  | tail _ v ih =>
    obtain ⟨cached, refers⟩ := v.entries_eq spared
    exact ⟨cached.trans ih.1, refers.trans ih.2⟩

namespace Findings.Alike

theorem mono {ms : List Node} (same : f.Alike p ms g) (sub : ns ⊆ ms) : f.Alike p ns g :=
  ⟨⟨same.toAgrees, fun n listed => same.entered n (sub listed),
    fun n listed => same.refers n (sub listed)⟩, fun n listed => same.judged n (sub listed)⟩

theorem of_eq (agrees : f.Agrees p g) (cached : ∀ n ∈ ns, g.cached n.id = f.cached n.id)
    (resolution : ∀ n ∈ ns, g.resolution n.id = f.resolution n.id)
    (validity : ∀ n ∈ ns, g.validity n.id = f.validity n.id) : f.Alike p ns g :=
  ⟨⟨agrees, fun n listed type => by rw [cached n listed], resolution⟩,
    fun n listed _ known => (validity n listed).trans known⟩

theorem ofTrail (t : Trail p own f g) (tidy : f.Tidy) (known : f.Known p.signature)
    (spared : ∀ x place, own x place → ∀ n ∈ ns, x.id ≠ n.id) : f.Alike p ns g :=
  have apart (n : Node) (listed : n ∈ ns) := fun x place mine => spared x place mine n listed
  .of_eq ((t.extends_ tidy).agrees known t.links) (fun n listed => (t.entries_eq (apart n listed)).1)
    (fun n listed => (t.entries_eq (apart n listed)).2) fun n listed => t.validity_eq (apart n listed)

theorem visit_setValid (f : Findings) (id : Nat) (valid : Bool) :
    Visit p (fun _ _ => True) f (f.setValid id valid) :=
  @Visit.judge p (fun _ _ => True) f (.head ⟨id, default⟩) ⟨none, false, []⟩ valid trivial

/-- A verdict on a node leaves types and references as they were. -/
theorem setValid (tidy : f.Tidy) (known : f.Known p.signature) (id : Nat) (valid : Bool) :
    f.Alike p ns (f.setValid id valid) := by
  have visit : Visit p _ f (f.setValid id valid) := visit_setValid f id valid
  have later := visit.extends_ tidy
  refine ⟨⟨later.agrees known visit.links, fun n _ type => ?_, fun _ _ => f.setValid_resolution _ _ _⟩,
    fun _ _ _ => later.validity⟩
  rw [← (visit.tidy tidy).cached, ← tidy.cached, f.setValid_typeOf]

end Findings.Alike

/-- What has been entered about some nodes stays when others are visited. -/
theorem Findings.Awaits.alike {ms : List Node} (awaits : f.Awaits p.signature (ns ++ ms))
    (t : Trail p own g h) (inside : ∀ x place, own x place → x.node ∈ ms) (tidy : g.Tidy)
    (known : g.Known p.signature) : g.Alike p ns h := by
  refine .ofTrail t tidy known fun x place mine n listed same => ?_
  refine awaits.distinct.apart (List.mem_map_of_mem listed) ?_
  rw [← same]
  exact List.mem_map_of_mem (inside x place mine)

/-! ## Candidates -/

/-- The candidates of a call by bare name: methods of the class around, then functions. -/
def Scope.namedCandidates (scope : Scope) (f : Findings) (name : String) : List Candidate :=
  (scope.selfClass.elim [] fun owner =>
    (scope.searchMethods f owner name .empty scope.isInstance).candidates f) ++
      scope.program.functionCandidates f name

/-- The candidates of a call through a receiver: methods of its class. -/
def Scope.memberCandidates (scope : Scope) (f : Findings) (from_ : Receiver) (name : String) :
    List Candidate :=
  (scope.searchMethods f from_.owner name from_.args from_.hasInstance).candidates f

/-- An expression has a type that no member can be taken from, or not by an arrow. -/
structure Refuses (scope : Scope) (f : Findings) (target : Expr) (access : MemberAccess) (type : Ty) :
    Prop where
  unnamed : scope.namedClass? f target = none
  typed : f.cached target.id = some (.ok type)
  refused : (scope.instanceReceiver target access type).isOk = false

/-- The candidates of a call: by a bare name that no variable has, or through a receiver. -/
inductive Reaches (scope : Scope) (f : Findings) : Expr → List Candidate → Prop
  | named {n : Node} {name : Ident} : scope.env.get? name.name = none →
    Reaches scope f (.ident n name) (scope.namedCandidates f name.name)
  | member {n : Node} {target : Expr} {access : MemberAccess} {name : Ident} {from_ : Receiver} :
    Receives scope f target access from_ →
      Reaches scope f (.member n target access name) (scope.memberCandidates f from_ name.name)
  | refused {n : Node} {target : Expr} {access : MemberAccess} {name : Ident} {type : Ty} :
    Refuses scope f target access type → Reaches scope f (.member n target access name) []

theorem Refuses.not_receives {target : Expr} {access : MemberAccess} {type : Ty} {from_ : Receiver}
    (refuses : Refuses scope f target access type) : ¬Receives scope f target access from_ := by
  rintro (⟨named, _⟩ | ⟨_, typed, _, found⟩)
  · cases refuses.unnamed.symm.trans named
  · cases refuses.typed.symm.trans typed
    have refused := refuses.refused
    rw [found] at refused
    cases refused

theorem Scope.searchMethods_empty {owner : Nat} {name : String} {receiver : Substitution}
    {hasInstance : Bool}
    (missing : (scope.searchMethods f owner name receiver hasInstance).found = []) :
    (scope.searchMethods f owner name receiver hasInstance).candidates f = [] := by
  change scope.program.findMethods f owner name receiver = [] at missing
  rw [searchMethods, MethodSearch.candidates, MethodSearch.usable, missing]
  rfl

/-- A call by bare name is given up early only if there is no candidate. -/
theorem Scope.calleeNamed_all {span : Span} {name : String} (free : scope.env.get? name = none) :
    (scope.calleeNamed f span name).toOption.elim [] Callee.candidates =
      scope.namedCandidates f name := by
  have unbound : scope.env.contains name = false := by rw [Environment.contains, free]; rfl
  cases found : scope.calleeNamed f span name with
  | ok callee => exact Scope.calleeNamed_candidates found
  | error e =>
    change [] = scope.namedCandidates f name
    unfold calleeNamed at found
    rw [unbound, if_neg Bool.false_ne_true] at found
    unfold namedCandidates
    cases here : scope.selfClass with
    | none =>
      rw [here] at found
      dsimp only at found
      split at found
      · simp_all [MethodSearch.none]
      · split at found
        · simp_all [MethodSearch.none]
        · cases found
    | some owner =>
      rw [here] at found
      dsimp only at found
      split at found
      · rename_i empty
        simp only [Bool.and_eq_true, List.isEmpty_iff] at empty
        simp [Scope.searchMethods_empty empty.1, empty.2]
      · split at found
        · simp_all
        · cases found

/-- A call through a receiver is given up early only if there is no candidate. -/
theorem Scope.calleeOf_all {from_ : Receiver} {member : Ident} :
    (scope.calleeOf f from_ member).toOption.elim [] Callee.candidates =
      scope.memberCandidates f from_ member.name := by
  cases found : scope.calleeOf f from_ member with
  | ok callee => exact Scope.calleeOf_candidates found
  | error e =>
    symm
    unfold calleeOf at found
    dsimp only at found
    split at found
    · exact Scope.searchMethods_empty (List.isEmpty_iff.1 ‹_›)
    split at found
    · rename_i empty
      exact List.isEmpty_iff.1 (Bool.and_eq_true_iff.1 empty).1
    split at found
    · split at found
      · exact List.isEmpty_iff.1 ‹_›
      · cases found
    · cases found

namespace Findings.Agrees

variable (same : f.Agrees scope.program g)
include same

theorem namedCandidates (name : String) :
    scope.namedCandidates g name = scope.namedCandidates f name := by
  have methods (owner : Nat) := same.mirrors.candidates rfl owner name .empty scope.isInstance
  have search (owner : Nat) :=
    same.mirrors.searchMethods (.refl _) rfl owner name .empty scope.isInstance
  simp only [Equiv.refl_apply, Scope.mirrored_self rfl, Candidate.renumber_refl, List.map_id]
    at methods search
  unfold Scope.namedCandidates
  rw [same.mirrors.functionCandidates (.refl _)]
  cases scope.selfClass with
  | none => rfl
  | some owner => rw [Option.elim_some, Option.elim_some, search, methods]

theorem memberCandidates (from_ : Receiver) (name : String) :
    scope.memberCandidates g from_ name = scope.memberCandidates f from_ name := by
  have methods := same.mirrors.candidates rfl from_.owner name from_.args from_.hasInstance
  have search :=
    same.mirrors.searchMethods (.refl _) rfl from_.owner name from_.args from_.hasInstance
  simp only [Equiv.refl_apply, Scope.mirrored_self rfl, Candidate.renumber_refl, List.map_id]
    at methods search
  rw [Scope.memberCandidates, search, methods]
  rfl

end Findings.Agrees

/-! ## Names and calls -/

/-- What a call with some arguments comes to. -/
def chosen (candidates : List Candidate) (args : List Expr) (types : List Ty) : Option (Decl × Ty) :=
  candidates.findSome? (Candidate.take? (operands args types))

/-- What holds of a bare name: it has the type of the variable of the name, or else that of the field,
and refers to a class only where it stands for one, and there always if it has a type. -/
structure Scope.Names (scope : Scope) (f : Findings) (n : Node) (name : Ident)
    (typed : Ty → Prop) : Prop where
  bound : ∀ bound, scope.env.get? name.name = some bound → f.resolution n.id = none ∧
    ∀ type, typed type → bound = .ok type
  own : scope.env.get? name.name = none → ∀ found, scope.ownField? f name.name = some found →
    ∀ type, typed type → found.type = .ok type
  refers : ∀ owner, f.resolution n.id = some (.class owner) →
    scope.namedClass? f (.ident n name) = some owner
  named : ∀ owner, scope.namedClass? f (.ident n name) = some owner → ∀ type, typed type →
    f.resolution n.id = some (.class owner)

/-- What is recorded for a bare name, and for a call. -/
def Expr.Settled (scope : Scope) (f : Findings) : Expr → Prop
  | .ident n name => scope.Names f n name fun type => f.cached n.id = some (.ok type)
  | .call n callee args => ∀ candidates types, Reaches scope f callee candidates →
    List.Forall₂ (fun e type => f.cached e.id = some (.ok type)) args types →
      f.validity n.id = some (chosen candidates args types).isSome ∧
        (∀ type, f.cached n.id = some (.ok type) ↔
          (chosen candidates args types).map Prod.snd = some type) ∧
            f.resolution n.id = (chosen candidates args types).map Prod.fst ∧
              f.resolution callee.id = none
  | _ => True

/-- What the rule of a name or a call comes to, before the result is recorded. -/
def Expr.Outcome (scope : Scope) (f : Findings) (r : Resolved) : Expr → Prop
  | .ident n name => scope.Names f n name fun type => r = .ok type
  | .call n callee args => ∀ candidates types, Reaches scope f callee candidates →
    List.Forall₂ (fun e type => f.cached e.id = some (.ok type)) args types →
      r = ((chosen candidates args types).elim (.error ⟨⟩) fun found => .ok found.2) ∧
        f.resolution n.id = (chosen candidates args types).map Prod.fst ∧
          f.resolution callee.id = none
  | _ => True

/-- A name that is bound to a variable stands for no class, and so does one that is a field. -/
theorem Scope.namedClass?_none {n : Node} {name : Ident}
    (value : (scope.env.get? name.name).isSome = true ∨ (scope.ownField? f name.name).isSome = true) :
    scope.namedClass? f (.ident n name) = none := by
  rw [namedClass?, Environment.contains, if_pos (Bool.or_eq_true_iff.2 value)]

/-- All names and calls among some subtrees are settled. -/
def AllSettled (scope : Scope) (xs : List Subtree) (f : Findings) : Prop :=
  ∀ e, .expr e ∈ xs → e.Settled scope f

section Echoes

variable (same : f.Echoes scope.program ns g)
include same

theorem Receives.echoed {target : Expr} {access : MemberAccess} {from_ : Receiver}
    (inside : target.node ∈ ns) (h : Receives scope f target access from_) :
    Receives scope g target access from_ := by
  cases h with
  | static named refers =>
    exact .static ((same.namedClass? target).trans named) ((same.refers _ inside).trans refers)
  | «instance» unnamed known value receives =>
    refine .instance ((same.namedClass? target).trans unnamed) ((same.entered _ inside _).2 known)
      (fun i refers => value i ?_) receives
    exact (same.refers _ inside).symm.trans refers

theorem Reaches.echoed {callee : Expr} {candidates : List Candidate} (inside : callee.nodes ⊆ ns)
    (h : Reaches scope f callee candidates) : Reaches scope g callee candidates := by
  cases h with
  | named free =>
    rw [← same.namedCandidates]
    exact .named free
  | member receives =>
    rw [← same.memberCandidates]
    exact .member (receives.echoed same (inside (List.mem_cons_of_mem _ (Expr.node_mem_nodes _))))
  | @refused _ target _ _ _ refuses =>
    refine .refused ⟨(same.namedClass? target).trans refuses.unnamed, ?_, refuses.refused⟩
    exact (same.entered _ (inside (List.mem_cons_of_mem _ (Expr.node_mem_nodes _))) _).2 refuses.typed

theorem forall₂_echoed {es : List Expr} {types : List Ty} (inside : Expr.nodesAll es ⊆ ns)
    (known : List.Forall₂ (fun (e : Expr) type => f.cached e.id = some (.ok type)) es types) :
    List.Forall₂ (fun (e : Expr) type => g.cached e.id = some (.ok type)) es types := by
  induction known with
  | nil => exact .nil
  | cons first _ ih =>
    refine .cons ((same.entered _ (inside ?_) _).2 first) (ih fun n listed => inside ?_)
    · exact List.mem_append_left _ (Expr.node_mem_nodes _)
    · exact List.mem_append_right _ listed

end Echoes

theorem Expr.Settled.alike {e : Expr} (same : f.Alike scope.program ns g) (inside : e.nodes ⊆ ns)
    (h : e.Settled scope f) : e.Settled scope g := by
  have here := inside e.node_mem_nodes
  cases e with
  | ident n name =>
    have refers := same.refers n here
    have entered (type : Ty) := (same.entered n here type).1
    have names := same.toAgrees.namedClass? (.ident n name)
    refine ⟨fun bound inScope => ?_, fun free found here type known => ?_, fun owner found => ?_,
      fun owner named type known => ?_⟩
    · obtain ⟨silent, typed⟩ := h.bound bound inScope
      exact ⟨refers.trans silent, fun type known => typed type (entered type known)⟩
    · exact h.own free found ((same.toAgrees.ownField? _).symm.trans here) type (entered type known)
    · exact names.trans (h.refers owner (refers.symm.trans found))
    · exact refers.trans (h.named owner (names.symm.trans named) type (entered type known))
  | call n callee args =>
    have below : callee.nodes ++ nodesAll args ⊆ ns := fun m listed =>
      inside (List.mem_cons_of_mem _ listed)
    have before := same.toEchoes.symm
    intro candidates types reaches known
    obtain ⟨judged, entered, refers, silent⟩ := h candidates types
      (reaches.echoed before fun m listed => below (List.mem_append_left _ listed))
      (forall₂_echoed before (fun m listed => below (List.mem_append_right _ listed)) known)
    refine ⟨same.judged n here _ judged, fun type => (same.entered n here type).trans (entered type),
      (same.refers n here).trans refers, ?_⟩
    exact (same.refers _ (below (List.mem_append_left _ callee.node_mem_nodes))).trans silent
  | _ => trivial

namespace AllSettled

theorem alike (h : AllSettled scope xs f) (closed : Closed xs)
    (same : f.Alike scope.program (xs.map Subtree.node) g) : AllSettled scope xs g := by
  intro e listed
  refine (h e listed).alike same ?_
  rw [← e.subtrees_nodes]
  exact List.map_subset _ (closed.subset listed)

theorem append (left : AllSettled scope xs f) (right : AllSettled scope ys f) :
    AllSettled scope (xs ++ ys) f :=
  fun e listed => (List.mem_append.1 listed).elim (left e) (right e)

end AllSettled

/-! ## Rules -/

theorem Ensures.and {x : Check α} {post post' : α → Findings → Prop} (left : Ensures x scope f post)
    (right : Ensures x scope f post') : Ensures x scope f fun a g => post a g ∧ post' a g :=
  fun s same => ⟨left s same, right s same⟩

/-- Inferring the type of the expression settles all names and calls in it. -/
def Expr.Settles (e : Expr) : Prop := ∀ scope f, scope.Awaits f e.nodes →
  Ensures e.infer.run scope f fun _ g => AllSettled scope e.subtrees g

def settlesEach (es : List Expr) : Prop := ∀ scope f, scope.Awaits f (Expr.nodesAll es) →
  Ensures (inferEach es) scope f fun _ g => AllSettled scope (Expr.subtreesAll es) g

def settlesPairs (pairs : List KeymapPair) : Prop := ∀ scope f,
  scope.Awaits f (Expr.nodesPairs pairs) →
    Ensures (inferPairs pairs) scope f fun _ g => AllSettled scope (Expr.subtreesPairs pairs) g

theorem Expr.tail_closed (e : Expr) : Closed e.subtrees.tail := by
  cases e with
  | ident _ _ | this _ | literal _ _ => exact .nil
  | list _ elems => exact subtreesAll_closed elems
  | keymap _ pairs => exact subtreesPairs_closed pairs
  | binary _ _ a b | index _ a b | assign _ _ a b => exact .append a.subtrees_closed b.subtrees_closed
  | unary _ _ operand => exact operand.subtrees_closed
  | new _ type => exact type.subtrees_closed
  | member _ target _ _ => exact target.subtrees_closed
  | call _ callee args => exact .append callee.subtrees_closed (subtreesAll_closed args)

theorem Expr.nodes_eq (e : Expr) : e.nodes = e.node :: e.subtrees.tail.map Subtree.node := by
  rw [← e.subtrees_nodes, e.subtrees_eq]
  rfl

theorem Expr.below_apart {e : Expr} (distinct : Distinct e.nodes) :
    ∀ n ∈ e.subtrees.tail.map Subtree.node, n.id ≠ e.id := by
  intro n listed same
  rw [e.nodes_eq] at distinct
  refine (List.nodup_cons.1 distinct).1 ?_
  rw [show e.node.id = n.id from same.symm]
  exact List.mem_map_of_mem listed

section Entries

/-! Entries about a node leave what is known of others as it was. -/

theorem Findings.alike_refer {id : Nat} (apart : ∀ n ∈ ns, n.id ≠ id) (decl : Decl) :
    f.Alike p ns (f.referAny id (some decl)) :=
  .of_eq ⟨f.superclasses_referAny _ _, fun _ _ => f.cached_referAny _ _ _,
    fun _ _ => f.typeOf_referAny _ _ _⟩ (fun _ _ => f.cached_referAny _ _ _)
    (fun n listed => Findings.resolution_referAny _ (apart n listed))
    fun _ _ => f.validity_referAny _ _ _

theorem Findings.alike_record {id : Nat} (apart : ∀ n ∈ ns, n.id ≠ id) (r : Resolved)
    (fresh : f.validity id = none) (known : f.Known p.signature) : f.Alike p ns (f.record id r) := by
  have other (t : TypeRef) (written : t ∈ p.signature) : t.id ≠ id := by
    rintro rfl
    obtain ⟨r, known⟩ := Option.isSome_iff_exists.1 (known t written)
    exact nomatch fresh.symm.trans (f.cached_of_validity known)
  refine .of_eq ⟨f.record_superclasses _ _, fun t written => ?_, fun t written => ?_⟩
    (fun n listed => f.cached_record_other r (apart n listed)) (fun _ _ => f.resolution_record _ _ _)
    fun n listed => f.validity_record_other r (apart n listed)
  · exact f.cached_record_other r (other t written)
  · rw [f.typeOf_record, if_neg (other t written)]

variable {e : Expr} (distinct : Distinct e.nodes)
include distinct

theorem Expr.Outcome.settled {r : Resolved} (fresh : f.validity e.id = none)
    (known : f.Known scope.program.signature) (h : e.Outcome scope f r) :
    e.Settled scope (f.record e.id r) := by
  have entered := f.cached_record e.id r fresh
  have same := (Findings.alike_record (Expr.below_apart distinct) r fresh known).toEchoes.symm
  cases e with
  | ident n name =>
    have result {type : Ty} (typed : (f.record n.id r).cached n.id = some (.ok type)) : r = .ok type :=
      Option.some.inj (entered.symm.trans typed)
    have agrees := (Findings.alike_record (Expr.below_apart distinct) r fresh known).toAgrees
    have refers := f.resolution_record n.id n.id r
    have names := agrees.namedClass? (.ident n name)
    refine ⟨fun bound inScope => ?_, fun free found here type typed => ?_, fun owner found => ?_,
      fun owner named type typed => ?_⟩
    · obtain ⟨silent, typed⟩ := h.bound bound inScope
      exact ⟨refers.trans silent, fun type known => typed type (result known)⟩
    · exact h.own free found ((agrees.ownField? _).symm.trans here) type (result typed)
    · exact names.trans (h.refers owner (refers.symm.trans found))
    · exact refers.trans (h.named owner (names.symm.trans named) type (result typed))
  | call n callee args =>
    rw [show (Expr.call n callee args).subtrees.tail = callee.subtrees ++ subtreesAll args from rfl,
      List.map_append, callee.subtrees_nodes, subtreesAll_nodes] at same
    intro candidates types reaches args
    obtain ⟨rfl, refers, silent⟩ := h candidates types
      (reaches.echoed same (List.subset_append_left _ _))
      (forall₂_echoed same (List.subset_append_right _ _) args)
    have judged := (f.record n.id _).cached_of_validity entered
    refine ⟨judged.trans ?_, fun type => ?_, (f.resolution_record _ _ _).trans refers,
      (f.resolution_record _ _ _).trans silent⟩
    · cases chosen candidates _ types <;> rfl
    · refine (Eq.to_iff (congrArg (· = some (.ok type)) entered)).trans ?_
      cases chosen candidates _ types <;> simp
  | _ => trivial

end Entries

theorem remembered_settles {e : Expr} {x : Infer Ty} (awaits : scope.Awaits f e.nodes)
    (rule : Ensures x.run scope f (Concludes scope e f))
    (below : Ensures x.run scope f fun r g =>
      AllSettled scope e.subtrees.tail g ∧ e.Outcome scope g r) :
    Ensures (ClassLang.remembered e.id x).run scope f fun _ g => AllSettled scope e.subtrees g := by
  refine .remembered (awaits.fresh _ e.node_mem_nodes) (rule.and below) ?_
  rintro r _ ⟨⟨h, decl, trail, rfl, judged⟩, settled, outcome⟩
  have listed := awaits.toAwaits
  rw [e.nodes_eq] at listed
  have fresh : (h.referAny e.id decl).validity e.id = none :=
    (h.validity_referAny _ _ _).trans (listed.head_fresh trail (At.inside rfl))
  have known : (h.referAny e.id decl).Known scope.program.signature := by
    intro t written
    rw [Findings.cached_referAny]
    exact (trail.extends_ awaits.tidy).known awaits.known t written
  have below := settled.alike e.tail_closed (Findings.alike_record (Expr.below_apart awaits.distinct) r fresh known)
  have own := outcome.settled awaits.distinct fresh known
  intro y inside
  rw [e.subtrees_eq] at inside
  rcases List.mem_cons.1 inside with same | inside
  · cases same
    exact own
  · exact below y inside

/-! ## Parts -/

/-- Two expressions, one after the other. -/
theorem Expr.Settles.two {a b : Expr} {k : Resolved → Resolved → Infer β}
    {post : Except Reported β → Findings → Prop} (left : a.Settles) (right : b.Settles)
    (awaits : scope.Awaits f (a.nodes ++ b.nodes))
    (rest : ∀ r r' g, AllSettled scope (a.subtrees ++ b.subtrees) g → Ensures (k r r').run scope g post) :
    Ensures (do
      let r ← attempt a.infer
      let r' ← attempt b.infer
      k r r' : Infer β).run scope f post := by
  refine .attempt_bind ((a.traced scope f awaits.left).and (left scope f awaits.left)) ?_
  rintro r g ⟨⟨first, -, -⟩, settled⟩
  have later := awaits.after first (At.inside a.subtrees_nodes)
  refine .attempt_bind ((b.traced scope g later).and (right scope g later)) ?_
  rintro r' h ⟨⟨second, -, -⟩, settled'⟩
  refine rest r r' h (.append (settled.alike a.subtrees_closed ?_) settled')
  rw [a.subtrees_nodes]
  exact awaits.toAwaits.alike second (At.inside b.subtrees_nodes) later.tidy later.known

/-! ## The rules -/

theorem nameType_settles {n : Node} {name : Ident} (awaits : scope.Awaits f [n]) :
    Ensures (nameType n name.name).run scope f fun r g =>
      (Expr.ident n name).Outcome scope g r := by
  have fresh := awaits.tidy.unreferred (awaits.fresh n (List.mem_singleton_self n))
  refine .read_bind (.findings_bind ?_)
  have silent (owner : Nat) (found : f.resolution n.id = some (.class owner)) :
      scope.namedClass? f (.ident n name) = some owner := nomatch fresh.symm.trans found
  split
  · rename_i bound _ inScope
    have unnamed : scope.namedClass? f (.ident n name) = none :=
      Scope.namedClass?_none (.inl (by rw [inScope]; rfl))
    refine .settle ⟨fun bound' same => ?_, fun free => (nomatch inScope.symm.trans free), silent,
      fun owner named => (nomatch unnamed.symm.trans named)⟩
    cases inScope.symm.trans same
    exact ⟨fresh, fun _ => id⟩
  · rename_i found free here
    have unbound (P : Prop) (bound : Resolved) (same : scope.env.get? name.name = some bound) : P :=
      nomatch free.symm.trans same
    have agrees : f.Agrees scope.program ((f.use found.decl).setResolution n.id found.decl) :=
      ⟨rfl, fun _ _ => rfl, fun _ _ => rfl⟩
    refine .settleBy_bind (fun _ _ => .learn_bind (.settle ⟨fun bound => unbound _ bound, ?_, ?_, ?_⟩))
      ⟨fun bound => unbound _ bound, fun _ _ _ _ => nofun, silent, fun _ _ _ => nofun⟩
    · intro _ other located type sound
      cases here.symm.trans ((agrees.ownField? _).symm.trans located)
      exact sound
    · intro owner refers
      rw [Findings.resolution, Findings.setResolution, Table.get?_insert, if_pos rfl] at refers
      cases refers
    · intro owner named
      rw [Scope.namedClass?_none (.inr (by rw [agrees.ownField?, here]; rfl))] at named
      cases named
  · rename_i free _
    exact .fail ⟨fun bound same => (nomatch free.symm.trans same), fun _ _ _ _ => nofun, silent,
      fun _ _ _ => nofun⟩

theorem newType_settles {n : Node} {t : TypeRef} {resolve : Infer Ty} :
    Ensures (newType n resolve).run scope f fun _ g => AllSettled scope t.subtrees g := by
  intro s _ e listed
  exact absurd listed (TypeRef.expr_not_mem_subtrees t)

theorem listType_settles {elems : List Expr} (inner : settlesEach elems)
    (awaits : scope.Awaits f (Expr.nodesAll elems)) :
    Ensures (listType elems (inferEach elems)).run scope f fun _ g =>
      AllSettled scope (Expr.subtreesAll elems) g :=
  .lift_bind (inner scope f awaits) fun _ _ settled => .settle_bind (fun _ _ =>
    .settleBy_bind (fun _ _ => .pure settled) settled) fun _ => settled

theorem keymapLiteralType_settles {pairs : List KeymapPair} (inner : settlesPairs pairs)
    (awaits : scope.Awaits f (Expr.nodesPairs pairs)) :
    Ensures (keymapLiteralType pairs (inferPairs pairs)).run scope f fun _ g =>
      AllSettled scope (Expr.subtreesPairs pairs) g :=
  .lift_bind (inner scope f awaits) fun _ _ settled => .settle_bind (fun _ _ =>
    .settleBy_bind (fun _ _ => .settleBy_bind (fun _ _ => .pure settled) settled) settled)
      fun _ => settled

section Operators

variable {e : Expr} (distinct : Distinct e.nodes)
include distinct

theorem overloadType_settles {operator : Operator} {args : List Operand} {otherwise : CheckError}
    (settled : AllSettled scope e.subtrees.tail f) :
    Ensures (overloadType e.id operator args otherwise).run scope f fun _ g =>
      AllSettled scope e.subtrees.tail g := by
  refine .read_bind (.findings_bind ?_)
  split
  · refine .learn_bind (.note_bind (.pure ?_))
    exact settled.alike e.tail_closed (Findings.alike_refer (Expr.below_apart distinct) _)
  · exact .settleBy (fun _ => nofun) settled

end Operators

theorem binaryType_settles {n : Node} {op : BinaryOp} {lhs rhs : Expr} (left : lhs.Settles)
    (right : rhs.Settles) (awaits : scope.Awaits f (Expr.binary n op lhs rhs).nodes) :
    Ensures (binaryType n op lhs rhs lhs.infer rhs.infer).run scope f fun _ g =>
      AllSettled scope (lhs.subtrees ++ rhs.subtrees) g := by
  refine left.two right awaits.below fun r r' g settled => ?_
  refine .settle_bind (fun a _ => .settle_bind (fun b _ => ?_) fun _ => settled) fun _ => settled
  split
  · exact .pure settled
  · exact overloadType_settles (e := .binary n op lhs rhs) awaits.distinct settled

theorem unaryType_settles {n : Node} {op : UnaryOp} {operand : Expr} (inner : operand.Settles)
    (awaits : scope.Awaits f (Expr.unary n op operand).nodes) :
    Ensures (unaryType n op operand operand.infer).run scope f fun _ g =>
      AllSettled scope operand.subtrees g := by
  refine .infer_bind (inner scope f awaits.below) (fun type g settled => ?_) fun _ settled => settled
  cases op
  all_goals
    dsimp only
    split
    · exact .pure settled
  · exact overloadType_settles (e := .unary n .neg operand) awaits.distinct settled
  · exact overloadType_settles (e := .unary n .pos operand) awaits.distinct settled
  · exact overloadType_settles (e := .unary n .bitNot operand) awaits.distinct settled
  · exact overloadType_settles (e := .unary n .not operand) awaits.distinct settled
  · exact .fail settled
  · exact .fail settled

theorem indexType_settles {n : Node} {target place : Expr} (left : target.Settles)
    (right : place.Settles) (awaits : scope.Awaits f (Expr.index n target place).nodes) :
    Ensures (indexType n target place target.infer place.infer).run scope f fun _ g =>
      AllSettled scope (target.subtrees ++ place.subtrees) g := by
  refine left.two right awaits.below fun r r' g settled => ?_
  refine .settle_bind (fun a _ => .settle_bind (fun b _ => ?_) fun _ => settled) fun _ => settled
  dsimp only
  split
  · exact .settleBy (fun _ _ => settled) settled
  · exact .settleBy (fun _ _ => settled) settled
  · exact overloadType_settles (e := .index n target place) awaits.distinct settled
  · exact overloadType_settles (e := .index n target place) awaits.distinct settled
  · exact .settleBy (fun _ _ => settled) settled

theorem assignType_settles {kind : AssignKind} {target value : Expr} (left : target.Settles)
    (right : value.Settles) (awaits : scope.Awaits f (target.nodes ++ value.nodes)) :
    Ensures (assignType kind target value target.infer value.infer).run scope f fun _ g =>
      AllSettled scope (target.subtrees ++ value.subtrees) g := by
  refine left.two right awaits fun r r' g settled => ?_
  refine .settle_bind (fun a _ => .settle_bind (fun b _ => ?_) fun _ => settled) fun _ => settled
  split
  · exact .fail_bind settled
  · exact .settleBy_bind (fun _ _ => .pure settled) settled

/-- A class that is named as a receiver is settled when the name refers to it. -/
theorem Scope.namedClass?_settled {e : Expr} {owner : Nat} (named : scope.namedClass? f e = some owner)
    (refers : f.resolution e.id = some (.class owner)) :
    e.Settled scope f ∧ e.subtrees = [.expr e] := by
  cases e with
  | ident n name =>
    refine ⟨⟨fun bound inScope => ?_, fun _ field here => ?_, fun other found => ?_,
      fun other found _ _ => ?_⟩, rfl⟩
    · rw [Scope.namedClass?_none (.inl (by rw [inScope]; rfl))] at named
      cases named
    · rw [Scope.namedClass?_none (.inr (by rw [here]; rfl))] at named
      cases named
    · cases refers.symm.trans found
      exact named
    · cases named.symm.trans found
      exact refers
  | _ => cases named

theorem receiver_settles {target : Expr} {access : MemberAccess} (inner : target.Settles)
    (awaits : scope.Awaits f target.nodes) :
    Ensures (receiver target access target.infer).run scope f fun r g =>
      AllSettled scope target.subtrees g ∧
        ∀ from_, Receives scope g target access from_ → r = .ok from_ := by
  refine .read_bind (.findings_bind ?_)
  split
  · rename_i owner named
    have visit : Visit scope.program (At target.subtrees scope.place) f _ :=
      .name rfl ⟨target.subtree_mem_subtrees, rfl⟩ (awaits.fresh _ target.node_mem_nodes) named
    have same := (visit.extends_ awaits.tidy).agrees awaits.known visit.links
    have named := (same.namedClass? target).trans named
    refine .learn_bind (.learn_bind (.pure ⟨fun e inside => ?_, fun from_ receives => ?_⟩))
    · obtain ⟨settled, alone⟩ := Scope.namedClass?_settled named
        (awaits.tidy.resolution_named (some (.class owner)) _ (awaits.fresh _ target.node_mem_nodes))
      rw [alone] at inside
      cases List.mem_singleton.1 inside
      exact settled
    · cases receives with
      | static other _ => exact congrArg (Except.ok ∘ Receiver.static) (Option.some.inj (named.symm.trans other))
      | «instance» unnamed _ _ _ => cases named.symm.trans unnamed
  · rename_i unnamed
    refine .infer_bind ((target.traced scope f awaits).and (inner scope f awaits)) ?_ ?_
    · rintro type g ⟨⟨trail, known, -⟩, settled⟩
      have same := (trail.extends_ awaits.tidy).agrees awaits.known trail.links
      have unnamed := (same.namedClass? target).trans unnamed
      have receives (from_ : Receiver) (receives : Receives scope g target access from_) :
          scope.instanceReceiver target access type = .ok from_ := by
        cases receives with
        | static named _ => cases named.symm.trans unnamed
        | «instance» _ typed _ found =>
          cases known.symm.trans typed
          exact found
      cases found : scope.instanceReceiver target access type with
      | error e => exact .fail ⟨settled, fun from_ given => nomatch found.symm.trans (receives from_ given)⟩
      | ok from_ =>
        refine .pure ⟨settled, fun other given => ?_⟩
        exact congrArg Except.ok (Except.ok.inj (found.symm.trans (receives other given)))
    · rintro g ⟨⟨trail, known, -⟩, settled⟩
      have same := (trail.extends_ awaits.tidy).agrees awaits.known trail.links
      have unnamed := (same.namedClass? target).trans unnamed
      refine ⟨settled, fun from_ receives => ?_⟩
      cases receives with
      | static named _ => cases named.symm.trans unnamed
      | «instance» _ typed _ _ => cases known.symm.trans typed

theorem memberType_settles {n : Node} {target : Expr} {access : MemberAccess} {name : Ident}
    (inner : target.Settles) (awaits : scope.Awaits f (Expr.member n target access name).nodes) :
    Ensures (memberType n name (receiver target access target.infer)).run scope f fun _ g =>
      AllSettled scope target.subtrees g := by
  refine .infer_bind (receiver_settles inner awaits.below) ?_ fun g h => h.1
  rintro from_ g ⟨settled, -⟩
  refine .read_bind (.findings_bind (.settleBy_bind (fun found _ => ?_) settled))
  have referred := settled.alike target.subtrees_closed
    (Findings.alike_refer (Expr.below_apart awaits.distinct) found.decl)
  refine .infer_bind (m := fun _ h => AllSettled scope target.subtrees h)
    (.learn_bind (.settle referred)) ?_ fun _ h => h
  exact fun _ _ h => .pure h

theorem findCallee_settles {callee : Expr} (inner : callee.Settles)
    (innerTarget : ∀ n target access name, callee = .member n target access name → target.Settles)
    (awaits : scope.Awaits f callee.nodes) :
    Ensures (findCallee callee callee.infer callee.inferTarget).run scope f fun r g =>
      AllSettled scope callee.subtrees g ∧ ∀ candidates, Reaches scope g callee candidates →
        r.toOption.elim [] Callee.candidates = candidates ∧ g.resolution callee.id = none := by
  refine .read_bind ?_
  split
  · rename_i n name
    have fresh := awaits.fresh n (List.mem_singleton_self n)
    have silent := awaits.tidy.unreferred fresh
    have settled : AllSettled scope (Expr.ident n name).subtrees f := by
      intro e listed
      cases List.mem_singleton.1 listed
      have untyped (type : Ty) (P : Prop) (known : f.cached n.id = some (.ok type)) : P :=
        nomatch fresh.symm.trans (f.cached_of_validity known)
      exact ⟨fun bound _ => ⟨silent, fun type => untyped type _⟩, fun _ _ _ type => untyped type _,
        fun owner found => (nomatch silent.symm.trans found), fun owner _ type => untyped type _⟩
    have reached (candidates : List Candidate) (reaches : Reaches scope f (.ident n name) candidates) :
        (scope.calleeNamed f n.span name.name).toOption.elim [] Callee.candidates = candidates := by
      cases reaches with
      | named free => exact Scope.calleeNamed_all free
    refine .findings_bind ?_
    cases found : scope.calleeNamed f n.span name.name with
    | error e =>
      rw [found] at reached
      exact .fail ⟨settled, fun candidates reaches => ⟨reached candidates reaches, silent⟩⟩
    | ok meaning =>
      rw [found] at reached
      exact .pure ⟨settled, fun candidates reaches => ⟨reached candidates reaches, silent⟩⟩
  · rename_i n target access name
    have both := (receiver_traced access target.traced awaits.below).and
      (receiver_settles (innerTarget _ _ _ _ rfl) awaits.below)
    have covers {g : Findings} (settled : AllSettled scope target.subtrees g) :
        AllSettled scope (Expr.member n target access name).subtrees g := by
      intro e listed
      rcases List.mem_cons.1 listed with same | below
      · cases same
        trivial
      · exact settled e below
    have silent {g : Findings} (trail : Trail scope.program (At target.subtrees scope.place) f g) :
        g.resolution n.id = none :=
      (trail.tidy awaits.tidy).unreferred (awaits.head_fresh trail (At.inside target.subtrees_nodes))
    refine .infer_bind both ?_ ?_
    · rintro from_ g ⟨⟨trail, receives⟩, settled, exact_⟩
      have reached (candidates : List Candidate)
          (reaches : Reaches scope g (.member n target access name) candidates) :
          (scope.calleeOf g from_ name).toOption.elim [] Callee.candidates = candidates := by
        cases reaches with
        | member receives =>
          cases exact_ _ receives
          exact Scope.calleeOf_all
        | refused refuses => exact absurd (receives _ rfl) refuses.not_receives
      refine .findings_bind ?_
      cases found : scope.calleeOf g from_ name with
      | error e =>
        rw [found] at reached
        exact .fail ⟨covers settled, fun candidates reaches => ⟨reached candidates reaches, silent trail⟩⟩
      | ok meaning =>
        rw [found] at reached
        exact .pure ⟨covers settled, fun candidates reaches => ⟨reached candidates reaches, silent trail⟩⟩
    · rintro g ⟨⟨trail, -⟩, settled, exact_⟩
      refine ⟨covers settled, fun candidates reaches => ?_⟩
      cases reaches with
      | member receives => cases exact_ _ receives
      | refused _ => exact ⟨rfl, silent trail⟩
  · rename_i notIdent notMember
    refine .attempt_bind (inner scope f awaits) fun r g settled => .fail ⟨settled, ?_⟩
    intro candidates reaches
    cases reaches with
    | named _ => exact absurd rfl (notIdent _ _)
    | member _ | refused _ => exact absurd rfl (notMember _ _ _ _)

theorem results_unique {es : List Expr} {rs : List Resolved} {types : List Ty}
    (known : List.Forall₂ (fun (e : Expr) r => f.cached e.id = some r) es rs)
    (typed : List.Forall₂ (fun (e : Expr) type => f.cached e.id = some (.ok type)) es types) :
    allResolved rs = .ok types := by
  have same : rs = types.map .ok := by
    induction known generalizing types with
    | nil =>
      cases typed
      rfl
    | cons first _ ih =>
      cases typed with
      | cons here rest => rw [List.map_cons, ← ih rest, Option.some.inj (first.symm.trans here)]
  rw [same, allResolved_map_ok]

/-- What a call comes to once its callee and its arguments have been visited. -/
theorem concluded_settles {n : Node} {callee : Expr} {args : List Expr}
    {found : Except Reported Callee} {rs : List Resolved}
    (distinct : Distinct (Expr.call n callee args).nodes)
    (known : List.Forall₂ (fun (e : Expr) r => f.cached e.id = some r) args rs)
    (silent : f.resolution n.id = none)
    (settled : AllSettled scope (callee.subtrees ++ Expr.subtreesAll args) f)
    (reached : ∀ candidates, Reaches scope f callee candidates →
      found.toOption.elim [] Callee.candidates = candidates ∧ f.resolution callee.id = none) :
    Ensures (do
      let meaning ← settle found
      let types ← settle (allResolved rs)
      let (decl, type) ← meaning.choose (Expr.call n callee args).span (operands args types)
      note (.resolvedCall (.call n callee args) decl)
      refer (Expr.call n callee args).id decl
      return type : Infer Ty).run scope f fun r g =>
        AllSettled scope (callee.subtrees ++ Expr.subtreesAll args) g ∧
          (Expr.call n callee args).Outcome scope g r := by
  have unmet (none_ : ∀ types, allResolved rs = .ok types → ∀ candidates,
      found.toOption.elim [] Callee.candidates = candidates → chosen candidates args types = none) :
      (Expr.call n callee args).Outcome scope f (.error ⟨⟩) := by
    intro candidates types reaches typed
    obtain ⟨same, unreferred⟩ := reached candidates reaches
    rw [none_ types (results_unique known typed) candidates same]
    exact ⟨rfl, silent, unreferred⟩
  cases found with
  | error _ => exact .settle_bind (fun _ => nofun) fun _ => ⟨settled, unmet fun _ _ _ same => same ▸ rfl⟩
  | ok meaning =>
    refine .settle_bind ?_ nofun
    rintro _ ⟨rfl⟩
    refine .settle_bind (fun values all => ?_) fun failed => ⟨settled, unmet fun _ all =>
      nomatch failed.symm.trans all⟩
    unfold Callee.choose
    split
    · rename_i decl hit
      refine .infer_bind (m := fun r g => r = .ok decl ∧ g = f) (.pure ⟨rfl, rfl⟩) ?_ nofun
      rintro _ g ⟨⟨rfl⟩, rfl⟩
      have refers := Findings.alike_refer (f := g) (p := scope.program) (Expr.below_apart distinct) decl.1
      rw [show (Expr.call n callee args).subtrees.tail = callee.subtrees ++ Expr.subtreesAll args
        from rfl] at refers
      refine .note_bind (.learn_bind (.pure ⟨?_, fun candidates types reaches typed => ?_⟩))
      · exact settled.alike (Expr.tail_closed (.call n callee args)) refers
      · rw [List.map_append, callee.subtrees_nodes, Expr.subtreesAll_nodes] at refers
        have back := refers.toEchoes.symm
        obtain ⟨same, unreferred⟩ :=
          reached candidates (reaches.echoed back (List.subset_append_left _ _))
        have typed := forall₂_echoed back (List.subset_append_right _ _) typed
        cases all.symm.trans (results_unique known typed)
        subst same
        have met : chosen ((Except.ok meaning : Except Reported Callee).toOption.elim []
            Callee.candidates) args values = some decl := hit
        refine ⟨?_, ?_, ?_⟩
        · rw [met]
          rfl
        · rw [met]
          exact Findings.resolution_referAny_self (some decl.1) silent
        · refine (refers.refers callee.node ?_).trans unreferred
          exact List.mem_append_left _ callee.node_mem_nodes
    · rename_i miss
      have none_ := unmet fun types same candidates found => by
        cases all.symm.trans same
        subst found
        exact miss
      split
      · exact .fail_bind ⟨settled, none_⟩
      · exact .infer_bind (m := fun r g => r = .error ⟨⟩ ∧ g = f) (.pure ⟨rfl, rfl⟩) nofun
          fun _ ⟨_, same⟩ => same ▸ ⟨settled, none_⟩

theorem callType_settles {n : Node} {callee : Expr} {args : List Expr} (inner : callee.Settles)
    (innerTarget : ∀ n target access name, callee = .member n target access name → target.Settles)
    (innerArgs : settlesEach args) (awaits : scope.Awaits f (Expr.call n callee args).nodes) :
    Ensures (callType (.call n callee args) callee args callee.infer callee.inferTarget
      (inferEach args)).run scope f fun r g =>
        AllSettled scope (callee.subtrees ++ Expr.subtreesAll args) g ∧
          (Expr.call n callee args).Outcome scope g r := by
  have parts := awaits.below
  refine .lift_bind ((inferEach_traced args scope f parts.swap.left).and
    (innerArgs scope f parts.swap.left)) ?_
  rintro rs g ⟨⟨first, known⟩, settledArgs⟩
  have later := parts.swap.after first (At.inside (Expr.subtreesAll_nodes args))
  refine .attempt_bind ((findCallee_traced callee.traced callee.target_traced later).and
    (findCallee_settles inner innerTarget later)) ?_
  rintro found h ⟨⟨second, -⟩, settledCallee, reached⟩
  have tidy := second.tidy later.tidy
  have judge : Visit scope.program (At callee.subtrees scope.place) h (h.setValid callee.id found.isOk) :=
    .judge (x := .expr callee) ⟨callee.subtree_mem_subtrees, rfl⟩
  have keep {ns : List Node} : h.Alike scope.program ns (h.setValid callee.id found.isOk) :=
    .setValid tidy ((second.extends_ later.tidy).known later.known) _ _
  have spared : g.Alike scope.program ((Expr.subtreesAll args).map Subtree.node) h := by
    rw [Expr.subtreesAll_nodes]
    exact parts.swap.toAwaits.alike second (At.inside callee.subtrees_nodes) later.tidy later.known
  have settled : AllSettled scope (callee.subtrees ++ Expr.subtreesAll args)
      (h.setValid callee.id found.isOk) := by
    refine .append (settledCallee.alike callee.subtrees_closed keep) ?_
    exact (settledArgs.alike (Expr.subtreesAll_closed args) spared).alike
      (Expr.subtreesAll_closed args) keep
  have silent : (h.setValid callee.id found.isOk).resolution n.id = none := by
    have trail : Trail scope.program (At (callee.subtrees ++ Expr.subtreesAll args) scope.place) f h :=
      (At.right first).trans (At.left second)
    have fresh := awaits.head_fresh trail (At.inside (by
      rw [List.map_append, callee.subtrees_nodes, Expr.subtreesAll_nodes]))
    rw [h.setValid_resolution]
    exact tidy.unreferred fresh
  have known : List.Forall₂ (fun (e : Expr) r =>
      (h.setValid callee.id found.isOk).cached e.id = some r) args rs :=
    known.imp fun _ _ entered =>
      (judge.extends_ tidy).cached ((second.extends_ later.tidy).cached entered)
  refine .learn_bind (concluded_settles awaits.distinct known silent settled fun candidates reaches => ?_)
  have back : Findings.Echoes scope.program callee.nodes _ h := keep.toEchoes.symm
  obtain ⟨same, unreferred⟩ := reached candidates (reaches.echoed back (List.Subset.refl _))
  exact ⟨same, (h.setValid_resolution _ _ _).trans unreferred⟩

/-! ## Expressions -/

theorem recordedPair_settles {n : Node} {key value : Expr} (left : key.Settles) (right : value.Settles)
    (awaits : scope.Awaits f (KeymapPair.mk n key value).nodes) :
    Ensures (recordedPair n (pairType key.infer value.infer)) scope f fun _ g =>
      AllSettled scope (key.subtrees ++ value.subtrees) g := by
  have inside : (key.subtrees ++ value.subtrees).map Subtree.node = key.nodes ++ value.nodes := by
    rw [List.map_append, key.subtrees_nodes, value.subtrees_nodes]
  have typed : Ensures (pairType key.infer value.infer).run scope f fun _ g =>
      AllSettled scope (key.subtrees ++ value.subtrees) g := by
    refine left.two right awaits.below fun r r' g settled => ?_
    exact .settle_bind (fun _ _ => .settle_bind (fun _ _ => .pure settled) fun _ => settled)
      fun _ => settled
  have visited : Ensures (pairType key.infer value.infer).run scope f fun _ g =>
      Trail scope.program (At (key.subtrees ++ value.subtrees) scope.place) f g := by
    refine .two key.traced value.traced awaits.below fun r r' g trail _ _ => ?_
    exact .settle_bind (fun _ _ => .settle_bind (fun _ _ => .pure trail) fun _ => trail) fun _ => trail
  refine .bind (typed.and visited) fun r g ⟨settled, trail⟩ => .learn (.pure ?_)
  refine settled.alike (.append key.subtrees_closed value.subtrees_closed) (Findings.alike_record ?_ _
    (awaits.head_fresh trail (At.inside inside)) ((trail.extends_ awaits.tidy).known awaits.known))
  intro m listed same
  rw [inside] at listed
  refine (List.nodup_cons.1 awaits.distinct).1 ?_
  rw [show n.id = m.id from same.symm]
  exact List.mem_map_of_mem listed

mutual

theorem Expr.settles : ∀ e : Expr, e.Settles
  | .ident .., _, _, awaits => remembered_settles awaits nameType_concludes
      ((nameType_settles awaits).weaken fun _ _ outcome => ⟨fun _ => nofun, outcome⟩)
  | .this _, _, _, awaits => remembered_settles awaits thisType_concludes
      fun _ _ => ⟨fun _ => nofun, trivial⟩
  | .literal .., _, f, awaits => remembered_settles awaits (.pure ⟨f, none, .refl f, rfl, .literal⟩)
      fun _ _ => ⟨fun _ => nofun, trivial⟩
  | .list _ elems, _, _, awaits =>
    remembered_settles awaits (listType_concludes (inferEach_traced elems) awaits.below)
      ((listType_settles (inferEach_settles elems) awaits.below).weaken fun _ _ h => ⟨h, trivial⟩)
  | .keymap _ pairs, _, _, awaits =>
    remembered_settles awaits (keymapLiteralType_concludes (inferPairs_traced pairs) awaits.below)
      ((keymapLiteralType_settles (inferPairs_settles pairs) awaits.below).weaken
        fun _ _ h => ⟨h, trivial⟩)
  | .binary _ _ lhs rhs, _, _, awaits =>
    remembered_settles awaits (binaryType_concludes lhs.traced rhs.traced awaits.below)
      ((binaryType_settles lhs.settles rhs.settles awaits).weaken fun _ _ h => ⟨h, trivial⟩)
  | .unary _ _ operand, _, _, awaits =>
    remembered_settles awaits (unaryType_concludes operand.traced awaits.below)
      ((unaryType_settles operand.settles awaits).weaken fun _ _ h => ⟨h, trivial⟩)
  | .new _ t, _, _, awaits => remembered_settles awaits (newType_concludes awaits.below)
      ((newType_settles (t := t)).weaken fun _ _ h => ⟨h, trivial⟩)
  | .member _ target _ _, _, _, awaits =>
    remembered_settles awaits (memberType_concludes target.traced awaits.below)
      ((memberType_settles target.settles awaits).weaken fun _ _ h => ⟨h, trivial⟩)
  | .index _ target place, _, _, awaits =>
    remembered_settles awaits (indexType_concludes target.traced place.traced awaits.below)
      ((indexType_settles target.settles place.settles awaits).weaken fun _ _ h => ⟨h, trivial⟩)
  | .call _ callee args, _, _, awaits =>
    remembered_settles awaits
      (callType_concludes callee.traced callee.target_traced (inferEach_traced args) awaits.below)
      (callType_settles callee.settles callee.target_settles (inferEach_settles args) awaits)
  | .assign _ _ target value, _, _, awaits =>
    remembered_settles awaits (assignType_concludes target.traced value.traced awaits.below)
      ((assignType_settles target.settles value.settles awaits.below).weaken
        fun _ _ h => ⟨h, trivial⟩)

theorem Expr.target_settles : ∀ (e : Expr) (n : Node) (target : Expr) (access : MemberAccess)
    (name : Ident), e = .member n target access name → target.Settles
  | .member _ target _ _, _, _, _, _, same => by
    cases same
    exact target.settles
  | .ident .., _, _, _, _, same | .this _, _, _, _, _, same | .literal .., _, _, _, _, same
  | .list .., _, _, _, _, same | .keymap .., _, _, _, _, same | .binary .., _, _, _, _, same
  | .unary .., _, _, _, _, same | .new .., _, _, _, _, same | .index .., _, _, _, _, same
  | .call .., _, _, _, _, same | .assign .., _, _, _, _, same => nomatch same

theorem inferEach_settles : ∀ es : List Expr, settlesEach es
  | [], _, _, _ => .pure fun _ => nofun
  | e :: rest, scope, f, awaits => by
    refine .bind ((e.traced scope f awaits.left).and (e.settles scope f awaits.left)) ?_
    rintro r g ⟨⟨first, -⟩, settled⟩
    have later := awaits.after first (At.inside e.subtrees_nodes)
    refine .bind ((inferEach_traced rest scope g later).and (inferEach_settles rest scope g later)) ?_
    rintro rs h ⟨⟨others, -⟩, settledRest⟩
    refine .pure (.append (settled.alike e.subtrees_closed ?_) settledRest)
    rw [e.subtrees_nodes]
    exact awaits.toAwaits.alike others (At.inside (Expr.subtreesAll_nodes rest)) later.tidy later.known

theorem inferPairs_settles : ∀ pairs : List KeymapPair, settlesPairs pairs
  | [], _, _, _ => .pure fun _ => nofun
  | .mk n key value :: rest, scope, f, awaits => by
    refine .bind ((recordedPair_traced key.traced value.traced awaits.left).and
      (recordedPair_settles key.settles value.settles awaits.left)) ?_
    rintro r g ⟨⟨first, -⟩, settled⟩
    have inside : (Subtree.pair (.mk n key value) :: (key.subtrees ++ value.subtrees)).map Subtree.node =
        (KeymapPair.mk n key value).nodes := by
      rw [List.map_cons, List.map_append, key.subtrees_nodes, value.subtrees_nodes]
      rfl
    have later := awaits.after first (At.inside inside)
    refine .bind ((inferPairs_traced rest scope g later).and (inferPairs_settles rest scope g later)) ?_
    rintro rs h ⟨⟨others, -⟩, settledRest⟩
    have spared := awaits.toAwaits.alike others (At.inside (Expr.subtreesPairs_nodes rest)) later.tidy
      later.known
    have kept : AllSettled scope (key.subtrees ++ value.subtrees) h := by
      refine settled.alike (.append key.subtrees_closed value.subtrees_closed) (spared.mono ?_)
      rw [List.map_append, key.subtrees_nodes, value.subtrees_nodes]
      exact List.subset_cons_self _ _
    refine .pure fun e listed => ?_
    rcases List.mem_append.1 listed with inPair | inRest
    · rcases List.mem_cons.1 inPair with same | below
      · cases same
      · exact kept e below
    · exact settledRest e inRest

end

end ClassLang
