import ClassLang.Proofs.Checking.Courses

/-!
A whole run: a course up to the bodies, and from then on a trail over them. All the while, what is known
of a written type is what it denotes where it stands, and a class is linked to the class that its extends
clause denotes.

* `Program.analyze_course`: every run takes such a course.
-/

namespace ClassLang

variable {p : Program} {settings : Settings} {f g : Findings} {types : List TypeRef}

/-! ## Written types -/

/-- Whatever a written type is known as, it denotes where it stands. -/
def Findings.TypesDenoted (p : Program) (f : Findings) : Prop :=
  ∀ t place r, p.Stands (.type t) place → f.cached t.id = some r → Denoted p place.generics f t r

namespace Findings.TypesDenoted

theorem empty : Findings.empty.TypesDenoted p := fun _ _ _ _ => nofun

theorem turn (before : f.TypesDenoted p) (t : Turn p p.Stands f g) (tidy : f.Tidy)
    (distinct : Distinct p.nodes) : g.TypesDenoted p := by
  intro written place r stands known
  have later := t.extends_ tidy
  cases t with
  | mark _ _ | link _ _ _ | number _ _ => exact (before written place r stands known).mono later
  | visit v =>
    rcases v.entered tidy known with known | ⟨x, here, mine, same, entered⟩
    · exact (before written place r stands known).mono later
    · obtain ⟨rfl, rfl⟩ := Program.Stands.unique distinct mine stands same
      cases entered with
      | fault => exact .fault
      | type denoted => exact denoted.mono later

theorem course (before : f.TypesDenoted p) (c : Course p p.Stands f g) (tidy : f.Tidy)
    (distinct : Distinct p.nodes) : g.TypesDenoted p := by
  induction c with
  | refl => exact before
  | tail c t ih => exact ih.turn t (Course.tidy c tidy) distinct

end Findings.TypesDenoted

/-! ## Formation -/

mutual

/-- What each written type hands on from its arguments to what it denotes holds of all of them. -/
theorem TypeRef.denoted {motive : Ty → Prop} (place : Place)
    (rule : ∀ t type, p.Stands (.type t) place → f.cached t.id = some (.ok type) →
      (∀ arg ∈ t.args, ∀ type, f.cached arg.id = some (.ok type) → motive type) → motive type) :
    ∀ t : TypeRef, (∀ x ∈ t.subtrees, p.Stands x place) → ∀ type, f.cached t.id = some (.ok type) →
      motive type
  | .primitive .., stands, type, known | .named .., stands, type, known
  | .void .., stands, type, known =>
    rule _ type (stands _ (TypeRef.subtree_mem_subtrees _)) known fun _ => nofun
  | .array _ _ args, stands, type, known | .keymap _ _ args, stands, type, known
  | .generic _ _ _ args, stands, type, known =>
    rule _ type (stands _ (TypeRef.subtree_mem_subtrees _)) known
      (TypeRef.denotedAll place rule args fun x inside => stands x (List.mem_cons_of_mem _ inside))

theorem TypeRef.denotedAll {motive : Ty → Prop} (place : Place)
    (rule : ∀ t type, p.Stands (.type t) place → f.cached t.id = some (.ok type) →
      (∀ arg ∈ t.args, ∀ type, f.cached arg.id = some (.ok type) → motive type) → motive type) :
    ∀ ts : List TypeRef, (∀ x ∈ TypeRef.subtreesAll ts, p.Stands x place) → ∀ t ∈ ts, ∀ type,
      f.cached t.id = some (.ok type) → motive type
  | [], _ => fun _ => nofun
  | t :: rest, stands => List.forall_mem_cons.2
    ⟨TypeRef.denoted place rule t fun x inside => stands x (List.mem_append_left _ inside),
      TypeRef.denotedAll place rule rest fun x inside => stands x (List.mem_append_right _ inside)⟩

end

theorem Program.stands_of_signature {i : Nat} {t : TypeRef} (written : t ∈ (p.classAt i).signature) :
    p.Stands (.type t) (p.signaturePlace i) := by
  refine .signed (.ofClass (Program.mem_of_signature written) ?_)
  rw [TypeRef.subtreesAll_eq]
  exact List.mem_flatMap.2 ⟨t, written, t.subtree_mem_subtrees⟩

theorem Program.stands_of_clause {i : Nat} {t : TypeRef} (clause : (p.classAt i).superclass = some t) :
    p.Stands (.type t) (p.signaturePlace i) :=
  .ancestral (.mk clause t.subtree_mem_subtrees)

theorem Program.stands_of_function {i : Nat} {t : TypeRef} (listed : i ∈ p.functionIndices)
    (written : t ∈ (p.functionAt i).signature) :
    p.Stands (.type t) (p.functionPlace (p.functionAt i)) := by
  refine .signed (.ofFunction listed ?_)
  rw [TypeRef.subtreesAll_eq]
  exact List.mem_flatMap.2 ⟨t, written, t.subtree_mem_subtrees⟩

namespace Findings.TypesDenoted

variable (h : f.TypesDenoted p)
include h

/-- A written type denotes a well-formed type, in which only type parameters occur that may be named
where it stands. -/
theorem forms {t : TypeRef} {place : Place} {r : Resolved} (stands : p.Stands (.type t) place)
    (known : f.cached t.id = some r) : p.Forms place.generics r := by
  rintro type rfl
  refine TypeRef.denoted place (fun t type stands known args => ?_) t
    (fun _ inside => stands.below inside) type known
  exact (h t place _ stands known).formed (fun _ named => named) args

theorem forms_signature {i : Nat} {t : TypeRef} {r : Resolved}
    (written : t ∈ (p.classAt i).signature) (known : f.cached t.id = some r) :
    p.Forms (p.classAt i).params r :=
  h.forms (Program.stands_of_signature written) known

theorem forms_clause {i : Nat} {t : TypeRef} {r : Resolved}
    (clause : (p.classAt i).superclass = some t) (known : f.cached t.id = some r) :
    p.Forms (p.classAt i).params r :=
  h.forms (Program.stands_of_clause clause) known

theorem forms_function {i : Nat} {t : TypeRef} {r : Resolved} (listed : i ∈ p.functionIndices)
    (written : t ∈ (p.functionAt i).signature) (known : f.cached t.id = some r) :
    p.Forms (p.functionPlace (p.functionAt i)).generics r :=
  h.forms (Program.stands_of_function listed written) known

/-- The types in the signature of a class are known, and well-formed. -/
theorem ofClass (known : f.Known p.signature) (i : Nat) :
    f.Grounds p (p.classAt i).params (p.classAt i).signature := by
  intro t written
  obtain ⟨r, known⟩ := Option.isSome_iff_exists.1 (known t (Program.classAt_signature i written))
  exact ⟨r, known, h.forms_signature written known⟩

theorem ofFunction (known : f.Known p.signature) {i : Nat} (listed : i ∈ p.functionIndices) :
    f.Grounds p (p.functionPlace (p.functionAt i)).generics (p.functionAt i).signature := by
  intro t written
  have inSignature : t ∈ p.signature := by
    rw [Program.signature_eq]
    exact List.mem_append_right _ (List.mem_flatMap.2 ⟨i, listed, written⟩)
  obtain ⟨r, known⟩ := Option.isSome_iff_exists.1 (known t inSignature)
  exact ⟨r, known, h.forms_function listed written known⟩

end Findings.TypesDenoted

/-! ## Links -/

/-- A class is linked to the class that its extends clause denotes, with the arguments there. -/
def Findings.LinksDenoted (p : Program) (f : Findings) : Prop :=
  ∀ i link, f.superclass? i = some link → ∃ written type, (p.classAt i).superclass = some written ∧
    f.cached written.id = some (.ok type) ∧ p.classOf? type = some link.superclass ∧
      link.args = p.argsOf link.superclass type

namespace Findings.LinksDenoted

theorem later (before : f.LinksDenoted p) (extends_ : f.Extends g)
    (links : g.superclasses = f.superclasses) : g.LinksDenoted p := by
  intro i link linked
  rw [superclass?, links] at linked
  obtain ⟨written, type, clause, known, found, args⟩ := before i link linked
  exact ⟨written, type, clause, extends_.cached known, found, args⟩

theorem turn {own : Subtree → Place → Prop} (before : f.LinksDenoted p) (t : Turn p own f g)
    (tidy : f.Tidy) : g.LinksDenoted p := by
  cases t with
  | visit v => exact before.later (v.extends_ tidy) v.links
  | mark _ _ | number _ _ => exact before
  | @link i j written type clause known found =>
    intro i' link linked
    rw [superclass?_setSuperclass] at linked
    split at linked
    · rename_i same
      cases linked
      exact ⟨written, type, same ▸ clause, known, found, rfl⟩
    · exact before i' link linked

theorem course {own : Subtree → Place → Prop} (before : f.LinksDenoted p) (c : Course p own f g)
    (tidy : f.Tidy) : g.LinksDenoted p := by
  induction c with
  | refl => exact before
  | tail c t ih => exact ih.turn t (Course.tidy c tidy)

end Findings.LinksDenoted

/-! ## The course of a run -/

namespace Phase

section Distinct

variable (settings) (distinct : Distinct p.nodes)
include distinct

/-- The course up to the bodies. -/
theorem declarations_course : Course p p.Stands .empty (methodSets p settings).2.findings ∧
    (methodSets p settings).2.findings.Awaits p.signature p.bodyNodes := by
  have signatures := (signatures_course settings distinct).1
  have derived := (derived_course settings distinct).1
  obtain ⟨sets, awaits⟩ := methodSets_course settings distinct
  exact ⟨(signatures.mono fun _ _ => .signed).trans ((derived.mono fun _ _ => .ancestral).trans
    (sets.mono fun _ _ => False.elim)), awaits⟩

theorem statements_trail :
    Trail p p.Embodied (methodSets p settings).2.findings (statements p settings).2.findings ∧
      (statements p settings).2.findings.Covers p.bodySubtrees := by
  obtain ⟨course, start⟩ := declarations_course settings distinct
  have denoted := Findings.TypesDenoted.empty.course course ⟨nofun, nofun⟩ distinct
  have known := start.known
  rw [Program.bodyNodes, Program.flatMap_classes, Program.flatMap_functions, List.append_assoc]
    at start
  have classes : Ensures (p.classIndices.mapM checkClassBody) (.top p settings)
      (methodSets p settings).2.findings fun _ g => Trail p
        (fun x place => ∃ i ∈ p.classIndices, p.ClassBody i x place)
          (methodSets p settings).2.findings g ∧
            g.Covers (p.classIndices.flatMap fun i => (p.classAt i).bodySubtrees) :=
    .mapM_trail _ (fun _ _ _ _ => Program.ClassBody.inside)
      (fun i _ _ later awaits =>
        checkClassBody_trail i ((denoted.ofClass known i).mono later) awaits) start.left
  obtain ⟨first, inClasses⟩ := classes ((methodSets p settings).2.noted .checkingBodies) rfl
  have tidy := start.tidy
  have start := start.after first (by
    rintro x place ⟨i, listed, inside⟩
    exact List.mem_flatMap.2 ⟨i, listed, inside.inside⟩)
  have functions : Ensures (p.functionIndices.mapM checkFunctionBody) (.top p settings)
      (implemented p settings).2.findings fun _ g => Trail p
        (fun x place => ∃ i ∈ p.functionIndices,
          At (p.functionAt i).body.subtrees (p.functionPlace (p.functionAt i)) x place)
            (implemented p settings).2.findings g ∧
              g.Covers (p.functionIndices.flatMap fun i => (p.functionAt i).body.subtrees) := by
    refine .mapM_trail _ (fun _ _ => At.inside (Block.subtrees_nodes _))
      (fun i listed g later awaits => (checkFunctionBody_trail i ?_ awaits).weaken
        fun _ _ h => ⟨h.trail, h.covers⟩) start.left
    exact (denoted.ofFunction known listed).mono ((first.extends_ tidy).trans later)
  obtain ⟨second, inFunctions⟩ := functions (implemented p settings).2 rfl
  have later := second.extends_ start.tidy
  have start := start.after second (by
    rintro x place ⟨i, listed, mine⟩
    exact List.mem_flatMap.2 ⟨i, listed, At.inside (Block.subtrees_nodes _) x place mine⟩)
  rw [← statementSubtrees_nodes] at start
  have third := checkStatements_leaves [] false p.statements (.top p settings) _ start
    (.of_empty rfl) (functionsImplemented p settings).2 rfl
  have last := third.trail.extends_ start.tidy
  refine ⟨(first.mono ?_).trans ((Trail.mono ?_ second).trans (Trail.mono ?_ third.trail)),
    (inClasses.mono (later.trans last)).append ((inFunctions.mono last).append third.covers)⟩
  · rintro x place ⟨i, listed, inside⟩
    exact .ofClass listed inside
  · rintro x _ ⟨i, listed, inside, rfl⟩
    exact .ofFunction listed inside
  · rintro x _ ⟨inside, rfl⟩
    exact .statement inside

end Distinct

theorem judgeEach_trail {ids : List Nat} {verdicts : List Bool} {scope : Scope} (nodes : List Node)
    (same : nodes.map Node.id = ids) : Ensures (judgeEach ids verdicts) scope f fun _ g =>
      Trail p (At (nodes.map Subtree.head) .top) f g := by
  subst same
  have each (pairs : List (Nat × Bool)) (listed : ∀ pair ∈ pairs, pair.1 ∈ nodes.map Node.id) :
      Ensures (pairs.forM fun pair => learn (·.setValid pair.1 pair.2)) scope f fun _ g =>
        Trail p (At (nodes.map Subtree.head) .top) f g := by
    induction pairs generalizing f with
    | nil => exact .pure (.refl f)
    | cons pair rest ih =>
      obtain ⟨n, inside, same⟩ := List.mem_map.1 (listed pair (List.mem_cons_self ..))
      have visit : Visit p (At (nodes.map Subtree.head) .top) f (f.setValid pair.1 pair.2) := by
        rw [← same]
        exact .judge (x := .head n) ⟨List.mem_map_of_mem inside, rfl⟩
      refine .learn ((ih fun pair later => listed pair (List.mem_cons_of_mem _ later)).weaken
        fun _ _ trail => (Trail.single visit).trans trail)
  exact each _ fun pair listed => (List.of_mem_zip listed).1

theorem judged_trail : Trail p (At (p.headNodes.map Subtree.head) .top)
    (statements p settings).2.findings (judged p settings).findings := by
  have classes : Ensures (judgeEach (p.classes.map Class.id) (classVerdicts p settings))
      (.top p settings) (statements p settings).2.findings fun _ g => Trail p _ _ g :=
    judgeEach_trail (p.classes.map Class.node) List.map_map
  have functions (f : Findings) :
      Ensures (judgeEach (p.functions.map fun f => f.node.id) (functionVerdicts p settings))
        (.top p settings) f fun _ g => Trail p _ f g :=
    judgeEach_trail (p.functions.map Function.node) List.map_map
  rw [Program.headNodes, List.map_append]
  exact (At.left (classes _ rfl)).trans (At.right (functions _ _ rfl))

end Phase

/-- From nothing known a course leads to the bodies, which have not been visited by then, and from
there a trail over them to the end. -/
theorem Program.analyze_course (settings : Settings) (distinct : Distinct p.nodes) :
    ∃ f, Course p p.Stands .empty f ∧ f.Awaits p.signature p.bodyNodes ∧
      Trail p p.Stands f (p.analyze settings).state.findings := by
  obtain ⟨course, awaits⟩ := Phase.declarations_course settings distinct
  have bodies := (Phase.statements_trail settings distinct).1
  refine ⟨_, course, awaits, (bodies.mono fun _ _ => .embodied).trans ?_⟩
  refine Trail.mono ?_ Phase.judged_trail
  rintro x _ ⟨inside, rfl⟩
  obtain ⟨n, listed, rfl⟩ := List.mem_map.1 inside
  exact .head listed

end ClassLang
