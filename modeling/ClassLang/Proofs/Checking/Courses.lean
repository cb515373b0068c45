import ClassLang.Proofs.Checking.BodyTrails
import ClassLang.Proofs.Checking.Examinations

/-!
The course of a run up to the bodies: types in signatures and extends clauses are visited, superclasses
linked and overloads numbered.
-/

namespace ClassLang

variable {p : Program} {settings : Settings} {own wider : Subtree → Place → Prop} {f g h : Findings}
  {types : List TypeRef}

/-! ## Turns -/

/-- A visit, or an entry about the superclasses or overloads. -/
inductive Turn (p : Program) (own : Subtree → Place → Prop) (f : Findings) : Findings → Prop
  | visit {g : Findings} : Visit p own f g → Turn p own f g
  | mark (i : Nat) (mark : InheritanceMark) : Turn p own f (f.setMark i mark)
  | link {i j : Nat} {written : TypeRef} {type : Ty} : (p.classAt i).superclass = some written →
    f.cached written.id = some (.ok type) → p.classOf? type = some j →
      Turn p own f (f.setSuperclass i ⟨j, p.argsOf j type⟩)
  | number (decl : Decl) (index : Nat) : Turn p own f (f.setOverloadIndex decl index)

def Course (p : Program) (own : Subtree → Place → Prop) : Findings → Findings → Prop :=
  Relation.ReflTransGen (Turn p own)

namespace Turn

theorem mono (le : ∀ x place, own x place → wider x place) (t : Turn p own f g) :
    Turn p wider f g := by
  cases t with
  | visit v => exact .visit (v.mono le)
  | mark i mark => exact .mark i mark
  | link extends_ known found => exact .link extends_ known found
  | number decl index => exact .number decl index

theorem tidy (t : Turn p own f g) (before : f.Tidy) : g.Tidy := by
  cases t with
  | visit v => exact v.tidy before
  | mark _ _ | link _ _ _ | number _ _ => exact ⟨before.refers, before.typed⟩

theorem extends_ (t : Turn p own f g) (tidy : f.Tidy) : f.Extends g := by
  cases t with
  | visit v => exact v.extends_ tidy
  | mark _ _ | link _ _ _ | number _ _ => exact ⟨id, id, fun _ => rfl, id, fun _ => rfl⟩

theorem validity_eq (t : Turn p own f g) {id : Nat} (spared : ∀ x place, own x place → x.id ≠ id) :
    g.validity id = f.validity id := by
  cases t with
  | visit v => exact v.validity_eq spared
  | mark _ _ | link _ _ _ | number _ _ => rfl

end Turn

namespace Course

theorem refl (f : Findings) : Course p own f f := Relation.ReflTransGen.refl

theorem single (t : Turn p own f g) : Course p own f g := Relation.ReflTransGen.single t

theorem trans (first : Course p own f g) (second : Course p own g h) : Course p own f h :=
  Relation.ReflTransGen.trans first second

theorem mono (le : ∀ x place, own x place → wider x place) (c : Course p own f g) :
    Course p wider f g :=
  Relation.ReflTransGen.mono (fun _ _ t => t.mono le) _ _ c

theorem tidy (c : Course p own f g) (before : f.Tidy) : g.Tidy := by
  induction c with
  | refl => exact before
  | tail _ t ih => exact t.tidy ih

theorem extends_ (c : Course p own f g) (tidy : f.Tidy) : f.Extends g := by
  induction c with
  | refl => exact .refl f
  | tail c t ih => exact ih.trans (t.extends_ (Course.tidy c tidy))

theorem validity_eq (c : Course p own f g) {id : Nat} (spared : ∀ x place, own x place → x.id ≠ id) :
    g.validity id = f.validity id := by
  induction c with
  | refl => rfl
  | tail _ t ih => exact (t.validity_eq spared).trans ih

end Course

theorem Trail.course (t : Trail p own f g) : Course p own f g :=
  Relation.ReflTransGen.mono (fun _ _ v => .visit v) _ _ t

theorem Findings.Awaits.afterCourse {xs ys : List Node} (h : f.Awaits types (xs ++ ys))
    (c : Course p own f g) (inside : ∀ x place, own x place → x.node ∈ xs) : g.Awaits types ys := by
  refine h.keep (c.tidy h.tidy) (c.extends_ h.tidy) fun n listed => ?_
  refine c.validity_eq fun x place mine same => ?_
  refine h.distinct.apart (List.mem_map_of_mem (inside x place mine)) ?_
  rw [show x.node.id = n.id from same]
  exact List.mem_map_of_mem listed

/-! ## Superclasses -/

/-- The extends clauses of the classes that are still to be examined have not been visited. -/
def Findings.Unexplored (p : Program) (f : Findings) : Prop :=
  ∀ i, f.mark i = .unvisited → ∀ n ∈ p.superclassNodes i, f.validity n.id = none

/-- The examination of some classes. -/
structure Descent (p : Program) (f g : Findings) : Prop where
  course : Course p p.Ancestral f g
  unexplored : g.Unexplored p
  marks : ∀ i, g.mark i = .unvisited → f.mark i = .unvisited

theorem Descent.trans (first : Descent p f g) (second : Descent p g h) : Descent p f h :=
  ⟨first.course.trans second.course, second.unexplored,
    fun i new => first.marks i (second.marks i new)⟩

theorem Descent.turn (t : Turn p p.Ancestral f g) (unexplored : g.Unexplored p)
    (marks : ∀ i, g.mark i = .unvisited → f.mark i = .unvisited) : Descent p f g :=
  ⟨.single t, unexplored, marks⟩

theorem Findings.Unexplored.refl (unexplored : f.Unexplored p) : Descent p f f :=
  ⟨.refl f, unexplored, fun _ => id⟩

theorem Findings.Unexplored.setMark {i : Nat} (mark : InheritanceMark) (unexplored : f.Unexplored p)
    (visited : mark ≠ .unvisited) : Descent p f (f.setMark i mark) := by
  have marks (j : Nat) (new : (f.setMark i mark).mark j = .unvisited) : f.mark j = .unvisited := by
    rw [mark_setMark] at new
    split at new
    · exact absurd new visited
    · exact new
  exact .turn (.mark i mark) (fun j new => unexplored j (marks j new)) marks

/-- A visit of the extends clause of a class under examination. -/
theorem Descent.visit {i : Nat}
    (apart : ∀ j, i ≠ j → Apart (p.superclassNodes i) (p.superclassNodes j))
    (unexplored : f.Unexplored p) (busy : f.mark i ≠ .unvisited)
    (trail : Trail p (fun x place => p.Ancestral x place ∧ x.node ∈ p.superclassNodes i) f g) :
    Descent p f g := by
  have marks (j : Nat) : g.mark j = f.mark j := by rw [Findings.mark, trail.marks, Findings.mark]
  refine ⟨(trail.mono fun _ _ h => h.1).course, fun j new n listed => ?_, fun j new => marks j ▸ new⟩
  have other : i ≠ j := by
    rintro rfl
    exact busy (marks i ▸ new)
  refine (trail.validity_eq fun x _ mine same => ?_).trans (unexplored j (marks j ▸ new) n listed)
  refine apart j other (List.mem_map_of_mem mine.2) ?_
  rw [show x.node.id = n.id from same]
  exact List.mem_map_of_mem listed

theorem checkSuperclass_descends {examine : Nat → Check Bool} {i : Nat}
    (distinct : Distinct (p.superclassNodes i))
    (apart : ∀ j, i ≠ j → Apart (p.superclassNodes i) (p.superclassNodes j))
    (examines : ∀ j f, f.Tidy → f.Unexplored p →
      Ensures (examine j) (.top p settings) f fun _ g => Descent p f g)
    (tidy : f.Tidy) (unexplored : f.Unexplored p) (busy : f.mark i ≠ .unvisited)
    (fresh : ∀ n ∈ p.superclassNodes i, f.validity n.id = none) :
    Ensures (checkSuperclass examine i) (.top p settings) f fun _ g => Descent p f g := by
  rintro s rfl
  cases extends_ : (p.classAt i).superclass with
  | none =>
    rw [exec_checkSuperclass_none (p := p) rfl extends_]
    exact unexplored.refl
  | some written =>
    have nodes : p.superclassNodes i = written.nodes := by
      rw [Program.superclassNodes, extends_, Option.elim_some]
    have awaits : s.findings.Awaits [] written.nodes :=
      ⟨tidy, nodes ▸ distinct, nodes ▸ fresh, by simp [Findings.Known]⟩
    rw [exec_checkSuperclass (p := p) rfl extends_]
    cases p.superclassName i written with
    | error e => exact unexplored.refl
    | ok name =>
      dsimp only
      have resolved := written.traced { Scope.top p settings with generics := (p.classAt i).params }
        s.findings [] awaits s rfl
      rcases run : Check.exec written.resolve.run _ s with ⟨e | type, t⟩
      all_goals
        rw [run] at resolved
        have visited : Descent p s.findings t.findings := by
          refine .visit apart unexplored busy (resolved.1.mono ?_)
          intro x here mine
          have listed := At.inside written.subtrees_nodes x here mine
          obtain ⟨inside, rfl⟩ := mine
          exact ⟨.mk extends_ inside, nodes ▸ listed⟩
      · exact visited
      dsimp only
      cases found : p.classOf? type with
      | none => exact visited
      | some j =>
        dsimp only
        have tidyThen := visited.course.tidy tidy
        have examined := examines j t.findings tidyThen visited.unexplored t rfl
        rcases answer : (examine j).exec (.top p settings) t with ⟨_ | _, u⟩
        · rw [answer] at examined
          exact visited.trans examined
        · rw [answer] at examined
          have known := (examined.course.extends_ tidyThen).cached resolved.2.1
          refine (visited.trans examined).trans (.turn (.link extends_ known found) ?_ fun _ => id)
          exact examined.unexplored

theorem examineClass_descends {examine : Nat → Check Bool} {i : Nat}
    (distinct : Distinct (p.superclassNodes i))
    (apart : ∀ j, i ≠ j → Apart (p.superclassNodes i) (p.superclassNodes j))
    (examines : ∀ j f, f.Tidy → f.Unexplored p →
      Ensures (examine j) (.top p settings) f fun _ g => Descent p f g)
    (tidy : f.Tidy) (unexplored : f.Unexplored p) (first : f.mark i = .unvisited) :
    Ensures (examineClass examine i) (.top p settings) f fun _ g => Descent p f g := by
  rintro s rfl
  have marked : Descent p s.findings (s.examining i).findings := unexplored.setMark .inProgress (by simp)
  have busy : (s.examining i).findings.mark i ≠ .unvisited := by
    simp [CheckState.examining, Findings.mark_setMark]
  have linked := checkSuperclass_descends distinct apart examines (marked.course.tidy tidy)
    marked.unexplored busy (unexplored i first) (s.examining i) rfl
  rw [exec_examineClass (p := p) rfl]
  rcases answer : (checkSuperclass examine i).exec (.top p settings) (s.examining i) with ⟨sound, t⟩
  rw [answer] at linked
  exact (marked.trans linked).trans (linked.unexplored.setMark (.done _) (by simp))

theorem checkInheritance_descends (distinct : ∀ i, Distinct (p.superclassNodes i))
    (apart : ∀ i j, i ≠ j → Apart (p.superclassNodes i) (p.superclassNodes j)) (depth i : Nat)
    (tidy : f.Tidy) (unexplored : f.Unexplored p) :
    Ensures (checkInheritance depth i) (.top p settings) f fun _ g => Descent p f g := by
  induction depth generalizing i f with
  | zero =>
    rintro s rfl
    rw [exec_checkInheritance]
    cases s.findings.mark i <;> exact unexplored.refl
  | succ depth ih =>
    rintro s rfl
    rw [exec_checkInheritance]
    cases new : s.findings.mark i with
    | done valid => exact unexplored.refl
    | inProgress => exact unexplored.refl
    | unvisited =>
      exact examineClass_descends (distinct i) (apart i) (fun j _ => ih j) tidy unexplored new s rfl

/-! ## Overloads -/

theorem OverloadSet.number_course (set : OverloadSet) (f : Findings) :
    Course p own f (set.number f) := by
  unfold OverloadSet.number
  induction set.members.zipIdx generalizing f with
  | nil => exact .refl f
  | cons m rest ih => exact (Course.single (.number m.1.decl m.2)).trans (ih _)

theorem checkSets_course (sets : List OverloadSet) {scope : Scope} :
    Ensures (checkSets sets) scope f fun _ g => Course p own f g := by
  have numbered (f : Findings) : Course p own f (sets.foldl (fun f set => set.number f) f) := by
    induction sets generalizing f with
    | nil => exact .refl f
    | cons set rest ih => exact (set.number_course f).trans (ih _)
  exact .learn fun s same => same ▸ numbered f

theorem checkMethodSets_course (i : Nat) {scope : Scope} :
    Ensures (checkMethodSets i) scope f fun _ g => Course p own f g :=
  .read (.silent (fun _ => rfl) fun _ => .findings
    (.bind (checkSets_course _) fun _ _ course => .pure course))

/-! ## Phases -/

namespace Phase

section Signatures

variable {nodes : List Node}

theorem named_findings : (named p settings).2.findings = .empty := by
  have still : Ensures (p.classIndices.mapM checkNames) (.top p settings) .empty
      fun _ g => g = .empty :=
    .mapM (fun _ g => g = .empty) (fun _ _ _ same => by
      rintro s rfl
      rw [exec_checkNames (p := p) rfl]
      exact same) rfl
  exact still ((reportAll p.redeclarations).exec (.top p settings) .empty).2 rfl

theorem typed_trail (settings : Settings) (awaits : Findings.empty.Awaits types
    (p.classIndices.flatMap fun i => TypeRef.nodesAll (p.classAt i).signature)) :
    Trail p (fun x place => ∃ i ∈ p.classIndices,
      At (TypeRef.subtreesAll (p.classAt i).signature) (p.signaturePlace i) x place) .empty
      (typed p settings).2.findings :=
  have each := Ensures.mapM_trail _ (fun _ _ => At.inside (TypeRef.subtreesAll_nodes _))
    (fun i _ _ _ awaits => (checkClassSignatures_trail settings i awaits).weaken
      fun _ _ h => ⟨h.trail, h.covers⟩) awaits
  (each ((named p settings).2.noted .resolvingSignatures) named_findings).1

theorem functionsTyped_trail (awaits : (typed p settings).2.findings.Awaits types
    (p.functionIndices.flatMap fun i => TypeRef.nodesAll (p.functionAt i).signature)) :
    Trail p (fun x place => ∃ i ∈ p.functionIndices,
      At (TypeRef.subtreesAll (p.functionAt i).signature) (p.functionPlace (p.functionAt i)) x place)
      (typed p settings).2.findings (functionsTyped p settings).2.findings :=
  have each := Ensures.mapM_trail _ (fun _ _ => At.inside (TypeRef.subtreesAll_nodes _))
    (fun i _ _ _ awaits => (checkFunctionSignature_trail settings i awaits).weaken
      fun _ _ h => ⟨h.trail, h.covers⟩) awaits
  (each (typed p settings).2 rfl).1

theorem at_inside {ι : Type} {items : List ι} {ts : ι → List TypeRef} {place : ι → Place} :
    ∀ x here, (∃ i ∈ items, At (TypeRef.subtreesAll (ts i)) (place i) x here) →
      x.node ∈ items.flatMap fun i => TypeRef.nodesAll (ts i) :=
  fun x here ⟨i, listed, mine⟩ =>
    List.mem_flatMap.2 ⟨i, listed, At.inside (TypeRef.subtreesAll_nodes _) x here mine⟩

end Signatures

section Distinct

variable (settings) (distinct : Distinct p.nodes)
include distinct

theorem awaits_empty : Findings.empty.Awaits [] (TypeRef.nodesAll p.signature ++
    (p.superNodes ++ p.bodyNodes)) :=
  ⟨⟨nofun, nofun⟩, (Program.distinct_parts distinct).right, fun _ _ => rfl, fun _ => nofun⟩

theorem signatures_course : Course p p.Signed .empty (functionsTyped p settings).2.findings ∧
    (functionsTyped p settings).2.findings.Awaits p.signature (p.superNodes ++ p.bodyNodes) := by
  have start := awaits_empty distinct
  rw [Program.nodes_signature, Program.flatMap_classes, Program.flatMap_functions,
    List.append_assoc] at start
  have classes := typed_trail settings start.left
  have later := start.after classes at_inside
  have functions := functionsTyped_trail later.left
  have last := later.after functions at_inside
  refine ⟨.trans (Trail.course (classes.mono ?_)) (functions.mono ?_).course, last.tidy,
    last.distinct, last.fresh, functionsTyped_known settings distinct⟩
  · rintro x _ ⟨i, listed, inside, rfl⟩
    exact .ofClass listed inside
  · rintro x _ ⟨i, listed, inside, rfl⟩
    exact .ofFunction listed inside

theorem derived_course :
    Course p p.Ancestral (functionsTyped p settings).2.findings (derived p settings).2.findings ∧
      (derived p settings).2.findings.Awaits p.signature p.bodyNodes := by
  have start := (signatures_course settings distinct).2
  have supers := (Program.distinct_parts distinct).right.right.left
  have each (i : Nat) : Distinct (p.superclassNodes i) := by
    by_cases listed : i ∈ p.classIndices
    · exact supers.of_flatMap listed
    · rw [Program.superclassNodes_of_not_mem listed]
      exact List.nodup_nil
  have descends : Ensures (p.classIndices.mapM (checkInheritance p.classIndices.length))
      (.top p settings) (functionsTyped p settings).2.findings fun _ g =>
        Descent p (functionsTyped p settings).2.findings g := by
    refine .mapM (fun _ g => Descent p (functionsTyped p settings).2.findings g)
      (fun i rest f before => ?_) ?_
    · exact (checkInheritance_descends each (Program.superclasses_apart supers) _ i
        (before.course.tidy start.tidy) before.unexplored).weaken fun _ _ after => before.trans after
    · refine Findings.Unexplored.refl fun i _ n listed => start.fresh n (List.mem_append_left _ ?_)
      exact Program.superclassNodes_subset i listed
  have course := (descends ((functionsTyped p settings).2.noted .validatingInheritance) rfl).course
  exact ⟨course, start.afterCourse course fun _ _ => Program.Ancestral.inside⟩

theorem methodSets_course :
    Course p (fun _ _ => False) (derived p settings).2.findings (methodSets p settings).2.findings ∧
      (methodSets p settings).2.findings.Awaits p.signature p.bodyNodes := by
  have start := (derived_course settings distinct).2
  have functions : Ensures checkFunctionSets (.top p settings) (derived p settings).2.findings
      fun _ g => Course p (fun _ _ => False) (derived p settings).2.findings g :=
    .read (.findings (checkSets_course _))
  have methods : Ensures (p.classIndices.mapM checkMethodSets) (.top p settings)
      (functionSets p settings).2.findings fun _ g =>
        Course p (fun _ _ => False) (functionSets p settings).2.findings g := by
    refine .mapM (fun _ g => Course p (fun _ _ => False) (functionSets p settings).2.findings g)
      (fun i rest f before => ?_) (.refl _)
    exact (checkMethodSets_course i).weaken fun _ _ after => before.trans after
  have course := (functions ((derived p settings).2.noted .validatingOverloads) rfl).trans
    (methods (functionSets p settings).2 rfl)
  have start : Findings.Awaits _ p.signature ([] ++ p.bodyNodes) := start
  exact ⟨course, start.afterCourse course fun _ _ => False.elim⟩

end Distinct

end Phase

end ClassLang
