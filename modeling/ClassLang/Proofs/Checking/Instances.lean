import ClassLang.Proofs.Checking.Decoration

/-!
The instances that are listed for a generic class are those that are written. Resolving a written type
lists its arguments if no type parameter occurs in them, and nothing else lists any; so from step to step
of a run the lists stay in line with what is known of the written types.

* `Findings.Enrolled.course`: this for a whole run.
* `Source.instances_exact`: what is listed in the end.
-/

namespace ClassLang

variable {p : Program} {own : Subtree → Place → Prop} {f g : Findings} {name : String} {args : List Ty}

/-! ## Types without type parameters -/

mutual

theorem Ty.isConcrete_iff : ∀ t : Ty, t.isConcrete = true ↔ t.occurrences = []
  | .array _ elem => isConcrete_iff elem
  | .keymap _ key value => by
    simp [isConcrete, occurrences, isConcrete_iff key, isConcrete_iff value]
  | .genericClass _ _ args => allConcrete_iff args
  | .param .. => by simp [isConcrete, occurrences]
  | .primitive .. | .plainClass .. | .null _ | .undefined _ | .void _ => by
    simp [isConcrete, occurrences]

theorem Ty.allConcrete_iff : ∀ ts : List Ty, allConcrete ts = true ↔ occurrencesAll ts = []
  | [] => by simp [allConcrete, occurrencesAll]
  | t :: rest => by
    simp [allConcrete, occurrencesAll, isConcrete_iff t, allConcrete_iff rest]

end

/-! ## Entries -/

namespace Findings

theorem instancesOf_instantiate (f : Findings) (name other : String) (args : List Ty) :
    (f.instantiate name args).instancesOf other =
      if other = name ∧ args ∉ f.instancesOf name then f.instancesOf name ++ [args]
      else f.instancesOf other := by
  unfold instantiate
  by_cases known : args ∈ f.instancesOf name
  · simp [known]
  · rw [if_neg (by simpa using known)]
    by_cases same : other = name
    · rw [if_pos ⟨same, known⟩, instancesOf, Table.get?_insert, if_pos same, Option.getD_some]
    · rw [if_neg fun new => same new.1, instancesOf, Table.get?_insert, if_neg same, instancesOf]

theorem mem_instancesOf_instantiate {other : String} {args' : List Ty} :
    args' ∈ (f.instantiate name args).instancesOf other ↔
      args' ∈ f.instancesOf other ∨ other = name ∧ args' = args := by
  rw [instancesOf_instantiate]
  split
  · rename_i new
    obtain ⟨rfl, _⟩ := new
    simp
  · rename_i old
    constructor
    · exact .inl
    · rintro (listed | ⟨rfl, rfl⟩)
      · exact listed
      · by_contra fresh
        exact old ⟨rfl, fresh⟩

theorem nodup_instantiate (distinct : ∀ name, (f.instancesOf name).Nodup) (other : String) :
    ((f.instantiate name args).instancesOf other).Nodup := by
  rw [instancesOf_instantiate]
  split
  · rename_i new
    exact List.concat_eq_append ▸ (distinct name).concat new.2
  · exact distinct other

theorem mem_instancesOf_instantiated {type : Ty} : args ∈ (f.instantiated type).instancesOf name ↔
    args ∈ f.instancesOf name ∨
      Ty.allConcrete args = true ∧ ∃ m, type = .genericClass m name args := by
  cases type with
  | genericClass m name' args' =>
    rw [instantiated]
    split
    · rename_i concrete
      rw [mem_instancesOf_instantiate]
      refine or_congr_right ⟨?_, ?_⟩
      · rintro ⟨rfl, rfl⟩
        exact ⟨concrete, m, rfl⟩
      · rintro ⟨_, _, same⟩
        cases same
        exact ⟨rfl, rfl⟩
    · rename_i open_
      refine (or_iff_left ?_).symm
      rintro ⟨concrete, _, same⟩
      cases same
      exact open_ concrete
  | _ => simp [instantiated]

theorem nodup_instantiated (distinct : ∀ name, (f.instancesOf name).Nodup) (type : Ty)
    (name : String) : ((f.instantiated type).instancesOf name).Nodup := by
  cases type with
  | genericClass _ _ _ =>
    rw [instantiated]
    split
    · exact nodup_instantiate distinct name
    · exact distinct name
  | _ => exact distinct name

theorem instances_setValid (f : Findings) (id : Nat) (valid : Bool) :
    (f.setValid id valid).instances = f.instances := by
  unfold setValid
  split <;> rfl

theorem instances_record (f : Findings) (id : Nat) (r : Resolved) :
    (f.record id r).instances = f.instances := by
  cases r with
  | ok type => exact f.instances_setValid id true
  | error _ => exact f.instances_setValid id false

theorem instances_referAny (f : Findings) (id : Nat) (decl : Option Decl) :
    (f.referAny id decl).instances = f.instances := by
  cases decl <;> rfl

/-- Counting a use lists nothing. -/
theorem taken_instances (f : Findings) (id : Nat) (isAlias : Option Bool) (type : Ty) :
    ∃ before : Findings, before.instances = f.instances ∧
      (f.aliasAny id isAlias).taken p (.ok type) = before.instantiated type := by
  refine ⟨_, ?_, rfl⟩
  cases p.classOf? type <;> cases isAlias <;> rfl

end Findings

/-! ## Steps -/

/-- Some written type is known as this type. -/
def Findings.Writes (p : Program) (f : Findings) (type : Ty) : Prop :=
  ∃ t ∈ p.typeRefs, f.typeOf t.id = some type

/-- The lists of instances hold each instance that is written, once. -/
structure Findings.Enrolled (p : Program) (f : Findings) : Prop where
  distinct : ∀ name, (f.instancesOf name).Nodup
  exact : ∀ name args, args ∈ f.instancesOf name ↔
    Ty.allConcrete args = true ∧ ∃ m, f.Writes p (.genericClass m name args)

namespace Findings

theorem instancesOf_congr (same : g.instances = f.instances) (name : String) :
    g.instancesOf name = f.instancesOf name := by
  rw [instancesOf, same, instancesOf]

theorem Writes.congr (typeOf : ∀ t ∈ p.typeRefs, g.typeOf t.id = f.typeOf t.id) {type : Ty} :
    g.Writes p type ↔ f.Writes p type := by
  unfold Writes
  constructor
  · rintro ⟨t, written, known⟩
    exact ⟨t, written, (typeOf t written).symm.trans known⟩
  · rintro ⟨t, written, known⟩
    exact ⟨t, written, (typeOf t written).trans known⟩

/-- A written type that is resolved is written as its result from then on. -/
theorem Writes.resolved {t : TypeRef} {r : Resolved} (written : t ∈ p.typeRefs)
    (before : f.typeOf t.id = none) (here : g.typeOf t.id = r.toOption)
    (others : ∀ id, id ≠ t.id → g.typeOf id = f.typeOf id) {type : Ty} :
    g.Writes p type ↔ f.Writes p type ∨ r = .ok type := by
  constructor
  · rintro ⟨t', listed, known⟩
    by_cases same : t'.id = t.id
    · right
      rw [same, here] at known
      cases r <;> cases known
      rfl
    · exact .inl ⟨t', listed, (others _ same).symm.trans known⟩
  · rintro (⟨t', listed, known⟩ | rfl)
    · have apart : t'.id ≠ t.id := by
        intro same
        rw [same, before] at known
        cases known
      exact ⟨t', listed, (others _ apart).trans known⟩
    · exact ⟨t, written, here⟩

end Findings

namespace Findings.Enrolled

theorem empty : Findings.empty.Enrolled p where
  distinct _ := List.nodup_nil
  exact name args := by
    constructor
    · exact nofun
    · rintro ⟨_, _, _, _, known⟩
      cases known

/-- Nothing is listed where no written type is resolved. -/
theorem keep (before : f.Enrolled p) (listed : g.instances = f.instances)
    (typeOf : ∀ t ∈ p.typeRefs, g.typeOf t.id = f.typeOf t.id) : g.Enrolled p where
  distinct name := by
    rw [instancesOf_congr listed]
    exact before.distinct name
  exact name args := by
    simp only [instancesOf_congr listed, before.exact, Writes.congr typeOf]

/-- A resolved type is listed as it is written. -/
theorem resolved (before : f.Enrolled p) {t : TypeRef} {r : Resolved} {isAlias : Option Bool}
    (written : t ∈ p.typeRefs) (tidy : f.Tidy) (fresh : f.validity t.id = none) :
    (((f.aliasAny t.id isAlias).taken p r).record t.id r).Enrolled p := by
  have untyped : f.typeOf t.id = none := tidy.untyped fresh
  have typed : (((f.aliasAny t.id isAlias).taken p r).record t.id r).typeOf t.id = r.toOption := by
    obtain ⟨_, _, _, same⟩ := f.taken_eq (p := p) t.id isAlias r
    rw [same, typeOf_record, if_pos rfl]
    exact (congrArg r.toOption.or untyped).trans Option.or_none
  have writes (type : Ty) : (((f.aliasAny t.id isAlias).taken p r).record t.id r).Writes p type ↔
      f.Writes p type ∨ r = .ok type :=
    Writes.resolved written untyped typed (Findings.resolved_fills (p := p) isAlias r fresh).typeOf
  have listed := instancesOf_congr (instances_record ((f.aliasAny t.id isAlias).taken p r) t.id r)
  cases r with
  | error _ =>
    have unlisted (name : String) : (f.aliasAny t.id isAlias).instancesOf name = f.instancesOf name := by
      cases isAlias <;> rfl
    refine ⟨fun name => ?_, fun name args => ?_⟩
    · rw [listed, taken, unlisted]
      exact before.distinct name
    · simp only [writes]
      rw [listed, taken, unlisted, before.exact]
      simp
  | ok type =>
    obtain ⟨middle, same, entered⟩ := f.taken_instances (p := p) t.id isAlias type
    have unlisted := instancesOf_congr same
    refine ⟨fun name => ?_, fun name args => ?_⟩
    · rw [listed, entered]
      exact nodup_instantiated (fun name => unlisted name ▸ before.distinct name) type name
    · simp only [writes]
      rw [listed, entered, mem_instancesOf_instantiated, unlisted, before.exact, ← and_or_left]
      simp [exists_or]

theorem visit (before : f.Enrolled p) (v : Visit p p.Stands f g) (tidy : f.Tidy)
    (distinct : Distinct p.nodes) : g.Enrolled p := by
  have ids := Program.subtrees_distinct distinct
  -- Where something else than a written type is visited, what is known of these stays.
  have elsewhere {x : Subtree} {place : Place} (mine : p.Stands x place) (other : x.type? = none)
      (filled : f.Fills g x.id) : ∀ t ∈ p.typeRefs, g.typeOf t.id = f.typeOf t.id := by
    intro t written
    refine filled.typeOf t.id fun same => ?_
    have eq := List.inj_on_of_nodup_map ids (Program.mem_typeRefs.1 written) mine.mem same
    rw [← eq] at other
    cases other
  cases v with
  | @judge x _ valid _ =>
    exact before.keep (f.instances_setValid x.id valid) fun t _ => f.setValid_typeOf x.id t.id valid
  | @resolve t place r mine fresh _ =>
    exact before.resolved (Program.mem_typeRefs.2 mine.mem) tidy fresh
  | @infer scope e decl r _ mine fresh _ _ =>
    refine before.keep ?_ (elsewhere mine rfl (Findings.inferred_fills decl r fresh))
    rw [instances_record, instances_referAny]
  | @name scope e owner _ mine fresh _ =>
    refine before.keep ?_ (elsewhere mine rfl (Findings.named_fills _ _ fresh))
    rw [instances_referAny, instances_record]
  | @pair x place r mine fresh _ =>
    exact before.keep (f.instances_record _ r) (elsewhere mine rfl (Findings.record_fills r fresh))

theorem turn (before : f.Enrolled p) (t : Turn p p.Stands f g) (tidy : f.Tidy)
    (distinct : Distinct p.nodes) : g.Enrolled p := by
  cases t with
  | visit v => exact before.visit v tidy distinct
  | mark _ _ | link _ _ _ | number _ _ => exact before.keep rfl fun _ _ => rfl

theorem course (before : f.Enrolled p) (c : Course p p.Stands f g) (tidy : f.Tidy)
    (distinct : Distinct p.nodes) : g.Enrolled p := by
  induction c with
  | refl => exact before
  | tail c t ih => exact ih.turn t (Course.tidy c tidy) distinct

end Findings.Enrolled

/-! ## Programs -/

theorem Program.analyze_enrolled (settings : Settings) (distinct : Distinct p.nodes) :
    (p.analyze settings).state.findings.Enrolled p := by
  obtain ⟨f, course, _, trail⟩ := p.analyze_course settings distinct
  exact Findings.Enrolled.empty.course (course.trans trail.course) ⟨nofun, nofun⟩ distinct

/-- A written type with arguments denotes a class with as many type parameters. -/
theorem Findings.Complete.class_of_written (complete : f.Complete p) {t : TypeRef} {m : Modifiers}
    (written : t ∈ p.typeRefs) (known : f.typeOf t.id = some (.genericClass m name args)) :
    ∃ i, p.findClass name = .found i ∧ (p.classAt i).generics.length = args.length := by
  rcases Program.stands_of_mem (Program.mem_typeRefs.1 written) with ⟨_, _, same⟩ | ⟨place, stands⟩
  · cases same
  have denoted := complete.types t place _ stands (complete.tidy.cached.1 known)
  cases denoted with
  | @genericClass n m name args owner types _ found _ _ length =>
    refine ⟨owner, ?_, ?_⟩
    · unfold Program.theClass? at found
      split at found
      · cases found
        assumption
      · cases found
    · rw [← length, Class.params, List.length_map]

/-- In the end the instances that are listed under a name differ from each other, have as many types as
the class of that name has type parameters, with none of these in them, and are those of the written
types that denote instances of the class. -/
theorem Source.instances_exact {source : Source} (settings : Settings) {p : Program}
    (parsed : source.parse Parser.program = .ok p) (name : String) :
    let f := (p.analyze settings).state.findings
    (f.instancesOf name).Nodup ∧
    (∀ args ∈ f.instancesOf name, Ty.occurrencesAll args = [] ∧
      ∃ i, p.findClass name = .found i ∧ (p.classAt i).generics.length = args.length) ∧
    ∀ args, args ∈ f.instancesOf name ↔ Ty.occurrencesAll args = [] ∧
      ∃ t ∈ p.typeRefs, ∃ m, f.typeOf t.id = some (.genericClass m name args) := by
  intro f
  have distinct : Distinct p.nodes := source.parse_program_nodup parsed
  have enrolled := p.analyze_enrolled settings distinct
  have complete := p.analyze_complete settings distinct
  have written (args : List Ty) : args ∈ f.instancesOf name ↔ Ty.occurrencesAll args = [] ∧
      ∃ t ∈ p.typeRefs, ∃ m, f.typeOf t.id = some (.genericClass m name args) := by
    rw [enrolled.exact, Ty.allConcrete_iff]
    refine and_congr_right fun _ => ⟨?_, ?_⟩
    · rintro ⟨m, t, listed, known⟩
      exact ⟨t, listed, m, known⟩
    · rintro ⟨t, listed, m, known⟩
      exact ⟨m, t, listed, known⟩
  refine ⟨enrolled.distinct name, fun args listed => ?_, written⟩
  obtain ⟨concrete, t, inside, m, known⟩ := (written args).1 listed
  exact ⟨concrete, complete.class_of_written inside known⟩

/-- Instances inside a class, in a clause, with `new`, and in an array type with too many arguments. -/
def nestedBoxes : Source :=
  ⟨"class Box[T] \x7b private Box[T] next; \x7d class Deep extends Box[Box[integer]] \x7b \x7d " ++
    "Box[string] text := new Box[string]; array[Box[char], integer] faulty;", none⟩

theorem nestedBoxes_instances : ∃ p, nestedBoxes.parse Parser.program = .ok p ∧
    ((p.analyze ⟨true, true⟩).state.findings.instancesOf "Box").map Ty.listText =
      ["integer", "Box[integer]", "string", "char"] ∧
    ((p.analyze ⟨true, true⟩).state.findings.instancesOf "Box").Nodup ∧
    (∀ args ∈ (p.analyze ⟨true, true⟩).state.findings.instancesOf "Box",
      Ty.occurrencesAll args = [] ∧ ∃ i, p.findClass "Box" = .found i ∧
        (p.classAt i).generics.length = args.length) ∧
    ∃ t ∈ p.typeRefs, ∃ m, (p.analyze ⟨true, true⟩).state.findings.typeOf t.id =
      some (.genericClass m "Box" [.primitive .none .char]) := by
  have run : (nestedBoxes.parse Parser.program).toOption.map (fun p =>
      let found := (p.analyze ⟨true, true⟩).state.findings.instancesOf "Box"
      (found.map Ty.listText, found.contains [.primitive .none .char])) =
        some (["integer", "Box[integer]", "string", "char"], true) := by
    decide +kernel
  obtain ⟨p, parsed, views⟩ := Option.map_eq_some_iff.1 run
  simp only [Prod.mk.injEq, List.contains_iff_mem] at views
  have parsed := ok_of_toOption parsed
  obtain ⟨distinct, formed, exact⟩ := Source.instances_exact ⟨true, true⟩ parsed "Box"
  exact ⟨p, parsed, views.1, distinct, formed, ((exact _).1 views.2).2⟩

end ClassLang
