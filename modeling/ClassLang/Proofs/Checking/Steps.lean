import ClassLang.Proofs.Checking.Runs
import Mathlib.Logic.Relation

/-!
All that a check can do to the state, said once: it reports, and it makes entries about the subjects
that are its own. What holds of the states before and after any check follows from this.
-/

namespace ClassLang

/-! ## Entries -/

/-- What an entry is about: a node, a written type, which is resolved once and whose entry then stays,
a written name that may be a type parameter, or the place of a class among the others. -/
inductive Subject where
  | node (id : Nat)
  | type (id : Nat)
  | name (id : Nat)
  | «class» (index : Nat)

inductive Entry (own : Subject → Prop) (f : Findings) : Findings → Prop
  | setValid (id : Nat) (valid : Bool) : own (.node id) → Entry own f (f.setValid id valid)
  | record (id : Nat) (result : Resolved) : own (.node id) → Entry own f (f.record id result)
  | resolve (id : Nat) (result : Resolved) : own (.type id) → f.cached id = none →
    Entry own f (f.record id result)
  | setAlias (id : Nat) (isAlias : Bool) : own (.name id) → Entry own f (f.setAlias id isAlias)
  | refer (id : Nat) (decl : Decl) : own (.node id) →
    Entry own f ((f.use decl).setResolution id decl)
  | useClass (i : Nat) : Entry own f (f.use (.class i))
  | instantiate (name : String) (args : List Ty) : Entry own f (f.instantiate name args)
  | number (decl : Decl) (index : Nat) : Entry own f (f.setOverloadIndex decl index)
  | setMark (i : Nat) (mark : InheritanceMark) : own (.class i) → Entry own f (f.setMark i mark)
  | setSuperclass (i : Nat) (link : SuperclassLink) : own (.class i) →
    Entry own f (f.setSuperclass i link)

inductive Step (own : Subject → Prop) (s : CheckState) : CheckState → Prop
  | report (errors : List CheckError) : Step own s { s with errors := s.errors ++ errors }
  | warn (warning : Warning) : Step own s { s with warnings := s.warnings ++ [warning] }
  | note (event : Event) : Step own s { s with events := s.events ++ [event] }
  | enter {f : Findings} : Entry own s.findings f → Step own s { s with findings := f }

def Steps (own : Subject → Prop) : CheckState → CheckState → Prop := Relation.ReflTransGen (Step own)

theorem Entry.mono {own wider : Subject → Prop} (le : ∀ x, own x → wider x) {f g : Findings}
    (h : Entry own f g) : Entry wider f g := by
  cases h with
  | setValid id valid h => exact .setValid id valid (le _ h)
  | record id result h => exact .record id result (le _ h)
  | resolve id result h fresh => exact .resolve id result (le _ h) fresh
  | setAlias id isAlias h => exact .setAlias id isAlias (le _ h)
  | refer id decl h => exact .refer id decl (le _ h)
  | useClass i => exact .useClass i
  | instantiate name args => exact .instantiate name args
  | number decl index => exact .number decl index
  | setMark i mark h => exact .setMark i mark (le _ h)
  | setSuperclass i link h => exact .setSuperclass i link (le _ h)

namespace Steps

variable {own wider : Subject → Prop} {s t u : CheckState}

theorem refl (s : CheckState) : Steps own s s := Relation.ReflTransGen.refl

theorem single (h : Step own s t) : Steps own s t := Relation.ReflTransGen.single h

theorem trans (h : Steps own s t) (h' : Steps own t u) : Steps own s u :=
  Relation.ReflTransGen.trans h h'

theorem mono (le : ∀ x, own x → wider x) (h : Steps own s t) : Steps wider s t := by
  refine Relation.ReflTransGen.mono (fun a b step => ?_) _ _ h
  cases step with
  | report errors => exact .report errors
  | warn warning => exact .warn warning
  | note event => exact .note event
  | enter entry => exact .enter (entry.mono le)

theorem errors_prefix (h : Steps own s t) : s.errors <+: t.errors := by
  induction h with
  | refl => exact List.prefix_rfl
  | tail _ step ih =>
    cases step with
    | report errors => exact ih.trans (List.prefix_append _ _)
    | warn _ | note _ | enter _ => exact ih

theorem findings_keep {P : Findings → Prop} (entered : ∀ f g, Entry own f g → P f → P g)
    (h : Steps own s t) (before : P s.findings) : P t.findings := by
  induction h with
  | refl => exact before
  | tail _ step ih =>
    cases step with
    | report _ | warn _ | note _ => exact ih
    | enter entry => exact entered _ _ entry ih

end Steps

/-! ## What an entry leaves as it was -/

namespace Findings

variable (f : Findings)

@[simp] theorem setValid_types (id : Nat) (valid : Bool) : (f.setValid id valid).types = f.types := by
  unfold setValid
  split <;> rfl

@[simp] theorem setValid_failures (id : Nat) (valid : Bool) :
    (f.setValid id valid).failures = f.failures := by
  unfold setValid
  split <;> rfl

@[simp] theorem setValid_marks (id : Nat) (valid : Bool) : (f.setValid id valid).marks = f.marks := by
  unfold setValid
  split <;> rfl

@[simp] theorem setValid_superclasses (id : Nat) (valid : Bool) :
    (f.setValid id valid).superclasses = f.superclasses := by
  unfold setValid
  split <;> rfl

theorem setValid_resolution (id other : Nat) (valid : Bool) :
    (f.setValid id valid).resolution other = f.resolution other := by
  unfold setValid
  split <;> rfl

theorem validity_record (id other : Nat) (result : Resolved) :
    (f.record id result).validity other = (f.setValid id result.isOk).validity other := by
  cases result <;> rfl

theorem typeOf_record (id other : Nat) (result : Resolved) :
    (f.record id result).typeOf other =
      if other = id then result.toOption.or (f.typeOf id) else f.typeOf other := by
  cases result with
  | ok type => simp [record, typeOf, Table.get?_insert, Except.toOption]
  | error _ =>
    by_cases same : other = id <;> simp [record, typeOf, Except.toOption, same]

theorem resolution_record (id other : Nat) (result : Resolved) :
    (f.record id result).resolution other = f.resolution other := by
  cases result with
  | ok _ => exact f.setValid_resolution id other true
  | error _ => exact f.setValid_resolution id other false

@[simp] theorem record_marks (id : Nat) (result : Resolved) : (f.record id result).marks = f.marks := by
  cases result <;> simp [record]

@[simp] theorem record_superclasses (id : Nat) (result : Resolved) :
    (f.record id result).superclasses = f.superclasses := by
  cases result <;> simp [record]

theorem record_failures (id : Nat) (result : Resolved) :
    f.failures ⊆ (f.record id result).failures := by
  cases result <;> simp [record]

theorem mem_record_failures {id other : Nat} (result : Resolved) (h : other ≠ id) :
    other ∈ (f.record id result).failures ↔ other ∈ f.failures := by
  cases result <;> simp [record, h]

theorem instantiate_eq (name : String) (args : List Ty) :
    ∃ instances, f.instantiate name args = { f with instances } := by
  unfold instantiate
  dsimp only
  split
  · exact ⟨f.instances, rfl⟩
  · exact ⟨_, rfl⟩

end Findings

namespace Entry

variable {own : Subject → Prop} {f g : Findings}

theorem validity_eq (h : Entry own f g) (id : Nat) : g.validity id = f.validity id ∨
    f.validity id = none ∧ (own (.node id) ∨ own (.type id)) := by
  have judged (at_ : Nat) (valid : Bool) (mine : own (.node at_) ∨ own (.type at_)) :
      (f.setValid at_ valid).validity id = f.validity id ∨
        f.validity id = none ∧ (own (.node id) ∨ own (.type id)) := by
    rw [Findings.validity_setValid]
    by_cases same : id = at_
    · subst same
      cases known : f.validity id with
      | none => exact .inr ⟨rfl, mine⟩
      | some _ => simp
    · simp [same]
  cases h with
  | setValid at_ valid mine => exact judged at_ valid (.inl mine)
  | record at_ result mine =>
    rw [Findings.validity_record]
    exact judged at_ _ (.inl mine)
  | resolve at_ result mine _ =>
    rw [Findings.validity_record]
    exact judged at_ _ (.inr mine)
  | instantiate name args =>
    obtain ⟨_, same⟩ := f.instantiate_eq name args
    exact .inl (by rw [same]; rfl)
  | setAlias _ _ _ | refer _ _ _ | useClass _ | number _ _ | setMark _ _ _ | setSuperclass _ _ _ =>
    exact .inl rfl

theorem typeOf_eq (h : Entry own f g) (id : Nat) : g.typeOf id = f.typeOf id ∨
    (g.typeOf id).isSome = true ∧ (own (.node id) ∨ own (.type id) ∧ f.cached id = none) := by
  have recorded (at_ : Nat) (result : Resolved)
      (mine : own (.node at_) ∨ own (.type at_) ∧ f.cached at_ = none) :
      (f.record at_ result).typeOf id = f.typeOf id ∨
        ((f.record at_ result).typeOf id).isSome = true ∧
          (own (.node id) ∨ own (.type id) ∧ f.cached id = none) := by
    rw [Findings.typeOf_record]
    by_cases same : id = at_
    · subst same
      cases result with
      | ok type => exact .inr ⟨by simp [Except.toOption], mine⟩
      | error _ => exact .inl (by simp [Except.toOption])
    · exact .inl (by rw [if_neg same])
  cases h with
  | record at_ result mine => exact recorded at_ result (.inl mine)
  | resolve at_ result mine unknown => exact recorded at_ result (.inr ⟨mine, unknown⟩)
  | setValid at_ valid _ => exact .inl (by simp [Findings.typeOf])
  | instantiate name args =>
    obtain ⟨_, same⟩ := f.instantiate_eq name args
    exact .inl (by rw [same]; rfl)
  | setAlias _ _ _ | refer _ _ _ | useClass _ | number _ _ | setMark _ _ _ | setSuperclass _ _ _ =>
    exact .inl rfl

theorem failures_subset (h : Entry own f g) : f.failures ⊆ g.failures := by
  cases h with
  | record at_ result _ => exact f.record_failures at_ result
  | resolve at_ result _ _ => exact f.record_failures at_ result
  | setValid at_ valid _ => simp
  | instantiate name args =>
    obtain ⟨_, same⟩ := f.instantiate_eq name args
    rw [same]
    exact List.Subset.refl _
  | setAlias _ _ _ | refer _ _ _ | useClass _ | number _ _ | setMark _ _ _ | setSuperclass _ _ _ =>
    exact List.Subset.refl _

theorem mem_failures (h : Entry own f g) {id : Nat} (node : ¬own (.node id))
    (type : ¬own (.type id)) : id ∈ g.failures ↔ id ∈ f.failures := by
  cases h with
  | record at_ result mine =>
    exact f.mem_record_failures result fun same => node (same ▸ mine)
  | resolve at_ result mine _ =>
    exact f.mem_record_failures result fun same => type (same ▸ mine)
  | setValid at_ valid _ => simp
  | instantiate name args =>
    obtain ⟨_, same⟩ := f.instantiate_eq name args
    rw [same]
  | setAlias _ _ _ | refer _ _ _ | useClass _ | number _ _ | setMark _ _ _ | setSuperclass _ _ _ =>
    exact Iff.rfl

theorem cached_eq (h : Entry own f g) {id : Nat} (node : ¬own (.node id)) (type : ¬own (.type id)) :
    g.cached id = f.cached id := by
  have sameValidity : g.validity id = f.validity id := by
    rcases h.validity_eq id with same | ⟨_, mine | mine⟩
    · exact same
    · exact absurd mine node
    · exact absurd mine type
  have sameType : g.typeOf id = f.typeOf id := by
    rcases h.typeOf_eq id with same | ⟨_, mine | ⟨mine, _⟩⟩
    · exact same
    · exact absurd mine node
    · exact absurd mine type
  unfold Findings.cached
  rw [sameValidity, sameType]
  simp [h.mem_failures node type]

theorem mark_eq (h : Entry own f g) {i : Nat} (other : ¬own (.class i)) : g.mark i = f.mark i := by
  cases h with
  | setMark j mark mine =>
    have apart : i ≠ j := fun same => other (same ▸ mine)
    simp [Findings.mark, Findings.setMark, Table.get?_insert, apart]
  | record _ _ _ | resolve _ _ _ _ | setValid _ _ _ => simp [Findings.mark]
  | instantiate name args =>
    obtain ⟨_, same⟩ := f.instantiate_eq name args
    rw [same]
    rfl
  | setAlias _ _ _ | refer _ _ _ | useClass _ | number _ _ | setSuperclass _ _ _ => rfl

theorem superclasses_eq (h : Entry own f g) (none_ : ∀ i, ¬own (.class i)) :
    g.superclasses = f.superclasses := by
  cases h with
  | setSuperclass i link mine => exact absurd mine (none_ i)
  | record _ _ _ | resolve _ _ _ _ | setValid _ _ _ => simp
  | instantiate name args =>
    obtain ⟨_, same⟩ := f.instantiate_eq name args
    rw [same]
  | setAlias _ _ _ | refer _ _ _ | useClass _ | number _ _ | setMark _ _ _ => rfl

end Entry

/-! ## What a run leaves as it was -/

/-- A node with a type: asking for it again gives a type at once. -/
def Findings.Settled (f : Findings) (id : Nat) : Prop := ∃ type, f.cached id = some (.ok type)

theorem Findings.settled_iff {f : Findings} {id : Nat} :
    f.Settled id ↔ f.validity id = some true ∧ (f.typeOf id).isSome = true := by
  unfold Settled cached
  constructor
  · rintro ⟨type, h⟩
    split at h
    · cases h
    · rename_i valid
      rw [Option.map_eq_some_iff] at h
      obtain ⟨_, known, _⟩ := h
      exact ⟨valid, by rw [known]; rfl⟩
    · split at h <;> cases h
  · rintro ⟨valid, known⟩
    obtain ⟨type, known⟩ := Option.isSome_iff_exists.1 known
    exact ⟨type, by simp [valid, known]⟩

namespace Steps

variable {own : Subject → Prop} {s t : CheckState}

theorem validity_eq (h : Steps own s t) {id : Nat} (node : ¬own (.node id))
    (type : ¬own (.type id)) : t.findings.validity id = s.findings.validity id := by
  refine h.findings_keep (P := fun f => f.validity id = s.findings.validity id)
    (fun f g entry known => ?_) rfl
  rcases entry.validity_eq id with same | ⟨_, mine | mine⟩
  · rw [same, known]
  · exact absurd mine node
  · exact absurd mine type

theorem settled (h : Steps own s t) {id : Nat} (before : s.findings.Settled id) :
    t.findings.Settled id := by
  refine h.findings_keep (P := (·.Settled id)) (fun f g entry before => ?_) before
  rw [Findings.settled_iff] at before ⊢
  obtain ⟨valid, known⟩ := before
  constructor
  · rcases entry.validity_eq id with same | ⟨unknown, _⟩
    · rw [same, valid]
    · rw [unknown] at valid
      cases valid
  · rcases entry.typeOf_eq id with same | ⟨known, _⟩
    · rw [same, known]
    · exact known

/-- An entry about a written type stays. -/
theorem cached_of_some (h : Steps own s t) {id : Nat} (node : ¬own (.node id)) {result : Resolved}
    (known : s.findings.cached id = some result) :
    t.findings.cached id = some result ∧ t.findings.typeOf id = s.findings.typeOf id := by
  refine h.findings_keep
    (P := fun f => f.cached id = some result ∧ f.typeOf id = s.findings.typeOf id)
    (fun f g entry ⟨known, type⟩ => ?_) ⟨known, rfl⟩
  have sameType : g.typeOf id = f.typeOf id := by
    rcases entry.typeOf_eq id with same | ⟨_, mine | ⟨_, unknown⟩⟩
    · exact same
    · exact absurd mine node
    · rw [unknown] at known
      cases known
  refine ⟨?_, sameType.trans type⟩
  have sameValidity : g.validity id = f.validity id := by
    rcases entry.validity_eq id with same | ⟨unknown, _⟩
    · exact same
    · simp [Findings.cached, unknown] at known
  unfold Findings.cached at known ⊢
  rw [sameValidity, sameType]
  split at known
  · exact known
  · exact known
  · split at known
    · rename_i failed
      have still : id ∈ g.failures := entry.failures_subset (by simpa using failed)
      simpa [still] using known
    · cases known

theorem cached_eq (h : Steps own s t) {id : Nat} (node : ¬own (.node id))
    (type : ¬own (.type id)) : t.findings.cached id = s.findings.cached id :=
  h.findings_keep (P := fun f => f.cached id = s.findings.cached id)
    (fun _ _ entry same => (entry.cached_eq node type).trans same) rfl

theorem mark_eq (h : Steps own s t) {i : Nat} (other : ¬own (.class i)) :
    t.findings.mark i = s.findings.mark i :=
  h.findings_keep (P := fun f => f.mark i = s.findings.mark i)
    (fun _ _ entry same => (entry.mark_eq other).trans same) rfl

theorem superclasses_eq (h : Steps own s t) (none_ : ∀ i, ¬own (.class i)) :
    t.findings.superclasses = s.findings.superclasses :=
  h.findings_keep (P := fun f => f.superclasses = s.findings.superclasses)
    (fun _ _ entry same => (entry.superclasses_eq none_).trans same) rfl

end Steps

end ClassLang
