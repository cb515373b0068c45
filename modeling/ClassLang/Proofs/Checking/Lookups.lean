import ClassLang.Proofs.Checking.TypeTrails

/-!
What is found when a member is looked up: where in the chain it is declared, and how its types are
seen from there.
-/

namespace ClassLang

variable {p : Program} {f : Findings} {owner : Nat} {name : String} {receiver : Substitution}

/-! ## Lists of results -/

theorem forall₂_of_mapM {α β : Type} {view : α → Option β} {items : List α} {results : List β}
    (h : items.mapM view = some results) :
    List.Forall₂ (fun item result => view item = some result) items results := by
  induction items generalizing results with
  | nil =>
    cases h
    exact .nil
  | cons item rest ih =>
    simp only [List.mapM_cons, Option.bind_eq_bind, Option.bind_eq_some_iff, Option.pure_def,
      Option.some.injEq] at h
    obtain ⟨result, first, others, h, rfl⟩ := h
    exact .cons first (ih h)

/-! ## Signatures -/

/-- A sound signature as seen through a substitution. -/
theorem Findings.signatureThrough?_ok {params : List Param} {returnType : TypeRef}
    {s : Substitution} {types : List Ty} {result : Ty}
    (h : f.signatureThrough? params returnType s = some (.ok (types, result))) :
    ∃ declared declaredResult,
      List.Forall₂ (fun (param : Param) t => f.cached param.type.id = some (.ok t)) params declared ∧
        f.cached returnType.id = some (.ok declaredResult) ∧
          types = declared.map s.apply ∧ result = s.apply declaredResult := by
  simp only [signatureThrough?, Option.bind_eq_bind, Option.bind_eq_some_iff, Option.pure_def,
    Option.some.injEq] at h
  obtain ⟨resolved, known, r, knownResult, same⟩ := h
  cases all : allResolved resolved with
  | error _ =>
    rw [all] at same
    cases same
  | ok declared =>
    rw [all] at same
    cases r with
    | error _ => cases same
    | ok declaredResult =>
      cases same
      exact ⟨declared, declaredResult, forall₂_of_mapM_id (forall₂_of_mapM known) all, knownResult,
        rfl, rfl⟩

theorem mapM_id_map_ok {α : Type} (values : List α) :
    (values.map .ok : List (Except Reported α)).mapM id = .ok values := by
  induction values with
  | nil => rfl
  | cons value rest ih =>
    rw [List.map_cons, List.mapM_cons, ih]
    rfl

theorem allResolved_map_ok (types : List Ty) : allResolved (types.map .ok) = .ok types :=
  mapM_id_map_ok types

/-- A signature with sound types as seen through a substitution. -/
theorem Findings.signatureThrough?_of_typed {params : List Param} {returnType : TypeRef}
    {types : List Ty} {result : Ty} (tidy : f.Tidy) (typed : f.paramTypes? params = some types)
    (returns : f.typeOf returnType.id = some result) (s : Substitution) :
    f.signatureThrough? params returnType s = some (.ok (types.map s.apply, s.apply result)) := by
  have known : (params.mapM fun param => f.cached param.type.id) = some (types.map .ok) := by
    induction params generalizing types with
    | nil =>
      cases typed
      rfl
    | cons param rest ih =>
      simp only [paramTypes?, List.mapM_cons, Option.bind_eq_bind, Option.bind_eq_some_iff,
        Option.pure_def, Option.some.injEq] at typed
      obtain ⟨t, first, others, typed, rfl⟩ := typed
      rw [List.mapM_cons, tidy.cached.1 first, ih typed]
      rfl
  rw [signatureThrough?, known, tidy.cached.1 returns]
  simp only [Option.bind_eq_bind, Option.bind_some, Option.pure_def, allResolved_map_ok]
  rfl

/-- The signature of a sound method as seen through a substitution. -/
theorem Findings.signatureThrough?_of_sound {m : Method} {types : List Ty} {result : Ty}
    (tidy : f.Tidy) (sound : f.signature? m = some (types, result)) (s : Substitution) :
    f.signatureThrough? m.params m.returnType s =
      some (.ok (types.map s.apply, s.apply result)) := by
  simp only [signature?, Option.bind_eq_bind, Option.bind_eq_some_iff, Option.pure_def,
    Option.some.injEq, Prod.mk.injEq] at sound
  obtain ⟨types', typed, result', returns, rfl, rfl⟩ := sound
  exact signatureThrough?_of_typed tidy typed returns s

/-! ## Fields -/

/-- A field that is found is declared by the nearest class of the chain that declares the name. -/
theorem Program.findField?_some {found : FoundField}
    (h : p.findField? f owner name receiver = some found) :
    ∃ a ∈ f.chain owner, a.index = found.owner ∧
      (p.classAt a.index).fieldIndex? name = some found.index ∧
        (p.classAt a.index).fields[found.index]? = some found.field ∧
          ∃ r, f.cached found.field.type.id = some r ∧
            found.type = r.map (a.args.andThen receiver).apply := by
  obtain ⟨a, listed, declared⟩ := List.exists_of_findSome?_eq_some h
  simp only [Option.bind_eq_bind, Option.bind_eq_some_iff, Option.pure_def, Option.some.injEq]
    at declared
  obtain ⟨index, named, field, here, r, known, rfl⟩ := declared
  exact ⟨a, listed, rfl, named, here, r, known, rfl⟩

theorem Scope.memberOf_found {scope : Scope} {from_ : Receiver} {member : Ident} {found : FoundField}
    (h : scope.memberOf f from_ member = .ok found) :
    scope.program.findField? f from_.owner member.name from_.args = some found := by
  unfold memberOf at h
  dsimp only at h
  split at h
  · cases h
  · rename_i other located
    cases access : scope.checkAccess f member.span other.owner other.field.access member.name with
    | error _ =>
      rw [access] at h
      cases h
    | ok _ =>
      rw [access] at h
      cases inst : checkInstance member.span member.name other.field.isStatic from_.hasInstance with
      | error _ =>
        rw [inst] at h
        cases h
      | ok _ =>
        rw [inst] at h
        cases h
        exact located

/-! ## Methods -/

theorem Program.mem_findMethods {m : FoundMethod} : m ∈ p.findMethods f owner name receiver ↔
    ∃ a ∈ f.chain owner, a.index = m.owner ∧
      (p.classAt a.index).methods[m.index]? = some m.method ∧ m.method.name.name = name ∧
        m.args = a.args.andThen receiver := by
  simp only [findMethods, List.mem_flatMap, List.mem_map, List.mem_filter,
    List.mem_zipIdx_iff_getElem?, beq_iff_eq]
  constructor
  · rintro ⟨a, listed, ⟨method, index⟩, ⟨here, named⟩, rfl⟩
    exact ⟨a, listed, rfl, here, named, rfl⟩
  · rintro ⟨a, listed, same, here, named, args⟩
    refine ⟨a, listed, (m.method, m.index), ⟨here, named⟩, ?_⟩
    cases m
    simp_all

/-! ## Calls -/

variable {scope : Scope} {c : Candidate}

theorem Scope.mem_candidates (hasInstance : Bool)
    (listed : c ∈ (scope.searchMethods f owner name receiver hasInstance).candidates f) :
    ∃ m ∈ scope.program.findMethods f owner name receiver, c.decl = .method m.owner m.index ∧
      f.signatureThrough? m.method.params m.method.returnType m.args = some c.signature := by
  obtain ⟨m, usable, candidate⟩ := List.mem_filterMap.1 listed
  have found := (List.mem_filter.1 (List.mem_filter.1 usable).1).1
  simp only [FoundMethod.candidate?, Option.bind_eq_bind, Option.bind_eq_some_iff, Option.pure_def,
    Option.some.injEq] at candidate
  obtain ⟨signature, through, rfl⟩ := candidate
  exact ⟨m, found, rfl, through⟩

theorem Program.mem_functionCandidates (listed : c ∈ p.functionCandidates f name) :
    ∃ i ∈ p.functionsNamed name, c.decl = .function i ∧
      f.signatureThrough? (p.functionAt i).params (p.functionAt i).returnType .empty =
        some c.signature := by
  obtain ⟨i, usable, candidate⟩ := List.mem_filterMap.1 listed
  obtain ⟨signature, through, rfl⟩ := Option.map_eq_some_iff.1 candidate
  exact ⟨i, (List.mem_filter.1 usable).1, rfl, through⟩

theorem Scope.calleeNamed_candidates {span : Span} {callee : Callee}
    (found : scope.calleeNamed f span name = .ok callee) :
    callee.candidates = (scope.selfClass.elim [] fun owner =>
      (scope.searchMethods f owner name .empty scope.isInstance).candidates f) ++
        scope.program.functionCandidates f name := by
  unfold calleeNamed at found
  cases here : scope.selfClass
  all_goals
    rw [here] at found
    dsimp only at found
    split at found
    · cases found
    split at found
    · cases found
    split at found
    · cases found
    cases found
    rfl

theorem Scope.calleeOf_candidates {from_ : Receiver} {member : Ident} {callee : Callee}
    (found : scope.calleeOf f from_ member = .ok callee) : callee.candidates =
      (scope.searchMethods f from_.owner member.name from_.args from_.hasInstance).candidates f := by
  unfold calleeOf at found
  dsimp only at found
  split at found
  · cases found
  split at found
  · cases found
  split at found
  · split at found
    · cases found
    · cases found
      rfl
  · cases found
    rfl

/-- What a member of a value is taken from. -/
theorem Scope.instanceReceiver_ok {target : Expr} {access : MemberAccess} {type : Ty}
    {from_ : Receiver} (h : scope.instanceReceiver target access type = .ok from_) :
    ∃ owner, scope.program.classOf? type = some owner ∧
      from_ = .instance owner (scope.program.argsOf owner type) type.mods := by
  unfold instanceReceiver at h
  split at h
  · cases h
  · split at h
    · cases h
      exact ⟨_, ‹_›, rfl⟩
    · cases h

namespace Means

variable {n : Node} {meaning : Callee}

/-- A call of a member may mean methods of what the member is taken from. -/
theorem ofMember {target : Expr} {access : MemberAccess} {member : Ident}
    (means : Means scope f (.member n target access member) meaning) (listed : c ∈ meaning.candidates) :
    ∃ from_, Receives scope f target access from_ ∧
      ∃ m ∈ scope.program.findMethods f from_.owner member.name from_.args,
        c.decl = .method m.owner m.index ∧
          f.signatureThrough? m.method.params m.method.returnType m.args = some c.signature := by
  cases means with
  | @member _ _ _ _ from_ _ receives found =>
    rw [Scope.calleeOf_candidates found] at listed
    exact ⟨from_, receives, Scope.mem_candidates from_.hasInstance listed⟩

/-- A call of a bare name may mean methods of the class around, and functions. -/
theorem ofNamed {callee : Ident} (means : Means scope f (.ident n callee) meaning)
    (listed : c ∈ meaning.candidates) :
    (∃ owner, scope.selfClass = some owner ∧
      ∃ m ∈ scope.program.findMethods f owner callee.name .empty,
        c.decl = .method m.owner m.index ∧
          f.signatureThrough? m.method.params m.method.returnType m.args = some c.signature) ∨
      ∃ i ∈ scope.program.functionsNamed callee.name, c.decl = .function i ∧
        f.signatureThrough? (scope.program.functionAt i).params
          (scope.program.functionAt i).returnType .empty = some c.signature := by
  cases means with
  | named found =>
    have candidates := Scope.calleeNamed_candidates found
    cases here : scope.selfClass with
    | none =>
      rw [here] at candidates
      rw [candidates] at listed
      exact .inr (Program.mem_functionCandidates listed)
    | some owner =>
      rw [here] at candidates
      rw [candidates] at listed
      rcases List.mem_append.1 listed with inClass | isFunction
      · exact .inl ⟨owner, rfl, Scope.mem_candidates _ inClass⟩
      · exact .inr (Program.mem_functionCandidates isFunction)

end Means

/-- A candidate that takes the arguments is sound. -/
theorem Candidate.take?_some {args : List Operand} {decl : Decl} {result : Ty}
    (h : c.take? args = some (decl, result)) :
    ∃ params, c.signature = .ok (params, result) ∧ acceptsAll params args = true ∧ c.decl = decl := by
  unfold take? at h
  split at h
  · rename_i params result' sound
    split at h
    · cases h
      exact ⟨params, sound, ‹_›, rfl⟩
    · cases h
  · cases h

/-! ## Judgements -/

/-- A declaration that can be called: a function, or a method of a class. -/
inductive Program.Callable (p : Program) : Decl → Prop
  | function {i : Nat} : i ∈ p.functionIndices → Callable p (.function i)
  | method {owner index : Nat} {m : Method} : (p.classAt owner).methods[index]? = some m →
    Callable p (.method owner index)

theorem Program.mem_functionIndices {i : Nat} (named : i ∈ p.functionsNamed name) :
    i ∈ p.functionIndices := by
  obtain ⟨_, here, _⟩ := mem_positions.1 named
  exact List.mem_range.2 (List.getElem?_eq_some_iff.1 here).1

theorem Means.callable {callee : Expr} {meaning : Callee} (means : Means scope f callee meaning)
    (listed : c ∈ meaning.candidates) : scope.program.Callable c.decl := by
  cases callee with
  | ident _ _ =>
    rcases means.ofNamed listed with ⟨_, _, m, found, decl, _⟩ | ⟨i, named, decl, _⟩
    · exact decl ▸ .method (Program.findMethods_declared found)
    · exact decl ▸ .function (Program.mem_functionIndices named)
  | member _ _ _ _ =>
    obtain ⟨_, _, m, found, decl, _⟩ := means.ofMember listed
    exact decl ▸ .method (Program.findMethods_declared found)
  | _ => cases means

/-- By the rules no expression refers to a class. -/
theorem Judged.not_class {e : Expr} {decl : Option Decl} {r : Resolved}
    (judged : Judged scope f e decl r) (i : Nat) : decl ≠ some (.class i) := by
  cases judged with
  | call means _ _ chosen =>
    obtain ⟨c, listed, taken⟩ := List.exists_of_findSome?_eq_some chosen
    obtain ⟨_, _, _, rfl⟩ := Candidate.take?_some taken
    intro same
    have callable := means.callable listed
    rw [Option.some.inj same] at callable
    cases callable
  | _ => nofun

end ClassLang
