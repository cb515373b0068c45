import ClassLang.Parsing.Exprs
import ClassLang.Proofs.Parsing.Reads
import ClassLang.Proofs.Syntax.Forms

/-!
A printed type is read back. The induction is on the type; what is behind a type must not open a
bracket, or it would be taken for the arguments of a plain name.

* `typeRef_reads`: a printed type is read as the same type.
-/

namespace ClassLang

/-- Whether a type may start with the token. -/
def TokenKind.opensType : TokenKind → Bool
  | .ident _ => true
  | .keyword k => k.startsType
  | _ => false

namespace TypeRef

theorem inkAll_eq (types : List TypeRef) : inkAll types = types.map ink := by
  induction types with
  | nil => rfl
  | cons t rest ih => rw [inkAll, ih, List.map_cons]

theorem sameAll_of_forall₂ {types copies : List TypeRef}
    (h : List.Forall₂ (fun t t' => t.same t' = true) types copies) :
    sameAll types copies = true := by
  induction h with
  | nil => rfl
  | cons first _ ih => exact Bool.and_eq_true_iff.2 ⟨first, ih⟩

theorem tokens_start (t : TypeRef) (rest : List TokenKind) :
    ∃ k ks, Ink.tokensOf t.ink ++ rest = k :: ks ∧ k.opensType = true := by
  have modified (m : Modifiers) {base : List Ink}
      (h : ∃ k ks, Ink.tokensOf base ++ rest = k :: ks ∧ k.opensType = true) :
      ∃ k ks, Ink.tokensOf (modifierInk m ++ base) ++ rest = k :: ks ∧ k.opensType = true := by
    obtain ⟨const, reference, nullable⟩ := m
    cases const <;> cases reference <;> cases nullable
    · exact h
    all_goals exact ⟨_, _, rfl, rfl⟩
  cases t <;> exact modified _ ⟨_, _, rfl, rfl⟩

end TypeRef

namespace Parser

variable {c : Context} {k : TokenKind} {ks rest : List TokenKind}

/-! ## Modifiers -/

/-- Whether a token does not go on with modifiers. -/
def endsModifiers (k : TokenKind) : Bool :=
  k != .keyword .kwConst && k != .keyword .kwReference && k != .keyword .kwNullable

/-- What the parser of modifiers does at one token. -/
structure ReadsModifier (step : Modifiers → Parser (Modifiers ⊕ Modifiers)) : Prop where
  const : ∀ {c m ks}, m.const = false → ks ≠ [] →
    Reads c (step m) (.keyword .kwConst :: ks) ks (· = .inl { m with const := true })
  reference : ∀ {c m ks}, m.reference = false → ks ≠ [] →
    Reads c (step m) (.keyword .kwReference :: ks) ks (· = .inl { m with reference := true })
  nullable : ∀ {c m ks}, m.nullable = false → ks ≠ [] →
    Reads c (step m) (.keyword .kwNullable :: ks) ks (· = .inl { m with nullable := true })
  ends : ∀ {c m k ks}, endsModifiers k = true → Reads c (step m) (k :: ks) (k :: ks) (· = .inr m)

theorem modifiers_step : ∃ step, modifiers = repeatFrom Modifiers.none step ∧
    ReadsModifier step := by
  refine ⟨_, rfl, ⟨?_, ?_, ?_, ?_⟩⟩
  · intro c m ks absent more
    refine .bind kind_reads fun kind eq => ?_
    subst eq
    dsimp only
    rw [if_neg (by simp [absent])]
    exact .bind (bump_reads (by simp) more) fun _ _ => .pure rfl
  · intro c m ks absent more
    refine .bind kind_reads fun kind eq => ?_
    subst eq
    dsimp only
    rw [if_neg (by simp [absent])]
    exact .bind (bump_reads (by simp) more) fun _ _ => .pure rfl
  · intro c m ks absent more
    refine .bind kind_reads fun kind eq => ?_
    subst eq
    dsimp only
    rw [if_neg (by simp [absent])]
    exact .bind (bump_reads (by simp) more) fun _ _ => .pure rfl
  · intro c m k ks ends
    refine .bind kind_reads fun kind eq => ?_
    subst eq
    split
    · cases ends
    · cases ends
    · cases ends
    · exact .pure rfl

/-- One modifier, which is written or not. -/
theorem modifier_reads {step : Modifiers → Parser (Modifiers ⊕ Modifiers)} (present : Bool)
    (word : Keyword) (x : Modifiers) {y : Modifiers} {after : List TokenKind}
    {good : Modifiers → Prop}
    (written : present = true → Reads c (step x) (.keyword word :: rest) rest (· = .inl y))
    (absent : present = false → y = x)
    (others : ∀ n, rest.length ≤ n → Reads c (loop step n y) rest after good) (n : Nat)
    (fuel : (Ink.tokensOf (if present then [.word word, .space] else []) ++ rest).length ≤ n) :
    Reads c (loop step n x) (Ink.tokensOf (if present then [.word word, .space] else []) ++ rest)
      after good := by
  cases present with
  | false =>
    rw [← absent rfl]
    exact others n fuel
  | true =>
    have length : rest.length + 1 ≤ n := fuel
    obtain ⟨n, rfl⟩ : ∃ m, n = m + 1 := ⟨n - 1, by omega⟩
    refine .loop_goes rest (· = y) (Reads.mono (written rfl) fun _ eq => ⟨y, eq, rfl⟩) ?_
    rintro _ rfl
    exact others n (by omega)

theorem modifiers_reads (m : Modifiers) (ends : endsModifiers k = true) :
    Reads c modifiers (Ink.tokensOf (TypeRef.modifierInk m) ++ k :: ks) (k :: ks) (· = m) := by
  obtain ⟨step, eq, reads⟩ := modifiers_step
  obtain ⟨const, reference, nullable⟩ := m
  rw [eq, TypeRef.modifierInk, Ink.tokensOf_append, Ink.tokensOf_append, List.append_assoc,
    List.append_assoc]
  have last (n : Nat) (fuel : (k :: ks).length ≤ n) :
      Reads c (loop step n ⟨const, reference, nullable⟩) (k :: ks) (k :: ks)
        (· = ⟨const, reference, nullable⟩) := by
    obtain ⟨n, rfl⟩ : ∃ m, n = m + 1 := ⟨n - 1, by simp at fuel; omega⟩
    exact .loop_ends (Reads.mono (reads.ends ends) fun _ eq => ⟨_, eq, rfl⟩)
  have third := modifier_reads nullable .kwNullable ⟨const, reference, false⟩
    (fun written => by subst written; exact reads.nullable rfl (by simp))
    (fun absent => by rw [absent]) last
  have second := modifier_reads reference .kwReference ⟨const, false, false⟩
    (fun written => by subst written; exact reads.reference rfl (by simp))
    (fun absent => by rw [absent]) third
  exact .repeatFrom <| modifier_reads const .kwConst Modifiers.none
    (fun written => by subst written; exact reads.const rfl (by simp))
    (fun absent => by rw [absent]; rfl) second

/-! ## Types -/

/-- A parser reads some printed types, as long as no more tokens are left than a bound. -/
def ReadsTypes (type : Parser TypeRef) (bound : Nat) (types : List TypeRef) : Prop :=
  ∀ t ∈ types, ∀ c k ks, k ≠ .punct .openBracket → (Ink.tokensOf t.ink ++ k :: ks).length ≤ bound →
    Reads c type (Ink.tokensOf t.ink ++ k :: ks) (k :: ks) (t.same · = true)

section

variable {type : Parser TypeRef} {bound : Nat}

theorem typeArgs?_absent (other : k ≠ .punct .openBracket) :
    Reads c (typeArgs? type) (k :: ks) (k :: ks) (· = none) := by
  refine .bind (accept_absent other) fun bracket none_ => ?_
  rw [none_, if_neg (by simp)]
  exact .pure rfl

theorem typeArgs?_reads {types : List TypeRef} (reads : ReadsTypes type bound types)
    (more : rest ≠ [])
    (length : (Ink.tokensOf (Ink.enclosed .openBracket .closeBracket (TypeRef.inkAll types)) ++
      rest).length ≤ bound) :
    Reads c (typeArgs? type)
      (Ink.tokensOf (Ink.enclosed .openBracket .closeBracket (TypeRef.inkAll types)) ++ rest) rest
      (fun args => TypeRef.sameAll types (args.getD []) = true ∧ args.isSome = true) := by
  rw [tokensOf_enclosed, TypeRef.inkAll_eq] at length ⊢
  have items : Reads c (commaList .closeBracket .expectedCommaOrCloseBracket type)
      (Ink.tokensOf (Ink.commas (types.map TypeRef.ink)) ++ .punct .closeBracket :: rest) rest
      (List.Forall₂ (fun t t' => t.same t' = true) types) := by
    refine commaList_reads (by decide) more (fun t mem k ks ends shorter => ?_) (fun t _ => ?_)
      (Nat.le_of_succ_le length)
    · refine reads t mem c k ks ?_ shorter
      obtain rfl | rfl := ends <;> simp
    · obtain ⟨k, ks, front, opens⟩ := t.tokens_start []
      rw [List.append_nil] at front
      exact ⟨k, ks, front, fun eq => by rw [eq] at opens; cases opens⟩
  refine .bind (accept_present (by simp)) fun bracket found => ?_
  rw [found, if_pos rfl]
  exact .bind items fun args all => .pure ⟨TypeRef.sameAll_of_forall₂ all, rfl⟩

theorem modified_reads {α : Type} {f : Span → Modifiers → TokenKind → Parser α} {m : Modifiers}
    {word : TokenKind} {after : List TokenKind} {good : α → Prop} (ends : endsModifiers word = true)
    (h : ∀ start, Reads c (f start m word) (word :: rest) after good) :
    Reads c (do
      let start ← here
      let mods ← modifiers
      f start mods (← kind)) (Ink.tokensOf (TypeRef.modifierInk m) ++ word :: rest) after good := by
  refine .bind here_reads fun start _ => .bind (modifiers_reads m ends) fun mods eq => ?_
  subst eq
  refine .bind kind_reads fun kind eq => ?_
  subst eq
  exact h start

theorem tokensOf_modified (m : Modifiers) (word : TokenKind) (args : List Ink) :
    Ink.tokensOf (TypeRef.modifierInk m ++ .token word :: args) ++ rest =
      Ink.tokensOf (TypeRef.modifierInk m) ++ word :: (Ink.tokensOf args ++ rest) := by
  rw [Ink.tokensOf_append, List.append_assoc]
  rfl

/-- A printed type is read if its arguments are. -/
theorem typeWith_reads {t : TypeRef} (sound : t.isSound = true) (allowVoid : Bool)
    (reads : ReadsTypes type bound t.args) (other : k ≠ .punct .openBracket)
    (length : (Ink.tokensOf t.ink ++ k :: ks).length ≤ bound + 1) :
    Reads c (typeWith type allowVoid) (Ink.tokensOf t.ink ++ k :: ks) (k :: ks)
      (t.same · = true) := by
  have behind {m : Modifiers} {word : TokenKind} {args : List Ink}
      (length : (Ink.tokensOf (TypeRef.modifierInk m) ++
        word :: (Ink.tokensOf args ++ k :: ks)).length ≤ bound + 1) :
      (Ink.tokensOf args ++ k :: ks).length ≤ bound := by
    rw [List.length_append, List.length_cons] at length
    omega
  cases t with
  | primitive _ m kind =>
    rw [TypeRef.ink, Ink.word, tokensOf_modified] at length ⊢
    refine modified_reads rfl fun start => .bind (bump_reads (by simp) (by simp)) fun _ _ => ?_
    refine .bind (nodeFrom_reads start) fun _ _ => .pure ?_
    simp [TypeRef.same]
  | named _ m name =>
    rw [TypeRef.ink, Ink.name, tokensOf_modified] at length ⊢
    refine modified_reads rfl fun start => .bind (expectIdent_reads (by simp)) fun name' eq => ?_
    refine .bind (typeArgs?_absent other) fun args none_ => ?_
    subst none_
    refine .bind (nodeFrom_reads start) fun _ _ => .pure ?_
    simp [TypeRef.same, Ident.same, eq]
  | array _ m args | keymap _ m args =>
    rw [TypeRef.ink, Ink.word, tokensOf_modified] at length ⊢
    refine modified_reads rfl fun start => .bind (bump_reads (by simp) (by simp)) fun _ _ => ?_
    refine .bind (typeArgs?_reads reads (by simp) (behind length)) fun args' all => ?_
    refine .bind (nodeFrom_reads start) fun _ _ => .pure ?_
    simp [TypeRef.same, all.1]
  | generic _ m name args =>
    rw [TypeRef.ink, Ink.name, tokensOf_modified] at length ⊢
    refine modified_reads rfl fun start => .bind (expectIdent_reads (by simp)) fun name' eq => ?_
    refine .bind (typeArgs?_reads reads (by simp) (behind length)) fun args' all => ?_
    obtain ⟨copies, rfl⟩ := Option.isSome_iff_exists.1 all.2
    refine .bind (nodeFrom_reads start) fun _ _ => .pure ?_
    simp only [TypeRef.same, Ident.same, eq, beq_self_eq_true, Bool.true_and]
    exact all.1
  | void _ _ => simp [TypeRef.isSound] at sound

end

/-- Enough fuel for types is as much as there are tokens. -/
def ReadsType (t : TypeRef) : Prop :=
  ∀ n, ReadsTypes (iterate (fun self => typeWith self false) n) n [t]

theorem readsType_of_args {t : TypeRef} (sound : t.isSound = true)
    (args : ∀ arg ∈ t.args, ReadsType arg) : ReadsType t := by
  intro n t' listed c k ks other length
  obtain rfl := List.mem_singleton.1 listed
  refine .iterate (by simp) length fun m length => typeWith_reads sound false ?_ other length
  exact fun arg mem => args arg mem m arg (List.mem_singleton_self _)

mutual

theorem reads_type : ∀ t : TypeRef, t.isSound = true → ReadsType t
  | .primitive .., sound | .named .., sound => readsType_of_args sound (by simp [TypeRef.args])
  | .array _ _ args, sound | .keymap _ _ args, sound =>
    readsType_of_args sound (reads_types args sound)
  | .generic _ _ _ args, sound =>
    readsType_of_args sound (reads_types args (Bool.and_eq_true_iff.1 sound).2)
  | .void .., sound => by simp [TypeRef.isSound] at sound

theorem reads_types : ∀ types : List TypeRef, TypeRef.soundAll types = true →
    ∀ t ∈ types, ReadsType t
  | [], _ => by simp
  | t :: rest, sound => by
    rw [TypeRef.soundAll, Bool.and_eq_true] at sound
    exact List.forall_mem_cons.2 ⟨reads_type t sound.1, reads_types rest sound.2⟩

end

theorem typeRef_reads {t : TypeRef} (sound : t.isSound = true) (other : k ≠ .punct .openBracket) :
    Reads c typeRef (Ink.tokensOf t.ink ++ k :: ks) (k :: ks) (t.same · = true) :=
  .recursive (reads_type t sound _ t (List.mem_singleton_self t) c k ks other (Nat.le_refl _))

end Parser

end ClassLang
