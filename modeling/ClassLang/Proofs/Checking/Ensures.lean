import ClassLang.Proofs.Checking.Runs

/-!
What a check gives and finds out from given findings, whatever has been reported before: one rule for
each combinator.
-/

namespace ClassLang

variable {α β : Type}

def Ensures (x : Check α) (scope : Scope) (f : Findings) (post : α → Findings → Prop) : Prop :=
  ∀ s : CheckState, s.findings = f → post (x.exec scope s).1 (x.exec scope s).2.findings

namespace Ensures

variable {scope : Scope} {f : Findings} {post mid : α → Findings → Prop}
  {post' : β → Findings → Prop}

/-! ## Checks -/

theorem pure {a : α} (h : post a f) : Ensures (Pure.pure a) scope f post := by
  rintro s rfl
  exact h

theorem weaken {x : Check α} (h : Ensures x scope f mid) (le : ∀ a g, mid a g → post a g) :
    Ensures x scope f post := fun s same => le _ _ (h s same)

theorem bind {x : Check α} {k : α → Check β} (hx : Ensures x scope f mid)
    (hk : ∀ a g, mid a g → Ensures (k a) scope g post') : Ensures (x >>= k) scope f post' :=
  fun s same => hk _ _ (hx s same) _ rfl

theorem read {k : Scope → Check β} (h : Ensures (k scope) scope f post') :
    Ensures ((MonadReader.read : Check Scope) >>= k) scope f post' := h

theorem withReader {x : Check α} {g : Scope → Scope} (h : Ensures x (g scope) f post) :
    Ensures (MonadWithReader.withReader g x : Check α) scope f post := h

theorem findings {k : Findings → Check β} (h : Ensures (k f) scope f post') :
    Ensures (ClassLang.findings >>= k) scope f post' := by
  rintro s rfl
  exact h s rfl

theorem learn {g : Findings → Findings} {k : Unit → Check β} (h : Ensures (k ()) scope (g f) post') :
    Ensures (ClassLang.learn g >>= k) scope f post' := by
  rintro s rfl
  exact h _ rfl

/-- An action that adds nothing to what has been found out. -/
theorem silent {x : Check α} {k : α → Check β}
    (keeps : ∀ s, (x.exec scope s).2.findings = s.findings)
    (h : ∀ a, Ensures (k a) scope f post') : Ensures (x >>= k) scope f post' := by
  rintro s rfl
  exact h _ _ (keeps s)

theorem mapM {ι : Type} {check : ι → Check α} {items : List ι} (inv : List ι → Findings → Prop)
    (each : ∀ i rest f, inv (i :: rest) f → Ensures (check i) scope f fun _ => inv rest)
    (start : inv items f) : Ensures (items.mapM check) scope f fun _ => inv [] := by
  induction items generalizing f with
  | nil => exact fun s same => by simpa [same] using start
  | cons i rest ih =>
    rw [List.mapM_cons]
    refine .bind (each i rest f start) fun a g h => .bind (ih h) fun as g h => ?_
    exact .pure h

/-! ## Inferences -/

theorem fail {span : Span} {cause : CheckCause} {post : Except Reported α → Findings → Prop}
    (h : post (.error ⟨⟩) f) : Ensures (ClassLang.fail span cause : Infer α).run scope f post := by
  rintro s rfl
  exact h

section Infer

variable {post : Except Reported β → Findings → Prop}

theorem infer_bind {x : Infer α} {k : α → Infer β} {m : Except Reported α → Findings → Prop}
    (hx : Ensures x.run scope f m) (ok : ∀ a g, m (.ok a) g → Ensures (k a).run scope g post)
    (error : ∀ g, m (.error ⟨⟩) g → post (.error ⟨⟩) g) :
    Ensures (x >>= k).run scope f post := by
  intro s same
  have first := hx s same
  rw [Infer.exec_bind]
  rcases run : Check.exec x.run scope s with ⟨_ | a, t⟩
  · rw [run] at first
    exact error _ first
  · rw [run] at first
    exact ok a _ first t rfl

theorem attempt_bind {x : Infer α} {k : Except Reported α → Infer β}
    {mid : Except Reported α → Findings → Prop} (hx : Ensures x.run scope f mid)
    (h : ∀ r g, mid r g → Ensures (k r).run scope g post) :
    Ensures (attempt x >>= k).run scope f post :=
  bind hx h

theorem lift_bind {x : Check α} {k : α → Infer β} {mid : α → Findings → Prop}
    (hx : Ensures x scope f mid) (h : ∀ a g, mid a g → Ensures (k a).run scope g post) :
    Ensures ((liftM x : Infer α) >>= k).run scope f post :=
  bind hx h

theorem read_bind {k : Scope → Infer β} (h : Ensures (k scope).run scope f post) :
    Ensures ((MonadReader.read : Infer Scope) >>= k).run scope f post := h

theorem findings_bind {k : Findings → Infer β} (h : Ensures (k f).run scope f post) :
    Ensures ((liftM ClassLang.findings : Infer Findings) >>= k).run scope f post :=
  findings h

theorem learn_bind {g : Findings → Findings} {k : Unit → Infer β}
    (h : Ensures (k ()).run scope (g f) post) :
    Ensures ((liftM (ClassLang.learn g) : Infer Unit) >>= k).run scope f post :=
  learn (k := fun u => (k u).run) h

theorem note_bind {event : Event} {k : Unit → Infer β} (h : Ensures (k ()).run scope f post) :
    Ensures ((liftM (note event) : Infer Unit) >>= k).run scope f post :=
  silent (x := note event) (k := fun u => (k u).run) (fun _ => rfl) fun _ => h

theorem fail_bind {span : Span} {cause : CheckCause} {k : α → Infer β} (h : post (.error ⟨⟩) f) :
    Ensures ((ClassLang.fail span cause : Infer α) >>= k).run scope f post := by
  rintro s rfl
  exact h

theorem settle {r : Except Reported β} (h : post r f) : Ensures (ClassLang.settle r).run scope f post :=
  pure h

theorem settle_bind {r : Except Reported α} {k : α → Infer β}
    (ok : ∀ a, r = .ok a → Ensures (k a).run scope f post)
    (error : r = .error ⟨⟩ → post (.error ⟨⟩) f) :
    Ensures (ClassLang.settle r >>= k).run scope f post := by
  cases r with
  | error _ => exact pure (error rfl)
  | ok a => exact ok a rfl

theorem settleBy {r : Except CheckError β} (ok : ∀ b, r = .ok b → post (.ok b) f)
    (error : post (.error ⟨⟩) f) : Ensures (ClassLang.settleBy r).run scope f post := by
  cases r with
  | error _ => exact fail error
  | ok b => exact pure (ok b rfl)

theorem settleBy_bind {r : Except CheckError α} {k : α → Infer β}
    (ok : ∀ a, r = .ok a → Ensures (k a).run scope f post) (error : post (.error ⟨⟩) f) :
    Ensures (ClassLang.settleBy r >>= k).run scope f post := by
  cases r with
  | error _ => exact fail_bind error
  | ok a => exact ok a rfl

end Infer

/-- The rule for a node that has not been visited is followed, and its result recorded. -/
theorem remembered {id : Nat} {x : Infer Ty} {mid post : Resolved → Findings → Prop}
    (fresh : f.validity id = none) (hx : Ensures x.run scope f mid)
    (close : ∀ r g, mid r g → post r (g.record id r)) :
    Ensures (ClassLang.remembered id x).run scope f post := by
  rintro s rfl
  have unknown : s.findings.cached id = none := by simp [Findings.cached, fresh]
  rw [exec_remembered_unknown unknown]
  exact close _ _ (hx s rfl)

theorem remembered_known {id : Nat} {x : Infer Ty} {r : Resolved} {post : Resolved → Findings → Prop}
    (known : f.cached id = some r) (h : post r f) :
    Ensures (ClassLang.remembered id x).run scope f post := by
  rintro s rfl
  rw [exec_remembered_known known]
  exact h

end Ensures

end ClassLang
