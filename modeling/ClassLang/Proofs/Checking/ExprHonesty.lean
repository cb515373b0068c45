import ClassLang.Proofs.Checking.RuleHonesty
import ClassLang.Proofs.Syntax.Nodes

/-!
Resolving written types and inferring the types of expressions is honest, by induction on the tree.
-/

namespace ClassLang

variable {α : Type} {p : Program} {own : Subject → Prop} {P : Prop}

/-! ## Written types -/

def Owns (own : Subject → Prop) (nodes : List Node) : Prop :=
  ∀ n ∈ nodes, own (.node n.id) ∧ own (.name n.id)

theorem Owns.mono {nodes more : List Node} (h : Owns own more) (sub : nodes ⊆ more) :
    Owns own nodes := fun n listed => h n (sub listed)

mutual

theorem TypeRef.resolve_infers : ∀ t : TypeRef, Owns own t.nodes →
    Infers p own P t.resolve fun _ => True
  | .primitive n m kind, h | .void n m, h => by
    have mine := h n (by simp [TypeRef.nodes])
    exact .remembered (.pure fun _ => trivial) mine.1
  | .named n m name, h => by
    have mine := h n (by simp [TypeRef.nodes])
    exact .remembered (namedType_infers n m name.name mine.2) mine.1
  | .array n m args, h => by
    have mine := h n (by simp [TypeRef.nodes])
    have inner := resolveEach_honest args (h.mono (List.subset_cons_self n _))
    exact .remembered (arrayType_infers n m inner) mine.1
  | .keymap n m args, h => by
    have mine := h n (by simp [TypeRef.nodes])
    have inner := resolveEach_honest args (h.mono (List.subset_cons_self n _))
    exact .remembered (keymapType_infers n m inner) mine.1
  | .generic n m name args, h => by
    have mine := h n (by simp [TypeRef.nodes])
    have inner := resolveEach_honest args (h.mono (List.subset_cons_self n _))
    exact .remembered (genericType_infers n m name.name inner mine.2) mine.1

theorem resolveEach_honest : ∀ ts : List TypeRef, Owns own (TypeRef.nodesAll ts) →
    Honest p own (fun _ => P) (resolveEach ts) AllOk (¬AllOk ·)
  | [], _ => .pure fun _ _ => rfl
  | t :: rest, h => by
    have first := TypeRef.resolve_infers t (h.mono (List.subset_append_left _ _))
    have others := resolveEach_honest rest (h.mono (List.subset_append_right _ _))
    exact first.run_honest.consResults others

end

/-! ## Rules -/

theorem thisType_infers (node : Node) : Infers p own P (thisType node) fun _ => True := by
  refine .read_bind fun scope same => ?_
  split
  · split
    · exact .pure fun _ => trivial
    · exact .fail
  · exact .fail

theorem newType_infers (node : Node) {resolve : Infer Ty} (h : Infers p own P resolve fun _ => True) :
    Infers p own P (newType node resolve) fun _ => True := by
  refine .bind h fun type => ?_
  split
  · exact .pure fun _ => trivial
  · exact .fail

theorem listType_infers (elems : List Expr) {infer : Check (List Resolved)}
    (h : Honest p own (fun _ => P) infer AllOk (¬AllOk ·)) :
    Infers p own P (listType elems infer) fun _ => True := by
  refine .results_bind h (fun rs => ?_) fun rs e failed => .left ?_
  · refine .settle_bind (·.1) fun types _ => .settleBy_bind fun elem _ => ?_
    exact .pure fun _ => trivial
  · rw [allResolved, failed]
    exact .settle_error e

theorem pairType_infers {key value : Infer Ty} (hKey : Infers p own P key fun _ => True)
    (hValue : Infers p own P value fun _ => True) :
    Infers p own P (pairType key value) fun _ => True := by
  refine .attempt_bind hKey (fun left => ?_) fun e => .right fun _ => .left (.settle_error e)
  refine .attempt_bind (hValue.weaken (·.2) fun _ h => h) (fun right => ?_)
    fun e => .right fun _ => .left (.settle_error e)
  refine .settle_bind ?_ fun _ _ => .settle_bind ?_ fun _ _ => .pure fun _ => trivial
  · rintro ⟨_, ⟨_, rfl, _⟩, _⟩
    rfl
  · rintro ⟨⟨_, rfl, _⟩, _⟩
    rfl

theorem recordedPair_honest {node : Node} {infer : Infer (Ty × Ty)} (mine : own (.node node.id))
    (h : Infers p own P infer fun _ => True) :
    Honest p own (fun _ => P) (recordedPair node infer) (·.isOk = true) (·.isOk = false) := by
  refine .bind h (fun _ mine => mine) (fun _ _ known _ => known) (fun r => ?_)
    fun r scope s failed _ => failed
  refine .learn (fun known => .record node.id _ mine) ?_ (.pure ?_) fun _ _ known _ => known
  · rintro _ known ⟨⟨_, rfl, _⟩, _⟩ clean
    exact clean.record node.id _
  · rintro _ ⟨⟨_, rfl, _⟩, _⟩
    rfl

theorem keymapLiteralType_infers (pairs : List KeymapPair)
    {infer : Check (List (Except Reported (Ty × Ty)))}
    (h : Honest p own (fun _ => P) infer AllOk (¬AllOk ·)) :
    Infers p own P (keymapLiteralType pairs infer) fun _ => True := by
  refine .results_bind h (fun rs => ?_) fun rs e failed => .left ?_
  · refine .settle_bind (·.1) fun types _ => .settleBy_bind fun key _ => ?_
    exact .settleBy_bind fun value _ => .pure fun _ => trivial
  · rw [failed]
    exact .settle_error e

theorem assignType_infers (kind : AssignKind) (target value : Expr) {a b : Infer Ty}
    (ha : Infers p own P a fun _ => True) (hb : Infers p own P b fun _ => True) :
    Infers p own P (assignType kind target value a b) fun _ => True := by
  refine .attempt_bind ha (fun left => ?_) fun e => .right fun _ => .left (.settle_error e)
  refine .attempt_bind (hb.weaken (·.2) fun _ h => h) (fun right => ?_)
    fun e => .right fun _ => .left (.settle_error e)
  refine .settle_bind ?_ fun targetType _ => .settle_bind ?_ fun valueType _ => ?_
  · rintro ⟨_, ⟨_, rfl, _⟩, _⟩
    rfl
  · rintro ⟨⟨_, rfl, _⟩, _⟩
    rfl
  split
  · exact .fail_bind
  · exact .settleBy_bind fun _ _ => .pure fun _ => trivial

/-! ## Expressions -/

mutual

theorem Expr.infer_infers : ∀ e : Expr, Owns own e.nodes → Infers p own P e.infer fun _ => True
  | .ident n name, h => by
    have mine := (h n (by simp [Expr.nodes])).1
    exact .remembered (nameType_infers n name.name mine) mine
  | .this n, h => by
    have mine := (h n (by simp [Expr.nodes])).1
    exact .remembered (thisType_infers n) mine
  | .literal n value, h => by
    have mine := (h n (by simp [Expr.nodes])).1
    exact .remembered (.pure fun _ => trivial) mine
  | .list n elems, h => by
    have mine := (h n (by simp [Expr.nodes])).1
    have inner := inferEach_honest elems (h.mono (List.subset_cons_self n _))
    exact .remembered (listType_infers elems inner) mine
  | .keymap n pairs, h => by
    have mine := (h n (by simp [Expr.nodes])).1
    have inner := inferPairs_honest pairs (h.mono (List.subset_cons_self n _))
    exact .remembered (keymapLiteralType_infers pairs inner) mine
  | .binary n op lhs rhs, h => by
    have mine := (h n (by simp [Expr.nodes])).1
    have left := lhs.infer_infers (h.mono (by simp [Expr.nodes]))
    have right := rhs.infer_infers (h.mono (by simp [Expr.nodes]))
    exact .remembered (binaryType_infers n op lhs rhs mine left right) mine
  | .unary n op operand, h => by
    have mine := (h n (by simp [Expr.nodes])).1
    have inner := operand.infer_infers (h.mono (by simp [Expr.nodes]))
    exact .remembered (unaryType_infers n op operand mine inner) mine
  | .new n type, h => by
    have mine := (h n (by simp [Expr.nodes])).1
    have inner := type.resolve_infers (p := p) (P := P) (h.mono (by simp [Expr.nodes]))
    exact .remembered (newType_infers n inner) mine
  | .member n target access name, h => by
    have mine := (h n (by simp [Expr.nodes])).1
    have inner := target.infer_infers (h.mono (by simp [Expr.nodes]))
    have mineTarget := (h target.node (by simp [Expr.nodes, target.node_mem_nodes])).1
    exact .remembered (memberType_infers n name mine
      (receiver_infers target access mineTarget inner)) mine
  | .index n target index, h => by
    have mine := (h n (by simp [Expr.nodes])).1
    have left := target.infer_infers (h.mono (by simp [Expr.nodes]))
    have right := index.infer_infers (h.mono (by simp [Expr.nodes]))
    exact .remembered (indexType_infers n target index mine left right) mine
  | .call n callee args, h => by
    have mine := (h n (by simp [Expr.nodes])).1
    have mineCallee := (h callee.node (by simp [Expr.nodes, callee.node_mem_nodes])).1
    have inner := callee.infer_infers (h.mono (by simp [Expr.nodes]))
    have innerArgs := inferEach_honest args (h.mono (by simp [Expr.nodes]))
    have below := h.mono (show callee.nodes ⊆ _ by simp [Expr.nodes])
    exact .remembered (callType_infers _ callee args mine mineCallee innerArgs
      (callee.inferTarget_infers below) inner) mine
  | .assign n kind target value, h => by
    have mine := (h n (by simp [Expr.nodes])).1
    have left := target.infer_infers (h.mono (by simp [Expr.nodes]))
    have right := value.infer_infers (h.mono (by simp [Expr.nodes]))
    exact .remembered (assignType_infers kind target value left right) mine

theorem Expr.inferTarget_infers : ∀ e : Expr, Owns own e.nodes →
    ∀ n target access name, e = .member n target access name →
      own (.node target.id) ∧ Infers p own P e.inferTarget fun _ => True
  | .member n target access name, h => by
    intro _ _ _ _ same
    cases same
    have mineTarget := (h target.node (by simp [Expr.nodes, target.node_mem_nodes])).1
    exact ⟨mineTarget, target.infer_infers (h.mono (by simp [Expr.nodes]))⟩
  | .ident .., _ | .this _, _ | .literal .., _ | .list .., _ | .keymap .., _ | .binary .., _
  | .unary .., _ | .new .., _ | .index .., _ | .call .., _ | .assign .., _ => nofun

theorem inferEach_honest : ∀ es : List Expr, Owns own (Expr.nodesAll es) →
    Honest p own (fun _ => P) (inferEach es) AllOk (¬AllOk ·)
  | [], _ => .pure fun _ _ => rfl
  | e :: rest, h => by
    have first := e.infer_infers (h.mono (List.subset_append_left _ _))
    have others := inferEach_honest rest (h.mono (List.subset_append_right _ _))
    exact first.run_honest.consResults others

theorem inferPairs_honest : ∀ pairs : List KeymapPair, Owns own (Expr.nodesPairs pairs) →
    Honest p own (fun _ => P) (inferPairs pairs) AllOk (¬AllOk ·)
  | [], _ => .pure fun _ _ => rfl
  | .mk n key value :: rest, h => by
    have mine := (h n (by simp [Expr.nodesPairs])).1
    have left := key.infer_infers (h.mono (by simp [Expr.nodesPairs]))
    have right := value.infer_infers (h.mono fun _ h => by simp [Expr.nodesPairs, h])
    have others := inferPairs_honest rest (h.mono fun _ h => by simp [Expr.nodesPairs, h])
    exact (recordedPair_honest mine (pairType_infers left right)).consResults others

end

end ClassLang
