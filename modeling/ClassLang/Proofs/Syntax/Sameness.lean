import ClassLang.Proofs.Syntax.Forms
import ClassLang.Syntax.Program
import Mathlib.Data.List.Forall2

/-!
Equality up to numbers and places: it is reflexive and symmetric, and numbering nodes anew does not
change it.

* `Expr.same_copies`: copies with new numbers are the same as each other if the originals are.
* `Expr.all_of_same`: what is the same passes the same tests, if these look at no more.
* `Function.same_right`: what a function is the same as does not change with its numbers and places.
-/

namespace ClassLang

theorem Ident.same_refl (a : Ident) : a.same a = true := beq_self_eq_true a.name

theorem Ident.same_comm (a b : Ident) : a.same b = b.same a := Bool.beq_comm

theorem sameBy_of_forall₂ {α : Type} {same : α → α → Bool} {as bs : List α}
    (h : List.Forall₂ (fun a b => same a b = true) as bs) : sameBy same as bs = true := by
  induction h with
  | nil => rfl
  | cons first _ ih => exact Bool.and_eq_true_iff.2 ⟨first, ih⟩

theorem length_of_sameBy {α : Type} {same : α → α → Bool} : ∀ {as bs : List α},
    sameBy same as bs = true → bs.length = as.length
  | [], [], _ => rfl
  | _ :: _, _ :: _, h => congrArg (· + 1) (length_of_sameBy (Bool.and_eq_true_iff.1 h).2)

namespace TypeRef

mutual

theorem same_refl : ∀ t : TypeRef, t.same t = true
  | primitive .. | void .. => by simp [same]
  | named .. => by simp [same, Ident.same_refl]
  | array _ _ args | keymap _ _ args => by simp [same, sameAll_refl args]
  | generic _ _ _ args => by simp [same, Ident.same_refl, sameAll_refl args]

theorem sameAll_refl : ∀ ts : List TypeRef, sameAll ts ts = true
  | [] => rfl
  | t :: rest => by rw [sameAll, same_refl t, sameAll_refl rest]; rfl

end

mutual

theorem same_comm : ∀ t u : TypeRef, t.same u = u.same t
  | primitive .., u => by cases u <;> simp [same, Bool.beq_comm]
  | void .., u => by cases u <;> simp [same, Bool.beq_comm]
  | named _ _ name, u => by cases u <;> simp [same, Bool.beq_comm, name.same_comm]
  | array _ _ args, u => by cases u <;> simp [same, Bool.beq_comm, sameAll_comm args]
  | keymap _ _ args, u => by cases u <;> simp [same, Bool.beq_comm, sameAll_comm args]
  | generic _ _ name args, u => by
    cases u <;> simp [same, Bool.beq_comm, name.same_comm, sameAll_comm args]

theorem sameAll_comm : ∀ ts us : List TypeRef, sameAll ts us = sameAll us ts
  | [], us => by cases us <;> rfl
  | t :: ts, us => by cases us <;> simp [sameAll, same_comm t, sameAll_comm ts]

end

mutual

theorem same_renumber : ∀ (t u : TypeRef) (n : Nat), t.same (u.renumber n).1 = t.same u
  | primitive .., u, _ => by cases u <;> rfl
  | void .., u, _ => by cases u <;> rfl
  | named .., u, _ => by cases u <;> rfl
  | array _ _ args, u, n => by cases u <;> simp [renumber, same, sameAll_renumber args]
  | keymap _ _ args, u, n => by cases u <;> simp [renumber, same, sameAll_renumber args]
  | generic _ _ _ args, u, n => by cases u <;> simp [renumber, same, sameAll_renumber args]

theorem sameAll_renumber : ∀ (ts us : List TypeRef) (n : Nat),
    sameAll ts (renumberAll us n).1 = sameAll ts us
  | [], us, _ => by cases us <;> rfl
  | t :: ts, us, n => by
    cases us <;> simp [renumberAll, sameAll, same_renumber t, sameAll_renumber ts]

end

end TypeRef

namespace Expr

mutual

theorem same_refl : ∀ e : Expr, e.same e = true
  | ident .. | this _ | literal .. => by simp [same, Ident.same_refl]
  | list _ elems => by simp [same, sameAll_refl elems]
  | keymap _ pairs => by simp [same, samePairs_refl pairs]
  | binary _ _ lhs rhs => by simp [same, same_refl lhs, same_refl rhs]
  | unary _ _ operand => by simp [same, same_refl operand]
  | new _ type => by simp [same, type.same_refl]
  | member _ target _ _ => by simp [same, same_refl target, Ident.same_refl]
  | index _ target i => by simp [same, same_refl target, same_refl i]
  | call _ callee args => by simp [same, same_refl callee, sameAll_refl args]
  | assign _ _ target value => by simp [same, same_refl target, same_refl value]

theorem sameAll_refl : ∀ es : List Expr, sameAll es es = true
  | [] => rfl
  | e :: rest => by rw [sameAll, same_refl e, sameAll_refl rest]; rfl

theorem samePairs_refl : ∀ pairs : List KeymapPair, samePairs pairs pairs = true
  | [] => rfl
  | .mk _ key value :: rest => by
    rw [samePairs, same_refl key, same_refl value, samePairs_refl rest]
    rfl

end

mutual

theorem same_comm : ∀ a b : Expr, a.same b = b.same a
  | ident _ name, b => by cases b <;> simp [same, name.same_comm]
  | this _, b => by cases b <;> rfl
  | literal .., b => by cases b <;> simp [same, Bool.beq_comm]
  | list _ elems, b => by cases b <;> simp [same, sameAll_comm elems]
  | keymap _ pairs, b => by cases b <;> simp [same, samePairs_comm pairs]
  | binary _ _ lhs rhs, b => by
    cases b <;> simp [same, Bool.beq_comm, same_comm lhs, same_comm rhs]
  | unary _ _ operand, b => by cases b <;> simp [same, Bool.beq_comm, same_comm operand]
  | new _ type, b => by cases b <;> simp [same, type.same_comm]
  | member _ target _ name, b => by
    cases b <;> simp [same, Bool.beq_comm, same_comm target, name.same_comm]
  | index _ target i, b => by cases b <;> simp [same, same_comm target, same_comm i]
  | call _ callee args, b => by cases b <;> simp [same, same_comm callee, sameAll_comm args]
  | assign _ _ target value, b => by
    cases b <;> simp [same, Bool.beq_comm, same_comm target, same_comm value]

theorem sameAll_comm : ∀ as bs : List Expr, sameAll as bs = sameAll bs as
  | [], bs => by cases bs <;> rfl
  | a :: as, bs => by cases bs <;> simp [sameAll, same_comm a, sameAll_comm as]

theorem samePairs_comm : ∀ as bs : List KeymapPair, samePairs as bs = samePairs bs as
  | [], bs => by rcases bs with _ | ⟨⟨⟩, _⟩ <;> rfl
  | .mk _ key value :: as, bs => by
    rcases bs with _ | ⟨⟨⟩, _⟩ <;>
      simp [samePairs, same_comm key, same_comm value, samePairs_comm as]

end

mutual

theorem same_renumber : ∀ (a b : Expr) (n : Nat), a.same (b.renumber n).1 = a.same b
  | ident .., b, _ => by cases b <;> rfl
  | this _, b, _ => by cases b <;> rfl
  | literal .., b, _ => by cases b <;> rfl
  | list _ elems, b, _ => by cases b <;> simp [renumber, same, sameAll_renumber elems]
  | keymap _ pairs, b, _ => by cases b <;> simp [renumber, same, samePairs_renumber pairs]
  | binary _ _ lhs rhs, b, _ => by
    cases b <;> simp [renumber, same, same_renumber lhs, same_renumber rhs]
  | unary _ _ operand, b, _ => by cases b <;> simp [renumber, same, same_renumber operand]
  | new _ type, b, _ => by cases b <;> simp [renumber, same, type.same_renumber]
  | member _ target _ _, b, _ => by cases b <;> simp [renumber, same, same_renumber target]
  | index _ target i, b, _ => by
    cases b <;> simp [renumber, same, same_renumber target, same_renumber i]
  | call _ callee args, b, _ => by
    cases b <;> simp [renumber, same, same_renumber callee, sameAll_renumber args]
  | assign _ _ target value, b, _ => by
    cases b <;> simp [renumber, same, same_renumber target, same_renumber value]

theorem sameAll_renumber : ∀ (as bs : List Expr) (n : Nat),
    sameAll as (renumberAll bs n).1 = sameAll as bs
  | [], bs, _ => by cases bs <;> rfl
  | a :: as, bs, n => by
    cases bs <;> simp [renumberAll, sameAll, same_renumber a, sameAll_renumber as]

theorem samePairs_renumber : ∀ (as bs : List KeymapPair) (n : Nat),
    samePairs as (renumberPairs bs n).1 = samePairs as bs
  | [], bs, _ => by rcases bs with _ | ⟨⟨⟩, _⟩ <;> rfl
  | .mk _ key value :: as, bs, n => by
    rcases bs with _ | ⟨⟨⟩, _⟩ <;>
      simp [renumberPairs, samePairs, same_renumber key, same_renumber value,
        samePairs_renumber as]

end

theorem isAssignable_of_same {a b : Expr} (h : a.same b = true) :
    b.isAssignable = a.isAssignable := by
  cases a <;> cases b <;> first | rfl | cases h

theorem same_copies {a b : Expr} (n m : Nat) (h : a.same b = true) :
    (a.renumber n).1.same (b.renumber m).1 = true := by
  rw [same_renumber, same_comm, same_renumber, same_comm, h]

mutual

theorem all_of_same {test : Expr → Bool} (h : ∀ a b, a.same b = true → test a = test b) :
    ∀ {a b : Expr}, a.same b = true → a.all test = b.all test
  | ident .., b, both => by
    cases b with
    | ident => exact h _ _ both
    | _ => cases both
  | this _, b, both => by
    cases b with
    | this => exact h _ _ both
    | _ => cases both
  | literal .., b, both => by
    cases b with
    | literal => exact h _ _ both
    | _ => cases both
  | new .., b, both => by
    cases b with
    | new => exact h _ _ both
    | _ => cases both
  | list .., b, both => by
    cases b with
    | list => rw [all, all, h _ _ both, allOf_of_same h both]
    | _ => cases both
  | keymap .., b, both => by
    cases b with
    | keymap => rw [all, all, h _ _ both, allPairs_of_same h both]
    | _ => cases both
  | binary .., b, both => by
    cases b with
    | binary =>
      have here := h _ _ both
      simp only [same, Bool.and_eq_true] at both
      rw [all, all, here, all_of_same h both.1.2, all_of_same h both.2]
    | _ => cases both
  | unary .., b, both => by
    cases b with
    | unary =>
      have here := h _ _ both
      simp only [same, Bool.and_eq_true] at both
      rw [all, all, here, all_of_same h both.2]
    | _ => cases both
  | member .., b, both => by
    cases b with
    | member =>
      have here := h _ _ both
      simp only [same, Bool.and_eq_true] at both
      rw [all, all, here, all_of_same h both.1.1]
    | _ => cases both
  | index .., b, both => by
    cases b with
    | index =>
      have here := h _ _ both
      simp only [same, Bool.and_eq_true] at both
      rw [all, all, here, all_of_same h both.1, all_of_same h both.2]
    | _ => cases both
  | call .., b, both => by
    cases b with
    | call =>
      have here := h _ _ both
      simp only [same, Bool.and_eq_true] at both
      rw [all, all, here, all_of_same h both.1, allOf_of_same h both.2]
    | _ => cases both
  | assign .., b, both => by
    cases b with
    | assign =>
      have here := h _ _ both
      simp only [same, Bool.and_eq_true] at both
      rw [all, all, here, all_of_same h both.1.2, all_of_same h both.2]
    | _ => cases both

theorem allOf_of_same {test : Expr → Bool} (h : ∀ a b, a.same b = true → test a = test b) :
    ∀ {as bs : List Expr}, sameAll as bs = true → allOf test as = allOf test bs
  | [], [], _ => rfl
  | a :: as, b :: bs, both => by
    obtain ⟨first, others⟩ := Bool.and_eq_true_iff.1 both
    rw [allOf, allOf, all_of_same h first, allOf_of_same h others]

theorem allPairs_of_same {test : Expr → Bool} (h : ∀ a b, a.same b = true → test a = test b) :
    ∀ {as bs : List KeymapPair}, samePairs as bs = true → allPairs test as = allPairs test bs
  | [], [], _ => rfl
  | .mk _ key value :: as, .mk _ key' value' :: bs, both => by
    simp only [samePairs, Bool.and_eq_true] at both
    rw [allPairs, allPairs, all_of_same h both.1.1, all_of_same h both.1.2,
      allPairs_of_same h both.2]

end

end Expr

/-! ## What is the same may stand for each other -/

theorem Ident.same_right {b b' : Ident} (h : b.same b' = true) (a : Ident) :
    a.same b = a.same b' := by
  rw [Ident.same, Ident.same, eq_of_beq h]

section

variable {α : Type} {same : α → α → Bool}

theorem sameBy_right (h : ∀ {b b'}, same b b' = true → ∀ a, same a b = same a b') :
    ∀ {bs bs' : List α}, sameBy same bs bs' = true → ∀ as, sameBy same as bs = sameBy same as bs'
  | [], [], _, _ => rfl
  | b :: bs, b' :: bs', all, as => by
    obtain ⟨first, others⟩ := Bool.and_eq_true_iff.1 all
    cases as with
    | nil => rfl
    | cons a as => rw [sameBy, sameBy, h first, sameBy_right h others]

theorem sameOption_right (h : ∀ {b b'}, same b b' = true → ∀ a, same a b = same a b') :
    ∀ {b b' : Option α}, sameOption same b b' = true →
      ∀ a, sameOption same a b = sameOption same a b'
  | none, none, _, _ => rfl
  | some _, some _, _, none => rfl
  | some _, some _, both, some a => h both a

end

namespace TypeRef

mutual

theorem same_right : ∀ {t u : TypeRef}, t.same u = true → ∀ s : TypeRef, s.same t = s.same u
  | primitive .., u, h, s => by
    cases u with
    | primitive =>
      simp only [same, Bool.and_eq_true, beq_iff_eq] at h
      cases s <;> simp [same, h]
    | _ => cases h
  | void .., u, h, s => by
    cases u with
    | void =>
      simp only [same, beq_iff_eq] at h
      cases s <;> simp [same, h]
    | _ => cases h
  | named .., u, h, s => by
    cases u with
    | named =>
      simp only [same, Bool.and_eq_true, beq_iff_eq] at h
      cases s <;> simp [same, h.1, Ident.same_right h.2]
    | _ => cases h
  | array _ _ args, u, h, s => by
    cases u with
    | array =>
      simp only [same, Bool.and_eq_true, beq_iff_eq] at h
      cases s <;> simp [same, h.1, sameAll_right h.2]
    | _ => cases h
  | keymap _ _ args, u, h, s => by
    cases u with
    | keymap =>
      simp only [same, Bool.and_eq_true, beq_iff_eq] at h
      cases s <;> simp [same, h.1, sameAll_right h.2]
    | _ => cases h
  | generic _ _ name args, u, h, s => by
    cases u with
    | generic =>
      simp only [same, Bool.and_eq_true, beq_iff_eq] at h
      cases s <;> simp [same, h.1.1, Ident.same_right h.1.2, sameAll_right h.2]
    | _ => cases h

theorem sameAll_right : ∀ {ts us : List TypeRef}, sameAll ts us = true →
    ∀ ss, sameAll ss ts = sameAll ss us
  | [], [], _, _ => rfl
  | t :: ts, u :: us, h, ss => by
    obtain ⟨first, others⟩ := Bool.and_eq_true_iff.1 h
    cases ss with
    | nil => rfl
    | cons s ss => rw [sameAll, sameAll, same_right first, sameAll_right others]

end

end TypeRef

namespace Expr

mutual

theorem same_right : ∀ {a b : Expr}, a.same b = true → ∀ e : Expr, e.same a = e.same b
  | ident _ name, b, h, e => by
    cases b with
    | ident => cases e <;> first | rfl | exact Ident.same_right h _
    | _ => cases h
  | this _, b, h, e => by
    cases b with
    | this => cases e <;> rfl
    | _ => cases h
  | literal _ value, b, h, e => by
    cases b with
    | literal =>
      simp only [same, beq_iff_eq] at h
      cases e <;> simp [same, h]
    | _ => cases h
  | list _ elems, b, h, e => by
    cases b with
    | list => cases e <;> first | rfl | exact sameAll_right h _
    | _ => cases h
  | keymap _ pairs, b, h, e => by
    cases b with
    | keymap => cases e <;> first | rfl | exact samePairs_right h _
    | _ => cases h
  | binary _ op lhs rhs, b, h, e => by
    cases b with
    | binary =>
      simp only [same, Bool.and_eq_true, beq_iff_eq] at h
      cases e <;> simp [same, h.1.1, same_right h.1.2, same_right h.2]
    | _ => cases h
  | unary _ op operand, b, h, e => by
    cases b with
    | unary =>
      simp only [same, Bool.and_eq_true, beq_iff_eq] at h
      cases e <;> simp [same, h.1, same_right h.2]
    | _ => cases h
  | new _ type, b, h, e => by
    cases b with
    | new => cases e <;> first | rfl | exact TypeRef.same_right h _
    | _ => cases h
  | member _ target access name, b, h, e => by
    cases b with
    | member =>
      simp only [same, Bool.and_eq_true, beq_iff_eq] at h
      cases e <;> simp [same, h.1.2, same_right h.1.1, Ident.same_right h.2]
    | _ => cases h
  | index _ target i, b, h, e => by
    cases b with
    | index =>
      simp only [same, Bool.and_eq_true] at h
      cases e <;> simp [same, same_right h.1, same_right h.2]
    | _ => cases h
  | call _ callee args, b, h, e => by
    cases b with
    | call =>
      simp only [same, Bool.and_eq_true] at h
      cases e <;> simp [same, same_right h.1, sameAll_right h.2]
    | _ => cases h
  | assign _ kind target value, b, h, e => by
    cases b with
    | assign =>
      simp only [same, Bool.and_eq_true, beq_iff_eq] at h
      cases e <;> simp [same, h.1.1, same_right h.1.2, same_right h.2]
    | _ => cases h

theorem sameAll_right : ∀ {as bs : List Expr}, sameAll as bs = true →
    ∀ es, sameAll es as = sameAll es bs
  | [], [], _, _ => rfl
  | a :: as, b :: bs, h, es => by
    obtain ⟨first, others⟩ := Bool.and_eq_true_iff.1 h
    cases es with
    | nil => rfl
    | cons e es => rw [sameAll, sameAll, same_right first, sameAll_right others]

theorem samePairs_right : ∀ {as bs : List KeymapPair}, samePairs as bs = true →
    ∀ es, samePairs es as = samePairs es bs
  | [], [], _, _ => rfl
  | .mk _ key value :: as, .mk _ key' value' :: bs, h, es => by
    simp only [samePairs, Bool.and_eq_true] at h
    rcases es with _ | ⟨⟨⟩, es⟩
    · rfl
    · simp [samePairs, same_right h.1.1, same_right h.1.2, samePairs_right h.2]

end

end Expr

theorem Initializer.same_right {i j : Initializer} (h : i.same j = true) (k : Initializer) :
    k.same i = k.same j := by
  obtain ⟨kind, value⟩ := Bool.and_eq_true_iff.1 h
  rw [Initializer.same, Initializer.same, eq_of_beq kind, Expr.same_right value]

theorem VarDecl.same_right {d d' : VarDecl} (h : d.same d' = true) (e : VarDecl) :
    e.same d = e.same d' := by
  simp only [VarDecl.same, Bool.and_eq_true] at h
  rw [VarDecl.same, VarDecl.same, TypeRef.same_right h.1.1, Ident.same_right h.1.2,
    sameOption_right Initializer.same_right h.2]

mutual

theorem Statement.same_right : ∀ {a b : Statement}, a.same b = true →
    ∀ s : Statement, s.same a = s.same b
  | .varDecl _ decl, b, h, s => by
    cases b with
    | varDecl =>
      simp only [Statement.same] at h
      cases s <;> simp [Statement.same, VarDecl.same_right h]
    | _ => simp [Statement.same] at h
  | .expr _ value, b, h, s => by
    cases b with
    | expr =>
      simp only [Statement.same] at h
      cases s <;> simp [Statement.same, Expr.same_right h]
    | _ => simp [Statement.same] at h
  | .ifElse _ condition thenBlock alternative, b, h, s => by
    cases b with
    | ifElse =>
      simp only [Statement.same, Bool.and_eq_true] at h
      cases s <;> simp [Statement.same, Expr.same_right h.1.1, Block.same_right h.1.2,
        Alternative.same_right h.2]
    | _ => simp [Statement.same] at h
  | .while _ condition body, b, h, s => by
    cases b with
    | «while» =>
      simp only [Statement.same, Bool.and_eq_true] at h
      cases s <;> simp [Statement.same, Expr.same_right h.1, Block.same_right h.2]
    | _ => simp [Statement.same] at h
  | .tryCatch _ body handler, b, h, s => by
    cases b with
    | tryCatch =>
      simp only [Statement.same, Bool.and_eq_true] at h
      cases s <;> simp [Statement.same, Block.same_right h.1, Block.same_right h.2]
    | _ => simp [Statement.same] at h
  | .return _ value, b, h, s => by
    cases b with
    | «return» =>
      simp only [Statement.same] at h
      cases s <;> simp [Statement.same, sameOption_right Expr.same_right h]
    | _ => simp [Statement.same] at h
  | .break _, b, h, s => by
    cases b with
    | «break» => cases s <;> simp [Statement.same]
    | _ => simp [Statement.same] at h
  | .continue _, b, h, s => by
    cases b with
    | «continue» => cases s <;> simp [Statement.same]
    | _ => simp [Statement.same] at h
  | .block _ body, b, h, s => by
    cases b with
    | block =>
      simp only [Statement.same] at h
      cases s <;> simp [Statement.same, Block.same_right h]
    | _ => simp [Statement.same] at h

theorem Alternative.same_right : ∀ {a b : Alternative}, a.same b = true →
    ∀ s : Alternative, s.same a = s.same b
  | .none, b, h, s => by
    cases b with
    | none => rfl
    | _ => simp [Alternative.same] at h
  | .block body, b, h, s => by
    cases b with
    | block =>
      simp only [Alternative.same] at h
      cases s <;> simp [Alternative.same, Block.same_right h]
    | _ => simp [Alternative.same] at h
  | .elseIf condition thenBlock alternative, b, h, s => by
    cases b with
    | elseIf =>
      simp only [Alternative.same, Bool.and_eq_true] at h
      cases s <;> simp [Alternative.same, Expr.same_right h.1.1, Block.same_right h.1.2,
        Alternative.same_right h.2]
    | _ => simp [Alternative.same] at h

theorem Block.same_right : ∀ {a b : Block}, a.same b = true → ∀ s : Block, s.same a = s.same b
  | .mk _ as, .mk _ bs, h, .mk _ ss => by
    simp only [Block.same] at h ⊢
    exact sameStatements_right h ss

theorem sameStatements_right : ∀ {as bs : List Statement}, sameStatements as bs = true →
    ∀ ss, sameStatements ss as = sameStatements ss bs
  | [], [], _, _ => rfl
  | [], _ :: _, h, _ | _ :: _, [], h, _ => by simp [sameStatements] at h
  | a :: as, b :: bs, h, ss => by
    simp only [sameStatements, Bool.and_eq_true] at h
    cases ss with
    | nil => simp [sameStatements]
    | cons s ss =>
      rw [sameStatements, sameStatements, Statement.same_right h.1, sameStatements_right h.2]

end

theorem Param.same_right {p q : Param} (h : p.same q = true) (r : Param) : r.same p = r.same q := by
  obtain ⟨type, name⟩ := Bool.and_eq_true_iff.1 h
  rw [Param.same, Param.same, TypeRef.same_right type, Ident.same_right name]

theorem Function.same_right {f g : Function} (h : f.same g = true) (k : Function) :
    k.same f = k.same g := by
  simp only [Function.same, Bool.and_eq_true, beq_iff_eq] at h
  obtain ⟨⟨⟨⟨⟨type, name⟩, params⟩, body⟩, owner⟩, operator⟩ := h
  rw [Function.same, Function.same, TypeRef.same_right type, Ident.same_right name,
    sameBy_right Param.same_right params, Block.same_right body,
    sameOption_right Ident.same_right owner, operator]

end ClassLang
