import ClassLang.Proofs.Parsing.Grammar
import ClassLang.Proofs.Parsing.RoundTrip
import ClassLang.Proofs.Syntax.Scoping

/-!
Where assignments stand in what is parsed. An expression statement may be an assignment whose value
is again one; all else in a statement is without any. But what a compound assignment stores is an
operation on its value, so that an assignment there ends up inside the operation.

* `Source.assignments_in_turn`: assignments stand nowhere else.
-/

namespace ClassLang

/-! ## Pieces of programs -/

/-- Of the statement's own expressions, those of an expression statement assign in turn, and the
others do not assign. -/
def Statement.AssignsApart : Statement → Prop
  | .expr _ value => value.AssignsInTurn
  | s => ∀ e ∈ s.roots, e.assignFree = true

def Block.AssignsApart (b : Block) : Prop := ∀ s ∈ b.within, s.AssignsApart

def Field.AssignsApart (f : Field) : Prop := ∀ i, f.init = some i → i.value.assignFree = true

structure Class.AssignsApart (c : Class) : Prop where
  fields : ∀ f ∈ c.fields, f.AssignsApart
  methods : ∀ m ∈ c.methods, m.body.AssignsApart

structure Program.AssignsApart (p : Program) : Prop where
  classes : ∀ c ∈ p.classes, c.AssignsApart
  functions : ∀ f ∈ p.functions, f.body.AssignsApart
  statements : ∀ s ∈ withinStatements p.statements, s.AssignsApart

/-! ## What is grammatical -/

theorem GrammaticalVariable.free {type : TypeRef} {name : Ident} {init : Option Initializer}
    (h : GrammaticalVariable type name init) :
    ∀ i, init = some i → i.value.assignFree = true :=
  fun i given => (h.init i given).free

theorem Statement.RootsGrammatical.assignsApart : ∀ {s : Statement}, s.RootsGrammatical → s.AssignsApart
  | .expr .., h => Expr.Standalone.turns h
  | .varDecl .., h | .ifElse .., h | .while .., h | .tryCatch .., h | .return .., h
  | .break _, h | .continue _, h | .block .., h => fun e listed => (h e listed).free

theorem Block.Grammatical.assignsApart {b : Block} {c : Context} (h : b.Grammatical c) :
    b.AssignsApart :=
  fun s inside => (h.roots s inside).assignsApart

theorem Program.Grammatical.assignsApart {p : Program} (h : p.Grammatical) : p.AssignsApart where
  classes c listed :=
    ⟨fun f written => ((h.classes c listed).fields f written).free,
      fun m written => ((h.classes c listed).methods m written).callable.body.assignsApart⟩
  functions f listed := (h.functions f listed).callable.body.assignsApart
  statements s inside := (h.statements.roots s inside).assignsApart

/-! ## Whole sources -/

/-- What is parsed has assignments in expression statements only, and there in turn. -/
theorem Source.assignments_in_turn (source : Source) :
    (∀ e, source.parse Parser.expression = .ok e → e.AssignsInTurn) ∧
    (∀ b, source.parse Parser.block = .ok b → b.AssignsApart) ∧
    ∀ p, source.parse Parser.program = .ok p → p.AssignsApart := by
  refine ⟨fun e parsed => ?_, fun b parsed => (source.block_grammatical parsed).assignsApart,
    fun p parsed => (source.program_grammatical parsed).assignsApart⟩
  obtain ⟨tokens, s, -, run, -⟩ := Source.parse_eq_ok.1 parsed
  exact Parser.expression_careful.anywhere _ e s run trivial

-- What is assigned in turn is not always at the root: here it is the right operand of the sum.
theorem compound_assigns_in_turn :
    ∃ e, (⟨"b += c = 2", none⟩ : Source).parse Parser.expression = .ok e ∧
      e.assignsAtRoot = false ∧ e.AssignsInTurn := by
  have read : ((⟨"b += c = 2", none⟩ : Source).parse Parser.expression).toOption.map
      Expr.assignsAtRoot = some false := by decide +kernel
  obtain ⟨e, parsed, nested⟩ := Option.map_eq_some_iff.1 read
  have h := ok_of_toOption parsed
  exact ⟨e, h, nested, (Source.assignments_in_turn ⟨"b += c = 2", none⟩).1 e h⟩

end ClassLang
