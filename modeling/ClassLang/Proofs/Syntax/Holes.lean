import ClassLang.Proofs.Syntax.Subtrees

/-!
Programs with a hole in place of a list of statements: the statements of a body or of the program, or
those of a block inside them, at any depth. A hole is filled by statements.

* `Hole.copies_fill`: the nodes of the program are then those around the hole and those of the statements.
-/

namespace ClassLang

/-! ## Statements around a block -/

/-- An alternative that lacks a block. -/
inductive AlternativeHole where
  | last
  | branch (condition : Expr) (alternative : Alternative)
  | further (condition : Expr) (thenBlock : Block) (hole : AlternativeHole)

/-- A statement that lacks a block. -/
inductive StatementHole where
  | bare (node : Node)
  | branch (node : Node) (condition : Expr) (alternative : Alternative)
  | otherwise (node : Node) (condition : Expr) (thenBlock : Block) (hole : AlternativeHole)
  | loop (node : Node) (condition : Expr)
  | tried (node : Node) (handler : Block)
  | caught (node : Node) (body : Block)

namespace AlternativeHole

def fill (b : Block) : AlternativeHole → Alternative
  | last => .block b
  | branch condition alternative => .elseIf condition b alternative
  | further condition thenBlock hole => .elseIf condition thenBlock (hole.fill b)

/-- The nodes around the block. -/
def aside : AlternativeHole → List Node
  | last => []
  | branch condition alternative => condition.nodes ++ alternative.nodes
  | further condition thenBlock hole => condition.nodes ++ thenBlock.nodes ++ hole.aside

theorem copies_fill (i : Nat) (b : Block) (hole : AlternativeHole) :
    copies i (hole.fill b).nodes = copies i hole.aside + copies i b.nodes := by
  induction hole with
  | last => exact (Nat.zero_add _).symm
  | branch condition alternative =>
    simp only [fill, aside, Alternative.nodes, copies_append]
    omega
  | further condition thenBlock hole ih =>
    simp only [fill, aside, Alternative.nodes, copies_append, ih]
    omega

theorem subtrees_fill (b : Block) (hole : AlternativeHole) : b.subtrees ⊆ (hole.fill b).subtrees := by
  induction hole with
  | last => exact List.Subset.refl _
  | branch condition alternative =>
    exact fun x inside => List.mem_append_left _ (List.mem_append_right _ inside)
  | further condition thenBlock hole ih =>
    exact fun x inside => List.mem_append_right _ (ih inside)

end AlternativeHole

namespace StatementHole

/-- The node of the statement. -/
def node : StatementHole → Node
  | bare n | branch n .. | otherwise n .. | loop n _ | tried n _ | caught n _ => n

def fill (b : Block) : StatementHole → Statement
  | bare n => .block n b
  | branch n condition alternative => .ifElse n condition b alternative
  | otherwise n condition thenBlock hole => .ifElse n condition thenBlock (hole.fill b)
  | loop n condition => .while n condition b
  | tried n handler => .tryCatch n b handler
  | caught n body => .tryCatch n body b

/-- The nodes below the statement and around the block. -/
def aside : StatementHole → List Node
  | bare _ => []
  | branch _ condition alternative => condition.nodes ++ alternative.nodes
  | otherwise _ condition thenBlock hole => condition.nodes ++ thenBlock.nodes ++ hole.aside
  | loop _ condition => condition.nodes
  | tried _ other | caught _ other => other.nodes

variable (hole : StatementHole) (b : Block)

theorem node_fill : (hole.fill b).node = hole.node := by cases hole <;> rfl

@[simp] theorem id_fill : (hole.fill b).id = hole.node.id := congrArg Node.id (hole.node_fill b)

@[simp] theorem span_fill : (hole.fill b).span = hole.node.span := congrArg Node.span (hole.node_fill b)

@[simp] theorem isTerminator_fill : (hole.fill b).isTerminator = false := by cases hole <;> rfl

theorem copies_fill (i : Nat) : copies i (hole.fill b).nodes =
    copies i [hole.node] + copies i hole.aside + copies i b.nodes := by
  cases hole with
  | otherwise n condition thenBlock hole =>
    rw [fill, Statement.nodes, copies_cons, copies_append, hole.copies_fill]
    simp only [aside, node, copies_append]
    omega
  | bare n | branch n _ _ | loop n _ | tried n _ | caught n _ =>
    rw [fill, Statement.nodes, copies_cons]
    simp only [aside, node, copies_append, copies_nil]
    omega

theorem head_fill : .head hole.node ∈ (hole.fill b).subtrees := by
  cases hole <;> exact List.mem_cons_self ..

theorem subtrees_fill : b.subtrees ⊆ (hole.fill b).subtrees := by
  intro x inside
  cases hole with
  | otherwise n condition thenBlock hole =>
    exact List.mem_cons_of_mem _ (List.mem_append_right _ (hole.subtrees_fill b inside))
  | bare _ | branch _ _ _ | loop _ _ | tried _ _ | caught _ _ =>
    simp [fill, Statement.subtrees, inside]

end StatementHole

/-! ## Blocks in blocks -/

/-- Statements around a block. -/
structure Layer where
  before : List Statement
  hole : StatementHole
  node : Node
  after : List Statement

namespace Layer

def fill (layer : Layer) (inner : List Statement) : List Statement :=
  layer.before ++ layer.hole.fill (.mk layer.node inner) :: layer.after

/-- The node of the statement that the block is part of, and that of the block. -/
def spine (layer : Layer) : List Node := [layer.hole.node, layer.node]

/-- The nodes around the block. -/
def aside (layer : Layer) : List Node :=
  statementNodes layer.before ++ (layer.hole.aside ++ statementNodes layer.after)

variable (layer : Layer) (inner : List Statement)

theorem copies_fill (i : Nat) : copies i (statementNodes (layer.fill inner)) =
    copies i layer.spine + copies i layer.aside + copies i (statementNodes inner) := by
  have filled := layer.hole.copies_fill (.mk layer.node inner) i
  rw [Block.nodes, copies_cons i layer.node] at filled
  have spine : copies i layer.spine = copies i [layer.hole.node] + copies i [layer.node] :=
    copies_cons i layer.hole.node [layer.node]
  rw [fill, statementNodes_eq, List.flatMap_append, List.flatMap_cons, ← statementNodes_eq,
    ← statementNodes_eq, spine]
  simp only [aside, copies_append, filled]
  omega

theorem subtrees_fill :
    (layer.hole.fill (.mk layer.node inner)).subtrees ⊆ statementSubtrees (layer.fill inner) := by
  rw [fill]
  induction layer.before with
  | nil => exact fun x inside => List.mem_append_left _ inside
  | cons s rest ih => exact fun x inside => List.mem_append_right _ (ih inside)

theorem block_fill : (Block.mk layer.node inner).subtrees ⊆ statementSubtrees (layer.fill inner) :=
  List.Subset.trans (layer.hole.subtrees_fill _) (layer.subtrees_fill inner)

theorem head_fill {n : Node} (here : n ∈ layer.spine) :
    .head n ∈ statementSubtrees (layer.fill inner) := by
  rcases List.mem_cons.1 here with rfl | here
  · exact layer.subtrees_fill inner (layer.hole.head_fill _)
  · rw [List.mem_singleton.1 here]
    exact layer.block_fill inner (List.mem_cons_self ..)

end Layer

/-- Statements around statements, the outermost layer first. -/
def nest (layers : List Layer) (inner : List Statement) : List Statement :=
  layers.foldr Layer.fill inner

theorem copies_nest (i : Nat) (layers : List Layer) (inner : List Statement) :
    copies i (statementNodes (nest layers inner)) = copies i (layers.flatMap Layer.spine) +
      copies i (layers.flatMap Layer.aside) + copies i (statementNodes inner) := by
  induction layers with
  | nil => exact (Nat.zero_add _).symm
  | cons layer rest ih =>
    have outer := layer.copies_fill (nest rest inner) i
    simp only [List.flatMap_cons, copies_append]
    change copies i (statementNodes (layer.fill (nest rest inner))) = _
    omega

theorem head_nest {n : Node} (layers : List Layer) (inner : List Statement)
    (here : n ∈ layers.flatMap Layer.spine) : .head n ∈ statementSubtrees (nest layers inner) := by
  induction layers with
  | nil => cases here
  | cons layer rest ih =>
    rcases List.mem_append.1 here with outer | within
    · exact layer.head_fill _ outer
    · exact layer.block_fill _ (List.mem_cons_of_mem _ (ih within))

/-! ## Programs around statements -/

def Function.withBody (f : Function) (ss : List Statement) : Function :=
  { f with body := .mk f.body.node ss }

def Method.withBody (m : Method) (ss : List Statement) : Method :=
  { m with body := .mk m.body.node ss }

def Class.withMethods (c : Class) (methods : List Method) : Class := { c with methods }

/-- A program that lacks its own statements or those of a body. -/
inductive Site where
  | statements (classes : List Class) (functions : List Function)
  | function (classes : List Class) (before : List Function) (f : Function) (after : List Function)
    (rest : List Statement)
  | method (before : List Class) (c : Class) (earlier : List Method) (m : Method)
    (later : List Method) (after : List Class) (functions : List Function) (rest : List Statement)

namespace Site

def fill (ss : List Statement) (count : Nat) : Site → Program
  | statements classes functions => ⟨classes, functions, ss, count⟩
  | function classes before f after rest => ⟨classes, before ++ f.withBody ss :: after, rest, count⟩
  | method before c earlier m later after functions rest =>
    ⟨before ++ c.withMethods (earlier ++ m.withBody ss :: later) :: after, functions, rest, count⟩

/-- The node of the body. -/
def spine : Site → List Node
  | statements .. => []
  | function _ _ f _ _ => [f.body.node]
  | method _ _ _ m _ _ _ _ => [m.body.node]

end Site

theorem Function.copies_withBody (f : Function) (ss : List Statement) (i : Nat) :
    copies i (f.withBody ss).nodes = copies i (f.withBody []).nodes + copies i (statementNodes ss) := by
  have body (ss : List Statement) : (f.withBody ss).nodes =
      (f.node :: (f.returnType.nodes ++ f.params.flatMap Param.nodes) ++ [f.body.node]) ++
        statementNodes ss := by
    rw [List.append_assoc]
    rfl
  rw [body, body, show statementNodes [] = [] from rfl, List.append_nil, copies_append]

theorem Method.copies_withBody (m : Method) (ss : List Statement) (i : Nat) :
    copies i (m.withBody ss).nodes = copies i (m.withBody []).nodes + copies i (statementNodes ss) := by
  have body (ss : List Statement) : (m.withBody ss).nodes =
      (m.node :: (m.returnType.nodes ++ m.params.flatMap Param.nodes) ++ [m.body.node]) ++
        statementNodes ss := by
    rw [List.append_assoc]
    rfl
  rw [body, body, show statementNodes [] = [] from rfl, List.append_nil, copies_append]

theorem Class.copies_withMethods (c : Class) (earlier later : List Method) (m : Method)
    (ss : List Statement) (i : Nat) :
    copies i (c.withMethods (earlier ++ m.withBody ss :: later)).nodes =
      copies i (c.withMethods (earlier ++ m.withBody [] :: later)).nodes +
        copies i (statementNodes ss) := by
  have body := m.copies_withBody ss i
  have whole (methods : List Method) : (c.withMethods methods).nodes =
      (c.node :: (c.superclass.elim [] TypeRef.nodes ++ c.fields.flatMap Field.nodes)) ++
        methods.flatMap Method.nodes := rfl
  simp only [whole, List.flatMap_append, List.flatMap_cons, copies_append, body]
  omega

namespace Site

theorem copies_fill (site : Site) (ss : List Statement) (count i : Nat) :
    copies i (site.fill ss count).nodes =
      copies i (site.fill [] count).nodes + copies i (statementNodes ss) := by
  cases site with
  | statements classes functions =>
    simp only [fill, Program.nodes, copies_append]
    rfl
  | function classes before f after rest =>
    have body := f.copies_withBody ss i
    simp only [fill, Program.nodes, List.flatMap_append, List.flatMap_cons, copies_append, body]
    omega
  | method before c earlier m later after functions rest =>
    have body := c.copies_withMethods earlier later m ss i
    simp only [fill, Program.nodes, List.flatMap_append, List.flatMap_cons, copies_append, body]
    omega

theorem body_fill {site : Site} {n : Node} (ss : List Statement) (count : Nat) (body : n ∈ site.spine) :
    (Block.mk n ss).subtrees ⊆ (site.fill ss count).subtrees := by
  intro x inside
  cases site with
  | statements classes functions => cases body
  | function classes before f after rest =>
    cases List.mem_singleton.1 body
    have inFunction : x ∈ (f.withBody ss).subtrees :=
      List.mem_cons_of_mem _ (List.mem_append_right _ inside)
    exact List.mem_append_left _ (List.mem_append_right _ (List.mem_flatMap.2
      ⟨_, List.mem_append_right _ (List.mem_cons_self ..), inFunction⟩))
  | method before c earlier m later after functions rest =>
    cases List.mem_singleton.1 body
    have inMethod : x ∈ (m.withBody ss).subtrees :=
      List.mem_cons_of_mem _ (List.mem_append_right _ inside)
    have inClass : x ∈ (c.withMethods (earlier ++ m.withBody ss :: later)).subtrees :=
      List.mem_cons_of_mem _ (List.mem_append_right _ (List.mem_flatMap.2
        ⟨m.withBody ss, List.mem_append_right _ (List.mem_cons_self ..), inMethod⟩))
    exact List.mem_append_left _ (List.mem_append_left _ (List.mem_flatMap.2
      ⟨_, List.mem_append_right _ (List.mem_cons_self ..), inClass⟩))

theorem subtrees_fill (site : Site) (ss : List Statement) (count : Nat) :
    statementSubtrees ss ⊆ (site.fill ss count).subtrees := by
  intro x inside
  cases site with
  | statements classes functions => exact List.mem_append_right _ inside
  | function classes before f after rest =>
    exact body_fill ss count (List.mem_singleton_self f.body.node) (List.mem_cons_of_mem _ inside)
  | method before c earlier m later after functions rest =>
    exact body_fill ss count (List.mem_singleton_self m.body.node) (List.mem_cons_of_mem _ inside)

end Site

/-- A program that lacks a list of statements, at a depth below its own statements or those of a body. -/
structure Hole where
  site : Site
  layers : List Layer

namespace Hole

variable (hole : Hole) (inner : List Statement) (count : Nat)

/-- The program with the statements that it lacks, and a count of its nodes. -/
def fill : Program := hole.site.fill (nest hole.layers inner) count

/-- The nodes of the statements and blocks around the hole. -/
def spine : List Node := hole.site.spine ++ hole.layers.flatMap Layer.spine

theorem copies_fill (i : Nat) : copies i (hole.fill inner count).nodes =
    copies i (hole.fill [] count).nodes + copies i (statementNodes inner) := by
  have whole := hole.site.copies_fill (nest hole.layers inner) count i
  have hollow := hole.site.copies_fill (nest hole.layers []) count i
  have nested := copies_nest i hole.layers inner
  have bare := copies_nest i hole.layers []
  rw [show statementNodes [] = [] from rfl, copies_nil] at bare
  rw [fill, fill]
  omega

theorem nodes_fill (count' : Nat) : (hole.fill inner count).nodes = (hole.fill inner count').nodes := by
  rw [fill, fill]
  cases hole.site <;> rfl

theorem head_fill {n : Node} (here : n ∈ hole.spine) : .head n ∈ (hole.fill inner count).subtrees := by
  rcases List.mem_append.1 here with body | nested
  · exact Site.body_fill _ count body (List.mem_cons_self ..)
  · exact hole.site.subtrees_fill _ count (head_nest hole.layers inner nested)

end Hole

end ClassLang
