import ClassLang.Proofs.Checking.BodyFrames
import ClassLang.Proofs.Checking.Places
import ClassLang.Proofs.Parsing.Numbering

/-!
Blocks are closed. Two programs that differ only in the statements of one block have the same said of
everything outside, but that a return may be missing in one of them.

* `Hole.analyze_around`: programs that fill the same hole.
* `Source.nested_blocks_closed`: parsed programs, up to the places that their layout gives them.
-/

namespace ClassLang

namespace Hole

variable (hole : Hole) {inner inner' : List Statement} {count count' : Nat}

/-! ## What is in sight -/

/-- The nodes of bodies around the hole, but for those that the hole lies below. -/
def aside : List Node := hole.site.aside ++ hole.layers.flatMap Layer.aside

theorem copies_bodies (i : Nat) : copies i (hole.fill inner count).bodyNodes =
    copies i hole.spine + copies i hole.aside + copies i (statementNodes inner) := by
  have outer := hole.site.copies_bodies (nest hole.layers inner) count i
  have nested := copies_nest i hole.layers inner
  simp only [spine, aside, copies_append]
  rw [fill]
  omega

/-- The nodes of declarations, those that a hole lies below, and those that fill it. -/
def hidden (inner : List Statement) : List Node :=
  (hole.fill [] 0).headNodes ++ hole.spine ++ statementNodes inner

/-- The nodes of types in signatures, and those of bodies aside. -/
def visible : List Node := TypeRef.nodesAll (hole.fill [] 0).signature ++ hole.aside

theorem distinct_hidden (distinct : Distinct (hole.fill inner count).nodes) :
    Apart (hole.hidden inner) hole.visible := by
  have heads : (hole.fill inner count).headNodes = (hole.fill [] 0).headNodes :=
    hole.site.headNodes_fill ..
  have types : (hole.fill inner count).signature = (hole.fill [] 0).signature :=
    hole.site.signature_fill ..
  refine Distinct.apart ((Program.distinct_parts distinct).of_copies_le fun i => ?_)
  have bodies : copies i (hole.fill inner count).bodyNodes = _ := hole.copies_bodies i
  simp only [hidden, visible, heads, types, copies_append]
  omega

theorem distinct_inner (distinct : Distinct (hole.fill inner count).nodes) :
    Distinct (statementNodes inner) :=
  distinct.of_copies_le fun i => by
    rw [hole.copies_fill]
    exact Nat.le_add_left ..

/-- All but what either of two programs hides. -/
def sight (inner inner' : List Statement) : Sight where
  nodes id := id ∉ (hole.hidden inner).map Node.id ∧ id ∉ (hole.hidden inner').map Node.id
  classes := True

theorem hidden_left {xs : List Node} (inner' : List Statement) (sub : xs ⊆ hole.hidden inner) :
    Hidden (hole.sight inner inner') xs :=
  fun _ listed inSight => inSight.1 (List.mem_map_of_mem (sub listed))

theorem hidden_right {xs : List Node} (inner : List Statement) (sub : xs ⊆ hole.hidden inner') :
    Hidden (hole.sight inner inner') xs :=
  fun _ listed inSight => inSight.2 (List.mem_map_of_mem (sub listed))

variable (distinct : Distinct (hole.fill inner count).nodes)
  (distinct' : Distinct (hole.fill inner' count').nodes)
include distinct distinct'

theorem visible_inside : Inside (hole.sight inner inner') hole.visible := fun _ listed =>
  ⟨fun mine => hole.distinct_hidden distinct mine (List.mem_map_of_mem listed),
    fun mine => hole.distinct_hidden distinct' mine (List.mem_map_of_mem listed)⟩

theorem reads_sight : (hole.sight inner inner').Reads (hole.fill inner count) where
  types t written := by
    have here : t ∈ (hole.fill [] 0).signature :=
      hole.site.signature_fill (nest hole.layers inner) (nest hole.layers []) count 0 ▸ written
    have node := TypeRef.nodes_subset_nodesAll here t.node_mem_nodes
    exact hole.visible_inside distinct distinct' t.node (List.mem_append_left _ node)
  classes := trivial

omit distinct in
theorem outside_inner {i : Nat} (listed : i ∈ (hole.fill inner count).nodes.map Node.id)
    (outside : i ∉ (statementNodes inner).map Node.id) : i ∉ (statementNodes inner').map Node.id := by
  intro mine
  have here : 0 < copies i (hole.fill inner count).nodes := List.count_pos_iff.2 listed
  have none_ : copies i (statementNodes inner) = 0 := List.count_eq_zero.2 outside
  have some_ : 0 < copies i (statementNodes inner') := List.count_pos_iff.2 mine
  have once : copies i (hole.fill inner' count').nodes ≤ 1 :=
    List.nodup_iff_count_le_one.1 distinct' i
  have hollow : (hole.fill [] count).nodes = (hole.fill [] count').nodes := hole.nodes_fill ..
  rw [hole.copies_fill, hollow] at here
  rw [hole.copies_fill] at once
  omega

/-- Subtrees other than heads are in sight, but for those in the hole. -/
theorem sight_of_outside {x : Subtree} (listed : x ∈ (hole.fill inner count).subtrees)
    (plain : ∀ n, x ≠ .head n) (outside : x.id ∉ (statementNodes inner).map Node.id) :
    hole.sight inner inner' x.id := by
  have around : x.id ∉ ((hole.fill [] 0).headNodes ++ hole.spine).map Node.id := by
    intro mine
    obtain ⟨n, head, same⟩ := List.mem_map.1 mine
    have there : .head n ∈ (hole.fill inner count).subtrees := by
      rcases List.mem_append.1 head with declared | within
      · have declared : n ∈ (hole.fill inner count).headNodes :=
          hole.site.headNodes_fill (nest hole.layers []) (nest hole.layers inner) 0 count ▸ declared
        exact (Program.Stands.head declared).mem
      · exact hole.head_fill inner count within
    have distinct := Program.subtrees_distinct distinct
    exact plain n (List.inj_on_of_nodup_map distinct listed there same.symm)
  have node : x.node ∈ (hole.fill inner count).nodes :=
    Program.subtrees_nodes _ ▸ List.mem_map_of_mem listed
  have elsewhere := hole.outside_inner distinct' (List.mem_map_of_mem node) outside
  have apart {ss : List Statement} (out : x.id ∉ (statementNodes ss).map Node.id) :
      x.id ∉ (hole.hidden ss).map Node.id := by
    rw [hidden, List.map_append]
    exact fun mine => (List.mem_append.1 mine).elim around out
  exact ⟨apart outside, apart elsewhere⟩

/-! ## The analysis -/

theorem checkBodies_around :
    Around (hole.fill inner count) (hole.sight inner inner') (statementSpans inner)
      (statementSpans inner') (fun _ _ => True) (hole.fill inner count).checkBodies
      (hole.fill inner' count').checkBodies := by
  have reads := hole.reads_sight distinct distinct'
  obtain ⟨types, aside⟩ := Inside.append_iff.1 (hole.visible_inside distinct distinct')
  obtain ⟨bodies, layers⟩ := Inside.append_iff.1 aside
  have spine : hole.spine ⊆ hole.hidden inner := fun _ listed =>
    List.mem_append_left _ (List.mem_append_right _ listed)
  obtain ⟨bodySpine, layerSpine⟩ := List.append_subset.1 spine
  have filling := checkStatements_around (p := hole.fill inner count)
    (hole.distinct_inner distinct) (hole.distinct_inner distinct')
    (hole.hidden_left inner' (List.subset_append_right _ _))
    (hole.hidden_right inner (List.subset_append_right _ _))
  have nested := nest_around reads hole.layers layers (hole.hidden_left inner' layerSpine) filling
  have same : (hole.site.fill [] count).signature = (hole.fill [] 0).signature :=
    hole.site.signature_fill ..
  exact hole.site.checkBodies_around reads count count' (same ▸ types) bodies
    (hole.hidden_left inner' bodySpine) nested

theorem statements_around (settings : Settings) :
    (Phase.statements (hole.fill inner count) settings).2.findings.MirrorsOn (Equiv.refl Nat)
        (hole.sight inner inner') (Phase.statements (hole.fill inner' count') settings).2.findings ∧
      Divided (statementSpans inner) (statementSpans inner')
        (Phase.statements (hole.fill inner count) settings).2.errors
        (Phase.statements (hole.fill inner' count') settings).2.errors := by
  have same : (hole.fill inner count).view .declarations =
      (hole.fill inner' count').view .declarations := hole.site.view_fill ..
  rw [Phase.statements_elsewhere same, Phase.statements_checkBodies]
  obtain ⟨-, findings, es, es', reported, reported', divided⟩ :=
    hole.checkBodies_around distinct distinct' (.top (hole.fill inner count) settings) _ _ rfl (.refl _)
  exact ⟨findings, by rw [reported, reported']; exact divided.prepend⟩

/-- Two programs that differ in what fills a hole. -/
theorem analyze_around (settings : Settings) :
    ((hole.fill inner count).analyze settings).state.findings.MirrorsOn (Equiv.refl Nat)
        (hole.sight inner inner') ((hole.fill inner' count').analyze settings).state.findings ∧
      Divided (statementSpans inner) (statementSpans inner')
        ((hole.fill inner count).analyze settings).state.errors
        ((hole.fill inner' count').analyze settings).state.errors := by
  obtain ⟨findings, errors⟩ := hole.statements_around distinct distinct' settings
  have heads {ss : List Statement} {n : Nat} : (hole.fill ss n).headNodes ⊆ hole.hidden ss := by
    rw [fill, hole.site.headNodes_fill _ (nest hole.layers []) n 0]
    exact fun _ listed => List.mem_append_left _ (List.mem_append_left _ listed)
  have judged := (Phase.judged_steps (p := hole.fill inner count) settings).unseen
    (hole.hidden_left inner' heads)
  have judged' := (Phase.judged_steps (p := hole.fill inner' count') settings).unseen
    (hole.hidden_right inner heads)
  have told (p : Program) :
      (p.analyze settings).state.errors = (Phase.statements p settings).2.errors :=
    (congrArg CheckState.errors (Phase.judged_eq p settings) :)
  rw [told, told]
  exact ⟨findings.between judged judged', errors⟩

end Hole

/-! ## Parsed programs -/

/-- The same type, resolution and validity are recorded of a node. -/
structure Findings.SameAt (f g : Findings) (id : Nat) : Prop where
  typeOf : g.typeOf id = f.typeOf id
  resolution : g.resolution id = f.resolution id
  validity : g.validity id = f.validity id

theorem Findings.MirrorsAt.same {f g : Findings} {id : Nat} (m : f.MirrorsAt (Equiv.refl Nat) g id) :
    f.SameAt g id where
  typeOf := m.typeOf
  resolution := by rw [m.resolution, funext Decl.renumber_refl, Option.map_id']
  validity := m.validity

theorem besidesReturns_relocate (f : Span → Span) (es : List CheckError) :
    besidesReturns (es.map (.relocate f)) = (besidesReturns es).map (.relocate f) :=
  List.filter_map

/-- Reports whose places are moved, and that are divided then, are divided before. -/
theorem Divided.of_relocate {spans spans' : List Span} {es es' : List CheckError} {f g : Span → Span}
    (h : Divided spans spans' (es.map (.relocate f)) (es'.map (.relocate g))) :
    ∃ before inside after before' inside' after', es = before ++ inside ++ after ∧
      es' = before' ++ inside' ++ after' ∧ (∀ e ∈ inside, f e.span ∈ spans) ∧
      (∀ e ∈ inside', g e.span ∈ spans') ∧
      before.map (CheckError.relocate f) = before'.map (CheckError.relocate g) ∧
      (besidesReturns after).map (CheckError.relocate f) =
        (besidesReturns after').map (CheckError.relocate g) := by
  obtain ⟨_, _, _, _, _, told, told', here, there, even⟩ := h
  obtain ⟨_, after, rfl, split, rfl⟩ := List.map_eq_append_iff.1 told
  obtain ⟨before, inside, rfl, rfl, rfl⟩ := List.map_eq_append_iff.1 split
  obtain ⟨_, after', rfl, split', rfl⟩ := List.map_eq_append_iff.1 told'
  obtain ⟨before', inside', rfl, same, rfl⟩ := List.map_eq_append_iff.1 split'
  rw [Akin, besidesReturns_relocate, besidesReturns_relocate] at even
  exact ⟨before, inside, after, before', inside', after', rfl, rfl,
    fun _ listed => here _ (List.mem_map_of_mem listed),
    fun _ listed => there _ (List.mem_map_of_mem listed), same.symm, even⟩

/-- Nested blocks do not interfere with the outside. In a layout of two programs, that `f` and `g` move
their parts to, let them be the same but for the statements in a hole. Then the same is recorded of
the expressions and the written types around it. What is reported is the same but for places in the
hole, which come in one stretch, and for missing returns after it. -/
theorem Source.nested_blocks_closed {source source' : Source} {p q : Program}
    (parsed : source.parse Parser.program = .ok p) (parsed' : source'.parse Parser.program = .ok q)
    {f g : Span → Span} (keeps : f default = default) (keeps' : g default = default) {hole : Hole}
    {inner inner' : List Statement} (filled : p.relocate f = hole.fill inner p.nodeCount)
    (filled' : q.relocate g = hole.fill inner' q.nodeCount) (settings : Settings) :
    (∀ e ∈ p.exprs, e.id ∉ (statementNodes inner).map Node.id →
      (p.analyze settings).state.findings.SameAt (q.analyze settings).state.findings e.id) ∧
    (∀ t ∈ p.typeRefs, t.id ∉ (statementNodes inner).map Node.id →
      (p.analyze settings).state.findings.SameAt (q.analyze settings).state.findings t.id) ∧
    ∃ before inside after before' inside' after',
      (p.analyze settings).state.errors = before ++ inside ++ after ∧
      (q.analyze settings).state.errors = before' ++ inside' ++ after' ∧
      (∀ e ∈ inside, f e.span ∈ statementSpans inner) ∧
      (∀ e ∈ inside', g e.span ∈ statementSpans inner') ∧
      before.map (CheckError.relocate f) = before'.map (CheckError.relocate g) ∧
      (besidesReturns after).map (CheckError.relocate f) =
        (besidesReturns after').map (CheckError.relocate g) := by
  have distinct : Distinct (hole.fill inner p.nodeCount).nodes :=
    filled ▸ Program.distinct_relocate f (source.parse_program_nodup parsed)
  have distinct' : Distinct (hole.fill inner' q.nodeCount).nodes :=
    filled' ▸ Program.distinct_relocate g (source'.parse_program_nodup parsed')
  obtain ⟨findings, errors⟩ := hole.analyze_around distinct distinct' settings
  rw [← filled, ← filled', p.analyze_relocate keeps, q.analyze_relocate keeps'] at findings errors
  have outside {x : Subtree} (listed : x ∈ p.subtrees) (plain : ∀ n, x.relocate f ≠ .head n)
      (apart : x.id ∉ (statementNodes inner).map Node.id) :
      (p.analyze settings).state.findings.SameAt (q.analyze settings).state.findings x.id := by
    have same : (x.relocate f).id = x.id := (congrArg Node.id (x.node_relocate f) :)
    have there : x.relocate f ∈ (hole.fill inner p.nodeCount).subtrees :=
      filled ▸ p.subtrees_relocate f ▸ List.mem_map_of_mem listed
    have inSight := hole.sight_of_outside distinct distinct' there plain (same ▸ apart)
    exact (findings.node x.id (same ▸ inSight)).same
  refine ⟨fun e listed => ?_, fun t listed => ?_, errors.of_relocate⟩
  · exact outside (Program.mem_exprs.1 listed) fun _ => nofun
  · obtain ⟨x, listed, isType⟩ := List.mem_filterMap.1 listed
    cases x <;> cases isType
    exact outside listed fun _ => nofun

/-- A function that returns in a loop, and a wrong call of it. -/
def returning : Source :=
  ⟨"integer f(integer n) \x7b while (n > 0) \x7b return n + 1; \x7d \x7d " ++
    "integer m := f(\"two\");", none⟩

/-- The same but for the loop, in which there is a wrong assignment. -/
def assigning : Source :=
  ⟨"integer f(integer n) \x7b while (n > 0) \x7b n := \"one\"; \x7d \x7d " ++
    "integer m := f(\"two\");", none⟩

/-- What the two have around the text in the loop, which is of some length. -/
def aroundLoop (length : Nat) : Hole where
  site := .function [] [] {
      node := ⟨14, ⟨0, 43 + length⟩⟩
      returnType := .primitive ⟨0, ⟨0, 7⟩⟩ .none .integer
      name := ⟨"f", ⟨8, 9⟩⟩
      params := [⟨⟨2, ⟨10, 19⟩⟩, .primitive ⟨1, ⟨10, 17⟩⟩ .none .integer, ⟨"n", ⟨18, 19⟩⟩⟩]
      body := .mk ⟨13, ⟨21, 43 + length⟩⟩ []
      owner := none
      operator := none } []
    [.varDecl ⟨19, ⟨44 + length, 66 + length⟩⟩ {
      type := .primitive ⟨15, ⟨44 + length, 51 + length⟩⟩ .none .integer
      name := ⟨"m", ⟨52 + length, 53 + length⟩⟩
      init := some ⟨.value, .call ⟨18, ⟨57 + length, 65 + length⟩⟩
        (.ident ⟨16, ⟨57 + length, 58 + length⟩⟩ ⟨"f", ⟨57 + length, 58 + length⟩⟩)
        [.literal ⟨17, ⟨59 + length, 64 + length⟩⟩ (.string "two")]⟩ }]
  layers := [{
    before := []
    hole := .loop ⟨12, ⟨23, 41 + length⟩⟩ (.binary ⟨6, ⟨30, 35⟩⟩ .gt
      (.ident ⟨3, ⟨30, 31⟩⟩ ⟨"n", ⟨30, 31⟩⟩) (.literal ⟨4, ⟨34, 35⟩⟩ (.int 0)))
    node := ⟨11, ⟨37, 41 + length⟩⟩
    after := [] }]

def returned : List Statement :=
  [.return ⟨10, ⟨39, 52⟩⟩ (some (.binary ⟨9, ⟨46, 51⟩⟩ .add
    (.ident ⟨7, ⟨46, 47⟩⟩ ⟨"n", ⟨46, 47⟩⟩) (.literal ⟨8, ⟨50, 51⟩⟩ (.int 1))))]

def assigned : List Statement :=
  [.expr ⟨10, ⟨39, 50⟩⟩ (.assign ⟨9, ⟨39, 49⟩⟩ .value
    (.ident ⟨7, ⟨39, 40⟩⟩ ⟨"n", ⟨39, 40⟩⟩) (.literal ⟨8, ⟨44, 49⟩⟩ (.string "one")))]

/-- Where a place is if the text in the loop is longer by two. -/
def Span.stretched (s : Span) : Span :=
  let later (i : Nat) := if i ≤ 50 then i else i + 2
  ⟨later s.start, later s.stop⟩

set_option maxRecDepth 100000 in
theorem returning_parse :
    returning.parse Parser.program = .ok ((aroundLoop 13).fill returned 20) := by
  with_unfolding_all rfl

set_option maxRecDepth 100000 in
theorem assigning_parse :
    assigning.parse Parser.program = .ok ((aroundLoop 11).fill assigned 20) := by
  with_unfolding_all rfl

theorem assigned_stretched : ((aroundLoop 11).fill assigned 20).relocate .stretched =
    (aroundLoop 13).fill assigned 20 := rfl

/-- In the second there is an error in the loop, and a return is missing. Of the call, which is after
the loop, the same is said as in the first. -/
theorem returning_blocks_closed : ∃ p q : Program,
    returning.parse Parser.program = .ok p ∧ assigning.parse Parser.program = .ok q ∧
      (p.analyze ⟨true, true⟩).state.errors.map CheckError.span = [⟨70, 78⟩] ∧
      (q.analyze ⟨true, true⟩).state.errors.map CheckError.span = [⟨44, 49⟩, ⟨21, 54⟩, ⟨68, 76⟩] ∧
      (∀ e ∈ p.exprs, e.id ∉ [10, 9, 7, 8] → (p.analyze ⟨true, true⟩).state.findings.SameAt
        (q.analyze ⟨true, true⟩).state.findings e.id) ∧
      ∃ before inside after before' inside' after',
        (p.analyze ⟨true, true⟩).state.errors = before ++ inside ++ after ∧
        (q.analyze ⟨true, true⟩).state.errors = before' ++ inside' ++ after' ∧
        (∀ e ∈ inside, e.span ∈ statementSpans returned) ∧
        (∀ e ∈ inside', e.span.stretched ∈ statementSpans assigned) ∧
        before = before'.map (CheckError.relocate .stretched) ∧
        besidesReturns after = (besidesReturns after').map (CheckError.relocate .stretched) := by
  have run : (((aroundLoop 13).fill returned 20).analyze ⟨true, true⟩).state.errors.map
      CheckError.span = [⟨70, 78⟩] := by
    decide +kernel
  have run' : (((aroundLoop 11).fill assigned 20).analyze ⟨true, true⟩).state.errors.map
      CheckError.span = [⟨44, 49⟩, ⟨21, 54⟩, ⟨68, 76⟩] := by
    decide +kernel
  have filled : ((aroundLoop 13).fill returned 20).relocate id = (aroundLoop 13).fill returned 20 := rfl
  obtain ⟨exprs, -, before, inside, after, before', inside', after', told, told', here, there, same,
    even⟩ := Source.nested_blocks_closed returning_parse assigning_parse rfl rfl filled
      assigned_stretched ⟨true, true⟩
  have unmoved (es : List CheckError) : es.map (CheckError.relocate id) = es := List.map_id es
  rw [unmoved] at same even
  exact ⟨_, _, returning_parse, assigning_parse, run, run', exprs, before, inside, after, before',
    inside', after', told, told', here, there, same, even⟩

end ClassLang
