import ClassLang.Compile
import ClassLang.Proofs.Checking.DeclarationBlindness
import ClassLang.Proofs.Lexing.Lossless
import ClassLang.Proofs.Parsing.StatementLayouts

/-!
Layout does not matter. The tokens of a source are those tokens by number, laid out in the way of the
source. Two sources with the same tokens are refused alike, at the same tokens, or they are compiled to
the same program, with the same said of it.

* `Source.parse_laid`: what a source is read as, from what its tokens are.
* `Program.compile_relocate`: what there is to say of a program is the same wherever its parts stand.
* `Source.layout_independence`: two sources whose tokens are of the same kinds.
-/

namespace ClassLang

/-! ## Numbered tokens -/

/-- Tokens that stand nowhere but at their own numbers. -/
def numbered (kinds : List TokenKind) : List Token :=
  kinds.zipIdx.map fun kind => ⟨kind.1, "", ⟨kind.2, kind.2⟩⟩

theorem kinds_numbered (kinds : List TokenKind) : (numbered kinds).map Token.kind = kinds := by
  rw [numbered, List.map_map]
  exact List.zipIdx_map_fst 0 kinds

/-- The stretch from the start of one token to the end of another. -/
def stretch? (tokens : List Token) (first last : Nat) : Option Span :=
  match tokens[first]?, tokens[last]? with
  | some a, some b => some ⟨a.span.start, b.span.stop⟩
  | _, _ => none

/-- Each token stands before those after it. -/
def InOrder (tokens : List Token) : Prop :=
  tokens.Pairwise fun a b => a.span.start ≤ b.span.start ∧ a.span.stop ≤ b.span.stop

/-- An offset of the token of a number, where the last token stands in for those beyond it. -/
def offsetAt (view : Token → Nat) (tokens : List Token) (i : Nat) : Nat :=
  (tokens[min i (tokens.length - 1)]?).elim 0 view

section Offsets

variable {view : Token → Nat} {tokens : List Token}

theorem offsetAt_clamped {i : Nat} (inside : min i (tokens.length - 1) < tokens.length) :
    offsetAt view tokens i = view tokens[min i (tokens.length - 1)] := by
  rw [offsetAt, List.getElem?_eq_getElem inside, Option.elim_some]

theorem offsetAt_eq {i : Nat} (inside : i < tokens.length) :
    offsetAt view tokens i = view tokens[i] := by
  simp only [offsetAt, show min i (tokens.length - 1) = i by omega,
    List.getElem?_eq_getElem inside, Option.elim_some]

theorem offsetAt_monotone (ordered : tokens.Pairwise fun a b => view a ≤ view b) :
    Monotone (offsetAt view tokens) := by
  intro i j within
  rcases Nat.eq_zero_or_pos tokens.length with none | some
  · rw [List.length_eq_zero_iff.1 none]
    exact Nat.le_refl _
  rw [offsetAt_clamped (by omega), offsetAt_clamped (by omega)]
  rcases Nat.eq_or_lt_of_le (show min i (tokens.length - 1) ≤ min j (tokens.length - 1) by omega)
    with same | before
  · simp only [same, Nat.le_refl]
  · exact List.pairwise_iff_getElem.1 ordered _ _ (by omega) (by omega) before

end Offsets

namespace InOrder

variable {tokens : List Token} (ordered : InOrder tokens)
include ordered

/-- The layout of tokens. -/
def layout : Layout where
  start := offsetAt (·.span.start) tokens
  stop := offsetAt (·.span.stop) tokens
  start_mono := offsetAt_monotone (ordered.imp And.left)
  stop_mono := offsetAt_monotone (ordered.imp And.right)

theorem place_eq (s : Span) : ordered.layout.place s =
    ⟨offsetAt (·.span.start) tokens s.start, offsetAt (·.span.stop) tokens s.stop⟩ := rfl

theorem place_self {i : Nat} (inside : i < tokens.length) :
    ordered.layout.place ⟨i, i⟩ = tokens[i].span := by
  rw [place_eq, offsetAt_eq inside, offsetAt_eq inside]

theorem laid : List.Forall₂ (Token.Laid ordered.layout) (numbered (tokens.map Token.kind)) tokens := by
  refine List.forall₂_iff_get.2 ⟨by simp [numbered], fun i _ inside => ?_⟩
  rw [List.get_eq_getElem, List.get_eq_getElem]
  simp only [numbered, List.getElem_map, List.getElem_zipIdx, Nat.zero_add]
  exact ⟨rfl, (ordered.place_self inside).symm⟩

/-- A stretch of numbers has its place in the tokens. -/
theorem stretch?_place (present : tokens ≠ []) (s : Span) :
    stretch? tokens (min s.start (tokens.length - 1)) (min s.stop (tokens.length - 1)) =
      some (ordered.layout.place s) := by
  have positive := List.length_pos_iff.2 present
  have first : min s.start (tokens.length - 1) < tokens.length := by omega
  have last : min s.stop (tokens.length - 1) < tokens.length := by omega
  rw [stretch?, List.getElem?_eq_getElem first, List.getElem?_eq_getElem last, place_eq,
    offsetAt_clamped first, offsetAt_clamped last]

end InOrder

/-! ## Sources and their tokens -/

theorem endTokens_of_ended {tokens : List Token} {source : Span}
    (ended : (tokens.map Token.kind).getLast? = some .eof) : endTokens tokens source = tokens := by
  rw [List.getLast?_map] at ended
  obtain ⟨last, final, isEnd⟩ := Option.map_eq_some_iff.1 ended
  rw [endTokens, final]
  exact if_pos isEnd

theorem Cursor.ofTokens_of_laid {l : Layout} {ts us : List Token} {a b : Span}
    (laid : List.Forall₂ (Token.Laid l) ts us)
    (ended : (ts.map Token.kind).getLast? = some .eof)
    (ended' : (us.map Token.kind).getLast? = some .eof) :
    (Cursor.ofTokens ts a).Laid l (Cursor.ofTokens us b) := by
  unfold Cursor.ofTokens
  rw [endTokens_of_ended ended, endTokens_of_ended ended']
  cases laid with
  | nil => cases ended
  | cons first rest => exact ⟨first, rest⟩

namespace Source

variable {source : Source} {tokens : List Token} (lexed : source.tokens = .ok tokens)
include lexed

theorem tokens_inOrder : InOrder tokens := by
  obtain ⟨⟨front, rfl, proper⟩, -, -, ordered, -⟩ := tokens_tiled lexed
  refine ordered.imp_of_mem fun {a b} ha hb before => ⟨Nat.le_of_lt before.1, ?_⟩
  rcases List.mem_append.1 hb with early | last
  · exact Nat.le_trans before.2 (Nat.le_of_lt (proper b early).2)
  · rw [List.mem_singleton.1 last] at before ⊢
    exact before.2

/-- The numbers of the tokens, the last of which is the end. -/
def numbers (_ : source.tokens = .ok tokens) : Span := ⟨0, tokens.length - 1⟩

theorem start_laid : (ParserState.start (numbered (tokens.map Token.kind)) (numbers lexed)).Laid
    (tokens_inOrder lexed).layout (.start tokens source.whole) := by
  obtain ⟨front, whole, -⟩ := (tokens_tiled lexed).ended
  have ended : (tokens.map Token.kind).getLast? = some .eof := by
    rw [whole, List.map_append, List.map_singleton, List.getLast?_concat]
  have length : tokens.length = front.length + 1 := by
    rw [whole, List.length_append, List.length_singleton]
  have last : tokens[tokens.length - 1].span = source.whole.endPoint := by
    simp only [whole, List.length_append, List.length_singleton, Nat.add_sub_cancel,
      List.getElem_concat_length]
    rfl
  refine ⟨Cursor.ofTokens_of_laid (tokens_inOrder lexed).laid ?_ ended, ?_, rfl, rfl, rfl, rfl⟩
  · rw [kinds_numbered, ended]
  · exact last.symm.trans ((tokens_inOrder lexed).place_self (by omega)).symm

/-- A source is read as its tokens are by number: as the same program, or it is refused with the same
error at the same tokens. -/
theorem parse_laid :
    (∃ p, Parser.program.runToEnd (numbered (tokens.map Token.kind)) (numbers lexed) = .ok p ∧
        source.parse Parser.program = .ok (p.relocate (tokens_inOrder lexed).layout.place)) ∨
      ∃ e e', Parser.program.runToEnd (numbered (tokens.map Token.kind)) (numbers lexed) =
          .error e ∧ source.parse Parser.program = .error (.syntactic e') ∧
        e'.span = (tokens_inOrder lexed).layout.place e.span ∧
        e'.cause.unquoted = e.cause.unquoted := by
  have read : source.parse Parser.program =
      (Parser.program.runToEnd tokens source.whole).mapError SourceError.syntactic := by
    rw [Source.parse, lexed]
    rfl
  rw [read]
  rcases Parser.runToEnd_alike Parser.program_tracks (start_laid lexed) with
    ⟨p, ok, ok'⟩ | ⟨e, e', failed, failed', here, same⟩
  · rw [ok']
    exact .inl ⟨p, ok, rfl⟩
  · rw [failed']
    exact .inr ⟨e, e', failed, rfl, here, same⟩

end Source

/-! ## Unused declarations -/

namespace Program

variable {v : View} (p : Program) (f : Findings)

theorem unusedFunctionWarning_view (i : Nat) :
    (p.view v).unusedFunctionWarning i =
      (p.unusedFunctionWarning i).relocate v.move := by
  unfold unusedFunctionWarning
  rw [functionAt_view]
  dsimp only [Function.view, Function.relocate, Ident.relocate]
  cases (p.functionAt i).operator <;> rfl

theorem unusedFunctions_view : (p.view v).unusedFunctions f =
    (p.unusedFunctions f).map (Prod.map id (.relocate v.move)) := by
  unfold unusedFunctions
  simp only [functionIndices_view, unusedFunctionWarning_view, List.map_map]
  rfl

theorem unusedMethods_view (owner : Nat) : (p.view v).unusedMethods f owner =
    (p.unusedMethods f owner).map (Prod.map id (.relocate v.move)) := by
  unfold unusedMethods
  simp only [classAt_view]
  dsimp only [Class.view]
  rw [List.zipIdx_map, List.filter_map, List.map_map, List.map_map]
  rfl

theorem unusedInClass_view (i : Nat) : (p.view v).unusedInClass f i =
    (p.unusedInClass f i).map (Prod.map id (.relocate v.move)) := by
  unfold unusedInClass
  rw [unusedMethods_view, classAt_view, List.map_append, apply_ite (List.map _)]
  rfl

theorem unused_view : (p.view v).unused f =
    (p.unused f).map (Prod.map id (.relocate v.move)) := by
  unfold unused
  rw [unusedFunctions_view, classIndices_view, List.map_append, List.map_flatMap,
    show (p.view v).unusedInClass f = _ from funext (p.unusedInClass_view f)]

end Program

/-! ## Compilations -/

def Compilation.relocate (f : Span → Span) (c : Compilation) : Compilation :=
  { c with
    program := c.program.relocate f
    errors := c.errors.map (.relocate f)
    warnings := c.warnings.map (.relocate f)
    events := c.events.map (.relocate f) }

theorem Program.compile_relocate (p : Program) {move : Span → Span} (keeps : move default = default)
    (settings : Settings) :
    (p.relocate move).compile settings = (p.compile settings).relocate move := by
  have unused : (p.relocate move).unused (p.analyze settings).state.findings =
      (p.unused (p.analyze settings).state.findings).map (Prod.map id (.relocate move)) :=
    p.unused_view (v := .moving move keeps) _
  unfold compile Compilation.relocate
  rw [analyze_relocate p keeps]
  dsimp only [CheckState.relocate]
  rw [unused]
  have classes : (p.relocate move).classes.length = p.classes.length := List.length_map _
  have functions : (p.relocate move).functions.length = p.functions.length := List.length_map _
  have statements : (p.relocate move).statements.length = p.statements.length :=
    List.length_map _
  simp only [classes, functions, statements, List.map_append, List.map_cons, List.map_nil,
    List.map_map, List.length_map, apply_ite (List.map (Warning.relocate move))]
  rfl

/-- A program, and nothing of where its parts stand. -/
def Program.unplaced (p : Program) : Program := p.relocate .forget

theorem Program.unplaced_relocate (p : Program) (f : Span → Span) :
    (p.relocate f).unplaced = p.unplaced := p.relocate_relocate f .forget

/-- Two compilations say the same: of the same program, node by node, but for the places. -/
structure Compilation.Agrees (c c' : Compilation) : Prop where
  program : c.program.unplaced = c'.program.unplaced
  verdict : c.verdict = c'.verdict
  findings : c.findings = c'.findings
  unused : c.unused = c'.unused
  errors : c.errors.map CheckError.cause = c'.errors.map CheckError.cause
  warnings : c.warnings.map Warning.cause = c'.warnings.map Warning.cause

theorem Compilation.agrees_of_relocate {c c' : Compilation}
    (same : c.relocate .forget = c'.relocate .forget) : c.Agrees c' where
  program := congrArg Compilation.program same
  verdict := (congrArg Compilation.verdict same :)
  findings := (congrArg Compilation.findings same :)
  unused := (congrArg Compilation.unused same :)
  errors := by
    have causes := congrArg (fun c : Compilation => c.errors.map CheckError.cause) same
    dsimp only [relocate] at causes
    rwa [List.map_map, List.map_map] at causes
  warnings := by
    have causes := congrArg (fun c : Compilation => c.warnings.map Warning.cause) same
    dsimp only [relocate] at causes
    rwa [List.map_map, List.map_map] at causes

theorem Program.compile_agrees {p q : Program} (same : p.unplaced = q.unplaced)
    (settings : Settings) : (p.compile settings).Agrees (q.compile settings) := by
  refine Compilation.agrees_of_relocate ?_
  have keeps : Span.forget default = default := rfl
  rw [← p.compile_relocate keeps, ← q.compile_relocate keeps]
  exact congrArg (compile · settings) same

/-! ## Sources -/

namespace Source

variable {source source' : Source} {tokens tokens' : List Token}

theorem tokens_ne_nil (lexed : source.tokens = .ok tokens) : tokens ≠ [] := by
  obtain ⟨front, rfl, -⟩ := (tokens_tiled lexed).ended
  exact List.concat_ne_nil _ front

theorem compile_of_parse {p : Program} (parsed : source.parse Parser.program = .ok p)
    (settings : Settings) : source.compile settings = .ok (p.compile settings) := by
  rw [compile, parsed]
  rfl

/-- Two sources with the same tokens, however they are laid out, are refused for the same reason at
the same tokens, or are compiled to the same. -/
theorem layout_independence (lexed : source.tokens = .ok tokens)
    (lexed' : source'.tokens = .ok tokens')
    (same : tokens.map Token.kind = tokens'.map Token.kind) (settings : Settings) :
    (∃ e e' first last, source.compile settings = .error (.syntactic e) ∧
        source'.compile settings = .error (.syntactic e') ∧
        e.cause.unquoted = e'.cause.unquoted ∧
        stretch? tokens first last = some e.span ∧ stretch? tokens' first last = some e'.span) ∨
      ∃ c c', source.compile settings = .ok c ∧ source'.compile settings = .ok c' ∧
        c.Agrees c' := by
  have length : tokens.length = tokens'.length := by simpa using congrArg List.length same
  have present : tokens ≠ [] := tokens_ne_nil lexed
  have present' : tokens' ≠ [] := tokens_ne_nil lexed'
  have read' := parse_laid lexed'
  rw [← same, show numbers lexed' = numbers lexed by rw [numbers, numbers, length]] at read'
  rcases parse_laid lexed with ⟨p, byNumber, parsed⟩ | ⟨e, f, byNumber, refused, here, cause⟩
  · rcases read' with ⟨q, byNumber', parsed'⟩ | ⟨_, _, byNumber', -⟩
    · cases byNumber.symm.trans byNumber'
      refine .inr ⟨_, _, compile_of_parse parsed settings, compile_of_parse parsed' settings, ?_⟩
      refine Program.compile_agrees ?_ settings
      rw [Program.unplaced_relocate, Program.unplaced_relocate]
    · cases byNumber.symm.trans byNumber'
  · rcases read' with ⟨_, byNumber', -⟩ | ⟨_, f', byNumber', refused', here', cause'⟩
    · cases byNumber.symm.trans byNumber'
    · cases byNumber.symm.trans byNumber'
      refine .inl ⟨f, f', min e.span.start (tokens.length - 1), min e.span.stop (tokens.length - 1),
        ?_, ?_, cause.trans cause'.symm, ?_, ?_⟩
      · rw [compile, refused]
        rfl
      · rw [compile, refused']
        rfl
      · rw [here, (tokens_inOrder lexed).stretch?_place present]
      · rw [here', length, (tokens_inOrder lexed').stretch?_place present']

end Source

/-- A call with an argument of the wrong type, and a call after a jump. -/
def oneLine : Source :=
  ⟨"integer f(integer n) \x7b return n; \x7d integer i := f(\"one\"); " ++
    "while (true) \x7b break; f(1); \x7d", none⟩

/-- The same with comments, over several lines. -/
def commented : Source :=
  ⟨"// The identity.\ninteger f(integer n)\n\x7b\n  return n;\n\x7d\n" ++
    "integer i := f(/* not a number */ \"one\");\nwhile (true)\n\x7b\n  break;\n  f(1);\n\x7d\n",
    some "identity"⟩

/-- Where the errors and warnings are. -/
def Compilation.reportSpans (c : Compilation) : List Span × List Span :=
  (c.errors.map CheckError.span, c.warnings.map Warning.span)

theorem oneLine_layout_independence : ∃ c c' : Compilation,
    oneLine.compile ⟨true, true⟩ = .ok c ∧ commented.compile ⟨true, true⟩ = .ok c' ∧
      c.reportSpans = ([⟨48, 56⟩], [⟨80, 85⟩]) ∧ c'.reportSpans = ([⟨67, 94⟩], [⟨122, 127⟩]) ∧
      c.Agrees c' := by
  have lexed : oneLine.tokens.toOption.isSome ∧ commented.tokens.toOption.isSome ∧
      oneLine.tokens.toOption.map (·.map Token.kind) =
        commented.tokens.toOption.map (·.map Token.kind) := by
    decide +kernel
  have run : (oneLine.compile ⟨true, true⟩).toOption.map Compilation.reportSpans =
      some ([⟨48, 56⟩], [⟨80, 85⟩]) := by
    decide +kernel
  have run' : (commented.compile ⟨true, true⟩).toOption.map Compilation.reportSpans =
      some ([⟨67, 94⟩], [⟨122, 127⟩]) := by
    decide +kernel
  obtain ⟨some_, some_', same⟩ := lexed
  obtain ⟨tokens, lexed⟩ := Option.isSome_iff_exists.1 some_
  obtain ⟨tokens', lexed'⟩ := Option.isSome_iff_exists.1 some_'
  rw [lexed, lexed', Option.map_some, Option.map_some, Option.some_inj] at same
  obtain ⟨c, compiled, spans⟩ := Option.map_eq_some_iff.1 run
  obtain ⟨c', compiled', spans'⟩ := Option.map_eq_some_iff.1 run'
  rcases Source.layout_independence (ok_of_toOption lexed) (ok_of_toOption lexed') same
    ⟨true, true⟩ with ⟨e, _, _, _, refused, -⟩ | ⟨d, d', found, found', agree⟩
  · rw [ok_of_toOption compiled] at refused
    cases refused
  · cases (ok_of_toOption compiled).symm.trans found
    cases (ok_of_toOption compiled').symm.trans found'
    exact ⟨c, c', found, found', spans, spans', agree⟩

end ClassLang
