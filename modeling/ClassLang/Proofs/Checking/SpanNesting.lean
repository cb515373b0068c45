import ClassLang.Proofs.Checking.LayoutIndependence
import ClassLang.Proofs.Parsing.Reports
import ClassLang.Proofs.Parsing.StatementLandings
import ClassLang.Proofs.Parsing.Termination
import ClassLang.Proofs.Parsing.Yields

/-!
Places in a source. What is read from the tokens by number stands on numbers in order; laid out as the
source is, it stands from the start of a token to the end of one. A place that is reported later is one
of the program, for the program would be reported on alike if all other places were others.

* `Source.spans_nest`: where the nodes of a program and the reports on a source stand.
-/

namespace ClassLang

/-! ## Numbered tokens -/

section Numbered

variable {kinds : List TokenKind}

theorem numbered_getElem? {k : Nat} {token : Token} (found : (numbered kinds)[k]? = some token) :
    token.span = ⟨k, k⟩ := by
  rw [numbered, List.getElem?_map, List.getElem?_zipIdx, Option.map_map] at found
  obtain ⟨kind, -, rfl⟩ := Option.map_eq_some_iff.1 found
  simp

theorem start_at (ended : kinds.getLast? = some .eof) (source : Span) :
    (ParserState.start (numbered kinds) source).At (kinds.length - 1) 0 := by
  have whole : (Cursor.ofTokens (numbered kinds) source).tokens = numbered kinds := by
    rw [Cursor.ofTokens_tokens, endTokens_of_ended]
    rw [kinds_numbered, ended]
  have length : (Cursor.ofTokens (numbered kinds) source).remaining + 1 = kinds.length := by
    have := congrArg List.length whole
    simpa [Cursor.tokens, Cursor.remaining, numbered] using this
  refine ⟨fun k token found => ?_, ?_, Parser.ofTokens_ended _ _,
    fun k read => absurd read.symm (Nat.succ_ne_zero k),
    fun _ listed => absurd listed List.not_mem_nil, fun _ listed => absurd listed List.not_mem_nil⟩
  · change (Cursor.ofTokens (numbered kinds) source).tokens[k]? = some token at found
    rw [whole] at found
    rw [numbered_getElem? found, Nat.zero_add]
  · change 0 + (Cursor.ofTokens (numbered kinds) source).remaining = _
    omega

theorem runToEnd_lands (ended : kinds.getLast? = some .eof) (source : Span) :
    match Parser.program.runToEnd (numbered kinds) source with
    | .ok p => Between 0 (kinds.length - 1) p.spots
    | .error e => e.span.start ≤ e.span.stop := by
  have out := Parser.program_toEnd_lands _ (start_at ended source)
  unfold Parser.runToEnd Parser.runIn
  change Parser.Landed _ _ _ (Parser.program.toEnd.run (.start (numbered kinds) source)) at out
  change match (Parser.program.toEnd.run (.start (numbered kinds) source)).1 with
    | .ok p => Between 0 (kinds.length - 1) p.spots
    | .error e => e.span.start ≤ e.span.stop
  generalize Parser.program.toEnd.run (.start (numbered kinds) source) = final at out ⊢
  cases out with
  | reached _ _ there => exact there
  | failed proper => exact proper

end Numbered

namespace Source

variable {source : Source} {tokens : List Token}

/-! ## Places in a source -/

/-- A place from the start of a token to the end of one, around all that is below it. -/
structure Places (source : Source) (tokens : List Token) (spot : Spot) : Prop where
  admitted : source.admits spot.span = true
  starts : ∃ token ∈ tokens, token.kind ≠ .eof ∧ token.span.start = spot.span.start
  stops : ∃ token ∈ tokens, token.kind ≠ .eof ∧ token.span.stop = spot.span.stop
  holds : ∀ inner ∈ spot.below, inner.Within spot.span

theorem admits_default (source : Source) : source.admits default = true := by
  have start : isBoundary source.chars 0 = true := isBoundary_iff.2 ⟨[], source.chars, rfl, rfl⟩
  change (decide (0 ≤ 0) && isBoundary source.chars 0 && isBoundary source.chars 0) = true
  rw [start]
  rfl

/-- From the start of a token to the end of the same or a later one. -/
theorem admits_place (lexed : source.tokens = .ok tokens) {s : Span} (proper : s.start ≤ s.stop) :
    source.admits ((tokens_inOrder lexed).layout.place s) = true := by
  have positive := List.length_pos_iff.2 (tokens_ne_nil lexed)
  have first : min s.start (tokens.length - 1) < tokens.length := by omega
  have last : min s.stop (tokens.length - 1) < tokens.length := by omega
  rw [InOrder.place_eq, offsetAt_clamped first, offsetAt_clamped last]
  have atFirst := (tokens_tiled lexed).admitted _ (List.getElem_mem first)
  have atLast := (tokens_tiled lexed).admitted _ (List.getElem_mem last)
  simp only [admits, Bool.and_eq_true, decide_eq_true_eq] at atFirst atLast ⊢
  refine ⟨⟨?_, atFirst.1.2⟩, atLast.2⟩
  rcases Nat.eq_or_lt_of_le (show min s.start (tokens.length - 1) ≤ min s.stop (tokens.length - 1) by
    omega) with same | before
  · simp only [same]
    exact atLast.1.1
  · have after := List.pairwise_iff_getElem.1 (tokens_inOrder lexed) _ _ first last before
    exact Nat.le_trans atFirst.1.1 after.2

/-- What stands on numbers in order has its place in the source. -/
theorem places_relocate (lexed : source.tokens = .ok tokens) {spot : Spot}
    (on : spot.On 0 (tokens.length - 1)) :
    source.Places tokens (spot.relocate (tokens_inOrder lexed).layout.place) := by
  obtain ⟨front, whole, proper⟩ := (tokens_tiled lexed).ended
  have length : tokens.length = front.length + 1 := by
    rw [whole, List.length_append, List.length_singleton]
  have some_ (i : Nat) (lt : i < tokens.length - 1) :
      ∃ token ∈ tokens, token.kind ≠ .eof ∧ token.span.start = offsetAt (·.span.start) tokens i ∧
        token.span.stop = offsetAt (·.span.stop) tokens i := by
    have inside : i < tokens.length := by omega
    have start : offsetAt (·.span.start) tokens i = tokens[i].span.start := offsetAt_eq inside
    have stop : offsetAt (·.span.stop) tokens i = tokens[i].span.stop := offsetAt_eq inside
    refine ⟨tokens[i], List.getElem_mem inside, ?_, start.symm, stop.symm⟩
    have early : i < front.length := by omega
    simp only [whole, List.getElem_append_left early]
    exact (proper _ (List.getElem_mem early)).1
  have := on.proper
  have := on.stops
  obtain ⟨first, firstListed, firstMore, starts, -⟩ := some_ spot.span.start (by omega)
  obtain ⟨last, lastListed, lastMore, -, stops⟩ := some_ spot.span.stop (by omega)
  refine ⟨admits_place lexed on.proper, ⟨first, firstListed, firstMore, starts⟩,
    ⟨last, lastListed, lastMore, stops⟩, List.forall_mem_map.2 fun inner below => ?_⟩
  have within := on.holds inner below
  exact ⟨(tokens_inOrder lexed).layout.start_mono within.1,
    (tokens_inOrder lexed).layout.stop_mono within.2⟩

theorem tokens_last (lexed : source.tokens = .ok tokens) :
    (tokens.map Token.kind).getLast? = some .eof := by
  obtain ⟨front, whole, -⟩ := (tokens_tiled lexed).ended
  rw [whole, List.map_append, List.map_singleton, List.getLast?_concat]

theorem program_places {p : Program} (parsed : source.parse Parser.program = .ok p) :
    ∃ tokens, source.tokens = .ok tokens ∧ ∀ spot ∈ p.spots, source.Places tokens spot := by
  obtain ⟨tokens, _, lexed, -⟩ := Source.parse_eq_ok.1 parsed
  refine ⟨tokens, lexed, ?_⟩
  have landed := runToEnd_lands (tokens_last lexed) (numbers lexed)
  rw [List.length_map] at landed
  rcases parse_laid lexed with ⟨q, read, parsed'⟩ | ⟨_, _, -, refused, -⟩
  · rw [read] at landed
    cases parsed.symm.trans parsed'
    rw [Program.spots_relocate]
    exact List.forall_mem_map.2 fun spot listed => places_relocate lexed (landed spot listed)
  · cases parsed.symm.trans refused

/-! ## Reports -/

/-- The place of an error is that of some characters, or of a stretch of tokens. -/
theorem error_admitted {e : SourceError} (refused : source.parse Parser.program = .error e) :
    source.admits e.span = true := by
  cases lexed : source.tokens with
  | error fault =>
    have read : source.parse Parser.program = .error (.lexical fault) := by
      rw [Source.parse, lexed]
      rfl
    cases refused.symm.trans read
    exact (fault_span lexed).2
  | ok tokens =>
    have landed := runToEnd_lands (tokens_last lexed) (numbers lexed)
    rcases parse_laid lexed with ⟨_, -, parsed⟩ | ⟨e', f, read, refused', here, -⟩
    · cases refused.symm.trans parsed
    · rw [read] at landed
      cases refused.symm.trans refused'
      change source.admits f.span = true
      rw [here]
      exact admits_place lexed landed

end Source

theorem forall_mem_of_map_eq {α : Type} {f : α → α} {xs : List α} (same : xs.map f = xs) :
    ∀ x ∈ xs, f x = x :=
  List.map_inj_left.1 (same.trans (List.map_id xs).symm)

/-- Where all that is not a place of the program were at the start of the source, the program would be
reported on in the same way. -/
theorem Program.reports_admitted {source : Source} {p : Program}
    (placed : ∀ spot ∈ p.spots, source.admits spot.span = true) (settings : Settings) :
    (∀ e ∈ (p.compile settings).errors, source.admits e.span = true) ∧
      ∀ w ∈ (p.compile settings).warnings, source.admits w.span = true := by
  let move (s : Span) : Span := if source.admits s then s else default
  have moved (s : Span) (stays : move s = s) : source.admits s = true := by
    by_cases admitted : source.admits s = true
    · exact admitted
    · rw [← stays, show move s = default from if_neg admitted]
      exact source.admits_default
  have keeps : move default = default := if_pos source.admits_default
  have fixed : p.relocate move = p :=
    p.relocate_eq_self fun spot listed => if_pos (placed spot listed)
  have same : p.compile settings = (p.compile settings).relocate move := by
    rw [← p.compile_relocate keeps, fixed]
  have errors : (p.compile settings).errors.map (.relocate move) = (p.compile settings).errors :=
    (congrArg Compilation.errors same).symm
  have warnings : (p.compile settings).warnings.map (.relocate move) =
      (p.compile settings).warnings := (congrArg Compilation.warnings same).symm
  exact ⟨fun e listed => moved _ (congrArg CheckError.span (forall_mem_of_map_eq errors e listed)),
    fun w listed => moved _ (congrArg Warning.span (forall_mem_of_map_eq warnings w listed))⟩

def CompileError.span : CompileError → Span
  | lexical e => e.span
  | syntactic e => e.span
  | semantic e => e.span

/-- Each node of a program stands from the start of a token to the end of one, and all that is below it
stands inside; the errors and warnings about a source are places of it. -/
theorem Source.spans_nest (source : Source) (settings : Settings) :
    (∀ p, source.parse Parser.program = .ok p → ∃ tokens, source.tokens = .ok tokens ∧
      Sited p.nodes p.spots ∧ ∀ spot ∈ p.spots, source.Places tokens spot) ∧
    (∀ handler, ∃ errors, (source.parseFile handler).2.errors = handler.errors ++ errors ∧
      (source.parseFile handler).2.warnings = handler.warnings ∧
      ∀ e ∈ errors, source.admits e.span = true) ∧
    ∀ c, source.compile settings = .ok c → (∀ e ∈ c.errors, source.admits e.span = true) ∧
      ∀ w ∈ c.warnings, source.admits w.span = true := by
  refine ⟨fun p parsed => ?_, fun handler => ?_, fun c compiled => ?_⟩
  · obtain ⟨tokens, lexed, places⟩ := program_places parsed
    exact ⟨tokens, lexed, p.nodes_spots, places⟩
  · rw [parseFile_eq]
    cases parsed : source.parse Parser.program with
    | ok p => exact ⟨[], (List.append_nil _).symm, rfl, fun _ => nofun⟩
    | error e =>
      refine ⟨[e.report], rfl, rfl, List.forall_mem_singleton.2 ?_⟩
      have admitted := error_admitted parsed
      cases e <;> exact admitted
  · cases parsed : source.parse Parser.program with
    | error e =>
      rw [compile, parsed] at compiled
      cases compiled
    | ok p =>
      cases (compile_of_parse parsed settings).symm.trans compiled
      obtain ⟨tokens, -, places⟩ := program_places parsed
      exact p.reports_admitted (fun spot listed => (places spot listed).admitted) settings

/-- A chain of comparisons with a copied operand, and a compound assignment with a copied target. -/
def chained : Source :=
  ⟨"integer i := 1;\nif (0 < i <= (2)) \x7b i += j; \x7d", none⟩

/-- The second comparison stands from the copied operand to the number in parentheses. -/
theorem chained_spans_nest : ∃ p c tokens, chained.parse Parser.program = .ok p ∧
    chained.compile ⟨true, true⟩ = .ok c ∧ chained.tokens = .ok tokens ∧
    (∀ spot ∈ p.spots, chained.Places tokens spot) ∧
    ⟨⟨24, 31⟩, [⟨24, 25⟩, ⟨24, 25⟩, ⟨30, 31⟩]⟩ ∈ p.spots ∧
    c.reportSpans = ([⟨41, 42⟩], []) ∧ ∀ e ∈ c.errors, chained.admits e.span = true := by
  have read : (chained.parse Parser.program).toOption.map (fun p =>
      p.spots.contains ⟨⟨24, 31⟩, [⟨24, 25⟩, ⟨24, 25⟩, ⟨30, 31⟩]⟩) = some true := by
    decide +kernel
  have run : (chained.compile ⟨true, true⟩).toOption.map Compilation.reportSpans =
      some ([⟨41, 42⟩], []) := by
    decide +kernel
  obtain ⟨p, parsed, listed⟩ := Option.map_eq_some_iff.1 read
  obtain ⟨c, compiled, spans⟩ := Option.map_eq_some_iff.1 run
  obtain ⟨places, -, reports⟩ := Source.spans_nest chained ⟨true, true⟩
  obtain ⟨tokens, lexed, -, nested⟩ := places p (ok_of_toOption parsed)
  exact ⟨p, c, tokens, ok_of_toOption parsed, ok_of_toOption compiled, lexed, nested,
    List.mem_of_elem_eq_true listed, spans, (reports c (ok_of_toOption compiled)).1⟩

end ClassLang
