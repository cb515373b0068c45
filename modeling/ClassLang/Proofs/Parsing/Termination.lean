import ClassLang.Proofs.Parsing.Progress
import ClassLang.Proofs.Parsing.Yields

/-!
Parsing ends, on every list of tokens.

* `Parser.parsing_ends`: every run is finite and stays among the tokens, and what is read as an
  expression, a type, a statement or a member has a token.
* `Parser.startsDeclaration_scan`: the search for the bracket behind a generic type ends, and never
  closes a bracket that is not open.
-/

namespace ClassLang

namespace Parser

variable {α : Type}

/-- Wherever a parser starts in some tokens, it comes to an end without leaving them, and the end of
the source stays in front of it. -/
def Finishes (p : Parser α) (stream : List Token) : Prop :=
  ∀ s, s.cursor.tokens <:+ stream → ∃ passed, Execution p s passed (p.run s) ∧
    ∀ t ∈ passed ++ [(p.run s).2], t.cursor.tokens <:+ stream ∧ t.cursor.Ended

/-- Whatever a parser accepts has a token. -/
def Consumes (p : Parser α) : Prop :=
  ∀ s a t, s.cursor.Ended → p.run s = (.ok a, t) → t.cursor.remaining < s.cursor.remaining

/-- The steps of a recursion beyond the tokens that are left are not taken. -/
def Unbounded (rule : Parser α → Parser α) : Prop :=
  ∀ stop k s, s.cursor.Ended → s.cursor.remaining < k →
    (rule^[k] stop).run s = (recursive rule).run s

theorem Finishes.of_ends {p : Parser α} {stream : List Token}
    (h : ∀ n, Ends p p (Left n) fun _ => Left n)
    (ended : ∀ c : Cursor, c.tokens <:+ stream → c.Ended) : Finishes p stream := by
  intro s sub
  obtain ⟨-, ⟨passed, run⟩, -⟩ := h (s.cursor.remaining + 1) s ⟨ended _ sub, Nat.lt_succ_self _⟩
  refine ⟨passed, run, fun t ht => ?_⟩
  have within : t.cursor.tokens <:+ s.cursor.tokens := by
    rcases List.mem_append.1 ht with among | last
    · exact run.suffix.1 t among
    · rw [List.mem_singleton.1 last]
      exact run.suffix.2
  exact ⟨within.trans sub, ended _ (within.trans sub)⟩

theorem Consumes.of_consuming {p : Parser α} (h : ∀ n, Consuming n p p) : Consumes p := by
  intro s a t ended run
  exact ((h _ s.cursor.remaining (Nat.lt_succ_self _) s ⟨ended, Nat.lt_succ_self _⟩).2.2 a t run).2

theorem Unbounded.of_consuming {rule : Parser α → Parser α}
    (h : ∀ k p q, Consuming k p q → Consuming (k + 1) (rule p) (rule q)) : Unbounded rule := by
  intro stop k s ended enough
  have agree := iterate_consuming (n := k) (fun j _ => h j) (fun j _ => h j) stop k (Nat.le_refl k)
  exact (agree _ enough s ⟨ended, Nat.lt_succ_self _⟩).1.symm

/-! ## The start -/

theorem endTokens_ended (tokens : List Token) (source : Span) :
    ∃ last, (endTokens tokens source).getLast? = some last ∧ last.kind = .eof := by
  unfold endTokens
  split
  · next last final =>
    split
    · next isEnd => exact ⟨last, final, isEnd⟩
    · exact ⟨_, List.getLast?_concat, rfl⟩
  · exact ⟨_, rfl, rfl⟩

theorem ofTokens_ended (tokens : List Token) (source : Span) :
    (Cursor.ofTokens tokens source).Ended := by
  rw [Cursor.Ended, Cursor.ofTokens_tokens]
  exact endTokens_ended tokens source

theorem ended_of_suffix {tokens : List Token} {source : Span} (c : Cursor)
    (sub : c.tokens <:+ endTokens tokens source) : c.Ended := by
  rw [← Cursor.ofTokens_tokens] at sub
  exact (ofTokens_ended tokens source).of_suffix sub

/-! ## The search for a closing bracket -/

/-- A search that has come to a place with so many brackets open, and what it finds. Only an open
bracket is closed. -/
inductive Scan (c : Cursor) : Nat → Int → Bool → Prop where
  | opens {n : Nat} {depth : Int} {found : Bool} :
      (c.lookahead n).kind = .punct .openBracket → Scan c (n + 1) (depth + 1) found →
      Scan c n depth found
  | closes {n : Nat} {depth : Int} {found : Bool} :
      (c.lookahead n).kind = .punct .closeBracket → 0 < depth - 1 →
      Scan c (n + 1) (depth - 1) found → Scan c n depth found
  | closed {n : Nat} {depth : Int} :
      (c.lookahead n).kind = .punct .closeBracket → depth - 1 = 0 →
      Scan c n depth (match (c.lookahead (n + 1)).kind with | .ident _ => true | _ => false)
  | barred {n : Nat} {depth : Int} :
      (c.lookahead n).kind ∈
        [.punct .semicolon, .punct .openBrace, .punct .closeBrace, .eof] → Scan c n depth false
  | passes {n : Nat} {depth : Int} {found : Bool} :
      (c.lookahead n).kind ∉ [.punct .openBracket, .punct .closeBracket, .punct .semicolon,
        .punct .openBrace, .punct .closeBrace, .eof] →
      Scan c (n + 1) depth found → Scan c n depth found

theorem lookahead_append {c : Cursor} {front rest : List Token} {token : Token}
    (eq : c.tokens = front ++ token :: rest) : c.lookahead front.length = token := by
  have count : c.remaining + 1 = front.length + (rest.length + 1) := by
    have := congrArg List.length eq
    simpa [Cursor.tokens, Cursor.remaining] using this
  rw [Cursor.lookahead, eq, Nat.min_eq_left (by omega)]
  simp

/-- Behind a token that is not the end there is another. -/
theorem rest_ne_nil {c : Cursor} (ended : c.Ended) {front rest : List Token} {token : Token}
    (eq : c.tokens = front ++ token :: rest) (going : token.kind ≠ .eof) : rest ≠ [] := by
  rintro rfl
  obtain ⟨last, final, isEnd⟩ := ended
  rw [eq, List.getLast?_concat] at final
  exact going (Option.some.inj final ▸ isEnd)

theorem nameAfterBrackets_scan {c : Cursor} (ended : c.Ended) (rest : List Token) :
    ∀ (front : List Token) (depth : Nat), 0 < depth → rest ≠ [] → c.tokens = front ++ rest →
      Scan c front.length depth (nameAfterBrackets depth rest) := by
  induction rest with
  | nil => exact fun _ _ _ present => absurd rfl present
  | cons token rest ih =>
    intro front depth positive _ eq
    have here := lookahead_append eq
    have next : c.tokens = (front ++ [token]) ++ rest := by simp [eq]
    have further (depth : Nat) (positive : 0 < depth) (going : token.kind ≠ .eof) :
        Scan c (front.length + 1) depth (nameAfterBrackets depth rest) := by
      simpa using ih (front ++ [token]) depth positive (rest_ne_nil ended eq going) next
    unfold nameAfterBrackets
    split
    · next kind =>
      refine .opens (by rw [here, kind]) ?_
      exact_mod_cast further (depth + 1) (Nat.succ_pos depth) (by rw [kind]; nofun)
    · next kind =>
      split
      · next shallow =>
        obtain rfl : depth = 1 := by omega
        obtain ⟨after, later, rfl⟩ := List.exists_cons_of_ne_nil
          (rest_ne_nil ended eq (by rw [kind]; nofun))
        have behind : c.lookahead (front.length + 1) = after := by
          simpa using lookahead_append next
        have closed : Scan c front.length (1 : Nat) _ := .closed (by rw [here, kind]) rfl
        rw [behind] at closed
        rw [List.head?_cons, Option.map_some]
        cases name : after.kind <;> simpa only [name] using closed
      · next deep =>
        refine .closes (by rw [here, kind]) (by omega) ?_
        have inner := further (depth - 1) (by omega) (by rw [kind]; nofun)
        rwa [Nat.cast_sub (by omega)] at inner
    · next kind => exact .barred (by rw [here, kind]; decide)
    · next kind => exact .barred (by rw [here, kind]; decide)
    · next kind => exact .barred (by rw [here, kind]; decide)
    · next kind => exact .barred (by rw [here, kind]; decide)
    · next noOpen noClose noSemicolon noBrace noBrace' noEnd =>
      refine .passes ?_ (further depth positive noEnd)
      rw [here]
      simp only [List.mem_cons, List.not_mem_nil, or_false]
      rintro (h | h | h | h | h | h)
      exacts [noOpen h, noClose h, noSemicolon h, noBrace h, noBrace' h, noEnd h]

/-- The search starts with no bracket open, at the one behind the name. -/
theorem startsDeclaration_scan {s : ParserState} (ended : s.cursor.Ended) :
    ∃ found, startsDeclaration.run s = (.ok found, s) ∧
      ((s.cursor.lookahead 1).kind = .punct .openBracket → Scan s.cursor 1 0 found) := by
  refine ⟨_, rfl, fun bracket => ?_⟩
  have going {token : Token} (eq : s.cursor.lookahead 1 = token) : token.kind ≠ .eof := by
    rw [← eq, bracket]
    nofun
  rcases later : s.cursor.later with _ | ⟨next, rest⟩
  · have alone : s.cursor.lookahead 1 = s.cursor.current := by
      simp [Cursor.lookahead, Cursor.remaining, Cursor.tokens, later]
    have listed : s.cursor.tokens = [] ++ s.cursor.current :: s.cursor.later := rfl
    exact absurd later (rest_ne_nil ended listed (going alone))
  · have listed : s.cursor.tokens = [s.cursor.current] ++ next :: rest := by
      rw [Cursor.tokens, later]
      rfl
    have behind : s.cursor.lookahead 1 = next := lookahead_append listed
    have inner := nameAfterBrackets_scan ended rest [s.cursor.current, next] 1 Nat.one_pos
      (rest_ne_nil ended listed (going behind)) listed
    rw [behind] at bracket
    simp only [bracket]
    exact .opens (by rw [behind, bracket]) inner

/-! ## All of it -/

theorem parsing_ends (tokens : List Token) (source : Span) :
    (ParserState.start tokens source).cursor.tokens = endTokens tokens source ∧
    ((Finishes expression (endTokens tokens source) ∧
        Finishes expression.toEnd (endTokens tokens source)) ∧
      (Finishes typeRef (endTokens tokens source) ∧
        Finishes typeRef.toEnd (endTokens tokens source)) ∧
      (Finishes block (endTokens tokens source) ∧
        Finishes block.toEnd (endTokens tokens source)) ∧
      Finishes program (endTokens tokens source) ∧
        Finishes program.toEnd (endTokens tokens source)) ∧
    (Unbounded (typeWith · false) ∧ Unbounded assignment ∧ Unbounded statementWith ∧
      Unbounded (classWith statement)) ∧
    (Consumes expression ∧ Consumes typeRef ∧ Consumes returnType ∧ Consumes statement ∧
      Consumes (classDecl statement) ∧
      ∀ owner read, Consumes (member statement owner read)) ∧
    ∀ s, s.cursor.tokens <:+ endTokens tokens source → ∃ found,
      startsDeclaration.run s = (.ok found, s) ∧
      ((s.cursor.lookahead 1).kind = .punct .openBracket → Scan s.cursor 1 0 found) := by
  have ended : ∀ c : Cursor, c.tokens <:+ endTokens tokens source → c.Ended := ended_of_suffix
  have finishes {α : Type} {p : Parser α} (h : ∀ n, Ends p p (Left n) fun _ => Left n) :
      Finishes p (endTokens tokens source) ∧ Finishes p.toEnd (endTokens tokens source) :=
    ⟨.of_ends h ended, .of_ends (fun n => toEnd_steady (h n)) ended⟩
  refine ⟨Cursor.ofTokens_tokens tokens source, ⟨?_, ?_, ?_, ?_⟩, ⟨?_, ?_, ?_, ?_⟩,
    ⟨?_, ?_, ?_, ?_, ?_, ?_⟩, fun s sub => startsDeclaration_scan (ended _ sub)⟩
  · exact finishes fun n => expression_consuming.steady (Nat.le_refl n)
  · exact finishes fun _ => typeRef_steady
  · exact finishes fun n => block_consuming.steady (Nat.le_refl n)
  · exact finishes fun _ => program_steady
  · exact .of_consuming fun _ _ _ => typeWith_consuming false
  · exact .of_consuming fun _ _ _ => assignment_consuming
  · exact .of_consuming fun _ _ _ => statementWith_consuming
  · exact .of_consuming fun _ _ _ => classWith_consuming statement_consuming
  · exact .of_consuming fun _ => expression_consuming
  · exact .of_consuming fun _ => typeRef_consuming
  · exact .of_consuming fun n => (typeWith_consuming true typeRef_consuming).mono (Nat.le_succ n)
  · exact .of_consuming fun _ => statement_consuming
  · exact .of_consuming fun n => (classDecl_consuming statement_consuming).mono (Nat.le_succ n)
  · exact fun owner read => .of_consuming fun n =>
      (member_consuming owner read statement_consuming).mono (Nat.le_succ n)

/-- The brackets of a generic type in front of a declared name. -/
theorem parsing_ends_bracketed :
    let kinds : List TokenKind := [.ident "Box", .punct .openBracket, .ident "Box",
      .punct .openBracket, .keyword .kwArray, .punct .closeBracket, .punct .closeBracket,
      .ident "b", .punct .semicolon]
    let s := ParserState.start (kinds.map (Token.mk · "" ⟨0, 0⟩)) ⟨0, 0⟩
    Scan s.cursor 1 0 true := by
  intro kinds s
  obtain ⟨found, run, scan⟩ :=
    (parsing_ends (kinds.map (Token.mk · "" ⟨0, 0⟩)) ⟨0, 0⟩).2.2.2.2 s (List.suffix_refl _)
  have read : startsDeclaration.run s = (.ok true, s) := rfl
  obtain rfl : true = found := Except.ok.inj (congrArg Prod.fst (read.symm.trans run))
  exact scan rfl

end Parser

end ClassLang
