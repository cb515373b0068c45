import ClassLang.Proofs.Lexing.Spelling
import ClassLang.Proofs.Lexing.Lossless
import ClassLang.Proofs.Parsing.Runs

/-!
Tokens do not depend on the space around them. A token is read from its own characters: its end may have
been found by a look at what follows, but what follows could not have been read with it, so in front of
a blank, or at the end of the text, it ends at the same place.

* `scan_alone`: what was read in front of some text is read in front of a blank, and of nothing.
* `Source.tokens_respaced`: the tokens of a source one by one, and the source with other gaps.
-/

namespace ClassLang

/-! ## Blanks -/

/-- Whether a text is empty or starts with a blank. -/
def startsBlank (rest : List Char) : Bool := rest.head?.all isBlank

theorem not_of_isBlank {p : Char → Bool}
    (table : ([32, 9, 10, 11, 12, 13] ++ wideBlanks).all (fun n => !p (Char.ofNat n)) = true)
    {c : Char} (blank : isBlank c = true) : p c = false := by
  have listed : c.toNat ∈ [32, 9, 10, 11, 12, 13] ++ wideBlanks := by
    simp only [isBlank, Bool.or_eq_true, Bool.and_eq_true, beq_iff_eq, decide_eq_true_eq,
      List.contains_iff_mem] at blank
    rcases blank with (rfl | narrow) | wide
    · decide
    · have few : c.toNat = 9 ∨ c.toNat = 10 ∨ c.toNat = 11 ∨ c.toNat = 12 ∨ c.toNat = 13 := by omega
      rcases few with few | few | few | few | few <;> simp [few]
    · exact List.mem_append_right _ wide
  have entry := List.all_eq_true.1 table c.toNat listed
  rwa [Char.ofNat_toNat, Bool.not_eq_true'] at entry

theorem head?_of_startsBlank {p : Char → Bool} {rest : List Char}
    (table : ([32, 9, 10, 11, 12, 13] ++ wideBlanks).all (fun n => !p (Char.ofNat n)) = true)
    (blank : startsBlank rest = true) : rest.head?.any p = false := by
  cases rest with
  | nil => rfl
  | cons c rest => exact not_of_isBlank table blank

theorem continuesWord_of_startsBlank {rest : List Char} (blank : startsBlank rest = true) :
    continuesWord rest = false :=
  head?_of_startsBlank (by decide +kernel) blank

theorem endsMark_of_startsBlank {rest : List Char} (blank : startsBlank rest = true) :
    endsMark rest = true := by
  rw [endsMark, head?_of_startsBlank (by decide) blank]
  rfl

theorem fraction_of_head {rest : List Char} (point : rest.head?.any (· == '.') = false) :
    fraction rest = ([], rest) := by
  unfold fraction
  split
  · cases point
  · rfl

theorem endsWord_of_startsBlank {rest : List Char} (blank : startsBlank rest = true) :
    endsWord rest = true := by
  refine endsWord_iff.2 ⟨continuesWord_of_startsBlank blank, fun quote => ?_,
    fraction_of_head (head?_of_startsBlank (by decide) blank)⟩
  have other : rest.head?.any (· == '"') = false := head?_of_startsBlank (by decide) blank
  rw [quote] at other
  cases other

/-! ## Numbers -/

section

variable {text part lexeme rest rest' : List Char} {value : Literal}

theorem fraction_local (read : fraction text = (part, rest))
    (digit : rest'.head?.any Char.isDigit = false) (point : rest'.head?.any (· == '.') = false) :
    fraction (part ++ rest') = (part, rest') := by
  unfold fraction at read
  split at read
  · next d tail =>
    split at read
    · next isDigit =>
      cases read
      rw [List.takeWhile_cons_of_pos isDigit]
      have digits := List.all_eq_true.1 (List.all_takeWhile (p := Char.isDigit) (l := tail))
      exact fraction_of_digits (List.forall_mem_cons.2 ⟨isDigit, digits⟩) digit
    · cases read
      exact fraction_of_head point
  · cases read
    exact fraction_of_head point

theorem exponent_of_head (mark : rest'.head?.any (fun c => c = 'e' || c = 'E') = false) :
    exponent rest' = ([], rest') := by
  unfold exponent
  split
  · next e d tail => rw [if_neg (by simpa using mark)]
  · rfl

theorem exponent_local (read : exponent text = (part, rest))
    (digit : rest'.head?.any Char.isDigit = false)
    (mark : rest'.head?.any (fun c => c = 'e' || c = 'E') = false) :
    exponent (part ++ rest') = (part, rest') := by
  have digits (ds : List Char) : (ds.takeWhile Char.isDigit ++ rest').takeWhile Char.isDigit =
      ds.takeWhile Char.isDigit ∧ (ds.takeWhile Char.isDigit ++ rest').dropWhile Char.isDigit = rest' :=
    takeWhile_append_of_stop (List.all_eq_true.1 List.all_takeWhile) digit
  unfold exponent at read
  split at read
  · next e d tail =>
    split at read
    · next isMark =>
      split at read
      · next isDigit =>
        cases read
        obtain ⟨taken, dropped⟩ := digits tail
        simp [exponent, isMark, isDigit, taken, dropped]
      · next notDigit =>
        split at read
        · next signed =>
          cases read
          obtain ⟨sign, more⟩ := Bool.and_eq_true_iff.1 signed
          cases tail with
          | nil => cases more
          | cons f tail =>
            have isDigit : f.isDigit = true := more
            obtain ⟨taken, dropped⟩ := digits tail
            simp [exponent, isMark, notDigit, sign, isDigit, taken, dropped]
        · cases read
          exact exponent_of_head mark
    · cases read
      exact exponent_of_head mark
  · cases read
    exact exponent_of_head mark

theorem head?_fraction {p : Char → Bool} (point : p '.' = false) (text : List Char) :
    (fraction text).1.head?.any p = false := by
  unfold fraction
  split
  · split
    · exact point
    · rfl
  · rfl

theorem head?_exponent {p : Char → Bool} (marks : p 'e' = false ∧ p 'E' = false)
    (text : List Char) : (exponent text).1.head?.any p = false := by
  have mark {e : Char} (isMark : (e = 'e' || e = 'E') = true) : p e = false := by
    rw [Bool.or_eq_true, decide_eq_true_eq, decide_eq_true_eq] at isMark
    rcases isMark with rfl | rfl
    · exact marks.1
    · exact marks.2
  unfold exponent
  split
  · split
    · next isMark =>
      split
      · exact mark isMark
      · split
        · exact mark isMark
        · rfl
    · rfl
  · rfl

/-- Whether a character could go on with a number of either base, but for the imaginary unit. -/
def continuesNumeral (c : Char) : Bool := isHexDigit c || c == '.' || c == 'x' || c == 'X'

theorem stop_of_continuesNumeral {p : Char → Bool} (goesOn : ∀ c, p c = true → continuesNumeral c = true)
    (stop : rest.head?.any continuesNumeral = false) : rest.head?.any p = false := by
  cases rest with
  | nil => rfl
  | cons c rest =>
    rw [List.head?_cons, Option.any_some] at stop ⊢
    by_contra holds
    rw [goesOn c (Bool.not_eq_false _ ▸ holds)] at stop
    cases stop

/-- A decimal number is read again from its three parts. -/
theorem numeral_parts {first : Char} (isDigit : first.isDigit = true) (tail : List Char)
    (stop : rest'.head?.any continuesNumeral = false) :
    let whole := (first :: tail).takeWhile Char.isDigit
    let places := fraction ((first :: tail).dropWhile Char.isDigit)
    let power := exponent places.2
    numeral (whole ++ (places.1 ++ power.1) ++ rest') =
      .ok (decimalValue whole places.1 power.1, whole ++ (places.1 ++ power.1), rest') := by
  intro whole places power
  have digit : rest'.head?.any Char.isDigit = false :=
    stop_of_continuesNumeral (fun c h => by simp [continuesNumeral, isHexDigit, h]) stop
  have point : rest'.head?.any (· == '.') = false :=
    stop_of_continuesNumeral (fun c h => by simp_all [continuesNumeral]) stop
  have base : rest'.head?.any (fun c => c = 'x' || c = 'X') = false :=
    stop_of_continuesNumeral (fun c h => by simp_all [continuesNumeral, or_assoc]) stop
  have mark : rest'.head?.any (fun c => c = 'e' || c = 'E') = false := by
    refine stop_of_continuesNumeral (fun c h => ?_) stop
    rw [Bool.or_eq_true, decide_eq_true_eq, decide_eq_true_eq] at h
    rcases h with rfl | rfl <;> decide
  have behind {p : Char → Bool} (marks : p 'e' = false ∧ p 'E' = false)
      (stop : rest'.head?.any p = false) : (power.1 ++ rest').head?.any p = false :=
    head?_any_append (head?_exponent marks _) stop
  have after {p : Char → Bool} (point : p '.' = false) (marks : p 'e' = false ∧ p 'E' = false)
      (stop : rest'.head?.any p = false) : (places.1 ++ (power.1 ++ rest')).head?.any p = false :=
    head?_any_append (head?_fraction point _) (behind marks stop)
  have digits : ∀ c ∈ tail.takeWhile Char.isDigit, c.isDigit = true :=
    List.all_eq_true.1 List.all_takeWhile
  have starts : whole = first :: tail.takeWhile Char.isDigit := List.takeWhile_cons_of_pos isDigit
  have noBase : (tail.takeWhile Char.isDigit ++ (places.1 ++ (power.1 ++ rest'))).head?.any
      (fun c => c = 'x' || c = 'X') = false := by
    refine head?_any_append (head?_any_of_all digits fun c h => ?_) (after rfl ⟨rfl, rfl⟩ base)
    rw [Bool.or_eq_false_iff, decide_eq_false_iff_not, decide_eq_false_iff_not]
    constructor <;> rintro rfl <;> revert h <;> decide
  obtain ⟨taken, dropped⟩ := takeWhile_append_of_stop
    (List.forall_mem_cons.2 ⟨isDigit, digits⟩) (after rfl ⟨rfl, rfl⟩ digit)
  have text : whole ++ (places.1 ++ power.1) ++ rest' =
      first :: (tail.takeWhile Char.isDigit ++ (places.1 ++ (power.1 ++ rest'))) := by
    rw [starts]
    simp only [List.cons_append, List.append_assoc]
  have readPlaces : fraction (places.1 ++ (power.1 ++ rest')) = (places.1, power.1 ++ rest') :=
    fraction_local rfl (behind ⟨rfl, rfl⟩ digit) (behind ⟨rfl, rfl⟩ point)
  have readPower : exponent (power.1 ++ rest') = (power.1, rest') := exponent_local rfl digit mark
  rw [List.cons_append] at taken dropped
  rw [text, numeral_decimal noBase]
  simp only [taken, dropped, readPlaces, readPower, starts]

theorem numeral_local {first : Char} {tail : List Char} (isDigit : first.isDigit = true)
    (read : numeral (first :: tail) = .ok (value, lexeme, rest))
    (stop : rest'.head?.any continuesNumeral = false) :
    numeral (lexeme ++ rest') = .ok (value, lexeme, rest') := by
  have decimal := numeral_parts isDigit tail stop
  unfold numeral at read
  dsimp only at read
  split at read
  · next x digits eq =>
    cases eq
    split at read
    · next isBase =>
      split at read
      · cases read
      · next filled =>
        cases read
        have hex : rest'.head?.any isHexDigit = false :=
          stop_of_continuesNumeral (fun c h => by simp [continuesNumeral, h]) stop
        obtain ⟨taken, dropped⟩ :=
          takeWhile_append_of_stop (List.all_eq_true.1 (List.all_takeWhile (l := digits))) hex
        simp only [List.cons_append, numeral, isBase, if_true, taken, dropped, filled]
        rfl
    · cases read
      exact decimal
  · cases read
    exact decimal

theorem scanNumber_local {first : Char} {tail : List Char} {s : Scanned}
    (isDigit : first.isDigit = true) (read : scanNumber (first :: tail) = .ok s)
    (blank : startsBlank rest' = true) :
    scanNumber (s.lexeme ++ rest') = .ok ⟨s.kind, s.lexeme, rest'⟩ := by
  have stop : continuesWord rest' = false := continuesWord_of_startsBlank blank
  have plain {value : Literal} {lexeme rest : List Char}
      (found : numeral (first :: tail) = .ok (value, lexeme, rest)) :
      scanNumber (lexeme ++ rest') = .ok ⟨.literal value, lexeme, rest'⟩ :=
    scanNumber_of_numeral
      (numeral_local isDigit found (head?_of_startsBlank (by decide) blank)) stop
  unfold scanNumber at read
  rcases found : numeral (first :: tail) with fault | ⟨value, lexeme, rest⟩
  · rw [found] at read
    cases read
  · rw [found] at read
    simp only [bind, Except.bind] at read
    split at read
    · next c after =>
      split at read
      · next unit =>
        cases read
        obtain ⟨isUnit, -⟩ := Bool.and_eq_true_iff.1 unit
        have front : (c :: rest').head?.any continuesNumeral = false := by
          rw [Bool.or_eq_true, decide_eq_true_eq, decide_eq_true_eq] at isUnit
          rcases isUnit with rfl | rfl <;> rfl
        have again : numeral (lexeme ++ c :: rest') = .ok (value, lexeme, c :: rest') :=
          numeral_local isDigit found front
        unfold scanNumber
        rw [List.append_assoc, List.singleton_append, again]
        simp only [bind, Except.bind, isUnit, stop]
        rfl
      · split at read
        · cases read
        · cases read
          exact plain found
    · split at read
      · cases read
      · cases read
        exact plain found

end

/-! ## Quoted text -/

theorem quoted_local {quote : Char} {text value written rest : List Char}
    (read : quoted quote text = .closed value written rest) (rest' : List Char) :
    quoted quote (written ++ rest') = .closed value written rest' := by
  fun_induction quoted quote text generalizing value written with
  | case1 => cases read
  | case2 =>
    cases read
    exact quoted_closing _ rest'
  | case3 => cases read
  | case4 =>
    cases read
    exact quoted_closing _ rest'
  | case5 d tail decoded known other ih =>
    cases inner : quoted quote tail with
    | closed values writtens after =>
      rw [inner] at read
      cases read
      have again := quoted_escaped other known (writtens ++ rest')
      rwa [ih inner] at again
    | _ => rw [inner] at read; cases read
  | case6 => cases read
  | case7 c d tail other plain ih =>
    cases inner : quoted quote (d :: tail) with
    | closed values writtens after =>
      rw [inner] at read
      cases read
      have closed := ih inner
      have more : writtens ++ rest' ≠ [] := by
        intro none_
        rw [none_] at closed
        cases closed
      have again := quoted_plain other plain more
      rwa [closed] at again
    | _ => rw [inner] at read; cases read

theorem scanQuoted_local {opening inside value lexeme rest : List Char} {quote : Char}
    {cause : LexCause} (read : scanQuoted opening quote inside cause = .ok (value, lexeme, rest)) :
    ∃ written, lexeme = opening ++ written ∧ ∀ rest',
      scanQuoted opening quote (written ++ rest') cause = .ok (value, lexeme, rest') := by
  unfold scanQuoted at read
  split at read
  · next value written rest closed =>
    cases read
    refine ⟨written, rfl, fun rest' => ?_⟩
    rw [scanQuoted, quoted_local closed]
  · cases read
  · cases read

theorem scanString_local {inside rest' : List Char} {s : Scanned}
    (read : scanString inside = .ok s) : ReadsFront s.kind s.lexeme rest' := by
  unfold scanString at read
  rcases found : scanQuoted ['"'] '"' inside .unclosedString with fault | ⟨value, lexeme, rest⟩
  · rw [found] at read
    cases read
  · rw [found] at read
    cases read
    obtain ⟨written, rfl, again⟩ := scanQuoted_local found
    refine readsFront_quoted (show isBlank '"' = false by decide) (by decide) rfl ?_
    change scanString (written ++ rest') = _
    rw [scanString, again]
    rfl

theorem scanChar_local {inside rest' : List Char} {s : Scanned} (read : scanChar inside = .ok s) :
    ReadsFront s.kind s.lexeme rest' := by
  unfold scanChar at read
  rcases found : scanQuoted ['\''] '\'' inside .unclosedChar with fault | ⟨value, lexeme, rest⟩
  · rw [found] at read
    cases read
  · rw [found] at read
    obtain ⟨written, rfl, again⟩ := scanQuoted_local found
    match value, read, again with
    | [c], read, again =>
      cases read
      refine readsFront_quoted (show isBlank '\'' = false by decide) (by decide) rfl ?_
      change scanChar (written ++ rest') = _
      rw [scanChar, again]
      rfl
    | [], read, _ => cases read
    | _ :: _ :: _, read, _ => cases read

theorem scanBytes_local {inside rest' : List Char} {s : Scanned}
    (read : scanBytes inside = .ok s) : ReadsFront s.kind s.lexeme rest' := by
  unfold scanBytes at read
  rcases found : scanQuoted ['b', '"'] '"' inside .unclosedString with fault | ⟨value, lexeme, rest⟩
  · rw [found] at read
    cases read
  · rw [found] at read
    obtain ⟨written, rfl, again⟩ := scanQuoted_local found
    simp only [bind, Except.bind] at read
    split at read
    · next ascii =>
      cases read
      refine readsFront_quoted (show isBlank 'b' = false by decide) (by decide) rfl ?_
      change scanBytes (written ++ rest') = _
      rw [scanBytes, again]
      simp only [bind, Except.bind, ascii, if_true]
      rfl
    · cases read

/-! ## All tokens -/

theorem scanWord_local {first : Char} (start : isIdentifierStart first = true) (rest : List Char)
    {rest' : List Char} (blank : startsBlank rest' = true) :
    ReadsFront (scanWord first rest).kind (scanWord first rest).lexeme rest' := by
  have letters : (rest.takeWhile isXidContinue).all isXidContinue = true := List.all_takeWhile
  have kind : (scanWord first rest).kind =
      wordKind (String.ofList (first :: rest.takeWhile isXidContinue)) := by
    unfold scanWord wordKind
    dsimp only
    cases Keyword.ofSpelling? (String.ofList (first :: rest.takeWhile isXidContinue)) <;> rfl
  have chars : (String.ofList (first :: rest.takeWhile isXidContinue)).toList =
      first :: rest.takeWhile isXidContinue := String.toList_ofList
  have front := readsFront_word chars start letters (endsWord_of_startsBlank blank)
  rwa [← kind, String.toList_ofList] at front

/-- What was read in front of some text is read in front of a blank, and at the end of a text. -/
theorem scan_alone {first : Char} {rest rest' : List Char} {s : Scanned}
    (read : scan first rest = .ok s) (blank : startsBlank rest' = true) :
    ReadsFront s.kind s.lexeme rest' := by
  have whole := scan_from read
  unfold scan at read
  split at read
  · exact scanBytes_local read
  split at read
  · next start =>
    cases read
    exact scanWord_local start rest blank
  split at read
  · next isDigit =>
    have again := scanNumber_local isDigit read blank
    obtain ⟨joined, filled⟩ := whole
    obtain ⟨c, tail, eq⟩ := List.exists_cons_of_ne_nil filled
    rw [eq] at joined
    obtain ⟨rfl, -⟩ := List.cons.inj joined
    refine ⟨c, tail ++ rest', by rw [eq]; rfl, gap_of_start (isBlank_of_isDigit isDigit) ?_, ?_⟩
    · rintro rfl
      exact absurd isDigit (by decide)
    · rw [scan_digit isDigit, ← List.cons_append, ← eq, again]
  split at read
  · exact scanString_local read
  split at read
  · exact scanChar_local read
  split at read
  · next mark found =>
    cases read
    have front := readsFront_punct mark (endsMark_of_startsBlank blank)
    rwa [Punct.spelling, String.toList_ofList] at front
  · cases read


/-- A token that is read from these characters wherever a blank or nothing follows them. -/
def StandsAlone (kind : TokenKind) (lexeme : List Char) : Prop :=
  ∀ rest, startsBlank rest = true → ReadsFront kind lexeme rest

/-! ## Where tokens are read -/

/-- Every token is read at its place from all that follows. -/
theorem placePieces_scanned {source : Source} (text : List Char) :
    ∀ front, source.chars = front ++ text →
      ∀ token ∈ (placePieces (byteLength front) (pieces text).1).1, ∃ first rest after,
        textFrom source.chars token.span.start = first :: rest ∧
          scan first rest = .ok ⟨token.kind, token.lexeme.toList, after⟩ := by
  fun_induction pieces text with
  | case1 =>
    intro _ _ _ listed
    cases listed
  | case2 =>
    intro _ _ _ listed
    cases listed
  | case3 text gap_ closed first rest left scanned read more ending inner ih =>
    intro front whole
    have split := gap_append text
    rw [show (gap text).rest = first :: rest from left] at split
    have here : source.chars = (front ++ (gap text).skipped) ++ first :: rest := by
      rw [whole, List.append_assoc, split]
    have behind : source.chars =
        (front ++ (gap text).skipped ++ scanned.lexeme) ++ scanned.rest := by
      rw [here, ← (scan_from read).1, List.append_assoc _ scanned.lexeme]
    rw [placePieces]
    refine List.forall_mem_cons.2 ⟨⟨first, rest, scanned.rest, ?_, ?_⟩, ?_⟩
    · dsimp only
      rw [here, ← byteLength_append, textFrom_byteLength]
    · rw [String.toList_ofList]
      exact read
    · have others := ih _ behind
      rw [inner, byteLength_append, byteLength_append] at others
      exact others
  | case4 =>
    intro _ _ _ listed
    cases listed

/-- A mark is read as the longest one where no other token starts. -/
theorem punctAt?_of_scan {first : Char} {rest lexeme after : List Char} {mark : Punct}
    (read : scan first rest = .ok ⟨.punct mark, lexeme, after⟩) :
    lexeme = mark.chars ∧ punctAt? (first :: rest) = some mark := by
  unfold scan at read
  split at read
  · simp only [scanBytes, bind, Except.bind] at read
    split at read
    · cases read
    · split at read <;> cases read
  split at read
  · have kind := congrArg Scanned.kind (Except.ok.inj read)
    simp only [scanWord] at kind
    split at kind <;> cases kind
  split at read
  · simp only [scanNumber, bind, Except.bind] at read
    split at read
    · cases read
    · split at read
      · split at read
        · cases read
        · split at read <;> cases read
      · split at read <;> cases read
  split at read
  · simp only [scanString, bind, Except.bind] at read
    split at read <;> cases read
  split at read
  · simp only [scanChar, bind, Except.bind] at read
    split at read
    · cases read
    · split at read <;> cases read
  split at read
  · next found =>
    cases read
    exact ⟨rfl, found⟩
  · cases read

/-! ## Other gaps -/

theorem gap_blanks {front : List Char} (blank : front.all isBlank = true) (rest : List Char) :
    gap (front ++ rest) = (gap rest).after front := by
  induction front with
  | nil => rfl
  | cons c front ih =>
    rw [List.all_cons, Bool.and_eq_true] at blank
    rw [List.cons_append, gap_blank blank.1, ih blank.2]
    rfl

theorem startsBlank_append {front rest : List Char} (blank : front.all isBlank = true)
    (next : front = [] → startsBlank rest = true) : startsBlank (front ++ rest) = true := by
  cases front with
  | nil => exact next rfl
  | cons c front =>
    rw [List.all_cons, Bool.and_eq_true] at blank
    exact blank.1

/-- Tokens that stand alone fall apart again where blanks are put between them. -/
theorem pieces_of_standsAlone {found : List Piece} {last : List Char}
    (alone : ∀ piece ∈ found, StandsAlone piece.kind piece.lexeme)
    (blank : ∀ piece ∈ found, piece.gap.all isBlank = true)
    (apart : ∀ piece ∈ found.tail, piece.gap ≠ []) (lastBlank : last.all isBlank = true) :
    pieces (found.flatMap Piece.text ++ last) = (found, ⟨last, none, []⟩) := by
  induction found with
  | nil =>
    have empty : gap last = ⟨last, [], true⟩ := by
      have none_ : gap [] = ⟨[], [], true⟩ := by rw [gap]
      rw [← List.append_nil last, gap_blanks lastBlank, none_, List.append_nil]
      simp [Gap.after]
    exact pieces_end empty
  | cons piece found ih =>
    obtain ⟨alone, others⟩ := List.forall_mem_cons.1 alone
    obtain ⟨blank, blanks⟩ := List.forall_mem_cons.1 blank
    have apart : ∀ piece ∈ found, piece.gap ≠ [] := apart
    have rest := ih others blanks fun piece listed => apart piece (List.mem_of_mem_tail listed)
    have starts : startsBlank (found.flatMap Piece.text ++ last) = true := by
      cases found with
      | nil =>
        cases last with
        | nil => rfl
        | cons c last => exact (Bool.and_eq_true_iff.1 lastBlank).1
      | cons next found =>
        rw [List.flatMap_cons, Piece.text, List.append_assoc, List.append_assoc]
        refine startsBlank_append (blanks next (.head _)) fun none_ => ?_
        exact absurd none_ (apart next (.head _))
    obtain ⟨first, tail, text, start, read⟩ := alone _ starts
    have front : gap ((piece :: found).flatMap Piece.text ++ last) =
        ⟨piece.gap, first :: tail, true⟩ := by
      rw [List.flatMap_cons, Piece.text, List.append_assoc, List.append_assoc, text,
        gap_blanks blank, start]
      simp [Gap.after]
    rw [pieces_cons front read, rest]

/-- The texts of tokens, each behind a gap. -/
def respaced (gaps : List String) (tokens : List Token) : String :=
  String.join ((gaps.zip tokens).map fun (gap, token) => gap ++ token.lexeme)

theorem placePieces_lexemes (offset : Nat) (found : List Piece) :
    (placePieces offset found).1.map Token.lexeme =
      found.map fun piece => String.ofList piece.lexeme := by
  induction found generalizing offset with
  | nil => rfl
  | cons piece found ih => exact congrArg (String.ofList piece.lexeme :: ·) (ih _)

namespace Source

variable {source : Source} {tokens : List Token}

/-- Each token but the end stands alone, and a mark is the longest one at its place. -/
theorem standsAlone_of_tokens (h : source.tokens = .ok tokens) :
    ∃ front, tokens = front ++ [⟨.eof, "", ⟨source.length, source.length⟩⟩] ∧ ∀ token ∈ front,
      token.kind ≠ .eof ∧ StandsAlone token.kind token.lexeme.toList ∧
      ∀ mark, token.kind = .punct mark → token.lexeme = mark.spelling ∧
        punctAt? (textFrom source.chars token.span.start) = some mark := by
  obtain ⟨front, rfl, inner⟩ := (tokens_tiled h).ended
  refine ⟨front, rfl, fun token listed => ?_⟩
  have placed : token ∈ (placePieces (byteLength []) (pieces source.chars).1).1 := by
    unfold Source.tokens at h
    dsimp only at h
    split at h
    · have same := congrArg List.dropLast (Except.ok.inj h)
      rw [List.dropLast_concat, List.dropLast_concat] at same
      rw [byteLength_nil, same]
      exact listed
    · cases h
  obtain ⟨first, rest, after, here, read⟩ := placePieces_scanned source.chars [] rfl token placed
  refine ⟨(inner token listed).1, fun _ => scan_alone read, fun mark isMark => ?_⟩
  rw [isMark] at read
  obtain ⟨spelled, found⟩ := punctAt?_of_scan read
  rw [here, Punct.spelling, ← spelled, String.ofList_toList]
  exact ⟨rfl, found⟩

theorem tokens_of_pieces {found : List Piece} {last : List Char}
    (h : pieces source.chars = (found, ⟨last, none, []⟩)) :
    source.tokens = .ok (source.tokensOf found) := by
  have reached := (source.split h).reached
  unfold Source.tokens
  rw [h]
  dsimp only
  rw [reached]
  rfl

theorem tokens_of_standsAlone {kind : TokenKind} {lexeme : String}
    (alone : StandsAlone kind lexeme.toList) (path : Option String) :
    let single : Source := ⟨lexeme, path⟩
    single.tokens = .ok [⟨kind, lexeme, single.whole⟩, ⟨.eof, "", single.whole.endPoint⟩] := by
  intro single
  have read : pieces single.chars = ([⟨[], kind, lexeme.toList⟩], ⟨[], none, []⟩) := by
    have fallsApart := @pieces_of_standsAlone [⟨[], kind, lexeme.toList⟩] []
      (List.forall_mem_singleton.2 alone) (List.forall_mem_singleton.2 rfl) (fun _ => nofun) rfl
    simpa [Piece.text, Source.chars, single] using fallsApart
  rw [tokens_of_pieces read]
  simp [tokensOf, placePieces, whole, Span.endPoint, Source.length, Source.chars, single]

/-- A source with blanks between its tokens has the same tokens. -/
theorem tokens_of_respaced {front : List Token} {gaps : List String} {last : String} {stop : Span}
    (alone : ∀ token ∈ front, StandsAlone token.kind token.lexeme.toList)
    (count : gaps.length = front.length)
    (blank : ∀ gap ∈ gaps, gap.toList.all isBlank = true)
    (lastBlank : last.toList.all isBlank = true) (apart : ∀ gap ∈ gaps.tail, gap ≠ "")
    (path : Option String) : ∃ tokens,
      (⟨respaced (gaps ++ [last]) (front ++ [⟨.eof, "", stop⟩]), path⟩ : Source).tokens = .ok tokens ∧
      tokens.map Token.kind = front.map Token.kind ++ [.eof] ∧
      tokens.map Token.lexeme = front.map Token.lexeme ++ [""] := by
  let piece : String × Token → Piece :=
    fun (gap, token) => ⟨gap.toList, token.kind, token.lexeme.toList⟩
  have listed : (gaps.zip front).map Prod.snd = front := List.map_snd_zip count.ge
  have text : (respaced (gaps ++ [last]) (front ++ [⟨.eof, "", stop⟩])).toList =
      ((gaps.zip front).map piece).flatMap Piece.text ++ last.toList := by
    rw [respaced, List.zip_append count]
    simp [String.toList_join, List.flatMap_map, piece, Piece.text]
  have read : pieces (respaced (gaps ++ [last]) (front ++ [⟨.eof, "", stop⟩])).toList =
      ((gaps.zip front).map piece, ⟨last.toList, none, []⟩) := by
    rw [text]
    refine pieces_of_standsAlone ?_ ?_ ?_ lastBlank
    · rintro _ inside
      obtain ⟨⟨gap, token⟩, pair, rfl⟩ := List.mem_map.1 inside
      exact alone token (List.of_mem_zip pair).2
    · rintro _ inside
      obtain ⟨⟨gap, token⟩, pair, rfl⟩ := List.mem_map.1 inside
      exact blank gap (List.of_mem_zip pair).1
    · rintro _ inside
      rw [← List.map_tail, List.tail_zip] at inside
      obtain ⟨⟨gap, token⟩, pair, rfl⟩ := List.mem_map.1 inside
      have filled := apart gap (List.of_mem_zip pair).1
      exact fun none_ => filled (String.toList_eq_nil_iff.1 none_)
  refine ⟨_, tokens_of_pieces read, ?_, ?_⟩
  · rw [tokensOf, List.map_append, placePieces_kinds, List.map_map]
    conv_rhs => rw [← listed, List.map_map]
    rfl
  · rw [tokensOf, List.map_append, placePieces_lexemes, List.map_map]
    conv_rhs => rw [← listed, List.map_map]
    simp [piece, Function.comp_def]

/-- The text of each token lexes to this token alone, a mark is the longest that starts where it does, and
the tokens stay when other blanks are put between them, some at least between any two. -/
theorem tokens_respaced (h : source.tokens = .ok tokens) :
    (∀ token ∈ tokens, token.kind ≠ .eof → ∀ path,
      let single : Source := ⟨token.lexeme, path⟩
      single.tokens =
        .ok [⟨token.kind, token.lexeme, single.whole⟩, ⟨.eof, "", single.whole.endPoint⟩]) ∧
    (∀ token ∈ tokens, ∀ mark, token.kind = .punct mark → token.lexeme = mark.spelling ∧
      mark.chars <+: textFrom source.chars token.span.start ∧
      ∀ other : Punct, other.chars <+: textFrom source.chars token.span.start →
        other.chars.length ≤ mark.chars.length) ∧
    ∀ gaps : List String, gaps.length = tokens.length →
      (∀ gap ∈ gaps, gap.toList.all isBlank = true) → (∀ gap ∈ gaps.tail.dropLast, gap ≠ "") →
      ∀ path, ∃ tokens', (⟨respaced gaps tokens, path⟩ : Source).tokens = .ok tokens' ∧
        tokens'.map Token.kind = tokens.map Token.kind ∧
        tokens'.map Token.lexeme = tokens.map Token.lexeme := by
  obtain ⟨front, rfl, each⟩ := standsAlone_of_tokens h
  refine ⟨fun token listed other path => ?_, fun token listed mark isMark => ?_,
    fun gaps count blank apart path => ?_⟩
  · rcases List.mem_append.1 listed with early | last
    · exact tokens_of_standsAlone (each token early).2.1 path
    · cases List.mem_singleton.1 last
      exact absurd rfl other
  · rcases List.mem_append.1 listed with early | last
    · obtain ⟨spelled, found⟩ := (each token early).2.2 mark isMark
      exact ⟨spelled, punctAt?_longest found⟩
    · cases List.mem_singleton.1 last
      cases isMark
  · rw [List.length_append, List.length_singleton] at count
    obtain ⟨gaps, last, rfl⟩ := (List.eq_nil_or_concat' gaps).resolve_left fun none_ => by
      rw [none_] at count
      cases count
    rw [List.length_append, List.length_singleton, Nat.add_right_cancel_iff] at count
    obtain ⟨blank, lastBlank⟩ := List.forall_mem_append.1 blank
    have inner : (gaps ++ [last]).tail.dropLast = gaps.tail := by
      cases gaps <;> simp
    rw [inner] at apart
    rw [List.map_append, List.map_append]
    exact tokens_of_respaced (fun token early => (each token early).2.1) count blank
      (lastBlank last (List.mem_singleton_self last)) apart path

end Source

/-- Tokens without any space between them. -/
def crowded : Source := ⟨"x<<=0x1F**2.5E-3i/b\"a\".y", none⟩

theorem crowded_respaced : ∃ tokens tokens', crowded.tokens = .ok tokens ∧
    tokens.map Token.lexeme =
      ["x", "<<=", "0x1F", "**", "2.5E-3i", "/", "b\"a\"", ".", "y", ""] ∧
    (⟨respaced (List.replicate 10 "\n") tokens, none⟩ : Source).tokens = .ok tokens' ∧
    tokens'.map Token.kind = tokens.map Token.kind ∧
    tokens'.map Token.lexeme = tokens.map Token.lexeme := by
  have run : crowded.tokens.toOption.map (List.map Token.lexeme) =
      some ["x", "<<=", "0x1F", "**", "2.5E-3i", "/", "b\"a\"", ".", "y", ""] := by
    decide +kernel
  obtain ⟨tokens, read, lexemes⟩ := Option.map_eq_some_iff.1 run
  have read := ok_of_toOption read
  have count : tokens.length = 10 := by
    rw [← List.length_map Token.lexeme, lexemes]
    rfl
  obtain ⟨-, -, spaced⟩ := Source.tokens_respaced read
  obtain ⟨tokens', again, same⟩ :=
    spaced (List.replicate 10 "\n") count.symm (by decide) (by decide) none
  exact ⟨tokens, tokens', read, lexemes, again, same⟩

end ClassLang
