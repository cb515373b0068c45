import ClassLang.Lexing.Scan
import ClassLang.Proofs.Number.Shortest

/-!
Numbers as they are written are read back. What a number is written with falls into the three parts
that `numeral` reads: digits, a fraction and an exponent.

* `scanNumber_int`, `scanNumber_float`, `scanNumber_imaginary`: the text of a number, before
  something that does not go on with it, is read as this number.
-/

namespace ClassLang

/-! ## Digits -/

theorem takeWhile_append_of_stop {p : Char → Bool} {front rest : List Char}
    (all : ∀ c ∈ front, p c = true) (stop : rest.head?.any p = false) :
    (front ++ rest).takeWhile p = front ∧ (front ++ rest).dropWhile p = rest := by
  rw [List.takeWhile_append_of_pos all, List.dropWhile_append_of_pos all]
  cases rest with
  | nil => simp
  | cons c rest =>
    have other : p c = false := by simpa using stop
    simp [other]

theorem digitsValue_ten {digits : List Char} (h : ∀ c ∈ digits, c.isDigit = true) :
    digitsValue 10 digits = Nat.ofDigitChars 10 digits 0 := by
  have go (digits : List Char) : ∀ value, (∀ c ∈ digits, c.isDigit = true) →
      digits.foldl (fun value c => value * 10 + digitValue c) value =
        Nat.ofDigitChars 10 digits value := by
    induction digits with
    | nil => simp
    | cons c digits ih =>
      intro value all
      rw [List.foldl_cons, Nat.ofDigitChars_cons, digitValue, if_pos (all c (by simp)),
        Nat.mul_comm]
      exact ih _ fun d hd => all d (List.mem_cons_of_mem c hd)
  exact go digits 0 h

theorem isDigit_of_mem_toDigits {n : Nat} : ∀ c ∈ Nat.toDigits 10 n, c.isDigit = true :=
  fun _ h => Nat.isDigit_of_mem_toDigits (by decide) (by decide) h

/-! ## The parts of a number -/

/-- The parts that a number is written with. -/
structure Numeral where
  whole : List Char
  fraction : List Char
  exponent : List Char

namespace Numeral

def chars (n : Numeral) : List Char := n.whole ++ (n.fraction ++ n.exponent)

def value (n : Numeral) : Literal := decimalValue n.whole n.fraction n.exponent

/-- The parts are read as what they are. -/
structure Proper (n : Numeral) : Prop where
  nonempty : n.whole ≠ []
  whole : ∀ c ∈ n.whole, c.isDigit = true
  fraction : n.fraction = [] ∨
    ∃ d ds, n.fraction = '.' :: d :: ds ∧ ∀ c ∈ d :: ds, c.isDigit = true
  exponent : n.exponent = [] ∨ ∃ sign d ds, n.exponent = 'e' :: (sign ++ d :: ds) ∧
    (sign = [] ∨ sign = ['-']) ∧ ∀ c ∈ d :: ds, c.isDigit = true

end Numeral

/-- A text that does not go on with a number. -/
structure EndsNumeral (rest : List Char) : Prop where
  digit : rest.head?.any Char.isDigit = false
  fraction : fraction rest = ([], rest)
  exponent : exponent rest = ([], rest)
  base : rest.head?.any (fun c => c = 'x' || c = 'X') = false

theorem fraction_of_digits {d : Char} {ds rest : List Char}
    (all : ∀ c ∈ d :: ds, c.isDigit = true) (stop : rest.head?.any Char.isDigit = false) :
    fraction ('.' :: d :: ds ++ rest) = ('.' :: d :: ds, rest) := by
  obtain ⟨taken, dropped⟩ := takeWhile_append_of_stop all stop
  rw [List.cons_append] at taken dropped
  simp only [List.cons_append, fraction, all d (by simp), if_true, taken, dropped]

theorem exponent_of_digits {sign : List Char} {d : Char} {ds rest : List Char}
    (signs : sign = [] ∨ sign = ['-']) (all : ∀ c ∈ d :: ds, c.isDigit = true)
    (stop : rest.head?.any Char.isDigit = false) :
    exponent ('e' :: (sign ++ d :: ds) ++ rest) = ('e' :: (sign ++ d :: ds), rest) := by
  obtain ⟨taken, dropped⟩ := takeWhile_append_of_stop all stop
  rw [List.cons_append] at taken dropped
  have digit : d.isDigit = true := all d (by simp)
  rcases signs with rfl | rfl
  · simp only [List.nil_append, List.cons_append, exponent, digit, if_true, taken, dropped]
    rfl
  · have minus : ('-' : Char).isDigit = false := by decide
    simp only [List.nil_append, List.cons_append, exponent, minus, List.head?_cons,
      Option.any_some, digit, taken, dropped]
    rfl

/-- A number to base ten. -/
def decimalNumeral (text : List Char) : Except Fault (Literal × List Char × List Char) :=
  let whole := text.takeWhile Char.isDigit
  let read := fraction (text.dropWhile Char.isDigit)
  let power := exponent read.2
  .ok (decimalValue whole read.1 power.1, whole ++ (read.1 ++ power.1), power.2)

theorem numeral_of_decimal {first : Char} {tail : List Char}
    (base : ¬(first = '0' ∧ tail.head?.any (fun c => c = 'x' || c = 'X') = true)) :
    numeral (first :: tail) = decimalNumeral (first :: tail) := by
  unfold numeral
  dsimp only
  split
  · next x rest eq =>
    cases eq
    rw [if_neg (show ¬(x = 'x' || x = 'X') = true from fun isBase => base ⟨rfl, isBase⟩)]
    rfl
  · rfl

theorem numeral_decimal {first : Char} {tail : List Char}
    (base : tail.head?.any (fun c => c = 'x' || c = 'X') = false) :
    numeral (first :: tail) =
      (let whole := (first :: tail).takeWhile Char.isDigit
      let read := fraction ((first :: tail).dropWhile Char.isDigit)
      let power := exponent read.2
      .ok (decimalValue whole read.1 power.1, whole ++ (read.1 ++ power.1), power.2)) :=
  numeral_of_decimal fun hex => by simp [base] at hex

theorem head?_any_append {p : Char → Bool} {front rest : List Char}
    (hf : front.head?.any p = false) (hr : rest.head?.any p = false) :
    (front ++ rest).head?.any p = false := by
  cases front with
  | nil => exact hr
  | cons c front => exact hf

theorem head?_any_of_all {p q : Char → Bool} {front : List Char}
    (all : ∀ c ∈ front, q c = true) (apart : ∀ c, q c = true → p c = false) :
    front.head?.any p = false := by
  cases front with
  | nil => rfl
  | cons c front => exact apart c (all c (by simp))

namespace Numeral

variable {n : Numeral} {rest : List Char}

theorem Proper.head_fraction {p : Char → Bool} (h : n.Proper) (point : p '.' = false) :
    n.fraction.head?.any p = false := by
  rcases h.fraction with eq | ⟨d, ds, eq, -⟩
  · rw [eq]
    rfl
  · rw [eq]
    exact point

theorem Proper.head_exponent {p : Char → Bool} (h : n.Proper) (mark : p 'e' = false) :
    n.exponent.head?.any p = false := by
  rcases h.exponent with eq | ⟨sign, d, ds, eq, -⟩
  · rw [eq]
    rfl
  · rw [eq]
    exact mark

theorem Proper.fraction_read (h : n.Proper) (ends : EndsNumeral rest) :
    ClassLang.fraction (n.fraction ++ (n.exponent ++ rest)) =
      (n.fraction, n.exponent ++ rest) := by
  have stop : (n.exponent ++ rest).head?.any Char.isDigit = false :=
    head?_any_append (h.head_exponent (by decide)) ends.digit
  rcases h.fraction with eq | ⟨d, ds, eq, all⟩
  · rw [eq, List.nil_append]
    rcases h.exponent with none_ | ⟨sign, d, ds, eq', -⟩
    · rw [none_]
      exact ends.fraction
    · rw [eq']
      rfl
  · rw [eq]
    exact fraction_of_digits all stop

theorem Proper.exponent_read (h : n.Proper) (ends : EndsNumeral rest) :
    ClassLang.exponent (n.exponent ++ rest) = (n.exponent, rest) := by
  rcases h.exponent with eq | ⟨sign, d, ds, eq, signs, all⟩
  · rw [eq]
    exact ends.exponent
  · rw [eq]
    exact exponent_of_digits signs all ends.digit

theorem Proper.numeral_read (h : n.Proper) (ends : EndsNumeral rest) :
    numeral (n.chars ++ rest) = .ok (n.value, n.chars, rest) := by
  obtain ⟨first, others, eq⟩ := List.exists_cons_of_ne_nil h.nonempty
  have all := h.whole
  have noBase (c : Char) (digit : c.isDigit = true) : (c = 'x' || c = 'X') = false := by
    rw [Bool.or_eq_false_iff, decide_eq_false_iff_not, decide_eq_false_iff_not]
    constructor <;> rintro rfl <;> revert digit <;> decide
  have text : n.chars ++ rest = first :: (others ++ (n.fraction ++ (n.exponent ++ rest))) := by
    rw [chars, eq]
    simp only [List.cons_append, List.append_assoc]
  have base : (others ++ (n.fraction ++ (n.exponent ++ rest))).head?.any
      (fun c => c = 'x' || c = 'X') = false := by
    refine head?_any_append ?_ ?_
    · refine head?_any_of_all (fun c hc => all c ?_) noBase
      rw [eq]
      exact List.mem_cons_of_mem first hc
    · refine head?_any_append (h.head_fraction (by decide)) ?_
      exact head?_any_append (h.head_exponent (by decide)) ends.base
  have stop : (n.fraction ++ (n.exponent ++ rest)).head?.any Char.isDigit = false :=
    head?_any_append (h.head_fraction (by decide))
      (head?_any_append (h.head_exponent (by decide)) ends.digit)
  obtain ⟨taken, dropped⟩ := takeWhile_append_of_stop all stop
  rw [text, numeral_decimal base, ← List.cons_append, ← eq]
  simp only [taken, dropped, h.fraction_read ends, h.exponent_read ends]
  rfl

end Numeral

/-! ## What follows a number -/

theorem isXidContinue_of_isDigit {c : Char} (h : c.isDigit = true) : isXidContinue c = true := by
  have small : c.val < 128 := by
    simp only [Char.isDigit, Bool.and_eq_true, decide_eq_true_eq] at h
    exact Nat.lt_of_le_of_lt h.2 (by decide)
  simp [isXidContinue, small, Char.isAlphanum, h]

theorem endsNumeral_of_stop {rest : List Char} (stop : continuesWord rest = false)
    (point : fraction rest = ([], rest)) : EndsNumeral rest := by
  have head {p : Char → Bool} (h : ∀ c, p c = true → isXidContinue c = true) :
      rest.head?.any p = false := by
    cases rest with
    | nil => rfl
    | cons c rest =>
      rw [List.head?_cons, Option.any_some, Bool.eq_false_iff]
      intro holds
      have goes := h c holds
      simp only [continuesWord, List.head?_cons, Option.any_some] at stop
      rw [stop] at goes
      cases goes
  have letter {p : Char → Bool} {a b : Char} (h : ∀ c, p c = true → c = a ∨ c = b)
      (ha : isXidContinue a = true) (hb : isXidContinue b = true) : rest.head?.any p = false := by
    refine head fun c holds => ?_
    rcases h c holds with rfl | rfl <;> assumption
  have mark : rest.head?.any (fun c => c = 'e' || c = 'E') = false :=
    letter (fun c h => by simpa using h) (by decide) (by decide)
  refine ⟨head fun c => isXidContinue_of_isDigit, point, ?_,
    letter (fun c h => by simpa using h) (by decide) (by decide)⟩
  unfold exponent
  split
  · next e d after =>
    rw [if_neg (by simpa using mark)]
  · rfl

theorem endsNumeral_unit (rest : List Char) : EndsNumeral ('i' :: rest) := by
  refine ⟨rfl, rfl, ?_, rfl⟩
  unfold exponent
  split
  · next e d after eq =>
    cases eq
    rfl
  · rfl

/-- A number without the imaginary unit is read as it is. -/
theorem scanNumber_of_numeral {text lexeme rest : List Char} {value : Literal}
    (read : numeral text = .ok (value, lexeme, rest)) (stop : continuesWord rest = false) :
    scanNumber text = .ok ⟨.literal value, lexeme, rest⟩ := by
  unfold scanNumber
  rw [read]
  cases rest with
  | nil => rfl
  | cons c after =>
    have other : ((c = 'i' || c = 'j') && !continuesWord after) = false := by
      simp only [continuesWord, List.head?_cons, Option.any_some] at stop
      rw [Bool.and_eq_false_iff]
      left
      rw [Bool.or_eq_false_iff, decide_eq_false_iff_not, decide_eq_false_iff_not]
      constructor <;> rintro rfl <;> revert stop <;> decide
    simp only [bind, Except.bind, other, stop]
    rfl

namespace Numeral

variable {n : Numeral} {rest : List Char}

theorem Proper.scanNumber_plain (h : n.Proper) (stop : continuesWord rest = false)
    (point : ClassLang.fraction rest = ([], rest)) :
    scanNumber (n.chars ++ rest) = .ok ⟨.literal n.value, n.chars, rest⟩ :=
  scanNumber_of_numeral (h.numeral_read (endsNumeral_of_stop stop point)) stop

theorem Proper.scanNumber_imaginary (h : n.Proper) (stop : continuesWord rest = false) :
    scanNumber (n.chars ++ 'i' :: rest) =
      .ok ⟨.literal (imaginaryOf n.value), n.chars ++ ['i'], rest⟩ := by
  have read := h.numeral_read (endsNumeral_unit rest)
  unfold scanNumber
  rw [read]
  simp only [bind, Except.bind, stop]
  rfl

end Numeral

/-! ## Whole numbers -/

theorem toString_chars (n : Nat) : (toString n).toList = Nat.toDigits 10 n := Nat.toList_repr

theorem int_numeral (n : Nat) : ∃ parts : Numeral, parts.Proper ∧
    (Literal.int n).text.toList = parts.chars ∧ parts.value = .int n := by
  refine ⟨⟨Nat.toDigits 10 n, [], []⟩, ⟨Nat.toDigits_ne_nil, isDigit_of_mem_toDigits, .inl rfl,
    .inl rfl⟩, ?_, ?_⟩
  · rw [Literal.text, toString_chars]
    simp [Numeral.chars]
  · simp [Numeral.value, decimalValue, digitsValue_ten isDigit_of_mem_toDigits]

/-! ## Binary numbers -/

theorem Numeral.value_decimal (n : Numeral) (marked : n.fraction ≠ [] ∨ n.exponent ≠ []) :
    n.value = .float (.ofDecimal (digitsValue 10 (n.whole ++ n.fraction.drop 1))
      (exponentValue n.exponent - (n.fraction.drop 1).length)) := by
  unfold Numeral.value decimalValue
  rw [if_neg]
  rw [Bool.and_eq_true, List.isEmpty_iff, List.isEmpty_iff]
  rintro ⟨noFraction, noExponent⟩
  rcases marked with h | h <;> contradiction

/-- A number in parts that stands for a decimal. -/
structure Numeral.Shows (n : Numeral) (d : Binary64.DecimalDigits) : Prop where
  proper : n.Proper
  marked : n.fraction ≠ [] ∨ n.exponent ≠ []
  value : (Nat.ofDigitChars 10 (n.whole ++ n.fraction.drop 1) 0 : ℚ) *
    10 ^ (exponentValue n.exponent - (n.fraction.drop 1).length) = d.value

theorem Numeral.Shows.value_eq {n : Numeral} {d : Binary64.DecimalDigits} {m : Nat} {e : Int}
    (h : n.Shows d) (form : (Binary64.finite m e).isCanonical = true) (nonzero : m ≠ 0)
    (near : Binary64.Nearest m e d.value) : n.value = .float (.finite m e) := by
  have digits : ∀ c ∈ n.whole ++ n.fraction.drop 1, c.isDigit = true := by
    intro c hc
    rcases List.mem_append.1 hc with whole | places
    · exact h.proper.whole c whole
    · rcases h.proper.fraction with eq | ⟨d, ds, eq, all⟩
      · rw [eq] at places
        cases places
      · rw [eq] at places
        exact all c places
  rw [n.value_decimal h.marked, digitsValue_ten digits]
  rw [Binary64.ofDecimal_eq_of_nearest form nonzero]
  rwa [h.value]

theorem fraction_form {places : List Char} (nonempty : places ≠ [])
    (all : ∀ c ∈ places, c.isDigit = true) :
    ∃ d ds, '.' :: places = '.' :: d :: ds ∧ ∀ c ∈ d :: ds, c.isDigit = true := by
  obtain ⟨d, ds, rfl⟩ := List.exists_cons_of_ne_nil nonempty
  exact ⟨d, ds, rfl, all⟩

theorem isDigit_of_mem_zeros {k : Nat} : ∀ c ∈ List.replicate k '0', c.isDigit = true := by
  intro c hc
  rw [List.eq_of_mem_replicate hc]
  rfl

theorem isDigit_of_mem_append {front back : List Char} (hf : ∀ c ∈ front, c.isDigit = true)
    (hb : ∀ c ∈ back, c.isDigit = true) : ∀ c ∈ front ++ back, c.isDigit = true :=
  fun c hc => (List.mem_append.1 hc).elim (hf c) (hb c)

theorem positional_shows {d : Binary64.DecimalDigits} (h : d.Proper) :
    ∃ n : Numeral, n.Shows d ∧ Binary64.positional d = n.chars := by
  have length : 0 < d.digits.length := List.length_pos_iff.2 h.nonempty
  unfold Binary64.positional
  split
  · next low =>
    refine ⟨⟨['0'], '.' :: (List.replicate (-d.point).toNat '0' ++ d.digits), []⟩, ⟨⟨by simp, ?_,
      .inr (fraction_form (by simp [h.nonempty]) ?_), .inl rfl⟩, .inl (by simp), ?_⟩,
      by simp [Numeral.chars]⟩
    · simp
    · exact isDigit_of_mem_append isDigit_of_mem_zeros h.digits
    · rw [List.drop_one, List.tail_cons, List.singleton_append, Nat.ofDigitChars_cons,
        Nat.ofDigitChars_append, Nat.ofDigitChars_replicate_zero, List.length_append,
        List.length_replicate, Binary64.DecimalDigits.value]
      simp only [exponentValue]
      congr 2
      omega
  · next high =>
    obtain ⟨k, hk⟩ : ∃ k : Nat, d.point = k := ⟨d.point.toNat, by omega⟩
    rw [hk, Int.toNat_natCast]
    dsimp only
    rcases Nat.lt_or_ge k d.digits.length with inside | beyond
    · have more : d.digits.drop k ≠ [] := by simp [inside]
      have none_ : k - (d.digits.take k).length = 0 := by
        rw [List.length_take]
        omega
      rw [none_, if_neg (by simp [inside]), List.replicate_zero, List.append_nil]
      refine ⟨⟨d.digits.take k, '.' :: d.digits.drop k, []⟩, ⟨⟨?_, ?_,
        .inr (fraction_form more ?_), .inl rfl⟩, .inl (by simp), ?_⟩, by simp [Numeral.chars]⟩
      · simp [h.nonempty]
        omega
      · exact fun c hc => h.digits c (List.mem_of_mem_take hc)
      · exact fun c hc => h.digits c (List.mem_of_mem_drop hc)
      · rw [List.drop_one, List.tail_cons, List.take_append_drop, List.length_drop,
          Binary64.DecimalDigits.value, hk]
        simp only [exponentValue]
        congr 2
        omega
    · rw [List.take_of_length_le beyond, List.drop_of_length_le beyond, List.isEmpty_nil,
        if_pos rfl]
      refine ⟨⟨d.digits ++ List.replicate (k - d.digits.length) '0', ['.', '0'], []⟩,
        ⟨⟨by simp [h.nonempty], isDigit_of_mem_append h.digits isDigit_of_mem_zeros,
          .inr ⟨'0', [], rfl, by simp⟩, .inl rfl⟩, .inl (by simp), ?_⟩, by simp [Numeral.chars]⟩
      have shifted : (10 : ℚ) ^ (d.point - d.digits.length) = 10 ^ (k - d.digits.length) := by
        rw [← zpow_natCast]
        congr 1
        omega
      rw [Nat.ofDigitChars_append, Nat.ofDigitChars_append, Nat.ofDigitChars_replicate_zero,
        Binary64.DecimalDigits.value, shifted]
      simp only [exponentValue, List.drop_one, List.tail_cons, Nat.ofDigitChars_cons,
        Nat.ofDigitChars_nil, List.length_singleton]
      norm_num
      ring

theorem exponent_form (power : Int) :
    (∃ sign d ds, 'e' :: (toString power).toList = 'e' :: (sign ++ d :: ds) ∧
      (sign = [] ∨ sign = ['-']) ∧ ∀ c ∈ d :: ds, c.isDigit = true) ∧
    exponentValue ('e' :: (toString power).toList) = power := by
  have parts (n : Nat) : ∃ d ds, (toString n).toList = d :: ds ∧ (∀ c ∈ d :: ds, c.isDigit = true) ∧
      digitsValue 10 (d :: ds) = n := by
    obtain ⟨d, ds, eq⟩ := List.exists_cons_of_ne_nil (@Nat.toDigits_ne_nil n 10)
    have all : ∀ c ∈ d :: ds, c.isDigit = true := eq ▸ isDigit_of_mem_toDigits
    refine ⟨d, ds, by rw [toString_chars, eq], all, ?_⟩
    rw [digitsValue_ten all, ← eq, Nat.ofDigitChars_ten_toDigits]
  cases power with
  | ofNat n =>
    obtain ⟨d, ds, eq, all, value⟩ := parts n
    rw [show (toString (Int.ofNat n)).toList = d :: ds from eq]
    refine ⟨⟨[], d, ds, rfl, .inl rfl, all⟩, ?_⟩
    have digit := all d (by simp)
    unfold exponentValue
    split
    · next eq' =>
      cases eq'
      cases digit
    · next eq' =>
      cases eq'
      cases digit
    · next eq' =>
      cases eq'
      rw [value]
      rfl
    · next eq' => cases eq'
  | negSucc n =>
    obtain ⟨d, ds, eq, all, value⟩ := parts (n + 1)
    have text : (toString (Int.negSucc n)).toList = '-' :: d :: ds := by
      rw [← eq, ← List.singleton_append, ← String.toList_singleton, ← String.toList_append]
      rfl
    rw [text]
    refine ⟨⟨['-'], d, ds, rfl, .inr rfl, all⟩, ?_⟩
    simp only [exponentValue]
    rw [value]
    rfl

theorem scientific_shows {layout : Binary64.Layout} {d : Binary64.DecimalDigits} (h : d.Proper)
    (sign : layout.exponentSign = "") :
    ∃ n : Numeral, n.Shows d ∧ Binary64.scientific layout d = n.chars := by
  have length : 0 < d.digits.length := List.length_pos_iff.2 h.nonempty
  obtain ⟨form, value⟩ := exponent_form (d.point - 1)
  have noSign : (if d.point - 1 < 0 then [] else layout.exponentSign.toList) = [] := by
    rw [sign]
    split <;> rfl
  unfold Binary64.scientific
  dsimp only
  rw [noSign]
  refine ⟨⟨d.digits.take 1, if d.digits.length ≤ 1 then [] else '.' :: d.digits.drop 1,
    'e' :: (toString (d.point - 1)).toList⟩, ⟨⟨?_, ?_, ?_, .inr form⟩, .inr (by simp), ?_⟩,
    by simp [Numeral.chars]⟩
  · simp [h.nonempty]
  · exact fun c hc => h.digits c (List.mem_of_mem_take hc)
  · split
    · exact .inl rfl
    · next more =>
      have nonempty : d.digits.drop 1 ≠ [] := by
        rw [Ne, List.drop_eq_nil_iff]
        exact more
      exact .inr (fraction_form nonempty fun c hc => h.digits c (List.mem_of_mem_drop hc))
  · dsimp only
    rw [value, Binary64.DecimalDigits.value]
    split
    · next single =>
      rw [List.drop_nil, List.append_nil, List.take_of_length_le single, List.length_nil]
      congr 2
      omega
    · rw [List.drop_one, List.tail_cons, List.take_append_drop, List.length_drop]
      congr 2
      omega

theorem float_numeral {v : Binary64} (form : v.isCanonical = true) (finite : v.isFinite = true) :
    ∃ n : Numeral, n.Proper ∧ (v.text Literal.numberLayout).toList = n.chars ∧
      n.value = .float v := by
  cases v with
  | infinite => cases finite
  | finite m e =>
    by_cases zero : m = 0
    · subst zero
      have least := (Binary64.isCanonical_finite.1 form).2.2.2.resolve_left (by decide)
      subst least
      exact ⟨⟨['0'], ['.', '0'], []⟩, ⟨by simp, by simp, .inr ⟨'0', [], rfl, by simp⟩, .inl rfl⟩,
        rfl, rfl⟩
    · obtain ⟨proper, near⟩ := Binary64.shortest_nearest Literal.numberLayout.tie form zero
      have shown : ∃ n : Numeral, n.Shows (Binary64.shortest m e Literal.numberLayout.tie) ∧
          ((Binary64.finite m e).text Literal.numberLayout).toList = n.chars := by
        unfold Binary64.text
        dsimp only
        rw [String.toList_ofList]
        split
        · exact positional_shows proper
        · exact scientific_shows proper rfl
      obtain ⟨n, shows_, text⟩ := shown
      exact ⟨n, shows_.proper, text, shows_.value_eq form zero near⟩

end ClassLang
