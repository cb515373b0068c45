import ClassLang.Number.Binary64
import Mathlib.Algebra.Order.Field.Power
import Mathlib.Data.Rat.Lemmas
import Mathlib.Tactic.FieldSimp
import Mathlib.Tactic.Linarith
import Mathlib.Tactic.Positivity
import Mathlib.Tactic.Ring

/-!
Rounding to the nearest binary number. `Nearest m e x` is the interval of the quotients that round
to `m * 2 ^ e`; it is half as wide below a power of two.

* `ofDecimal_eq_of_nearest`: a decimal in the interval of a number is read as this number.
* `ofDecimal_canonical`: what is read has the one form of its value.
-/

namespace ClassLang.Binary64

/-- The one form of each number: 53 bits of mantissa, or fewer at the least exponent. -/
def isCanonical : Binary64 → Bool
  | finite mantissa exponent =>
    mantissa < 2 ^ 53 && leastExponent ≤ exponent && exponent ≤ greatestExponent &&
      (2 ^ 52 ≤ mantissa || exponent = leastExponent)
  | infinite => true

theorem isCanonical_finite {m : Nat} {e : Int} : (finite m e).isCanonical = true ↔
    m < 2 ^ 53 ∧ -1074 ≤ e ∧ e ≤ 971 ∧ (2 ^ 52 ≤ m ∨ e = -1074) := by
  simp only [isCanonical, Bool.and_eq_true, Bool.or_eq_true, decide_eq_true_eq, and_assoc]
  exact Iff.rfl

theorem zero_canonical : zero.isCanonical = true := by decide

/-! ## Powers -/

theorem zpow_eq_div (b : ℚ) (n : Int) : b ^ n = b ^ n.toNat / b ^ (-n).toNat := by
  rcases Int.le_total 0 n with h | h
  · have zero : (-n).toNat = 0 := by omega
    rw [zero, pow_zero, div_one, ← zpow_natCast, Int.toNat_of_nonneg h]
  · have zero : n.toNat = 0 := by omega
    rw [zero, pow_zero, ← zpow_natCast, Int.toNat_of_nonneg (by omega), zpow_neg, one_div, inv_inv]

theorem twoTo_cast (n : Nat) : (twoTo n : ℚ) = 2 ^ n := by simp [twoTo]

theorem tenTo_cast (n : Nat) : (tenTo n : ℚ) = 10 ^ n := by simp [tenTo]

theorem twoTo_pos (n : Nat) : 0 < twoTo n := Nat.pow_pos (by decide)

theorem tenTo_pos (n : Nat) : 0 < tenTo n := Nat.pow_pos (by decide)

theorem scaleDown_ratio (num den : Nat) (e : Int) :
    ((scaleDown num den e).1 : ℚ) / (scaleDown num den e).2 = num / den / 2 ^ e := by
  rw [zpow_eq_div 2 e]
  simp only [scaleDown, Nat.cast_mul, twoTo_cast]
  field_simp

theorem scaleDown_pos (num : Nat) {den : Nat} (e : Int) (positive : 0 < den) :
    0 < (scaleDown num den e).2 :=
  Nat.mul_pos positive (twoTo_pos _)

theorem ratio_bounds {num den : Nat} (hn : num ≠ 0) (hd : 0 < den) :
    (2 : ℚ) ^ ((num.log2 : Int) - den.log2 - 1) < num / den ∧
      (num / den : ℚ) < 2 ^ ((num.log2 : Int) - den.log2 + 1) := by
  have numLow : ((2 ^ num.log2 : Nat) : ℚ) ≤ num := by exact_mod_cast Nat.log2_self_le hn
  have numHigh : (num : ℚ) < ((2 ^ (num.log2 + 1) : Nat) : ℚ) := by
    exact_mod_cast Nat.lt_log2_self
  have denLow : ((2 ^ den.log2 : Nat) : ℚ) ≤ den := by
    exact_mod_cast Nat.log2_self_le (by omega)
  have denHigh : (den : ℚ) < ((2 ^ (den.log2 + 1) : Nat) : ℚ) := by
    exact_mod_cast Nat.lt_log2_self
  have positive : (0 : ℚ) < den := by exact_mod_cast hd
  push_cast at numLow numHigh denLow denHigh
  constructor
  · rw [lt_div_iff₀ positive]
    calc (2 : ℚ) ^ ((num.log2 : Int) - den.log2 - 1) * den
        < 2 ^ ((num.log2 : Int) - den.log2 - 1) * 2 ^ (den.log2 + 1) := by gcongr
      _ = 2 ^ num.log2 := by
        rw [← zpow_natCast, ← zpow_natCast, ← zpow_add₀ (by norm_num)]
        congr 1
        omega
      _ ≤ num := numLow
  · rw [div_lt_iff₀ positive]
    calc (num : ℚ) < 2 ^ (num.log2 + 1) := numHigh
      _ = 2 ^ ((num.log2 : Int) - den.log2 + 1) * 2 ^ den.log2 := by
        rw [← zpow_natCast, ← zpow_natCast, ← zpow_add₀ (by norm_num)]
        congr 1
        omega
      _ ≤ 2 ^ ((num.log2 : Int) - den.log2 + 1) * den := by gcongr

/-! ## The exponent -/

/-- What `ofRatio` computes before it brings the mantissa into form: the quotient divided by the
power of two that leaves it 53 bits in front of the point. -/
structure Scaled (x : ℚ) where
  num : Nat
  den : Nat
  exponent : Int
  positive : 0 < den
  ratio : (num : ℚ) / den = x / 2 ^ exponent
  least : -1074 ≤ exponent
  below : num < 2 ^ 53 * den
  above : exponent = -1074 ∨ 2 ^ 52 * den ≤ num

/-- The mantissa before it is brought into form. -/
def Scaled.rounded {x : ℚ} (s : Scaled x) : Nat := roundHalfEven s.num s.den

theorem ofRatio_scaled {num den : Nat} (hn : num ≠ 0) (hd : 0 < den) :
    ∃ s : Scaled ((num : ℚ) / den), ofRatio num den = normalize s.rounded s.exponent := by
  let guess : Int := max ((num.log2 : Int) - den.log2 - 53) leastExponent
  obtain ⟨low, high⟩ := ratio_bounds hn hd
  have leastGuess : -1074 ≤ guess := Int.le_max_right _ _
  have fits (e : Int) : (scaleDown num den e).1 / (scaleDown num den e).2 < twoTo 53 ↔
      (num : ℚ) / den < 2 ^ (e + 53) := by
    have positive := scaleDown_pos num e hd
    rw [Nat.div_lt_iff_lt_mul positive, ← @Nat.cast_lt ℚ, Nat.cast_mul, twoTo_cast,
      ← div_lt_iff₀ (by exact_mod_cast positive), scaleDown_ratio,
      div_lt_iff₀ (by positivity), add_comm, zpow_add₀ (by norm_num)]
    rfl
  have above (e : Int) : 2 ^ 52 * (scaleDown num den e).2 ≤ (scaleDown num den e).1 ↔
      (2 : ℚ) ^ (e + 52) ≤ num / den := by
    have positive := scaleDown_pos num e hd
    rw [← @Nat.cast_le ℚ, Nat.cast_mul, ← le_div_iff₀ (by exact_mod_cast positive),
      scaleDown_ratio, le_div_iff₀ (by positivity), add_comm, zpow_add₀ (by norm_num)]
    norm_num
  have chosen (e : Int) (h : -1074 ≤ e) (hb : (num : ℚ) / den < 2 ^ (e + 53))
      (ha : e = -1074 ∨ (2 : ℚ) ^ (e + 52) ≤ num / den) :
      ∃ s : Scaled ((num : ℚ) / den),
        normalize (roundHalfEven (scaleDown num den e).1 (scaleDown num den e).2) e =
          normalize s.rounded s.exponent := by
    have positive := scaleDown_pos num e hd
    have below := (Nat.div_lt_iff_lt_mul positive).1 ((fits e).2 hb)
    exact ⟨⟨_, _, e, positive, scaleDown_ratio num den e, h, below, ha.imp_right (above e).2⟩, rfl⟩
  unfold ofRatio
  rw [if_neg hn]
  dsimp only
  by_cases small : (num : ℚ) / den < 2 ^ (guess + 53)
  · rw [if_pos (decide_eq_true ((fits guess).2 small))]
    refine chosen guess leastGuess small ?_
    rcases Int.le_total ((num.log2 : Int) - den.log2 - 53) leastExponent with h | h
    · exact .inl (Int.max_eq_right h)
    · right
      rw [show guess + 52 = (num.log2 : Int) - den.log2 - 1 by
        rw [show guess = (num.log2 : Int) - den.log2 - 53 from Int.max_eq_left h]
        omega]
      exact low.le
  · rw [if_neg (by simpa using fun h => small ((fits guess).1 h))]
    refine chosen (guess + 1) (by omega) (high.trans_le ?_) (.inr ?_)
    · have le : (num.log2 : Int) - den.log2 - 53 ≤ guess := Int.le_max_left _ _
      exact zpow_le_zpow_right₀ (by norm_num) (by omega)
    · rw [show guess + 1 + 52 = guess + 53 by omega]
      exact not_lt.1 small

theorem Scaled.positive_ratio {x : ℚ} (s : Scaled x) : 0 < (s.den : ℚ) := by
  exact_mod_cast s.positive

/-! ## The form of what is read -/

theorem Scaled.near {x : ℚ} (s : Scaled x) :
    2 * s.num ≤ 2 * (s.den * s.rounded) + s.den ∧ 2 * (s.den * s.rounded) ≤ 2 * s.num + s.den :=
  roundHalfEven_near s.positive

theorem rounded_le {x : ℚ} (s : Scaled x) : s.rounded ≤ 2 ^ 53 := by
  have near := s.near.2
  have below := s.below
  by_contra beyond
  have step : s.den * (2 ^ 53 + 1) ≤ s.den * s.rounded := Nat.mul_le_mul_left _ (by omega)
  have positive := s.positive
  omega

theorem le_rounded {x : ℚ} (s : Scaled x) (h : 2 ^ 52 * s.den ≤ s.num) : 2 ^ 52 ≤ s.rounded := by
  have near := s.near.1
  by_contra short
  have step : s.den * s.rounded ≤ s.den * (2 ^ 52 - 1) := Nat.mul_le_mul_left _ (by omega)
  have positive := s.positive
  omega

theorem normalize_canonical {m : Nat} {e : Int} (small : m ≤ 2 ^ 53) (least : -1074 ≤ e)
    (large : e = -1074 ∨ 2 ^ 52 ≤ m) : (normalize m e).isCanonical = true := by
  unfold normalize
  by_cases grown : m = twoTo 53
  · rw [if_pos grown]
    dsimp only
    split
    · rfl
    · next h =>
      refine isCanonical_finite.2 ⟨by decide, by omega, ?_, .inl (by decide)⟩
      simpa [greatestExponent] using h
  · rw [if_neg grown]
    dsimp only
    split
    · rfl
    · next h =>
      have strict : m < 2 ^ 53 := Nat.lt_of_le_of_ne small grown
      refine isCanonical_finite.2 ⟨strict, least, ?_, large.symm⟩
      simpa [greatestExponent] using h

theorem ofRatio_canonical (num : Nat) {den : Nat} (hd : 0 < den) :
    (ofRatio num den).isCanonical = true := by
  by_cases hn : num = 0
  · rw [ofRatio, if_pos hn]
    exact zero_canonical
  · obtain ⟨s, eq⟩ := ofRatio_scaled hn hd
    rw [eq]
    exact normalize_canonical (rounded_le s) s.least (s.above.imp_right (le_rounded s))

theorem ofNat_canonical (n : Nat) : (ofNat n).isCanonical = true :=
  ofRatio_canonical n Nat.one_pos

theorem ofDecimal_canonical (digits : Nat) (exponent : Int) :
    (ofDecimal digits exponent).isCanonical = true := by
  unfold ofDecimal
  dsimp only
  split
  · exact zero_canonical
  split
  · rfl
  · exact ofRatio_canonical _ (tenTo_pos _)

/-! ## The nearest number -/

/-- The values that round to `m * 2 ^ e`, in quarters of the last bit. -/
structure Nearest (m : Nat) (e : Int) (x : ℚ) : Prop where
  low : (if m = 2 ^ 52 ∧ -1074 < e then 4 * m - 1 else 4 * m - 2 : ℚ) ≤ 4 * (x / 2 ^ e)
  high : 4 * (x / 2 ^ e) ≤ 4 * m + 2
  odd : m % 2 = 1 → (4 * m - 2 : ℚ) < 4 * (x / 2 ^ e) ∧ 4 * (x / 2 ^ e) < 4 * m + 2

theorem Nearest.half {m : Nat} {e : Int} {x : ℚ} (h : Nearest m e x) :
    (4 * m - 2 : ℚ) ≤ 4 * (x / 2 ^ e) := by
  have low := h.low
  split at low <;> linarith

/-- A quotient no further than a half from a whole number, and nearer if this number is odd. -/
theorem roundHalfEven_eq {num den m : Nat} (positive : 0 < den)
    (low : 2 * (den * m) ≤ 2 * num + den) (high : 2 * num ≤ 2 * (den * m) + den)
    (odd : m % 2 = 1 → 2 * (den * m) < 2 * num + den ∧ 2 * num < 2 * (den * m) + den) :
    roundHalfEven num den = m := by
  have parts := Nat.div_add_mod num den
  have small := Nat.mod_lt num positive
  have candidates : m = num / den ∨ m = num / den + 1 := by
    rcases Nat.lt_or_ge m (num / den) with less | le
    · have step := Nat.mul_le_mul_left den less
      rw [Nat.mul_succ] at step
      omega
    · rcases Nat.lt_or_ge (num / den + 1) m with more | ge
      · have step := Nat.mul_le_mul_left den more
        rw [Nat.mul_succ, Nat.mul_succ] at step
        omega
      · omega
  unfold roundHalfEven
  dsimp only
  rcases candidates with eq | eq
  · rw [← eq] at parts ⊢
    split
    · rfl
    split
    · omega
    · rcases Nat.mod_two_eq_zero_or_one m with even | isOdd
      · omega
      · have strict := odd isOdd
        omega
  · have step : den * m = den * (num / den) + den := by rw [eq, Nat.mul_succ]
    split
    · omega
    split
    · exact eq.symm
    · rcases Nat.mod_two_eq_zero_or_one m with even | isOdd
      · omega
      · have strict := odd isOdd
        omega

theorem Scaled.rounded_eq {x : ℚ} (s : Scaled x) {k : Nat}
    (low : (4 * k - 2 : ℚ) ≤ 4 * (x / 2 ^ s.exponent))
    (high : 4 * (x / 2 ^ s.exponent) ≤ 4 * k + 2)
    (odd : k % 2 = 1 → (4 * k - 2 : ℚ) < 4 * (x / 2 ^ s.exponent) ∧
      4 * (x / 2 ^ s.exponent) < 4 * k + 2) : s.rounded = k := by
  have positive := s.positive_ratio
  have whole : x / 2 ^ s.exponent * s.den = s.num := by
    rw [← s.ratio, div_mul_cancel₀ _ positive.ne']
  refine roundHalfEven_eq s.positive ?_ ?_ fun isOdd => ?_
  · have scaled := mul_le_mul_of_nonneg_right low positive.le
    have goal : (2 * (s.den * k) : ℚ) ≤ 2 * s.num + s.den := by linarith
    exact_mod_cast goal
  · have scaled := mul_le_mul_of_nonneg_right high positive.le
    have goal : (2 * s.num : ℚ) ≤ 2 * (s.den * k) + s.den := by linarith
    exact_mod_cast goal
  · have scaledLow := mul_lt_mul_of_pos_right (odd isOdd).1 positive
    have scaledHigh := mul_lt_mul_of_pos_right (odd isOdd).2 positive
    have goalLow : (2 * (s.den * k) : ℚ) < 2 * s.num + s.den := by linarith
    have goalHigh : (2 * s.num : ℚ) < 2 * (s.den * k) + s.den := by linarith
    exact ⟨by exact_mod_cast goalLow, by exact_mod_cast goalHigh⟩

theorem normalize_of_lt {m : Nat} {e : Int} (small : m < 2 ^ 53) (greatest : e ≤ 971) :
    normalize m e = finite m e := by
  have notGrown : ¬m = twoTo 53 := Nat.ne_of_lt small
  unfold normalize
  rw [if_neg notGrown]
  exact if_neg (by simpa [greatestExponent] using greatest)

theorem normalize_grown {e : Int} (greatest : e + 1 ≤ 971) :
    normalize (2 ^ 53) e = finite (2 ^ 52) (e + 1) := by
  unfold normalize
  rw [if_pos (show 2 ^ 53 = twoTo 53 from rfl)]
  exact if_neg (by simpa [greatestExponent] using greatest)

theorem ofRatio_eq_of_nearest {num den m : Nat} {e : Int} (hn : num ≠ 0) (hd : 0 < den)
    (form : (finite m e).isCanonical = true) (near : Nearest m e (num / den)) :
    ofRatio num den = finite m e := by
  obtain ⟨small, least, greatest, normal⟩ := isCanonical_finite.1 form
  obtain ⟨s, eq⟩ := ofRatio_scaled hn hd
  rw [eq]
  have half := near.half
  have high := near.high
  have low := near.low
  have top : (m + 1 : ℚ) ≤ 2 ^ 53 := by exact_mod_cast small
  have positive := s.positive_ratio
  have below : (num / den : ℚ) / 2 ^ s.exponent < 2 ^ 53 := by
    rw [← s.ratio, div_lt_iff₀ positive]
    exact_mod_cast s.below
  have shift {a b : Int} (k : Nat) (h : b = a + k) :
      (num / den : ℚ) / 2 ^ a = (num / den : ℚ) / 2 ^ b * 2 ^ k := by
    rw [h, zpow_add₀ (by norm_num), zpow_natCast]
    field_simp
  rcases Int.lt_trichotomy s.exponent e with less | same | more
  · -- The number is a power of two and the quotient lies below it, in the finer half.
    have large : 2 ^ 52 ≤ m := normal.resolve_right (by have := s.least; omega)
    obtain ⟨k, hk⟩ : ∃ k : Nat, e = s.exponent + (k + 1) :=
      ⟨(e - s.exponent - 1).toNat, by omega⟩
    have finer := shift (k + 1) (by exact_mod_cast hk)
    have power : (1 : ℚ) ≤ 2 ^ k := one_le_pow₀ (by norm_num)
    rw [pow_succ] at finer
    have boundary : m = 2 ^ 52 := by
      by_contra other
      have larger : (2 ^ 52 + 1 : ℚ) ≤ m := by exact_mod_cast (by omega : 2 ^ 52 + 1 ≤ m)
      nlinarith
    rw [if_pos ⟨boundary, by have := s.least; omega⟩, boundary] at low
    have single : k = 0 := by
      by_contra other
      have double : (2 : ℚ) ≤ 2 ^ k := by
        calc (2 : ℚ) = 2 ^ 1 := (pow_one _).symm
          _ ≤ 2 ^ k := pow_le_pow_right₀ (by norm_num) (by omega)
      push_cast at low
      nlinarith
    subst single
    rw [pow_zero, one_mul] at finer
    have grown : s.rounded = 2 ^ 53 := by
      refine s.rounded_eq ?_ ?_ fun odd => absurd odd (by decide)
      · push_cast at low ⊢
        linarith
      · push_cast
        linarith
    rw [grown, normalize_grown (by omega), boundary]
    congr 1
    omega
  · rw [← same] at half high near
    rw [s.rounded_eq half high near.odd, normalize_of_lt small (by omega), same]
  · exfalso
    obtain ⟨k, hk⟩ : ∃ k : Nat, s.exponent = e + (k + 1) :=
      ⟨(s.exponent - e - 1).toNat, by omega⟩
    have coarser := shift (k + 1) (by exact_mod_cast hk)
    have power : (1 : ℚ) ≤ 2 ^ k := one_le_pow₀ (by norm_num)
    have above := s.above.resolve_left (by omega)
    have large : (2 ^ 52 : ℚ) ≤ (num / den : ℚ) / 2 ^ s.exponent := by
      rw [← s.ratio, le_div_iff₀ positive]
      exact_mod_cast above
    rw [pow_succ] at coarser
    nlinarith

/-! ## Decimals -/

theorem decimal_size {digits : Nat} (hn : digits ≠ 0) (exponent : Int) :
    (10 : ℚ) ^ ((Nat.toDigits 10 digits).length + exponent - 1) ≤ digits * 10 ^ exponent ∧
      (digits * 10 ^ exponent : ℚ) < 10 ^ ((Nat.toDigits 10 digits).length + exponent) := by
  have length := @Nat.length_toDigits_pos 10 digits
  obtain ⟨k, hk⟩ : ∃ k, (Nat.toDigits 10 digits).length = k + 1 :=
    ⟨(Nat.toDigits 10 digits).length - 1, by omega⟩
  have below : digits < 10 ^ (k + 1) :=
    (Nat.length_toDigits_le_iff (by decide) (by omega)).1 hk.le
  have above : 10 ^ k ≤ digits := by
    rcases Nat.eq_zero_or_pos k with rfl | positive
    · omega
    · by_contra less
      have shorter : (Nat.toDigits 10 digits).length ≤ k :=
        (Nat.length_toDigits_le_iff (by decide) positive).2 (Nat.not_le.1 less)
      omega
  rw [hk]
  constructor
  · rw [show ((k + 1 : Nat) : Int) + exponent - 1 = k + exponent by omega,
      zpow_add₀ (by norm_num), zpow_natCast]
    gcongr
    exact_mod_cast above
  · rw [zpow_add₀ (by norm_num), zpow_natCast]
    gcongr
    exact_mod_cast below

theorem least_bound : (10 : ℚ) ^ (-330 : Int) < 1 / 2 * 2 ^ (-1074 : Int) := by
  have whole : (2 : Nat) ^ 1075 < 10 ^ 330 := by decide +kernel
  rw [one_div, ← zpow_neg_one, ← zpow_add₀ (by norm_num), zpow_neg]
  rw [show (-1 + -1074 : Int) = -1075 from rfl, zpow_neg]
  refine inv_strictAnti₀ (by positivity) ?_
  exact_mod_cast whole

theorem greatest_bound : (2 : ℚ) ^ 53 * 2 ^ (971 : Int) < 10 ^ (309 : Int) := by
  have whole : (2 : Nat) ^ 53 * 2 ^ 971 < 10 ^ 309 := by decide +kernel
  exact_mod_cast whole

theorem Nearest.bounds {m : Nat} {e : Int} {x : ℚ} (form : (finite m e).isCanonical = true)
    (nonzero : m ≠ 0) (h : Nearest m e x) : (10 : ℚ) ^ (-330 : Int) < x ∧ x < 10 ^ (309 : Int) := by
  obtain ⟨small, least, greatest, -⟩ := isCanonical_finite.1 form
  have half := h.half
  have high := h.high
  have bottom : (1 : ℚ) ≤ m := by exact_mod_cast Nat.one_le_iff_ne_zero.2 nonzero
  have top : (m + 1 : ℚ) ≤ 2 ^ 53 := by exact_mod_cast small
  have positive : (0 : ℚ) < 2 ^ e := by positivity
  have product : x / 2 ^ e * 2 ^ e = x := div_mul_cancel₀ _ positive.ne'
  have lower : (1 / 2 : ℚ) ≤ x / 2 ^ e := by linarith
  have upper : x / 2 ^ e ≤ 2 ^ 53 := by linarith
  constructor
  · calc (10 : ℚ) ^ (-330 : Int) < 1 / 2 * 2 ^ (-1074 : Int) := least_bound
      _ ≤ x / 2 ^ e * 2 ^ e := by
        gcongr
        norm_num
      _ = x := product
  · calc x = x / 2 ^ e * 2 ^ e := product.symm
      _ ≤ 2 ^ 53 * 2 ^ (971 : Int) := by
        gcongr
        norm_num
      _ < 10 ^ (309 : Int) := greatest_bound

theorem ofDecimal_eq_of_nearest {digits m : Nat} {e exponent : Int}
    (form : (finite m e).isCanonical = true) (nonzero : m ≠ 0)
    (near : Nearest m e (digits * 10 ^ exponent)) : ofDecimal digits exponent = finite m e := by
  obtain ⟨lower, upper⟩ := near.bounds form nonzero
  have hn : digits ≠ 0 := by
    rintro rfl
    have positive : (0 : ℚ) < 10 ^ (-330 : Int) := by positivity
    rw [Nat.cast_zero, zero_mul] at lower
    linarith
  obtain ⟨sizeLow, sizeHigh⟩ := decimal_size hn exponent
  have notTiny : ¬ (Nat.toDigits 10 digits).length + exponent < -330 := by
    intro tiny
    have below : (10 : ℚ) ^ ((Nat.toDigits 10 digits).length + exponent) ≤ 10 ^ (-330 : Int) :=
      zpow_le_zpow_right₀ (by norm_num) tiny.le
    linarith
  have notHuge : ¬ 310 < (Nat.toDigits 10 digits).length + exponent := by
    intro huge
    have above : (10 : ℚ) ^ (309 : Int) ≤ 10 ^ ((Nat.toDigits 10 digits).length + exponent - 1) :=
      zpow_le_zpow_right₀ (by norm_num) (by omega)
    linarith
  have quotient : ((digits * tenTo exponent.toNat : Nat) : ℚ) / (tenTo (-exponent).toNat : Nat) =
      digits * 10 ^ exponent := by
    rw [zpow_eq_div, Nat.cast_mul, tenTo_cast, tenTo_cast, mul_div_assoc]
  unfold ofDecimal
  dsimp only
  rw [if_neg (by simp [hn]; omega), if_neg notHuge]
  refine ofRatio_eq_of_nearest (Nat.mul_ne_zero hn (tenTo_pos _).ne') (tenTo_pos _) form ?_
  rwa [quotient]

end ClassLang.Binary64
