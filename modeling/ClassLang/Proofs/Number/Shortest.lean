import ClassLang.Number.Shortest
import ClassLang.Proofs.Number.Rounding

/-!
The digits found for a number lie in its interval, so they are read as this number. Seventeen
places always suffice: the multiples of the last one are less than two halves of a bit apart.

* `shortest_nearest`: the decimal of `shortest` rounds to the number it was made from.
-/

namespace ClassLang.Binary64

/-! ## The magnitude -/

/-- Whether the guess of the magnitude, for numbers with so many binary digits before the point, is
at most one too high and at most four too low. -/
def guessHolds (size : Int) : Bool :=
  let guess := size * 30103 / 100000 - 1
  tenTo (guess - 1).toNat * twoTo (-size).toNat ≤ twoTo size.toNat * tenTo (-(guess - 1)).toNat &&
    twoTo (size + 1).toNat * tenTo (-(guess + 4)).toNat ≤
      tenTo (guess + 4).toNat * twoTo (-(size + 1)).toNat

theorem guessHolds_of_mem {size : Int} (low : -1074 ≤ size) (high : size < 1024) :
    guessHolds size = true := by
  have table : ((List.range 2098).all fun (i : Nat) => guessHolds ((i : Int) - 1074)) = true := by
    decide +kernel
  have entry := List.all_eq_true.1 table (size + 1074).toNat (List.mem_range.2 (by omega))
  rwa [show ((size + 1074).toNat : Int) - 1074 = size by omega] at entry

theorem power_le_power_iff {a b : Nat} (ha : 0 < a) (hb : 0 < b) (i j : Int) :
    a ^ i.toNat * b ^ (-j).toNat ≤ b ^ j.toNat * a ^ (-i).toNat ↔ (a : ℚ) ^ i ≤ (b : ℚ) ^ j := by
  rw [zpow_eq_div, zpow_eq_div, div_le_div_iff₀ (by positivity) (by positivity)]
  exact_mod_cast Iff.rfl

theorem guess_bounds {size : Int} (low : -1074 ≤ size) (high : size < 1024) :
    (10 : ℚ) ^ (size * 30103 / 100000 - 1 - 1) ≤ 2 ^ size ∧
      (2 : ℚ) ^ (size + 1) ≤ 10 ^ (size * 30103 / 100000 - 1 + 4) := by
  have holds := guessHolds_of_mem low high
  unfold guessHolds at holds
  simp only [Bool.and_eq_true, decide_eq_true_eq] at holds
  exact ⟨(power_le_power_iff (by decide) (by decide) _ _).1 holds.1,
    (power_le_power_iff (by decide) (by decide) _ _).1 holds.2⟩

theorem value_bounds {m : Nat} (e : Int) (nonzero : m ≠ 0) :
    (2 : ℚ) ^ ((m.log2 : Int) + e) ≤ m * 2 ^ e ∧ (m * 2 ^ e : ℚ) < 2 ^ ((m.log2 : Int) + e + 1) := by
  have low : ((2 ^ m.log2 : Nat) : ℚ) ≤ m := by exact_mod_cast Nat.log2_self_le nonzero
  have high : (m : ℚ) < ((2 ^ (m.log2 + 1) : Nat) : ℚ) := by exact_mod_cast Nat.lt_log2_self
  push_cast at low high
  constructor
  · rw [zpow_add₀ (by norm_num), zpow_natCast]
    gcongr
  · rw [add_right_comm, zpow_add₀ (by norm_num), ← Nat.cast_add_one, zpow_natCast]
    gcongr

theorem first_above {above : Int → Bool} {least : Int} {n : Nat} (last : above (least + n) = true) :
    ∃ i : Nat, (((List.range (n + 1)).map fun (j : Nat) => least + (j : Int)).find? above) =
        some (least + i) ∧ above (least + i) = true ∧
      (i = 0 ∨ above (least + i - 1) = false) := by
  have found : (((List.range (n + 1)).map fun (j : Nat) => least + (j : Int)).find? above).isSome := by
    rw [List.find?_isSome]
    exact ⟨least + n, List.mem_map.2 ⟨n, List.mem_range.2 (by omega), rfl⟩, last⟩
  obtain ⟨k, hk⟩ := Option.isSome_iff_exists.1 found
  obtain ⟨holds, i, bound, at_i, before⟩ := List.find?_eq_some_iff_getElem.1 hk
  have value : k = least + i := by simpa using at_i.symm
  subst value
  refine ⟨i, hk, holds, ?_⟩
  rcases Nat.eq_zero_or_pos i with rfl | positive
  · exact .inl rfl
  · right
    have previous := before (i - 1) (by omega)
    simp only [List.getElem_map, List.getElem_range, Bool.not_eq_true'] at previous
    rwa [show least + ((i - 1 : Nat) : Int) = least + i - 1 by omega] at previous

theorem decimalMagnitude_bounds {m : Nat} {e : Int} (form : (finite m e).isCanonical = true)
    (nonzero : m ≠ 0) : (10 : ℚ) ^ (decimalMagnitude m e - 1) ≤ m * 2 ^ e ∧
      (m * 2 ^ e : ℚ) < 10 ^ decimalMagnitude m e := by
  obtain ⟨small, least, greatest, -⟩ := isCanonical_finite.1 form
  have bits : m.log2 < 53 := (Nat.log2_lt nonzero).2 small
  obtain ⟨low, high⟩ := value_bounds e nonzero
  have sizeLow : -1074 ≤ (m.log2 : Int) + e := by omega
  have sizeHigh : (m.log2 : Int) + e < 1024 := by omega
  obtain ⟨guessLow, guessHigh⟩ := guess_bounds sizeLow sizeHigh
  let above (k : Int) : Bool :=
    m * twoTo e.toNat * tenTo (-k).toNat < twoTo (-e).toNat * tenTo k.toNat
  have above_iff (k : Int) : above k = true ↔ (m * 2 ^ e : ℚ) < 10 ^ k := by
    rw [decide_eq_true_eq, zpow_eq_div 2, zpow_eq_div 10, ← mul_div_assoc, div_lt_div_iff₀ (by positivity)
      (by positivity), mul_comm ((10 : ℚ) ^ _)]
    rw [← @Nat.cast_lt ℚ]
    simp only [Nat.cast_mul, twoTo_cast, tenTo_cast]
  let guess : Int := ((m.log2 : Int) + e) * 30103 / 100000 - 1
  have last : above (guess + (4 : Nat)) = true := (above_iff _).2 (high.trans_le guessHigh)
  obtain ⟨i, found, holds, before⟩ := first_above last
  have magnitude : decimalMagnitude m e = guess + i := by
    unfold decimalMagnitude
    exact congrArg (fun found => found.getD guess) found
  rw [magnitude]
  refine ⟨?_, (above_iff _).1 holds⟩
  rcases before with rfl | less
  · rw [Nat.cast_zero, add_zero]
    exact guessLow.trans low
  · refine not_lt.1 fun below => ?_
    rw [(above_iff _).2 below] at less
    cases less

/-! ## The multiples that read back -/

namespace Grid

theorem lay_quarter_pos (m : Nat) (e place : Int) : 0 < (lay m e place).quarter :=
  Nat.mul_pos (tenTo_pos _) (twoTo_pos _)

theorem lay_width (m : Nat) (e place : Int) :
    ((lay m e place).width : ℚ) = 4 * (10 ^ place / 2 ^ e) * (lay m e place).quarter := by
  have two : (4 / 2 ^ e : ℚ) = 2 ^ (2 - e) := by
    rw [zpow_sub₀ (by norm_num)]
    norm_num
  have swap : (-(2 - e)).toNat = (e - 2).toNat := by omega
  rw [mul_div_left_comm, two, zpow_eq_div 10, zpow_eq_div 2 (2 - e), swap]
  simp only [lay, Nat.cast_mul, twoTo_cast, tenTo_cast]
  field_simp

theorem le_multiple_iff {m : Nat} {e place : Int} (k n : Nat) :
    k * (lay m e place).quarter ≤ n * (lay m e place).width ↔
      (k : ℚ) ≤ 4 * (n * 10 ^ place / 2 ^ e) := by
  have positive : (0 : ℚ) < (lay m e place).quarter := by exact_mod_cast lay_quarter_pos m e place
  rw [← @Nat.cast_le ℚ, Nat.cast_mul, Nat.cast_mul, lay_width,
    show (n * (4 * (10 ^ place / 2 ^ e) * (lay m e place).quarter) : ℚ) =
      4 * (n * 10 ^ place / 2 ^ e) * (lay m e place).quarter by ring,
    mul_le_mul_iff_of_pos_right positive]

theorem multiple_le_iff {m : Nat} {e place : Int} (k n : Nat) :
    n * (lay m e place).width ≤ k * (lay m e place).quarter ↔
      (4 * (n * 10 ^ place / 2 ^ e) : ℚ) ≤ k := by
  have positive : (0 : ℚ) < (lay m e place).quarter := by exact_mod_cast lay_quarter_pos m e place
  rw [← @Nat.cast_le ℚ, Nat.cast_mul, Nat.cast_mul, lay_width,
    show (n * (4 * (10 ^ place / 2 ^ e) * (lay m e place).quarter) : ℚ) =
      4 * (n * 10 ^ place / 2 ^ e) * (lay m e place).quarter by ring,
    mul_le_mul_iff_of_pos_right positive]

/-- The lower end of the interval of a mantissa, in quarters of its last bit. -/
def lowQuarters (m : Nat) (e : Int) : Nat :=
  if m = 2 ^ 52 ∧ -1074 < e then 4 * m - 1 else 4 * m - 2

theorem lowQuarters_cast {m : Nat} (e : Int) (nonzero : m ≠ 0) : (lowQuarters m e : ℚ) =
    (if m = 2 ^ 52 ∧ -1074 < e then 4 * m - 1 else 4 * m - 2 : ℚ) := by
  unfold lowQuarters
  split
  · rw [Nat.cast_sub (by omega)]
    push_cast
    rfl
  · rw [Nat.cast_sub (by omega)]
    push_cast
    rfl

theorem readsBack_eq (m : Nat) (e place : Int) (n : Nat) : (lay m e place).readsBack n =
    if m % 2 = 0 then
      decide (lowQuarters m e * (lay m e place).quarter ≤ n * (lay m e place).width) &&
        decide (n * (lay m e place).width ≤ (4 * m + 2) * (lay m e place).quarter)
    else decide (lowQuarters m e * (lay m e place).quarter < n * (lay m e place).width) &&
      decide (n * (lay m e place).width < (4 * m + 2) * (lay m e place).quarter) := by
  unfold readsBack lowQuarters
  simp only [Bool.and_eq_true, decide_eq_true_eq]
  rfl

theorem readsBack_iff {m : Nat} (e place : Int) (nonzero : m ≠ 0) (n : Nat) :
    (lay m e place).readsBack n = true ↔ Nearest m e (n * 10 ^ place) := by
  have low := lowQuarters_cast e nonzero
  have high : ((4 * m + 2 : Nat) : ℚ) = 4 * m + 2 := by push_cast; rfl
  rw [readsBack_eq]
  split
  · next even =>
    rw [Bool.and_eq_true, decide_eq_true_eq, decide_eq_true_eq, le_multiple_iff, multiple_le_iff,
      low, high]
    exact ⟨fun h => ⟨h.1, h.2, fun odd => by omega⟩, fun h => ⟨h.low, h.high⟩⟩
  · next odd =>
    rw [if_neg (by omega)] at low
    rw [Bool.and_eq_true, decide_eq_true_eq, decide_eq_true_eq, ← Nat.not_le, ← Nat.not_le,
      le_multiple_iff, multiple_le_iff, not_le, not_le, low, high]
    constructor
    · intro h
      refine ⟨?_, h.2.le, fun _ => h⟩
      rw [if_neg (by omega)]
      exact h.1.le
    · exact fun h => h.odd (by omega)

theorem readsBack_of_neighbour? {g : Grid} {tie : Tie} {n : Nat} (h : g.neighbour? tie = some n) :
    g.readsBack n = true := by
  unfold neighbour? at h
  dsimp only at h
  cases below : g.readsBack (g.value / g.width) <;>
    cases above : g.readsBack (g.value / g.width + 1) <;>
    rw [below, above] at h
  · cases h
  · cases h
    exact above
  · cases h
    exact below
  · dsimp only at h
    split at h
    · cases h
      exact below
    split at h
    · cases h
      exact above
    cases tie with
    | up =>
      cases h
      exact above
    | even =>
      dsimp only at h
      split at h <;> cases h <;> assumption

theorem neighbour?_isSome {g : Grid} (tie : Tie)
    (h : g.readsBack (g.value / g.width) = true ∨ g.readsBack (g.value / g.width + 1) = true) :
    (g.neighbour? tie).isSome = true := by
  unfold neighbour?
  dsimp only
  cases below : g.readsBack (g.value / g.width) <;>
    cases above : g.readsBack (g.value / g.width + 1)
  · rw [below, above] at h
    simp at h
  · rfl
  · rfl
  · dsimp only
    split
    · rfl
    split
    · rfl
    · cases tie <;> rfl

theorem nearest_of_lt {m : Nat} {e : Int} {x : ℚ}
    (low : (if m = 2 ^ 52 then 4 * m - 1 else 4 * m - 2 : ℚ) < 4 * (x / 2 ^ e))
    (high : 4 * (x / 2 ^ e) < 4 * m + 2) : Nearest m e x := by
  have half : (4 * m - 2 : ℚ) < 4 * (x / 2 ^ e) := by
    split at low <;> linarith
  refine ⟨?_, high.le, fun _ => ⟨half, high⟩⟩
  by_cases boundary : m = 2 ^ 52
  · rw [if_pos boundary] at low
    split <;> linarith
  · rw [if_neg fun h => boundary h.1]
    exact half.le

/-- Of the two multiples around a value one reads back: if the lower is too far away, then the
upper is near enough. -/
theorem neighbour?_isSome_of_narrow {m : Nat} {e place : Int} (tie : Tie) (nonzero : m ≠ 0)
    (narrow : (4 * (10 ^ place / 2 ^ e) : ℚ) < if m = 2 ^ 52 then 3 else 4) :
    ((lay m e place).neighbour? tie).isSome = true := by
  refine neighbour?_isSome tie ?_
  rw [readsBack_iff e place nonzero, readsBack_iff e place nonzero]
  have step : (0 : ℚ) < 10 ^ place / 2 ^ e := by positivity
  have quarter : (0 : ℚ) < (lay m e place).quarter := by exact_mod_cast lay_quarter_pos m e place
  have width : 0 < (lay m e place).width := by
    have positive : (0 : ℚ) < (lay m e place).width := by
      rw [lay_width]
      positivity
    exact_mod_cast positive
  generalize hn : (lay m e place).value / (lay m e place).width = n
  have below : (4 * (n * 10 ^ place / 2 ^ e) : ℚ) ≤ 4 * m := by
    have le := (multiple_le_iff (4 * m) n).1 (hn ▸ Nat.div_mul_le_self _ _)
    rwa [Nat.cast_mul] at le
  have above : (4 * m : ℚ) < 4 * ((n + 1 : Nat) * 10 ^ place / 2 ^ e) := by
    have lt : (lay m e place).value < (n + 1) * (lay m e place).width :=
      (Nat.div_lt_iff_lt_mul width).1 (hn ▸ Nat.lt_succ_self _)
    rwa [← Nat.not_le, value, show (lay m e place).mantissa = m from rfl, multiple_le_iff,
      Nat.cast_mul, not_le] at lt
  have next : (4 * ((n + 1 : Nat) * 10 ^ place / 2 ^ e) : ℚ) =
      4 * (n * 10 ^ place / 2 ^ e) + 4 * (10 ^ place / 2 ^ e) := by
    push_cast
    ring
  by_cases near : (if m = 2 ^ 52 then 4 * m - 1 else 4 * m - 2 : ℚ) < 4 * (n * 10 ^ place / 2 ^ e)
  · exact .inl (nearest_of_lt near (by linarith))
  · right
    refine nearest_of_lt ?_ ?_
    · split <;> linarith
    · rw [next]
      split at near <;> rename_i boundary
      · rw [if_pos boundary] at narrow
        linarith
      · rw [if_neg boundary] at narrow
        linarith

end Grid

theorem narrow_of_magnitude {m : Nat} {e : Int} (form : (finite m e).isCanonical = true)
    (nonzero : m ≠ 0) : (4 * (10 ^ (decimalMagnitude m e - 17) / 2 ^ e) : ℚ) <
      if m = 2 ^ 52 then 3 else 4 := by
  obtain ⟨small, -⟩ := isCanonical_finite.1 form
  have low := (decimalMagnitude_bounds form nonzero).1
  have positive : (0 : ℚ) < 2 ^ e := by positivity
  have split : (10 : ℚ) ^ (decimalMagnitude m e - 1) =
      10 ^ (decimalMagnitude m e - 17) * 10 ^ 16 := by
    rw [← zpow_natCast, ← zpow_add₀ (by norm_num)]
    congr 1
    omega
  rw [split, ← div_le_iff₀ positive, mul_div_right_comm] at low
  split
  · next boundary =>
    have exact_ : (m : ℚ) = 2 ^ 52 := by exact_mod_cast boundary
    linarith
  · have top : (m : ℚ) < 2 ^ 53 := by exact_mod_cast small
    linarith

/-! ## The digits -/

/-- The value of a decimal. -/
def DecimalDigits.value (d : DecimalDigits) : ℚ :=
  Nat.ofDigitChars 10 d.digits 0 * 10 ^ (d.point - d.digits.length)

/-- Digits that a decimal is written with. -/
structure DecimalDigits.Proper (d : DecimalDigits) : Prop where
  nonempty : d.digits ≠ []
  digits : ∀ c ∈ d.digits, c.isDigit = true

theorem trim_zeros (digits : List Char) :
    ∃ k, digits = (digits.reverse.dropWhile (· == '0')).reverse ++ List.replicate k '0' := by
  have parts := List.takeWhile_append_dropWhile (p := (· == '0')) (l := digits.reverse)
  have zeros : digits.reverse.takeWhile (· == '0') =
      List.replicate (digits.reverse.takeWhile (· == '0')).length '0' := by
    refine List.eq_replicate_of_mem fun c hc => ?_
    simpa using List.all_eq_true.1 List.all_takeWhile c hc
  refine ⟨(digits.reverse.takeWhile (· == '0')).length, ?_⟩
  rw [← List.reverse_replicate, ← zeros, ← List.reverse_append, parts, List.reverse_reverse]

theorem shortest_found {m : Nat} {e : Int} (tie : Tie) (form : (finite m e).isCanonical = true)
    (nonzero : m ≠ 0) : ∃ (n : Nat) (place : Int), (Grid.lay m e place).readsBack n = true ∧
      shortest m e tie = ⟨((Nat.toDigits 10 n).reverse.dropWhile (· == '0')).reverse,
        place + (Nat.toDigits 10 n).length⟩ := by
  let candidate (i : Nat) : Option (Nat × Int) :=
    ((Grid.lay m e (decimalMagnitude m e - ((i : Int) + 1))).neighbour? tie).map fun n =>
      (n, decimalMagnitude m e - ((i : Int) + 1))
  have last : (candidate 16).isSome = true := by
    rw [Option.isSome_map]
    exact Grid.neighbour?_isSome_of_narrow tie nonzero (narrow_of_magnitude form nonzero)
  have some_ : ((List.range 17).findSome? candidate).isSome = true := by
    rw [List.findSome?_isSome_iff]
    exact ⟨16, by decide, last⟩
  obtain ⟨⟨n, place⟩, found⟩ := Option.isSome_iff_exists.1 some_
  obtain ⟨i, -, at_i⟩ := List.exists_of_findSome?_eq_some found
  obtain ⟨k, near, eq⟩ := Option.map_eq_some_iff.1 at_i
  cases eq
  refine ⟨_, _, Grid.readsBack_of_neighbour? near, ?_⟩
  unfold shortest
  rw [if_neg nonzero]
  dsimp only
  rw [found]
  rfl

theorem shortest_nearest {m : Nat} {e : Int} (tie : Tie) (form : (finite m e).isCanonical = true)
    (nonzero : m ≠ 0) :
    (shortest m e tie).Proper ∧ Nearest m e (shortest m e tie).value := by
  obtain ⟨n, place, reads, eq⟩ := shortest_found tie form nonzero
  obtain ⟨k, trimmed⟩ := trim_zeros (Nat.toDigits 10 n)
  have near := (Grid.readsBack_iff e place nonzero n).1 reads
  rw [eq]
  generalize ((Nat.toDigits 10 n).reverse.dropWhile (· == '0')).reverse = digits at trimmed
  have value : 10 ^ k * Nat.ofDigitChars 10 digits 0 = n := by
    rw [← Nat.ofDigitChars_replicate_zero, ← Nat.ofDigitChars_append, ← trimmed,
      Nat.ofDigitChars_ten_toDigits]
  have same : DecimalDigits.value ⟨digits, place + (Nat.toDigits 10 n).length⟩ =
      n * 10 ^ place := by
    rw [trimmed, List.length_append, List.length_replicate, DecimalDigits.value]
    dsimp only
    rw [show place + ((digits.length + k : Nat) : Int) - digits.length = k + place by omega,
      zpow_add₀ (by norm_num), zpow_natCast, ← value]
    push_cast
    ring
  refine ⟨⟨?_, fun c hc => ?_⟩, same ▸ near⟩
  · rintro rfl
    have bounds := (near.bounds form nonzero).1
    have positive : (0 : ℚ) < 10 ^ (-330 : Int) := by positivity
    rw [← value, Nat.ofDigitChars_nil, Nat.mul_zero, Nat.cast_zero, zero_mul] at bounds
    exact absurd bounds positive.not_gt
  · refine Nat.isDigit_of_mem_toDigits (b := 10) (n := n) (by decide) (by decide) ?_
    rw [trimmed]
    exact List.mem_append_left _ hc

end ClassLang.Binary64
