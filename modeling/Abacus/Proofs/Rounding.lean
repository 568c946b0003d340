/- # The nearest double

A quotient of whole numbers is computed without a rational and rounded once.  Here the result is
compared with the exact quotient.  `Double.value` reads a finite double as a rational, `Binary64`
says which rationals are doubles, by their significands and exponents, and `NearestEven` that one of
them is nearest to a rational, ties going to the even significand.  None of these three mentions how
magnitudes are ranked or rounded.

Rounding is told in three layers: to whole numbers (`Double.roundHalfEven_nearest`), to magnitudes,
which are whole numbers of units with few binary digits (`Double.units_nearest`), and to doubles
(`Double.nearestRank_nearestEven`).  The one magnitude for infinity stands where the next power of
two would be, so that the threshold of an overflow is the middle in front of it
(`Double.nearestRank_lt_iff`).  Everything on quotients of whole numbers is put together in
`Number.div_int_nearest`. -/
import Abacus.Proofs.ExactValues
import Abacus.Proofs.WellFormed

namespace Abacus
set_option autoImplicit false

namespace Double

/-! ## Rounding to whole numbers -/

/-- A rounded quotient is at most a half away, and exactly a half only if it is even. -/
theorem roundHalfEven_spec (n : Nat) {d : Nat} (pos : 0 < d) :
    2 * |(roundHalfEven n d : ℤ) * d - n| ≤ d ∧
      (2 * |(roundHalfEven n d : ℤ) * d - n| = d → Even (roundHalfEven n d)) := by
  have rest := Nat.mod_lt n pos
  have whole : (n : ℤ) = d * (n / d : ℕ) + (n % d : ℕ) := by
    exact_mod_cast (Nat.div_add_mod n d).symm
  unfold roundHalfEven
  generalize n / d = q at whole ⊢
  generalize n % d = r at rest whole ⊢
  dsimp only
  split
  · rename_i down
    have distance : |(q : ℤ) * d - n| = r := by
      rw [whole, abs_sub_comm, abs_of_nonneg] <;> ring_nf
      omega
    rw [distance, Nat.even_iff]
    simp at down
    omega
  · rename_i up
    have distance : |((q + 1 : ℕ) : ℤ) * d - n| = d - r := by
      rw [whole, abs_of_nonneg] <;> push_cast <;> ring_nf
      omega
    rw [distance, Nat.even_iff]
    simp at up
    omega

/-- No whole number is nearer to a quotient than the rounded one, and if another one is as near, the
rounded one is even. -/
theorem roundHalfEven_nearest (n : Nat) {d : Nat} (pos : 0 < d) (j : ℤ) :
    |(roundHalfEven n d : ℤ) * d - n| ≤ |j * d - n| ∧
      (j ≠ roundHalfEven n d → |j * d - n| = |(roundHalfEven n d : ℤ) * d - n| →
        Even (roundHalfEven n d)) := by
  obtain ⟨near, half⟩ := roundHalfEven_spec n pos
  generalize roundHalfEven n d = m at near half ⊢
  by_cases same : j = m
  · subst same
    exact ⟨le_refl _, fun other => absurd rfl other⟩
  · -- two different whole numbers are apart by one at least
    have apart : (d : ℤ) ≤ |j * d - n| + |(m : ℤ) * d - n| := by
      have one : 1 ≤ |j - m| := Int.one_le_abs (sub_ne_zero.mpr same)
      calc (d : ℤ) ≤ |j - m| * d := by nlinarith
        _ = |(j * d - n) - (m * d - n)| := by
            rw [show (j * d - n) - (m * d - n) = (j - m) * (d : ℤ) by ring, abs_mul, Nat.abs_cast]
        _ ≤ |j * d - n| + |(m : ℤ) * d - n| := abs_sub _ _
    refine ⟨by omega, fun _ tie => half (by omega)⟩

/-- A quotient is rounded to less than an even number exactly if it is below the middle in front of
this number.  The middle itself is rounded up. -/
theorem roundHalfEven_lt_iff (n : Nat) {h limit : Nat} (pos : 0 < h) (even : Even limit) :
    roundHalfEven n (2 * h) < limit ↔ n + h < limit * (2 * h) := by
  obtain ⟨near, tie⟩ := roundHalfEven_spec n (Nat.mul_pos two_pos pos)
  generalize roundHalfEven n (2 * h) = m at near tie ⊢
  obtain ⟨lower, upper⟩ := abs_le.mp (show |(m : ℤ) * (2 * h : ℕ) - n| ≤ h by omega)
  rw [← Nat.cast_mul] at lower upper
  constructor
  · intro less
    have product : (m + 1) * (2 * h) ≤ limit * (2 * h) := Nat.mul_le_mul_right _ less
    rw [Nat.succ_mul] at product
    rcases Nat.lt_or_ge (n + h) (limit * (2 * h)) with below | middle
    · exact below
    · -- the number before the even one is odd, so that the middle is not rounded down to it
      have last : m + 1 = limit := by
        have same : (m + 1) * (2 * h) = limit * (2 * h) := by
          rw [Nat.succ_mul]
          omega
        exact Nat.eq_of_mul_eq_mul_right (Nat.mul_pos two_pos pos) same
      have distance : |(m : ℤ) * (2 * h : ℕ) - n| = h := by
        rw [← Nat.cast_mul, abs_sub_comm, abs_of_nonneg] <;> omega
      rw [distance] at tie
      rw [← last, Nat.even_add_one] at even
      exact absurd (tie (by push_cast; rfl)) even
  · intro below
    by_contra beyond
    have product : limit * (2 * h) ≤ m * (2 * h) := Nat.mul_le_mul_right _ (not_lt.mp beyond)
    omega

theorem roundHalfEven_bounds (n d : Nat) :
    n / d ≤ roundHalfEven n d ∧ roundHalfEven n d ≤ n / d + 1 := by
  unfold roundHalfEven
  dsimp only
  split <;> omega

/-! ## Rounding to magnitudes -/

/-- How often the distance of neighbours doubles up to the magnitudes next to a quotient. -/
def doublings (n d : Nat) : Nat := (n / d).log2 - 52

/-- The rounded quotient, counted in distances of neighbours. -/
def significand (n d : Nat) : Nat := roundHalfEven n (d * 2 ^ doublings n d)

theorem nearestRank_eq (n d : Nat) :
    nearestRank n d = doublings n d * 2 ^ 52 + significand n d := rfl

theorem even_nearestRank (n d : Nat) : Even (nearestRank n d) ↔ Even (significand n d) := by
  have even : Even (doublings n d * 2 ^ 52) := (even_two.pow_of_ne_zero (by decide)).mul_left _
  rw [nearestRank_eq, Nat.even_add]
  exact iff_true_left even

theorem quotient_bounds (n d : Nat) :
    n / (d * 2 ^ doublings n d) < 2 ^ 53 ∧
      (doublings n d = 0 ∨ 2 ^ 52 ≤ n / (d * 2 ^ doublings n d)) := by
  rw [← Nat.div_div_eq_div_mul]
  have upper : n / d < 2 ^ ((n / d).log2 + 1) := Nat.lt_log2_self
  unfold doublings
  by_cases small : (n / d).log2 ≤ 52
  · have zero : (n / d).log2 - 52 = 0 := by omega
    have limit : 2 ^ ((n / d).log2 + 1) ≤ 2 ^ 53 := Nat.pow_le_pow_right (by decide) (by omega)
    rw [zero, Nat.pow_zero, Nat.div_one]
    exact ⟨by omega, .inl rfl⟩
  · have nonzero : n / d ≠ 0 := by
      intro zero
      simp [zero] at small
    have lower : 2 ^ (n / d).log2 ≤ n / d := Nat.log2_self_le nonzero
    obtain ⟨k, size⟩ := Nat.exists_eq_add_of_le (Nat.le_of_not_le small)
    rw [size, Nat.add_sub_cancel_left]
    rw [size] at upper lower
    refine ⟨?_, .inr ?_⟩
    · rw [Nat.div_lt_iff_lt_mul (Nat.two_pow_pos k), ← Nat.pow_add]
      rwa [show 53 + k = 52 + k + 1 by omega]
    · rwa [Nat.le_div_iff_mul_le (Nat.two_pow_pos k), ← Nat.pow_add]

theorem significand_bounds (n d : Nat) :
    significand n d ≤ 2 ^ 53 ∧ (doublings n d = 0 ∨ 2 ^ 52 ≤ significand n d) := by
  obtain ⟨lower, upper⟩ := roundHalfEven_bounds n (d * 2 ^ doublings n d)
  obtain ⟨small, normal⟩ := quotient_bounds n d
  unfold significand
  omega

/-- The magnitude of a rank that is made of a number of doublings and a significand. -/
theorem units_binade {k m : Nat} (small : m ≤ 2 ^ 53) (normal : k = 0 ∨ 2 ^ 52 ≤ m) :
    units (k * 2 ^ 52 + m) = m * 2 ^ k := by
  unfold units
  simp only [Nat.pow_eq]
  split
  · have zero : k = 0 := by omega
    rw [zero, Nat.zero_mul, Nat.zero_add, Nat.pow_zero, Nat.mul_one]
  · by_cases carried : m = 2 ^ 53
    · have rank : k * 2 ^ 52 + m = (k + 2) * 2 ^ 52 := by omega
      rw [rank, Nat.mul_mod_left, Nat.mul_div_left _ (Nat.two_pow_pos 52), carried, Nat.add_zero,
        ← Nat.pow_add, ← Nat.pow_add]
      congr 1
      omega
    · obtain ⟨f, rfl⟩ : ∃ f, m = 2 ^ 52 + f := ⟨m - 2 ^ 52, by omega⟩
      have rank : k * 2 ^ 52 + (2 ^ 52 + f) = f + (k + 1) * 2 ^ 52 := by ring
      have short : f < 2 ^ 52 := by omega
      rw [rank, Nat.add_mul_mod_self_right, Nat.add_mul_div_right _ _ (Nat.two_pow_pos 52),
        Nat.mod_eq_of_lt short, Nat.div_eq_of_lt short, Nat.zero_add, Nat.add_sub_cancel]

theorem units_nearestRank (n d : Nat) :
    units (nearestRank n d) = significand n d * 2 ^ doublings n d := by
  obtain ⟨small, normal⟩ := significand_bounds n d
  rw [nearestRank_eq, units_binade small normal]

/-- No number of at most 53 binary digits, followed by zeros, is nearer to a quotient than its
rounded magnitude, and if another one is as near, the rank of this magnitude is even. -/
theorem units_nearest (n : Nat) {d : Nat} (pos : 0 < d) {a : Nat} (few : a < 2 ^ 53) (i : Nat) :
    |(units (nearestRank n d) : ℤ) * d - n| ≤ |((a * 2 ^ i : ℕ) : ℤ) * d - n| ∧
      (a * 2 ^ i ≠ units (nearestRank n d) →
        |((a * 2 ^ i : ℕ) : ℤ) * d - n| = |(units (nearestRank n d) : ℤ) * d - n| →
        Even (nearestRank n d)) := by
  obtain ⟨-, normal⟩ := quotient_bounds n d
  have nearest := roundHalfEven_nearest n (Nat.mul_pos pos (Nat.two_pow_pos (doublings n d)))
  rw [even_nearestRank, units_nearestRank, significand]
  generalize doublings n d = k at nearest normal ⊢
  generalize roundHalfEven n (d * 2 ^ k) = m at nearest ⊢
  have regroup : ∀ j : ℕ, ((j * 2 ^ k : ℕ) : ℤ) * d = (j : ℤ) * (d * 2 ^ k : ℕ) := by
    intro j
    push_cast
    ring
  rw [regroup]
  by_cases coarse : k ≤ i
  · -- a multiple of the distance of neighbours, like the rounded magnitude
    obtain ⟨t, rfl⟩ := Nat.exists_eq_add_of_le coarse
    have multiple : a * 2 ^ (k + t) = a * 2 ^ t * 2 ^ k := by ring
    rw [multiple, regroup]
    obtain ⟨near, tie⟩ := nearest (a * 2 ^ t : ℕ)
    refine ⟨near, fun other => tie fun same => other ?_⟩
    rw [Nat.cast_inj.mp same]
  · -- smaller than a multiple that is not beyond the quotient
    have below : a * 2 ^ i * d < 2 ^ 52 * (d * 2 ^ k) := by
      have finer : a * 2 ^ i < 2 ^ 52 * 2 ^ k := by
        calc a * 2 ^ i < 2 ^ 53 * 2 ^ i := Nat.mul_lt_mul_of_pos_right few (Nat.two_pow_pos i)
          _ = 2 ^ 52 * 2 ^ (i + 1) := by ring
          _ ≤ 2 ^ 52 * 2 ^ k := Nat.mul_le_mul_left _ (Nat.pow_le_pow_right (by decide) (by omega))
      calc a * 2 ^ i * d < 2 ^ 52 * 2 ^ k * d := Nat.mul_lt_mul_of_pos_right finer pos
        _ = 2 ^ 52 * (d * 2 ^ k) := by ring
    have within : 2 ^ 52 * (d * 2 ^ k) ≤ n := by
      rw [← Nat.le_div_iff_mul_le (Nat.mul_pos pos (Nat.two_pow_pos k))]
      omega
    have farther :
        |((2 ^ 52 : ℕ) : ℤ) * (d * 2 ^ k : ℕ) - n| < |((a * 2 ^ i : ℕ) : ℤ) * d - n| := by
      rw [← Nat.cast_mul, ← Nat.cast_mul, abs_sub_comm, abs_of_nonneg (by omega), abs_sub_comm,
        abs_of_nonneg (by omega)]
      omega
    have near := (nearest (2 ^ 52 : ℕ)).1.trans_lt farther
    exact ⟨near.le, fun _ tie => absurd tie near.ne'⟩

/-- A quotient is rounded to a magnitude below a power of two exactly if it is below the middle
between this power and the magnitude before it.  The middle itself is rounded up. -/
theorem nearestRank_lt_iff (n : Nat) {d : Nat} (pos : 0 < d) (k : Nat) :
    nearestRank n d < (k + 3) * 2 ^ 52 ↔ n + 2 ^ k * d < 2 ^ (k + 54) * d := by
  obtain ⟨quotientSmall, quotientNormal⟩ := quotient_bounds n d
  obtain ⟨small, normal⟩ := significand_bounds n d
  have scale := Nat.mul_pos pos (Nat.two_pow_pos (doublings n d))
  rw [Nat.div_lt_iff_lt_mul scale] at quotientSmall
  rw [Nat.le_div_iff_mul_le scale] at quotientNormal
  rw [nearestRank_eq]
  rw [significand] at small normal ⊢
  generalize doublings n d = j at *
  have split : 2 ^ (k + 54) * d = 2 ^ 54 * (2 ^ k * d) := by ring
  rcases Nat.lt_trichotomy j (k + 1) with below | rfl | above
  · have limit : n < 2 ^ 53 * (2 ^ k * d) := by
      calc n < 2 ^ 53 * (d * 2 ^ j) := quotientSmall
        _ ≤ 2 ^ 53 * (d * 2 ^ k) := by gcongr <;> omega
        _ = 2 ^ 53 * (2 ^ k * d) := by ring
    have ranks : j * 2 ^ 52 ≤ k * 2 ^ 52 := Nat.mul_le_mul_right _ (by omega)
    exact iff_of_true (by omega) (by omega)
  · have width : d * 2 ^ (k + 1) = 2 * (2 ^ k * d) := by ring
    have middle : 2 ^ 54 * (2 ^ k * d) = 2 ^ 53 * (2 * (2 ^ k * d)) := by ring
    have half : 0 < 2 ^ k * d := Nat.mul_pos (Nat.two_pow_pos k) pos
    rw [split, middle, ← roundHalfEven_lt_iff n half (even_two.pow_of_ne_zero (by decide)), width]
    omega
  · have reached : 2 ^ 54 * (2 ^ k * d) ≤ n := by
      calc 2 ^ 54 * (2 ^ k * d) = 2 ^ 52 * (d * 2 ^ (k + 2)) := by ring
        _ ≤ 2 ^ 52 * (d * 2 ^ j) := by gcongr <;> omega
        _ ≤ n := by omega
    have ranks : (k + 2) * 2 ^ 52 ≤ j * 2 ^ 52 := Nat.mul_le_mul_right _ (by omega)
    exact iff_of_false (by omega) (by omega)

/-! ## Doubles as rationals -/

/-- The exact value of a finite double. -/
def value : Double → Option ℚ
  | finite negative rank _ => some (signedUnits negative rank * 2 ^ (-1074 : ℤ))
  | _ => none

theorem signedUnits_mul (negative : Bool) (rank : Nat) (unit : ℚ) :
    signedUnits negative rank * unit =
      if negative then -(units rank * unit) else units rank * unit := by
  cases negative <;> simp [signedUnits]

/-- A binary64 number: 53 binary digits, the significand, at an exponent in the range. -/
structure Binary64 (q : ℚ) (m e : ℤ) : Prop where
  few : |m| < 2 ^ 53
  lowest : -1074 ≤ e
  highest : e ≤ 971
  eq : q = m * 2 ^ e

/-- Of all binary64 numbers, `v` is nearest to `q`.  If another one is as near, the significand of
`v` is even; it is the one that has all 53 digits, unless the exponent is the lowest. -/
structure NearestEven (q v : ℚ) : Prop where
  binary64 : ∃ m e, Binary64 v m e
  nearest : ∀ w m e, Binary64 w m e → |v - q| ≤ |w - q|
  even : ∀ w m e, Binary64 w m e → w ≠ v → |w - q| = |v - q| →
    ∃ m e, Binary64 v m e ∧ (2 ^ 52 ≤ |m| ∨ e = -1074) ∧ Even m

theorem Binary64.neg {q : ℚ} {m e : ℤ} (binary64 : Binary64 q m e) : Binary64 (-q) (-m) e where
  few := by rw [abs_neg]; exact binary64.few
  lowest := binary64.lowest
  highest := binary64.highest
  eq := by rw [binary64.eq]; push_cast; ring

theorem abs_neg_sub_neg (a b : ℚ) : |-a - -b| = |a - b| := by
  rw [neg_sub_neg, abs_sub_comm]

theorem NearestEven.neg {q v : ℚ} (nearest : NearestEven q v) : NearestEven (-q) (-v) where
  binary64 := by
    obtain ⟨m, e, binary64⟩ := nearest.binary64
    exact ⟨-m, e, binary64.neg⟩
  nearest := by
    intro w m e binary64
    have near := nearest.nearest (-w) (-m) e binary64.neg
    rwa [← abs_neg_sub_neg v, ← abs_neg_sub_neg (-w), neg_neg] at near
  even := by
    intro w m e binary64 other tie
    rw [← neg_neg w, abs_neg_sub_neg, abs_neg_sub_neg] at tie
    obtain ⟨m', e', canonical, normal, even⟩ :=
      nearest.even (-w) (-m) e binary64.neg (fun same => other (by rw [← same, neg_neg])) tie
    exact ⟨-m', e', canonical.neg, by rwa [abs_neg], even.neg⟩

/-- The magnitude of a finite rank, by its significand and its exponent. -/
theorem units_binary64 {rank : Nat} (bounded : rank < rankCount) :
    ∃ m e : ℤ, Binary64 (units rank * 2 ^ (-1074 : ℤ)) m e ∧ (2 ^ 52 ≤ |m| ∨ e = -1074) ∧
      (Even m ↔ Even rank) := by
  have limit : rank < 2047 * 2 ^ 52 := bounded
  clear bounded
  obtain ⟨m, k, rfl, small, normal⟩ :
      ∃ m k, rank = k * 2 ^ 52 + m ∧ m < 2 ^ 53 ∧ (k = 0 ∨ 2 ^ 52 ≤ m) := by
    rcases Nat.lt_or_ge rank (2 ^ 52) with subnormal | normal
    · exact ⟨rank, 0, by omega, by omega, .inl rfl⟩
    · exact ⟨2 ^ 52 + rank % 2 ^ 52, rank / 2 ^ 52 - 1, by omega, by omega, .inr (by omega)⟩
  refine ⟨m, k + -1074, ⟨?_, by omega, by omega, ?_⟩, ?_, ?_⟩
  · rw [Nat.abs_cast]
    omega
  · rw [units_binade small.le normal, zpow_add₀ two_ne_zero, zpow_natCast, ← mul_assoc,
      Nat.cast_mul, Nat.cast_pow, Nat.cast_ofNat, Int.cast_natCast]
  · rw [Nat.abs_cast]
    omega
  · have even : Even (k * 2 ^ 52) := (even_two.pow_of_ne_zero (by decide)).mul_left k
    rw [Int.even_coe_nat, Nat.even_add]
    exact (iff_true_left even).symm

/-- The magnitude of a binary64 number, in units. -/
theorem Binary64.abs_eq {w : ℚ} {m e : ℤ} (binary64 : Binary64 w m e) :
    |w| = ((m.natAbs * 2 ^ (e + 1074).toNat : ℕ) : ℚ) * 2 ^ (-1074 : ℤ) := by
  obtain ⟨i, range⟩ := Int.eq_ofNat_of_zero_le (show 0 ≤ e + 1074 by linarith [binary64.lowest])
  obtain rfl : e = i + -1074 := by omega
  have positive : (0 : ℚ) < 2 ^ ((i : ℤ) + -1074) := zpow_pos two_pos _
  rw [binary64.eq, abs_mul, abs_of_pos positive, range, zpow_add₀ two_ne_zero, zpow_natCast,
    ← mul_assoc, Nat.cast_mul, Nat.cast_pow, Nat.cast_ofNat, Nat.cast_natAbs, Int.cast_abs]
  rfl

/-- The distance of a magnitude from a quotient, both in units. -/
theorem distance_eq (x n : Nat) {d : Nat} (pos : 0 < d) {unit : ℚ} (positive : 0 < unit) :
    |(x : ℚ) * unit - n / d * unit| = ((|(x : ℤ) * d - n| : ℤ) : ℚ) * (unit / d) := by
  have divisor : (0 : ℚ) < d := Nat.cast_pos.mpr pos
  have product : (x : ℚ) * unit - n / d * unit = (x * d - n) * (unit / d) := by field_simp
  rw [product, abs_mul, abs_of_pos (div_pos positive divisor)]
  push_cast
  rfl

/-- No number is nearer to a quotient than its magnitude is, since quotients are not negative. -/
theorem le_distance {w : ℚ} {x n d : Nat} (pos : 0 < d) {unit : ℚ} (positive : 0 < unit)
    (magnitude : |w| = x * unit) :
    ((|(x : ℤ) * d - n| : ℤ) : ℚ) * (unit / d) ≤ |w - n / d * unit| := by
  have quotient : (0 : ℚ) ≤ n / d * unit := by
    exact mul_nonneg (div_nonneg n.cast_nonneg d.cast_nonneg) positive.le
  rw [← distance_eq x n pos positive, ← magnitude]
  simpa only [abs_of_nonneg quotient] using abs_abs_sub_abs_le_abs_sub w (n / d * unit)

/-- A rounded magnitude is at most twice the quotient, since zero is a magnitude. -/
theorem units_le_double (n : Nat) {d : Nat} (pos : 0 < d) {unit : ℚ} (positive : 0 < unit) :
    units (nearestRank n d) * unit ≤ 2 * (n / d * unit) := by
  have near := (units_nearest n pos (Nat.two_pow_pos 53) 0).1
  rw [Nat.zero_mul, Nat.cast_zero, zero_mul, zero_sub, abs_neg, Nat.abs_cast] at near
  have upper := (abs_le.mp near).2
  rw [← Nat.cast_mul] at upper
  have double : units (nearestRank n d) * d ≤ 2 * n := by omega
  rw [← mul_assoc, ← mul_div_assoc]
  refine mul_le_mul_of_nonneg_right ?_ positive.le
  rw [le_div_iff₀ (Nat.cast_pos.mpr pos)]
  exact_mod_cast double

/-- The opposite of a number that is not beyond twice the quotient is farther away, unless the
number is zero. -/
theorem eq_of_abs_eq_of_tie {v w q : ℚ} (sign : 0 ≤ v) (limit : v ≤ 2 * q) (same : |w| = v)
    (tie : |w - q| = |v - q|) : w = v := by
  rcases (abs_eq sign).mp same with equal | rfl
  · exact equal
  · have opposite : |-v - q| = v + q := by
      rw [abs_of_nonpos (by linarith)]
      ring
    rw [opposite] at tie
    rcases abs_cases (v - q) with ⟨apart, -⟩ | ⟨apart, -⟩ <;> linarith

/-- The rounded magnitude is the nearest double, and the even one of two. -/
theorem nearestRank_nearestEven (n : Nat) {d : Nat} (pos : 0 < d)
    (bounded : nearestRank n d < rankCount) :
    NearestEven (n / d * 2 ^ (-1074 : ℤ)) (units (nearestRank n d) * 2 ^ (-1074 : ℤ)) := by
  obtain ⟨m₀, e₀, canonical, normal, even⟩ := units_binary64 bounded
  have outer : ∀ {w : ℚ} {m e : ℤ}, Binary64 w m e → _ := fun binary64 => binary64.abs_eq
  have positive : (0 : ℚ) < 2 ^ (-1074 : ℤ) := zpow_pos two_pos _
  generalize (2 : ℚ) ^ (-1074 : ℤ) = unit at canonical outer positive ⊢
  have step : 0 < unit / d := div_pos positive (Nat.cast_pos.mpr pos)
  have rounded := distance_eq (units (nearestRank n d)) n pos positive
  -- another double, with its distance in units
  have others : ∀ {w : ℚ} {m e : ℤ}, Binary64 w m e → ∃ x : ℕ, |w| = x * unit ∧
      |(units (nearestRank n d) : ℤ) * d - n| ≤ |(x : ℤ) * d - n| ∧
      (x ≠ units (nearestRank n d) →
        |(x : ℤ) * d - n| = |(units (nearestRank n d) : ℤ) * d - n| → Even (nearestRank n d)) := by
    intro w m e binary64
    have few := binary64.few
    rw [Int.abs_eq_natAbs] at few
    exact ⟨_, outer binary64, units_nearest n pos (by omega) _⟩
  refine ⟨⟨m₀, e₀, canonical⟩, ?_, ?_⟩
  · intro w m e binary64
    obtain ⟨x, magnitude, near, -⟩ := others binary64
    calc |units (nearestRank n d) * unit - n / d * unit|
        = ((|(units (nearestRank n d) : ℤ) * d - n| : ℤ) : ℚ) * (unit / d) := rounded
      _ ≤ ((|(x : ℤ) * d - n| : ℤ) : ℚ) * (unit / d) :=
          mul_le_mul_of_nonneg_right (Int.cast_le.mpr near) step.le
      _ ≤ |w - n / d * unit| := le_distance pos positive magnitude
  · intro w m e binary64 other tie
    obtain ⟨x, magnitude, near, even'⟩ := others binary64
    refine ⟨m₀, e₀, canonical, normal, even.mpr (even' ?_ ?_)⟩
    · rintro rfl
      have sign : 0 ≤ units (nearestRank n d) * unit :=
        mul_nonneg (Nat.cast_nonneg _) positive.le
      exact other (eq_of_abs_eq_of_tie sign (units_le_double n pos positive) magnitude tie)
    · refine le_antisymm (Int.cast_le.mp (le_of_mul_le_mul_right ?_ step)) near
      calc ((|(x : ℤ) * d - n| : ℤ) : ℚ) * (unit / d)
          ≤ |w - n / d * unit| := le_distance pos positive magnitude
        _ = |units (nearestRank n d) * unit - n / d * unit| := tie
        _ = _ := rounded

/-! ## Quotients -/

/-- The exponent is named, since its power of two is not to be evaluated. -/
theorem unitsInOne_eq {s : Nat} (size : 1074 = s) : unitsInOne = 2 ^ s := by
  unfold unitsInOne
  rw [size]
  exact Nat.pow_eq

theorem quotient_units (n d : Nat) :
    ((n * unitsInOne : ℕ) / d * 2 ^ (-1074 : ℤ) : ℚ) = n / d := by
  obtain ⟨s, size⟩ : ∃ s, 1074 = s := ⟨_, rfl⟩
  have exponent : (-1074 : ℤ) = -(s : ℤ) := by omega
  rw [unitsInOne_eq size, exponent, zpow_neg, zpow_natCast]
  push_cast
  field_simp

/-- Where a quotient is rounded to infinity: in the middle between the largest finite magnitude and
the next power of two, and beyond. -/
theorem nearestRank_finite_iff (n : Nat) {d : Nat} (pos : 0 < d) :
    nearestRank (n * unitsInOne) d < rankCount ↔ (n / d : ℚ) < 2 ^ 1024 - 2 ^ 970 := by
  have general : ∀ k s : Nat, nearestRank (n * 2 ^ s) d < (k + s + 3) * 2 ^ 52 ↔
      (n / d : ℚ) < 2 ^ (k + 54) - 2 ^ k := by
    intro k s
    have left : n * 2 ^ s + 2 ^ (k + s) * d = (n + 2 ^ k * d) * 2 ^ s := by ring
    have right : 2 ^ (k + s + 54) * d = 2 ^ (k + 54) * d * 2 ^ s := by ring
    rw [nearestRank_lt_iff _ pos, left, right, Nat.mul_lt_mul_right (Nat.two_pow_pos s),
      div_lt_iff₀ (Nat.cast_pos.mpr pos), sub_mul, lt_sub_iff_add_lt]
    norm_cast
  obtain ⟨s, size⟩ : ∃ s, 1074 = s := ⟨_, rfl⟩
  have count : rankCount = (970 + s + 3) * 2 ^ 52 := by
    rw [← size]
    rfl
  rw [unitsInOne_eq size, count]
  exact general 970 s

/-- A quotient of whole numbers, neither of them zero, is rounded to the nearest double, or to
infinity if it is too large. -/
theorem ofQuotient_nearest {a b : ℤ} (dividend : a ≠ 0) (divisor : b ≠ 0) :
    (2 ^ 1024 - 2 ^ 970 ≤ |(a / b : ℚ)| → ofQuotient a b = .infinite (decide ((a / b : ℚ) < 0))) ∧
    (|(a / b : ℚ)| < 2 ^ 1024 - 2 ^ 970 →
      ∃ (rank : Nat) (bounded : rank < rankCount) (v : ℚ),
        ofQuotient a b = .finite (decide ((a / b : ℚ) < 0)) rank bounded ∧
        (Double.finite (decide ((a / b : ℚ) < 0)) rank bounded).value = some v ∧
        NearestEven (a / b) v) := by
  have magnitude : |(a / b : ℚ)| = (a.natAbs / b.natAbs : ℚ) := by
    rw [abs_div, ← Int.cast_abs, ← Int.cast_abs, Int.abs_eq_natAbs, Int.abs_eq_natAbs]
    rfl
  have sign : (decide (a < 0) != decide (b < 0)) = decide ((a / b : ℚ) < 0) := by
    rcases lt_or_gt_of_ne dividend with first | first <;>
      rcases lt_or_gt_of_ne divisor with second | second <;>
      simp [div_neg_iff, first, second, first.not_gt, second.not_gt]
  have pos : 0 < b.natAbs := Int.natAbs_pos.mpr divisor
  have finite := nearestRank_finite_iff a.natAbs pos
  rw [ofQuotient, sign, ofUnits, magnitude]
  constructor
  · intro large
    rw [dif_neg (by rw [finite]; exact not_lt.mpr large)]
  · intro small
    have bounded := finite.mpr small
    rw [dif_pos bounded]
    refine ⟨_, bounded, _, rfl, rfl, ?_⟩
    have nearest := nearestRank_nearestEven (a.natAbs * unitsInOne) pos bounded
    rw [quotient_units, ← magnitude] at nearest
    rw [signedUnits_mul]
    by_cases negative : (a / b : ℚ) < 0
    · rw [if_pos (decide_eq_true negative)]
      have opposite := nearest.neg
      rwa [abs_of_neg negative, neg_neg] at opposite
    · rw [if_neg (by rwa [decide_eq_true_iff])]
      rwa [abs_of_nonneg (not_lt.mp negative)] at nearest

end Double

namespace Number

/-- The failure of a division by zero tells the dividend, if this can be written. -/
theorem div_zero (a : ℤ) : (Number.int a).div (.int 0) =
    if (Text.ofNat a.natAbs).length ≤ maxDigits then
      .error (.diagnosed (.divisionByZero (.int a) (Text.ofInt a)))
    else .error (.internal .textTooLong) := by
  have failure : (Number.int a).div (.int 0) = .error (divisionFailure (.int a)) := rfl
  rw [failure, divisionFailure, text?]
  by_cases few : (Text.ofNat a.natAbs).length ≤ maxDigits
  · rw [if_pos few, if_pos (writable_iff.mpr few)]
  · rw [if_neg few, if_neg fun written => few (writable_iff.mp written)]

/-- A division that comes out even. -/
theorem div_even {a b : ℤ} : (∃ q, (Number.int a).div (.int b) = .ok (.int q)) ↔ b ≠ 0 ∧ b ∣ a := by
  simp only [Tree.div_int_iff]
  constructor
  · rintro ⟨q, divisor, quotient⟩
    rw [div_eq_iff (Int.cast_ne_zero.mpr divisor)] at quotient
    exact ⟨divisor, q, by rw [mul_comm]; exact_mod_cast quotient⟩
  · rintro ⟨divisor, q, rfl⟩
    refine ⟨q, divisor, ?_⟩
    rw [Int.cast_mul, mul_div_cancel_left₀ _ (Int.cast_ne_zero.mpr divisor)]

/-- A division that does not come out even. -/
theorem div_inexact {a b : ℤ} (divisor : b ≠ 0) (inexact : ¬ b ∣ a) :
    (Number.int a).div (.int b) =
      (within .quotientTooLarge (Double.ofQuotient a b)).map Number.float := by
  have remainder : a.fmod b ≠ 0 := fun divides => inexact (Int.dvd_of_fmod_eq_zero divides)
  simp [div, isZero, divisor, divInt, remainder]

/-- The double of a division that does not come out even, or the fault that it is too large. -/
theorem div_rounded {a b : ℤ} (divisor : b ≠ 0) (inexact : ¬ b ∣ a) :
    (2 ^ 1024 - 2 ^ 970 ≤ |(a / b : ℚ)| →
      (Number.int a).div (.int b) = .error (.internal .quotientTooLarge)) ∧
    (|(a / b : ℚ)| < 2 ^ 1024 - 2 ^ 970 →
      ∃ (rank : Nat) (bounded : rank < Double.rankCount) (v : ℚ),
        (Number.int a).div (.int b) =
          .ok (.float (.finite (decide ((a / b : ℚ) < 0)) rank bounded)) ∧
        (Double.finite (decide ((a / b : ℚ) < 0)) rank bounded).value = some v ∧
        Double.NearestEven (a / b) v) := by
  have dividend : a ≠ 0 := by
    rintro rfl
    exact inexact (dvd_zero b)
  obtain ⟨large, small⟩ := Double.ofQuotient_nearest dividend divisor
  rw [div_inexact divisor inexact]
  constructor
  · intro beyond
    rw [large beyond]
    rfl
  · intro finite
    obtain ⟨rank, bounded, v, rounded, value, nearest⟩ := small finite
    rw [rounded]
    exact ⟨rank, bounded, v, rfl, value, nearest⟩

/-- A division by another number than zero gives a number, unless the quotient is too large. -/
theorem div_of_ne_zero (a : ℤ) {b : ℤ} (divisor : b ≠ 0) :
    (∃ x, (Number.int a).div (.int b) = .ok x) ∨
      (Number.int a).div (.int b) = .error (.internal .quotientTooLarge) := by
  by_cases divides : b ∣ a
  · obtain ⟨q, exact⟩ := div_even.mpr ⟨divisor, divides⟩
    exact .inl ⟨_, exact⟩
  · obtain ⟨large, small⟩ := div_rounded divisor divides
    rcases lt_or_ge |(a / b : ℚ)| (2 ^ 1024 - 2 ^ 970) with finite | beyond
    · obtain ⟨rank, bounded, v, rounded, -⟩ := small finite
      exact .inl ⟨_, rounded⟩
    · exact .inr (large beyond)

/-- The diagnostic of a division names its dividend. -/
theorem div_diagnosed {a b : ℤ} {d : Diagnostic}
    (failed : (Number.int a).div (.int b) = .error (.diagnosed d)) :
    d.kind = .divisionByZero (.int a) ∧
      d.message = "division by zero (".toList ++ Text.ofInt a ++ " / 0)".toList := by
  by_cases divisor : b = 0
  · rw [divisor, div_zero] at failed
    split at failed
    · cases failed
      exact ⟨Diagnostic.divisionByZero_kind _ _, Diagnostic.divisionByZero_message _ _⟩
    · cases failed
  · rcases div_of_ne_zero a divisor with ⟨x, ok⟩ | large
    · rw [ok] at failed
      cases failed
    · rw [large] at failed
      cases failed

/-- A quotient of whole numbers fails as a division by zero exactly if the divisor is zero, and then
the diagnostic names the dividend if this can be written.  It is a whole number exactly if it comes
out even, and then it is exact.  Else it is the nearest double, of two the one with the even
significand, with the sign of the quotient even if it is zero; and there is no such double exactly
if the quotient is too large. -/
theorem div_int_nearest (a b : ℤ) :
    ((Number.int a).div (.int b) =
        (if (Text.ofNat a.natAbs).length ≤ 4300 then
          .error (.diagnosed (.divisionByZero (.int a) (Text.ofInt a)))
        else .error (.internal .textTooLong)) ↔ b = 0) ∧
    (∀ d, (Number.int a).div (.int b) = .error (.diagnosed d) →
      d.kind = .divisionByZero (.int a) ∧
        d.message = "division by zero (".toList ++ Text.ofInt a ++ " / 0)".toList) ∧
    ((∃ q, (Number.int a).div (.int b) = .ok (.int q)) ↔ b ≠ 0 ∧ b ∣ a) ∧
    (∀ q, (Number.int a).div (.int b) = .ok (.int q) → q * b = a) ∧
    (b ≠ 0 → ¬ b ∣ a →
      ((Number.int a).div (.int b) = .error (.internal .quotientTooLarge) ↔
        2 ^ 1024 - 2 ^ 970 ≤ |(a / b : ℚ)|) ∧
      (|(a / b : ℚ)| < 2 ^ 1024 - 2 ^ 970 →
        ∃ (rank : Nat) (bounded : rank < Double.rankCount) (v : ℚ),
          (Number.int a).div (.int b) =
            .ok (.float (.finite (decide ((a / b : ℚ) < 0)) rank bounded)) ∧
          (Double.finite (decide ((a / b : ℚ) < 0)) rank bounded).value = some v ∧
          Double.NearestEven (a / b) v)) := by
  refine ⟨⟨fun failed => ?_, fun zero => zero ▸ div_zero a⟩, fun d => div_diagnosed, div_even,
    fun q exact => ?_, fun divisor inexact => ?_⟩
  · by_contra divisor
    rcases div_of_ne_zero a divisor with ⟨x, ok⟩ | large
    · rw [ok] at failed
      split at failed <;> cases failed
    · rw [large] at failed
      split at failed <;> cases failed
  · obtain ⟨divisor, quotient⟩ := Tree.div_int_iff.mp exact
    rw [div_eq_iff (Int.cast_ne_zero.mpr divisor)] at quotient
    exact_mod_cast quotient.symm
  · obtain ⟨large, small⟩ := div_rounded divisor inexact
    refine ⟨⟨fun failed => ?_, large⟩, small⟩
    by_contra within
    obtain ⟨rank, bounded, v, rounded, -⟩ := small (not_le.mp within)
    rw [rounded] at failed
    cases failed

end Number
end Abacus
