/-
  Rounding to a fixed number of significant binary digits, to nearest and ties to even.

  `roundTo prec x` is what a binary floating-point format with `prec` digits makes of a number
  `x ≥ 0`, as long as the exponent range of the format is not left. It does not change what the
  format can hold (`roundTo_eq_self`), is monotone (`roundTo_mono`), and is off by at most one
  part in `2^prec` (`roundTo_error`).
-/
import Mathlib.Data.Int.Log
import Mathlib.Algebra.Order.Round
import Mathlib.Tactic.Linarith
import Mathlib.Tactic.FieldSimp
import Mathlib.Tactic.Positivity

namespace Rounding

variable {K : Type*} [Field K] [LinearOrder K] [IsStrictOrderedRing K] [FloorRing K]

/-! ## Integers -/

/-- The nearest integer, the even one of two. -/
def roundEven (x : K) : ℤ :=
  if x - ⌊x⌋ < 1 / 2 then ⌊x⌋ else if 1 / 2 < x - ⌊x⌋ then ⌊x⌋ + 1 else ⌊x⌋ + ⌊x⌋ % 2

@[simp] theorem roundEven_intCast (k : ℤ) : roundEven (k : K) = k := by
  simp [roundEven]

omit [IsStrictOrderedRing K] in
theorem floor_le_roundEven (x : K) : ⌊x⌋ ≤ roundEven x := by
  unfold roundEven
  split
  · exact le_refl _
  · split <;> omega

omit [IsStrictOrderedRing K] in
theorem roundEven_le_floor (x : K) : roundEven x ≤ ⌊x⌋ + 1 := by
  unfold roundEven
  split
  · omega
  · split <;> omega

theorem roundEven_mono {x y : K} (h : x ≤ y) : roundEven x ≤ roundEven y := by
  rcases lt_or_eq_of_le (Int.floor_le_floor h) with hlt | heq
  · have h1 := roundEven_le_floor x
    have h2 := floor_le_roundEven y
    omega
  · -- in the same unit only the distance to the lower end counts
    have hfrac : x - ⌊x⌋ ≤ y - ⌊y⌋ := by rw [heq]; linarith
    unfold roundEven
    rw [heq] at hfrac ⊢
    split_ifs with h1 h2 h3 h4 h5 h6 <;> first | omega | linarith

theorem roundEven_error (x : K) : |(roundEven x : K) - x| ≤ 1 / 2 := by
  have hlo := Int.floor_le x
  have hhi := Int.lt_floor_add_one x
  unfold roundEven
  split
  · rw [abs_le]
    constructor <;> linarith
  · split
    · push_cast
      rw [abs_le]
      constructor <;> linarith
    · -- halfway: up or down, by the parity of the lower end
      have htie : x - ⌊x⌋ = 1 / 2 :=
        le_antisymm (not_lt.mp (by assumption)) (not_lt.mp (by assumption))
      rcases Int.emod_two_eq_zero_or_one ⌊x⌋ with hmod | hmod <;> rw [hmod] <;> push_cast <;>
        rw [abs_le] <;>
        constructor <;> linarith

/-- `n / u` rounded to the nearest integer, the even one of two. -/
def roundDiv (n u : ℕ) : ℕ :=
  if 2 * (n % u) < u then n / u else if u < 2 * (n % u) then n / u + 1 else n / u + n / u % 2

theorem roundEven_div {n u : ℕ} (hu : 0 < u) : roundEven ((n : K) / u) = roundDiv n u := by
  have hu' : (0 : K) < u := Nat.cast_pos.mpr hu
  have hfloor : ⌊(n : K) / u⌋ = (n / u : ℕ) := by
    rw [Int.floor_div_natCast, Int.floor_natCast, Int.natCast_div]
  have hrest : (n : K) / u - (n / u : ℕ) = (n % u : ℕ) / u := by
    rw [eq_div_iff hu'.ne', sub_mul, div_mul_cancel₀ _ hu'.ne', sub_eq_iff_eq_add]
    exact_mod_cast (Nat.mod_add_div' n u).symm
  have hlt : (n % u : ℕ) / (u : K) < 1 / 2 ↔ 2 * (n % u) < u := by
    rw [div_lt_div_iff₀ hu' two_pos, one_mul, mul_comm]
    exact_mod_cast Iff.rfl
  have hgt : 1 / 2 < (n % u : ℕ) / (u : K) ↔ u < 2 * (n % u) := by
    rw [div_lt_div_iff₀ two_pos hu', one_mul, mul_comm]
    exact_mod_cast Iff.rfl
  simp only [roundEven, roundDiv, hfloor, Int.cast_natCast, hrest, hlt, hgt]
  split_ifs <;> push_cast <;> rfl

/-! ## Significant digits -/

/-- The exponent of the last of `prec` digits of `x`. -/
def lastExp (prec : ℕ) (x : K) : ℤ := Int.log 2 x - prec + 1

/-- `x` with `prec` significant digits. -/
def roundTo (prec : ℕ) (x : K) : K :=
  roundEven (x / 2 ^ lastExp prec x) * 2 ^ lastExp prec x

/-- A number a format with `prec` digits can hold. -/
def Fits (prec : ℕ) (x : K) : Prop := ∃ m : ℕ, ∃ e : ℤ, m < 2 ^ prec ∧ x = m * 2 ^ e

variable {prec : ℕ} {x y : K}

omit [FloorRing K] in
theorem unit_pos (e : ℤ) : (0 : K) < 2 ^ e := zpow_pos two_pos e

omit [FloorRing K] in
theorem fits_of_le (hprec : 0 < prec) {m : ℕ} (h : m ≤ 2 ^ prec) (e : ℤ) :
    Fits prec ((m : K) * 2 ^ e) := by
  rcases Nat.lt_or_eq_of_le h with hlt | rfl
  · exact ⟨m, e, hlt, rfl⟩
  · refine ⟨1, prec + e, Nat.one_lt_two_pow hprec.ne', ?_⟩
    rw [zpow_add₀ two_ne_zero, zpow_natCast, Nat.cast_one, one_mul, Nat.cast_pow, Nat.cast_ofNat]

@[simp] theorem roundTo_zero : roundTo prec (0 : K) = 0 := by
  rw [roundTo, zero_div, ← Int.cast_zero, roundEven_intCast, Int.cast_zero, zero_mul]

/-- Rounding keeps what the format can hold. -/
theorem roundTo_eq_self (h : Fits prec x) : roundTo prec x = x := by
  obtain ⟨m, e, hm, hx⟩ := h
  rcases Nat.eq_zero_or_pos m with rfl | hpos
  · simp [hx]
  have hpos : 0 < x := hx ▸ mul_pos (Nat.cast_pos.mpr hpos) (unit_pos e)
  -- the last of `prec` digits of `m * 2 ^ e` does not stand above `e`
  have hlog : Int.log 2 x < e + prec := by
    rw [← Int.lt_zpow_iff_log_lt one_lt_two hpos, Nat.cast_ofNat, add_comm, zpow_add₀ two_ne_zero,
      zpow_natCast, hx]
    exact mul_lt_mul_of_pos_right (by exact_mod_cast hm) (unit_pos e)
  obtain ⟨d, hd⟩ := Int.eq_ofNat_of_zero_le (a := e - lastExp prec x) (by unfold lastExp; omega)
  have hint : x / 2 ^ lastExp prec x = (m * 2 ^ d : ℤ) := by
    conv_lhs => rw [hx]
    rw [mul_div_assoc, ← hx, ← zpow_sub₀ two_ne_zero, hd]
    simp
  rw [roundTo, hint, roundEven_intCast, ← hint, div_mul_cancel₀ _ (unit_pos _).ne']

theorem roundTo_nonneg (hx : 0 ≤ x) : 0 ≤ roundTo prec x := by
  refine mul_nonneg ?_ (unit_pos _).le
  have := roundEven_mono (div_nonneg hx (unit_pos (lastExp prec x)).le)
  rw [← Int.cast_zero, roundEven_intCast] at this
  exact_mod_cast this

/-- A number below a power of two is not rounded past it. -/
theorem roundTo_le_zpow (x : K) : roundTo prec x ≤ 2 ^ (Int.log 2 x + 1) := by
  have hlt := Int.lt_zpow_succ_log_self (b := 2) one_lt_two x
  have hexp : (2 : K) ^ (Int.log 2 x + 1) = (2 ^ prec : ℤ) * 2 ^ lastExp prec x := by
    rw [Int.cast_pow, Int.cast_ofNat, ← zpow_natCast, ← zpow_add₀ two_ne_zero, lastExp]
    congr 1
    omega
  rw [Nat.cast_ofNat, hexp, ← div_lt_iff₀ (unit_pos _)] at hlt
  have hround := roundEven_mono hlt.le
  rw [roundEven_intCast] at hround
  rw [hexp, roundTo]
  exact mul_le_mul_of_nonneg_right (by exact_mod_cast hround) (unit_pos _).le

/-- A number is not rounded below its leading power of two. -/
theorem zpow_le_roundTo (hprec : 0 < prec) (hx : 0 < x) : 2 ^ Int.log 2 x ≤ roundTo prec x := by
  have hle := Int.zpow_log_le_self (b := 2) one_lt_two hx
  obtain ⟨n, rfl⟩ := Nat.exists_eq_succ_of_ne_zero hprec.ne'
  have hexp : (2 : K) ^ Int.log 2 x = (2 ^ n : ℤ) * 2 ^ lastExp (n + 1) x := by
    rw [Int.cast_pow, Int.cast_ofNat, ← zpow_natCast, ← zpow_add₀ two_ne_zero, lastExp]
    congr 1
    omega
  rw [Nat.cast_ofNat, hexp, ← le_div_iff₀ (unit_pos _)] at hle
  have hround := roundEven_mono hle
  rw [roundEven_intCast] at hround
  rw [hexp, roundTo]
  exact mul_le_mul_of_nonneg_right (by exact_mod_cast hround) (unit_pos _).le

/-- Rounding is monotone. -/
theorem roundTo_mono (hprec : 0 < prec) (hx : 0 ≤ x) (h : x ≤ y) :
    roundTo prec x ≤ roundTo prec y := by
  rcases eq_or_lt_of_le hx with rfl | hx
  · rw [roundTo_zero]
    exact roundTo_nonneg h
  have hy := lt_of_lt_of_le hx h
  rcases eq_or_lt_of_le (Int.log_mono_right (b := 2) hx h) with heq | hlt
  · -- the last digits stand at the same place
    have hexp : lastExp prec x = lastExp prec y := by rw [lastExp, heq, lastExp]
    rw [roundTo, roundTo, hexp]
    refine mul_le_mul_of_nonneg_right ?_ (unit_pos _).le
    exact_mod_cast roundEven_mono (div_le_div_of_nonneg_right h (unit_pos _).le)
  · calc roundTo prec x ≤ 2 ^ (Int.log 2 x + 1) := roundTo_le_zpow x
      _ ≤ 2 ^ Int.log 2 y := zpow_le_zpow_right₀ one_le_two (by omega)
      _ ≤ roundTo prec y := zpow_le_roundTo hprec hy

theorem roundTo_le (hprec : 0 < prec) (hx : 0 ≤ x) (hy : Fits prec y) (h : x ≤ y) :
    roundTo prec x ≤ y := (roundTo_mono hprec hx h).trans_eq (roundTo_eq_self hy)

/-- An integer of `prec + k` digits is rounded to a multiple of `2 ^ k`. -/
theorem roundTo_natCast {n k : ℕ} (hlo : 2 ^ (prec + k) ≤ 2 * n) (hhi : n < 2 ^ (prec + k)) :
    roundTo prec (n : K) = (roundDiv n (2 ^ k) * 2 ^ k : ℕ) := by
  have hpos : n ≠ 0 := by
    rintro rfl
    exact absurd hlo (by simp)
  have hlog : Nat.log 2 n + 1 = prec + k := by
    have h1 := Nat.lt_pow_succ_log_self (b := 2) (by decide) n
    have h2 := Nat.pow_log_le_self 2 hpos
    have h3 : Nat.log 2 n < prec + k := (Nat.pow_lt_pow_iff_right (by decide)).mp (h2.trans_lt hhi)
    have h4 : prec + k < Nat.log 2 n + 1 + 1 := by
      refine (Nat.pow_lt_pow_iff_right (a := 2) (by decide)).mp (hlo.trans_lt ?_)
      rw [Nat.pow_succ 2 (Nat.log 2 n + 1), Nat.mul_comm]
      exact Nat.mul_lt_mul_of_pos_right h1 two_pos
    omega
  have hexp : lastExp prec (n : K) = k := by
    rw [lastExp, Int.log_natCast]
    omega
  have hunit : (2 : K) ^ (k : ℤ) = (2 ^ k : ℕ) := by simp
  rw [roundTo, hexp, hunit, roundEven_div (by positivity)]
  push_cast
  rfl

/-- The error is at most one part in `2 ^ prec`. -/
theorem roundTo_error (hx : 0 < x) : |roundTo prec x - x| * 2 ^ prec ≤ x := by
  have hle := Int.zpow_log_le_self (b := 2) one_lt_two hx
  have hexp : (2 : K) ^ lastExp prec x * 2 ^ prec = 2 ^ Int.log 2 x * 2 := by
    rw [← zpow_natCast, ← zpow_add₀ two_ne_zero, ← zpow_add_one₀ two_ne_zero, lastExp]
    congr 1
    omega
  have hdiff : roundTo prec x - x =
      ((roundEven (x / 2 ^ lastExp prec x) : K) - x / 2 ^ lastExp prec x) * 2 ^ lastExp prec x := by
    rw [sub_mul, div_mul_cancel₀ _ (unit_pos _).ne', roundTo]
  have hunit : |(2 : K) ^ lastExp prec x| = 2 ^ lastExp prec x := abs_of_pos (unit_pos _)
  rw [hdiff, abs_mul, hunit, mul_assoc, hexp]
  have herr := roundEven_error (x / 2 ^ lastExp prec x)
  calc _ ≤ 1 / 2 * (2 ^ Int.log 2 x * 2) :=
        mul_le_mul_of_nonneg_right herr (mul_pos (unit_pos _) two_pos).le
    _ = 2 ^ Int.log 2 x := by field_simp
    _ ≤ x := by simpa using hle

end Rounding
