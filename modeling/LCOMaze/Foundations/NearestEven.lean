import LCOMaze.Foundations.FloatingPoint
import Mathlib.Algebra.Ring.Int.Parity
import Mathlib.Data.Int.Log
import Mathlib.Data.Rat.Floor

/-!
# Rounding to nearest

The arithmetic that rounds every result to the nearest number, and to the one with an even last
digit if two are equally near.

Main results:

- Theorem {lit}`roundEven_le_iff`: the integers that bound a rounded number.
- Theorem {lit}`sqrtEven_le_iff`: the integers that bound a rounded root.
- Definition {lit}`FloatArith.nearestEven`: the arithmetic.
-/

namespace Foundations

/-! ## Rounding to integers -/

/-- The first integer that has a property, if it is one of two neighbours. -/
def firstOf (P : ℤ → Prop) [DecidablePred P] (n : ℤ) : ℤ := if P n then n else n + 1

/-- All integers from it on have the property. -/
theorem firstOf_le_iff {P : ℤ → Prop} [DecidablePred P] {n : ℤ} (hbelow : ∀ m < n, ¬P m)
    (habove : ∀ m, n < m → P m) (m : ℤ) : firstOf P n ≤ m ↔ P m := by
  unfold firstOf
  rcases lt_trichotomy m n with hlt | rfl | hgt
  · have hno := hbelow m hlt
    split_ifs <;> simp only [hno, iff_false] <;> omega
  · split_ifs with hm
    · exact iff_of_true le_rfl hm
    · exact iff_of_false (by omega) hm
  · have hyes := habove m hgt
    split_ifs <;> simp only [hyes, iff_true] <;> omega

/-- The nearest integer, or the even one of the two nearest ones. -/
def roundEven (x : ℚ) : ℤ :=
  firstOf (fun m => x < m + 1 / 2 ∨ (x = m + 1 / 2 ∧ Even m)) ⌊x⌋

theorem roundEven_le_iff (x : ℚ) (m : ℤ) :
    roundEven x ≤ m ↔ x < m + 1 / 2 ∨ (x = m + 1 / 2 ∧ Even m) := by
  have hfloor := Int.floor_le x
  have hfloor' := Int.lt_floor_add_one x
  apply firstOf_le_iff
  · intro m hm
    have hcast : ((m + 1 : ℤ) : ℚ) ≤ ⌊x⌋ := by exact_mod_cast hm
    push_cast at hcast
    rintro (hlt | ⟨heq, -⟩) <;> linarith
  · intro m hm
    have hcast : ((⌊x⌋ + 1 : ℤ) : ℚ) ≤ m := by exact_mod_cast hm
    push_cast at hcast
    left
    linarith

theorem roundEven_mono : Monotone roundEven := by
  intro x y hxy
  have hy := (roundEven_le_iff y (roundEven y)).mp le_rfl
  rw [roundEven_le_iff]
  rcases hy with hlt | ⟨heq, heven⟩
  · exact Or.inl (hxy.trans_lt hlt)
  · rcases hxy.lt_or_eq with hlt | rfl
    · exact Or.inl (hlt.trans_eq heq)
    · exact Or.inr ⟨heq, heven⟩

theorem roundEven_intCast (n : ℤ) : roundEven n = n := by
  refine eq_of_forall_ge_iff fun m => ?_
  rw [roundEven_le_iff]
  constructor
  · rintro (hlt | ⟨heq, -⟩)
    · have hcast : ((n : ℤ) : ℚ) < ((m + 1 : ℤ) : ℚ) := by
        push_cast
        linarith
      have hlt' : n < m + 1 := by exact_mod_cast hcast
      omega
    · have hcast : ((2 * n : ℤ) : ℚ) = ((2 * m + 1 : ℤ) : ℚ) := by
        push_cast
        linarith
      have heq' : 2 * n = 2 * m + 1 := by exact_mod_cast hcast
      omega
  · intro hle
    have hcast : (n : ℚ) ≤ m := by exact_mod_cast hle
    left
    linarith

theorem roundEven_neg (x : ℚ) : roundEven (-x) = -roundEven x := by
  refine eq_of_forall_ge_iff fun m => ?_
  rw [roundEven_le_iff, neg_le, ← not_lt, ← Int.le_sub_one_iff, roundEven_le_iff]
  have hparity : Even (-m - 1) ↔ ¬Even m := by
    rw [Int.even_sub_one, even_neg]
  rw [hparity]
  push_cast
  constructor
  · rintro (hlt | ⟨heq, heven⟩)
    · rintro (hlt' | ⟨heq', -⟩) <;> linarith
    · rintro (hlt' | ⟨-, hodd⟩)
      · linarith
      · exact hodd heven
  · intro h
    rw [not_or, not_lt, not_and, not_not] at h
    rcases h.1.lt_or_eq with hlt | heq
    · left
      linarith
    · exact Or.inr ⟨by linarith, h.2 (by linarith)⟩

/-- A number is at most one half from the integer it is rounded to. -/
theorem abs_roundEven_sub_le (x : ℚ) : |roundEven x - x| ≤ 1 / 2 := by
  have hbelow : ∀ y : ℚ, y - 1 / 2 ≤ roundEven y := by
    intro y
    rcases (roundEven_le_iff y (roundEven y)).mp le_rfl with hlt | ⟨heq, -⟩ <;> linarith
  have habove := hbelow (-x)
  rw [roundEven_neg] at habove
  push_cast at habove
  rw [abs_le]
  constructor <;> linarith [hbelow x]

/-- The integer nearest to the root. -/
def sqrtEven (v : ℚ) : ℤ :=
  firstOf (fun m => 0 ≤ m ∧ (v < (m + 1 / 2) ^ 2 ∨ (v = (m + 1 / 2) ^ 2 ∧ Even m)))
    (Nat.sqrt ⌊v⌋₊)

theorem sqrtEven_le_iff (v : ℚ) (m : ℤ) :
    sqrtEven v ≤ m ↔ 0 ≤ m ∧ (v < (m + 1 / 2) ^ 2 ∨ (v = (m + 1 / 2) ^ 2 ∧ Even m)) := by
  have hfloor := Nat.lt_floor_add_one v
  apply firstOf_le_iff
  · rintro m hm ⟨hnonneg, hm'⟩
    -- the floor of the root squared is a value below
    have hpos : 0 < ⌊v⌋₊ := by
      by_contra hzero
      rw [Nat.eq_zero_of_not_pos hzero, Nat.sqrt_zero] at hm
      omega
    have hv : (⌊v⌋₊ : ℚ) ≤ v := Nat.floor_le (Nat.pos_of_floor_pos hpos).le
    have hsquare : (((Nat.sqrt ⌊v⌋₊ : ℤ) ^ 2 : ℤ) : ℚ) ≤ v := by
      refine le_trans ?_ hv
      exact_mod_cast Nat.sqrt_le' ⌊v⌋₊
    have hcast : ((m + 1 : ℤ) : ℚ) ≤ (Nat.sqrt ⌊v⌋₊ : ℤ) := by exact_mod_cast hm
    have hcast' : (0 : ℚ) ≤ m := by exact_mod_cast hnonneg
    push_cast at hcast hsquare
    have hmore : ((m : ℚ) + 1 / 2) ^ 2 < v := by nlinarith
    rcases hm' with hlt | ⟨heq, -⟩ <;> linarith
  · intro m hm
    have hnonneg : 0 ≤ m := by omega
    refine ⟨hnonneg, Or.inl ?_⟩
    have hsquare : ((⌊v⌋₊ + 1 : Nat) : ℚ) ≤ ((Nat.sqrt ⌊v⌋₊ + 1) ^ 2 : Nat) := by
      exact_mod_cast Nat.lt_succ_sqrt' ⌊v⌋₊
    have hcast : ((Nat.sqrt ⌊v⌋₊ + 1 : ℤ) : ℚ) ≤ m := by exact_mod_cast hm
    push_cast at hcast hsquare
    have hroot : (0 : ℚ) ≤ Nat.sqrt ⌊v⌋₊ := Nat.cast_nonneg _
    nlinarith

theorem sqrtEven_nonneg (v : ℚ) : 0 ≤ sqrtEven v := ((sqrtEven_le_iff v _).mp le_rfl).1

/-- A number whose square is at most the argument is not rounded above the root. -/
theorem roundEven_le_sqrtEven {a v : ℚ} (h : a * a ≤ v) :
    roundEven a ≤ sqrtEven v := by
  rcases (sqrtEven_le_iff v _).mp le_rfl with ⟨hnonneg, hv⟩
  have hcast : (0 : ℚ) ≤ sqrtEven v := by exact_mod_cast hnonneg
  have hle : a ≤ sqrtEven v + 1 / 2 := by
    refine abs_le_of_sq_le_sq' ?_ (by linarith) |>.2
    rw [sq]
    rcases hv with hlt | ⟨heq, -⟩ <;> linarith
  rw [roundEven_le_iff]
  rcases hle.lt_or_eq with hlt | heq
  · exact Or.inl hlt
  · refine Or.inr ⟨heq, ?_⟩
    rcases hv with hlt | ⟨-, heven⟩
    · rw [heq] at h
      nlinarith
    · exact heven

/-- A number whose square is at least the argument is not rounded below the root. -/
theorem sqrtEven_le_roundEven {b v : ℚ} (hb : 0 ≤ b) (h : v ≤ b * b) :
    sqrtEven v ≤ roundEven b := by
  have hnonneg : 0 ≤ roundEven b := by
    rw [← roundEven_intCast 0]
    exact roundEven_mono (by exact_mod_cast hb)
  have hcast : (0 : ℚ) ≤ roundEven b := by exact_mod_cast hnonneg
  rw [sqrtEven_le_iff]
  refine ⟨hnonneg, ?_⟩
  rcases (roundEven_le_iff b _).mp le_rfl with hlt | ⟨heq, heven⟩
  · left
    nlinarith
  · rcases h.lt_or_eq with hlt | hv
    · left
      rw [← heq, sq]
      exact hlt
    · exact Or.inr ⟨by rw [hv, ← heq, sq], heven⟩

/-! ## Rounding to binary digits -/

section

variable (n : Nat)

/-- The weight of the last digit of a number whose first digit has the weight
{lit}`2 ^ exponent`. -/
def lastDigit (exponent : ℤ) : ℚ := 2 ^ (exponent - n)

theorem lastDigit_pos (exponent : ℤ) : 0 < lastDigit n exponent := zpow_pos two_pos _

/-- The first digit, in units of the last one. -/
theorem two_pow_mul_lastDigit (exponent : ℤ) :
    ((2 ^ n : ℤ) : ℚ) * lastDigit n exponent = 2 ^ exponent := by
  rw [lastDigit]
  push_cast
  rw [← zpow_natCast, ← zpow_add₀ two_ne_zero, add_sub_cancel]

/-- Keep {lit}`n + 1` digits. -/
def roundDigits (x : ℚ) : ℚ :=
  roundEven (x / lastDigit n (Int.log 2 |x|)) * lastDigit n (Int.log 2 |x|)

/-- Keep {lit}`n + 1` digits of the root. -/
def sqrtDigits (s : ℚ) : ℚ :=
  sqrtEven (s / (lastDigit n (Int.log 2 s / 2) * lastDigit n (Int.log 2 s / 2))) *
    lastDigit n (Int.log 2 s / 2)

/-- The first digit of a positive number. -/
theorem two_pow_log_le {x : ℚ} (h : 0 < x) : (2 : ℚ) ^ Int.log 2 x ≤ x := by
  exact_mod_cast Int.zpow_log_le_self Nat.one_lt_two h

theorem lt_two_pow_log (x : ℚ) : x < (2 : ℚ) ^ (Int.log 2 x + 1) := by
  exact_mod_cast Int.lt_zpow_succ_log_self Nat.one_lt_two x

theorem roundDigits_neg (x : ℚ) : roundDigits n (-x) = -roundDigits n x := by
  rw [roundDigits, roundDigits, abs_neg, neg_div, roundEven_neg]
  push_cast
  ring

/-- A power of two that is at least a number is at least its rounding. -/
theorem roundEven_div_mul_le {x : ℚ} {exponent : ℤ} (h : x ≤ 2 ^ (exponent + 1)) :
    roundEven (x / lastDigit n exponent) * lastDigit n exponent ≤ 2 ^ (exponent + 1) := by
  have hpos := lastDigit_pos n exponent
  have htwo := two_pow_mul_lastDigit n exponent
  have hnext : (2 : ℚ) ^ (exponent + 1) = ((2 ^ (n + 1) : ℤ) : ℚ) * lastDigit n exponent := by
    rw [zpow_add_one₀ two_ne_zero, ← htwo]
    push_cast
    ring
  rw [hnext] at h ⊢
  refine mul_le_mul_of_nonneg_right ?_ hpos.le
  have hle : roundEven (x / lastDigit n exponent) ≤ roundEven ((2 ^ (n + 1) : ℤ) : ℚ) :=
    roundEven_mono ((div_le_iff₀ hpos).mpr h)
  rw [roundEven_intCast] at hle
  exact_mod_cast hle

/-- A power of two that is at most a number is at most its rounding. -/
theorem le_roundEven_div_mul {x : ℚ} {exponent : ℤ} (h : 2 ^ exponent ≤ x) :
    2 ^ exponent ≤ roundEven (x / lastDigit n exponent) * lastDigit n exponent := by
  have hpos := lastDigit_pos n exponent
  rw [← two_pow_mul_lastDigit n exponent] at h ⊢
  refine mul_le_mul_of_nonneg_right ?_ hpos.le
  have hle : roundEven ((2 ^ n : ℤ) : ℚ) ≤ roundEven (x / lastDigit n exponent) :=
    roundEven_mono ((le_div_iff₀ hpos).mpr h)
  rw [roundEven_intCast] at hle
  exact_mod_cast hle

/-- Rounding is monotone on positive numbers: numbers with the same first digit are rounded to
multiples of the same power, and a power of two lies between others. -/
theorem roundDigits_le_of_pos {x y : ℚ} (hx : 0 < x) (h : x ≤ y) :
    roundDigits n x ≤ roundDigits n y := by
  have hy := hx.trans_le h
  unfold roundDigits
  rw [abs_of_pos hx, abs_of_pos hy]
  rcases (Int.log_mono_right (b := 2) hx h).lt_or_eq with hlt | heq
  · calc roundEven (x / lastDigit n (Int.log 2 x)) * lastDigit n (Int.log 2 x)
        ≤ 2 ^ (Int.log 2 x + 1) := roundEven_div_mul_le n (lt_two_pow_log x).le
      _ ≤ 2 ^ Int.log 2 y := zpow_le_zpow_right₀ one_le_two hlt
      _ ≤ _ := le_roundEven_div_mul n (two_pow_log_le hy)
  · rw [heq]
    refine mul_le_mul_of_nonneg_right ?_ (lastDigit_pos n _).le
    exact_mod_cast roundEven_mono (div_le_div_of_nonneg_right h (lastDigit_pos n _).le)

theorem roundDigits_nonneg {x : ℚ} (h : 0 ≤ x) : 0 ≤ roundDigits n x := by
  have hround : 0 ≤ roundEven (x / lastDigit n (Int.log 2 |x|)) := by
    rw [← roundEven_intCast 0]
    exact roundEven_mono (by exact_mod_cast div_nonneg h (lastDigit_pos n _).le)
  exact mul_nonneg (by exact_mod_cast hround) (lastDigit_pos n _).le

theorem roundDigits_mono : Monotone (roundDigits n) := by
  intro x y h
  rcases lt_or_ge 0 x with hx | hx
  · exact roundDigits_le_of_pos n hx h
  · rcases lt_or_ge y 0 with hy | hy
    · have hneg := roundDigits_le_of_pos n (neg_pos.mpr hy) (neg_le_neg h)
      rw [roundDigits_neg, roundDigits_neg] at hneg
      exact neg_le_neg_iff.mp hneg
    · have hneg := roundDigits_nonneg n (neg_nonneg.mpr hx)
      rw [roundDigits_neg, neg_nonneg] at hneg
      exact hneg.trans (roundDigits_nonneg n hy)

/-- The digits of a number need not fill up all values. -/
theorem IsFloat.exists_lt {q : ℚ} (h : IsFloat (n + 1) q) :
    ∃ m k : ℤ, |m| < 2 ^ (n + 1) ∧ q = m * 2 ^ k := by
  rcases h with ⟨m, k, hm, rfl⟩
  rcases hm.lt_or_eq with hlt | heq
  · exact ⟨m, k, hlt, rfl⟩
  · have heven : Even |m| := by
      rw [heq, pow_succ']
      exact even_two_mul _
    rw [even_abs] at heven
    rcases heven with ⟨m', rfl⟩
    refine ⟨m', k + 1, ?_, ?_⟩
    · rw [← Int.two_mul, abs_mul, abs_two, pow_succ'] at heq
      have hpos : (0 : ℤ) < 2 ^ n := pow_pos two_pos n
      rw [pow_succ']
      omega
    · rw [zpow_add_one₀ two_ne_zero]
      push_cast
      ring

/-- Numbers of that many digits are multiples of the last one. -/
theorem roundDigits_of_isFloat {x : ℚ} (h : IsFloat (n + 1) x) : roundDigits n x = x := by
  have hmultiple : ∃ m : ℤ, x = m * lastDigit n (Int.log 2 |x|) := by
    rcases h.exists_lt with ⟨m, k, hm, rfl⟩
    rcases eq_or_ne m 0 with rfl | hzero
    · exact ⟨0, by simp⟩
    · have hpos : 0 < |(m : ℚ) * 2 ^ k| :=
        abs_pos.mpr (mul_ne_zero (by exact_mod_cast hzero) (zpow_ne_zero _ two_ne_zero))
      have hless : |(m : ℚ) * 2 ^ k| < 2 ^ ((n + 1 : Nat) + k) := by
        rw [abs_mul, abs_of_pos (zpow_pos two_pos k : (0 : ℚ) < 2 ^ k), zpow_add₀ two_ne_zero,
          zpow_natCast]
        refine mul_lt_mul_of_pos_right ?_ (zpow_pos two_pos k)
        exact_mod_cast hm
      have hexponent : Int.log 2 |(m : ℚ) * 2 ^ k| < (n + 1 : Nat) + k := by
        rw [← zpow_lt_zpow_iff_right₀ (one_lt_two : (1 : ℚ) < 2)]
        exact (two_pow_log_le hpos).trans_lt hless
      generalize Int.log 2 |(m : ℚ) * 2 ^ k| = exponent at hexponent
      refine ⟨m * 2 ^ (k - (exponent - n)).toNat, ?_⟩
      rw [lastDigit]
      push_cast
      rw [mul_assoc, ← zpow_natCast, Int.toNat_of_nonneg (by omega), ← zpow_add₀ two_ne_zero,
        sub_add_cancel]
  rcases hmultiple with ⟨m, hm⟩
  have hdiv : x / lastDigit n (Int.log 2 |x|) = m := by
    rw [div_eq_iff (lastDigit_pos n _).ne']
    exact hm
  rw [roundDigits, hdiv, roundEven_intCast]
  exact hm.symm

theorem roundDigits_zero : roundDigits n 0 = 0 :=
  roundDigits_of_isFloat n ⟨0, 0, by simp, by simp⟩

/-- A rounded number has that many digits. -/
theorem isFloat_roundDigits (x : ℚ) : IsFloat (n + 1) (roundDigits n x) := by
  refine ⟨roundEven (x / lastDigit n (Int.log 2 |x|)), Int.log 2 |x| - n, ?_, rfl⟩
  have hdigits : ∀ y : ℚ, |y| = |x| →
      roundEven (y / lastDigit n (Int.log 2 |x|)) ≤ 2 ^ (n + 1) := by
    intro y hy
    have hless : y ≤ 2 ^ (Int.log 2 |x| + 1) :=
      (le_abs_self y).trans (hy.trans_lt (lt_two_pow_log |x|)).le
    have hle := roundEven_div_mul_le n hless
    have hnext := two_pow_mul_lastDigit n (Int.log 2 |x|)
    rw [zpow_add_one₀ two_ne_zero, ← hnext, mul_right_comm,
      mul_le_mul_iff_left₀ (lastDigit_pos n _)] at hle
    rw [pow_succ]
    exact_mod_cast hle
  have hneg := hdigits (-x) (abs_neg x)
  rw [neg_div, roundEven_neg] at hneg
  exact abs_le.mpr ⟨neg_le.mp hneg, hdigits x rfl⟩

/-- The error is at most one half of the last digit. -/
theorem abs_roundDigits_sub_le (x : ℚ) : |roundDigits n x - x| ≤ |x| / 2 ^ (n + 1) := by
  rcases eq_or_ne x 0 with rfl | hzero
  · rw [roundDigits_zero]
    simp
  · have hpos := lastDigit_pos n (Int.log 2 |x|)
    have hsplit : roundDigits n x - x =
        (roundEven (x / lastDigit n (Int.log 2 |x|)) - x / lastDigit n (Int.log 2 |x|)) *
          lastDigit n (Int.log 2 |x|) := by
      rw [sub_mul, div_mul_cancel₀ _ hpos.ne', roundDigits]
    rw [hsplit, abs_mul, abs_of_pos hpos]
    calc |(roundEven (x / lastDigit n (Int.log 2 |x|)) : ℚ) - x / lastDigit n (Int.log 2 |x|)| *
          lastDigit n (Int.log 2 |x|)
        ≤ 1 / 2 * lastDigit n (Int.log 2 |x|) :=
          mul_le_mul_of_nonneg_right (abs_roundEven_sub_le _) hpos.le
      _ = 2 ^ Int.log 2 |x| / 2 ^ (n + 1) := by
          rw [← two_pow_mul_lastDigit n, pow_succ]
          push_cast
          field_simp
      _ ≤ |x| / 2 ^ (n + 1) :=
          div_le_div_of_nonneg_right (two_pow_log_le (abs_pos.mpr hzero)) (by positivity)

/-! ## Roots -/

/-- The first digit of a root. -/
theorem two_pow_half_log_le {s : ℚ} (h : 0 < s) :
    (2 : ℚ) ^ (Int.log 2 s / 2) * 2 ^ (Int.log 2 s / 2) ≤ s := by
  rw [← zpow_add₀ two_ne_zero]
  exact (zpow_le_zpow_right₀ one_le_two (by omega)).trans (two_pow_log_le h)

theorem lt_two_pow_half_log (s : ℚ) :
    s < (2 : ℚ) ^ (Int.log 2 s / 2 + 1) * 2 ^ (Int.log 2 s / 2 + 1) := by
  rw [← zpow_add₀ two_ne_zero]
  exact (lt_two_pow_log s).trans_le (zpow_le_zpow_right₀ one_le_two (by omega))

/-- Squares compared in units of the last digit. -/
theorem div_mul_div_lastDigit (a : ℚ) (exponent : ℤ) :
    a / lastDigit n exponent * (a / lastDigit n exponent) =
      a * a / (lastDigit n exponent * lastDigit n exponent) := div_mul_div_comm _ _ _ _

theorem roundEven_le_sqrtEven_div {a s : ℚ} (h : a * a ≤ s) (exponent : ℤ) :
    (roundEven (a / lastDigit n exponent) : ℚ) * lastDigit n exponent ≤
      sqrtEven (s / (lastDigit n exponent * lastDigit n exponent)) * lastDigit n exponent := by
  have hpos := lastDigit_pos n exponent
  refine mul_le_mul_of_nonneg_right ?_ hpos.le
  have hle := div_le_div_of_nonneg_right h (mul_pos hpos hpos).le
  rw [← div_mul_div_lastDigit] at hle
  exact_mod_cast roundEven_le_sqrtEven hle

theorem sqrtEven_le_roundEven_div {b s : ℚ} (hb : 0 ≤ b) (h : s ≤ b * b) (exponent : ℤ) :
    (sqrtEven (s / (lastDigit n exponent * lastDigit n exponent)) : ℚ) * lastDigit n exponent ≤
      roundEven (b / lastDigit n exponent) * lastDigit n exponent := by
  have hpos := lastDigit_pos n exponent
  refine mul_le_mul_of_nonneg_right ?_ hpos.le
  have hle := div_le_div_of_nonneg_right h (mul_pos hpos hpos).le
  rw [← div_mul_div_lastDigit] at hle
  exact_mod_cast sqrtEven_le_roundEven (div_nonneg hb hpos.le) hle

/-- The rounded root has the first digit of the root. -/
theorem two_pow_le_sqrtDigits {s : ℚ} (h : 0 < s) :
    (2 : ℚ) ^ (Int.log 2 s / 2) ≤ sqrtDigits n s :=
  (le_roundEven_div_mul n le_rfl).trans
    (roundEven_le_sqrtEven_div n (two_pow_half_log_le h) _)

theorem sqrtDigits_le_two_pow (s : ℚ) : sqrtDigits n s ≤ (2 : ℚ) ^ (Int.log 2 s / 2 + 1) :=
  (sqrtEven_le_roundEven_div n (zpow_pos two_pos _).le (lt_two_pow_half_log s).le _).trans
    (roundEven_div_mul_le n le_rfl)

theorem roundDigits_le_sqrtDigits {a s : ℚ} (h : a * a ≤ s) :
    roundDigits n a ≤ sqrtDigits n s := by
  have hnonneg : 0 ≤ sqrtDigits n s :=
    mul_nonneg (by exact_mod_cast sqrtEven_nonneg _) (lastDigit_pos n _).le
  rcases le_or_gt a 0 with ha | ha
  · have hround := roundDigits_mono n ha
    rw [roundDigits_zero] at hround
    exact hround.trans hnonneg
  · have hs : 0 < s := (mul_pos ha ha).trans_le h
    have hlog : Int.log 2 a ≤ Int.log 2 s / 2 := by
      have hless : a < 2 ^ (Int.log 2 s / 2 + 1) :=
        lt_of_mul_self_lt_mul_self₀ (zpow_pos two_pos _).le
          (h.trans_lt (lt_two_pow_half_log s))
      rw [← Int.lt_add_one_iff, ← zpow_lt_zpow_iff_right₀ (one_lt_two : (1 : ℚ) < 2)]
      exact (two_pow_log_le ha).trans_lt hless
    rcases hlog.lt_or_eq with hlt | heq
    · calc roundDigits n a ≤ 2 ^ (Int.log 2 a + 1) := by
            rw [roundDigits, abs_of_pos ha]
            exact roundEven_div_mul_le n (lt_two_pow_log a).le
        _ ≤ 2 ^ (Int.log 2 s / 2) := zpow_le_zpow_right₀ one_le_two hlt
        _ ≤ sqrtDigits n s := two_pow_le_sqrtDigits n hs
    · rw [roundDigits, abs_of_pos ha, heq]
      exact roundEven_le_sqrtEven_div n h _

theorem sqrtDigits_le_roundDigits {b s : ℚ} (hb : 0 ≤ b) (h : s ≤ b * b) :
    sqrtDigits n s ≤ roundDigits n b := by
  rcases le_or_gt s 0 with hs | hs
  · have hzero : sqrtDigits n s ≤ 0 := by
      have hle := sqrtEven_le_roundEven_div n le_rfl (hs.trans (mul_zero (0 : ℚ)).ge)
        (Int.log 2 s / 2)
      have hround : roundEven 0 = 0 := by exact_mod_cast roundEven_intCast 0
      rw [zero_div, hround] at hle
      simpa [sqrtDigits] using hle
    exact hzero.trans (roundDigits_nonneg n hb)
  · have hpos : 0 < b := by
      rcases hb.lt_or_eq with hlt | rfl
      · exact hlt
      · linarith
    have hlog : Int.log 2 s / 2 ≤ Int.log 2 b := by
      have hless : (2 : ℚ) ^ (Int.log 2 s / 2) ≤ b :=
        (mul_self_le_mul_self_iff (zpow_pos two_pos _).le hb).mpr
          ((two_pow_half_log_le hs).trans h)
      rw [← Int.lt_add_one_iff, ← zpow_lt_zpow_iff_right₀ (one_lt_two : (1 : ℚ) < 2)]
      exact hless.trans_lt (lt_two_pow_log b)
    rcases hlog.lt_or_eq with hlt | heq
    · calc sqrtDigits n s ≤ 2 ^ (Int.log 2 s / 2 + 1) := sqrtDigits_le_two_pow n s
        _ ≤ 2 ^ Int.log 2 b := zpow_le_zpow_right₀ one_le_two hlt
        _ ≤ roundDigits n b := by
            rw [roundDigits, abs_of_pos hpos]
            exact le_roundEven_div_mul n (two_pow_log_le hpos)
    · rw [roundDigits, abs_of_pos hpos, ← heq]
      exact sqrtEven_le_roundEven_div n hb h _

/-- The arithmetic that rounds to nearest. -/
def FloatArith.nearestEven : FloatArith (n + 1) where
  round := roundDigits n
  sqrt := sqrtDigits n
  round_mono := roundDigits_mono n
  round_neg := roundDigits_neg n
  round_of_isFloat := roundDigits_of_isFloat n
  isFloat_round := isFloat_roundDigits n
  abs_round_sub_le := abs_roundDigits_sub_le n
  round_le_sqrt := roundDigits_le_sqrtDigits n
  sqrt_le_round := sqrtDigits_le_roundDigits n

end

end Foundations
