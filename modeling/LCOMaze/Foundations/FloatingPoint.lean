import Mathlib.Algebra.Order.Field.Power
import Mathlib.Analysis.Real.Sqrt

/-!
# Floating-point arithmetic

The numbers have a fixed number of binary digits and an unbounded exponent.  An arithmetic rounds
the exact result of every operation to one of them; which one is left open as far as it is
monotone, symmetric and accurate.

Main results:

- Theorem {lit}`FloatArith.round_bounds`: the relative error of one operation.
- Theorem {lit}`FloatArith.sqrt_le_of_le`: no error makes a root exceed a number that it does not.
- Theorem {lit}`FloatArith.le_of_sqrt_le`: a root that does not exceed a number is of one that
  hardly exceeds its square.
- Theorem {lit}`FloatArith.sumSq_bounds`: the relative error of a sum of squares.
-/

namespace Foundations

/-! ## Numbers -/

/-- The number has at most {lit}`precision` binary digits. -/
def IsFloat (precision : Nat) (q : ℚ) : Prop :=
  ∃ n k : ℤ, |n| ≤ 2 ^ precision ∧ q = n * 2 ^ k

section

variable {precision : Nat}

/-- Integers of that many digits. -/
theorem isFloat_intCast {n : ℤ} (h : |n| ≤ 2 ^ precision) : IsFloat precision n :=
  ⟨n, 0, h, by rw [zpow_zero, mul_one]⟩

theorem isFloat_natCast {n : Nat} (h : n ≤ 2 ^ precision) : IsFloat precision n := by
  have habs : |(n : ℤ)| ≤ 2 ^ precision := by
    rw [Nat.abs_cast]
    exact_mod_cast h
  exact_mod_cast isFloat_intCast habs

/-- Doubling and halving shift the digits. -/
theorem IsFloat.two_mul {q : ℚ} (h : IsFloat precision q) : IsFloat precision (2 * q) := by
  rcases h with ⟨n, k, hn, rfl⟩
  refine ⟨n, k + 1, hn, ?_⟩
  rw [zpow_add_one₀ two_ne_zero]
  ring

theorem IsFloat.half {q : ℚ} (h : IsFloat precision q) : IsFloat precision (q / 2) := by
  rcases h with ⟨n, k, hn, rfl⟩
  refine ⟨n, k - 1, hn, ?_⟩
  rw [zpow_sub_one₀ two_ne_zero]
  ring

end

/-! ## Arithmetic -/

/-- What the operations return instead of their exact results.  A root is the rounding of the real
one, which need not be rational: it is compared with its square. -/
structure FloatArith (precision : Nat) where
  round : ℚ → ℚ
  sqrt : ℚ → ℚ
  round_mono : Monotone round
  round_neg : ∀ q, round (-q) = -round q
  round_of_isFloat : ∀ {q}, IsFloat precision q → round q = q
  isFloat_round : ∀ q, IsFloat precision (round q)
  abs_round_sub_le : ∀ q, |round q - q| ≤ |q| / 2 ^ precision
  round_le_sqrt : ∀ {a s}, a * a ≤ s → round a ≤ sqrt s
  sqrt_le_round : ∀ {b s}, 0 ≤ b → s ≤ b * b → sqrt s ≤ round b

namespace FloatArith

variable {precision : Nat} (fp : FloatArith precision)

/-- The four operations. -/
def add (a b : ℚ) : ℚ := fp.round (a + b)

def sub (a b : ℚ) : ℚ := fp.round (a - b)

def mul (a b : ℚ) : ℚ := fp.round (a * b)

def div (a b : ℚ) : ℚ := fp.round (a / b)

theorem round_zero : fp.round 0 = 0 :=
  fp.round_of_isFloat ⟨0, 0, by simp, by simp⟩

/-- Rounding keeps the sign. -/
theorem round_nonneg {q : ℚ} (h : 0 ≤ q) : 0 ≤ fp.round q := by
  rw [← fp.round_zero]
  exact fp.round_mono h

/-- Rounding commutes with the absolute value. -/
theorem abs_round (q : ℚ) : |fp.round q| = fp.round |q| := by
  rcases abs_cases q with ⟨habs, hsign⟩ | ⟨habs, hsign⟩
  · rw [habs, abs_of_nonneg (fp.round_nonneg hsign)]
  · have hneg := fp.round_nonneg (neg_nonneg.mpr hsign.le)
    rw [habs]
    rw [fp.round_neg] at hneg ⊢
    exact abs_of_nonpos (neg_nonneg.mp hneg)

/-- The relative error of one operation. -/
theorem round_bounds {q : ℚ} (h : 0 ≤ q) :
    (1 - 1 / 2 ^ precision) * q ≤ fp.round q ∧ fp.round q ≤ (1 + 1 / 2 ^ precision) * q := by
  have herror := fp.abs_round_sub_le q
  rw [abs_of_nonneg h, abs_le] at herror
  have hproduct : 1 / 2 ^ precision * q = q / 2 ^ precision := one_div_mul_eq_div _ _
  constructor
  · rw [sub_mul, one_mul, hproduct]
    linarith
  · rw [add_mul, one_mul, hproduct]
    linarith

/-- The error bound is less than one half. -/
theorem unit_lt_one (h : 0 < precision) : (1 : ℚ) / 2 ^ precision < 1 := by
  rw [div_lt_one (by positivity)]
  exact one_lt_pow₀ one_lt_two h.ne'

/-- A root of at most the square of a number is at most this number. -/
theorem sqrt_le_of_le {b s : ℚ} (hb : 0 ≤ b) (hfloat : IsFloat precision b) (h : s ≤ b * b) :
    fp.sqrt s ≤ b := by
  have hround := fp.sqrt_le_round hb h
  rwa [fp.round_of_isFloat hfloat] at hround

/-- If a root is at most a number, its argument exceeds the square of the number by no more than
the error. -/
theorem le_of_sqrt_le (hprecision : 0 < precision) {b s : ℚ} (hb : 0 ≤ b)
    (h : fp.sqrt s ≤ b) : (1 - 1 / 2 ^ precision) ^ 2 * s ≤ b ^ 2 := by
  have hunit := unit_lt_one hprecision
  by_contra hlt
  rw [not_le] at hlt
  set c : ℚ := b / (1 - 1 / 2 ^ precision) with hc
  have hc0 : 0 ≤ c := div_nonneg hb (by linarith)
  have hcb : (1 - 1 / 2 ^ precision) * c = b := mul_div_cancel₀ b (by linarith)
  have hcs : c ^ 2 < s := by
    rw [← hcb, mul_pow] at hlt
    exact lt_of_mul_lt_mul_left hlt (sq_nonneg _)
  -- a number between the bound and the real root is rounded above the bound
  have hreal : (c : ℝ) < Real.sqrt s :=
    Real.lt_sqrt_of_sq_lt (by exact_mod_cast hcs)
  rcases exists_rat_btwn hreal with ⟨a, hca, has⟩
  have ha : c < a := by exact_mod_cast hca
  have hsquare : a * a ≤ s := by
    have hlt : a ^ 2 < s := by
      exact_mod_cast (Real.lt_sqrt (by exact_mod_cast hc0.trans ha.le)).mp has
    rw [← sq]
    exact hlt.le
  have hround := fp.round_le_sqrt hsquare
  have hbound := (fp.round_bounds (hc0.trans ha.le)).1
  have hmore : b < (1 - 1 / 2 ^ precision) * a := by
    rw [← hcb]
    exact mul_lt_mul_of_pos_left ha (by linarith)
  linarith

/-- The square of a rounded number, rounded again. -/
theorem mul_self_round_bounds (hprecision : 0 < precision) (a : ℚ) :
    (1 - 1 / 2 ^ precision) ^ 3 * a ^ 2 ≤ fp.mul (fp.round a) (fp.round a) ∧
      fp.mul (fp.round a) (fp.round a) ≤ (1 + 1 / 2 ^ precision) ^ 3 * a ^ 2 := by
  have hunit := unit_lt_one hprecision
  have hunit' : (0 : ℚ) < 1 / 2 ^ precision := by positivity
  rcases fp.round_bounds (abs_nonneg a) with ⟨hlow, hhigh⟩
  rw [← fp.abs_round] at hlow hhigh
  rcases fp.round_bounds (mul_self_nonneg (fp.round a)) with ⟨hlow', hhigh'⟩
  have hsquare : fp.round a * fp.round a = |fp.round a| ^ 2 := by
    rw [sq_abs, sq]
  have hbelow : ((1 - 1 / 2 ^ precision) * |a|) ^ 2 ≤ |fp.round a| ^ 2 :=
    pow_le_pow_left₀ (mul_nonneg (by linarith) (abs_nonneg a)) hlow 2
  have habove : |fp.round a| ^ 2 ≤ ((1 + 1 / 2 ^ precision) * |a|) ^ 2 :=
    pow_le_pow_left₀ (abs_nonneg _) hhigh 2
  unfold mul
  rw [hsquare] at hlow' hhigh' ⊢
  rw [← sq_abs a]
  constructor
  · calc (1 - 1 / 2 ^ precision) ^ 3 * |a| ^ 2
        = (1 - 1 / 2 ^ precision) * ((1 - 1 / 2 ^ precision) * |a|) ^ 2 := by ring
      _ ≤ (1 - 1 / 2 ^ precision) * |fp.round a| ^ 2 :=
          mul_le_mul_of_nonneg_left hbelow (by linarith)
      _ ≤ fp.round (|fp.round a| ^ 2) := hlow'
  · calc fp.round (|fp.round a| ^ 2)
        ≤ (1 + 1 / 2 ^ precision) * |fp.round a| ^ 2 := hhigh'
      _ ≤ (1 + 1 / 2 ^ precision) * ((1 + 1 / 2 ^ precision) * |a|) ^ 2 :=
          mul_le_mul_of_nonneg_left habove (by linarith)
      _ = (1 + 1 / 2 ^ precision) ^ 3 * |a| ^ 2 := by ring

/-- The relative error of a sum of two squares of rounded numbers. -/
theorem sumSq_bounds (hprecision : 0 < precision) (a b : ℚ) :
    let sum := fp.add (fp.mul (fp.round a) (fp.round a)) (fp.mul (fp.round b) (fp.round b))
    (1 - 1 / 2 ^ precision) ^ 4 * (a ^ 2 + b ^ 2) ≤ sum ∧
      sum ≤ (1 + 1 / 2 ^ precision) ^ 4 * (a ^ 2 + b ^ 2) := by
  have hunit := unit_lt_one hprecision
  have hunit' : (0 : ℚ) < 1 / 2 ^ precision := by positivity
  rcases fp.mul_self_round_bounds hprecision a with ⟨hlow, hhigh⟩
  rcases fp.mul_self_round_bounds hprecision b with ⟨hlow', hhigh'⟩
  have hnonneg : ∀ c, 0 ≤ fp.mul (fp.round c) (fp.round c) := fun c =>
    fp.round_nonneg (mul_self_nonneg _)
  rcases fp.round_bounds (add_nonneg (hnonneg a) (hnonneg b)) with ⟨hsum, hsum'⟩
  constructor
  · refine le_trans ?_ hsum
    rw [pow_succ', mul_assoc]
    refine mul_le_mul_of_nonneg_left ?_ (by linarith)
    rw [mul_add]
    exact add_le_add hlow hlow'
  · refine hsum'.trans ?_
    rw [pow_succ', mul_assoc]
    refine mul_le_mul_of_nonneg_left ?_ (by linarith)
    rw [mul_add]
    exact add_le_add hhigh hhigh'

/-- On integers of few digits there is no error. -/
theorem sumSq_intCast {m n : ℤ} (h : m ^ 2 + n ^ 2 ≤ 2 ^ precision) :
    fp.add (fp.mul (fp.round m) (fp.round m)) (fp.mul (fp.round n) (fp.round n)) =
      ((m ^ 2 + n ^ 2 : ℤ) : ℚ) := by
  have hexact : ∀ k : ℤ, |k| ≤ 2 ^ precision → fp.round k = k := fun k hk =>
    fp.round_of_isFloat (isFloat_intCast hk)
  have hsquare : ∀ k : ℤ, k ^ 2 ≤ 2 ^ precision → fp.mul (fp.round k) (fp.round k) =
      ((k ^ 2 : ℤ) : ℚ) := by
    intro k hk
    have habs : |k| ≤ k ^ 2 := by
      rw [← sq_abs]
      exact Int.le_self_sq _
    have hproduct : (k : ℚ) * k = ((k ^ 2 : ℤ) : ℚ) := by
      push_cast
      ring
    rw [mul, hexact k (habs.trans hk), hproduct, hexact]
    rwa [abs_of_nonneg (sq_nonneg k)]
  rw [hsquare m ((le_add_of_nonneg_right (sq_nonneg n)).trans h),
    hsquare n ((le_add_of_nonneg_left (sq_nonneg m)).trans h), add, ← Int.cast_add, hexact]
  rwa [abs_of_nonneg (add_nonneg (sq_nonneg m) (sq_nonneg n))]

end FloatArith

end Foundations
