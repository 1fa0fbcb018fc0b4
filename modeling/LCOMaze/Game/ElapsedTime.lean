import LCOMaze.Controllers.RtcReads
import Mathlib.Data.List.TakeWhile

/-!
# The time that a game took

{lit}`calculate_time` reads the packed digits of both times by printing them in hexadecimal and
parsing the text as a decimal number.

Main results:

- Theorem {lit}`atoi_snprintfHex_bcd`: this gives back the number that is encoded.
- Theorem {lit}`calculateTime_timeOfDay`: the difference of two times of the same day.
- Theorem {lit}`elapsed_time_iff`: the duration comes out right unless midnight lies in it.
- Theorem {lit}`elapsed_time_midnight`: one second over midnight.
-/

namespace LCOMaze

/-! ## Texts -/

/-- What {lit}`snprintf` writes for {lit}`"%x"`. -/
def snprintfHex (n : UInt32) : List Char := Nat.toDigits 16 n.toNat

/-- {lit}`isspace`. -/
def isSpace (c : Char) : Bool := c.toNat = 32 || (9 ≤ c.toNat && c.toNat ≤ 13)

/-- {lit}`atoi`: spaces and a sign are allowed before the digits, and anything behind them. -/
def atoi (str : List Char) : Int :=
  let number (digits : List Char) : Int := Nat.ofDigitChars 10 (digits.takeWhile Char.isDigit) 0
  match str.dropWhile isSpace with
  | '-' :: digits => -number digits
  | '+' :: digits => number digits
  | digits => number digits

/-- {lit}`calculate_time`. -/
def calculateTime (timeFinal timeInitial : TimeEl) : Int :=
  let hoursFinal := atoi (snprintfHex timeFinal.hours)
  let minutesFinal := atoi (snprintfHex timeFinal.minutes)
  let secondsFinal := atoi (snprintfHex timeFinal.seconds)
  let hoursInitial := atoi (snprintfHex timeInitial.hours)
  let minutesInitial := atoi (snprintfHex timeInitial.minutes)
  let secondsInitial := atoi (snprintfHex timeInitial.seconds)
  (hoursFinal - hoursInitial) * 3600 + (minutesFinal - minutesInitial) * 60 +
    (secondsFinal - secondsInitial)

/-- The hexadecimal text of packed digits is the decimal text of the number. -/
theorem snprintfHex_bcd {n : Nat} (hn : n < 100) : snprintfHex (bcd n) = Nat.toDigits 10 n := by
  have hval : (bcd n).toNat = 16 * (n / 10) + n % 10 := by
    rw [bcd, UInt32.toNat_ofNat']
    omega
  rw [snprintfHex, hval]
  by_cases hsmall : n < 10
  · rw [Nat.div_eq_of_lt hsmall, Nat.mod_eq_of_lt hsmall, Nat.mul_zero, Nat.zero_add,
      Nat.toDigits_of_lt_base (by omega), Nat.toDigits_of_lt_base hsmall]
  · have htens : 0 < n / 10 := by omega
    have hdecimal := Nat.toDigits_append_toDigits (b := 10) (by decide) htens
      (Nat.mod_lt n (by decide))
    rw [Nat.div_add_mod] at hdecimal
    rw [← Nat.toDigits_append_toDigits (by decide) htens (by omega), ← hdecimal,
      Nat.toDigits_of_lt_base (by omega), Nat.toDigits_of_lt_base (by omega),
      Nat.toDigits_of_lt_base (by omega), Nat.toDigits_of_lt_base (by omega)]

/-- {lit}`atoi` reads a text of digits as the number that they write. -/
theorem atoi_toDigits (n : Nat) : atoi (Nat.toDigits 10 n) = n := by
  have hdigits : ∀ c ∈ Nat.toDigits 10 n, c.isDigit = true := fun c hc =>
    Nat.isDigit_of_mem_toDigits (by decide) (by decide) hc
  have hnumber := Nat.ofDigitChars_ten_toDigits (n := n)
  cases htext : Nat.toDigits 10 n with
  | nil => exact absurd htext Nat.toDigits_ne_nil
  | cons first rest =>
      rw [htext] at hdigits hnumber
      have hfirst := hdigits first List.mem_cons_self
      have hspace : isSpace first = false := by
        have hrange : 48 ≤ first.toNat := by
          rw [Char.isDigit, Bool.and_eq_true, decide_eq_true_eq] at hfirst
          exact UInt32.le_iff_toNat_le.mp hfirst.1
        simp only [isSpace, Bool.or_eq_false_iff, Bool.and_eq_false_iff, decide_eq_false_iff_not]
        omega
      have hminus : first ≠ '-' := by
        rintro rfl
        cases hfirst
      have hplus : first ≠ '+' := by
        rintro rfl
        cases hfirst
      rw [atoi, List.dropWhile_cons_of_neg (by simp [hspace])]
      simp only
      split
      · rename_i heq
        exact absurd (List.cons.inj heq).1 hminus
      · rename_i heq
        exact absurd (List.cons.inj heq).1 hplus
      · rw [List.takeWhile_eq_self_iff.mpr hdigits, hnumber]

/-- Printing and parsing gives back the number that is encoded. -/
theorem atoi_snprintfHex_bcd {n : Nat} (hn : n < 100) : atoi (snprintfHex (bcd n)) = n := by
  rw [snprintfHex_bcd hn, atoi_toDigits]

/-! ## Durations -/

/-- Between two times of one day, the difference in seconds comes out. -/
theorem calculateTime_timeOfDay {final initial : Nat} (hfinal : final < 86400)
    (hinitial : initial < 86400) :
    calculateTime (timeOfDay final) (timeOfDay initial) = (final : Int) - initial := by
  simp only [calculateTime, timeOfDay]
  rw [atoi_snprintfHex_bcd (by omega), atoi_snprintfHex_bcd (by omega),
    atoi_snprintfHex_bcd (by omega), atoi_snprintfHex_bcd (by omega),
    atoi_snprintfHex_bcd (by omega), atoi_snprintfHex_bcd (by omega)]
  omega

/-- For every start and every duration of less than a day, the duration is calculated exactly if
the game ends on the day on which it started. -/
theorem elapsed_time_iff (start duration : Nat) (hstart : start < 86400)
    (hduration : duration < 86400) :
    calculateTime (timeOfDay ((start + duration) % 86400)) (timeOfDay start) = duration ↔
      start + duration < 86400 := by
  rw [calculateTime_timeOfDay (Nat.mod_lt _ (by decide)) hstart]
  omega

/-- A game that starts one second before midnight and takes one second. -/
theorem elapsed_time_midnight :
    ¬∀ start duration : Nat, start < 86400 → duration < 86400 →
      calculateTime (timeOfDay ((start + duration) % 86400)) (timeOfDay start) = duration := by
  intro hall
  have h := hall 86399 1 (by decide) (by decide)
  exact absurd h (by decide +kernel)

/-- The condition at this start. -/
theorem elapsed_time_iff_midnight :
    calculateTime (timeOfDay ((86399 + 1) % 86400)) (timeOfDay 86399) = (1 : Nat) ↔
      86399 + 1 < 86400 :=
  elapsed_time_iff 86399 1 (by decide) (by decide)

end LCOMaze
