import LCOMaze.Controllers.SystemCalls
import Mathlib.Algebra.Order.Field.Basic
import Mathlib.Algebra.Order.Field.Rat
import Mathlib.Data.Fintype.Basic
import Mathlib.Tactic.FinCases

/-!
# The timer

{lit}`timer_set_frequency` reads the configuration of a counter of the i8254 and programs it anew,
one byte after the other.  The chip is not part of the program: it is a parameter with the laws that
the program relies on.

Main results:

- Theorem {lit}`timerSetFrequency_exact`: what the call makes of every state of every such chip.
- Theorem {lit}`initialValue_bounds`: the check of the frequency keeps the initial value within
  16 bits.
- Theorem {lit}`timerSetFrequency_slowest`: of a counter that is shown to count in binary and to
  start again by itself, the rate becomes the next one above the frequency.
-/

namespace LCOMaze

open Foundations

/-! ## The translated functions -/

/-- {lit}`util_get_LSB`. -/
def utilGetLSB (val : UInt16) : UInt8 := (val &&& 0xFF).toUInt8

/-- {lit}`util_get_MSB`. -/
def utilGetMSB (val : UInt16) : UInt8 := ((val >>> 8) &&& 0xFF).toUInt8

/-- {lit}`BIT(n)` in a byte. -/
def bit8 (n : UInt8) : UInt8 := 1 <<< n

/-- {lit}`timer_get_conf`, with the configuration on success. -/
def timerGetConf (timer : UInt8) : Driver (Option UInt8) := do
  if timer > 2 then
    return none
  let controlWord := bit8 7 ||| bit8 6 ||| bit8 5 ||| bit8 (timer + 1)
  if !(← sysOutb 0x43 controlWord.toUInt32) then
    return none
  let st ← sysInb (0x40 + timer.toNat)
  return if st.ok then some st.lsb else none

/-- The control word: the counter, both bytes of a count, and the lower half of the
configuration. -/
def timerControlWord (timer currentConfig : UInt8) : UInt8 :=
  (if timer = 1 then 0x40 else if timer = 2 then 0x80 else 0) ||| 0x30 ||| (currentConfig &&& 0x0F)

/-- {lit}`timer_set_frequency`. -/
def timerSetFrequency (timer : UInt8) (freq : UInt32) : Driver Int := do
  if timer > 2 then
    return 1
  if freq < 19 || freq > 1193181 then
    return 1
  let some currentConfig ← timerGetConf timer | return 1
  let initialValue : UInt16 := (1193181 / freq).toUInt16
  if !(← sysOutb 0x43 (timerControlWord timer currentConfig).toUInt32) then
    return 1
  if !(← sysOutb (0x40 + timer.toNat) (utilGetLSB initialValue).toUInt32) then
    return 1
  if !(← sysOutb (0x40 + timer.toNat) (utilGetMSB initialValue).toUInt32) then
    return 1
  return 0

/-! ## The chip -/

/-- A counter of the i8254: the lower six bits of its last control word, its initial count, the
first byte of a count that is not complete, and a status that waits to be read. -/
structure Counter where
  control : UInt8
  initial : UInt16
  lowByte : Option UInt8
  latched : Option UInt8
deriving DecidableEq, Repr

namespace Counter

/-- A status is latched, unless one waits. -/
def latch (counter : Counter) (status : UInt8) : Counter :=
  { counter with latched := some (counter.latched.getD status) }

/-- A control word clears the count. -/
def program (counter : Counter) (word : UInt8) : Counter :=
  { counter with control := word &&& 0x3F, initial := 0, lowByte := none }

/-- The bytes of the count that can be accessed: 3 for both. -/
def access (counter : Counter) : UInt8 := (counter.control >>> 4) &&& 3

/-- A byte of the count is written: the low one first, then the high one. -/
def writeByte (counter : Counter) (byte : UInt8) : Counter :=
  match counter.lowByte with
  | none => { counter with lowByte := some byte }
  | some low => { counter with initial := low.toUInt16 ||| byte.toUInt16 <<< 8, lowByte := none }

/-- Mode and base as the next status read from the counter shows them: those of a status that waits,
or else those of the counter itself. -/
def shown (counter : Counter) : UInt8 := counter.latched.getD counter.control &&& 0x0F

end Counter

/-- A call is answered so, and of the counters this one alone is changed, to this. -/
def ChangesCounter {σ : Type} (env : (call : SystemCall) → σ → σ × call.Answer)
    (counters : σ → Fin 3 → Counter) (s : σ) (call : SystemCall) (answer : call.Answer)
    (i : Fin 3) (counter : Counter) : Prop :=
  ∃ s', env call s = (s', answer) ∧ counters s' = Function.update (counters s) i counter

/-- The read-back command for the status of a counter. -/
def readBackStatus (i : Fin 3) : UInt8 := bit8 7 ||| bit8 6 ||| bit8 5 ||| bit8 (i.val.toUInt8 + 1)

/-- The i8254 behind its ports, with what it is documented to do when a status is asked for, when a
counter is programmed for both bytes of its count, when these are written and when the status is
read.  What else it does, the counting above all, is left open. -/
structure TimerChip (σ : Type) where
  env : (call : SystemCall) → σ → σ × call.Answer
  counters : σ → Fin 3 → Counter
  readBack : ∀ s i, ∃ status, status &&& 0x3F = (counters s i).control &&& 0x3F ∧
    ChangesCounter env counters s (.sysOutb 0x43 (readBackStatus i).toUInt32) true i
      ((counters s i).latch status)
  control : ∀ s i (word : UInt8), (word >>> 6).toNat = i.val → (word >>> 4) &&& 3 = 3 →
    (counters s i).latched = none →
      ChangesCounter env counters s (.sysOutb 0x43 word.toUInt32) true i
        ((counters s i).program word)
  write : ∀ s i (byte : UInt8), (counters s i).access = 3 →
    ChangesCounter env counters s (.sysOutb (0x40 + i.val) byte.toUInt32) true i
      ((counters s i).writeByte byte)
  read : ∀ s i status, (counters s i).latched = some status →
    ChangesCounter env counters s (.sysInb (0x40 + i.val)) ⟨true, status.toUInt32⟩ i
      { counters s i with latched := none }

variable {timer : UInt8} {i : Fin 3}

/-! ## Bytes and fields -/

theorem toNat_utilGetLSB (val : UInt16) : (utilGetLSB val).toNat = val.toNat % 256 := by
  have hmask := Nat.and_two_pow_sub_one_eq_mod val.toNat 8
  simp only [utilGetLSB, UInt16.toNat_toUInt8, UInt16.toNat_and]
  change (val.toNat &&& 255) % 256 = val.toNat % 256
  rw [hmask]
  omega

theorem toNat_utilGetMSB (val : UInt16) : (utilGetMSB val).toNat = val.toNat / 256 := by
  have hmask := Nat.and_two_pow_sub_one_eq_mod (val.toNat >>> 8) 8
  have hlt := val.toNat_lt
  simp only [utilGetMSB, UInt16.toNat_toUInt8, UInt16.toNat_and, UInt16.toNat_shiftRight]
  change ((val.toNat >>> 8) &&& 255) % 256 = val.toNat / 256
  rw [hmask, Nat.shiftRight_eq_div_pow]
  omega

/-- The two bytes make the value again. -/
theorem utilGetLSB_or_utilGetMSB (val : UInt16) :
    (utilGetLSB val).toUInt16 ||| (utilGetMSB val).toUInt16 <<< 8 = val := by
  apply UInt16.toNat_inj.mp
  have hlt := val.toNat_lt
  simp only [UInt16.toNat_or, UInt8.toNat_toUInt16, UInt16.toNat_shiftLeft, toNat_utilGetLSB,
    toNat_utilGetMSB]
  change val.toNat % 256 ||| (val.toNat / 256) <<< 8 % 65536 = val.toNat
  have hhigh : (val.toNat / 256) <<< 8 % 65536 = 2 ^ 8 * (val.toNat / 256) := by
    rw [Nat.shiftLeft_eq]
    omega
  rw [hhigh, Nat.or_comm, ← Nat.two_pow_add_eq_or_of_lt (by omega)]
  omega

/-- The fields of the control word: the counter, both bytes, and mode and base as they were. -/
theorem timerControlWord_fields (i : Fin 3) (currentConfig : UInt8) :
    let word := timerControlWord i.val.toUInt8 currentConfig
    (word >>> 6).toNat = i ∧ (word >>> 4) &&& 3 = 3 ∧
      word &&& 0x3F = 0x30 ||| (currentConfig &&& 0x0F) ∧
      ((0x30 ||| (currentConfig &&& 0x0F)) >>> 4) &&& 3 = (3 : UInt8) := by
  have hall : ∀ (i : Fin 3) (config : BitVec 8),
      let word := timerControlWord i.val.toUInt8 (UInt8.ofBitVec config)
      (word >>> 6).toNat = i ∧ (word >>> 4) &&& 3 = 3 ∧
        word &&& 0x3F = 0x30 ||| (UInt8.ofBitVec config &&& 0x0F) ∧
        ((0x30 ||| (UInt8.ofBitVec config &&& 0x0F)) >>> 4) &&& 3 = (3 : UInt8) := by
    decide +kernel
  exact hall i currentConfig.toBitVec

/-! ## The call -/

/-- The counter at the new frequency: mode and base as they were shown, both bytes of the count
accessible, and the initial value. -/
def Counter.setFrequency (counter : Counter) (initialValue : UInt16) : Counter where
  control := 0x30 ||| counter.shown
  initial := initialValue
  lowByte := none
  latched := none

/-- Two bytes written to a counter that expects the low one make its initial count. -/
theorem writeByte_writeByte (counter : Counter) (val : UInt16) (h : counter.lowByte = none) :
    (counter.writeByte (utilGetLSB val)).writeByte (utilGetMSB val) =
      { counter with initial := val, lowByte := none } := by
  have hfirst : counter.writeByte (utilGetLSB val) =
      { counter with lowByte := some (utilGetLSB val) } := by
    rw [Counter.writeByte, h]
  rw [hfirst, Counter.writeByte]
  dsimp only
  rw [utilGetLSB_or_utilGetMSB]

/-- A timer with a counter passes the check. -/
theorem not_gt_two_iff : ¬timer > 2 ↔ timer.toNat < 3 := by
  rw [gt_iff_lt, UInt8.lt_iff_toNat_lt]
  simp only [UInt8.reduceToNat]
  omega

/-- The number of a timer is that of its counter. -/
theorem eq_toUInt8_of_toNat_eq (htimer : timer.toNat = i) : timer = i.val.toUInt8 := by
  rw [← htimer]
  simp

/-- The command of {lit}`timer_get_conf`. -/
theorem readBackStatus_eq (htimer : timer.toNat = i) :
    bit8 7 ||| bit8 6 ||| bit8 5 ||| bit8 (timer + 1) = readBackStatus i := by
  rw [eq_toUInt8_of_toNat_eq htimer]
  rfl

/-- The lower four bits are among the lower six. -/
theorem and_mode_of_and_control {a b : UInt8} (h : a &&& 0x3F = b &&& 0x3F) :
    a &&& 0x0F = b &&& 0x0F := by
  have hsplit : ∀ c : UInt8, c &&& 0x0F = (c &&& 0x3F) &&& 0x0F := fun c => by
    rw [UInt8.and_assoc]
    rfl
  rw [hsplit a, hsplit b, h]

section

variable {σ : Type} (chip : TimerChip σ) (s : σ)

/-- {lit}`timer_get_conf` reads the status that waits, or else a new one, and leaves none. -/
theorem timerGetConf_answer (htimer : timer.toNat = i) :
    ∃ s' config, (timerGetConf timer).answer chip.env s = (s', some config) ∧
      config &&& 0x0F = (chip.counters s i).shown ∧
      chip.counters s' =
        Function.update (chip.counters s) i { chip.counters s i with latched := none } := by
  rcases chip.readBack s i with ⟨status, hstatus, s₁, hsent, hlatched⟩
  have hcounter := congrFun hlatched i
  rw [Function.update_self] at hcounter
  rcases chip.read s₁ i _ (congrArg Counter.latched hcounter) with ⟨s₂, hread, hleft⟩
  refine ⟨s₂, (chip.counters s i).latched.getD status, ?_, ?_, hleft.trans ?_⟩
  · rw [timerGetConf, if_neg (not_gt_two_iff.mpr (htimer ▸ i.isLt)), readBackStatus_eq htimer,
      htimer]
    simp only [sysOutb, sysInb, Interaction.answer_bind, Interaction.answer_call, hsent,
      Bool.not_true, Bool.false_eq_true, if_false, hread, if_true, Interaction.answer_pure]
    simp [PortAccess.lsb]
  · unfold Counter.shown
    cases (chip.counters s i).latched with
    | none => exact and_mode_of_and_control hstatus
    | some waiting => rfl
  · rw [hcounter, hlatched, Function.update_idem]
    rfl

/-- The check of the frequency. -/
theorem freq_check_iff {freq : UInt32} :
    (freq < 19 || freq > 1193181) = true ↔ ¬(19 ≤ freq.toNat ∧ freq.toNat ≤ 1193181) := by
  simp [UInt32.lt_iff_toNat_lt]
  omega

/-- A counter is programmed with a control word and the two bytes of its count. -/
theorem program_answer (htimer : timer.toNat = i) (currentConfig : UInt8) (val : UInt16)
    (hread : (chip.counters s i).latched = none) :
    ∃ s₁ s₂ s₃,
      chip.env (.sysOutb 0x43 (timerControlWord timer currentConfig).toUInt32) s = (s₁, true) ∧
      chip.env (.sysOutb (0x40 + timer.toNat) (utilGetLSB val).toUInt32) s₁ = (s₂, true) ∧
      chip.env (.sysOutb (0x40 + timer.toNat) (utilGetMSB val).toUInt32) s₂ = (s₃, true) ∧
      chip.counters s₃ = Function.update (chip.counters s) i
        ⟨0x30 ||| (currentConfig &&& 0x0F), val, none, none⟩ := by
  rcases timerControlWord_fields i currentConfig with ⟨hselect, haccess, hword, hboth⟩
  rw [← eq_toUInt8_of_toNat_eq htimer] at hselect haccess hword
  rw [htimer]
  rcases chip.control s i _ hselect haccess hread with ⟨s₁, hanswer₁, hleft₁⟩
  have hcounter₁ := congrFun hleft₁ i
  rw [Function.update_self, Counter.program, hread, hword] at hcounter₁
  rcases chip.write s₁ i (utilGetLSB val) (by rw [hcounter₁]; exact hboth) with
    ⟨s₂, hanswer₂, hleft₂⟩
  have hcounter₂ := congrFun hleft₂ i
  rw [Function.update_self, hcounter₁] at hcounter₂
  rcases chip.write s₂ i (utilGetMSB val) (by rw [hcounter₂]; exact hboth) with
    ⟨s₃, hanswer₃, hleft₃⟩
  refine ⟨s₁, s₂, s₃, hanswer₁, hanswer₂, hanswer₃, ?_⟩
  rw [hleft₃, hcounter₂, hleft₂, hleft₁, Function.update_idem, Function.update_idem,
    writeByte_writeByte _ _ rfl]

/-- A call with valid arguments. -/
theorem timerSetFrequency_answer (htimer : timer.toNat = i) {freq : UInt32}
    (hfreq : 19 ≤ freq.toNat ∧ freq.toNat ≤ 1193181) :
    ∃ s', (timerSetFrequency timer freq).answer chip.env s = (s', 0) ∧
      chip.counters s' = Function.update (chip.counters s) i
        ((chip.counters s i).setFrequency (1193181 / freq).toUInt16) := by
  rcases timerGetConf_answer chip s htimer with ⟨s', config, hconfig, hshown, hleft⟩
  have hread : (chip.counters s' i).latched = none := by
    rw [hleft, Function.update_self]
  rcases program_answer chip s' htimer config (1193181 / freq).toUInt16 hread with
    ⟨s₁, s₂, s₃, hfirst, hsecond, hthird, hprogrammed⟩
  refine ⟨s₃, ?_, ?_⟩
  · rw [timerSetFrequency, if_neg (not_gt_two_iff.mpr (htimer ▸ i.isLt)),
      if_neg (fun hbad => freq_check_iff.mp hbad hfreq)]
    simp only [sysOutb, Interaction.answer_bind, Interaction.answer_call, hconfig, hfirst, hsecond,
      hthird, Bool.not_true, Bool.false_eq_true, if_false, Interaction.answer_pure]
  · rw [hprogrammed, hleft, Function.update_idem, hshown]
    rfl

end

/-- The range of the frequencies is the range of the initial values that fit in 16 bits. -/
theorem initialValue_bounds {freq : Nat} (hpos : 0 < freq) :
    (19 ≤ freq ∧ freq ≤ 1193181) ↔ 0 < 1193181 / freq ∧ 1193181 / freq < 65536 := by
  rw [Nat.div_pos_iff, Nat.div_lt_iff_lt_mul hpos]
  omega

/-! ## The rate -/

/-- The count that an initial value stands for. -/
def countOf (initial : UInt16) : Nat := if initial = 0 then 65536 else initial.toNat

/-- How often a counter starts again in a second, if it counts in binary and starts again by itself,
which it does in the modes 2 and 3 from a count of at least two. -/
def Counter.rate (counter : Counter) : Option ℚ :=
  if counter.control &&& 5 = 4 ∧ 2 ≤ countOf counter.initial then
    some (1193181 / countOf counter.initial)
  else none

theorem Counter.rate_eq_some_iff {counter : Counter} {rate : ℚ} :
    counter.rate = some rate ↔ (counter.control &&& 5 = 4 ∧ 2 ≤ countOf counter.initial) ∧
      1193181 / countOf counter.initial = rate := by
  unfold Counter.rate
  split_ifs with hperiodic
  · rw [Option.some.injEq, and_iff_right hperiodic]
  · exact iff_of_false (fun h => nomatch h) fun h => hperiodic h.1

/-- The counts with a rate that is not below a frequency. -/
theorem freq_le_rate_iff {freq count : Nat} (hfreq : 0 < freq) (hcount : 0 < count) :
    (freq : ℚ) ≤ 1193181 / count ↔ count ≤ 1193181 / freq := by
  rw [le_div_iff₀ (Nat.cast_pos.mpr hcount), Nat.le_div_iff_mul_le hfreq, Nat.mul_comm]
  exact_mod_cast Iff.rfl

/-- The initial value of a call stands for itself. -/
theorem countOf_initialValue {freq : UInt32} (h : 19 ≤ freq.toNat ∧ freq.toNat ≤ 1193181) :
    countOf (1193181 / freq).toUInt16 = 1193181 / freq.toNat := by
  have hfits := (initialValue_bounds (by omega)).mp h
  have hinitial : ((1193181 / freq).toUInt16).toNat = 1193181 / freq.toNat := by
    simp only [UInt32.toNat_toUInt16, UInt32.toNat_div, UInt32.reduceToNat]
    exact Nat.mod_eq_of_lt hfits.2
  rw [countOf, if_neg (fun hzero => ?_), hinitial]
  rw [hzero] at hinitial
  exact absurd (hinitial ▸ hfits.1) (by decide)

/-- A call with valid arguments on a counter that is shown to count in binary and to start again by
itself sets the slowest rate that is not below the frequency asked for. -/
theorem timerSetFrequency_slowest {σ : Type} (chip : TimerChip σ) {s : σ} {timer : UInt8}
    {freq : UInt32} {i : Fin 3} (htimer : timer.toNat = i) (hlow : 19 ≤ freq.toNat)
    (hhigh : 2 * freq.toNat ≤ 1193181) (hshown : (chip.counters s i).shown &&& 5 = 4) :
    ∃ rate, (chip.counters ((timerSetFrequency timer freq).answer chip.env s).1 i).rate =
        some rate ∧ (freq.toNat : ℚ) ≤ rate ∧
      ∀ (other : Counter) (rate' : ℚ), other.rate = some rate' → (freq.toNat : ℚ) ≤ rate' →
        rate ≤ rate' := by
  have hvalid : 19 ≤ freq.toNat ∧ freq.toNat ≤ 1193181 := ⟨hlow, by omega⟩
  have hpos : 0 < freq.toNat := by omega
  have hcount := countOf_initialValue hvalid
  have htwo : 2 ≤ 1193181 / freq.toNat := (Nat.le_div_iff_mul_le hpos).mpr hhigh
  have hmode : (0x30 ||| (chip.counters s i).shown) &&& 5 = 4 := by
    rw [← hshown]
    exact UInt8.toBitVec_inj.mp (by simp [BitVec.and_or_distrib_right])
  rcases timerSetFrequency_answer chip s htimer hvalid with ⟨s', hanswer, hleft⟩
  refine ⟨1193181 / (1193181 / freq.toNat : Nat), ?_, ?_, fun other rate' hother hle => ?_⟩
  · rw [hanswer, hleft, Function.update_self, Counter.rate_eq_some_iff]
    dsimp only [Counter.setFrequency]
    rw [hcount]
    exact ⟨⟨hmode, htwo⟩, rfl⟩
  · exact (freq_le_rate_iff hpos (by omega)).mpr le_rfl
  · rcases Counter.rate_eq_some_iff.mp hother with ⟨⟨-, hother'⟩, rfl⟩
    have hpos' : 0 < countOf other.initial := by omega
    rw [freq_le_rate_iff hpos hpos'] at hle
    exact div_le_div_of_nonneg_left (by norm_num) (Nat.cast_pos.mpr hpos')
      (Nat.cast_le.mpr hle)

/-! ## A chip -/

/-- The counter at a port. -/
def counterAt (port : Nat) : Option (Fin 3) :=
  if h : 0x40 ≤ port ∧ port < 0x43 then some ⟨port - 0x40, by omega⟩ else none

/-- A word is written to the control register: a read-back command for the status of the counters
selected in its bits 1 to 3, or a control word for the counter in its upper two bits. -/
def controlCounter (word : UInt8) (i : Fin 3) (counter : Counter) : Counter :=
  if word >>> 6 = 3 then
    if (word >>> 4) &&& 1 = 0 ∧ (word >>> (i.val.toUInt8 + 1)) &&& 1 = 1 then
      counter.latch counter.control
    else counter
  else if (word >>> 6).toNat = i.val then counter.program word
  else counter

/-- A timer alone, all of whose counters stand still and take both bytes of a count. -/
def stillTimer (call : SystemCall) (counters : Fin 3 → Counter) :
    (Fin 3 → Counter) × call.Answer :=
  match call with
  | .sysOutb port value =>
      if port = 0x43 then (fun i => controlCounter value.toUInt8 i (counters i), true)
      else
        match counterAt port with
        | some i => (Function.update counters i ((counters i).writeByte value.toUInt8), true)
        | none => (counters, false)
  | .sysInb port =>
      match counterAt port with
      | some i =>
          (Function.update counters i { counters i with latched := none },
            ⟨true, ((counters i).latched.getD 0).toUInt32⟩)
      | none => (counters, ⟨false, 0⟩)
  | call => (counters, call.failure)

theorem counterAt_port (i : Fin 3) : counterAt (0x40 + i.val) = some i := by
  have hlt := i.isLt
  rw [counterAt, dif_pos (by omega)]
  simp

theorem controlCounter_readBack (counters : Fin 3 → Counter) (i : Fin 3) :
    (fun j => controlCounter (readBackStatus i) j (counters j)) =
      Function.update counters i ((counters i).latch (counters i).control) := by
  funext j
  fin_cases i <;> fin_cases j <;> rfl

theorem controlCounter_program (counters : Fin 3 → Counter) {i : Fin 3} {word : UInt8}
    (hselect : (word >>> 6).toNat = i.val) :
    (fun j => controlCounter word j (counters j)) =
      Function.update counters i ((counters i).program word) := by
  have hcommand : word >>> 6 ≠ 3 := by
    intro hthree
    have hlt := i.isLt
    rw [← hselect, hthree] at hlt
    exact absurd hlt (by decide)
  funext j
  rw [controlCounter, if_neg hcommand, hselect]
  by_cases hj : j = i
  · subst hj
    rw [if_pos rfl, Function.update_self]
  · rw [if_neg (fun h => hj (Fin.ext h.symm)), Function.update_of_ne hj]

theorem stillTimer_control (counters : Fin 3 → Counter) (word : UInt8) :
    stillTimer (.sysOutb 0x43 word.toUInt32) counters =
      (fun i => controlCounter word i (counters i), true) := by
  simp [stillTimer]

/-- It keeps to the laws. -/
def i8254 : TimerChip (Fin 3 → Counter) where
  env := stillTimer
  counters := id
  readBack := fun counters i => ⟨(counters i).control, rfl, _, stillTimer_control counters _,
    controlCounter_readBack counters i⟩
  control := fun counters _ word hselect _ _ => ⟨_, stillTimer_control counters word,
    controlCounter_program counters hselect⟩
  write := by
    intro counters i byte _
    have hport : 0x40 + i.val ≠ 0x43 := by omega
    have hcall : stillTimer (.sysOutb (0x40 + i.val) byte.toUInt32) counters =
        (Function.update counters i ((counters i).writeByte byte), true) := by
      simp [stillTimer, hport, counterAt_port]
    exact ⟨_, hcall, rfl⟩
  read := by
    intro counters i status hlatched
    have hstatus : (counters i).latched = some status := hlatched
    have hcall : stillTimer (.sysInb (0x40 + i.val)) counters =
        (Function.update counters i { counters i with latched := none },
          ⟨true, status.toUInt32⟩) := by
      simp [stillTimer, counterAt_port, hstatus]
    exact ⟨_, hcall, rfl⟩

/-- The 45 frames a second of {lit}`proj_main_loop`, from a square wave. -/
theorem timerSetFrequency_slowest_frames :
    let counters : Fin 3 → Counter := fun _ => ⟨0x36, 0, none, none⟩
    ∃ rate, (((timerSetFrequency 0 45).answer stillTimer counters).1 0).rate = some rate ∧
      ((45 : UInt32).toNat : ℚ) ≤ rate ∧
      ∀ (other : Counter) (rate' : ℚ), other.rate = some rate' →
        ((45 : UInt32).toNat : ℚ) ≤ rate' → rate ≤ rate' :=
  @timerSetFrequency_slowest _ i8254 (fun _ => ⟨0x36, 0, none, none⟩) 0 45 0 rfl (by decide)
    (by decide) (by decide)

end LCOMaze
