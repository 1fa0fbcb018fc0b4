import LCOMaze.Controllers.Devices

/-!
# Reading a clock that runs

The registers of the real-time clock change together once a second, while
{lit}`get_time_direct` selects and reads them one after the other.

Main results:

- Theorem {lit}`exists_instant_iff`: when an instant shows the hours of one time, the minutes of
  a later and the seconds of a still later one.
- Theorem {lit}`clock_reads_consistent_iff`: when the three values read are a time that the clock
  showed meanwhile.
- Theorem {lit}`clock_reads_torn`: a tick behind the hours gives a time an hour too early.
-/

namespace LCOMaze

/-! ## The chip -/

/-- {lit}`RTC_REG_SECONDS`. -/
def rtcRegSeconds : Nat := 0

/-- {lit}`RTC_REG_MINUTES`. -/
def rtcRegMinutes : Nat := 2

/-- {lit}`RTC_REG_HOURS`. -/
def rtcRegHours : Nat := 4

/-- Two decimal digits, four bits for each. -/
def bcd (n : Nat) : UInt32 := UInt32.ofNat (16 * (n / 10) + n % 10)

/-- What the registers show so many seconds after a midnight. -/
def timeOfDay (now : Nat) : TimeEl where
  seconds := bcd (now % 60)
  minutes := bcd (now / 60 % 60)
  hours := bcd (now / 3600 % 24)

/-- The chip: the seconds since a midnight and the register that is selected. -/
structure Rtc where
  now : Nat
  address : Nat

/-- Some seconds pass. -/
def Rtc.tick (rtc : Rtc) (seconds : Nat) : Rtc := { rtc with now := rtc.now + seconds }

/-- {lit}`sys_outb(RTC_ADDR_REG, register)`. -/
def Rtc.select (rtc : Rtc) (register : Nat) : Rtc := { rtc with address := register }

/-- {lit}`sys_inb(RTC_DATA_REG, &value)`, as far as the registers of the time are concerned. -/
def Rtc.data (rtc : Rtc) : PortAccess where
  ok := true
  value :=
    if rtc.address = rtcRegSeconds then (timeOfDay rtc.now).seconds
    else if rtc.address = rtcRegMinutes then (timeOfDay rtc.now).minutes
    else if rtc.address = rtcRegHours then (timeOfDay rtc.now).hours
    else 0

/-! ## A call while the clock runs -/

/-- Select and read a register, with some ticks before either access. -/
def readRegister (before between register : Nat) (rtc : Rtc) : Rtc × PortAccess :=
  let rtc := ((rtc.tick before).select register).tick between
  (rtc, rtc.data)

/-- What a call reads, and the instants of its three reads. -/
structure TimedRead where
  read : ClockRead
  first : Nat
  second : Nat
  third : Nat

/-- The port accesses of {lit}`get_time_direct`, with some ticks before each of them. -/
def timedRead (ticks : Fin 6 → Nat) (rtc : Rtc) : TimedRead :=
  let (rtc, hours) := readRegister (ticks 0) (ticks 1) rtcRegHours rtc
  let first := rtc.now
  let (rtc, minutes) := readRegister (ticks 2) (ticks 3) rtcRegMinutes rtc
  let second := rtc.now
  let (rtc, seconds) := readRegister (ticks 4) (ticks 5) rtcRegSeconds rtc
  ⟨⟨hours, minutes, seconds⟩, first, second, rtc.now⟩

/-- The values read are a time that the clock showed between the first and the last read. -/
def ShownMeanwhile (r : TimedRead) (old : TimeEl) : Prop :=
  ∃ instant, r.first ≤ instant ∧ instant ≤ r.third ∧ getTimeDirect r.read old = timeOfDay instant

/-- The minute of the second read and the second of the third one, in the hour of the first. -/
def composed (first second third : Nat) : Nat :=
  3600 * (first / 3600) + 60 * (second / 60 % 60) + third % 60

/-- At the second read the minutes are ahead of those at the first read; or they are the same
and the seconds at the third read are not behind those at the first; or the third read comes a
day after the time composed of them. -/
def ReadsInOrder (first second third : Nat) : Prop :=
  first / 60 % 60 < second / 60 % 60 ∨
    (first / 60 % 60 = second / 60 % 60 ∧ first % 60 ≤ third % 60) ∨
    composed first second third + 86400 ≤ third

/-- Each register is read at its own instant. -/
theorem getTimeDirect_timedRead (ticks : Fin 6 → Nat) (rtc : Rtc) (old : TimeEl) :
    let r := timedRead ticks rtc
    getTimeDirect r.read old =
      ⟨(timeOfDay r.third).seconds, (timeOfDay r.second).minutes, (timeOfDay r.first).hours⟩ :=
  rfl

/-- The reads happen one after the other. -/
theorem timedRead_ordered (ticks : Fin 6 → Nat) (rtc : Rtc) :
    (timedRead ticks rtc).first ≤ (timedRead ticks rtc).second ∧
      (timedRead ticks rtc).second ≤ (timedRead ticks rtc).third := by
  constructor <;> exact (Nat.le_add_right _ _).trans (Nat.le_add_right _ _)

/-! ## Times of day -/

/-- Numbers of two digits have different encodings. -/
theorem bcd_inj {m n : Nat} (hm : m < 100) (hn : n < 100) : bcd m = bcd n ↔ m = n := by
  constructor
  · intro h
    have hval := congrArg UInt32.toNat h
    simp only [bcd, UInt32.toNat_ofNat'] at hval
    omega
  · rintro rfl
    rfl

/-- The registers show these hours, minutes and seconds exactly at these instants. -/
theorem timeOfDay_eq_iff (seconds minutes hours instant : Nat) :
    (⟨(timeOfDay seconds).seconds, (timeOfDay minutes).minutes, (timeOfDay hours).hours⟩ : TimeEl) =
        timeOfDay instant ↔
      seconds % 60 = instant % 60 ∧ minutes / 60 % 60 = instant / 60 % 60 ∧
        hours / 3600 % 24 = instant / 3600 % 24 := by
  simp only [timeOfDay, TimeEl.mk.injEq]
  rw [bcd_inj (by omega) (by omega), bcd_inj (by omega) (by omega),
    bcd_inj (by omega) (by omega)]

section

variable {first second third : Nat}

/-- The composed time shows what was read, on every day. -/
theorem composed_shows (first second third days : Nat) :
    let instant := composed first second third + 86400 * days
    third % 60 = instant % 60 ∧ second / 60 % 60 = instant / 60 % 60 ∧
      first / 3600 % 24 = instant / 3600 % 24 := by
  unfold composed
  refine ⟨?_, ?_, ?_⟩ <;> omega

/-- The composed time is not later than the third read. -/
theorem composed_le (hfirst : first ≤ second) (hsecond : second ≤ third) :
    composed first second third ≤ third := by
  unfold composed
  omega

/-- It is not earlier than the first read if minutes and seconds did not go back. -/
theorem le_composed_iff :
    first ≤ composed first second third ↔
      first / 60 % 60 < second / 60 % 60 ∨
        (first / 60 % 60 = second / 60 % 60 ∧ first % 60 ≤ third % 60) := by
  unfold composed
  omega

/-- An instant that shows what was read is the composed time, up to days. -/
theorem mod_day_of_shows {instant : Nat} (hseconds : third % 60 = instant % 60)
    (hminutes : second / 60 % 60 = instant / 60 % 60)
    (hhours : first / 3600 % 24 = instant / 3600 % 24) :
    instant % 86400 = composed first second third % 86400 := by
  unfold composed
  omega

/-- Some instant from the first to the third read shows what was read exactly if the reads are
in order. -/
theorem exists_instant_iff (hfirst : first ≤ second) (hsecond : second ≤ third) :
    (∃ instant, first ≤ instant ∧ instant ≤ third ∧ third % 60 = instant % 60 ∧
      second / 60 % 60 = instant / 60 % 60 ∧ first / 3600 % 24 = instant / 3600 % 24) ↔
      ReadsInOrder first second third := by
  have hle := composed_le hfirst hsecond
  constructor
  · rintro ⟨instant, hafter, hbefore, hseconds, hminutes, hhours⟩
    have hmod := mod_day_of_shows hseconds hminutes hhours
    by_cases hshown : first ≤ composed first second third
    · rcases le_composed_iff.mp hshown with hminute | hsecond
      · exact Or.inl hminute
      · exact Or.inr (Or.inl hsecond)
    · -- the instant lies behind the composed time, so by at least a day
      right
      right
      omega
  · intro hordered
    have hcases : first ≤ composed first second third ∨
        composed first second third + 86400 ≤ third := by
      rcases hordered with hminute | hsecond | hday
      · exact Or.inl (le_composed_iff.mpr (Or.inl hminute))
      · exact Or.inl (le_composed_iff.mpr (Or.inr hsecond))
      · exact Or.inr hday
    rcases hcases with hshown | hday
    · exact ⟨_, hshown, hle, composed_shows first second third 0⟩
    · refine ⟨_, ?_, hday, composed_shows first second third 1⟩
      unfold composed
      omega

end

/-- For every placement of ticks, the time read was shown meanwhile if and only if the reads
are in order. -/
theorem clock_reads_consistent_iff (ticks : Fin 6 → Nat) (rtc : Rtc) (old : TimeEl) :
    let r := timedRead ticks rtc
    ShownMeanwhile r old ↔ ReadsInOrder r.first r.second r.third := by
  intro r
  rcases timedRead_ordered ticks rtc with ⟨hfirst, hsecond⟩
  rw [← exists_instant_iff hfirst hsecond]
  refine exists_congr fun instant => and_congr_right fun _ => and_congr_right fun _ => ?_
  rw [getTimeDirect_timedRead, timeOfDay_eq_iff]

/-- One tick between the reads of hours and minutes, at a second before noon, gives an hour too
little. -/
theorem clock_reads_torn :
    ¬∀ (ticks : Fin 6 → Nat) (rtc : Rtc) (old : TimeEl),
      ShownMeanwhile (timedRead ticks rtc) old := by
  intro hall
  rcases hall (fun i => if i = 2 then 1 else 0) ⟨43199, 0⟩ ⟨0, 0, 0⟩ with
    ⟨instant, hafter, hbefore, hread⟩
  have hlower : 43199 ≤ instant := hafter
  have hupper : instant ≤ 43200 := hbefore
  have hinstant : instant = 43199 ∨ instant = 43200 := by omega
  rcases hinstant with rfl | rfl
  · exact absurd hread (by decide)
  · exact absurd hread (by decide)

end LCOMaze
