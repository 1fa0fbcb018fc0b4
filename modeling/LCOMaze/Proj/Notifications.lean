import LCOMaze.Proj.Lifecycle
import LCOMaze.Proj.MainLoop
import Mathlib.Data.Nat.Bitwise

/-!
# Which handler an interrupt reaches

A notification reports the raised interrupts in one word, each by the bit that its subscriber
chose.  {lit}`proj_main_loop` tests the word against the bits that the subscriptions returned.  The
word comes from the system: it is a parameter of which its bits are known.

Main results:

- Theorem {lit}`reportsInterrupts_interruptWord`: there is such a word.
- Theorem {lit}`records_projMainLoop`: the policies that are installed when the loop is entered and
  the bits that it tests.
- Theorem {lit}`interrupts_reach_handlers`: the branches taken are those of the devices whose lines
  were raised.
-/

namespace LCOMaze

open Foundations

/-! ## The tests of the loop -/

/-- What the branches of one iteration read from their devices. -/
structure Accesses where
  kbd : PortAccess × PortAccess
  mouse : PortAccess × PortAccess
  timer : Option Button × ClockRead × ClockRead
  rtc : PortAccess × ClockRead
  serial : PortScript

/-- The branches that {lit}`proj_main_loop` takes for {lit}`msg.m_notify.interrupts`.  The serial
branch is not taken either once {lit}`c` is zero, which {lit}`serialInterrupt` tests. -/
def IrqSets.notification (irqSets : IrqSets) (interrupts : UInt64) (accesses : Accesses) :
    Notification where
  kbd := if interrupts &&& irqSets.kbd.toUInt64 ≠ 0 then some accesses.kbd else none
  mouse := if interrupts &&& irqSets.mouse.toUInt64 ≠ 0 then some accesses.mouse else none
  timer := if interrupts &&& irqSets.timer.toUInt64 ≠ 0 then some accesses.timer else none
  rtc := if interrupts &&& irqSets.rtc.toUInt64 ≠ 0 then some accesses.rtc else none
  serial := if interrupts &&& irqSets.serie.toUInt64 ≠ 0 then some accesses.serial else none

/-- The branches of the devices whose lines were raised. -/
def Accesses.raised (accesses : Accesses) (pending : Nat → Bool) : Notification where
  kbd := if pending 1 then some accesses.kbd else none
  mouse := if pending 12 then some accesses.mouse else none
  timer := if pending 0 then some accesses.timer else none
  rtc := if pending 8 then some accesses.rtc else none
  serial := if pending 4 then some accesses.serial else none

/-! ## The word of a notification -/

/-- The system reports exactly the raised lines, each by the bit of its policies. -/
def ReportsInterrupts (pending : Nat → Bool) (policies : List (Nat × Nat)) (word : UInt64) :
    Prop :=
  ∀ k, word.toNat.testBit k = policies.any fun policy => pending policy.1 && policy.2 = k

/-- A word of the bits of the raised lines. -/
def interruptWord (pending : Nat → Bool) : List (Nat × Nat) → UInt64
  | [] => 0
  | (irq, bit) :: policies =>
      (if pending irq then 1 <<< bit.toUInt64 else 0) ||| interruptWord pending policies

/-- It reports them. -/
theorem reportsInterrupts_interruptWord (pending : Nat → Bool) {policies : List (Nat × Nat)}
    (hbits : ∀ policy ∈ policies, policy.2 < 64) :
    ReportsInterrupts pending policies (interruptWord pending policies) := by
  intro k
  induction policies with
  | nil => simp [interruptWord]
  | cons policy policies ih =>
      rcases policy with ⟨irq, bit⟩
      have hbit : bit < 64 := hbits (irq, bit) List.mem_cons_self
      have hshift : ((1 : UInt64) <<< bit.toUInt64).toNat = 2 ^ bit := by
        have hshift : bit % 2 ^ 64 % 64 = bit := by omega
        have hlt : 2 ^ bit < 2 ^ 64 := Nat.pow_lt_pow_right (by decide) hbit
        rw [UInt64.toNat_shiftLeft, UInt64.toNat_ofNat', hshift, Nat.shiftLeft_eq, UInt64.toNat_one,
          Nat.one_mul, Nat.mod_eq_of_lt hlt]
      rw [interruptWord, UInt64.toNat_or, Nat.testBit_or, List.any_cons,
        ih fun policy hpolicy => hbits policy (List.mem_cons_of_mem _ hpolicy)]
      cases hpending : pending irq with
      | false => simp
      | true => simp [hshift, Nat.testBit_two_pow]

/-- The test of one bit. -/
theorem and_ne_zero_iff {interrupts mask : UInt64} {k : Nat} (hmask : mask.toNat = 2 ^ k) :
    interrupts &&& mask ≠ 0 ↔ interrupts.toNat.testBit k = true := by
  rw [ne_eq, ← UInt64.toNat_inj, UInt64.toNat_and, hmask, Nat.and_two_pow]
  cases interrupts.toNat.testBit k <;> simp

/-! ## The policies at the loop -/

/-- The policies installed so far, each with its line and the bit that its subscriber chose, and
the policies and the bits to test at each entry of the loop. -/
structure Subscriptions where
  policies : List (Nat × Nat)
  entries : List (List (Nat × Nat) × IrqSets)
deriving DecidableEq, Repr

/-- What a call records. -/
def Subscriptions.step (s : Subscriptions) : SystemEvent → Subscriptions
  | ⟨.sysIrqsetpolicy irq _ hookId, some _⟩ =>
      { s with policies := s.policies ++ [(irq, hookId)] }
  | ⟨.loop irqSets, _⟩ => { s with entries := s.entries ++ [(s.policies, irqSets)] }
  | _ => s

/-- What a part of the program makes of what was recorded. -/
abbrev Records {α : Type} (pre : Subscriptions → Prop) (program : Driver α)
    (post : α → Subscriptions → Prop) : Prop :=
  Interaction.Ensures Subscriptions.step (fun _ _ => True) pre program post

/-- The five policies: the mouse, the keyboard, the timer, the clock and the serial port. -/
def loopPolicies : List (Nat × Nat) := [(12, 12), (1, 7), (0, 0), (8, 8), (4, 9)]

/-- The bits that the loop tests. -/
def loopIrqSets : IrqSets := ⟨0x1000, 0x80, 0x01, 0x100, 0x200⟩

/-- The loop is only entered with these policies and bits. -/
def Entered (s : Subscriptions) : Prop := ∀ entry ∈ s.entries, entry = (loopPolicies, loopIrqSets)

section

open Interaction

variable {policies : List (Nat × Nat)}

/-- Nothing is recorded of the program. -/
abbrev Keeps {α : Type} (program : Driver α) : Prop :=
  Always Subscriptions.step (fun s event => s.step event = s) program

theorem Quiet.keeps_subscriptions {α : Type} {program : Driver α} (h : Quiet program) :
    Keeps program := by
  refine h.of_calls fun s event hquiet => ?_
  rcases event with ⟨call, answer⟩
  cases call
  all_goals first | rfl | cases hquiet

theorem Apart.keeps_subscriptions {α : Type} {program : Driver α} (h : Apart program) :
    Keeps program := by
  refine h.of_calls fun s event hapart => ?_
  rcases event with ⟨call, answer⟩
  cases call
  all_goals first | rfl | cases hapart

theorem records_sysIrqsetpolicy (irq : Nat) (exclusive : Bool) (hookId : Nat) :
    Records (· = ⟨policies, []⟩) (sysIrqsetpolicy irq exclusive hookId) (fun answer =>
      (· = ⟨if answer.isSome then policies ++ [(irq, hookId)] else policies, []⟩)) := by
  refine .call fun s answer hs _ => ?_
  cases answer <;> rw [hs] <;> rfl

/-- A subscription with what follows it, which is given the bit. -/
theorem records_subscription {α β : Type} {bit : α} {irq hookId : Nat} {exclusive : Bool}
    {next : α × Option Nat → Driver β} {post : β → Subscriptions → Prop}
    (hfailed : Records (· = ⟨policies, []⟩) (next (bit, none)) post)
    (hnext : ∀ newHookId, Records (· = ⟨policies ++ [(irq, hookId)], []⟩)
      (next (bit, some newHookId)) post) :
    Records (· = ⟨policies, []⟩)
      ((do return (bit, ← sysIrqsetpolicy irq exclusive hookId)) >>= next) post := by
  have hrun : Records (· = ⟨policies, []⟩)
      (sysIrqsetpolicy irq exclusive hookId >>= fun answer => next (bit, answer)) post := by
    refine (records_sysIrqsetpolicy irq exclusive hookId).bind fun answer => ?_
    cases answer with
    | none => exact hfailed
    | some newHookId => exact hnext newHookId
  exact hrun

/-- {lit}`sp_subscribe_int` with what follows it. -/
theorem records_spSubscribeInt {β : Type} {next : Option (UInt32 × Nat) → Driver β}
    {post : β → Subscriptions → Prop}
    (hfailed : ∀ policies, Records (· = ⟨policies, []⟩) (next none) post)
    (hnext : ∀ newHookId, Records (· = ⟨policies ++ [(4, 9)], []⟩)
      (next (some (0x200, newHookId))) post) :
    Records (· = ⟨policies, []⟩) (spSubscribeInt 0x3f8 >>= next) post := by
  have hrun : Records (· = ⟨policies, []⟩) (spSubscribeInt 0x3f8) (fun answer s =>
      match answer with
      | none => ∃ policies, s = ⟨policies, []⟩
      | some (bit, _) => bit = 0x200 ∧ s = ⟨policies ++ [(4, 9)], []⟩) := by
    refine (records_sysIrqsetpolicy 4 true 9).bind fun answer => ?_
    cases answer with
    | none => exact .pure fun s hs => ⟨policies, hs⟩
    | some newHookId =>
        refine .check_always (.call fun _ _ => rfl) (.pure fun s hs => ⟨_, hs⟩) ?_
        refine .check_always (.call fun _ _ => rfl) (.pure fun s hs => ⟨_, hs⟩) ?_
        exact .pure fun s hs => ⟨rfl, hs⟩
  refine hrun.bind fun answer => ?_
  rcases answer with _ | ⟨bit, newHookId⟩
  · exact .exists hfailed
  · intro s events result hs
    rcases hs with ⟨rfl, hs⟩
    exact hnext newHookId s events result hs

/-- From the loop on, the loop is entered once and nothing else is recorded. -/
theorem records_runAndRelease (irqSets : IrqSets) (hooks : Hooks) :
    Records (· = ⟨policies, []⟩) (runAndRelease irqSets hooks)
      (fun _ => (· = ⟨policies, [(policies, irqSets)]⟩)) := by
  have hloop : Records (· = ⟨policies, []⟩) (whileRunning irqSets)
      (fun _ => (· = ⟨policies, [(policies, irqSets)]⟩)) := .call fun s _ hs _ => by
    rw [hs]
    rfl
  refine hloop.bind fun ended => .of_always ?_
  split_ifs
  · exact .pure _
  refine (apart_sysIrqrmpolicy _).keeps_subscriptions.bind fun removed => ?_
  split_ifs
  · exact .pure _
  refine (quiet_mouseSendCommand _).keeps_subscriptions.bind fun result => ?_
  split_ifs
  · exact .pure _
  refine (apart_sysIrqrmpolicy _).keeps_subscriptions.bind fun removed => ?_
  split_ifs
  · exact .pure _
  refine (apart_sysIrqrmpolicy _).keeps_subscriptions.bind fun removed => ?_
  split_ifs
  · exact .pure _
  refine (apart_sysIrqrmpolicy _).keeps_subscriptions.bind fun removed => ?_
  split_ifs
  · exact .pure _
  refine quiet_cleanUpdate.keeps_subscriptions.bind fun result => ?_
  split_ifs
  · exact .pure _
  exact (apart_spUnsubscribe _).keeps_subscriptions.bind fun _ =>
    apart_vgExitToText.keeps_subscriptions

/-- Whatever fails before the loop, it is only entered with all five policies. -/
theorem records_projMainLoop (args : List String) :
    Records (· = ⟨[], []⟩) (projMainLoop args) (fun _ => Entered) := by
  have hnone : ∀ {policies : List (Nat × Nat)} {result : Int},
      Records (· = ⟨policies, []⟩) (pure result) (fun _ => Entered) :=
    .pure fun s hs entry hentry => by
      rw [hs] at hentry
      cases hentry
  unfold projMainLoop
  split_ifs
  · exact hnone
  refine records_subscription hnone fun mouseHookId => ?_
  refine records_subscription hnone fun kbdHookId => ?_
  refine .check_always (quiet_mouseSendCommand _).keeps_subscriptions hnone ?_
  refine .check_always (quiet_and_apart_setFrameBuffer _).2.keeps_subscriptions hnone ?_
  refine .check_always (apart_setGraphicsMode _).keeps_subscriptions hnone ?_
  refine .check_always (quiet_timerSetFrequency _ _).keeps_subscriptions hnone ?_
  refine records_subscription hnone fun timerHookId => ?_
  refine .check_always quiet_setUpdate.keeps_subscriptions hnone ?_
  refine records_subscription hnone fun hookIdRtc => ?_
  refine .bind (.of_always (quiet_spEnableInt _ _).keeps_subscriptions) fun _ => ?_
  refine records_spSubscribeInt (fun _ => hnone) fun spHookId => ?_
  intro s events result hs hruns hrule entry hentry
  rw [records_runAndRelease _ _ s events result hs hruns hrule] at hentry
  exact List.mem_singleton.mp hentry

end

/-! ## The branches taken -/

/-- In every run of {lit}`proj_main_loop`, whatever the system answers: when the loop is entered,
its tests and the policies installed agree, so that for every set of raised lines a notification
that reports them makes it take exactly the branches of the devices on these lines. -/
theorem interrupts_reach_handlers {args : List String} {events : List SystemEvent} {result : Int}
    (h : (projMainLoop args).Runs events result) {policies : List (Nat × Nat)} {irqSets : IrqSets}
    (hentry : (policies, irqSets) ∈ (events.foldl Subscriptions.step ⟨[], []⟩).entries)
    {pending : Nat → Bool} {word : UInt64} (hword : ReportsInterrupts pending policies word)
    (accesses : Accesses) :
    irqSets.notification word accesses = accesses.raised pending := by
  have hentered := records_projMainLoop args ⟨[], []⟩ events result rfl h
    (throughout_true events _) _ hentry
  rcases Prod.mk.inj hentered with ⟨rfl, rfl⟩
  have htest : ∀ {mask : UInt64} {k irq : Nat}, mask.toNat = 2 ^ k →
      (loopPolicies.any fun policy => pending policy.1 && policy.2 = k) = pending irq →
      (word &&& mask ≠ 0 ↔ pending irq = true) := by
    intro mask k irq hmask hany
    rw [and_ne_zero_iff hmask, hword k, hany]
  have hkbd : word &&& loopIrqSets.kbd.toUInt64 ≠ 0 ↔ pending 1 :=
    htest (k := 7) rfl (by simp [loopPolicies])
  have hmouse : word &&& loopIrqSets.mouse.toUInt64 ≠ 0 ↔ pending 12 :=
    htest (k := 12) rfl (by simp [loopPolicies])
  have htimer : word &&& loopIrqSets.timer.toUInt64 ≠ 0 ↔ pending 0 :=
    htest (k := 0) rfl (by simp [loopPolicies])
  have hrtc : word &&& loopIrqSets.rtc.toUInt64 ≠ 0 ↔ pending 8 :=
    htest (k := 8) rfl (by simp [loopPolicies])
  have hserial : word &&& loopIrqSets.serie.toUInt64 ≠ 0 ↔ pending 4 :=
    htest (k := 9) rfl (by simp [loopPolicies])
  simp only [IrqSets.notification, Accesses.raised, hkbd, hmouse, htimer, hrtc, hserial]

/-- The keyboard and the clock interrupt together, in a run in which nothing fails. -/
theorem interrupts_reach_handlers_together :
    let events := ((projMainLoop [""]).transcript (respond [])).1
    let pending : Nat → Bool := fun irq => irq = 1 ∨ irq = 8
    let read : PortAccess := ⟨true, 0⟩
    let accesses : Accesses :=
      ⟨(read, read), (read, read), (none, ⟨read, read, read⟩, ⟨read, read, read⟩),
        (read, ⟨read, read, read⟩), []⟩
    (events.foldl Subscriptions.step ⟨[], []⟩).entries = [(loopPolicies, loopIrqSets)] ∧
      loopIrqSets.notification (interruptWord pending loopPolicies) accesses =
        accesses.raised pending := by
  intro events pending read accesses
  have hruns := Interaction.runs_transcript (respond []) (projMainLoop [""])
  have hentries : (events.foldl Subscriptions.step ⟨[], []⟩).entries =
      [(loopPolicies, loopIrqSets)] := by decide +kernel
  refine ⟨hentries, interrupts_reach_handlers hruns ?_
    (reportsInterrupts_interruptWord pending (by decide)) accesses⟩
  exact hentries ▸ List.mem_singleton.mpr rfl

end LCOMaze
