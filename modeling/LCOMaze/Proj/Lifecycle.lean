import LCOMaze.Controllers.Setup

/-!
# What is left behind

{lit}`proj_main_loop` subscribes to five interrupts and enters the graphics mode before its loop
and undoes this afterwards, but every failure returns at once.

Main results:

- Theorem {lit}`manages_projMainLoop`: every run ends in one of fifteen ways.
- Theorem {lit}`projMainLoop_exits_iff`: these are exactly the ways in which a run can end.
-/

namespace LCOMaze

open Foundations

/-! ## The translated function -/

/-- The hook ids of the program. -/
structure Hooks where
  mouse : Nat
  kbd : Nat
  timer : Nat
  rtc : Nat
  sp : Nat

/-- {lit}`proj_main_loop` from its loop on. -/
def runAndRelease (irqSets : IrqSets) (hooks : Hooks) : Driver Int := do
  if !(← whileRunning irqSets) then
    return 1
  if !(← kbdUnsubscribeInt hooks.kbd) then
    return 1
  if (← mouseSendCommand 0xF5) ≠ 0 then
    return 1
  if !(← mouseUnsubscribeInt hooks.mouse) then
    return 1
  if !(← timerUnsubscribeInt hooks.timer) then
    return 1
  if !(← unsubscribeRtc hooks.rtc) then
    return 1
  if (← cleanUpdate) ≠ 0 then
    return 1
  let _ ← spUnsubscribe hooks.sp
  vgExitToText

/-- {lit}`proj_main_loop`, with its loop as one call. -/
def projMainLoop (args : List String) : Driver Int := do
  if args.isEmpty then
    return 1
  let (irqSetMouse, some mouseHookId) ← mouseSubscribeInt 12 | return 1
  let (irqSetKbd, some kbdHookId) ← kbdSubscribeInt 7 | return 1
  if (← mouseSendCommand 0xF4) ≠ 0 then
    return 1
  if (← setFrameBuffer 0x14C) = none then
    return 1
  if (← setGraphicsMode 0x14C) ≠ 0 then
    return 1
  if (← timerSetFrequency 0 45) ≠ 0 then
    return 1
  let (irqSetTimer, some timerHookId) ← timerSubscribeInt 0 | return 1
  if (← setUpdate) ≠ 0 then
    return 1
  let (irqSetRtc, some hookIdRtc) ← subscribeRtc 8 | return 1
  let _ ← spEnableInt 0x3f8 1
  let some (irqSetSerie, spHookId) ← spSubscribeInt 0x3f8 | return -1
  runAndRelease ⟨irqSetMouse, irqSetKbd, irqSetTimer, irqSetRtc, irqSetSerie⟩
    ⟨mouseHookId, kbdHookId, timerHookId, hookIdRtc, spHookId⟩

/-! ## What the system holds -/

/-- The policies that are installed, each with its line and its hook id, and whether the screen is
in a graphics mode. -/
structure Held where
  policies : List (Nat × Nat)
  graphics : Bool
deriving DecidableEq, Repr

/-- A successful call installs or removes a policy or changes the mode. -/
def Held.step (held : Held) : SystemEvent → Held
  | ⟨.sysIrqsetpolicy irq _ _, some hookId⟩ =>
      { held with policies := (irq, hookId) :: held.policies }
  | ⟨.sysIrqrmpolicy hookId, true⟩ =>
      { held with policies := held.policies.filter fun policy => policy.2 ≠ hookId }
  | ⟨.sysInt86 registers, true⟩ => { held with graphics := registers.ah = 0x4F }
  | _ => held

/-- The hook id that an answer hands out. -/
def newHook : SystemEvent → Option Nat
  | ⟨.sysIrqsetpolicy .., some hookId⟩ => some hookId
  | _ => none

/-- The system does not give a policy the hook id of an installed one. -/
def FreshHook (held : Held) (event : SystemEvent) : Prop :=
  (newHook event).all (fun hookId => hookId ∉ held.policies.map Prod.snd) = true

instance (held : Held) (event : SystemEvent) : Decidable (FreshHook held event) :=
  inferInstanceAs (Decidable (_ = true))

/-- The ways in which {lit}`proj_main_loop` can end: its result, the lines of the policies that are
still installed, and whether the screen is still in the graphics mode. -/
def exits : List (Int × List Nat × Bool) :=
  [(1, [], false), (1, [12], false), (1, [1, 12], false), (1, [1, 12], true),
    (1, [0, 1, 12], true), (-1, [8, 0, 1, 12], true), (-1, [4, 8, 0, 1, 12], true),
    (1, [4, 8, 0, 1, 12], true), (1, [4, 8, 0, 12], true), (1, [4, 8, 0], true),
    (1, [4, 8], true), (1, [4], true), (1, [], true), (0, [4], false), (0, [], false)]

/-- How a run has ended. -/
def Exits (result : Int) (held : Held) : Prop :=
  (result, held.policies.map Prod.fst, held.graphics) ∈ exits

/-! ## Calls that change nothing -/

/-- The call neither installs nor removes a policy, changes the mode or enters the loop. -/
def SystemCall.Quiet : SystemCall → Prop
  | .sysIrqsetpolicy .. | .sysIrqrmpolicy _ | .sysInt86 _ | .loop _ => False
  | _ => True

/-- No call of the program does. -/
abbrev Quiet {α : Type} (program : Driver α) : Prop :=
  Interaction.Always (fun (_ : Unit) _ => ()) (fun _ event => event.1.Quiet) program

/-- The call neither accesses a device, installs a policy nor enters the loop. -/
def SystemCall.Apart : SystemCall → Prop
  | .sysInb _ | .sysOutb .. | .tickdelay _ | .sysIrqsetpolicy .. | .loop _ => False
  | _ => True

/-- No call of the program does. -/
abbrev Apart {α : Type} (program : Driver α) : Prop :=
  Interaction.Always (fun (_ : Unit) _ => ()) (fun _ event => event.1.Apart) program

section

open Interaction

theorem quiet_sysInb (port : Nat) : Quiet (sysInb port) := .call fun _ _ => trivial

theorem quiet_sysOutb (port : Nat) (value : UInt32) : Quiet (sysOutb port value) :=
  .call fun _ _ => trivial

theorem quiet_kbcSendCommand (port command : UInt8) : Quiet (kbcSendCommand port command) := by
  refine (quiet_sysInb _).bind fun status => ?_
  split_ifs
  · exact .pure 1
  · refine (quiet_sysOutb _ _).bind fun sent => ?_
    split_ifs <;> exact .pure _
  · exact .pure 1

theorem quiet_mouseSendCommand (command : UInt8) : Quiet (mouseSendCommand command) := by
  refine .bind (.retry ?_) fun _ => .pure _
  refine (quiet_kbcSendCommand _ _).bind fun first => ?_
  split_ifs
  · exact .pure _
  refine (quiet_kbcSendCommand _ _).bind fun second => ?_
  split_ifs
  · exact .pure _
  refine Always.bind (.call fun _ _ => trivial) fun _ => ?_
  refine (quiet_sysInb _).bind fun response => ?_
  split_ifs <;> exact .pure _

theorem quiet_timerGetConf (timer : UInt8) : Quiet (timerGetConf timer) := by
  unfold timerGetConf
  split_ifs
  · exact .pure _
  refine (quiet_sysOutb _ _).bind fun sent => ?_
  split_ifs
  · exact .pure _
  exact (quiet_sysInb _).bind fun st => .pure _

theorem quiet_timerSetFrequency (timer : UInt8) (freq : UInt32) :
    Quiet (timerSetFrequency timer freq) := by
  unfold timerSetFrequency
  split_ifs
  · exact .pure _
  · exact .pure _
  refine (quiet_timerGetConf _).bind fun currentConfig => ?_
  cases currentConfig with
  | none => exact .pure _
  | some currentConfig =>
      refine (quiet_sysOutb _ _).bind fun sent => ?_
      split_ifs
      · exact .pure _
      refine (quiet_sysOutb _ _).bind fun sent => ?_
      split_ifs
      · exact .pure _
      refine (quiet_sysOutb _ _).bind fun sent => ?_
      split_ifs <;> exact .pure _

theorem quiet_setUpdate : Quiet setUpdate :=
  (quiet_sysOutb _ _).bind fun _ => (quiet_sysInb _).bind fun _ =>
    (quiet_sysOutb _ _).bind fun _ => (quiet_sysOutb _ _).bind fun _ => .pure 0

theorem quiet_cleanUpdate : Quiet cleanUpdate :=
  (quiet_sysOutb _ _).bind fun _ => (quiet_sysInb _).bind fun _ =>
    (quiet_sysOutb _ _).bind fun _ => (quiet_sysOutb _ _).bind fun _ => .pure 0

theorem quiet_spEnableInt (baseAddr : Nat) (mask : UInt8) : Quiet (spEnableInt baseAddr mask) := by
  refine (quiet_sysInb _).bind fun regIer => ?_
  split_ifs
  · exact .pure _
  refine (quiet_sysOutb _ _).bind fun sent => ?_
  split_ifs <;> exact .pure _

theorem quiet_and_apart_setFrameBuffer (mode : UInt16) :
    Quiet (setFrameBuffer mode) ∧ Apart (setFrameBuffer mode) := by
  have hboth : Always (fun (_ : Unit) _ => ()) (fun _ event => event.1.Quiet ∧ event.1.Apart)
      (setFrameBuffer mode) := by
    refine Always.bind (.call fun _ _ => ⟨trivial, trivial⟩) fun info => ?_
    rcases info with _ | ⟨modeInfo, physBasePtr⟩
    · exact .pure _
    refine Always.bind (.call fun _ _ => ⟨trivial, trivial⟩) fun added => ?_
    split_ifs
    · exact .pure _
    refine Always.bind (.call fun _ _ => ⟨trivial, trivial⟩) fun mapped => ?_
    split_ifs <;> exact .pure _
  exact ⟨fun events result hruns s => (hboth events result hruns s).mono fun _ _ h => h.1,
    fun events result hruns s => (hboth events result hruns s).mono fun _ _ h => h.2⟩

theorem apart_sysInt86 (registers : Reg86) : Apart (sysInt86 registers) := .call fun _ _ => trivial

theorem apart_sysIrqrmpolicy (hookId : Nat) : Apart (sysIrqrmpolicy hookId) :=
  .call fun _ _ => trivial

theorem apart_setGraphicsMode (mode : UInt16) : Apart (setGraphicsMode mode) := by
  refine (apart_sysInt86 _).bind fun ok => ?_
  split_ifs <;> exact .pure _

theorem apart_spUnsubscribe (spHookId : Nat) : Apart (spUnsubscribe spHookId) := by
  refine Always.bind (.call fun _ _ => trivial) fun disabled => ?_
  split_ifs
  · exact .pure _
  refine (apart_sysIrqrmpolicy _).bind fun removed => ?_
  split_ifs <;> exact .pure _

theorem apart_vgExitToText : Apart vgExitToText := by
  refine (apart_sysInt86 _).bind fun ok => ?_
  split_ifs <;> exact .pure _

/-- It leaves alone what is held. -/
theorem Quiet.keeps_held {α : Type} {program : Driver α} (h : Quiet program) :
    Always Held.step (fun held event => held.step event = held) program := by
  refine h.of_calls fun held event hquiet => ?_
  rcases event with ⟨call, answer⟩
  cases call
  all_goals first | rfl | cases hquiet

end

/-! ## Calls that change what is held -/

/-- These policies are installed, with different hook ids, in this mode. -/
def Holding (policies : List (Nat × Nat)) (graphics : Bool) (held : Held) : Prop :=
  held = ⟨policies, graphics⟩ ∧ (policies.map Prod.snd).Nodup

/-- The five policies, in the order of their subscriptions from the last one on. -/
def Hooks.policies (hooks : Hooks) : List (Nat × Nat) :=
  [(4, hooks.sp), (8, hooks.rtc), (0, hooks.timer), (1, hooks.kbd), (12, hooks.mouse)]

/-- The policies after {lit}`sys_irqsetpolicy`. -/
def install (irq : Nat) (policies : List (Nat × Nat)) : Option Nat → List (Nat × Nat)
  | some hookId => (irq, hookId) :: policies
  | none => policies

/-- What a part of the program makes of what is held, if hook ids are fresh. -/
abbrev Manages {α : Type} (pre : Held → Prop) (program : Driver α) (post : α → Held → Prop) :
    Prop :=
  Interaction.Ensures Held.step FreshHook pre program post

section

open Interaction

variable {policies before after : List (Nat × Nat)} {graphics : Bool}

theorem manages_sysIrqsetpolicy (irq : Nat) (exclusive : Bool) (hookId : Nat) :
    Manages (Holding policies graphics) (sysIrqsetpolicy irq exclusive hookId)
      (fun answer => Holding (install irq policies answer) graphics) := by
  refine .call fun held answer hheld hfresh => ?_
  rcases hheld with ⟨rfl, hnodup⟩
  cases answer with
  | none => exact ⟨rfl, hnodup⟩
  | some newHookId =>
      have hnew : newHookId ∉ policies.map Prod.snd := by
        simpa [FreshHook, newHook] using hfresh
      exact ⟨rfl, List.nodup_cons.mpr ⟨hnew, hnodup⟩⟩

/-- Of policies with different hook ids, one is removed. -/
theorem filter_hook {irq hookId : Nat}
    (hnodup : ((before ++ (irq, hookId) :: after).map Prod.snd).Nodup) :
    (before ++ (irq, hookId) :: after).filter (fun policy => policy.2 ≠ hookId) =
      before ++ after := by
  rw [List.map_append, List.map_cons, List.nodup_middle, List.nodup_cons,
    ← List.map_append] at hnodup
  have hother : ∀ policy ∈ before ++ after, policy.2 ≠ hookId := by
    intro policy hpolicy heq
    exact hnodup.1 (List.mem_map.mpr ⟨policy, hpolicy, heq⟩)
  rw [List.filter_append, List.filter_cons_of_neg (by simp), ← List.filter_append]
  exact List.filter_eq_self.mpr fun policy hpolicy => by simpa using hother policy hpolicy

theorem manages_sysIrqrmpolicy (before after : List (Nat × Nat)) (irq hookId : Nat) :
    Manages (Holding (before ++ (irq, hookId) :: after) graphics) (sysIrqrmpolicy hookId)
      (fun ok held => if !ok then Holding (before ++ (irq, hookId) :: after) graphics held
        else Holding (before ++ after) graphics held) := by
  refine .call fun held ok hheld _ => ?_
  rcases hheld with ⟨rfl, hnodup⟩
  cases ok with
  | false => exact ⟨rfl, hnodup⟩
  | true =>
      refine ⟨congrArg (Held.mk · graphics) (filter_hook hnodup), ?_⟩
      rw [List.map_append, List.map_cons, List.nodup_middle, ← List.map_append] at hnodup
      exact hnodup.of_cons

theorem manages_sysInt86 (registers : Reg86) :
    Manages (Holding policies graphics) (sysInt86 registers)
      (fun ok held => if !ok then Holding policies graphics held
        else Holding policies (registers.ah = 0x4F) held) := by
  refine .call fun held ok hheld _ => ?_
  rcases hheld with ⟨rfl, hnodup⟩
  cases ok with
  | false => exact ⟨rfl, hnodup⟩
  | true => exact ⟨rfl, hnodup⟩

/-- The ways in which to end with these policies. -/
theorem manages_pure {result : Int}
    (h : (result, policies.map Prod.fst, graphics) ∈ exits) :
    Manages (Holding policies graphics) (pure result) Exits := by
  refine .pure fun held hheld => ?_
  rcases hheld with ⟨rfl, -⟩
  exact h

theorem manages_spUnsubscribe (irq hookId : Nat) :
    Manages (Holding [(irq, hookId)] graphics) (spUnsubscribe hookId)
      (fun _ held => Holding [(irq, hookId)] graphics held ∨ Holding [] graphics held) := by
  refine .check_always (.call fun _ _ => rfl) (.pure fun _ => Or.inl) ?_
  exact .check (manages_sysIrqrmpolicy [] [] irq hookId) (.pure fun _ => Or.inl)
    (.pure fun _ => Or.inr)

theorem manages_vgExitToText (hfailed : (1, policies.map Prod.fst, graphics) ∈ exits)
    (hdone : (0, policies.map Prod.fst, false) ∈ exits) :
    Manages (Holding policies graphics) vgExitToText Exits :=
  .check (manages_sysInt86 _) (manages_pure hfailed) (manages_pure hdone)

/-- From the loop on, the policies are removed one after the other. -/
theorem manages_runAndRelease (irqSets : IrqSets) (hooks : Hooks) :
    Manages (Holding hooks.policies true) (runAndRelease irqSets hooks) Exits := by
  refine .check_always (.call fun _ _ => rfl)
    (manages_pure (by decide : (1, [4, 8, 0, 1, 12], true) ∈ exits)) ?_
  refine .check (manages_sysIrqrmpolicy [(4, hooks.sp), (8, hooks.rtc), (0, hooks.timer)]
    [(12, hooks.mouse)] 1 hooks.kbd)
    (manages_pure (by decide : (1, [4, 8, 0, 1, 12], true) ∈ exits)) ?_
  refine .check_always (quiet_mouseSendCommand _).keeps_held
    (manages_pure (by decide : (1, [4, 8, 0, 12], true) ∈ exits)) ?_
  refine .check (manages_sysIrqrmpolicy [(4, hooks.sp), (8, hooks.rtc), (0, hooks.timer)] [] 12
    hooks.mouse) (manages_pure (by decide : (1, [4, 8, 0, 12], true) ∈ exits)) ?_
  refine .check (manages_sysIrqrmpolicy [(4, hooks.sp), (8, hooks.rtc)] [] 0 hooks.timer)
    (manages_pure (by decide : (1, [4, 8, 0], true) ∈ exits)) ?_
  refine .check (manages_sysIrqrmpolicy [(4, hooks.sp)] [] 8 hooks.rtc)
    (manages_pure (by decide : (1, [4, 8], true) ∈ exits)) ?_
  refine .check_always quiet_cleanUpdate.keeps_held
    (manages_pure (by decide : (1, [4], true) ∈ exits)) ?_
  refine .bind (manages_spUnsubscribe 4 hooks.sp) fun _ => ?_
  exact .or
    (manages_vgExitToText (by decide : (1, [4], true) ∈ exits)
      (by decide : (0, [4], false) ∈ exits))
    (manages_vgExitToText (by decide) (by decide))

/-- A subscription, which also returns the bit of its interrupt. -/
theorem manages_subscription {α : Type} (bit : α) (irq : Nat) (exclusive : Bool) (hookId : Nat) :
    Manages (Holding policies graphics)
      (do return (bit, ← sysIrqsetpolicy irq exclusive hookId))
      (fun answer => Holding (install irq policies answer.2) graphics) :=
  .bind (manages_sysIrqsetpolicy irq exclusive hookId) fun _ => .pure fun _ hheld => hheld

/-- What {lit}`sp_subscribe_int` leaves, if it succeeds and if not. -/
def spSubscribed (policies : List (Nat × Nat)) (graphics : Bool) :
    Option (UInt32 × Nat) → Held → Prop
  | some (_, spHookId), held => Holding ((4, spHookId) :: policies) graphics held
  | none, held => Holding policies graphics held ∨
      ∃ spHookId, Holding ((4, spHookId) :: policies) graphics held

theorem manages_spSubscribeInt :
    Manages (Holding policies graphics) (spSubscribeInt 0x3f8)
      (spSubscribed policies graphics) := by
  refine .bind (manages_sysIrqsetpolicy 4 true 9) fun hook => ?_
  cases hook with
  | none => exact .pure fun _ => Or.inl
  | some spHookId =>
      have hfailed : Manages (Holding ((4, spHookId) :: policies) graphics) (pure none)
          (spSubscribed policies graphics) := .pure fun _ hheld => Or.inr ⟨spHookId, hheld⟩
      refine .check_always (.call fun _ _ => rfl) hfailed ?_
      refine .check_always (.call fun _ _ => rfl) hfailed ?_
      exact .pure fun _ hheld => hheld

theorem manages_setGraphicsMode (mode : UInt16) :
    Manages (Holding policies graphics) (setGraphicsMode mode)
      (fun result held => if result ≠ 0 then Holding policies graphics held
        else Holding policies true held) :=
  .check (manages_sysInt86 _) (.pure fun _ hheld => hheld) (.pure fun _ hheld => hheld)

/-- Before the loop, every failure leaves what was installed. -/
theorem manages_projMainLoop (args : List String) :
    Manages (Holding [] false) (projMainLoop args) Exits := by
  unfold projMainLoop
  split_ifs
  · exact manages_pure (by decide)
  refine .bind (manages_subscription _ 12 true 12) fun answer => ?_
  rcases answer with ⟨irqSetMouse, _ | mouseHookId⟩
  · exact manages_pure (by decide : (1, [], false) ∈ exits)
  refine .bind (manages_subscription _ 1 true 7) fun answer => ?_
  rcases answer with ⟨irqSetKbd, _ | kbdHookId⟩
  · exact manages_pure (by decide : (1, [12], false) ∈ exits)
  have htext : Manages (Holding [(1, kbdHookId), (12, mouseHookId)] false) (pure 1) Exits :=
    manages_pure (by decide : (1, [1, 12], false) ∈ exits)
  refine .check_always (quiet_mouseSendCommand _).keeps_held htext ?_
  refine .check_always (quiet_and_apart_setFrameBuffer _).1.keeps_held htext ?_
  refine .check (manages_setGraphicsMode _) htext ?_
  have hgraphics : Manages (Holding [(1, kbdHookId), (12, mouseHookId)] true) (pure 1) Exits :=
    manages_pure (by decide : (1, [1, 12], true) ∈ exits)
  refine .check_always (quiet_timerSetFrequency _ _).keeps_held hgraphics ?_
  refine .bind (manages_subscription _ 0 false 0) fun answer => ?_
  rcases answer with ⟨irqSetTimer, _ | timerHookId⟩
  · exact hgraphics
  have htimer : Manages (Holding [(0, timerHookId), (1, kbdHookId), (12, mouseHookId)] true)
      (pure 1) Exits := manages_pure (by decide : (1, [0, 1, 12], true) ∈ exits)
  refine .check_always quiet_setUpdate.keeps_held htimer ?_
  refine .bind (manages_subscription _ 8 false 8) fun answer => ?_
  rcases answer with ⟨irqSetRtc, _ | hookIdRtc⟩
  · exact htimer
  refine .bind (.of_always (quiet_spEnableInt _ _).keeps_held) fun _ => ?_
  refine .bind manages_spSubscribeInt fun answer => ?_
  rcases answer with _ | ⟨irqSetSerie, spHookId⟩
  · refine .or (manages_pure (by decide : (-1, [8, 0, 1, 12], true) ∈ exits)) (.exists ?_)
    exact fun _ => manages_pure (by decide : (-1, [4, 8, 0, 1, 12], true) ∈ exits)
  · exact manages_runAndRelease _ ⟨mouseHookId, kbdHookId, timerHookId, hookIdRtc, spHookId⟩

end

/-! ## Every exit is possible -/

/-- The answers of a system in which exactly these calls fail: the keyboard controller is ready
and the mouse acknowledges, and hook ids are the lines. -/
def respond (failing : List SystemCall) (call : SystemCall) : call.Answer :=
  if call ∈ failing then call.failure
  else
    match call with
    | .sysInb port => ⟨true, if port = 0x60 then 0xFA else 0⟩
    | .tickdelay _ => ()
    | .sysIrqsetpolicy irq _ _ => some irq
    | .vbeGetModeInfo _ => some (⟨1152, 864, 32⟩, 0xE0000000)
    | .sysOutb .. | .sysIrqrmpolicy _ | .sysIrqdisable _ | .sysPrivctl .. | .vmMapPhys ..
    | .sysInt86 _ | .newQueue | .loop _ => true

/-- Calls that can fail, one choice for each exit. -/
def failures : List (List SystemCall) :=
  [[.sysIrqsetpolicy 12 true 12], [.sysIrqsetpolicy 1 true 7], [.vbeGetModeInfo 0x14C],
    [.sysIrqsetpolicy 0 false 0], [.sysIrqsetpolicy 8 false 8], [.sysIrqsetpolicy 4 true 9],
    [.newQueue], [.sysIrqrmpolicy 1], [.sysIrqrmpolicy 12], [.sysIrqrmpolicy 0],
    [.sysIrqrmpolicy 8], [.sysIrqdisable 4, .sysInt86 ⟨0x10, 0, 3, 0⟩],
    [.sysInt86 ⟨0x10, 0, 3, 0⟩], [.sysIrqdisable 4], []]

theorem exits_possible : ∀ ending ∈ exits, ∃ failing ∈ failures,
    let run := (projMainLoop [""]).transcript (respond failing)
    let held := run.1.foldl Held.step ⟨[], false⟩
    Throughout Held.step FreshHook run.1 ⟨[], false⟩ ∧
      (run.2, held.policies.map Prod.fst, held.graphics) = ending := by
  decide +kernel

/-- As long as the system hands out fresh hook ids, the fifteen exits are exactly the ways in
which {lit}`proj_main_loop` can end, whatever fails: after a failure it leaves all policies that
were installed and not yet removed, and the graphics mode once it was entered, and only the policy
of the serial port can be left although 0 is returned. -/
theorem projMainLoop_exits_iff (arg : String) (args : List String)
    (ending : Int × List Nat × Bool) :
    (∃ events result, (projMainLoop (arg :: args)).Runs events result ∧
      Throughout Held.step FreshHook events ⟨[], false⟩ ∧
      let held := events.foldl Held.step ⟨[], false⟩
      (result, held.policies.map Prod.fst, held.graphics) = ending) ↔ ending ∈ exits := by
  constructor
  · rintro ⟨events, result, hruns, hfresh, rfl⟩
    exact manages_projMainLoop (arg :: args) ⟨[], false⟩ events result ⟨rfl, List.nodup_nil⟩ hruns
      hfresh
  · intro hending
    rcases exits_possible ending hending with ⟨failing, -, hfresh, hrun⟩
    exact ⟨_, _, Interaction.runs_transcript (respond failing) (projMainLoop (arg :: args)), hfresh,
      hrun⟩

end LCOMaze
