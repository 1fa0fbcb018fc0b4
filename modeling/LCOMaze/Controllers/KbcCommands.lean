import LCOMaze.Controllers.SystemCalls

/-!
# Commands for the mouse

{lit}`mouse_send_command` reaches the mouse through the keyboard controller and repeats a command
that is not acknowledged.

Main results:

- Theorem {lit}`kbcSendCommand_runs`: the two calls of {lit}`kbc_send_command`.
- Theorem {lit}`mouseSendCommand_exact`: a command is sent at most ten times, never into a full
  input buffer, and succeeds exactly if it is acknowledged.
-/

namespace LCOMaze

open Foundations

/-! ## The translated functions -/

/-- The status was read and shows an empty input buffer. -/
def inputEmpty (status : PortAccess) : Bool := status.ok && !bitSet status.value 1

/-- {lit}`kbc_send_command`. -/
def kbcSendCommand (port command : UInt8) : Driver Int := do
  let status ← sysInb 0x64
  if !status.ok then
    return 1
  if !bitSet status.value 1 then
    if !(← sysOutb port.toNat command.toUInt32) then
      return 1
    return 0
  return 1

/-- The body of the loop of {lit}`mouse_send_command`, with the result if it returns. -/
def mouseAttempt (command : UInt8) : Driver (Option Int) := do
  if (← kbcSendCommand 0x64 0xD4) ≠ 0 then
    return some 1
  if (← kbcSendCommand 0x60 command) ≠ 0 then
    return some 1
  tickdelay 10000
  let response ← sysInb 0x60
  if !response.ok then
    return some 1
  if response.lsb = 0xFA then
    return some 0
  return none

/-- {lit}`mouse_send_command`: ten times {lit}`do`, then the {lit}`return 1` behind the loop. -/
def mouseSendCommand (command : UInt8) : Driver Int := do
  return (← Interaction.retry 10 (mouseAttempt command)).getD 1

/-! ## What is written -/

/-- A successful write, with its port. -/
def written : SystemEvent → Option (Nat × UInt32)
  | ⟨.sysOutb port value, true⟩ => some (port, value)
  | _ => none

/-- The successful writes of a run. -/
def writes (events : List SystemEvent) : List (Nat × UInt32) := events.filterMap written

@[simp]
theorem writes_append (events events' : List SystemEvent) :
    writes (events ++ events') = writes events ++ writes events' :=
  List.filterMap_append

/-- The bytes that forward a command to the mouse. -/
def commandWrites (command : UInt8) : List (Nat × UInt32) :=
  [(0x64, 0xD4), (0x60, command.toUInt32)]

/-- A byte is written to the keyboard controller only if the call just before has found its input
buffer empty. -/
def WritesWhenEmpty (last : Option SystemEvent) (event : SystemEvent) : Prop :=
  ∀ port value, event.1 = .sysOutb port value → port = 0x60 ∨ port = 0x64 →
    ∃ status, last = some ⟨.sysInb 0x64, status⟩ ∧ inputEmpty status = true

/-- The last call has read an acknowledgement. -/
def Acknowledged (events : List SystemEvent) : Prop :=
  ∃ response : PortAccess, events.getLast? = some ⟨.sysInb 0x60, response⟩ ∧
    response.ok = true ∧ response.lsb = 0xFA

/-- A command for the controller: its status is read, and a byte follows if there is room. -/
theorem kbcSendCommand_runs {port command : UInt8} {events : List SystemEvent} {result : Int} :
    (kbcSendCommand port command).Runs events result ↔
      ∃ status : PortAccess,
        (inputEmpty status = false ∧ events = [⟨.sysInb 0x64, status⟩] ∧ result = 1) ∨
        (inputEmpty status = true ∧ ∃ sent : Bool,
          events = [⟨.sysInb 0x64, status⟩, ⟨.sysOutb port.toNat command.toUInt32, sent⟩] ∧
          result = if sent then 0 else 1) := by
  rw [kbcSendCommand, sysInb, Interaction.runs_call_bind]
  refine exists_congr fun status => ?_
  cases hok : status.ok with
  | false => simp [inputEmpty, hok, and_comm]
  | true =>
      cases hfull : bitSet status.value 1 with
      | true => simp [inputEmpty, hok, hfull, and_comm]
      | false =>
          simp only [inputEmpty, hok, hfull, Bool.not_true, Bool.not_false, Bool.false_eq_true,
            reduceCtorEq, if_false, if_true, Bool.and_self, false_and, true_and, false_or, sysOutb,
            Interaction.runs_call_bind, Interaction.runs_ite, Interaction.runs_pure]
          constructor
          · rintro ⟨rest, rfl, sent, rest, rfl, hresult⟩
            refine ⟨sent, ?_⟩
            cases sent <;> simpa using hresult
          · rintro ⟨sent, rfl, rfl⟩
            refine ⟨_, rfl, sent, [], rfl, ?_⟩
            cases sent <;> simp

/-- It succeeds exactly if a byte was written, and a failed one is not taken for an
acknowledgement. -/
theorem kbcSendCommand_cases {port command : UInt8} {events : List SystemEvent} {result : Int}
    (h : (kbcSendCommand port command).Runs events result) :
    (result = 1 ∧ writes events = [] ∧ ∀ before, ¬Acknowledged (before ++ events)) ∨
      (result = 0 ∧ writes events = [(port.toNat, command.toUInt32)]) := by
  rcases kbcSendCommand_runs.mp h with ⟨status, ⟨-, rfl, rfl⟩ | ⟨-, sent, rfl, rfl⟩⟩
  · refine Or.inl ⟨rfl, rfl, fun before => ?_⟩
    simp [Acknowledged]
  · cases sent with
    | true => exact Or.inr ⟨rfl, rfl⟩
    | false =>
        refine Or.inl ⟨rfl, rfl, fun before => ?_⟩
        simp [Acknowledged]

/-! ## Attempts -/

/-- An attempt that returns early has written a part of the command at most; every other one has
written all of it and read an answer, which decides. -/
theorem mouseAttempt_cases {command : UInt8} {events : List SystemEvent} {result : Option Int}
    (h : (mouseAttempt command).Runs events result) :
    writes events <+: commandWrites command ∧
      ((result = some 1 ∧ ∀ before, ¬Acknowledged (before ++ events)) ∨
        (result = some 0 ∧ writes events = commandWrites command ∧
          ∀ before, Acknowledged (before ++ events)) ∨
        (result = none ∧ writes events = commandWrites command ∧
          ∀ before, ¬Acknowledged (before ++ events))) := by
  rw [mouseAttempt, Interaction.runs_bind] at h
  rcases h with ⟨first, before, after, hfirst, h, rfl⟩
  rcases kbcSendCommand_cases hfirst with ⟨rfl, hwrites, hnot⟩ | ⟨rfl, hwrites⟩
  · -- the prefix was not written
    rcases h with ⟨rfl, rfl⟩
    rw [List.append_nil, hwrites]
    exact ⟨List.nil_prefix, Or.inl ⟨rfl, hnot⟩⟩
  rw [if_neg (by decide), Interaction.runs_bind] at h
  rcases h with ⟨second, before', after, hsecond, h, rfl⟩
  rcases kbcSendCommand_cases hsecond with ⟨rfl, hwrites', hnot⟩ | ⟨rfl, hwrites'⟩
  · -- the command itself was not written
    rcases h with ⟨rfl, rfl⟩
    rw [List.append_nil, writes_append, hwrites, hwrites']
    refine ⟨⟨_, rfl⟩, Or.inl ⟨rfl, fun earlier => ?_⟩⟩
    rw [← List.append_assoc]
    exact hnot (earlier ++ before)
  simp only [ne_eq, not_true_eq_false, if_false, tickdelay, sysInb, Interaction.runs_call_bind,
    Interaction.runs_ite, Interaction.runs_pure] at h
  rcases h with ⟨_, _, rfl, response, rest, rfl, h⟩
  have hdecided : rest = [] ∧ result =
      if response.ok then if response.lsb = 0xFA then some 0 else none else some 1 := by
    cases hok : response.ok with
    | false => simpa [hok] using h
    | true =>
        simp only [hok, Bool.not_true, Bool.false_eq_true, if_false, if_true] at h ⊢
        split_ifs at h ⊢ <;> exact h
  rcases hdecided with ⟨rfl, rfl⟩
  have hall : writes (before ++ (before' ++ [⟨.tickdelay 10000, ()⟩, ⟨.sysInb 0x60, response⟩])) =
      commandWrites command := by
    rw [writes_append, writes_append, hwrites, hwrites']
    rfl
  have hack : ∀ earlier, Acknowledged (earlier ++ (before ++ (before' ++
      [⟨.tickdelay 10000, ()⟩, ⟨.sysInb 0x60, response⟩]))) ↔
        response.ok = true ∧ response.lsb = 0xFA := by
    intro earlier
    simp [Acknowledged]
  refine ⟨hall ▸ List.prefix_rfl, ?_⟩
  simp only [hack]
  cases response.ok with
  | false => simp
  | true => by_cases hresponse : response.lsb = 0xFA <;> simp [hresponse, hall]

/-! ## The whole command -/

/-- A byte is written only when the status before allows it. -/
theorem kbcSendCommand_always (port command : UInt8) :
    Interaction.Always (fun _ event => some event) WritesWhenEmpty
      (kbcSendCommand port command) := by
  intro events result h last
  rcases kbcSendCommand_runs.mp h with ⟨status, ⟨-, rfl, -⟩ | ⟨hempty, sent, rfl, -⟩⟩
  · exact ⟨fun _ _ hcall _ => (nomatch hcall), trivial⟩
  · exact ⟨fun _ _ hcall _ => (nomatch hcall), fun _ _ _ _ => ⟨status, rfl, hempty⟩, trivial⟩

theorem mouseSendCommand_always (command : UInt8) :
    Interaction.Always (fun _ event => some event) WritesWhenEmpty
      (mouseSendCommand command) := by
  refine .bind (.retry ?_) fun _ => .pure _
  refine (kbcSendCommand_always _ _).bind fun first => ?_
  split_ifs
  · exact .pure _
  refine (kbcSendCommand_always _ _).bind fun second => ?_
  split_ifs
  · exact .pure _
  refine (Interaction.Always.call fun _ _ _ _ hcall _ => (nomatch hcall)).bind fun _ => ?_
  refine (Interaction.Always.call fun _ _ _ _ hcall _ => (nomatch hcall)).bind fun response => ?_
  split_ifs <;> exact .pure _

/-- Attempts that were rejected have written the command once each. -/
theorem writes_rejected {command : UInt8} {rejected : List (List SystemEvent)}
    (h : ∀ run ∈ rejected, (mouseAttempt command).Runs run none) :
    writes rejected.flatten =
      (List.replicate rejected.length (commandWrites command)).flatten := by
  induction rejected with
  | nil => rfl
  | cons run rejected ih =>
      rcases List.forall_mem_cons.mp h with ⟨hrun, hrest⟩
      rcases (mouseAttempt_cases hrun).2 with ⟨hnone, -⟩ | ⟨hnone, -⟩ | ⟨-, hwrites, -⟩
      · cases hnone
      · cases hnone
      · rw [List.flatten_cons, writes_append, hwrites, ih hrest]
        rfl

/-- Some copies of a list and a part of it are a part of more copies. -/
theorem flatten_replicate_of_part {α : Type} {part whole : List α} (h : part <+: whole) {m n : Nat}
    (hmn : m < n) :
    (List.replicate m whole).flatten ++ part <+: (List.replicate n whole).flatten := by
  rw [show n = m + (n - m - 1 + 1) by omega, List.replicate_add, List.flatten_append,
    List.prefix_append_right_inj, List.replicate_succ, List.flatten_cons]
  exact h.trans (List.prefix_append _ _)

/-- Whatever the keyboard controller answers, no byte is written to it unless the status read
directly before has shown an empty input buffer, the bytes written are a part of ten copies of the
command behind the byte that forwards it, and the result is 0 exactly if the last thing read is an
acknowledgement, and else 1. -/
theorem mouseSendCommand_exact {command : UInt8} {events : List SystemEvent} {result : Int}
    (h : (mouseSendCommand command).Runs events result) (last : Option SystemEvent) :
    Throughout (fun _ event => some event) WritesWhenEmpty events last ∧
      writes events <+: (List.replicate 10 (commandWrites command)).flatten ∧
      ((Acknowledged events ∧ result = 0 ∧
          ∃ n ≤ 9, writes events = (List.replicate (n + 1) (commandWrites command)).flatten) ∨
        (¬Acknowledged events ∧ result = 1)) := by
  refine ⟨mouseSendCommand_always command events result h last, ?_⟩
  rw [mouseSendCommand, Interaction.runs_bind] at h
  rcases h with ⟨answer, events, _, h, ⟨rfl, rfl⟩, rfl⟩
  rw [List.append_nil]
  rcases Interaction.runs_retry.mp h with
    ⟨rejected, hrejected, ⟨hlength, rfl, rfl⟩ | ⟨_, final, hlt, rfl, hfinal, rfl⟩⟩
  · -- ten attempts were rejected
    rw [writes_rejected hrejected, hlength]
    refine ⟨List.prefix_rfl, Or.inr ⟨?_, rfl⟩⟩
    rcases List.eq_nil_or_concat rejected with rfl | ⟨earlier, run, rfl⟩
    · simp at hlength
    · rcases (mouseAttempt_cases (hrejected run (by simp))).2 with
        ⟨hnone, -⟩ | ⟨hnone, -⟩ | ⟨-, -, hnot⟩
      · cases hnone
      · cases hnone
      · simpa using hnot earlier.flatten
  · rcases mouseAttempt_cases hfinal with ⟨hpart, hcases⟩
    rw [writes_append, writes_rejected hrejected]
    refine ⟨flatten_replicate_of_part hpart hlt, ?_⟩
    rcases hcases with ⟨hsome, hnot⟩ | ⟨hsome, hwrites, hack⟩ | ⟨hsome, -⟩
    · cases hsome
      exact Or.inr ⟨hnot _, rfl⟩
    · cases hsome
      refine Or.inl ⟨hack _, rfl, rejected.length, by omega, ?_⟩
      rw [hwrites, List.replicate_succ', List.flatten_append]
      simp
    · cases hsome

/-- The calls of an attempt with an empty input buffer, and the answer of the mouse. -/
def attemptEvents (command response : UInt8) : List SystemEvent :=
  [⟨.sysInb 0x64, ⟨true, 0⟩⟩, ⟨.sysOutb 0x64 0xD4, true⟩, ⟨.sysInb 0x64, ⟨true, 0⟩⟩,
    ⟨.sysOutb 0x60 command.toUInt32, true⟩, ⟨.tickdelay 10000, ()⟩,
    ⟨.sysInb 0x60, ⟨true, response.toUInt32⟩⟩]

/-- Data reporting is enabled at the second attempt. -/
theorem mouseSendCommand_exact_second :
    let events := attemptEvents 0xF4 0xFE ++ attemptEvents 0xF4 0xFA
    Throughout (fun _ event => some event) WritesWhenEmpty events none ∧
      writes events <+: (List.replicate 10 (commandWrites 0xF4)).flatten ∧
      ((Acknowledged events ∧ (0 : Int) = 0 ∧
          ∃ n ≤ 9, writes events = (List.replicate (n + 1) (commandWrites 0xF4)).flatten) ∨
        (¬Acknowledged events ∧ (0 : Int) = 1)) :=
  have hruns : (mouseSendCommand 0xF4).Runs
      (attemptEvents 0xF4 0xFE ++ attemptEvents 0xF4 0xFA) 0 :=
    ⟨_, _, rfl, _, _, rfl, _, _, rfl, _, _, rfl, _, _, rfl, _, _, rfl,
      _, _, rfl, _, _, rfl, _, _, rfl, _, _, rfl, _, _, rfl, _, _, rfl, rfl, rfl⟩
  mouseSendCommand_exact hruns none

end LCOMaze
