import LCOMaze.Proj.Batching

/-!
# Listening to the serial port

The main loop keeps the last received byte and looks at the serial port only while that
byte is not 0, so a byte of line noise decides whether later bytes are read.

Main results:

- Theorem {lit}`runStimuli_deaf_iff`: a machine is deaf exactly when it has received a 0.
- Theorem {lit}`listener_hears_iff`: a machine that plays hears of its defeat if and only if
  it has never received a 0.
- Theorem {lit}`listener_deaf`: a single 0 hides the defeat.
-/

namespace LCOMaze

open Foundations

/-- A serial interrupt of the run has exactly one byte pending, of any value. -/
def Stimulus.OneByte : Stimulus → Prop
  | .device _ => True
  | .serial batch => ∃ c, batch = [c]

/-- The bytes received by a run. -/
def receivedBytes (stimuli : List Stimulus) : List UInt8 :=
  stimuli.flatMap fun
    | .device _ => []
    | .serial batch => batch

/-- An {lit}`'L'` at a serial interrupt ends the game with a defeat. -/
def HearsDefeat (setup : Setup) (host : Bool) (m : Machine) : Prop :=
  (next setup host m (.serial (uartReads [byteL]))).session.gameState = .finish ∧
    (next setup host m (.serial (uartReads [byteL]))).session.won = false

section

variable {setup : Setup} {host : Bool} {m : Machine}

/-- The byte remembered after one stimulus. -/
theorem next_c {stimulus : Stimulus} (h : m.Ready) (hone : stimulus.OneByte) :
    (next setup host m stimulus.interrupt).c = 0 ↔ m.c = 0 ∨ 0 ∈ receivedBytes [stimulus] := by
  cases stimulus with
  | device event => simp [receivedBytes, Stimulus.interrupt, next, handle]
  | serial batch =>
      rcases hone with ⟨b, rfl⟩
      by_cases hc : m.c = 0
      · rw [next, Stimulus.interrupt, handle, serialInterrupt_of_zero host _ hc]
        simp [hc]
      · rcases receive_dispatches setup host h hc b [] with ⟨port, hrun, -⟩
        rw [next, Stimulus.interrupt, hrun]
        simp [receivedBytes, hc, eq_comm]

/-- A machine ignores the serial port exactly when it has received a 0. -/
theorem runStimuli_deaf_iff (setup : Setup) (host : Bool) {stimuli : List Stimulus} (h : m.Ready)
    (hone : ∀ stimulus ∈ stimuli, stimulus.OneByte) :
    (runStimuli setup host stimuli m).1.Ready ∧
      ((runStimuli setup host stimuli m).1.c = 0 ↔ m.c = 0 ∨ 0 ∈ receivedBytes stimuli) := by
  rw [runStimuli, handleAll_fst]
  induction stimuli generalizing m with
  | nil => exact ⟨h, by simp [receivedBytes]⟩
  | cons stimulus stimuli ih =>
      have hnext := next_ready setup host stimulus.interrupt h
      have htail := ih hnext (fun later hlater => hone later (List.mem_cons_of_mem _ hlater))
      have hsplit : receivedBytes (stimulus :: stimuli) =
          receivedBytes [stimulus] ++ receivedBytes stimuli := by
        simp [receivedBytes]
      rw [List.map_cons, List.foldl_cons]
      refine ⟨htail.1, ?_⟩
      rw [htail.2, next_c h (hone stimulus List.mem_cons_self), hsplit, List.mem_append, or_assoc]

/-- A machine that plays hears of its defeat exactly when it still listens. -/
theorem hearsDefeat_iff (h : m.Ready) (hrunning : m.session.gameState = .running) :
    HearsDefeat setup host m ↔ m.c ≠ 0 := by
  constructor
  · intro hhears hc
    rw [HearsDefeat, next, handle, serialInterrupt_of_zero host _ hc] at hhears
    cases hrunning.symm.trans hhears.1
  · intro hc
    rcases receive_dispatches setup host h hc byteL [] with ⟨port, hrun, -⟩
    rw [HearsDefeat, next, hrun, dispatch_byteL, if_pos hrunning]
    exact ⟨rfl, rfl⟩

end

/-- In every run of local interrupts and single bytes of any value that leaves the machine
{lit}`Running`, an {lit}`'L'` turns {lit}`gameState` to {lit}`Finish` with {lit}`won` equal to 0 if
and only if no byte received before was 0. -/
theorem listener_hears_iff (setup : Setup) (host : Bool) (stimuli : List Stimulus)
    (hone : ∀ stimulus ∈ stimuli, stimulus.OneByte) :
    let m := (runStimuli setup host stimuli (.init setup)).1
    m.session.gameState = .running → (HearsDefeat setup host m ↔ 0 ∉ receivedBytes stimuli) := by
  intro m hrunning
  rcases runStimuli_deaf_iff setup host (Machine.ready_init setup) hone with ⟨hready, hdeaf⟩
  rw [hearsDefeat_iff hready hrunning, Ne, hdeaf, not_or, and_iff_right (Machine.init_c setup)]

/-- A player who plays alone and receives a 0 is never told of a defeat. -/
theorem listener_deaf :
    ¬∀ (setup : Setup) (host : Bool) (stimuli : List Stimulus),
      (∀ stimulus ∈ stimuli, stimulus.OneByte) →
      let m := (runStimuli setup host stimuli (.init setup)).1
      m.session.gameState = .running → HearsDefeat setup host m := by
  intro hall
  have hhears := hall gameSetup false [.device (frame (some .singlePlayer)), .serial [0]]
    (by simp [Stimulus.OneByte]) rfl
  exact absurd hhears.1 (by decide)

/-- Noise other than 0 during a match does not hide the defeat. -/
theorem listener_hears_noise :
    let m := (runStimuli gameSetup false [.device (frame (some .multiPlayer)), .serial [byteM],
      .serial [0xFF]] (.init gameSetup)).1
    m.session.gameState = .running ∧ HearsDefeat gameSetup false m := by
  intro m
  have hrunning : m.session.gameState = .running := rfl
  exact ⟨hrunning, (listener_hears_iff gameSetup false _ (by simp [Stimulus.OneByte])
    hrunning).mpr (by decide)⟩

end LCOMaze
