import LCOMaze.Foundations.Trace
import LCOMaze.Proj.MainLoop

/-!
# Single-player games and received bytes

Two continuations of one run share their local interrupts and differ in what the serial
port delivers.  A continuation without its serial interrupts is called silent.

Main results:

- Theorem {lit}`alone_reachable`: what every machine that plays alone satisfies.
- Theorem {lit}`Alone.effective_iff`: in such a game only an {lit}`'L'` while it runs and an
  {lit}`'S'` at a host that has finished are not ignored.
- Theorem {lit}`single_player_isolated_iff`: harmless bytes are exactly those that cannot be
  told from silence.
- Theorem {lit}`single_player_not_isolated`: an {lit}`'L'` ends a single-player game.
-/

namespace LCOMaze

open Foundations

/-! ## Playing alone -/

/-- The session of a single-player game. -/
structure Alone (s : Session) : Prop where
  state : s.state = .game
  single : s.isMultiplayer = false
  started : s.gameState ≠ .waiting

/-- Only a multiplayer game waits. -/
def WaitsForPeer (s : Session) : Prop :=
  s.state = .game → s.gameState = .waiting → s.isMultiplayer = true

theorem WaitsForPeer.perform {s : Session} (h : WaitsForPeer s) (host : Bool)
    (action : Session.Action) : WaitsForPeer (s.perform host action).1 := by
  have hperforms := Session.performs host action s
  generalize s.perform host action = result at hperforms ⊢
  cases hperforms with
  | unchanged => exact h
  | esc =>
      intro hstate
      cases hstate
  | singlePlayer =>
      intro _ hwaiting
      cases hwaiting
  | multiplePlayer => exact fun _ _ => rfl
  | howTo =>
      intro hstate
      cases hstate
  | win =>
      intro _ hwaiting
      cases hwaiting

theorem WaitsForPeer.dispatch {s : Session} (h : WaitsForPeer s) (host : Bool) (c : UInt8) :
    WaitsForPeer (dispatch host c s).1 := by
  rcases dispatch_cases host c s with ⟨-, hrun⟩ | ⟨-, hrun⟩ | ⟨-, hrun⟩ | ⟨-, -, -, hrun⟩
  · rw [hrun]
    intro _ hwaiting
    cases hwaiting
  · rw [hrun]
    intro _ hwaiting
    cases hwaiting
  · rw [hrun]
    intro _ hwaiting
    cases hwaiting
  · rw [hrun]
    exact h

/-- The session after any interrupt. -/
theorem next_session (setup : Setup) (host : Bool) {m : Machine} (h : m.Ready)
    (event : Interrupt) :
    (∃ action, (next setup host m event).session = (m.session.perform host action).1) ∨
      ∃ c, (next setup host m event).session = (dispatch host c m.session).1 := by
  cases event with
  | device event =>
      left
      refine ⟨deviceAction setup event m.globals, ?_⟩
      rw [← deviceInterrupt_session setup host event m.globals]
      rfl
  | serial ports =>
      by_cases hc : m.c = 0
      · left
        refine ⟨.idle, ?_⟩
        rw [next, handle, serialInterrupt_of_zero host ports hc]
        rfl
      · right
        rcases serialInterrupt_spec host ports h hc with ⟨port, hrun, -⟩
        refine ⟨dispatchedByte ports m.c, ?_⟩
        rw [next, handle, hrun]

/-- In every reachable state, a machine that is in a game without a peer has started. -/
theorem alone_reachable (setup : Setup) (host : Bool) (events : List Interrupt) :
    let m := events.foldl (next setup host) (.init setup)
    m.Ready ∧ (m.session.state = .game → m.session.isMultiplayer = false → Alone m.session) := by
  intro m
  have hstep : ∀ (m : Machine) (event : Interrupt), (m.Ready ∧ WaitsForPeer m.session) →
      True → (next setup host m event).Ready ∧ WaitsForPeer (next setup host m event).session := by
    intro m event h _
    refine ⟨next_ready setup host event h.1, ?_⟩
    rcases next_session setup host h.1 event with ⟨action, hsession⟩ | ⟨c, hsession⟩
    · rw [hsession]
      exact h.2.perform host action
    · rw [hsession]
      exact h.2.dispatch host c
  have hall : Throughout (next setup host) (fun _ _ => True) events (.init setup) :=
    throughout_true events _
  have hinit : (Machine.init setup).Ready ∧ WaitsForPeer (Machine.init setup).session := by
    refine ⟨Machine.ready_init setup, ?_⟩
    intro hstate
    cases hstate
  rcases Throughout.invariant (fun m => m.Ready ∧ WaitsForPeer m.session) hstep hinit hall with
    ⟨hready, hwaits⟩
  refine ⟨hready, fun hstate hsingle => ⟨hstate, hsingle, fun hwaiting => ?_⟩⟩
  have hmulti := hwaits hstate hwaiting
  rw [hsingle] at hmulti
  cases hmulti

/-- The byte ends a single-player game that runs, or restarts one that is finished. -/
def Harmful (host : Bool) (c : UInt8) (s : Session) : Prop :=
  (c = byteL ∧ s.gameState = .running) ∨ (c = byteS ∧ host = true ∧ s.gameState = .finish)

/-- In a single-player game only the harmful bytes are not ignored. -/
theorem Alone.effective_iff {s : Session} (h : Alone s) (host : Bool) (c : UInt8) :
    Effective host c s ↔ Harmful host c s := by
  rcases s with ⟨state, isMultiplayer, gameState, won⟩
  rcases h with ⟨hstate, hsingle, hstarted⟩
  simp only at hstate hsingle hstarted
  subst hsingle
  unfold Effective Harmful StartsClient StartsHost EndsGame
  cases gameState with
  | waiting => exact absurd rfl hstarted
  | running => simp
  | finish => simp

/-- Local interrupts other than ESC keep a single-player game. -/
theorem Alone.perform {s : Session} (h : Alone s) (host : Bool) {action : Session.Action}
    (hesc : action ≠ .esc) : Alone (s.perform host action).1 := by
  have hmenu : s.state ≠ .menu := by
    rw [h.state]
    decide
  have hperforms := Session.performs host action s
  generalize s.perform host action = result at hperforms ⊢
  cases hperforms with
  | unchanged => exact h
  | esc => exact absurd rfl hesc
  | singlePlayer hstate => exact absurd hstate hmenu
  | multiplePlayer hstate => exact absurd hstate hmenu
  | howTo hstate => exact absurd hstate hmenu
  | win => exact ⟨h.state, h.single, fun hwaiting => by cases hwaiting⟩

/-! ## Continuations -/

/-- An interrupt of a local device. -/
def Interrupt.isDevice : Interrupt → Bool
  | .device _ => true
  | .serial _ => false

/-- A continuation without its serial interrupts. -/
def silent (events : List Interrupt) : List Interrupt := events.filter Interrupt.isDevice

/-- What a player can see: position, {lit}`gameState` and {lit}`won`. -/
def visible (m : Machine) : (ℚ × ℚ) × GameState × Bool :=
  ((m.globals.player.x, m.globals.player.y), m.session.gameState, m.session.won)

/-- The interrupt is not handled as ESC. -/
def NotEsc (setup : Setup) (m : Machine) (event : Interrupt) : Prop :=
  ∀ device, event = .device device → deviceAction setup device m.globals ≠ .esc

/-- The interrupt does not dispatch a harmful byte. -/
def DispatchesHarmless (host : Bool) (m : Machine) (event : Interrupt) : Prop :=
  ∀ ports, event = .serial ports →
    m.c = 0 ∨ ¬Harmful host (dispatchedByte ports m.c) m.session

/-- After each of its interrupts, the continuation has shown what the local ones show. -/
def LikeSilence (setup : Setup) (host : Bool) (events : List Interrupt) (m : Machine) : Prop :=
  ∀ handled, handled <+: events →
    visible (handled.foldl (next setup host) m) =
      visible ((silent handled).foldl (next setup host) m)

theorem silent_device (event : DeviceInterrupt) (events : List Interrupt) :
    silent (.device event :: events) = .device event :: silent events := rfl

theorem silent_serial (ports : PortScript) (events : List Interrupt) :
    silent (.serial ports :: events) = silent events := rfl

section

variable {setup : Setup} {host : Bool} {m m' : Machine}

/-- A local interrupt does the same whatever the serial port holds. -/
theorem next_device_globals (h : m.globals = m'.globals) (event : DeviceInterrupt) :
    (next setup host m (.device event)).globals = (next setup host m' (.device event)).globals := by
  simp only [next, handle, h]

/-- Without serial interrupts, the serial port never matters. -/
theorem silent_globals (h : m.globals = m'.globals) (events : List Interrupt) :
    ((silent events).foldl (next setup host) m).globals =
      ((silent events).foldl (next setup host) m').globals := by
  induction events generalizing m m' with
  | nil => exact h
  | cons event events ih =>
      cases event with
      | device event =>
          rw [silent_device, List.foldl_cons, List.foldl_cons]
          exact ih (next_device_globals h event)
      | serial ports =>
          rw [silent_serial]
          exact ih h

/-- A machine that plays alone, between two interrupts. -/
structure PlaysAlone (m : Machine) : Prop where
  ready : m.Ready
  alone : Alone m.session

theorem PlaysAlone.device (h : PlaysAlone m) {event : DeviceInterrupt}
    (hesc : NotEsc setup m (.device event)) :
    PlaysAlone (next setup host m (.device event)) := by
  refine ⟨next_ready setup host _ h.ready, ?_⟩
  have hsession := deviceInterrupt_session setup host event m.globals
  have halone := h.alone.perform host (hesc event rfl)
  rw [Machine.session, ← hsession] at halone
  exact halone

/-- A harmless byte leaves all variables but those of the port alone. -/
theorem PlaysAlone.serial_globals (h : PlaysAlone m) {ports : PortScript}
    (hharmless : DispatchesHarmless host m (.serial ports)) :
    (next setup host m (.serial ports)).globals = m.globals := by
  by_cases hc : m.c = 0
  · rw [next, handle, serialInterrupt_of_zero host ports hc]
  · have hquiet := (hharmless ports rfl).resolve_left hc
    rw [← h.alone.effective_iff] at hquiet
    rcases serialInterrupt_spec host ports h.ready hc with ⟨port, hrun, -⟩
    rw [next, handle, hrun, dispatch_of_not_effective hquiet]

/-- A byte that shows nothing is harmless. -/
theorem PlaysAlone.harmless_of_visible (h : PlaysAlone m) {ports : PortScript}
    (hvisible : visible (next setup host m (.serial ports)) = visible m) :
    DispatchesHarmless host m (.serial ports) := by
  intro ports' hports
  cases hports
  by_cases hc : m.c = 0
  · exact Or.inl hc
  · right
    rcases serialInterrupt_spec host ports h.ready hc with ⟨port, hrun, -⟩
    rw [next, handle, hrun] at hvisible
    simp only [visible, Machine.session, Prod.mk.injEq, true_and] at hvisible
    rw [← h.alone.effective_iff, ← dispatch_invisible_iff]
    refine ⟨hvisible.1, hvisible.2, ?_⟩
    have hsingle := h.alone.single
    rcases dispatch_cases host (dispatchedByte ports m.c) m.session with
      ⟨-, hd⟩ | ⟨-, hd⟩ | ⟨-, hd⟩ | ⟨-, -, -, hd⟩ <;> rw [hd]
    · simp [gameActivateMultiplayer, hsingle]
    · simp [gameActivateMultiplayer, hsingle]

theorem PlaysAlone.serial (h : PlaysAlone m) {ports : PortScript}
    (hharmless : DispatchesHarmless host m (.serial ports)) :
    PlaysAlone (next setup host m (.serial ports)) := by
  refine ⟨next_ready setup host _ h.ready, ?_⟩
  rw [Machine.session, h.serial_globals hharmless]
  exact h.alone

/-- With harmless bytes only, the variables are those of the silent continuation. -/
theorem PlaysAlone.globals_eq_silent (h : PlaysAlone m) {events : List Interrupt}
    (hesc : Throughout (next setup host) (NotEsc setup) events m)
    (hharmless : Throughout (next setup host) (DispatchesHarmless host) events m) :
    (events.foldl (next setup host) m).globals =
      ((silent events).foldl (next setup host) m).globals := by
  induction events generalizing m with
  | nil => rfl
  | cons event events ih =>
      cases event with
      | device event => exact ih (h.device hesc.1) hesc.2 hharmless.2
      | serial ports =>
          rw [silent_serial, List.foldl_cons, ih (h.serial hharmless.1) hesc.2 hharmless.2]
          exact silent_globals (h.serial_globals hharmless.1) events

theorem visible_congr (h : m.globals = m'.globals) : visible m = visible m' := by
  simp only [visible, Machine.session, h]

/-- Harmless bytes are exactly those that cannot be told from silence. -/
theorem PlaysAlone.likeSilence_iff (h : PlaysAlone m) {events : List Interrupt}
    (hesc : Throughout (next setup host) (NotEsc setup) events m) :
    LikeSilence setup host events m ↔
      Throughout (next setup host) (DispatchesHarmless host) events m := by
  constructor
  · intro hlike
    induction events generalizing m with
    | nil => trivial
    | cons event events ih =>
        cases event with
        | device event =>
            constructor
            · intro ports hports
              cases hports
            apply ih (h.device hesc.1) hesc.2
            intro handled hprefix
            exact hlike (.device event :: handled) ((List.prefix_cons_inj _).mpr hprefix)
        | serial ports =>
            have hharmless := h.harmless_of_visible (hlike [.serial ports] ⟨events, rfl⟩)
            refine ⟨hharmless, ih (h.serial hharmless) hesc.2 ?_⟩
            intro handled hprefix
            have hnow := hlike (.serial ports :: handled) ((List.prefix_cons_inj _).mpr hprefix)
            rw [silent_serial, List.foldl_cons] at hnow
            rw [hnow]
            exact visible_congr (silent_globals (h.serial_globals hharmless).symm handled)
  · intro hharmless handled hprefix
    rcases hprefix with ⟨rest, rfl⟩
    rw [throughout_append] at hesc hharmless
    exact visible_congr (h.globals_eq_silent hesc.1 hharmless.1)

end

/-- Single-player isolation, from every reachable single-player game on.  A continuation
without ESC shows what its local interrupts show, after each of its interrupts, if and only
if it never dispatches an {lit}`'L'` while the game runs nor, at the host, an {lit}`'S'` once it is
finished; and any two such continuations with the same local interrupts show the same. -/
theorem single_player_isolated_iff (setup : Setup) (host : Bool) (past : List Interrupt)
    (hgame : (past.foldl (next setup host) (.init setup)).session.state = .game)
    (hsingle : (past.foldl (next setup host) (.init setup)).session.isMultiplayer = false)
    (events : List Interrupt)
    (hesc : Throughout (next setup host) (NotEsc setup) events
      (past.foldl (next setup host) (.init setup))) :
    let m := past.foldl (next setup host) (.init setup)
    (LikeSilence setup host events m ↔
      Throughout (next setup host) (DispatchesHarmless host) events m) ∧
    ∀ events', silent events' = silent events →
      Throughout (next setup host) (NotEsc setup) events' m →
      Throughout (next setup host) (DispatchesHarmless host) events m →
      Throughout (next setup host) (DispatchesHarmless host) events' m →
      ∀ handled handled', handled <+: events → handled' <+: events' →
        silent handled = silent handled' →
        visible (handled.foldl (next setup host) m) =
          visible (handled'.foldl (next setup host) m) := by
  intro m
  rcases alone_reachable setup host past with ⟨hready, halone⟩
  have hplays : PlaysAlone m := ⟨hready, halone hgame hsingle⟩
  refine ⟨hplays.likeSilence_iff hesc, ?_⟩
  intro events' _ hesc' hharmless hharmless' handled handled' hprefix hprefix' hsame
  rw [(hplays.likeSilence_iff hesc).mpr hharmless handled hprefix,
    (hplays.likeSilence_iff hesc').mpr hharmless' handled' hprefix', hsame]

/-- An {lit}`'L'` ends a game that was started with the button for a single player. -/
theorem single_player_not_isolated :
    ¬∀ (setup : Setup) (host : Bool) (past events events' : List Interrupt),
      let m := past.foldl (next setup host) (.init setup)
      m.session.state = .game → m.session.isMultiplayer = false →
      silent events = silent events' →
      Throughout (next setup host) (NotEsc setup) events m →
      Throughout (next setup host) (NotEsc setup) events' m →
      ∀ handled handled', handled <+: events → handled' <+: events' →
        silent handled = silent handled' →
        visible (handled.foldl (next setup host) m) =
          visible (handled'.foldl (next setup host) m) := by
  intro hall
  have hesc : Throughout (next gameSetup true) (NotEsc gameSetup)
      [.serial (uartReads [byteL])]
      ([Interrupt.device (frame (some .singlePlayer))].foldl (next gameSetup true)
        (.init gameSetup)) := by
    refine ⟨?_, trivial⟩
    intro device hdevice
    cases hdevice
  have h := hall gameSetup true [.device (frame (some .singlePlayer))]
    [.serial (uartReads [byteL])] [] rfl rfl rfl hesc trivial _ _ List.prefix_rfl
    List.prefix_rfl rfl
  have hstate := congrArg (fun v => v.2.1) h
  exact absurd hstate (by decide)

/-- A client that plays alone, presses W and receives an {lit}`'M'`. -/
theorem single_player_isolated_iff_byteM :
    let key : Interrupt := .device (keyPressed 0x11)
    let events : List Interrupt := [key, .serial (uartReads [byteM])]
    let m := [Interrupt.device (frame (some .singlePlayer))].foldl (next gameSetup false)
      (.init gameSetup)
    (LikeSilence gameSetup false events m ↔
      Throughout (next gameSetup false) (DispatchesHarmless false) events m) ∧
    visible (events.foldl (next gameSetup false) m) =
      visible ([key].foldl (next gameSetup false) m) := by
  intro key events m
  have hkey : NotEsc gameSetup m key := by
    intro device hdevice
    have heq : keyPressed 0x11 = device := Interrupt.device.inj hdevice
    subst heq
    decide
  have hbyte : ∀ m', NotEsc gameSetup m' (.serial (uartReads [byteM])) := by
    intro m' device hdevice
    cases hdevice
  have hkey' : DispatchesHarmless false m key := by
    intro ports hports
    exact Interrupt.noConfusion hports
  have hbyte' : DispatchesHarmless false (next gameSetup false m key)
      (.serial (uartReads [byteM])) := by
    intro ports hports
    cases hports
    right
    rw [Harmful]
    decide
  have h := single_player_isolated_iff gameSetup false
    [.device (frame (some .singlePlayer))] rfl rfl events ⟨hkey, hbyte _, trivial⟩
  exact ⟨h.1, h.2 [key] rfl ⟨hkey, trivial⟩ ⟨hkey', hbyte', trivial⟩ ⟨hkey', trivial⟩
    events [key] List.prefix_rfl List.prefix_rfl rfl⟩

end LCOMaze
