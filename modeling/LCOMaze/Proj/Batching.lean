import LCOMaze.Foundations.Trace
import LCOMaze.Proj.MainLoop

/-!
# Batches of received bytes

Bytes that are pending together reach the main loop in one serial interrupt.  A run with
batches is compared with the run in which each byte has an interrupt of its own.

Main results:

- Theorem {lit}`Interchangeable.serial`: a batch whose bytes after the first have no effect
  in turn acts like its bytes one by one.
- Theorem {lit}`batching_agrees_iff`: all groupings of a run agree with it exactly when every
  byte that follows another one has no effect in its turn.
- Theorem {lit}`batching_disagrees`: a lost {lit}`'L'`.
-/

namespace LCOMaze

open Foundations

/-! ## Runs with batches -/

/-- An event of a run: a local device, or a serial interrupt with these bytes pending. -/
inductive Stimulus where
  | device (event : DeviceInterrupt)
  | serial (batch : List UInt8)

/-- The interrupt of the main loop. -/
def Stimulus.interrupt : Stimulus → Interrupt
  | .device event => .device event
  | .serial batch => .serial (uartReads batch)

/-- The bytes of a batch, each with an interrupt of its own. -/
def Stimulus.oneByOne : Stimulus → List Stimulus
  | .device event => [.device event]
  | .serial batch => batch.map fun c => .serial [c]

/-- A batch has one byte to as many as the queue holds, all of the protocol. -/
def Stimulus.Admissible : Stimulus → Prop
  | .device _ => True
  | .serial batch =>
      batch ≠ [] ∧ batch.length ≤ bufferSize ∧ ∀ c ∈ batch, c ∈ protocolBytes

/-- The machine and the bytes sent after some events. -/
def runStimuli (setup : Setup) (host : Bool) (stimuli : List Stimulus) (m : Machine) :
    Machine × List UInt8 :=
  handleAll setup host (stimuli.map Stimulus.interrupt) m

/-- What is compared: {lit}`gameState`, {lit}`won` and the bytes sent. -/
def effects (r : Machine × List UInt8) : GameState × Bool × List UInt8 :=
  (r.1.session.gameState, r.1.session.won, r.2)

/-- Every grouping of a stream of single bytes into batches agrees with it, after each of
its events. -/
def GroupingsAgree (setup : Setup) (host : Bool) (singles : List Stimulus) : Prop :=
  ∀ grouped : List Stimulus, (∀ stimulus ∈ grouped, stimulus.Admissible) →
    grouped.flatMap Stimulus.oneByOne = singles →
    ∀ handled, handled <+: grouped →
      effects (runStimuli setup host handled (.init setup)) =
        effects (runStimuli setup host (handled.flatMap Stimulus.oneByOne) (.init setup))

/-- A byte that directly follows another one has no effect in its turn. -/
def FollowersIneffective (setup : Setup) (host : Bool) (singles : List Stimulus)
    (m : Machine) : Prop :=
  ∀ before b c after, singles = before ++ .serial [b] :: .serial [c] :: after →
    ¬Effective host c (runStimuli setup host (before ++ [.serial [b]]) m).1.session

theorem runStimuli_append (setup : Setup) (host : Bool) (stimuli stimuli' : List Stimulus)
    (m : Machine) :
    runStimuli setup host (stimuli ++ stimuli') m =
      ((runStimuli setup host stimuli' (runStimuli setup host stimuli m).1).1,
        (runStimuli setup host stimuli m).2 ++
          (runStimuli setup host stimuli' (runStimuli setup host stimuli m).1).2) := by
  rw [runStimuli, List.map_append, handleAll_append]
  rfl

theorem FollowersIneffective.tail {setup : Setup} {host : Bool} {stimulus : Stimulus}
    {singles : List Stimulus} {m : Machine}
    (h : FollowersIneffective setup host (stimulus :: singles) m) :
    FollowersIneffective setup host singles (runStimuli setup host [stimulus] m).1 := by
  intro before b c after hsplit
  have hinert := h (stimulus :: before) b c after (by rw [hsplit, List.cons_append])
  rw [List.cons_append, ← List.singleton_append, runStimuli_append] at hinert
  exact hinert

theorem FollowersIneffective.of_append {setup : Setup} {host : Bool}
    {first singles : List Stimulus} {m : Machine}
    (h : FollowersIneffective setup host (first ++ singles) m) :
    FollowersIneffective setup host first m := by
  intro before b c after hsplit
  exact h before b c (after ++ singles) (by simp [hsplit])

theorem FollowersIneffective.drop {setup : Setup} {host : Bool}
    {first singles : List Stimulus} {m : Machine}
    (h : FollowersIneffective setup host (first ++ singles) m) :
    FollowersIneffective setup host singles (runStimuli setup host first m).1 := by
  induction first generalizing m with
  | nil => exact h
  | cons stimulus first ih =>
      have hdrop := ih h.tail
      rw [← List.singleton_append, runStimuli_append]
      exact hdrop

/-! ## Machines that differ in the received byte only -/

/-- Two machines that differ at most in the byte received last. -/
structure Interchangeable (m m' : Machine) : Prop where
  globals : m.globals = m'.globals
  ready : m.Ready
  ready' : m'.Ready
  byte : m.c ≠ 0
  byte' : m'.c ≠ 0

theorem Interchangeable.init (setup : Setup) :
    Interchangeable (.init setup) (.init setup) :=
  ⟨rfl, Machine.ready_init setup, Machine.ready_init setup, Machine.init_c setup,
    Machine.init_c setup⟩

/-- A machine after a serial interrupt with bytes pending. -/
theorem runStimuli_serial (setup : Setup) (host : Bool) {m : Machine} (h : m.Ready)
    (hc : m.c ≠ 0) (b : UInt8) (bs : List UInt8) :
    ∃ port, runStimuli setup host [.serial (b :: bs)] m =
      ({ globals := { m.globals with session := (dispatch host b m.session).1 }
         port := port
         c := b }, (dispatch host b m.session).2) ∧
      port.transmitQueue.contents = [] ∧ port.receiveQueue.contents = [] := by
  rcases receive_dispatches setup host h hc b bs with ⟨port, hrun, htransmit, hreceive⟩
  refine ⟨port, ?_, htransmit, hreceive⟩
  simp only [runStimuli, List.map_cons, List.map_nil, Stimulus.interrupt, handleAll, hrun,
    List.append_nil]

/-- Both machines do the same at a local interrupt. -/
theorem Interchangeable.device {m m' : Machine} (h : Interchangeable m m') (setup : Setup)
    (host : Bool) (event : DeviceInterrupt) :
    Interchangeable (runStimuli setup host [.device event] m).1
      (runStimuli setup host [.device event] m').1 ∧
    (runStimuli setup host [.device event] m).2 =
      (runStimuli setup host [.device event] m').2 := by
  simp only [runStimuli, List.map_cons, List.map_nil, Stimulus.interrupt, handleAll, handle,
    h.globals]
  exact ⟨⟨rfl, ⟨h.ready.transmit, h.ready.receive⟩, ⟨h.ready'.transmit, h.ready'.receive⟩,
    h.byte, h.byte'⟩, trivial⟩

/-- Bytes without effect in their turn change nothing but the received byte. -/
theorem Interchangeable.ineffective {m m' : Machine} (h : Interchangeable m m')
    (setup : Setup) (host : Bool) {b : UInt8} {bs : List UInt8}
    (hbytes : ∀ c ∈ bs, c ∈ protocolBytes) {last : Machine}
    (hlast : (runStimuli setup host [.serial [b]] last).1 = m')
    (hinert : FollowersIneffective setup host ((b :: bs).map fun c => .serial [c]) last) :
    Interchangeable m (runStimuli setup host (bs.map fun c => .serial [c]) m').1 ∧
      (runStimuli setup host (bs.map fun c => .serial [c]) m').2 = [] := by
  induction bs generalizing m' b last with
  | nil => exact ⟨h, rfl⟩
  | cons c bs ih =>
      have hc : ¬Effective host c m'.session := by
        have hnow := hinert [] b c (bs.map fun c => .serial [c]) rfl
        rwa [List.nil_append, hlast] at hnow
      rcases runStimuli_serial setup host h.ready' h.byte' c [] with
        ⟨port, hrun, htransmit, hreceive⟩
      rw [dispatch_of_not_effective hc] at hrun
      have hnext : Interchangeable m (runStimuli setup host [.serial [c]] m').1 := by
        rw [hrun]
        exact ⟨h.globals, h.ready, ⟨htransmit, hreceive⟩, h.byte,
          ne_zero_of_mem_protocolBytes (hbytes c List.mem_cons_self)⟩
      have htail := hinert.tail
      rw [hlast] at htail
      rcases ih hnext (fun d hd => hbytes d (List.mem_cons_of_mem c hd)) rfl htail with
        ⟨hend, hsent⟩
      rw [List.map_cons, ← List.singleton_append, runStimuli_append]
      refine ⟨hend, ?_⟩
      rw [hsent, List.append_nil, hrun]

/-- A batch whose bytes after the first have no effect in turn acts like its bytes one
by one. -/
theorem Interchangeable.serial {m m' : Machine} (h : Interchangeable m m') (setup : Setup)
    (host : Bool) {batch : List UInt8} (hbatch : (Stimulus.serial batch).Admissible)
    (hinert : FollowersIneffective setup host (Stimulus.serial batch).oneByOne m') :
    Interchangeable (runStimuli setup host [.serial batch] m).1
      (runStimuli setup host (Stimulus.serial batch).oneByOne m').1 ∧
    (runStimuli setup host [.serial batch] m).2 =
      (runStimuli setup host (Stimulus.serial batch).oneByOne m').2 := by
  rcases hbatch with ⟨hne, -, hbytes⟩
  cases batch with
  | nil => exact absurd rfl hne
  | cons b bs =>
      have hb := ne_zero_of_mem_protocolBytes (hbytes b List.mem_cons_self)
      rcases runStimuli_serial setup host h.ready h.byte b bs with
        ⟨port, hrun, htransmit, hreceive⟩
      rcases runStimuli_serial setup host h.ready' h.byte' b [] with
        ⟨port', hrun', htransmit', hreceive'⟩
      have hfirst : Interchangeable (runStimuli setup host [.serial (b :: bs)] m).1
          (runStimuli setup host [.serial [b]] m').1 := by
        rw [hrun, hrun']
        have hglobals := h.globals
        exact ⟨by simp only [Machine.session, hglobals], ⟨htransmit, hreceive⟩,
          ⟨htransmit', hreceive'⟩, hb, hb⟩
      rcases hfirst.ineffective setup host
          (fun c hc => hbytes c (List.mem_cons_of_mem b hc)) rfl hinert with ⟨hend, hsent⟩
      have hsplit : (Stimulus.serial (b :: bs)).oneByOne =
          [.serial [b]] ++ bs.map fun c => .serial [c] := rfl
      rw [hsplit, runStimuli_append]
      refine ⟨hend, ?_⟩
      rw [hsent, List.append_nil, hrun, hrun']
      simp only [Machine.session, h.globals]

/-- Protocol bytes keep the machine listening. -/
theorem Interchangeable.listening {m : Machine} (h : Interchangeable m m) (setup : Setup)
    (host : Bool) {stimuli : List Stimulus}
    (hadmissible : ∀ stimulus ∈ stimuli, stimulus.Admissible) :
    Interchangeable (runStimuli setup host stimuli m).1
      (runStimuli setup host stimuli m).1 := by
  induction stimuli generalizing m with
  | nil => exact h
  | cons stimulus stimuli ih =>
      have hfirst : Interchangeable (runStimuli setup host [stimulus] m).1
          (runStimuli setup host [stimulus] m).1 := by
        cases stimulus with
        | device event => exact (h.device setup host event).1
        | serial batch =>
            rcases hadmissible _ List.mem_cons_self with ⟨hne, -, hbytes⟩
            cases batch with
            | nil => exact absurd rfl hne
            | cons b bs =>
                rcases runStimuli_serial setup host h.ready h.byte b bs with
                  ⟨port, hrun, htransmit, hreceive⟩
                rw [hrun]
                have hb := ne_zero_of_mem_protocolBytes (hbytes b List.mem_cons_self)
                exact ⟨rfl, ⟨htransmit, hreceive⟩, ⟨htransmit, hreceive⟩, hb, hb⟩
      rw [← List.singleton_append, runStimuli_append]
      exact ih hfirst fun next hnext => hadmissible next (List.mem_cons_of_mem _ hnext)

/-- Along a run, batches act like their bytes one by one. -/
theorem Interchangeable.run {setup : Setup} {host : Bool} {handled : List Stimulus}
    {m m' : Machine} (h : Interchangeable m m')
    (hadmissible : ∀ stimulus ∈ handled, stimulus.Admissible)
    (hinert : FollowersIneffective setup host (handled.flatMap Stimulus.oneByOne) m') :
    Interchangeable (runStimuli setup host handled m).1
      (runStimuli setup host (handled.flatMap Stimulus.oneByOne) m').1 ∧
    (runStimuli setup host handled m).2 =
      (runStimuli setup host (handled.flatMap Stimulus.oneByOne) m').2 := by
  induction handled generalizing m m' with
  | nil => exact ⟨h, rfl⟩
  | cons stimulus handled ih =>
      rw [List.flatMap_cons] at hinert
      have hfirst : Interchangeable (runStimuli setup host [stimulus] m).1
            (runStimuli setup host stimulus.oneByOne m').1 ∧
          (runStimuli setup host [stimulus] m).2 =
            (runStimuli setup host stimulus.oneByOne m').2 := by
        cases stimulus with
        | device event => exact h.device setup host event
        | serial batch =>
            exact h.serial setup host (hadmissible _ List.mem_cons_self) hinert.of_append
      rcases ih hfirst.1 (fun next hnext => hadmissible next (List.mem_cons_of_mem _ hnext))
        hinert.drop with ⟨hend, hsent⟩
      rw [List.flatMap_cons, ← List.singleton_append, runStimuli_append, runStimuli_append]
      exact ⟨hend, by rw [hfirst.2, hsent]⟩

/-! ## Groupings -/

/-- A run in which every serial interrupt has one pending byte. -/
def IsSingle : Stimulus → Prop
  | .device _ => True
  | .serial batch => ∃ c ∈ protocolBytes, batch = [c]

theorem IsSingle.oneByOne {stimulus : Stimulus} (h : IsSingle stimulus) :
    stimulus.oneByOne = [stimulus] := by
  cases stimulus with
  | device event => rfl
  | serial batch =>
      rcases h with ⟨c, -, rfl⟩
      rfl

theorem IsSingle.admissible {stimulus : Stimulus} (h : IsSingle stimulus) :
    stimulus.Admissible := by
  cases stimulus with
  | device event => trivial
  | serial batch =>
      rcases h with ⟨c, hc, rfl⟩
      exact ⟨List.cons_ne_nil c [], by simp [bufferSize], by simpa using hc⟩

theorem IsSingle.mem_protocolBytes {c : UInt8} (h : IsSingle (.serial [c])) :
    c ∈ protocolBytes := by
  rcases h with ⟨d, hd, hcd⟩
  cases hcd
  exact hd

/-- Two bytes of the protocol fit into one batch. -/
theorem admissible_pair {b c : UInt8} (hb : b ∈ protocolBytes) (hc : c ∈ protocolBytes) :
    (Stimulus.serial [b, c]).Admissible := by
  refine ⟨List.cons_ne_nil b [c], by simp [bufferSize], ?_⟩
  intro d hd
  rw [List.mem_cons, List.mem_singleton] at hd
  rcases hd with rfl | rfl
  · exact hb
  · exact hc

theorem flatMap_oneByOne_of_single {singles : List Stimulus}
    (h : ∀ stimulus ∈ singles, IsSingle stimulus) :
    singles.flatMap Stimulus.oneByOne = singles := by
  induction singles with
  | nil => rfl
  | cons stimulus singles ih =>
      rw [List.flatMap_cons, (h stimulus List.mem_cons_self).oneByOne,
        ih fun next hnext => h next (List.mem_cons_of_mem stimulus hnext)]
      rfl

/-- If putting the second of two bytes behind the first in one batch makes no difference,
it has no effect in its turn. -/
theorem not_effective_of_pair {setup : Setup} {host : Bool} {m : Machine} (h : m.Ready)
    (hc : m.c ≠ 0) {b c : UInt8} (hb : b ≠ 0) {sent : List UInt8}
    (hagree : effects ((runStimuli setup host [.serial [b, c]] m).1,
        sent ++ (runStimuli setup host [.serial [b, c]] m).2) =
      effects ((runStimuli setup host [.serial [b], .serial [c]] m).1,
        sent ++ (runStimuli setup host [.serial [b], .serial [c]] m).2)) :
    ¬Effective host c (runStimuli setup host [.serial [b]] m).1.session := by
  rcases runStimuli_serial setup host h hc b [c] with ⟨port, hrun, -⟩
  rcases runStimuli_serial setup host h hc b [] with ⟨port', hrun', htransmit', hreceive'⟩
  have hready : (runStimuli setup host [.serial [b]] m).1.Ready := by
    rw [hrun']
    exact ⟨htransmit', hreceive'⟩
  have hbyte : (runStimuli setup host [.serial [b]] m).1.c ≠ 0 := by
    rw [hrun']
    exact hb
  rcases runStimuli_serial setup host hready hbyte c [] with ⟨port'', hrun'', -⟩
  have hsplit : ([.serial [b], .serial [c]] : List Stimulus) = [.serial [b]] ++ [.serial [c]] :=
    rfl
  rw [← dispatch_invisible_iff]
  rw [hsplit, runStimuli_append, hrun'', hrun, hrun'] at hagree
  simp only [effects, Prod.mk.injEq, Machine.session, List.append_cancel_left_eq,
    List.self_eq_append_right] at hagree
  rw [hrun']
  exact ⟨hagree.1.symm, hagree.2.1.symm, hagree.2.2⟩

theorem Interchangeable.effects_eq {m m' : Machine} {sent sent' : List UInt8}
    (h : Interchangeable m m' ∧ sent = sent') : effects (m, sent) = effects (m', sent') := by
  rcases h with ⟨h, rfl⟩
  simp only [effects, Machine.session, h.globals]

/-- All groupings of a run agree with it, after each of their events, if and only if every
byte that directly follows another one has no effect in its turn. -/
theorem batching_agrees_iff (setup : Setup) (host : Bool) (singles : List Stimulus)
    (hsingle : ∀ stimulus ∈ singles, IsSingle stimulus) :
    GroupingsAgree setup host singles ↔
      FollowersIneffective setup host singles (.init setup) := by
  constructor
  · intro hagree before b c after hsplit
    have hmem : ∀ stimulus ∈ before ++ Stimulus.serial [b] :: .serial [c] :: after,
        IsSingle stimulus := hsplit ▸ hsingle
    have hb := (hmem (.serial [b]) (by simp)).mem_protocolBytes
    have hc := (hmem (.serial [c]) (by simp)).mem_protocolBytes
    -- the grouping that puts just these two bytes into one batch
    have hgrouped : ∀ stimulus ∈ before ++ Stimulus.serial [b, c] :: after,
        stimulus.Admissible := by
      intro stimulus hstimulus
      rw [List.mem_append, List.mem_cons] at hstimulus
      rcases hstimulus with hbefore | rfl | hafter
      · exact (hmem stimulus (by simp [hbefore])).admissible
      · exact admissible_pair hb hc
      · exact (hmem stimulus (by simp [hafter])).admissible
    have hbefore : before.flatMap Stimulus.oneByOne = before :=
      flatMap_oneByOne_of_single fun stimulus h => hmem stimulus (by simp [h])
    have hafter : after.flatMap Stimulus.oneByOne = after :=
      flatMap_oneByOne_of_single fun stimulus h => hmem stimulus (by simp [h])
    have hpair := hagree (before ++ Stimulus.serial [b, c] :: after) hgrouped
      (by rw [List.flatMap_append, List.flatMap_cons, hbefore, hafter, hsplit]; rfl)
      (before ++ [.serial [b, c]]) ⟨after, by simp⟩
    have hexpand : (before ++ [Stimulus.serial [b, c]]).flatMap Stimulus.oneByOne =
        before ++ [.serial [b], .serial [c]] := by
      rw [List.flatMap_append, hbefore]
      rfl
    rw [hexpand, runStimuli_append, runStimuli_append] at hpair
    have hstart := (Interchangeable.init setup).listening setup host fun stimulus h =>
      (hmem stimulus (List.mem_append_left _ h)).admissible
    rw [runStimuli_append]
    exact not_effective_of_pair hstart.ready hstart.byte (ne_zero_of_mem_protocolBytes hb) hpair
  · intro hinert grouped hadmissible hsingles handled hprefix
    rcases hprefix with ⟨rest, rfl⟩
    rw [← hsingles, List.flatMap_append] at hinert
    exact Interchangeable.effects_eq ((Interchangeable.init setup).run
      (fun stimulus h => hadmissible stimulus (List.mem_append_left rest h)) hinert.of_append)

/-- A client that gets {lit}`'M'` and {lit}`'L'` in one batch never sees the {lit}`'L'`. -/
theorem batching_disagrees :
    ¬∀ (setup : Setup) (host : Bool) (singles : List Stimulus),
      (∀ stimulus ∈ singles, IsSingle stimulus) → GroupingsAgree setup host singles := by
  intro hall
  have hsingle : ∀ stimulus ∈ [Stimulus.serial [byteM], .serial [byteL]],
      IsSingle stimulus := by
    simp [IsSingle, protocolBytes]
  have hadmissible : ∀ stimulus ∈ [Stimulus.serial [byteM, byteL]], stimulus.Admissible := by
    simp [Stimulus.Admissible, protocolBytes, bufferSize]
  have h := hall gameSetup false _ hsingle _ hadmissible rfl _ List.prefix_rfl
  exact absurd h (by decide)

/-- The condition on three bytes with an ESC between them. -/
theorem batching_agrees_iff_three_bytes :
    let singles : List Stimulus :=
      [.serial [byteM], .serial [byteM], .device escKey, .serial [byteL]]
    GroupingsAgree gameSetup false singles ↔
      FollowersIneffective gameSetup false singles (.init gameSetup) :=
  batching_agrees_iff gameSetup false _ (by simp [IsSingle, protocolBytes])

end LCOMaze
