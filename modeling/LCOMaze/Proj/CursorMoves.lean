import LCOMaze.Proj.MouseStream
import Mathlib.Data.Fin.VecNotation

/-!
# How far a packet moves the cursor

{lit}`game_mouse_handler` runs at every interrupt of the mouse, but {lit}`mouse_packet` changes
at every third one only.  In between the handler adds the displacement of the packet before.

Main results:

- Theorem {lit}`cursor_foldl`: the cursor moves by the packet in force at every byte.
- Theorem {lit}`sum_packetsInForce`: of each packet but the last, three displacements are
  added, and two of the packet that was held at the start.
- Theorem {lit}`cursor_moves_once_iff`: the runs in which the cursor moves by every packet once.
- Theorem {lit}`cursor_moves_twice`: two packets that move the cursor twice as far.
-/

namespace LCOMaze

open Foundations

/-! ## The cursor -/

/-- The position of the cursor. -/
def Machine.cursor (m : Machine) : ℚ × ℚ := (m.globals.player.xMouse, m.globals.player.yMouse)

/-- Half the displacement of a packet; the screen counts downwards. -/
def Packet.displacement (packet : Packet) : ℚ × ℚ :=
  (packet.deltaX.toInt * (1 / 2), -(packet.deltaY.toInt * (1 / 2)))

/-- The interrupt is handled in state {lit}`Game`, and if it is a frame it does not clamp the
cursor. -/
def PlaysUnclamped (setup : Setup) (host : Bool) (m : Machine) (event : Interrupt) : Prop :=
  m.session.state = .game ∧
    ∀ pressed reads, event = .device (.timer pressed reads) →
      (next setup host m event).cursor = m.cursor

/-- The machine after a byte. -/
def Mouse.feed (mouse : Mouse) (byte : UInt8) : Mouse :=
  assemble { mouse with currentByte := byte }

/-- The packet that the handler finds at every byte of a stream. -/
def packetsInForce : Mouse → List UInt8 → List Packet
  | _, [] => []
  | mouse, byte :: bytes => (mouse.feed byte).packet :: packetsInForce (mouse.feed byte) bytes

/-! ## One interrupt -/

section

variable {setup : Setup} {host : Bool} {m : Machine} {event : Interrupt}

/-- A byte of the mouse is fed to the machine. -/
theorem assemble_mouseAfterRead {read : PortAccess × PortAccess} (mouse : Mouse)
    (hread : mouseRead event = some read) (hok : mouseStatusReady read.1 = true) :
    assemble (mouseAfterRead mouse event) = mouse.feed read.2.lsb := by
  rw [mouseAfterRead, hread]
  simp only [mouseIh, hok, if_true]
  rfl

/-- The handler of the mouse adds the displacement of the packet it finds. -/
theorem gameMouseHandler_cursor (packet : Packet) (player : Player) :
    ((gameMouseHandler setup packet player).xMouse,
        (gameMouseHandler setup packet player).yMouse) =
      (player.xMouse, player.yMouse) + packet.displacement := by
  have hmoved : ((moveCursor packet player).xMouse, (moveCursor packet player).yMouse) =
      (player.xMouse, player.yMouse) + packet.displacement := by
    rw [moveCursor, Packet.displacement, Prod.mk_add_mk, sub_eq_add_neg]
  rw [← hmoved, gameMouseHandler]
  split_ifs <;> rfl

/-- In a game, the mouse moves the cursor by the packet in force. -/
theorem next_cursor_mouse (hstate : m.session.state = .game)
    (hmouse : (mouseRead event).isSome = true) :
    (next setup host m event).cursor =
      m.cursor + (next setup host m event).globals.mouse.packet.displacement := by
  cases event with
  | serial ports => cases hmouse
  | device event =>
      cases event with
      | mouse status data =>
          simp only [next, handle, deviceInterrupt, mouseInterrupt]
          rw [show m.globals.session.state = .game from hstate]
          exact gameMouseHandler_cursor _ m.globals.player
      | kbd status data => cases hmouse
      | timer pressed reads => cases hmouse
      | rtc cause read => cases hmouse

/-- Keys move the player, not the cursor. -/
theorem gameKeyboardHandler_cursor {W H : Nat} (lib : MathLib) (maze : Maze W H)
    (kbdValue : UInt8) (player : Player) :
    ((gameKeyboardHandler lib maze kbdValue player).xMouse,
        (gameKeyboardHandler lib maze kbdValue player).yMouse) =
      (player.xMouse, player.yMouse) := by
  simp only [gameKeyboardHandler, movePlayer]
  split_ifs <;> rfl

/-- No other interrupt moves the cursor, unless a frame clamps it. -/
theorem next_cursor_other (h : PlaysUnclamped setup host m event)
    (hmouse : mouseRead event = none) : (next setup host m event).cursor = m.cursor := by
  cases event with
  | serial ports =>
      rw [next, handle, serialInterrupt]
      split_ifs <;> rfl
  | device event =>
      cases event with
      | kbd status data =>
          by_cases hesc : kbdIh status data m.globals.kbdValue = escBreak
          · simp only [next, handle, deviceInterrupt, keyboardInterrupt, hesc, if_true]
            rfl
          · simp only [next, handle, deviceInterrupt, keyboardInterrupt, if_neg hesc]
            rw [if_pos h.1]
            exact gameKeyboardHandler_cursor _ _ _ m.globals.player
      | mouse status data => cases hmouse
      | timer pressed reads => exact h.2 pressed reads rfl
      | rtc cause read => rfl

/-! ## Runs -/

/-- Along a run, the cursor moves by the packet in force at every byte. -/
theorem cursor_foldl {events : List Interrupt}
    (hreads : ∀ event ∈ events, ReadsMouseByte event)
    (hplay : Throughout (next setup host) (PlaysUnclamped setup host) events m) :
    (events.foldl (next setup host) m).cursor =
      m.cursor +
        ((packetsInForce m.globals.mouse (mouseStream events)).map Packet.displacement).sum := by
  induction events generalizing m with
  | nil => exact (add_zero m.cursor).symm
  | cons event events ih =>
      have hrest := ih (fun event hmem => hreads event (List.mem_cons_of_mem _ hmem)) hplay.2
      rw [List.foldl_cons, hrest, mouseStream_cons]
      cases hread : mouseRead event with
      | none =>
          have hmouse : (next setup host m event).globals.mouse = m.globals.mouse := by
            rw [next_mouse, hread]
            rfl
          rw [next_cursor_other hplay.1 hread, hmouse]
          rfl
      | some read =>
          have hsome : (mouseRead event).isSome = true := by rw [hread, Option.isSome_some]
          have hfeed : (next setup host m event).globals.mouse =
              m.globals.mouse.feed read.2.lsb := by
            rw [next_mouse, if_pos hsome]
            exact assemble_mouseAfterRead _ hread (hreads event List.mem_cons_self read hread).1
          rw [next_cursor_mouse hplay.1.1 hsome, hfeed]
          simp only [Option.map_some, Option.toList_some, List.singleton_append, packetsInForce,
            List.map_cons, List.sum_cons, add_assoc]

end

/-! ## Packets in a row -/

/-- The bytes held when another one is stored. -/
def Mouse.store (mouse : Mouse) (byte : UInt8) : Fin 3 → UInt8 :=
  fun i => if i.val = mouse.byteIndex.toNat then byte else mouse.mouseBytes i

/-- A byte that does not complete a packet leaves the packet in force. -/
theorem feed_hold (mouse : Mouse) (byte : UInt8)
    (h : mouse.byteIndex ≠ 0 ∨ canStart byte = true) (hindex : mouse.byteIndex + 1 ≠ 3) :
    mouse.feed byte =
      { mouse with
        currentByte := byte
        byteIndex := mouse.byteIndex + 1
        mouseBytes := mouse.store byte } := by
  rw [Mouse.feed, assemble, syncBytes_take h]
  exact if_neg hindex

/-- The third byte puts a new packet into force. -/
theorem feed_complete (mouse : Mouse) (byte : UInt8) (hindex : mouse.byteIndex = 2) :
    mouse.feed byte =
      { currentByte := byte
        byteIndex := 0
        mouseBytes := mouse.store byte
        packet := packetOf (mouse.store byte) } := by
  have htaken : mouse.byteIndex ≠ 0 ∨ canStart byte = true := by
    rw [hindex]
    exact Or.inl (by decide)
  have hfull : mouse.byteIndex + 1 = 3 := by
    rw [hindex]
    rfl
  rw [Mouse.feed, assemble, syncBytes_take htaken]
  exact if_pos hfull

/-- While a packet comes in, the one before it is in force twice and itself once. -/
theorem packetsInForce_packet {mouse : Mouse} (hindex : mouse.byteIndex = 0)
    {bytes : Fin 3 → UInt8} (hstart : canStart (bytes 0) = true) (stream : List UInt8) :
    ∃ mouse', mouse'.byteIndex = 0 ∧ mouse'.packet = packetOf bytes ∧
      packetsInForce mouse (List.ofFn bytes ++ stream) =
        mouse.packet :: mouse.packet :: packetOf bytes :: packetsInForce mouse' stream := by
  have hfirst := feed_hold mouse (bytes 0) (Or.inr hstart) (by rw [hindex]; decide)
  generalize hone : mouse.feed (bytes 0) = one at hfirst
  have hindex1 : one.byteIndex = 1 := by
    rw [hfirst, hindex]
    rfl
  have hsecond := feed_hold one (bytes 1) (Or.inl (by rw [hindex1]; decide))
    (by rw [hindex1]; decide)
  generalize htwo : one.feed (bytes 1) = two at hsecond
  have hindex2 : two.byteIndex = 2 := by
    rw [hsecond, hindex1]
    rfl
  have hthird := feed_complete two (bytes 2) hindex2
  generalize hthree : two.feed (bytes 2) = three at hthird
  have hbytes : two.store (bytes 2) = bytes := by
    funext i
    rw [Mouse.store, hindex2, hsecond]
    simp only [Mouse.store, hfirst, hindex]
    match i with
    | 0 => rfl
    | 1 => rfl
    | 2 => rfl
  rw [hbytes] at hthird
  have hpacket1 : one.packet = mouse.packet := by rw [hfirst]
  have hpacket2 : two.packet = mouse.packet := by rw [hsecond, hpacket1]
  have hpacket3 : three.packet = packetOf bytes := by rw [hthird]
  refine ⟨three, by rw [hthird], hpacket3, ?_⟩
  simp only [List.ofFn_succ, List.ofFn_zero, List.cons_append, List.nil_append, packetsInForce,
    Fin.succ_zero_eq_one, Fin.succ_one_eq_two, hone, htwo, hthree]
  rw [hpacket1, hpacket2, hpacket3]

/-- Of each packet but the last, three displacements are added, and two of the packet that
was held at the start. -/
theorem sum_packetsInForce {mouse : Mouse} (hindex : mouse.byteIndex = 0)
    {packets : List (Fin 3 → UInt8)} (hpackets : ∀ bytes ∈ packets, canStart (bytes 0) = true)
    (hne : packets ≠ []) :
    let stale := mouse.packet :: packets.dropLast.map packetOf
    ((packetsInForce mouse (packets.map List.ofFn).flatten).map Packet.displacement).sum =
      ((packets.map packetOf).map Packet.displacement).sum +
        ((stale.map Packet.displacement).sum + (stale.map Packet.displacement).sum) := by
  induction packets generalizing mouse with
  | nil => exact absurd rfl hne
  | cons bytes packets ih =>
      rcases packetsInForce_packet hindex (hpackets bytes List.mem_cons_self)
        (packets.map List.ofFn).flatten with ⟨mouse', hindex', hpacket', hforce⟩
      rw [List.map_cons, List.flatten_cons, hforce]
      cases packets with
      | nil =>
          simp only [List.map_nil, List.flatten_nil, packetsInForce, List.map_cons, List.sum_cons,
            List.sum_nil, List.dropLast_singleton]
          abel
      | cons bytes' packets =>
          have hrest := ih hindex' (fun b hmem => hpackets b (List.mem_cons_of_mem _ hmem))
            (List.cons_ne_nil bytes' packets)
          rw [List.dropLast_cons_of_ne_nil (List.cons_ne_nil bytes' packets)]
          rw [hpacket'] at hrest
          simp only [List.map_cons, List.sum_cons] at hrest ⊢
          rw [hrest]
          abel

/-- For every run that reads complete packets, byte by byte and without errors, in state
{lit}`Game` and without a frame that clamps the cursor: the cursor moves by each packet once if
and only if there is no packet, or the packet held at the start and all packets but the last
cancel out. -/
theorem cursor_moves_once_iff (setup : Setup) (host : Bool) (events : List Interrupt)
    (m : Machine) (packets : List (Fin 3 → UInt8)) (hindex : m.globals.mouse.byteIndex = 0)
    (hreads : ∀ event ∈ events, ReadsMouseByte event)
    (hpackets : ∀ bytes ∈ packets, canStart (bytes 0) = true)
    (hstream : mouseStream events = (packets.map List.ofFn).flatten)
    (hplay : Throughout (next setup host) (PlaysUnclamped setup host) events m) :
    (events.foldl (next setup host) m).cursor =
        m.cursor + ((packets.map packetOf).map Packet.displacement).sum ↔
      packets = [] ∨
        ((m.globals.mouse.packet :: packets.dropLast.map packetOf).map
          Packet.displacement).sum = 0 := by
  rw [cursor_foldl hreads hplay, hstream, add_right_inj]
  cases packets with
  | nil => exact ⟨fun _ => Or.inl rfl, fun _ => rfl⟩
  | cons bytes packets =>
      rw [sum_packetsInForce hindex hpackets (List.cons_ne_nil bytes packets),
        add_eq_left, or_iff_right (List.cons_ne_nil bytes packets)]
      constructor
      · intro hsum
        have hx := congrArg Prod.fst hsum
        have hy := congrArg Prod.snd hsum
        rw [Prod.fst_add, Prod.fst_zero] at hx
        rw [Prod.snd_add, Prod.snd_zero] at hy
        exact Prod.ext (add_self_eq_zero.mp hx) (add_self_eq_zero.mp hy)
      · intro hsum
        rw [hsum, add_zero]

/-- The machine in a game, entered through the menu. -/
def inGame : Machine :=
  next gameSetup false (.init gameSetup) (.device (frame (some .singlePlayer)))

/-- Two packets that move the cursor ten pixels to the right each. -/
def twoPackets : List (Fin 3 → UInt8) := [![8, 20, 0], ![8, 20, 0]]

/-- The bytes of these packets, one interrupt for each. -/
def twoPacketsRead : List Interrupt := (twoPackets.map List.ofFn).flatten.map mouseByte

theorem readsMouseByte_twoPackets : ∀ event ∈ twoPacketsRead, ReadsMouseByte event := by
  intro event hevent
  rcases List.mem_map.mp hevent with ⟨byte, -, rfl⟩
  exact readsMouseByte_mouseByte byte

/-- Both begin as packets do. -/
theorem canStart_twoPackets : ∀ bytes ∈ twoPackets, canStart (bytes 0) = true := by
  intro bytes hmem
  have hbytes : bytes = ![8, 20, 0] := by simpa [twoPackets] using hmem
  rw [hbytes]
  rfl

theorem playsUnclamped_twoPackets :
    Throughout (next gameSetup false) (PlaysUnclamped gameSetup false) twoPacketsRead inGame := by
  refine ⟨⟨?_, ?_⟩, ⟨?_, ?_⟩, ⟨?_, ?_⟩, ⟨?_, ?_⟩, ⟨?_, ?_⟩, ⟨?_, ?_⟩, trivial⟩
  all_goals first | rfl | (intro pressed reads hevent; cases hevent)

/-- The two packets move the cursor by forty pixels instead of twenty. -/
theorem cursor_moves_twice :
    ¬∀ (setup : Setup) (host : Bool) (events : List Interrupt) (m : Machine)
      (packets : List (Fin 3 → UInt8)), m.globals.mouse.byteIndex = 0 →
      (∀ event ∈ events, ReadsMouseByte event) →
      (∀ bytes ∈ packets, canStart (bytes 0) = true) →
      mouseStream events = (packets.map List.ofFn).flatten →
      Throughout (next setup host) (PlaysUnclamped setup host) events m →
      (events.foldl (next setup host) m).cursor =
        m.cursor + ((packets.map packetOf).map Packet.displacement).sum := by
  intro hall
  have h := hall gameSetup false twoPacketsRead inGame twoPackets rfl readsMouseByte_twoPackets
    canStart_twoPackets (by decide) playsUnclamped_twoPackets
  exact absurd (congrArg Prod.fst h) (by decide +kernel)

/-- The condition on these packets. -/
theorem cursor_moves_once_iff_twoPackets :
    (twoPacketsRead.foldl (next gameSetup false) inGame).cursor =
        inGame.cursor + ((twoPackets.map packetOf).map Packet.displacement).sum ↔
      twoPackets = [] ∨
        ((inGame.globals.mouse.packet :: twoPackets.dropLast.map packetOf).map
          Packet.displacement).sum = 0 :=
  cursor_moves_once_iff gameSetup false twoPacketsRead inGame twoPackets rfl
    readsMouseByte_twoPackets canStart_twoPackets (by decide) playsUnclamped_twoPackets

end LCOMaze
