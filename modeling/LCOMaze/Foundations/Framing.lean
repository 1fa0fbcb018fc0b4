import Mathlib.Data.List.Basic
import Mathlib.Tactic.Common

/-!
# Packets in a stream

A receiver that starts a packet at an element it recognizes, collects a fixed number of
elements and then starts again.  What it skips are the elements that cannot start a packet,
met while it holds nothing.

Main results:

- Theorem {lit}`framing_collectAll`: the packets collected from a stream are disjoint pieces
  of it, in its order, and nothing else is lost but what cannot start a packet and an
  unfinished packet at the end.
- Theorem {lit}`collectAll_flatten`: a concatenation of packets is collected back.
-/

namespace Foundations

variable {α : Type*} (isStart : α → Bool) (size : Nat)

/-! ## Framed streams -/

/-- A stream read as packets of {lit}`size` elements, each beginning with a start element. -/
inductive Framing : List α → List (List α) → Prop
  | done : Framing [] []
  | skip {b : α} {stream : List α} {packets : List (List α)} (hb : isStart b = false)
      (h : Framing stream packets) : Framing (b :: stream) packets
  | packet {a : α} {rest stream : List α} {packets : List (List α)} (ha : isStart a = true)
      (hrest : (a :: rest).length = size) (h : Framing stream packets) :
      Framing (a :: rest ++ stream) ((a :: rest) :: packets)
  | unfinished {a : α} {rest : List α} (ha : isStart a = true)
      (hrest : (a :: rest).length < size) : Framing (a :: rest) []

/-- A complete packet. -/
def IsPacket (packet : List α) : Prop :=
  ∃ a rest, packet = a :: rest ∧ isStart a = true ∧ packet.length = size

variable {isStart size}

/-! ## The receiver -/

/-- Read one element: what is held afterwards, and the packet that it completes. -/
def collect (isStart : α → Bool) (size : Nat) (held : List α) (b : α) :
    List α × Option (List α) :=
  if held.isEmpty && !isStart b then ([], none)
  else if held.length + 1 = size then ([], some (held ++ [b]))
  else (held ++ [b], none)

/-- The packets completed while a stream is read. -/
def collectAll (isStart : α → Bool) (size : Nat) : List α → List α → List (List α)
  | _, [] => []
  | held, b :: stream =>
      (collect isStart size held b).2.toList ++
        collectAll isStart size (collect isStart size held b).1 stream

/-- What the receiver can hold: nothing, or an unfinished packet. -/
def Holding (isStart : α → Bool) (size : Nat) (held : List α) : Prop :=
  held = [] ∨ ∃ a rest, held = a :: rest ∧ isStart a = true ∧ held.length < size

/-- An element that cannot start a packet is skipped while nothing is held. -/
@[simp]
theorem collect_skip {b : α} (hb : isStart b = false) :
    collect isStart size [] b = ([], none) := by
  simp [collect, hb]

/-- An element that is taken either completes the packet or is held with the others. -/
theorem collect_take {held : List α} {b : α} (h : held ≠ [] ∨ isStart b = true) :
    collect isStart size held b =
      if held.length + 1 = size then ([], some (held ++ [b])) else (held ++ [b], none) := by
  have htaken : (held.isEmpty && !isStart b) = false := by
    rcases h with hheld | hb
    · simp [hheld]
    · simp [hb]
  rw [collect, htaken]
  rfl

theorem Holding.collect (hsize : 0 < size) {held : List α} (h : Holding isStart size held)
    (b : α) : Holding isStart size (Foundations.collect isStart size held b).1 := by
  rcases h with rfl | ⟨a, rest, rfl, ha, hlength⟩
  · cases hb : isStart b with
    | false =>
        rw [collect_skip hb]
        exact Or.inl rfl
    | true =>
        rw [collect_take (Or.inr hb)]
        split_ifs with hfull
        · exact Or.inl rfl
        · refine Or.inr ⟨b, [], rfl, hb, ?_⟩
          simp only [List.length_nil, List.nil_append, List.length_singleton] at hfull ⊢
          omega
  · rw [collect_take (Or.inl (List.cons_ne_nil a rest))]
    split_ifs with hfull
    · exact Or.inl rfl
    · refine Or.inr ⟨a, rest ++ [b], rfl, ha, ?_⟩
      simp only [List.length_cons, List.length_append, List.length_nil] at hfull hlength ⊢
      omega

/-- What is held and what is still to come is framed into the packets collected. -/
theorem framing_append_collectAll {held : List α} (h : Holding isStart size held)
    (hsize : 0 < size) (stream : List α) :
    Framing isStart size (held ++ stream) (collectAll isStart size held stream) := by
  induction stream generalizing held with
  | nil =>
      rw [List.append_nil]
      rcases h with rfl | ⟨a, rest, rfl, ha, hlength⟩
      · exact Framing.done
      · exact Framing.unfinished ha hlength
  | cons b stream ih =>
      have hnext := ih (h.collect hsize b)
      rw [collectAll]
      by_cases htaken : held ≠ [] ∨ isStart b = true
      · rw [collect_take htaken] at hnext ⊢
        split_ifs at hnext ⊢ with hfull
        · -- the element completes the packet that is held
          rcases h with rfl | ⟨a, rest, rfl, ha, -⟩
          · have hb := htaken.resolve_left (not_not_intro rfl)
            have hpacket : Framing isStart size ([b] ++ stream)
                ([b] :: collectAll isStart size [] stream) := Framing.packet hb hfull hnext
            exact hpacket
          · have hpacket : Framing isStart size (a :: (rest ++ [b]) ++ stream)
                ((a :: (rest ++ [b])) :: collectAll isStart size [] stream) :=
              Framing.packet ha (by simpa using hfull) hnext
            simpa using hpacket
        · simpa using hnext
      · rw [not_or, not_not, Bool.not_eq_true] at htaken
        rcases htaken with ⟨rfl, hb⟩
        rw [collect_skip hb] at hnext ⊢
        exact Framing.skip hb hnext

/-- From an empty receiver, the stream is framed into the packets collected. -/
theorem framing_collectAll (hsize : 0 < size) (stream : List α) :
    Framing isStart size stream (collectAll isStart size [] stream) :=
  framing_append_collectAll (Or.inl rfl) hsize stream

/-- The elements that are missing from a packet complete it. -/
theorem collectAll_fill {held missing : List α} (hheld : held ≠ []) (hmissing : missing ≠ [])
    (hlength : held.length + missing.length = size) (stream : List α) :
    collectAll isStart size held (missing ++ stream) =
      (held ++ missing) :: collectAll isStart size [] stream := by
  induction missing generalizing held with
  | nil => exact absurd rfl hmissing
  | cons b missing ih =>
      rw [List.cons_append, collectAll, collect_take (Or.inl hheld)]
      rw [List.length_cons] at hlength
      cases missing with
      | nil =>
          rw [if_pos (by simpa using hlength)]
          rfl
      | cons c missing =>
          rw [if_neg (by rw [List.length_cons] at hlength; omega)]
          have hrest : collectAll isStart size (held ++ [b]) (c :: missing ++ stream) = _ :=
            ih (by simp) (List.cons_ne_nil c missing)
              (by rw [List.length_append, List.length_singleton]; omega)
          rw [List.append_assoc] at hrest
          exact hrest

/-- A complete packet is collected as it is. -/
theorem collectAll_packet {packet : List α} (h : IsPacket isStart size packet)
    (stream : List α) :
    collectAll isStart size [] (packet ++ stream) =
      packet :: collectAll isStart size [] stream := by
  rcases h with ⟨a, rest, rfl, ha, hlength⟩
  rw [List.cons_append, collectAll, collect_take (Or.inr ha)]
  cases rest with
  | nil =>
      rw [if_pos (by simpa using hlength)]
      rfl
  | cons b rest =>
      rw [if_neg (by rw [← hlength]; simp)]
      exact collectAll_fill (List.cons_ne_nil a []) (List.cons_ne_nil b rest)
        (by simpa [Nat.add_comm] using hlength) stream

/-- A concatenation of packets is collected back. -/
theorem collectAll_flatten {packets : List (List α)}
    (h : ∀ packet ∈ packets, IsPacket isStart size packet) :
    collectAll isStart size [] packets.flatten = packets := by
  induction packets with
  | nil => rfl
  | cons packet packets ih =>
      rw [List.flatten_cons, collectAll_packet (h packet List.mem_cons_self),
        ih fun packet hmem => h packet (List.mem_cons_of_mem _ hmem)]

end Foundations
