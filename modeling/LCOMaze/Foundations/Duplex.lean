import LCOMaze.Foundations.Trace

/-!
# Two parties over lossless channels

Two parties, named by {lean}`Bool`, each with a first-in first-out channel to the other.
A party reacts to an action of its own or to the oldest messages in flight to it, as many
as are handed over together, and its reaction may send messages.

Main results:

- Theorem {lit}`Duplex.invariant_of_map`: an invariant of an abstract pair of parties holds
  of every concrete pair that it simulates.
- Theorem {lit}`Net.absorb_silent`: a reaction that changes and sends nothing is no step.
-/

namespace Foundations

/-- The reactions of both parties: the new state and the messages sent. -/
structure Duplex (σ α β : Type*) where
  act : Bool → σ → α → σ × List β
  receive : Bool → σ → List β → σ × List β

/-- The states of the parties, the messages in flight to each of them, and all messages
that each of them has ever sent. -/
structure Net (σ β : Type*) where
  party : Bool → σ
  inbox : Bool → List β
  sent : Bool → List β

/-- One party acts, or receives the given number of messages together. -/
inductive Move (α : Type*) where
  | act (i : Bool) (action : α)
  | deliver (i : Bool) (count : Nat)

variable {σ τ α α' β : Type*}

/-- The party that moves. -/
def Move.party : Move α → Bool
  | .act i _ => i
  | .deliver i _ => i

namespace Net

/-- The effect of a reaction of one party: its new state, what remains in flight to it,
and what it sends. -/
def absorb (net : Net σ β) (i : Bool) (rest : List β) (reaction : σ × List β) : Net σ β where
  party := fun j => if j = i then reaction.1 else net.party j
  inbox := fun j => if j = i then rest else net.inbox j ++ reaction.2
  sent := fun j => if j = i then net.sent j ++ reaction.2 else net.sent j

section

variable (net : Net σ β) (i : Bool) (rest : List β) (reaction : σ × List β)

@[simp]
theorem absorb_party_self : (net.absorb i rest reaction).party i = reaction.1 := if_pos rfl

@[simp]
theorem absorb_inbox_self : (net.absorb i rest reaction).inbox i = rest := if_pos rfl

@[simp]
theorem absorb_sent_self : (net.absorb i rest reaction).sent i = net.sent i ++ reaction.2 :=
  if_pos rfl

@[simp]
theorem absorb_party_other : (net.absorb i rest reaction).party (!i) = net.party (!i) := by
  simp [absorb]

@[simp]
theorem absorb_inbox_other :
    (net.absorb i rest reaction).inbox (!i) = net.inbox (!i) ++ reaction.2 := by
  simp [absorb]

@[simp]
theorem absorb_sent_other : (net.absorb i rest reaction).sent (!i) = net.sent (!i) := by
  simp [absorb]

end

/-- A reaction that changes and sends nothing is no step. -/
theorem absorb_silent (net : Net σ β) (i : Bool) :
    net.absorb i (net.inbox i) (net.party i, []) = net := by
  rcases net with ⟨party, inbox, sent⟩
  simp only [absorb, List.append_nil, mk.injEq, ite_self, and_true]
  constructor
  · funext j
    split_ifs with h
    · rw [h]
    · rfl
  · funext j
    split_ifs with h
    · rw [h]
    · rfl

/-- Replace the states of the parties. -/
def map (f : σ → τ) (net : Net σ β) : Net τ β := ⟨fun i => f (net.party i), net.inbox, net.sent⟩

theorem map_absorb (f : σ → τ) (net : Net σ β) (i : Bool) (rest : List β)
    (reaction : σ × List β) :
    (net.absorb i rest reaction).map f = (net.map f).absorb i rest (f reaction.1, reaction.2) := by
  simp only [map, absorb, mk.injEq, and_true]
  funext j
  split_ifs <;> rfl

/-- A delivery hands over at least one message, and none that is not in flight. -/
def Enabled (net : Net σ β) : Move α → Prop
  | .act _ _ => True
  | .deliver i count => 0 < count ∧ count ≤ (net.inbox i).length

instance (net : Net σ β) (move : Move α) : Decidable (net.Enabled move) :=
  match move with
  | .act _ _ => isTrue trivial
  | .deliver i count =>
      inferInstanceAs (Decidable (0 < count ∧ count ≤ (net.inbox i).length))

/-- The messages handed over by an enabled delivery begin with the oldest one. -/
theorem Enabled.exists_take {net : Net σ β} {i : Bool} {count : Nat}
    (h : net.Enabled (.deliver i count : Move α)) :
    ∃ message rest, net.inbox i = message :: rest ∧
      (net.inbox i).take count = message :: rest.take (count - 1) ∧
      (net.inbox i).drop count = rest.drop (count - 1) := by
  rcases h with ⟨hpos, hle⟩
  cases hinbox : net.inbox i with
  | nil =>
      rw [hinbox] at hle
      exact absurd hle (Nat.not_le.mpr hpos)
  | cons message rest =>
      rcases Nat.exists_eq_succ_of_ne_zero (Nat.pos_iff_ne_zero.mp hpos) with ⟨n, rfl⟩
      exact ⟨message, rest, rfl, rfl, rfl⟩

end Net

/-- A statement about both parties is one about a party and the other. -/
theorem forall_party_iff {P : Bool → Prop} (i : Bool) : (∀ j, P j) ↔ P i ∧ P (!i) := by
  constructor
  · exact fun h => ⟨h i, h (!i)⟩
  · intro h j
    by_cases hj : j = i
    · exact hj ▸ h.1
    · exact (Bool.eq_not.mpr hj) ▸ h.2

namespace Duplex

/-- One step of the pair. -/
def step (D : Duplex σ α β) (net : Net σ β) : Move α → Net σ β
  | .act i action => net.absorb i (net.inbox i) (D.act i (net.party i) action)
  | .deliver i count =>
      net.absorb i ((net.inbox i).drop count)
        (D.receive i (net.party i) ((net.inbox i).take count))

/-- The move of the abstract pair for a move of the concrete one. -/
def translate (g : Bool → σ → α → α') (net : Net σ β) : Move α → Move α'
  | .act i action => .act i (g i (net.party i) action)
  | .deliver i count => .deliver i count

/-- Simulation: where the reactions of the concrete parties are those of the abstract ones,
an invariant of the abstract pair holds of the concrete pair. -/
theorem invariant_of_map {D : Duplex σ α β} {E : Duplex τ α' β} {f : σ → τ}
    {g : Bool → σ → α → α'} {Good : Net σ β → Prop} {Inv : Net τ β → Prop}
    {P : Net σ β → Move α → Prop} {Q : Net τ β → Move α' → Prop}
    (hgood : ∀ net move, Good net → P net move → Good (D.step net move))
    (hmap : ∀ net move, Good net → P net move →
      (D.step net move).map f = E.step (net.map f) (translate g net move))
    (hguard : ∀ net move, Good net → P net move → Q (net.map f) (translate g net move))
    (hinv : ∀ net move, Inv net → Q net move → Inv (E.step net move))
    {moves : List (Move α)} {net : Net σ β} (hnet : Good net) (hstart : Inv (net.map f))
    (hrun : Throughout D.step P moves net) :
    Good (moves.foldl D.step net) ∧ Inv ((moves.foldl D.step net).map f) := by
  apply Throughout.invariant (fun net => Good net ∧ Inv (net.map f)) _ ⟨hnet, hstart⟩ hrun
  intro net move h hP
  refine ⟨hgood net move h.1 hP, ?_⟩
  rw [hmap net move h.1 hP]
  exact hinv _ _ h.2 (hguard net move h.1 hP)

end Duplex
end Foundations
