import Mathlib.Data.List.Basic

/-!
# Properties of every step of a run

A run is a list of events folded over a deterministic step function.  {lit}`Throughout`
says that a relation between the state met and the event holds at every step.

Main results:

- Theorem {lit}`Throughout.invariant`: what every admitted step preserves holds at the end.
- Theorem {lit}`throughout_congr`: under an invariant, equivalent step conditions are
  equivalent along a run.
- Theorem {lit}`throughout_iff`: a run is good when all its splits are.
- Theorem {lit}`foldl_iff_throughout`: what each step keeps under a condition, a run keeps under it.
- Theorem {lit}`ThroughoutAhead.imp`: the same for conditions on the events to come.
-/

namespace Foundations

variable {σ ε : Type*} {step : σ → ε → σ} {P Q : σ → ε → Prop}

/-- Every event of the run meets a state to which it is related. -/
def Throughout (step : σ → ε → σ) (P : σ → ε → Prop) : List ε → σ → Prop
  | [], _ => True
  | event :: events, s => P s event ∧ Throughout step P events (step s event)

instance instDecidableThroughout [∀ s event, Decidable (P s event)] (events : List ε) (s : σ) :
    Decidable (Throughout step P events s) :=
  match events with
  | [] => isTrue trivial
  | event :: events =>
      have := instDecidableThroughout events (step s event)
      inferInstanceAs (Decidable (P s event ∧ Throughout step P events (step s event)))

@[simp]
theorem throughout_nil (s : σ) : Throughout step P [] s := trivial

@[simp]
theorem throughout_cons (event : ε) (events : List ε) (s : σ) :
    Throughout step P (event :: events) s ↔
      P s event ∧ Throughout step P events (step s event) := Iff.rfl

theorem throughout_append (events events' : List ε) (s : σ) :
    Throughout step P (events ++ events') s ↔
      Throughout step P events s ∧ Throughout step P events' (events.foldl step s) := by
  induction events generalizing s with
  | nil => simp
  | cons event events ih => simp [ih, and_assoc]

/-- The condition at every split of the run into what was, the event and what follows. -/
theorem throughout_iff (events : List ε) (s : σ) :
    Throughout step P events s ↔
      ∀ before event after, events = before ++ event :: after →
        P (before.foldl step s) event := by
  constructor
  · intro h before event after hsplit
    rw [hsplit, throughout_append, throughout_cons] at h
    exact h.2.1
  · intro h
    induction events generalizing s with
    | nil => trivial
    | cons event events ih =>
        refine ⟨h [] event events rfl, ih _ ?_⟩
        intro before next after hsplit
        exact h (event :: before) next after (by rw [hsplit, List.cons_append])

/-- No run violates the trivial condition. -/
theorem throughout_true (events : List ε) (s : σ) :
    Throughout step (fun _ _ => True) events s :=
  (throughout_iff events s).mpr fun _ _ _ _ => trivial

/-- What follows for one step in every state holds of every step of the run. -/
theorem Throughout.mono (himp : ∀ s event, P s event → Q s event) {events : List ε} {s : σ}
    (h : Throughout step P events s) : Throughout step Q events s :=
  (throughout_iff events s).mpr fun before event after hsplit =>
    himp _ event ((throughout_iff events s).mp h before event after hsplit)

/-- Conditions that are equivalent in every state are equivalent along a run. -/
theorem throughout_congr_of_iff (hiff : ∀ s event, P s event ↔ Q s event) {events : List ε}
    {s : σ} : Throughout step P events s ↔ Throughout step Q events s :=
  ⟨Throughout.mono fun s event => (hiff s event).mp,
    Throughout.mono fun s event => (hiff s event).mpr⟩

/-- Under an invariant of the admitted steps, what follows for one step holds of every step
of the run. -/
theorem Throughout.imp (Inv : σ → Prop)
    (hstep : ∀ s event, Inv s → P s event → Inv (step s event))
    (himp : ∀ s event, Inv s → P s event → Q s event) {events : List ε} {s : σ}
    (hs : Inv s) (h : Throughout step P events s) : Throughout step Q events s := by
  induction events generalizing s with
  | nil => trivial
  | cons event events ih => exact ⟨himp s event hs h.1, ih (hstep s event hs h.1) h.2⟩

/-- What every admitted step preserves holds in the last state. -/
theorem Throughout.invariant (Inv : σ → Prop)
    (hstep : ∀ s event, Inv s → P s event → Inv (step s event)) {events : List ε} {s : σ}
    (hs : Inv s) (h : Throughout step P events s) : Inv (events.foldl step s) := by
  induction events generalizing s with
  | nil => exact hs
  | cons event events ih => exact ih (hstep s event hs h.1) h.2

/-- What every step keeps exactly if it meets the condition, a run keeps exactly if all of its steps
meet it. -/
theorem foldl_iff_throughout (Inv flag : σ → Prop)
    (hinv : ∀ s event, Inv s → Inv (step s event))
    (hflag : ∀ s event, Inv s → (flag (step s event) ↔ flag s ∧ P s event)) {events : List ε}
    {s : σ} (hs : Inv s) : flag (events.foldl step s) ↔ flag s ∧ Throughout step P events s := by
  induction events generalizing s with
  | nil => simp
  | cons event events ih =>
      rw [List.foldl_cons, ih (hinv s event hs), hflag s event hs, throughout_cons, and_assoc]

/-- Under an invariant of the admitted steps, equivalent conditions are equivalent along
the run. -/
theorem throughout_congr (Inv : σ → Prop) (R : σ → ε → Prop)
    (hstep : ∀ s event, Inv s → R s event → Inv (step s event))
    (hiff : ∀ s event, Inv s → R s event → (P s event ↔ Q s event)) {events : List ε} {s : σ}
    (hs : Inv s) (h : Throughout step R events s) :
    Throughout step P events s ↔ Throughout step Q events s := by
  induction events generalizing s with
  | nil => exact Iff.rfl
  | cons event events ih =>
      rw [throughout_cons, throughout_cons, hiff s event hs h.1,
        ih (hstep s event hs h.1) h.2]

/-- Every event of the run, with the events behind it, meets a state to which it is related. -/
def ThroughoutAhead (step : σ → ε → σ) (R : σ → ε → List ε → Prop) : List ε → σ → Prop
  | [], _ => True
  | event :: events, s => R s event events ∧ ThroughoutAhead step R events (step s event)

variable {R : σ → ε → List ε → Prop}

/-- The condition at every split of the run. -/
theorem throughoutAhead_iff (events : List ε) (s : σ) :
    ThroughoutAhead step R events s ↔
      ∀ before event after, events = before ++ event :: after →
        R (before.foldl step s) event after := by
  induction events generalizing s with
  | nil => exact iff_of_true trivial fun before event after hsplit => by simp at hsplit
  | cons event events ih =>
      constructor
      · rintro ⟨hfirst, hrest⟩ before next after hsplit
        cases before with
        | nil =>
            rw [List.nil_append, List.cons.injEq] at hsplit
            rcases hsplit with ⟨rfl, rfl⟩
            exact hfirst
        | cons _ before =>
            rw [List.cons_append, List.cons.injEq] at hsplit
            rcases hsplit with ⟨rfl, hsplit⟩
            exact (ih (step s event)).mp hrest before next after hsplit
      · intro h
        refine ⟨h [] event events rfl, (ih (step s event)).mpr ?_⟩
        intro before next after hsplit
        exact h (event :: before) next after (by rw [hsplit, List.cons_append])

/-- Under an invariant of the state and the events to come, what follows for one step holds of
every step of the run. -/
theorem ThroughoutAhead.imp (Inv : σ → List ε → Prop)
    (hstep : ∀ s event events, Inv s (event :: events) → R s event events →
      Inv (step s event) events)
    (himp : ∀ s event events, Inv s (event :: events) → Q s event) {events : List ε} {s : σ}
    (hs : Inv s events) (h : ThroughoutAhead step R events s) : Throughout step Q events s := by
  induction events generalizing s with
  | nil => trivial
  | cons event events ih =>
      exact ⟨himp s event events hs, ih (hstep s event events hs h.1) h.2⟩

end Foundations
