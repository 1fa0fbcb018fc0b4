import LCOMaze.Foundations.Trace

/-!
# Simulations that resolve a choice

A program reads inputs and emits outputs.  A specification leaves some of what the program decides
to its events, so that an input of the program becomes an event only in the state that meets it.
If every step of the program is the step of the specification on that event, a whole run is too.

Main results:

- Theorem {lit}`Simulates.run`: a run of the program is the run of the specification on the events
  that it resolves, with the same outputs.
- Theorem {lit}`runAll_agree`: programs that do the same in related states do the same throughout.
-/

namespace Foundations

variable {σ τ ι ε ω : Type*}

/-- Read one input after the other, with all outputs. -/
def runAll (step : σ → ι → σ × List ω) : List ι → σ → σ × List ω
  | [], s => (s, [])
  | input :: inputs, s =>
      ((runAll step inputs (step s input).1).1,
        (step s input).2 ++ (runAll step inputs (step s input).1).2)

/-- The events that the inputs of a run become. -/
def resolveAll (step : σ → ι → σ × List ω) (resolve : σ → ι → ε) : List ι → σ → List ε
  | [], _ => []
  | input :: inputs, s => resolve s input :: resolveAll step resolve inputs (step s input).1

/-- The program simulates the specification: under its invariant, a step is one of the
specification on the event that the input becomes. -/
structure Simulates (step : σ → ι → σ × List ω) (spec : τ → ε → τ × List ω)
    (resolve : σ → ι → ε) (abs : σ → τ) (Inv : σ → Prop) : Prop where
  agrees : ∀ s input, Inv s → spec (abs s) (resolve s input) =
    (abs (step s input).1, (step s input).2)
  keeps : ∀ s input, Inv s → Inv (step s input).1

section

variable {step : σ → ι → σ × List ω} {spec : τ → ε → τ × List ω} {resolve : σ → ι → ε}
  {abs : σ → τ} {Inv : σ → Prop}

/-- Without its outputs, a run is a fold. -/
theorem runAll_fst (inputs : List ι) (s : σ) :
    (runAll step inputs s).1 = inputs.foldl (fun s input => (step s input).1) s := by
  induction inputs generalizing s with
  | nil => rfl
  | cons input inputs ih => exact ih (step s input).1

/-- The invariant holds after every run. -/
theorem Simulates.invariant (h : Simulates step spec resolve abs Inv) (inputs : List ι) {s : σ}
    (hs : Inv s) : Inv (runAll step inputs s).1 := by
  induction inputs generalizing s with
  | nil => exact hs
  | cons input inputs ih => exact ih (h.keeps s input hs)

/-- A run of the program is the run of the specification on the events that it resolves. -/
theorem Simulates.run (h : Simulates step spec resolve abs Inv) (inputs : List ι) {s : σ}
    (hs : Inv s) :
    runAll spec (resolveAll step resolve inputs s) (abs s) =
      (abs (runAll step inputs s).1, (runAll step inputs s).2) := by
  induction inputs generalizing s with
  | nil => rfl
  | cons input inputs ih =>
      rw [resolveAll, runAll, h.agrees s input hs, ih (h.keeps s input hs)]
      rfl

end

/-! ## Two runs -/

section

variable {step : σ → ι → σ × List ω} {step' : τ → ι → τ × List ω} {R : σ → τ → Prop}
  {P : σ → ι → Prop}

/-- Two programs whose related states have the same outputs and stay related, under a condition
that the first one meets at every step, have the same outputs. -/
theorem runAll_agree
    (hstep : ∀ s t input, R s t → P s input →
      (step s input).2 = (step' t input).2 ∧ R (step s input).1 (step' t input).1)
    {inputs : List ι} {s : σ} {t : τ} (h : R s t)
    (hrun : Throughout (fun s input => (step s input).1) P inputs s) :
    (runAll step inputs s).2 = (runAll step' inputs t).2 ∧
      R (runAll step inputs s).1 (runAll step' inputs t).1 := by
  induction inputs generalizing s t with
  | nil => exact ⟨rfl, h⟩
  | cons input inputs ih =>
      rw [throughout_cons] at hrun
      rcases hstep s t input h hrun.1 with ⟨hout, hnext⟩
      rcases ih hnext hrun.2 with ⟨houts, hlast⟩
      exact ⟨congrArg₂ (· ++ ·) hout houts, hlast⟩

end

end Foundations
