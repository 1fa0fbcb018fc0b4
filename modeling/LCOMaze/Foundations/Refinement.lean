import LCOMaze.Foundations.Trace

/-!
# Components that refine a specification

A component answers calls one after the other, and a call may fault.  A relation between its
states and those of a total specification that every admitted call keeps makes the results of
whole runs agree.

Main results:

- Theorem {lit}`Refines.run`: an admitted run does not fault, returns what the specification
  returns and ends in a related state.
- Theorem {lit}`Refines.run_iff`: where all other calls fault, only admitted runs agree.
-/

namespace Foundations

variable {σ τ ω ρ : Type*}

/-- A run of calls with their results; {lean}`none` is a fault. -/
def runCalls (call : σ → ω → Option (σ × ρ)) : List ω → σ → Option (σ × List ρ)
  | [], s => some (s, [])
  | op :: ops, s =>
      (call s op).bind fun result =>
        (runCalls call ops result.1).map fun rest => (rest.1, result.2 :: rest.2)

/-- The same run of the specification. -/
def specCalls (spec : τ → ω → τ × ρ) : List ω → τ → τ × List ρ
  | [], t => (t, [])
  | op :: ops, t =>
      ((specCalls spec ops (spec t op).1).1, (spec t op).2 :: (specCalls spec ops (spec t op).1).2)

/-- The state of the specification after a call. -/
def specNext (spec : τ → ω → τ × ρ) (t : τ) (op : ω) : τ := (spec t op).1

/-- Every admitted call returns what it returns on the specification, and keeps the relation. -/
def Refines (call : σ → ω → Option (σ × ρ)) (spec : τ → ω → τ × ρ) (Admitted : τ → ω → Prop)
    (R : σ → τ → Prop) : Prop :=
  ∀ s t op, R s t → Admitted t op →
    ∃ s', call s op = some (s', (spec t op).2) ∧ R s' (spec t op).1

section

variable {call : σ → ω → Option (σ × ρ)} {spec : τ → ω → τ × ρ} {Admitted : τ → ω → Prop}
  {R : σ → τ → Prop}

/-- The first call decides how a run goes on. -/
theorem runCalls_cons {op : ω} {s s' : σ} {result : ρ} (h : call s op = some (s', result))
    (ops : List ω) :
    runCalls call (op :: ops) s =
      (runCalls call ops s').map fun rest => (rest.1, result :: rest.2) := by
  rw [runCalls, h, Option.bind_some]

/-- An admitted run does not fault, returns what the specification returns and ends in a
related state. -/
theorem Refines.run (h : Refines call spec Admitted R) {ops : List ω} {s : σ} {t : τ}
    (hs : R s t) (hadmitted : Throughout (specNext spec) Admitted ops t) :
    ∃ s', runCalls call ops s = some (s', (specCalls spec ops t).2) ∧
      R s' (specCalls spec ops t).1 := by
  induction ops generalizing s t with
  | nil => exact ⟨s, rfl, hs⟩
  | cons op ops ih =>
      rcases h s t op hs hadmitted.1 with ⟨s', hcall, hs'⟩
      rcases ih hs' hadmitted.2 with ⟨last, hrun, hlast⟩
      refine ⟨last, ?_, hlast⟩
      rw [runCalls_cons hcall, hrun]
      rfl

/-- Where calls that are not admitted fault, the runs that return what the specification returns
are the admitted ones. -/
theorem Refines.run_iff (h : Refines call spec Admitted R)
    (hfault : ∀ s t op, R s t → ¬Admitted t op → call s op = none) {ops : List ω} {s : σ} {t : τ}
    (hs : R s t) :
    (∃ s', runCalls call ops s = some (s', (specCalls spec ops t).2)) ↔
      Throughout (specNext spec) Admitted ops t := by
  constructor
  · intro hrun
    induction ops generalizing s t with
    | nil => trivial
    | cons op ops ih =>
        rcases hrun with ⟨last, hrun⟩
        by_cases hadmitted : Admitted t op
        · rcases h s t op hs hadmitted with ⟨s', hcall, hs'⟩
          rw [runCalls_cons hcall, Option.map_eq_some_iff] at hrun
          rcases hrun with ⟨⟨final, results⟩, hrest, heq⟩
          simp only [specCalls, Prod.mk.injEq, List.cons.injEq, true_and] at heq
          exact ⟨hadmitted, ih hs' ⟨final, by rw [hrest, heq.2]; rfl⟩⟩
        · rw [runCalls, hfault s t op hs hadmitted] at hrun
          cases hrun
  · intro hadmitted
    rcases h.run hs hadmitted with ⟨s', hrun, -⟩
    exact ⟨s', hrun⟩

end

end Foundations
