import Mathlib.Data.Nat.Notation

/-!
# Loops over a 16-bit counter

A C loop {lit}`for (uint16_t i = start; i < bound; i++)` whose bound is a wider integer and
whose body may return from the function.  The counter wraps round to 0, so the loop may run
forever; it is run with explicit fuel, and {lit}`none` means that the fuel ran out in this loop
or in one inside its body.

Main results:

- Theorem {lit}`forUInt16_total`: a property of the counter and the state that each iteration
  carries on, or leaves with a returned value, gives a result.  The counter has to be below its
  maximum only where an iteration goes on.
- Theorem {lit}`forUInt16_diverges`: a loop that never returns and whose bound no counter
  reaches does not end.
-/

namespace Foundations

variable {σ ρ : Type}

/-- Run {lit}`for (uint16_t i = start; i < bound; i++) body` for at most {lit}`fuel` iterations.
The body yields the new state, and {lit}`some` if it returns from the function. -/
def forUInt16 (bound : Nat) (body : UInt16 → σ → Option (σ × Option ρ)) :
    Nat → UInt16 → σ → Option (σ × Option ρ)
  | 0, i, s => if i.toNat < bound then none else some (s, none)
  | fuel + 1, i, s =>
      if i.toNat < bound then
        match body i s with
        | none => none
        | some (s, none) => forUInt16 bound body fuel (i + 1) s
        | some (s, some result) => some (s, some result)
      else some (s, none)

/-- {lit}`run` returns {lit}`r` once it has enough fuel. -/
def Returns {α : Type} (run : Nat → Option α) (r : α) : Prop :=
  ∃ enough, ∀ fuel, enough ≤ fuel → run fuel = some r

/-- It returns one value only. -/
theorem Returns.unique {α : Type} {run : Nat → Option α} {r r' : α} (h : Returns run r)
    (h' : Returns run r') : r = r' := by
  rcases h with ⟨n, hn⟩
  rcases h' with ⟨n', hn'⟩
  have heq := hn (max n n') (Nat.le_max_left n n')
  rw [hn' (max n n') (Nat.le_max_right n n'), Option.some.injEq] at heq
  exact heq.symm

variable {bound : Nat} {body : UInt16 → σ → Option (σ × Option ρ)}

/-- A loop whose counter has reached the bound ends at once. -/
theorem forUInt16_of_le {i : UInt16} (h : bound ≤ i.toNat) (fuel : Nat) (s : σ) :
    forUInt16 bound body fuel i s = some (s, none) := by
  have hstop : ¬i.toNat < bound := Nat.not_lt.mpr h
  cases fuel with
  | zero => exact if_neg hstop
  | succ fuel => exact if_neg hstop

/-- One iteration that goes on. -/
theorem forUInt16_next {i : UInt16} {s t : σ} (h : i.toNat < bound)
    (hbody : body i s = some (t, none)) (fuel : Nat) :
    forUInt16 bound body (fuel + 1) i s = forUInt16 bound body fuel (i + 1) t := by
  rw [forUInt16, if_pos h, hbody]

/-- One iteration that returns. -/
theorem forUInt16_return {i : UInt16} {s t : σ} {result : ρ} (h : i.toNat < bound)
    (hbody : body i s = some (t, some result)) (fuel : Nat) :
    forUInt16 bound body (fuel + 1) i s = some (t, some result) := by
  rw [forUInt16, if_pos h, hbody]

/-- Below its maximum the counter does not wrap. -/
theorem toNat_succ {i : UInt16} (h : i.toNat + 1 < 65536) : (i + 1).toNat = i.toNat + 1 := by
  rw [UInt16.toNat_add, UInt16.toNat_one]
  exact Nat.mod_eq_of_lt h

/-- Total correctness: each iteration either returns, or goes on with the invariant from a
counter that does not wrap. -/
theorem forUInt16_total (Inv : Nat → σ → Prop) (Exit : σ → ρ → Prop) {start : UInt16}
    (hstep : ∀ i s, start.toNat ≤ i.toNat → i.toNat < bound → Inv i.toNat s →
      (∃ t result, body i s = some (t, some result) ∧ Exit t result) ∨
        ∃ t, body i s = some (t, none) ∧ i.toNat + 1 < 65536 ∧ Inv (i.toNat + 1) t)
    {fuel : Nat} (hfuel : bound - start.toNat ≤ fuel) {s : σ} (hs : Inv start.toNat s) :
    (∃ t result, forUInt16 bound body fuel start s = some (t, some result) ∧ Exit t result) ∨
      ∃ t, forUInt16 bound body fuel start s = some (t, none) ∧
        Inv (max start.toNat bound) t := by
  have hloop : ∀ (fuel : Nat) (i : UInt16) (s : σ), start.toNat ≤ i.toNat →
      i.toNat ≤ max start.toNat bound → bound - i.toNat ≤ fuel → Inv i.toNat s →
      (∃ t result, forUInt16 bound body fuel i s = some (t, some result) ∧ Exit t result) ∨
        ∃ t, forUInt16 bound body fuel i s = some (t, none) ∧
          Inv (max start.toNat bound) t := by
    intro fuel
    induction fuel with
    | zero =>
        intro i s hstart hmax hfuel hs
        have hend : i.toNat = max start.toNat bound := by omega
        exact Or.inr ⟨s, forUInt16_of_le (by omega) 0 s, hend ▸ hs⟩
    | succ fuel ih =>
        intro i s hstart hmax hfuel hs
        by_cases hlt : i.toNat < bound
        · rcases hstep i s hstart hlt hs with ⟨t, result, hbody, hexit⟩ | ⟨t, hbody, hwrap, ht⟩
          · exact Or.inl ⟨t, result, forUInt16_return hlt hbody fuel, hexit⟩
          · rw [forUInt16_next hlt hbody]
            rw [← toNat_succ hwrap] at ht
            have hnext := toNat_succ hwrap
            exact ih (i + 1) t (by omega) (by omega) (by omega) ht
        · have hend : i.toNat = max start.toNat bound := by omega
          exact Or.inr ⟨s, forUInt16_of_le (Nat.not_lt.mp hlt) _ s, hend ▸ hs⟩
  exact hloop fuel start s (Nat.le_refl _) (Nat.le_max_left _ _) hfuel hs

/-- A loop that never returns and whose bound no counter reaches runs forever. -/
theorem forUInt16_diverges (hbound : 65535 < bound)
    (hbody : ∀ i s t result, body i s ≠ some (t, some result)) (fuel : Nat) (i : UInt16)
    (s : σ) : forUInt16 bound body fuel i s = none := by
  have hlt : ∀ i : UInt16, i.toNat < bound := fun i => by
    have hmax := i.toNat_lt
    omega
  induction fuel generalizing i s with
  | zero => exact if_pos (hlt i)
  | succ fuel ih =>
      rw [forUInt16, if_pos (hlt i)]
      cases hrun : body i s with
      | none => rfl
      | some next =>
          rcases next with ⟨t, _ | result⟩
          · exact ih (i + 1) t
          · exact absurd hrun (hbody i s t result)

end Foundations
