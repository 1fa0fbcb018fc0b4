import Mathlib.Data.Option.Basic

/-!
# Fuelled while loops

A C loop whose body may fault is run with explicit fuel.  {lit}`none` means that
the body faulted or that the fuel ran out while the condition still held, so a
proof that a loop returns {lit}`some` excludes both.

Main results:

- Theorem {lit}`whileLoop_total`: an invariant and a decreasing measure give a
  result for every fuel that is at least the measure.
- Theorem {lit}`whileLoop_invariant`: what every iteration keeps holds of the result.
- Theorem {lit}`whileLoop_map`: a loop commutes with what its condition and body commute with.
- Theorem {lit}`whileLoop_chosen`: if the body reads a stream of choices in order and can be
  driven through the invariant by some of them, one stream drives the whole loop.
- Theorem {lit}`exists_iterates`: a decreasing measure bounds the number of iterations, and
  {lit}`Iterates.measure` gives it exactly.
- Theorem {lit}`Iterates.simulate`: a loop that simulates another one is as long.
- Theorem {lit}`Records.exists_last`: a loop that is never stuck and whose records are bounded
  comes to an end.
-/

namespace Foundations

variable {σ : Type}

/-- Run {lit}`while (cond) body` for at most {lit}`fuel` iterations. -/
def whileLoop (cond : σ → Bool) (body : σ → Option σ) : Nat → σ → Option σ
  | 0, s => if cond s then none else some s
  | fuel + 1, s =>
      if cond s then (body s).bind (whileLoop cond body fuel) else some s

variable {cond : σ → Bool} {body : σ → Option σ}

/-- A loop whose condition is already false returns at once. -/
theorem whileLoop_of_not_cond {s : σ} (h : cond s = false) (fuel : Nat) :
    whileLoop cond body fuel s = some s := by
  cases fuel <;> simp [whileLoop, h]

/-- One iteration of a loop whose condition holds. -/
theorem whileLoop_succ {s t : σ} (h : cond s = true) (hbody : body s = some t)
    (fuel : Nat) :
    whileLoop cond body (fuel + 1) s = whileLoop cond body fuel t := by
  simp [whileLoop, h, hbody]

/-- Partial correctness: if every iteration keeps the invariant, it holds of the state that the
loop returns, and the condition does not. -/
theorem whileLoop_invariant {Inv : σ → Prop}
    (hstep : ∀ s t, Inv s → cond s = true → body s = some t → Inv t) {fuel : Nat} {s t : σ}
    (hs : Inv s) (h : whileLoop cond body fuel s = some t) : Inv t ∧ cond t = false := by
  induction fuel generalizing s with
  | zero =>
      cases hcond : cond s with
      | false =>
          rw [whileLoop_of_not_cond hcond, Option.some.injEq] at h
          exact h ▸ ⟨hs, hcond⟩
      | true => simp [whileLoop, hcond] at h
  | succ fuel ih =>
      cases hcond : cond s with
      | false =>
          rw [whileLoop_of_not_cond hcond, Option.some.injEq] at h
          exact h ▸ ⟨hs, hcond⟩
      | true =>
          cases hbody : body s with
          | none => simp [whileLoop, hcond, hbody] at h
          | some u =>
              rw [whileLoop_succ hcond hbody] at h
              exact ih (hstep s u hs hcond hbody) h

/-- A map that the condition cannot see and that commutes with the body commutes with the
loop. -/
theorem whileLoop_map {f : σ → σ} (hcond : ∀ s, cond (f s) = cond s)
    (hbody : ∀ s, body (f s) = (body s).map f) (fuel : Nat) (s : σ) :
    whileLoop cond body fuel (f s) = (whileLoop cond body fuel s).map f := by
  induction fuel generalizing s with
  | zero =>
      rw [whileLoop, whileLoop, hcond]
      cases cond s <;> rfl
  | succ fuel ih =>
      rw [whileLoop, whileLoop, hcond, hbody]
      cases cond s with
      | false => rfl
      | true =>
          cases body s with
          | none => rfl
          | some t => exact ih t

/-! ## Counting iterations -/

/-- From {lit}`s` on, {lit}`n` iterations are entered one after the other and lead to
{lit}`t`. -/
inductive Iterates (cond : σ → Bool) (body : σ → Option σ) : Nat → σ → σ → Prop
  | done (s : σ) : Iterates cond body 0 s s
  | step {n : Nat} {s t u : σ} (hcond : cond s = true) (hbody : body s = some t)
      (h : Iterates cond body n t u) : Iterates cond body (n + 1) s u

/-- What every iteration keeps holds after any number of them. -/
theorem Iterates.invariant {Inv : σ → Prop}
    (hstep : ∀ s t, Inv s → cond s = true → body s = some t → Inv t) {n : Nat} {s t : σ}
    (h : Iterates cond body n s t) (hs : Inv s) : Inv t := by
  induction h with
  | done s => exact hs
  | step hcond hbody h ih => exact ih (hstep _ _ hs hcond hbody)

/-- What every iteration uses up counts the iterations. -/
theorem Iterates.measure {Inv : σ → Prop} {measure : σ → Nat}
    (hstep : ∀ s t, Inv s → cond s = true → body s = some t →
      Inv t ∧ measure t + 1 = measure s) {n : Nat} {s t : σ}
    (h : Iterates cond body n s t) (hs : Inv s) : measure t + n = measure s := by
  induction h with
  | done s => rfl
  | step hcond hbody h ih =>
      rcases hstep _ _ hs hcond hbody with ⟨ht, hone⟩
      have hrest := ih ht
      omega

/-- The loop returns the state in which the condition fails for the first time. -/
theorem Iterates.whileLoop_eq {n fuel : Nat} {s t : σ} (h : Iterates cond body n s t)
    (hstop : cond t = false) (hfuel : n ≤ fuel) : whileLoop cond body fuel s = some t := by
  induction h generalizing fuel with
  | done s => exact whileLoop_of_not_cond hstop fuel
  | step hcond hbody h ih =>
      cases fuel with
      | zero => exact absurd hfuel (Nat.not_succ_le_zero _)
      | succ fuel =>
          rw [whileLoop_succ hcond hbody]
          exact ih hstop (Nat.le_of_succ_le_succ hfuel)

/-- A measure that every iteration decreases bounds their number. -/
theorem exists_iterates {Inv : σ → Prop} {measure : σ → Nat}
    (hstep : ∀ s, Inv s → cond s = true →
      ∃ t, body s = some t ∧ Inv t ∧ measure t < measure s) {s : σ} (hs : Inv s) :
    ∃ n t, n ≤ measure s ∧ Iterates cond body n s t ∧ Inv t ∧ cond t = false := by
  induction hmeasure : measure s using Nat.strongRecOn generalizing s with
  | ind m ih =>
      cases hcond : cond s with
      | false => exact ⟨0, s, Nat.zero_le m, .done s, hs, hcond⟩
      | true =>
          rcases hstep s hs hcond with ⟨t, hbody, ht, hlt⟩
          rcases ih (measure t) (hmeasure ▸ hlt) ht rfl with ⟨n, u, hn, hrun, hu, hstop⟩
          exact ⟨n + 1, u, by omega, .step hcond hbody hrun, hu, hstop⟩

/-- Total correctness: the body keeps the invariant, never faults under it and
decreases the measure, so the loop returns a state in which the invariant holds
and the condition does not. -/
theorem whileLoop_total {Inv : σ → Prop} {measure : σ → Nat}
    (hstep : ∀ s, Inv s → cond s = true →
      ∃ t, body s = some t ∧ Inv t ∧ measure t < measure s)
    {fuel : Nat} {s : σ} (hs : Inv s) (hfuel : measure s ≤ fuel) :
    ∃ t, whileLoop cond body fuel s = some t ∧ Inv t ∧ cond t = false := by
  rcases exists_iterates hstep hs with ⟨n, t, hn, hrun, ht, hstop⟩
  exact ⟨t, hrun.whileLoop_eq hstop (Nat.le_trans hn hfuel), ht, hstop⟩

/-- One more iteration at the end. -/
theorem Iterates.snoc {n : Nat} {s t u : σ} (h : Iterates cond body n s t)
    (hcond : cond t = true) (hbody : body t = some u) : Iterates cond body (n + 1) s u := by
  induction h with
  | done s => exact .step hcond hbody (.done u)
  | step hcond' hbody' _ ih => exact .step hcond' hbody' (ih hcond hbody)

/-! ## Recording iterations -/

/-- The iterations from {lit}`start` to a state, with what {lit}`label` reads at the head of
each of them, the newest first. -/
inductive Records {ε : Type} (cond : σ → Bool) (body : σ → Option σ) (label : σ → Option ε)
    (start : σ) : List ε → σ → Prop
  | start : Records cond body label start [] start
  | step {log : List ε} {s t : σ} {e : ε} (h : Records cond body label start log s)
      (hcond : cond s = true) (hlabel : label s = some e) (hbody : body s = some t) :
      Records cond body label start (e :: log) t

variable {ε : Type} {label : σ → Option ε} {start : σ}

/-- A record has one entry for each iteration. -/
theorem Records.iterates {log : List ε} {s : σ} (h : Records cond body label start log s) :
    Iterates cond body log.length start s := by
  induction h with
  | start => exact .done start
  | step _ hcond _ hbody ih => exact ih.snoc hcond hbody

/-- What holds at the start and is kept together with the record holds at every head. -/
theorem Records.invariant {Inv : List ε → σ → Prop} (hstart : Inv [] start)
    (hstep : ∀ log s e t, Inv log s → cond s = true → label s = some e → body s = some t →
      Inv (e :: log) t) {log : List ε} {s : σ} (h : Records cond body label start log s) :
    Inv log s := by
  induction h with
  | start => exact hstart
  | step _ hcond hlabel hbody ih => exact hstep _ _ _ _ ih hcond hlabel hbody

/-- If no iteration is stuck and no record is longer than {lit}`bound`, the condition fails in
the end. -/
theorem Records.exists_last {bound : Nat}
    (hbound : ∀ log s, Records cond body label start log s → log.length ≤ bound)
    (hstep : ∀ log s, Records cond body label start log s → cond s = true →
      ∃ e t, label s = some e ∧ body s = some t) :
    ∃ log s, Records cond body label start log s ∧ cond s = false := by
  by_contra hnone
  have hrunning : ∀ log s, Records cond body label start log s → cond s = true := by
    intro log s h
    by_contra hstop
    exact hnone ⟨log, s, h, eq_false_of_ne_true hstop⟩
  have hlong : ∀ n, ∃ log s, Records cond body label start log s ∧ log.length = n := by
    intro n
    induction n with
    | zero => exact ⟨[], start, .start, rfl⟩
    | succ n ih =>
        rcases ih with ⟨log, s, h, hlength⟩
        have hcond := hrunning log s h
        rcases hstep log s h hcond with ⟨e, t, hlabel, hbody⟩
        exact ⟨e :: log, t, h.step hcond hlabel hbody, by rw [List.length_cons, hlength]⟩
  rcases hlong (bound + 1) with ⟨log, s, h, hlength⟩
  have hle := hbound log s h
  omega

/-! ## Loops that read choices -/

/-- How an iteration may read the stream: not at all, or one value of it. -/
def Driven {α : Type} (read : (Nat → α) → σ → Option σ) (calls : σ → Nat) (Allowed : α → Prop)
    (s t : σ) : Prop :=
  (calls t = calls s ∧ ∀ stream, read stream s = some t) ∨
    (calls t = calls s + 1 ∧ ∃ choice, Allowed choice ∧
      ∀ stream, stream (calls s) = choice → read stream s = some t)

/-- Angelic total correctness: whenever the invariant and the condition hold, some value of
the stream makes the body keep the invariant and decrease the measure.  Then one stream makes
the loop return, whatever was read before. -/
theorem whileLoop_chosen {α : Type} {read : (Nat → α) → σ → Option σ} {calls : σ → Nat}
    {Allowed : α → Prop} (idle : α) (hidle : Allowed idle) {Inv : σ → Prop}
    {measure : σ → Nat}
    (hstep : ∀ s, Inv s → cond s = true →
      ∃ t, Driven read calls Allowed s t ∧ Inv t ∧ measure t < measure s)
    {fuel : Nat} {s : σ} (hs : Inv s) (hfuel : measure s ≤ fuel) :
    ∃ chosen : Nat → α, (∀ n, Allowed (chosen n)) ∧ ∃ t, Inv t ∧ cond t = false ∧
      ∀ stream : Nat → α, (∀ n, calls s ≤ n → stream n = chosen n) →
        whileLoop cond (read stream) fuel s = some t := by
  induction fuel generalizing s with
  | zero =>
      cases hcond : cond s with
      | false =>
          exact ⟨fun _ => idle, fun _ => hidle, s, hs, hcond,
            fun _ _ => whileLoop_of_not_cond hcond 0⟩
      | true =>
          rcases hstep s hs hcond with ⟨t, -, -, hlt⟩
          omega
  | succ fuel ih =>
      cases hcond : cond s with
      | false =>
          exact ⟨fun _ => idle, fun _ => hidle, s, hs, hcond,
            fun _ _ => whileLoop_of_not_cond hcond _⟩
      | true =>
          rcases hstep s hs hcond with ⟨t, hdriven, ht, hlt⟩
          rcases ih ht (by omega) with ⟨chosen, hallowed, u, hu, hstop, hrun⟩
          rcases hdriven with ⟨hcalls, hread⟩ | ⟨hcalls, choice, hchoice, hread⟩
          · refine ⟨chosen, hallowed, u, hu, hstop, fun stream hstream => ?_⟩
            rw [whileLoop_succ hcond (hread stream)]
            exact hrun stream fun n hn => hstream n (by omega)
          · -- the value that drives this iteration comes before those that drive the rest
            refine ⟨Function.update chosen (calls s) choice, fun n => ?_, u, hu, hstop,
              fun stream hstream => ?_⟩
            · by_cases hn : n = calls s
              · rw [hn, Function.update_self]
                exact hchoice
              · rw [Function.update_of_ne hn]
                exact hallowed n
            · have hfirst := hstream (calls s) (Nat.le_refl _)
              rw [Function.update_self] at hfirst
              rw [whileLoop_succ hcond (hread stream hfirst)]
              refine hrun stream fun n hn => ?_
              rw [hstream n (by omega), Function.update_of_ne (by omega)]

end Foundations
