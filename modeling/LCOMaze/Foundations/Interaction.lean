import LCOMaze.Foundations.Trace

/-!
# Programs that make calls

A program is done, or it makes a call and goes on with the answer.  What surrounds it decides the
answers: a run is a list of answered calls, whatever answered them, and an environment with a
state answers all calls of a program in turn.

Main results:

- Theorem {lit}`runs_bind`: a run of two programs in sequence splits into a run of each.
- Theorem {lit}`runs_retry`: the attempts of a bounded retry.
- Theorem {lit}`Always.bind`: what holds at every call of both holds at every call of the sequence.
- Theorem {lit}`Ensures.bind`: the postcondition of the first is the precondition of the second.
- Theorem {lit}`answer_bind`: an environment answers a sequence one program after the other.
-/

namespace Foundations

/-- A program over some calls, each with its type of answers. -/
inductive Interaction (Call : Type) (Answer : Call → Type) (α : Type) where
  | done (result : α)
  | perform (call : Call) (next : Answer call → Interaction Call Answer α)

variable {Call : Type} {Answer : Call → Type} {α β σ : Type}

namespace Interaction

/-- Go on with another program. -/
def andThen : Interaction Call Answer α → (α → Interaction Call Answer β) →
    Interaction Call Answer β
  | .done result, next => next result
  | .perform call rest, next => .perform call fun answer => (rest answer).andThen next

instance : Monad (Interaction Call Answer) where
  pure := .done
  bind := andThen

/-- One call. -/
def call (c : Call) : Interaction Call Answer (Answer c) := .perform c .done

/-! ## Runs -/

/-- The program makes these calls, if they are answered so, and has this result. -/
def Runs : Interaction Call Answer α → List ((c : Call) × Answer c) → α → Prop
  | .done a, events, result => events = [] ∧ result = a
  | .perform c next, events, result =>
      ∃ answer rest, events = ⟨c, answer⟩ :: rest ∧ (next answer).Runs rest result

@[simp]
theorem runs_pure {a result : α} {events : List ((c : Call) × Answer c)} :
    (pure a : Interaction Call Answer α).Runs events result ↔ events = [] ∧ result = a :=
  Iff.rfl

@[simp]
theorem runs_call {c : Call} {answer : Answer c} {events : List ((c : Call) × Answer c)} :
    (call c).Runs events answer ↔ events = [⟨c, answer⟩] := by
  constructor
  · rintro ⟨_, rest, rfl, rfl, rfl⟩
    rfl
  · rintro rfl
    exact ⟨answer, [], rfl, rfl, rfl⟩

/-- A run of a sequence is a run of its first program followed by one of the second. -/
theorem runs_bind {program : Interaction Call Answer α} {next : α → Interaction Call Answer β}
    {events : List ((c : Call) × Answer c)} {result : β} :
    (program >>= next).Runs events result ↔
      ∃ a before after, program.Runs before a ∧ (next a).Runs after result ∧
        events = before ++ after := by
  induction program generalizing events with
  | done a =>
      constructor
      · intro h
        exact ⟨a, [], events, ⟨rfl, rfl⟩, h, rfl⟩
      · rintro ⟨_, _, after, ⟨rfl, rfl⟩, h, rfl⟩
        exact h
  | perform c rest ih =>
      constructor
      · rintro ⟨answer, events, rfl, h⟩
        rcases (ih answer).mp h with ⟨a, before, after, hfirst, hsecond, rfl⟩
        exact ⟨a, _, after, ⟨answer, before, rfl, hfirst⟩, hsecond, rfl⟩
      · rintro ⟨a, _, after, ⟨answer, before, rfl, hfirst⟩, hsecond, rfl⟩
        have hrest := (ih answer).mpr ⟨a, before, after, hfirst, hsecond, rfl⟩
        exact ⟨answer, before ++ after, rfl, hrest⟩

/-- The case of a call and its answer. -/
theorem runs_call_bind {c : Call} {next : Answer c → Interaction Call Answer β}
    {events : List ((c : Call) × Answer c)} {result : β} :
    (call c >>= next).Runs events result ↔
      ∃ answer rest, events = ⟨c, answer⟩ :: rest ∧ (next answer).Runs rest result :=
  Iff.rfl

/-- A run of a choice is a run of what is chosen. -/
theorem runs_ite {c : Prop} [Decidable c] {program other : Interaction Call Answer α}
    {events : List ((c : Call) × Answer c)} {result : α} :
    (if c then program else other).Runs events result ↔
      if c then program.Runs events result else other.Runs events result := by
  split_ifs <;> rfl

/-! ## Bounded retries -/

/-- Try a program at most so many times, until it has a result. -/
def retry : Nat → Interaction Call Answer (Option β) → Interaction Call Answer (Option β)
  | 0, _ => pure none
  | n + 1, attempt => do
      if let some result ← attempt then
        return some result
      retry n attempt

/-- A run of retries is some attempts without a result, and then the one with a result unless the
attempts are used up. -/
theorem runs_retry {n : Nat} {attempt : Interaction Call Answer (Option β)}
    {events : List ((c : Call) × Answer c)} {result : Option β} :
    (retry n attempt).Runs events result ↔
      ∃ rejected : List (List ((c : Call) × Answer c)),
        (∀ run ∈ rejected, attempt.Runs run none) ∧
        ((rejected.length = n ∧ result = none ∧ events = rejected.flatten) ∨
          ∃ b last, rejected.length < n ∧ result = some b ∧ attempt.Runs last (some b) ∧
            events = rejected.flatten ++ last) := by
  induction n generalizing events with
  | zero =>
      constructor
      · rintro ⟨rfl, rfl⟩
        exact ⟨[], by simp, Or.inl ⟨rfl, rfl, rfl⟩⟩
      · rintro ⟨rejected, -, ⟨hlength, rfl, rfl⟩ | ⟨_, _, hlt, -⟩⟩
        · rw [List.eq_nil_of_length_eq_zero hlength]
          exact ⟨rfl, rfl⟩
        · omega
  | succ n ih =>
      rw [retry, runs_bind]
      constructor
      · rintro ⟨_ | b, before, after, hfirst, hrest, rfl⟩
        · rcases ih.mp hrest with ⟨rejected, hrejected, hcases⟩
          refine ⟨before :: rejected, by simpa using ⟨hfirst, hrejected⟩, ?_⟩
          rcases hcases with ⟨hlength, rfl, rfl⟩ | ⟨b, last, hlt, rfl, hlast, rfl⟩
          · exact Or.inl ⟨by simpa using hlength, rfl, by simp⟩
          · exact Or.inr ⟨b, last, by simpa using hlt, rfl, hlast, by simp⟩
        · rcases hrest with ⟨rfl, rfl⟩
          exact ⟨[], by simp, Or.inr ⟨b, before, by simp, rfl, hfirst, by simp⟩⟩
      · rintro ⟨rejected, hrejected, hcases⟩
        cases rejected with
        | nil =>
            rcases hcases with ⟨hlength, -⟩ | ⟨b, last, -, rfl, hlast, rfl⟩
            · simp at hlength
            · exact ⟨some b, _, [], hlast, ⟨rfl, rfl⟩, by simp⟩
        | cons run rejected =>
            rcases List.forall_mem_cons.mp hrejected with ⟨hfirst, hrest⟩
            rcases hcases with ⟨hlength, rfl, rfl⟩ | ⟨b, last, hlt, rfl, hlast, rfl⟩
            · refine ⟨none, run, rejected.flatten, hfirst, ih.mpr ⟨rejected, hrest, ?_⟩, rfl⟩
              exact Or.inl ⟨by simpa using hlength, rfl, rfl⟩
            · refine ⟨none, run, rejected.flatten ++ last, hfirst,
                ih.mpr ⟨rejected, hrest, ?_⟩, by simp⟩
              exact Or.inr ⟨b, last, by simpa using hlt, rfl, hlast, rfl⟩

/-! ## What holds at every call -/

variable {step : σ → ((c : Call) × Answer c) → σ} {P : σ → ((c : Call) × Answer c) → Prop}

/-- In every run, whatever was before, every answered call is related to the state it meets. -/
def Always (step : σ → ((c : Call) × Answer c) → σ) (P : σ → ((c : Call) × Answer c) → Prop)
    (program : Interaction Call Answer α) : Prop :=
  ∀ events result, program.Runs events result → ∀ s, Throughout step P events s

theorem Always.pure (a : α) : Always step P (pure a : Interaction Call Answer α) := by
  rintro events result ⟨rfl, rfl⟩ s
  trivial

theorem Always.bind {program : Interaction Call Answer α}
    {next : α → Interaction Call Answer β} (h : Always step P program)
    (hnext : ∀ a, Always step P (next a)) : Always step P (program >>= next) := by
  intro events result hruns s
  rcases runs_bind.mp hruns with ⟨a, before, after, hfirst, hsecond, rfl⟩
  exact (throughout_append before after s).mpr ⟨h before a hfirst s, hnext a after result hsecond _⟩

theorem Always.retry {n : Nat} {attempt : Interaction Call Answer (Option β)}
    (h : Always step P attempt) : Always step P (retry n attempt) := by
  induction n with
  | zero => exact Always.pure none
  | succ n ih =>
      refine h.bind fun result => ?_
      cases result with
      | none => exact ih
      | some b => exact Always.pure (some b)

/-- A call that may be made in every state. -/
theorem Always.call {c : Call} (h : ∀ s answer, P s ⟨c, answer⟩) :
    Always step P (call c : Interaction Call Answer (Answer c)) := by
  intro events result hruns s
  rcases runs_call.mp hruns with rfl
  exact ⟨h s result, trivial⟩

/-- A condition on the calls alone holds whatever state is kept, and so does what follows from it
for one call. -/
theorem Always.of_calls {τ : Type} {step' : τ → ((c : Call) × Answer c) → τ} {allowed : Call → Prop}
    {program : Interaction Call Answer α} [Nonempty τ]
    (h : Always step' (fun _ event => allowed event.1) program)
    (himp : ∀ s event, allowed event.1 → P s event) : Always step P program := by
  intro events result hruns s
  rw [throughout_iff]
  intro before event after hsplit
  have hallowed := (throughout_iff events (Classical.arbitrary τ)).mp
    (h events result hruns _) before event after hsplit
  exact himp _ event hallowed

/-! ## Preconditions and postconditions -/

/-- From a state of the precondition, as long as the answers keep to the rule, the program ends in
a state of the postcondition. -/
def Ensures (step : σ → ((c : Call) × Answer c) → σ) (rule : σ → ((c : Call) × Answer c) → Prop)
    (pre : σ → Prop) (program : Interaction Call Answer α) (post : α → σ → Prop) : Prop :=
  ∀ s events result, pre s → program.Runs events result → Throughout step rule events s →
    post result (events.foldl step s)

section

variable {rule : σ → ((c : Call) × Answer c) → Prop} {pre : σ → Prop}

theorem Ensures.pure {a : α} {post : α → σ → Prop} (h : ∀ s, pre s → post a s) :
    Ensures step rule pre (pure a : Interaction Call Answer α) post := by
  rintro s events result hpre ⟨rfl, rfl⟩ -
  exact h s hpre

theorem Ensures.bind {program : Interaction Call Answer α}
    {next : α → Interaction Call Answer β} {mid : α → σ → Prop} {post : β → σ → Prop}
    (h : Ensures step rule pre program mid)
    (hnext : ∀ a, Ensures step rule (mid a) (next a) post) :
    Ensures step rule pre (program >>= next) post := by
  intro s events result hpre hruns hrule
  rcases runs_bind.mp hruns with ⟨a, before, after, hfirst, hsecond, rfl⟩
  rcases (throughout_append before after s).mp hrule with ⟨hbefore, hafter⟩
  rw [List.foldl_append]
  exact hnext a _ after result (h s before a hpre hfirst hbefore) hsecond hafter

theorem Ensures.call {c : Call} {post : Answer c → σ → Prop}
    (h : ∀ s answer, pre s → rule s ⟨c, answer⟩ → post answer (step s ⟨c, answer⟩)) :
    Ensures step rule pre (call c) post := by
  intro s events result hpre hruns hrule
  rcases runs_call.mp hruns with rfl
  exact h s result hpre hrule.1

/-- A precondition is used in each of its cases. -/
theorem Ensures.or {program : Interaction Call Answer α} {pre' : σ → Prop} {post : α → σ → Prop}
    (h : Ensures step rule pre program post) (h' : Ensures step rule pre' program post) :
    Ensures step rule (fun s => pre s ∨ pre' s) program post := by
  intro s events result hpre
  rcases hpre with hpre | hpre
  · exact h s events result hpre
  · exact h' s events result hpre

theorem Ensures.exists {ι : Type} {program : Interaction Call Answer α} {pre : ι → σ → Prop}
    {post : α → σ → Prop} (h : ∀ i, Ensures step rule (pre i) program post) :
    Ensures step rule (fun s => ∃ i, pre i s) program post := by
  rintro s events result ⟨i, hpre⟩
  exact h i s events result hpre

/-- A program of calls that do not change the state ends where it began. -/
theorem Ensures.of_always {program : Interaction Call Answer α}
    (h : Always step (fun s event => step s event = s) program) :
    Ensures step rule pre program (fun _ => pre) := by
  rintro s events result hpre hruns -
  have hsame := (h events result hruns s).invariant (· = s) (fun t event ht hstep => hstep.trans ht)
    rfl
  rwa [hsame]

/-- A check, with what holds where it fails and where the program goes on. -/
theorem Ensures.check {program : Interaction Call Answer α}
    {failed next : Interaction Call Answer β} {c : α → Prop} [DecidablePred c]
    {bad good : σ → Prop} {post : β → σ → Prop}
    (h : Ensures step rule pre program fun a s => if c a then bad s else good s)
    (hfailed : Ensures step rule bad failed post) (hnext : Ensures step rule good next post) :
    Ensures step rule pre (program >>= fun a => if c a then failed else next) post := by
  refine h.bind fun a => ?_
  split_ifs
  · exact hfailed
  · exact hnext

/-- The check of a program that does not change the state. -/
theorem Ensures.check_always {program : Interaction Call Answer α}
    {failed next : Interaction Call Answer β} {c : α → Prop} [DecidablePred c]
    {post : β → σ → Prop} (h : Always step (fun s event => step s event = s) program)
    (hfailed : Ensures step rule pre failed post) (hnext : Ensures step rule pre next post) :
    Ensures step rule pre (program >>= fun a => if c a then failed else next) post := by
  have hsame : Ensures step rule pre program fun a s => if c a then pre s else pre s := by
    simpa only [ite_self] using Ensures.of_always h
  exact hsame.check hfailed hnext

end

/-! ## Environments -/

/-- The state of the environment and the result after all calls were answered. -/
def answer (env : (c : Call) → σ → σ × Answer c) : Interaction Call Answer α → σ → σ × α
  | .done result, s => (s, result)
  | .perform c next, s => (next (env c s).2).answer env (env c s).1

variable {env : (c : Call) → σ → σ × Answer c}

@[simp]
theorem answer_pure (a : α) (s : σ) :
    (pure a : Interaction Call Answer α).answer env s = (s, a) := rfl

@[simp]
theorem answer_call (c : Call) (s : σ) : (call c).answer env s = env c s := rfl

/-- The second program meets the state that the first one left. -/
@[simp]
theorem answer_bind (program : Interaction Call Answer α)
    (next : α → Interaction Call Answer β) (s : σ) :
    (program >>= next).answer env s =
      (next (program.answer env s).2).answer env (program.answer env s).1 := by
  induction program generalizing s with
  | done a => rfl
  | perform c rest ih => exact ih (env c s).2 (env c s).1

/-- The run of a program in which equal calls have equal answers. -/
def transcript (respond : (c : Call) → Answer c) :
    Interaction Call Answer α → List ((c : Call) × Answer c) × α
  | .done result => ([], result)
  | .perform c next =>
      (⟨c, respond c⟩ :: ((next (respond c)).transcript respond).1,
        ((next (respond c)).transcript respond).2)

theorem runs_transcript (respond : (c : Call) → Answer c) (program : Interaction Call Answer α) :
    program.Runs (program.transcript respond).1 (program.transcript respond).2 := by
  induction program with
  | done result => exact ⟨rfl, rfl⟩
  | perform c next ih => exact ⟨respond c, _, rfl, ih (respond c)⟩

end Interaction

end Foundations
