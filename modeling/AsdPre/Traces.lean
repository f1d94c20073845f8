import Mathlib

/-! Runs of event-driven machines. A run is a list of events from a start state; a
condition on a run is a condition on each event in the state it arrives in. The
rules here turn what one step preserves into what a whole run preserves. -/
namespace AsdPre.Traces

variable {S : Type u} {A : Type v} {E : Type w} {ε : Type x}

def run (step : S → E → S) (s : S) (events : List E) : S := events.foldl step s

/-- Every event meets the condition in the state in which it happens. -/
def Along (step : S → E → S) (ok : S → E → Prop) : S → List E → Prop
  | _, [] => True
  | s, e :: rest => ok s e ∧ Along step ok (step s e) rest

instance decidableAlong {step : S → E → S} {ok : S → E → Prop} [∀ s e, Decidable (ok s e)] :
    ∀ s events, Decidable (Along step ok s events)
  | _, [] => .isTrue trivial
  | s, e :: rest =>
    have : Decidable (Along step ok (step s e) rest) := decidableAlong (step s e) rest
    inferInstanceAs (Decidable (ok s e ∧ Along step ok (step s e) rest))

@[simp] theorem run_nil (step : S → E → S) (s : S) : run step s [] = s := rfl

@[simp] theorem run_cons (step : S → E → S) (s : S) (e : E) (rest : List E) :
    run step s (e :: rest) = run step (step s e) rest := rfl

theorem run_append (step : S → E → S) (s : S) (as bs : List E) :
    run step s (as ++ bs) = run step (run step s as) bs := by simp [run]

/-- A step invariant holds at the end of every run that meets its condition. -/
theorem run_invariant {step : S → E → S} {ok : S → E → Prop} {inv : S → Prop}
    (preserved : ∀ s e, inv s → ok s e → inv (step s e)) {s : S} {events : List E}
    (start : inv s) (along : Along step ok s events) : inv (run step s events) := by
  induction events generalizing s with
  | nil => exact start
  | cons e rest ih => exact ih (preserved s e start along.1) along.2

/-- A condition that speaks only about the event can be checked on the list. -/
theorem along_of_forall {step : S → E → S} {ok : E → Prop} (s : S) (events : List E)
    (all : ∀ e ∈ events, ok e) : Along step (fun _ e => ok e) s events := by
  induction events generalizing s with
  | nil => trivial
  | cons e rest ih => exact ⟨all e (by simp), ih _ fun e' member => all e' (by simp [member])⟩

theorem along_append {step : S → E → S} {ok : S → E → Prop} {s : S} {as bs : List E} :
    Along step ok s (as ++ bs) ↔ Along step ok s as ∧ Along step ok (run step s as) bs := by
  induction as generalizing s with
  | nil => simp [Along]
  | cons e rest ih => simp only [List.cons_append, Along, ih, run_cons, and_assoc]

/-- A condition along a run, said of each event and the events before it. -/
theorem along_iff {step : S → E → S} {ok : S → E → Prop} {s : S} {events : List E} :
    Along step ok s events ↔
      ∀ before e rest, events = before ++ e :: rest → ok (run step s before) e := by
  induction events generalizing s with
  | nil => simp [Along]
  | cons first events ih =>
    rw [Along, ih]
    constructor
    · rintro ⟨now, later⟩ before e rest split
      cases before with
      | nil =>
        cases split
        exact now
      | cons _ before =>
        cases split
        exact later before e rest rfl
    · intro all
      refine ⟨all [] first events rfl, ?_⟩
      rintro before e rest rfl
      exact all (first :: before) e rest rfl

/-- If each state of a run has a property that only certain events can leave behind,
only such events happened. -/
theorem forall_of_prefixes {step : S → E → S} {ok : E → Prop} {inv : S → Prop}
    (needed : ∀ s e, inv (step s e) → ok e) {s : S} {events : List E}
    (always : ∀ done, done <+: events → inv (run step s done)) : ∀ e ∈ events, ok e := by
  intro e member
  obtain ⟨before, after, rfl⟩ := List.append_of_mem member
  have reached := always (before ++ [e]) ⟨after, by simp⟩
  rw [run_append] at reached
  exact needed _ e reached

/-- A fallible machine that never fails and follows an abstract one step by step
never fails on a run and follows it to the end. -/
theorem foldlM_simulates {step : S → E → Except ε S} {abstract : A → E → A} {R : A → S → Prop}
    (simulated : ∀ a s e, R a s → ∃ s', step s e = .ok s' ∧ R (abstract a e) s') {a : A} {s : S}
    (start : R a s) (events : List E) :
    ∃ s', events.foldlM step s = .ok s' ∧ R (run abstract a events) s' := by
  induction events generalizing a s with
  | nil => exact ⟨s, rfl, start⟩
  | cons e rest ih =>
    obtain ⟨next, stepped, related⟩ := simulated a s e start
    obtain ⟨final, ran, ended⟩ := ih related
    exact ⟨final, by rw [List.foldlM_cons, stepped]; exact ran, ended⟩

end AsdPre.Traces
