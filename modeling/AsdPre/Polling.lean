import AsdPre.Traces

/-! Busy waits: loops whose only work is to test a counter that something outside the
loop advances. A schedule says in which order ticks of the counter and tests of the
guard happen; how long the loop stays is a question about the guard at each count. -/
namespace AsdPre.Polling

open Traces

inductive Event where
  | tick
  | poll
  deriving DecidableEq, Repr

/-- An unending order of events in which the counter keeps ticking and the loop sees
every count: its guard is tested before the first tick and between any two. -/
structure Schedule where
  event : Nat → Event
  ticking : ∀ n, ∃ m, n ≤ m ∧ event m = .tick
  first : event 0 = .poll
  observed : ∀ n, event n = .tick → event (n + 1) = .poll

/-- `while (waiting(counter)) ;` with the counter's value when the loop is entered. -/
structure BusyWait (C : Type u) where
  start : C
  tick : C → C
  waiting : C → Bool

structure State (C : Type u) where
  counter : C
  returned : Bool

variable {C : Type u}

namespace Schedule

def upTo (order : Schedule) (n : Nat) : List Event := (List.range n).map order.event

def ticks (order : Schedule) (n : Nat) : Nat := (order.upTo n).count .tick

theorem upTo_succ (order : Schedule) (n : Nat) :
    order.upTo (n + 1) = order.upTo n ++ [order.event n] := by simp [upTo, List.range_succ]

@[simp] theorem ticks_zero (order : Schedule) : order.ticks 0 = 0 := rfl

theorem ticks_tick {order : Schedule} {n : Nat} (event : order.event n = .tick) :
    order.ticks (n + 1) = order.ticks n + 1 := by simp [ticks, upTo_succ, event]

theorem ticks_poll {order : Schedule} {n : Nat} (event : order.event n = .poll) :
    order.ticks (n + 1) = order.ticks n := by simp [ticks, upTo_succ, event]

theorem ticks_le_succ (order : Schedule) (n : Nat) : order.ticks n ≤ order.ticks (n + 1) := by
  cases event : order.event n with
  | tick => simp [ticks_tick event]
  | poll => simp [ticks_poll event]

theorem ticks_mono (order : Schedule) : Monotone order.ticks :=
  monotone_nat_of_le_succ order.ticks_le_succ

/-- Nothing but polls up to some event leaves the count where it was. -/
theorem ticks_quiet {order : Schedule} {n m : Nat} (later : n ≤ m)
    (quiet : ∀ i, n ≤ i → i < m → order.event i = .poll) : order.ticks m = order.ticks n := by
  induction m, later using Nat.le_induction with
  | base => rfl
  | succ m later ih =>
    rw [ticks_poll (quiet m later (Nat.lt_succ_self m))]
    exact ih fun i from_n before => quiet i from_n (Nat.lt_succ_of_lt before)

/-- From any event on there is a next tick, with only polls before it. -/
theorem next_tick (order : Schedule) (n : Nat) :
    ∃ m, n ≤ m ∧ order.event m = .tick ∧ ∀ i, n ≤ i → i < m → order.event i = .poll := by
  have ticking := order.ticking n
  obtain ⟨later, ticks⟩ := Nat.find_spec ticking
  refine ⟨Nat.find ticking, later, ticks, fun i from_n before => ?_⟩
  cases event : order.event i with
  | poll => rfl
  | tick => exact absurd ⟨from_n, event⟩ (Nat.find_min ticking before)

/-- Each count is reached, and the first event at it is a poll. -/
theorem count_polled (order : Schedule) (k : Nat) :
    ∃ n, order.ticks n = k ∧ order.event n = .poll ∧ ∀ m, m < n → order.ticks m < k := by
  induction k with
  | zero => exact ⟨0, rfl, order.first, by simp⟩
  | succ k ih =>
    obtain ⟨n, reached, -, -⟩ := ih
    obtain ⟨m, later, tick, quiet⟩ := order.next_tick n
    have atTick : order.ticks m = k := (ticks_quiet later quiet).trans reached
    refine ⟨m + 1, by rw [ticks_tick tick, atTick], order.observed m tick, fun i before => ?_⟩
    have below : order.ticks i ≤ order.ticks m := order.ticks_mono (Nat.le_of_lt_succ before)
    omega

/-- Polls and ticks in turn. -/
def alternating : Schedule where
  event n := if n % 2 = 0 then .poll else .tick
  ticking n := ⟨2 * n + 1, by omega, by simp⟩
  first := rfl
  observed n tick := by
    have odd : n % 2 = 1 := by
      by_contra even
      simp [show n % 2 = 0 by omega] at tick
    simp [show (n + 1) % 2 = 0 by omega]

end Schedule

namespace BusyWait

def step (wait : BusyWait C) (s : State C) : Event → State C
  | .tick => { s with counter := wait.tick s.counter }
  | .poll => { s with returned := s.returned || !wait.waiting s.counter }

def after (wait : BusyWait C) (order : Schedule) (n : Nat) : State C :=
  run wait.step ⟨wait.start, false⟩ (order.upTo n)

/-- Event `n` is the poll that ends the loop. -/
def ReturnsAt (wait : BusyWait C) (order : Schedule) (n : Nat) : Prop :=
  (wait.after order n).returned = false ∧ (wait.after order (n + 1)).returned = true

/-- The loop ends, after a number of ticks as required. -/
def Returns (wait : BusyWait C) (order : Schedule) (enough : Nat → Prop) : Prop :=
  (∃ n, wait.ReturnsAt order n) ∧ ∀ n, wait.ReturnsAt order n → enough (order.ticks n)

/-- The value the counter has `k` ticks after the loop was entered. -/
def count (wait : BusyWait C) (k : Nat) : C := wait.tick^[k] wait.start

variable (wait : BusyWait C) (order : Schedule)

theorem after_succ (n : Nat) :
    wait.after order (n + 1) = wait.step (wait.after order n) (order.event n) := by
  simp [after, Schedule.upTo_succ, run_append]

theorem after_counter (n : Nat) :
    (wait.after order n).counter = wait.count (order.ticks n) := by
  induction n with
  | zero => rfl
  | succ n ih =>
    cases event : order.event n with
    | tick =>
      simp only [after_succ, event, step, Schedule.ticks_tick event, ih, count]
      rw [Function.iterate_succ_apply']
    | poll => simp only [after_succ, event, step, Schedule.ticks_poll event, ih]

theorem after_poll {n : Nat} (event : order.event n = .poll) :
    (wait.after order (n + 1)).returned =
      ((wait.after order n).returned || !wait.waiting (wait.count (order.ticks n))) := by
  simp [after_succ, event, step, after_counter]

theorem after_tick {n : Nat} (event : order.event n = .tick) :
    (wait.after order (n + 1)).returned = (wait.after order n).returned := by
  simp [after_succ, event, step]

/-- A loop that has ended stays ended. -/
theorem returned_of_le {n m : Nat} (later : n ≤ m)
    (returned : (wait.after order n).returned = true) :
    (wait.after order m).returned = true := by
  induction m, later using Nat.le_induction with
  | base => exact returned
  | succ m _ ih =>
    cases event : order.event m with
    | tick => rw [after_tick wait order event, ih]
    | poll => simp [after_poll wait order event, ih]

theorem returnsAt_unique {n m : Nat} (one : wait.ReturnsAt order n)
    (other : wait.ReturnsAt order m) : n = m := by
  have notBefore {i j : Nat} (early : wait.ReturnsAt order i) (late : wait.ReturnsAt order j) :
      ¬ i < j := by
    intro before
    have ended := wait.returned_of_le order (Nat.succ_le_of_lt before) early.2
    simp [late.1] at ended
  have first := notBefore one other
  have second := notBefore other one
  omega

/-- A loop whose guard held at every count so far is still there. -/
theorem not_returned {n : Nat}
    (held : ∀ m, m < n → wait.waiting (wait.count (order.ticks m)) = true) :
    (wait.after order n).returned = false := by
  induction n with
  | zero => rfl
  | succ n ih =>
    have before := ih fun m early => held m (Nat.lt_succ_of_lt early)
    cases event : order.event n with
    | tick => rw [after_tick wait order event, before]
    | poll => simp [after_poll wait order event, before, held n (Nat.lt_succ_self n)]

/-- The loop ends at the first count that fails the guard. -/
theorem returns_at_count {k : Nat} (held : ∀ j, j < k → wait.waiting (wait.count j) = true)
    (failed : wait.waiting (wait.count k) = false) : wait.Returns order (· = k) := by
  obtain ⟨n, reached, poll, before⟩ := order.count_polled k
  have returnsAt : wait.ReturnsAt order n := by
    have still := wait.not_returned order fun m early => held _ (before m early)
    refine ⟨still, ?_⟩
    simp [after_poll wait order poll, reached, failed]
  refine ⟨⟨n, returnsAt⟩, fun m other => ?_⟩
  rw [wait.returnsAt_unique order other returnsAt, reached]

/-- A reading that each tick advances by one, modulo its width. -/
theorem iterate_reading {w : Nat} (tick : C → C) (reading : C → BitVec w)
    (advances : ∀ c, reading (tick c) = reading c + 1) (c : C) (k : Nat) :
    reading (tick^[k] c) = reading c + BitVec.ofNat w k := by
  induction k with
  | zero => simp
  | succ k ih =>
    rw [Function.iterate_succ_apply', advances, ih, BitVec.ofNat_add, BitVec.add_assoc]
    rfl

/-- The guard compares a target with a counter that wraps: after `k` ticks it reads the
count modulo the period. -/
def ComparesWrapped (wait : BusyWait C) (period target : Nat) : Prop :=
  ∀ k, wait.waiting (wait.count k) = decide (k % period < target)

variable {wait} {period target : Nat}

theorem ComparesWrapped.returns (compares : wait.ComparesWrapped period target)
    (fits : target < period) : wait.Returns order (· = target) := by
  apply wait.returns_at_count
  · intro j early
    rw [compares, Nat.mod_eq_of_lt (early.trans fits)]
    exact decide_eq_true early
  · rw [compares, Nat.mod_eq_of_lt fits]
    simp

/-- A counter whose period does not exceed the target never reaches it. -/
theorem ComparesWrapped.never_returns (compares : wait.ComparesWrapped period target)
    (positive : 0 < period) (tooFar : period ≤ target) (n : Nat) :
    (wait.after order n).returned = false := by
  apply wait.not_returned
  intro m _
  have below : order.ticks m % period < target := (Nat.mod_lt _ positive).trans_le tooFar
  simp [compares (order.ticks m), below]

/-- Such a loop waits long enough in every schedule just when the target fits the
counter. -/
theorem ComparesWrapped.returns_iff (compares : wait.ComparesWrapped period target)
    (positive : 0 < period) :
    (∀ order, wait.Returns order (target ≤ ·)) ↔ target < period := by
  constructor
  · intro returns
    by_contra tooFar
    obtain ⟨⟨n, -, ended⟩, -⟩ := returns .alternating
    have still := compares.never_returns .alternating positive (Nat.le_of_not_lt tooFar) (n + 1)
    simp [still] at ended
  · intro fits order
    obtain ⟨ended, exactly⟩ := compares.returns order fits
    exact ⟨ended, fun n returnsAt => (exactly n returnsAt).ge⟩

end BusyWait

end AsdPre.Polling
