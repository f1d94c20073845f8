import AsdPre.Polling

/-! The memory card. `mountUnmount` runs once when the firmware starts and then in the
handler of the card switch. Between its attempts to set up the card it sleeps for a
millisecond of `msTicks`, which only the SysTick interrupt advances. -/
namespace AsdPre.SdCard

open Polling

inductive Point where
  | entry
  | attempt (i : Nat)
  | sleep (i : Nat) (curTicks : BitVec 32)
  | mount
  | unmount
  | returned
  deriving DecidableEq, Repr

/-- What a call meets: the card switch, for each attempt whether `disk_initialize`
succeeds, and whether SysTick interrupts are held back until the call returns. They are
in the handler: `SysTick_Config` gives them the lowest priority, and the switch keeps
the highest. -/
structure World where
  card : Bool
  status : Nat → Bool
  deferred : Bool

/-- `mounts` is a log of the calls of `f_mount`, `false` for those that unmount. -/
structure State where
  point : Point
  msTicks : BitVec 32
  mounted : Bool
  mounts : List Bool

/-- The next statement of `mountUnmount`. -/
def mountUnmount (w : World) (s : State) : State :=
  match s.point with
  | .entry =>
    if w.card && s.mounted then { s with point := .returned }
    else if !w.card && !s.mounted then { s with point := .returned }
    else if w.card then { s with point := .attempt 0 }
    else { s with point := .unmount }
  | .attempt i =>
    if i < 10 then
      if w.status i then { s with point := .mount } else { s with point := .sleep i s.msTicks }
    else { s with point := .mount }
  | .sleep i curTicks =>
    if s.msTicks - curTicks < 1 then s else { s with point := .attempt (i + 1) }
  -- whatever `f_mount` returns, the card counts as mounted
  | .mount => { s with point := .returned, mounted := true, mounts := s.mounts ++ [true] }
  | .unmount => { s with point := .returned, mounted := false, mounts := s.mounts ++ [false] }
  | .returned => s

def step (w : World) (s : State) : Event → State
  | .tick => if w.deferred then s else { s with msTicks := s.msTicks + 1 }
  | .poll => mountUnmount w s

def after (w : World) (s : State) (order : Schedule) (n : Nat) : State :=
  Traces.run (step w) s (order.upTo n)

def call (s : State) : State := { s with point := .entry }

section Returning

variable (w : World) (s : State) (order : Schedule)

theorem after_succ (n : Nat) : after w s order (n + 1) = step w (after w s order n) (order.event n) := by
  simp [after, Schedule.upTo_succ, Traces.run_append]

/-- The program soon goes on, whatever the clock has become. -/
theorem goes_on (n : Nat) :
    ∃ m ticks, n < m ∧ after w s order m = mountUnmount w { after w s order n with msTicks := ticks } := by
  cases now : order.event n with
  | poll => exact ⟨n + 1, (after w s order n).msTicks, Nat.lt_succ_self n, by rw [after_succ, now]; rfl⟩
  | tick =>
    have next := order.observed n now
    have ticked : ∃ ticks, after w s order (n + 1) = { after w s order n with msTicks := ticks } := by
      rw [after_succ, now, step]
      split
      · exact ⟨_, rfl⟩
      · exact ⟨_, rfl⟩
    obtain ⟨ticks, same⟩ := ticked
    exact ⟨n + 2, ticks, by omega, by rw [after_succ, next, ← same]; rfl⟩

/-- Asleep, and no tick yet. -/
theorem sleeps_on {n m : Nat} (later : n ≤ m) (quiet : ∀ k, n ≤ k → k < m → order.event k = .poll)
    {i : Nat} (asleep : (after w s order n).point = .sleep i (after w s order n).msTicks) :
    after w s order m = after w s order n := by
  induction m, later using Nat.le_induction with
  | base => rfl
  | succ m later ih =>
    have still := ih fun k since before => quiet k since (Nat.lt_succ_of_lt before)
    rw [after_succ, quiet m later (Nat.lt_succ_self m), still, step, mountUnmount, asleep]
    simp

/-- Where the clock runs, a sleep ends. -/
theorem wakes (running : w.deferred = false) {n i : Nat}
    (asleep : (after w s order n).point = .sleep i (after w s order n).msTicks) :
    ∃ m ticks, n < m ∧
      after w s order m = { after w s order n with point := .attempt (i + 1), msTicks := ticks } := by
  obtain ⟨m, later, tick, quiet⟩ := order.next_tick n
  have still := sleeps_on w s order later quiet asleep
  refine ⟨m + 2, (after w s order n).msTicks + 1, by omega, ?_⟩
  rw [after_succ, order.observed m tick, after_succ, tick, still]
  simp [step, running, mountUnmount, asleep]

/-- The attempts end, whatever comes of them. -/
theorem attempts_end (running : w.deferred = false) (left n i : Nat) (counted : i + left = 10)
    (trying : (after w s order n).point = .attempt i) :
    ∃ m ticks, n < m ∧ after w s order m = { after w s order n with point := .mount, msTicks := ticks } := by
  induction left generalizing n i with
  | zero =>
    obtain ⟨m, ticks, later, next⟩ := goes_on w s order n
    have last : ¬ i < 10 := by omega
    refine ⟨m, ticks, later, ?_⟩
    simp only [next, mountUnmount, trying, if_neg last]
  | succ left ih =>
    obtain ⟨m, ticks, later, next⟩ := goes_on w s order n
    have more : i < 10 := by omega
    simp only [mountUnmount, trying, if_pos more] at next
    by_cases done : w.status i = true
    · exact ⟨m, ticks, later, by rw [next, if_pos done]⟩
    · rw [if_neg done] at next
      obtain ⟨m₁, ticks₁, later₁, awake⟩ := wakes w s order running (n := m) (i := i) (by rw [next])
      obtain ⟨m₂, ticks₂, later₂, ended⟩ := ih m₁ (i + 1) (by omega) (by rw [awake])
      exact ⟨m₂, ticks₂, by omega, by rw [ended, awake, next]⟩

/-- Asleep after the first attempt, with the clock held back. -/
theorem stuck (held : w.deferred = true) (card : w.card = true) (fresh : s.mounted = false)
    (failed : w.status 0 = false) (n : Nat) :
    (after w (call s) order n).msTicks = s.msTicks ∧ (after w (call s) order n).mounted = false ∧
      (after w (call s) order n).point ∈ [.entry, .attempt 0, .sleep 0 s.msTicks] := by
  induction n with
  | zero => exact ⟨rfl, fresh, by simp [after, Schedule.upTo, call]⟩
  | succ n ih =>
    obtain ⟨ticks, unmounted, place⟩ := ih
    rw [after_succ]
    cases order.event n with
    | tick =>
      rw [step, if_pos held]
      exact ⟨ticks, unmounted, place⟩
    | poll =>
      simp only [List.mem_cons, List.not_mem_nil, or_false] at place
      rcases place with entry | attempt | asleep
      · simp [step, mountUnmount, entry, unmounted, card, ticks]
      · simp [step, mountUnmount, attempt, unmounted, failed, ticks]
      · simp [step, mountUnmount, asleep, unmounted, ticks]

/-- Every call from the start of the firmware returns. A call from the handler, where
the clock stands still, returns unless it finds a new card and the first attempt to set
it up fails; then it sleeps for ever. -/
theorem mount_returns_iff :
    (∃ n, (after w (call s) order n).point = .returned) ↔
      w.deferred = false ∨ w.card = false ∨ s.mounted = true ∨ w.status 0 = true := by
  constructor
  · rintro ⟨n, returned⟩
    by_contra bad
    simp only [not_or, Bool.not_eq_false, Bool.not_eq_true] at bad
    obtain ⟨held, card, fresh, failed⟩ := bad
    have place := (stuck w s order held card fresh failed n).2.2
    simp [returned] at place
  · intro good
    obtain ⟨n₁, ticks₁, -, first⟩ := goes_on w (call s) order 0
    have started : after w (call s) order 0 = call s := rfl
    rw [started] at first
    by_cases unchanged : w.card = s.mounted
    · refine ⟨n₁, ?_⟩
      rw [first]
      cases mounted : s.mounted <;> simp [mountUnmount, call, unchanged, mounted]
    · obtain ⟨n₂, ticks₂, -, second⟩ := goes_on w (call s) order n₁
      cases card : w.card with
      | false =>
        have mounted : s.mounted = true := by
          simpa [card] using unchanged
        refine ⟨n₂, ?_⟩
        rw [second, first]
        simp [mountUnmount, call, card, mounted]
      | true =>
        have fresh : s.mounted = false := by
          simpa [card] using unchanged
        have trying : (after w (call s) order n₁).point = .attempt 0 := by
          rw [first]
          simp [mountUnmount, call, card, fresh]
        have ready : ∃ m, (after w (call s) order m).point = .mount := by
          by_cases running : w.deferred = false
          · obtain ⟨m, ticks, -, ended⟩ := attempts_end w (call s) order running 10 n₁ 0 rfl trying
            exact ⟨m, by rw [ended]⟩
          · have done : w.status 0 = true := by simpa [running, card, fresh] using good
            exact ⟨n₂, by simp [second, mountUnmount, trying, done]⟩
        obtain ⟨m, ready⟩ := ready
        obtain ⟨m', ticks, -, mounted⟩ := goes_on w (call s) order m
        exact ⟨m', by simp [mounted, mountUnmount, ready]⟩

end Returning

section Mounting

/-- What a call has done when it returns, and that it has done nothing before. -/
def Progress (w : World) (s s' : State) : Prop :=
  match s'.point with
  | .entry => s'.mounted = s.mounted ∧ s'.mounts = s.mounts
  | .attempt _ | .sleep _ _ | .mount =>
    w.card = true ∧ s.mounted = false ∧ s'.mounted = s.mounted ∧ s'.mounts = s.mounts
  | .unmount => w.card = false ∧ s.mounted = true ∧ s'.mounted = s.mounted ∧ s'.mounts = s.mounts
  | .returned =>
    s'.mounted = w.card ∧ s'.mounts = s.mounts ++ if w.card = s.mounted then [] else [w.card]

theorem progress_tick {w : World} {s s' : State} (p : Progress w s s') :
    Progress w s (step w s' .tick) := by
  rw [step]
  split
  · exact p
  · exact p

theorem progress_poll {w : World} {s s' : State} (p : Progress w s s') :
    Progress w s (step w s' .poll) := by
  rw [step, mountUnmount]
  unfold Progress at p
  cases place : s'.point with
  | entry =>
    rw [place] at p
    obtain ⟨mounted, mounts⟩ := p
    cases card : w.card <;> cases before : s.mounted <;>
      simp [Progress, card, before, mounted, mounts]
  | attempt i =>
    rw [place] at p
    obtain ⟨card, fresh, mounted, mounts⟩ := p
    simp only
    split
    · split <;> exact ⟨card, fresh, mounted, mounts⟩
    · exact ⟨card, fresh, mounted, mounts⟩
  | sleep i curTicks =>
    rw [place] at p
    obtain ⟨card, fresh, mounted, mounts⟩ := p
    simp only
    split
    · simp only [Progress, place]
      exact ⟨card, fresh, mounted, mounts⟩
    · exact ⟨card, fresh, mounted, mounts⟩
  | mount =>
    rw [place] at p
    obtain ⟨card, fresh, mounted, mounts⟩ := p
    simp [Progress, card, fresh, mounts]
  | unmount =>
    rw [place] at p
    obtain ⟨card, fresh, mounted, mounts⟩ := p
    simp [Progress, card, fresh, mounts]
  | returned =>
    rw [place] at p
    simpa [Progress, place] using p

theorem progress_after (w : World) (s : State) (order : Schedule) (n : Nat) :
    Progress w s (after w (call s) order n) := by
  induction n with
  | zero => exact ⟨rfl, rfl⟩
  | succ n ih =>
    rw [after_succ]
    cases order.event n with
    | tick => exact progress_tick ih
    | poll => exact progress_poll ih

theorem destutter_first (a : Bool) (l : List Bool) :
    l.destutter' (· ≠ ·) a = a :: (l.destutter' (· ≠ ·) a).tail := by
  induction l with
  | nil => rfl
  | cons b rest ih =>
    rw [List.destutter'_cons]
    split
    · rfl
    · exact ih

/-- Calls that return, one after another, with what each finds at the switch. -/
inductive Calls : State → List Bool → State → Prop
  | none (s : State) : Calls s [] s
  | next {s s₁ s₂ : State} {cards : List Bool} (w : World) (order : Schedule) (n : Nat)
      (reached : after w (call s) order n = s₁) (returned : s₁.point = .returned)
      (later : Calls s₁ cards s₂) : Calls s (w.card :: cards) s₂

/-- Whatever comes of its attempts, the firmware calls `f_mount` exactly when the level
it finds has changed since the call before, so mounting and unmounting alternate; and it
takes the card to be mounted just when it last found one, even if `f_mount` failed. -/
theorem mounts_follow_switch {s s' : State} {cards : List Bool} (calls : Calls s cards s') :
    s'.mounts = s.mounts ++ (cards.destutter' (· ≠ ·) s.mounted).tail ∧
      s'.mounted = cards.getLastD s.mounted := by
  induction calls with
  | none s => simp
  | next w order n reached returned later ih =>
    rename_i s s₁ s₂ cards
    have progress := progress_after w s order n
    rw [reached, Progress, returned] at progress
    obtain ⟨mounted, mounts⟩ := progress
    rw [mounted, mounts] at ih
    refine ⟨?_, by rw [ih.2, List.getLastD_cons]⟩
    rw [ih.1]
    by_cases same : w.card = s.mounted
    · rw [if_pos same, List.append_nil, List.destutter'_cons_neg _ (by simp [same]), same]
    · rw [if_neg same, List.destutter'_cons_pos _ (Ne.symm same), List.tail_cons, List.append_assoc,
        List.singleton_append, ← destutter_first]

/-- A card that is found twice and then gone. -/
theorem mounts_follow_switch_removed :
    ∃ s, Calls ⟨.returned, 0, false, []⟩ [true, true, false] s ∧ s.mounts = [true, false] := by
  have calls : Calls ⟨.returned, 0, false, []⟩ [true, true, false] ⟨.returned, 2, false, [true, false]⟩ :=
    .next ⟨true, fun _ => true, false⟩ .alternating 5 rfl rfl <|
    .next ⟨true, fun _ => true, true⟩ .alternating 1 rfl rfl <|
    .next ⟨false, fun _ => true, true⟩ .alternating 3 rfl rfl <| .none _
  exact ⟨_, calls, (mounts_follow_switch calls).1⟩

end Mounting

end AsdPre.SdCard
