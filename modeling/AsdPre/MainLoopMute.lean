import AsdPre.MainLoop

/-! Muting around a source change. Two statements of `main` let sound through, after
start-up and at the end of the countdown; only the second looks at the counter, and
it looks one statement before it acts. -/
namespace AsdPre.MainLoopMute

open Firmware MainLoop

/-- A statement of `main` that leaves muting and time alone. -/
structure Quiet (s s' : Sys) : Prop where
  next : s'.point ≠ .clearCounter ∧ s'.point ≠ .clearMute
  here : s.point ≠ .clearCounter
  waiting : s.point = .waitInit → s'.point = .waitInit ∨ initMuteDelay ≤ s.dev.msTicks.toNat
  waited : s'.point = .waitInit → s.point = .waitInit
  mute : s'.dev.mute = s.dev.mute
  mutePin : s'.dev.mutePin = s.dev.mutePin
  muteCounter : s'.dev.muteCounter = s.dev.muteCounter
  msTicks : s'.dev.msTicks = s.dev.msTicks

/-- What one statement of `main` can do to the mute state. -/
theorem mainStep_cases (s : Sys) :
    (s.point = .clearCounter ∧ (mainStep s).point = .waitInit ∧
      (mainStep s).dev = { s.dev with muteCounter := 0 }) ∨
    ((s.point = .startUnmute ∧ (mainStep s).point = .startDark0 ∨
      s.point = .unmute ∧ (mainStep s).point = .clearMute) ∧
      (mainStep s).dev = setMute s.dev false) ∨
    (s.point = .clearMute ∧ (mainStep s).point = .head ∧
      (mainStep s).dev = { s.dev with muteCounter := -1 }) ∨
    Quiet s (mainStep s) := by
  cases h : s.point
  case clearCounter => exact .inl ⟨rfl, by simp [mainStep, h], by simp [mainStep, h]⟩
  case startUnmute => exact .inr (.inl ⟨.inl ⟨rfl, by simp [mainStep, h]⟩, by simp [mainStep, h]⟩)
  case unmute => exact .inr (.inl ⟨.inr ⟨rfl, by simp [mainStep, h]⟩, by simp [mainStep, h]⟩)
  case clearMute => exact .inr (.inr (.inl ⟨rfl, by simp [mainStep, h], by simp [mainStep, h]⟩))
  case waitInit =>
    refine .inr (.inr (.inr ?_))
    by_cases early : s.dev.msTicks.toNat < initMuteDelay
    · constructor <;> simp [mainStep, h, early]
    · constructor <;> simp [mainStep, h, early, Nat.le_of_not_lt early]
  case testSave =>
    refine .inr (.inr (.inr ?_))
    cases save : s.dev.saveSettings <;> constructor <;> simp [mainStep, h, save]
  case testMute =>
    refine .inr (.inr (.inr ?_))
    by_cases ended : s.dev.muteCounter = 0 <;> constructor <;> simp [mainStep, h, ended]
  all_goals
    refine .inr (.inr (.inr ?_))
    constructor <;> simp [mainStep, h, storeSetting_eq]

theorem mainStep_ticksSince (s : Sys) : (mainStep s).ticksSince = s.ticksSince := by
  cases h : s.point
  case waitInit => by_cases early : s.dev.msTicks.toNat < initMuteDelay <;> simp [mainStep, h, early]
  all_goals simp [mainStep, h, storeSetting_eq]

section Forgotten

/-- An unmute is either done or still to come. -/
structure Remembered (s : Sys) : Prop where
  counter : s.point ≠ .clearCounter → s.dev.mute = true → 0 ≤ s.dev.muteCounter
  unmuted : s.point = .clearMute → s.dev.mute = false

/-- No SET_MUTE command, and no source change between the `setMute(false)` of the
main loop and the assignment after it. -/
def NotAfterUnmute (s : Sys) (e : Event) : Prop :=
  (∀ b, e ≠ .setMute b) ∧ ∀ n, e = .setSource n → s.point ≠ .clearMute

instance (s : Sys) : ∀ e, Decidable (NotAfterUnmute s e)
  | .setMute b => .isFalse fun ok => ok.1 b rfl
  | .setSource n => decidable_of_iff (s.point ≠ .clearMute)
      ⟨fun elsewhere => ⟨by simp, fun _ _ => elsewhere⟩, fun ok => ok.2 n rfl⟩
  | .main | .sysTick | .setGain _ | .setVol _ | .save => .isTrue ⟨by simp, by simp⟩

theorem remembered_main (s : Sys) (valid : Remembered s) : Remembered (mainStep s) := by
  rcases mainStep_cases s with ⟨_, next, dev⟩ | ⟨_, dev⟩ | ⟨here, next, dev⟩ | quiet
  · constructor <;> simp [next, dev]
  · constructor <;> simp [dev]
  · have unmuted := valid.unmuted here
    constructor <;> simp [next, dev, unmuted]
  · constructor
    · rw [quiet.mute, quiet.muteCounter]
      exact fun _ => valid.counter quiet.here
    · exact fun atClear => absurd atClear quiet.next.2

theorem remembered_step (s : Sys) (e : Event) (valid : Remembered s) (ok : NotAfterUnmute s e) :
    Remembered (step s e) := by
  cases e with
  | main => exact remembered_main s valid
  | sysTick =>
    refine ⟨fun here muted => ?_, valid.unmuted⟩
    have positive := valid.counter here muted
    simp only [step, sysTickHandler]
    split <;> omega
  | setSource n =>
    have elsewhere := ok.2 n rfl
    exact ⟨fun _ _ => by simp [step], fun atClear => absurd atClear elsewhere⟩
  | setGain n => exact ⟨valid.counter, valid.unmuted⟩
  | setVol v =>
    obtain ⟨_, _, changed⟩ := setVol_eq s.dev v
    constructor
    · simpa [step, changed] using valid.counter
    · simpa [step, changed] using valid.unmuted
  | setMute b => exact absurd rfl (ok.1 b)
  | save => exact ⟨valid.counter, valid.unmuted⟩

/-- At the head of the loop a muted amplifier has its unmute still to come. -/
theorem unmute_not_forgotten (d : Device) (events : List Event)
    (ok : Traces.Along step NotAfterUnmute (start d) events)
    (atHead : (run (start d) events).point = .head)
    (muted : (run (start d) events).dev.mute = true) :
    0 ≤ (run (start d) events).dev.muteCounter := by
  have initial : Remembered (start d) := ⟨fun h => absurd rfl h, fun h => by cases h⟩
  have final : Remembered (run (start d) events) :=
    Traces.run_invariant remembered_step initial ok
  exact final.counter (by rw [atHead]; decide) muted

/-- A source change at the head of the loop. -/
def changedAtHead : List Event := toLoop ++ [.setSource 2]

theorem unmute_not_forgotten_at_rest : 0 ≤ (run (start bootedDevice) changedAtHead).dev.muteCounter :=
  unmute_not_forgotten bootedDevice changedAtHead (by decide +kernel) (by decide +kernel) (by decide +kernel)

/-- The statement after a source change in that window forgets the unmute. -/
theorem source_after_unmute_forgotten (s : Sys) (n : Int) (window : s.point = .clearMute) :
    (run s [.setSource n, .main]).point = .head ∧ (run s [.setSource n, .main]).dev.mute = true ∧
      (run s [.setSource n, .main]).dev.muteCounter = -1 := by
  simp [run, Traces.run, step, mainStep, window]

theorem muted_for_good : ¬ ∀ (d : Device) (events : List Event),
    boot erasedDevice 2000 = .ok d → (∀ e ∈ events, ∀ b, e ≠ .setMute b) →
    (run (start d) events).point = .head → (run (start d) events).dev.mute = true →
    0 ≤ (run (start d) events).dev.muteCounter := by
  intro holds
  -- the first unmute of the loop, a source change, and the assignment
  have counter := holds bootedDevice
    (toLoop ++ [.main, .main, .main, .main, .setSource 1, .main])
    bootedDevice_boots (by simp [toLoop]) (by decide +kernel) (by decide +kernel)
  exact absurd counter (by decide +kernel)

end Forgotten

section Early

/-- Sound is let through no sooner than `MUTE_DELAY` ticks after a source change. -/
def LongEnough (s : Sys) : Prop :=
  s.dev.mutePin = true → ∀ t, s.ticksSince = some t → muteDelay ≤ t

/-- How far the countdown has come. Before `muteCounter = 0` of the start-up, and in
the wait after it, the wait itself may have to stand in for the countdown. -/
structure Timed (s : Sys) : Prop where
  pin : LongEnough s
  running : 0 < s.dev.muteCounter → ∀ t, s.ticksSince = some t → s.dev.muteCounter + t = muteDelay
  booting : s.point = .clearCounter → ∀ t, s.ticksSince = some t →
    s.dev.msTicks.toNat + muteDelay ≤ initMuteDelay + t
  ended : s.point ≠ .clearCounter → s.dev.muteCounter = 0 → ∀ t, s.ticksSince = some t →
    muteDelay ≤ t ∨ s.point = .waitInit ∧ s.dev.msTicks.toNat + muteDelay ≤ initMuteDelay + t

/-- No SET_MUTE command; a source change before `muteCounter = 0` leaves the wait
long enough; and each `setMute(false)` finds the countdown at its end. -/
structure Unhurried (s : Sys) (e : Event) : Prop where
  noCommand : ∀ b, e ≠ .setMute b
  notBooting : ∀ n, e = .setSource n → s.point = .clearCounter →
    s.dev.msTicks.toNat + muteDelay ≤ initMuteDelay
  atEnd : e = .main → s.point = .startUnmute ∨ s.point = .unmute → s.dev.muteCounter = 0

instance (s : Sys) : ∀ e, Decidable (Unhurried s e)
  | .main => decidable_of_iff (s.point = .startUnmute ∨ s.point = .unmute → s.dev.muteCounter = 0)
      ⟨fun ended => ⟨by simp, by simp, fun _ => ended⟩, fun ok => ok.atEnd rfl⟩
  | .setMute b => .isFalse fun ok => ok.noCommand b rfl
  | .setSource n =>
    decidable_of_iff (s.point = .clearCounter → s.dev.msTicks.toNat + muteDelay ≤ initMuteDelay)
      ⟨fun wait => ⟨by simp, fun _ _ => wait, by simp⟩, fun ok => ok.notBooting n rfl⟩
  | .sysTick | .setGain _ | .setVol _ | .save => .isTrue ⟨by simp, by simp, by simp⟩

theorem timed_start (d : Device) : Timed (start d) := by
  constructor <;> simp [start, LongEnough]

/-- A countdown that has ended once the start-up wait is over has lasted long enough. -/
theorem timed_elapsed (valid : Timed s) (here : s.point = .startUnmute ∨ s.point = .unmute)
    (counter : s.dev.muteCounter = 0) (t : Nat) (found : s.ticksSince = some t) : muteDelay ≤ t := by
  have started : s.point ≠ .clearCounter ∧ s.point ≠ .waitInit := by
    rcases here with here | here <;> simp [here]
  rcases valid.ended started.1 counter t found with long | ⟨waiting, _⟩
  · exact long
  · exact absurd waiting started.2

theorem timed_main (s : Sys) (valid : Timed s) (ok : Unhurried s .main) : Timed (mainStep s) := by
  have since := mainStep_ticksSince s
  rcases mainStep_cases s with ⟨here, next, dev⟩ | ⟨here, dev⟩ | ⟨here, next, dev⟩ | quiet
  · constructor <;> simp only [LongEnough, since, next, dev]
    · exact valid.pin
    · simp
    · simp
    · exact fun _ _ t found => .inr ⟨trivial, valid.booting here t found⟩
  · have unmuting := here.imp And.left And.left
    have counter := ok.atEnd rfl unmuting
    have elapsed := timed_elapsed valid unmuting counter
    have left : (mainStep s).point ≠ .clearCounter := by
      rcases here with ⟨_, next⟩ | ⟨_, next⟩ <;> simp [next]
    constructor <;> simp only [LongEnough, since, dev, setMute_muteCounter, counter]
    · exact fun _ => elapsed
    · simp
    · exact fun atStart => absurd atStart left
    · exact fun _ _ t found => .inl (elapsed t found)
  · constructor <;> simp only [LongEnough, since, next, dev]
    · exact valid.pin
    · simp
    · simp
    · simp
  · constructor
    · simpa only [LongEnough, since, quiet.mutePin] using valid.pin
    · simpa only [since, quiet.muteCounter] using valid.running
    · exact fun atStart => absurd atStart quiet.next.1
    · rw [since, quiet.muteCounter, quiet.msTicks]
      intro _ counter t found
      rcases valid.ended quiet.here counter t found with long | ⟨waiting, wait⟩
      · exact .inl long
      · rcases quiet.waiting waiting with still | passed
        · exact .inr ⟨still, wait⟩
        · exact .inl (by omega)

theorem timed_tick (s : Sys) (valid : Timed s) : Timed (step s .sysTick) := by
  have ticks : (s.dev.msTicks + 1).toNat ≤ s.dev.msTicks.toNat + 1 := by
    rw [BitVec.toNat_add]
    exact Nat.mod_le _ _
  constructor <;> simp only [LongEnough, step, sysTickHandler, Option.map_eq_some_iff,
    forall_exists_index, and_imp, forall_apply_eq_imp_iff₂]
  · intro pin t found
    have long := valid.pin pin t found
    omega
  · intro counter t found
    split at counter
    · have running := valid.running ‹_› t found
      rw [if_pos ‹_›]
      omega
    · omega
  · intro here t found
    have booting := valid.booting here t found
    omega
  · intro here counter t found
    split at counter
    · have running := valid.running ‹_› t found
      exact .inl (by omega)
    · rcases valid.ended here counter t found with long | ⟨waiting, wait⟩
      · exact .inl (by omega)
      · exact .inr ⟨waiting, by omega⟩

theorem timed_step (s : Sys) (e : Event) (valid : Timed s) (ok : Unhurried s e) :
    Timed (step s e) := by
  cases e with
  | main => exact timed_main s valid ok
  | sysTick => exact timed_tick s valid
  | setSource n =>
    constructor <;> simp only [LongEnough, step, setSource_mutePin, setSource_muteCounter]
    · simp
    · rintro _ t ⟨⟩
      rfl
    · rintro here t ⟨⟩
      exact ok.notBooting n rfl here
    · simp
  | setGain n => exact ⟨valid.pin, valid.running, valid.booting, valid.ended⟩
  | setVol v =>
    obtain ⟨_, _, changed⟩ := setVol_eq s.dev v
    have same : step s (.setVol v) = { s with dev := _ } := congrArg (Sys.mk s.point s.ticksSince) changed
    rw [same]
    exact ⟨valid.pin, valid.running, valid.booting, valid.ended⟩
  | setMute b => exact absurd rfl (ok.noCommand b)
  | save => exact ⟨valid.pin, valid.running, valid.booting, valid.ended⟩

/-- Nothing is heard within `MUTE_DELAY` ticks of a source change. -/
theorem silent_after_change (d : Device) (events : List Event)
    (ok : Traces.Along step Unhurried (start d) events) : LongEnough (run (start d) events) :=
  (Traces.run_invariant timed_step (timed_start d) ok).pin

/-- A source change, its countdown, and the pass of the loop that ends it. -/
def changedOnce : List Event :=
  toLoop ++ .setSource 1 :: (List.replicate 1000 .sysTick ++ List.replicate 9 .main)

theorem silent_after_change_at_rest :
    LongEnough (run (start bootedDevice) changedOnce) ∧
      (run (start bootedDevice) changedOnce).dev.mutePin = true ∧
      (run (start bootedDevice) changedOnce).ticksSince = some 1000 :=
  ⟨silent_after_change bootedDevice changedOnce (by decide +kernel), by decide +kernel, by decide +kernel⟩

theorem heard_after_change : ¬ ∀ (d : Device) (events : List Event),
    boot erasedDevice 2000 = .ok d → (∀ e ∈ events, ∀ b, e ≠ .setMute b) →
    LongEnough (run (start d) events) := by
  intro holds
  -- a source change between the start-up wait and the `setMute(false)` after it
  have long := holds bootedDevice [.main, .main, .setSource 1, .main]
    bootedDevice_boots (by simp) (by decide) 0 (by decide)
  exact absurd long (by decide)

end Early

end AsdPre.MainLoopMute
