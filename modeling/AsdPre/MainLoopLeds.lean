import AsdPre.MainLoop

/-! The front panel: three LEDs of which the one of the selected source is lit. They are
written by the start of `main`, by `setMute` and by `setSource`, between any two
statements of the main loop. -/
namespace AsdPre.MainLoopLeds

open Firmware MainLoop

/-- Whether the LED of a source is lit. -/
def lit (leds : Leds) (led : Int) : Bool :=
  if led = 0 then leds.led2
  else if led = 1 then !leds.led1
  else if led = 2 then !leds.led0
  else false

/-- No LED is lit but that of the source, and that one is unless the amplifier is muted. -/
structure Shown (d : Device) : Prop where
  only : ∀ led, lit d.leds led = true → led = d.source
  sounding : d.mute = false → 0 ≤ d.source → d.source < sources → lit d.leds d.source = true

theorem lit_clearLeds (leds : Leds) (led : Int) : lit (clearLeds leds) led = false := by
  have dark : clearLeds leds = ⟨true, true, false⟩ := rfl
  simp only [dark, lit]
  split_ifs <;> rfl

theorem lit_setLed (leds : Leds) (led other : Int) :
    lit (setLed leds led) other = (lit leds other || decide (other = led ∧ 0 ≤ led ∧ led < 3)) := by
  simp only [setLed, lit]
  split_ifs <;> simp <;> omega

/-- Dark but for the LED of the source. -/
theorem shown_fresh {d : Device} {leds : Leds} (panel : d.leds = setLed (clearLeds leds) d.source) :
    Shown d := by
  refine ⟨fun led on => ?_, fun _ low high => ?_⟩
  · rw [panel, lit_setLed, lit_clearLeds] at on
    simp only [Bool.false_or, decide_eq_true_eq] at on
    exact on.1
  · have small : d.source < 3 := high
    rw [panel, lit_setLed]
    simp [low, small]

theorem shown_setMute {d : Device} (shown : Shown d) (on : Bool) : Shown (setMute d on) := by
  cases on with
  | true => exact ⟨fun led lit => by simp [setMute, lit_clearLeds] at lit, fun sounding => by cases sounding⟩
  | false =>
    refine ⟨fun led on => ?_, fun _ low high => ?_⟩
    · simp only [setMute, Bool.false_eq_true, if_false, lit_setLed, Bool.or_eq_true,
        decide_eq_true_eq] at on
      rcases on with before | now
      · exact shown.only led before
      · exact now.1
    · have small : d.source < 3 := high
      have low : 0 ≤ d.source := low
      simp [setMute, lit_setLed, low, small]

theorem shown_setSource (d : Device) (n : Int) : Shown (setSource d n) := by
  have dark : clearLed (clearLeds d.leds) d.source = clearLeds d.leds := by
    have constant : clearLeds d.leds = ⟨true, true, false⟩ := rfl
    simp only [constant, clearLed]
    split_ifs <;> rfl
  have panel : (setSource d n).leds = setLed (clearLeds d.leds) (setSource d n).source := by
    simp only [setSource, setMute, if_true, dark]
  exact shown_fresh panel

/-- `main` has set up the panel. -/
def Ready (p : Point) : Prop :=
  p ∉ [.clearCounter, .waitInit, .startUnmute, .startDark0, .startDark1, .startDark2, .startLed]

instance : Decidable (Ready p) := inferInstanceAs (Decidable (_ ∉ _))

/-- The LEDs that the start of `main` has switched off by then. -/
def swept : Point → Int
  | .clearCounter | .waitInit | .startUnmute | .startDark0 => 0
  | .startDark1 => 1
  | .startDark2 => 2
  | _ => 3

/-- The panel while it is being set up. -/
structure Panel (s : Sys) : Prop where
  only : ∀ led < swept s.point, lit s.dev.leds led = true → led = s.dev.source
  ready : Ready s.point → Shown s.dev

theorem shown_panel {s : Sys} (shown : Shown s.dev) : Panel s :=
  ⟨fun led _ => shown.only led, fun _ => shown⟩

theorem lit_clearLed (leds : Leds) (led other : Int) :
    lit (clearLed leds led) other = (lit leds other && !decide (other = led)) := by
  simp only [clearLed, lit]
  split_ifs <;> simp <;> omega

theorem lit_small (on : lit leds led = true) : 0 ≤ led ∧ led < 3 := by
  simp only [lit] at on
  split_ifs at on <;> omega

theorem panel_clearLed {s : Sys} (panel : Panel s) (led : Int) (next : Point) (here : swept s.point = led)
    (there : swept next = led + 1) (setting : ¬ Ready next) :
    Panel { s with point := next, dev := { s.dev with leds := clearLed s.dev.leds led } } := by
  refine ⟨fun other before on => ?_, fun ready => absurd ready setting⟩
  simp only [lit_clearLed, Bool.and_eq_true, Bool.not_eq_true', decide_eq_false_iff_not] at on
  simp only [there] at before
  exact panel.only other (by omega) on.1

theorem panel_startLed {s : Sys} (panel : Panel s) (here : s.point = .startLed) :
    Shown { s.dev with leds := setLed s.dev.leds s.dev.source } := by
  refine ⟨fun led on => ?_, fun _ low high => ?_⟩
  · simp only [lit_setLed, Bool.or_eq_true, decide_eq_true_eq] at on
    rcases on with before | now
    · exact panel.only led (by rw [here]; exact (lit_small before).2) before
    · exact now.1
  · have small : s.dev.source < 3 := high
    have low : 0 ≤ s.dev.source := low
    simp [lit_setLed, low, small]

theorem panel_setMute {s : Sys} (panel : Panel s) (newMute : Bool) (next : Point)
    (same : swept next = swept s.point) (ready : Ready next → Ready s.point) :
    Panel { s with point := next, dev := setMute s.dev newMute } := by
  refine ⟨fun led before on => ?_, fun now => shown_setMute (panel.ready (ready now)) newMute⟩
  rw [same] at before
  cases newMute with
  | true => simp [setMute, lit_clearLeds] at on
  | false =>
    simp only [setMute, Bool.false_eq_true, if_false, lit_setLed, Bool.or_eq_true, decide_eq_true_eq] at on
    rcases on with earlier | now
    · exact panel.only led before earlier
    · exact now.1

/-- A statement that leaves the panel alone. -/
theorem panel_frame {s s' : Sys} (panel : Panel s) (leds : s'.dev.leds = s.dev.leds)
    (mute : s'.dev.mute = s.dev.mute) (source : s'.dev.source = s.dev.source)
    (same : swept s'.point = swept s.point) (ready : Ready s'.point → Ready s.point) : Panel s' := by
  refine ⟨?_, fun now => ?_⟩
  · rw [leds, source, same]
    exact panel.only
  · obtain ⟨only, sounding⟩ := panel.ready (ready now)
    constructor
    · rwa [leds, source]
    · rwa [leds, source, mute]

/-- What a statement does to the panel. -/
theorem panel_main {s : Sys} (panel : Panel s) : Panel (mainStep s) := by
  cases h : s.point
  case startUnmute | unmute =>
    have moved := panel_setMute panel false (mainStep s).point (by simp [mainStep, h, swept])
      (by simp [mainStep, h, Ready])
    simpa [mainStep, h] using moved
  case startDark0 | startDark1 | startDark2 =>
    have moved := panel_clearLed panel (swept s.point) (mainStep s).point rfl (by simp [mainStep, h, swept])
      (by simp [mainStep, h, Ready])
    simpa [mainStep, h, swept] using moved
  case startLed =>
    have moved : (mainStep s).dev = { s.dev with leds := setLed s.dev.leds s.dev.source } := by
      simp [mainStep, h]
    apply shown_panel
    rw [moved]
    exact panel_startLed panel h
  case waitInit =>
    by_cases early : s.dev.msTicks.toNat < initMuteDelay <;>
      apply panel_frame panel <;> simp [mainStep, h, early, swept, Ready]
  case testSave =>
    cases save : s.dev.saveSettings <;> apply panel_frame panel <;>
      simp [mainStep, h, save, swept, Ready]
  case testMute =>
    by_cases ended : s.dev.muteCounter = 0 <;> apply panel_frame panel <;>
      simp [mainStep, h, ended, swept, Ready]
  all_goals
    apply panel_frame panel <;> simp [mainStep, h, storeSetting_eq, swept, Ready]

/-- What an event does to the panel. -/
theorem panel_step (s : Sys) (e : Event) (panel : Panel s) : Panel (step s e) := by
  cases e with
  | main => exact panel_main panel
  | setSource n => exact shown_panel (shown_setSource s.dev n)
  | setVol v =>
    obtain ⟨_, _, changed⟩ := setVol_eq s.dev v
    apply panel_frame panel <;> simp [step, changed]
  | setMute on => exact panel_setMute panel on s.point rfl id
  | sysTick | setGain | save => exact panel_frame panel rfl rfl rfl rfl id

/-- From the moment the panel is set up, and whatever interrupts when, no LED is lit but
that of the source, and that one is unless the amplifier is muted. -/
theorem source_shown (d : Device) (events : List Event) (ready : Ready (run (start d) events).point) :
    Shown (run (start d) events).dev := by
  have initial : Panel (start d) := by
    refine ⟨fun led before on => ?_, fun ready => by simp [Ready, start] at ready⟩
    have small := lit_small on
    simp only [start, swept] at before
    omega
  have preserved (s : Sys) (e : Event) (panel : Panel s) (_ : True) : Panel (step s e) := panel_step s e panel
  have final : Panel (run (start d) events) :=
    Traces.run_invariant preserved initial (Traces.along_of_forall _ _ fun _ _ => trivial)
  exact final.ready ready

/-- A source change before the start of `main` has switched the last LED off. -/
def changedEarly : List Event := [.main, .main, .main, .main, .setSource 1, .main, .main, .main]

theorem source_shown_early : Shown (run (start bootedDevice) changedEarly).dev :=
  source_shown bootedDevice changedEarly (by decide +kernel)

end AsdPre.MainLoopLeds
