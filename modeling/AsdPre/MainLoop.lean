import AsdPre.Firmware
import AsdPre.Traces

/-! The main program after `init = true`, statement by statement, with interrupts
between any two statements. A handler is one step: `main` never runs while it does. -/
namespace AsdPre.MainLoop

open ByteMemory ConfigStore ConfigMap Firmware

/-- The statement that `main` executes next. -/
inductive Point where
  | clearCounter
  | waitInit
  | startUnmute
  | startDark0
  | startDark1
  | startDark2
  | startLed
  | head
  | testSave
  | clearSave
  | saveVolume
  | saveSource
  | saveGain
  | flush
  | testMute
  | unmute
  | clearMute
  deriving DecidableEq, Repr

/-- The program, with the number of SysTick ticks since `setSource` last completed. -/
structure Sys where
  point : Point
  ticksSince : Option Nat
  dev : Device

/-- A stored setting; a panic inside `setUint32` would stop the program here. -/
def storeSetting (s : Sys) (next : Point) (key : Key) (val : BitVec 32) : Sys :=
  match setUint32 s.dev.config key.id val with
  | .ok config => { s with point := next, dev := { s.dev with config := config } }
  | .error _ => s

/-- One statement of `main`. -/
def mainStep (s : Sys) : Sys :=
  match s.point with
  | .clearCounter => { s with point := .waitInit, dev := { s.dev with muteCounter := 0 } }
  | .waitInit => if s.dev.msTicks.toNat < initMuteDelay then s else { s with point := .startUnmute }
  | .startUnmute => { s with point := .startDark0, dev := setMute s.dev false }
  | .startDark0 => { s with point := .startDark1, dev := { s.dev with leds := clearLed s.dev.leds 0 } }
  | .startDark1 => { s with point := .startDark2, dev := { s.dev with leds := clearLed s.dev.leds 1 } }
  | .startDark2 => { s with point := .startLed, dev := { s.dev with leds := clearLed s.dev.leds 2 } }
  | .startLed => { s with point := .head, dev := { s.dev with leds := setLed s.dev.leds s.dev.source } }
  | .head => { s with point := .testSave }
  | .testSave => { s with point := if s.dev.saveSettings then .clearSave else .testMute }
  | .clearSave => { s with point := .saveVolume, dev := { s.dev with saveSettings := false } }
  | .saveVolume => storeSetting s .saveSource volumeKey (s.dev.volume.signExtend 32)
  | .saveSource => storeSetting s .saveGain sourceKey (BitVec.ofInt 32 s.dev.source)
  | .saveGain => storeSetting s .flush gainKey (BitVec.ofInt 32 s.dev.gain)
  | .flush => { s with point := .testMute, dev := { s.dev with config := flushConfig s.dev.config } }
  | .testMute => { s with point := if s.dev.muteCounter = 0 then .unmute else .head }
  | .unmute => { s with point := .clearMute, dev := setMute s.dev false }
  | .clearMute => { s with point := .head, dev := { s.dev with muteCounter := -1 } }

/-- A statement of `main`, or an interrupt: a tick, or a handler that ends up in one
of the functions that commands, the button and the encoder call. -/
inductive Event where
  | main
  | sysTick
  | setSource (newSource : Int)
  | setGain (newGain : Int)
  | setVol (newVolume : BitVec 16)
  | setMute (newMute : Bool)
  | save
  deriving DecidableEq, Repr

def step (s : Sys) : Event → Sys
  | .main => mainStep s
  | .sysTick => { s with ticksSince := s.ticksSince.map (· + 1), dev := sysTickHandler s.dev }
  | .setSource n => { s with ticksSince := some 0, dev := setSource s.dev n }
  | .setGain n => { s with dev := setGain s.dev n }
  | .setVol v => { s with dev := setVol s.dev v }
  | .setMute b => { s with dev := setMute s.dev b }
  | .save => { s with dev := { s.dev with saveSettings := true } }

/-- The program right after `init = true`. -/
def start (d : Device) : Sys := ⟨.clearCounter, none, d⟩

def run (s : Sys) (events : List Event) : Sys := Traces.run step s events

/-- From there to the loop, where the wait is already over. -/
def toLoop : List Event := List.replicate 7 .main

/-- The settings have ids that no setter refuses, so saving never stops. -/
theorem storeSetting_eq (s : Sys) (next : Point) (key : Key) (val : BitVec 32) :
    storeSetting s next key val = { s with point := next, dev := { s.dev with config :=
      { s.dev.config with mem := putLine s.dev.config.mem key.id (leBytes 4 val.toNat) } } } := by
  have stored : setUint32 s.dev.config key.id val = _ := set_eq_putLine s.dev.config key (.uint32 val)
  simp only [storeSetting, stored]
  rfl

end AsdPre.MainLoop
