import AsdPre.AppRefresh
import AsdPre.CommandFaults

/-! A session of the Android client over a network that loses things. The server closes a
connection that has been silent, so a message may fail before the server sees it; a
connection may also break after that, before the answer is back. Either way the client
tries once more on a new connection, and gives up after two failures in a row. Nothing
but the client acts on the amplifier here: no button or encoder, and `main` neither
unmutes nor saves between two tries. -/
namespace AsdPre.AppSession

open ByteMemory Firmware CommandServer CommandNumbers CommandFaults AndroidApp AppRefresh

/-- A message of the client's buttons and slider: a command that changes something, with
a number where the server wants one. -/
structure Message where
  verb : Verb
  arg : Option Int
  complete : arg.isSome = verb.takesArg
  changes : verb.takesArg = true ∨ verb = .save

def Message.text (m : Message) : List Byte :=
  match m.arg with
  | none => m.verb.name
  | some n => m.verb.name ++ 0x20#8 :: decimal n

/-- What the user does with the buttons and the slider. (What `onResume` asks for is in
`AppRefresh`.) -/
inductive Action where
  | toggle (checked : Bool)
  | radioSource (n : Fin 3) (checked : Bool)
  | radioGain (n : Fin 4) (checked : Bool)
  | seek (progress : Int)
  | stopTracking

/-- `onToggleClicked`, `onRadioButtonClicked`, `onProgressChanged` and
`onStopTrackingTouch`: the activity afterwards, and the message it sends, if any. -/
def Action.handle (app : App) : Action → App × Option Message
  | .toggle checked =>
    ({ app with mute := !checked }, some ⟨.setMute, some (if !checked then 1 else 0), rfl, .inl rfl⟩)
  | .radioSource n checked => (app, if checked then some ⟨.setSource, some n, rfl, .inl rfl⟩ else none)
  | .radioGain n checked => (app, if checked then some ⟨.setGain, some n, rfl, .inl rfl⟩ else none)
  | .seek progress =>
    let newVol := app.volmax + ((app.volmin - app.volmax) * (100 - progress)).tdiv 100
    ({ app with progress := progress }, some ⟨.setVol, some newVol, rfl, .inl rfl⟩)
  | .stopTracking => (app, some ⟨.save, none, rfl, .inr rfl⟩)

/-- What becomes of one try. -/
inductive Outcome where
  | answered
  | lostAnswer
  | lostRequest
  deriving DecidableEq, Repr

/-- One try: the device, and the value read from the answer unless there is an exception. -/
def tryOnce (d : Device) (message : List Byte) : Outcome → Option (Device × Option Int)
  | .answered => exchange d message
  | .lostAnswer => (exchange d message).map fun (d', _) => (d', none)
  | .lostRequest => some (d, none)

/-- `sendMessage` with what becomes of its tries: the device, `failCounter`, and the value
returned unless it throws. -/
def send (d : Device) (failCounter : Nat) (message : List Byte) (first second : Outcome) :
    Option (Device × Nat × Option Int) :=
  match tryOnce d message first with
  | none => none
  | some (d, some x) => some (d, 0, some x)
  | some (d, none) =>
    if failCounter ≥ 1 then some (d, failCounter + 1, none)
    else
      match tryOnce d message second with
      | none => none
      | some (d, some x) => some (d, 0, some x)
      | some (d, none) => some (d, failCounter + 2, none)

/-- The session so far: the messages that `sendMessage` was called with, and those for
which it returned. -/
structure Session where
  device : Device
  app : App
  requested : List Message
  returned : List Message

/-- A handler catches what `sendMessage` throws. -/
def step (s : Session) (action : Action) (first second : Outcome) : Option Session :=
  match action.handle s.app with
  | (app, none) => some { s with app := app }
  | (app, some m) =>
    (send s.device app.failCounter m.text first second).map fun (device, failCounter, value) =>
      { device := device
        app := { app with failCounter := failCounter }
        requested := s.requested ++ [m]
        returned := if value.isSome then s.returned ++ [m] else s.returned }

def run (s : Session) : List (Action × Outcome × Outcome) → Option Session
  | [] => some s
  | (action, first, second) :: rest => (step s action first second).bind fun s => run s rest

def begin (d : Device) (app : App) : Session := ⟨d, app, [], []⟩

/-- What the command does. -/
def Message.apply (m : Message) (d : Device) : Device :=
  match execute d (m.arg.map decimal) m.verb with
  | none => d
  | some (d', _) => d'

theorem execute_complete (d : Device) (m : Message) :
    execute d (m.arg.map decimal) m.verb = some (m.apply d, okReply) := by
  obtain ⟨verb, arg, complete, changes⟩ := m
  cases arg with
  | none =>
    have plain : verb = .save := by
      rcases changes with takes | save
      · simp [takes] at complete
      · exact save
    subst plain
    rfl
  | some n => cases verb <;> first | rfl | cases complete

/-- The server executes a message it gets, and the client can read the answer. -/
theorem exchange_text (d : Device) (m : Message) : exchange d m.text = some (m.apply d, some 0) := by
  have executed := execute_complete d m
  have zero : answerValue (readLine okReply) = some 0 := by decide
  obtain ⟨verb, arg, complete, changes⟩ := m
  cases arg with
  | none =>
    have sent : println (Message.text ⟨verb, none, complete, changes⟩) = plainLine verb := rfl
    have received := serverRecv_plain d verb
    simp only [Option.map_none] at executed
    rw [executed] at received
    simp [exchange, sent, received, zero]
  | some n =>
    have sent : println (Message.text ⟨verb, some n, complete, changes⟩) = numberLine verb n := rfl
    have received := serverRecv_number d verb n
    simp only [Option.map_some] at executed
    rw [executed] at received
    simp [exchange, sent, received, zero]

section Idempotence

variable (d : Device)

theorem setVol_setVol (v : BitVec 16) : setVol (setVol d v) v = setVol d v := by
  simp only [setVol, setVolMute, setVolLevel, dacSetVolume, dacMute, dacWriteReg]
  by_cases low : v.toInt ≤ volMin <;> by_cases high : v.toInt ≥ volMax <;> by_cases muted : d.dacMuted
  all_goals
    simp only [low, high, muted, if_true, if_false, Bool.false_eq_true]
    congr 1
    funext r
    grind

theorem clearLeds_eq (leds : Leds) : clearLeds leds = ⟨true, true, false⟩ := rfl

theorem setLed_setLed (leds : Leds) (led : Int) : setLed (setLed leds led) led = setLed leds led := by
  simp only [setLed]
  split_ifs <;> rfl

theorem setMute_setMute (on : Bool) : setMute (setMute d on) on = setMute d on := by
  cases on <;> simp [setMute, clearLeds_eq, setLed_setLed]

theorem clearLed_dark (led : Int) : clearLed ⟨true, true, false⟩ led = ⟨true, true, false⟩ := by
  simp only [clearLed]
  split_ifs <;> rfl

theorem setSource_setSource (r : SpiSlave.Registers) (idle : d.fpga = SpiSlave.idle r) (n : Int) :
    setSource (setSource d n) n = setSource d n := by
  simp [setSource, setMute, clearLeds_eq, clearLed_dark, idle]

theorem setGain_setGain (r : SpiSlave.Registers) (idle : d.fpga = SpiSlave.idle r) (n : Int) :
    setGain (setGain d n) n = setGain d n := by
  simp [setGain, idle]

/-- The FPGA's end of the bus is at rest, as it is after every command. -/
def AtRest (d : Device) : Prop := ∃ r, d.fpga = SpiSlave.idle r

variable {d}

theorem boot_atRest {r : SpiSlave.Registers} (idle : d.fpga = SpiSlave.idle r)
    (booted : boot d msTicks = .ok d') : AtRest d' := by
  have fpga := (boot_ok booted).fpga
  rw [idle, FpgaLink.fpgaInit_idle] at fpga
  exact ⟨_, (Except.ok.inj fpga).symm⟩

theorem apply_atRest (m : Message) (rest : AtRest d) : AtRest (m.apply d) := by
  obtain ⟨r, idle⟩ := rest
  obtain ⟨verb, arg, complete, -⟩ := m
  cases arg with
  | none => cases verb <;> exact ⟨r, idle⟩
  | some n =>
    cases verb
    case setVol =>
      obtain ⟨_, _, changed⟩ := setVol_eq d ((strtol (decimal n)).setWidth 16)
      exact ⟨r, by simp [Message.apply, execute, setter, changed, idle]⟩
    case setSource => exact ⟨_, by simp [Message.apply, execute, setter, idle]; rfl⟩
    case setGain => exact ⟨_, by simp [Message.apply, execute, setter, idle]; rfl⟩
    case setMute => exact ⟨r, idle⟩
    all_goals cases complete

/-- A command does the same when it comes a second time. -/
theorem apply_apply (m : Message) (rest : AtRest d) : m.apply (m.apply d) = m.apply d := by
  obtain ⟨r, idle⟩ := rest
  obtain ⟨verb, arg, complete, -⟩ := m
  cases arg with
  | none => cases verb <;> rfl
  | some n =>
    cases verb
    case setVol => exact setVol_setVol d _
    case setSource => exact setSource_setSource d r idle _
    case setGain => exact setGain_setGain d r idle _
    case setMute => exact setMute_setMute d _
    all_goals cases complete

end Idempotence

section Delivery

/-! What the network does to each message, and what becomes of the device. -/

def Outcome.reaches : Outcome → Bool
  | .lostRequest => false
  | _ => true

/-- The tries for one message: a second one if the first is not answered and it is the
first failure in a row. -/
def tries (failCounter : Nat) (first second : Outcome) : List Outcome :=
  if first = .answered ∨ failCounter ≥ 1 then [first] else [first, second]

def failuresAfter (failCounter : Nat) (tries : List Outcome) : Nat :=
  if .answered ∈ tries then 0 else failCounter + tries.length

/-- The messages of a session, each with its tries. -/
def exchanges (app : App) : List (Action × Outcome × Outcome) → List (Message × List Outcome)
  | [] => []
  | (action, first, second) :: rest =>
    match action.handle app with
    | (app, none) => exchanges app rest
    | (app, some m) =>
      let attempts := tries app.failCounter first second
      (m, attempts) :: exchanges { app with failCounter := failuresAfter app.failCounter attempts } rest

/-- The messages that reached the server at least once. -/
def delivered (log : List (Message × List Outcome)) : List Message :=
  (log.filter fun e => e.2.any Outcome.reaches).map Prod.fst

/-- The messages for which an answer came back. -/
def answered (log : List (Message × List Outcome)) : List Message :=
  (log.filter fun e => .answered ∈ e.2).map Prod.fst

variable {d : Device} (m : Message)

theorem tryOnce_eq (outcome : Outcome) : tryOnce d m.text outcome =
    some (if outcome.reaches then m.apply d else d, if outcome = .answered then some 0 else none) := by
  cases outcome <;> simp [tryOnce, exchange_text, Outcome.reaches]

/-- Two tries are as good as one. -/
theorem send_eq (rest : AtRest d) (failCounter : Nat) (first second : Outcome) :
    send d failCounter m.text first second =
      some (if (tries failCounter first second).any Outcome.reaches then m.apply d else d,
        failuresAfter failCounter (tries failCounter first second),
        if .answered ∈ tries failCounter first second then some 0 else none) := by
  have again := apply_apply m rest
  by_cases done : first = .answered
  · subst done
    simp [send, tryOnce_eq, tries, failuresAfter, Outcome.reaches]
  · by_cases tired : failCounter ≥ 1
    · simp [send, tryOnce_eq, tries, failuresAfter, done, tired, Ne.symm done]
    · cases first <;> cases second <;>
        simp_all [send, tryOnce_eq, tries, failuresAfter, Outcome.reaches]

/-- What a part of a session adds to it. -/
structure Extends (s s' : Session) (log : List (Message × List Outcome)) : Prop where
  requested : s'.requested = s.requested ++ log.map Prod.fst
  returned : s'.returned = s.returned ++ answered log
  device : s'.device = (delivered log).foldl (fun d m => m.apply d) s.device

/-- The log of one message, and the device after it. -/
theorem foldl_delivered (attempts : List Outcome) (log : List (Message × List Outcome)) (d : Device) :
    (delivered ((m, attempts) :: log)).foldl (fun d m => m.apply d) d =
      (delivered log).foldl (fun d m => m.apply d)
        (if attempts.any Outcome.reaches then m.apply d else d) := by
  by_cases reached : attempts.any Outcome.reaches <;> simp [delivered, reached]

theorem answered_cons (attempts : List Outcome) (log : List (Message × List Outcome)) :
    answered ((m, attempts) :: log) =
      (if .answered ∈ attempts then [m] else []) ++ answered log := by
  by_cases done : .answered ∈ attempts <;> simp [answered, done]

theorem step_message {s : Session} {m : Message} {app : App} {action : Action} (rest : AtRest s.device)
    (handled : action.handle s.app = (app, some m)) (first second : Outcome) :
    ∃ s', step s action first second = some s' ∧
      s'.app = { app with
        failCounter := failuresAfter app.failCounter (tries app.failCounter first second) } ∧
      s'.requested = s.requested ++ [m] ∧
      s'.returned = s.returned ++ (if .answered ∈ tries app.failCounter first second then [m] else []) ∧
      s'.device = if (tries app.failCounter first second).any Outcome.reaches then m.apply s.device else s.device := by
  have sent := send_eq m rest app.failCounter first second
  simp only [step, handled, sent, Option.map_some]
  refine ⟨_, rfl, rfl, rfl, ?_, rfl⟩
  by_cases done : Outcome.answered ∈ tries app.failCounter first second <;> simp [done]

theorem run_extends (s : Session) (rest : AtRest s.device) (script : List (Action × Outcome × Outcome)) :
    ∃ s', run s script = some s' ∧ Extends s s' (exchanges s.app script) := by
  induction script generalizing s with
  | nil => exact ⟨s, rfl, by simp [exchanges], by simp [exchanges, answered], rfl⟩
  | cons entry script ih =>
    obtain ⟨action, first, second⟩ := entry
    rcases handled : action.handle s.app with ⟨app, message⟩
    cases message with
    | none =>
      obtain ⟨s', ran, more⟩ := ih { s with app := app } rest
      refine ⟨s', by simp [run, step, handled, ran], ?_⟩
      simp only [exchanges, handled]
      exact ⟨more.requested, more.returned, more.device⟩
    | some m =>
      obtain ⟨s₁, stepped, app₁, requested₁, returned₁, device₁⟩ := step_message rest handled first second
      have rest₁ : AtRest s₁.device := by
        rw [device₁]
        split
        · exact apply_atRest m rest
        · exact rest
      obtain ⟨s₂, ran, more⟩ := ih s₁ rest₁
      refine ⟨s₂, by simp [run, stepped, ran], ?_⟩
      rw [app₁] at more
      simp only [exchanges, handled]
      refine ⟨?_, ?_, ?_⟩
      · rw [more.requested, requested₁, List.append_assoc]
        rfl
      · rw [more.returned, returned₁, answered_cons, List.append_assoc]
      · rw [more.device, device₁, foldl_delivered]

/-- Whatever the network loses, the device ends up as if the messages that reached it had
been executed once each, in the order in which the user acted, although some reached it
twice; the client knows of exactly those that were answered. -/
theorem executed_once (d : Device) (app : App) (rest : AtRest d)
    (script : List (Action × Outcome × Outcome)) :
    ∃ s, run (begin d app) script = some s ∧
      s.requested = (exchanges app script).map Prod.fst ∧ s.returned = answered (exchanges app script) ∧
      s.device = (delivered (exchanges app script)).foldl (fun d m => m.apply d) d := by
  obtain ⟨s, ran, more⟩ := run_extends (begin d app) rest script
  exact ⟨s, ran, more.requested, more.returned, more.device⟩

/-- A volume whose first answer is lost, a gain for which no answer comes back, and a source
that after this failure gets one try only. -/
def lossy : List (Action × Outcome × Outcome) :=
  [(.seek 50, .lostAnswer, .answered), (.radioGain ⟨2, by decide⟩ true, .lostRequest, .lostAnswer),
    (.radioSource ⟨1, by decide⟩ true, .lostRequest, .answered)]

theorem executed_once_lost_answer :
    (exchanges freshApp lossy).map Prod.snd =
        [[.lostAnswer, .answered], [.lostRequest, .lostAnswer], [.lostRequest]] ∧
      ∃ s, run (begin bootedDevice freshApp) lossy = some s ∧
        s.requested.map Message.verb = [.setVol, .setGain, .setSource] ∧
        s.returned.map Message.verb = [.setVol] ∧
        s.device = (delivered (exchanges freshApp lossy)).foldl (fun d m => m.apply d) bootedDevice := by
  obtain ⟨s, ran, requested, returned, device⟩ :=
    executed_once bootedDevice freshApp (boot_atRest (r := ⟨2, 0⟩) rfl bootedDevice_boots) lossy
  refine ⟨rfl, s, ran, ?_, ?_, device⟩
  · rw [requested]
    rfl
  · rw [returned]
    decide

end Delivery

end AsdPre.AppSession
