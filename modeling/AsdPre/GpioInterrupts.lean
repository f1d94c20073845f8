import AsdPre.Firmware
import AsdPre.Traces

/-! The two GPIO handlers and the flag word they share. Flags can be raised between
any two statements of a handler; a handler is entered only when none runs. -/
namespace AsdPre.GpioInterrupts

open Firmware

inductive Flag where
  | eth
  | source
  | sd
  | volEven
  | volOdd
  deriving DecidableEq, Repr

/-- `INT_ETH`, `INT_SOURCE`, `INT_SD`, `INT_VOL_EVEN`, `INT_VOL_ODD`. -/
def Flag.mask : Flag → BitVec 32
  | .eth => 0x10
  | .source => 0x40
  | .sd => 0x80
  | .volEven => 0x4000
  | .volOdd => 0x8000

/-- The test `ints & INT_…`. -/
def has (ints : BitVec 32) (f : Flag) : Bool := ints &&& f.mask ≠ 0#32

/-- `GPIO_IntClear` -/
def intClear (pending flags : BitVec 32) : BitVec 32 := pending &&& ~~~flags

inductive Handler where
  | even
  | odd
  deriving DecidableEq, Repr

def Handler.volFlag : Handler → Flag
  | .even => .volEven
  | .odd => .volOdd

/-- The statement a running handler executes next, with its local `ints`. -/
inductive Point where
  | idle
  | clear (h : Handler) (ints : BitVec 32)
  | vol (h : Handler) (ints : BitVec 32)
  | source (ints : BitVec 32)
  | debounce (ints : BitVec 32)
  | select (ints : BitVec 32)
  | eth (ints : BitVec 32)
  | sd (ints : BitVec 32)
  deriving DecidableEq, Repr

/-- What has happened, oldest first. `cycleSource` stands for the call, `debounced`
for the flag it clears after its wait. -/
inductive Entry where
  | raised (f : Flag)
  | updateVol
  | cycleSource
  | debounced
  | netIRQ
  | mountUnmount
  deriving DecidableEq, Repr

structure Gpio where
  pending : BitVec 32
  point : Point
  dev : Device
  log : List Entry

/-- Levels of the encoder's contacts and of the source button. -/
structure Pins where
  a : Bool
  b : Bool
  button : Bool

/-- One statement of the running handler. -/
def advance (s : Gpio) (pins : Pins) : Gpio :=
  match s.point with
  | .idle => s
  | .clear h ints =>
    { s with
      pending := intClear s.pending ints
      point := if s.dev.init then .vol h ints else .idle }
  | .vol h ints =>
    let next := match h with
      | .even => Point.source ints
      | .odd => Point.sd ints
    if has ints h.volFlag then
      { s with point := next, dev := updateVol s.dev pins.a pins.b, log := s.log ++ [.updateVol] }
    else
      { s with point := next }
  | .source ints =>
    if has ints .source then { s with point := .debounce ints, log := s.log ++ [.cycleSource] }
    else { s with point := .eth ints }
  | .debounce ints =>
    { s with
      pending := intClear s.pending Flag.source.mask
      point := .select ints
      log := s.log ++ [.debounced] }
  | .select ints => { s with point := .eth ints, dev := cycleSource s.dev pins.button }
  | .eth ints =>
    { s with point := .idle, log := if has ints .eth then s.log ++ [.netIRQ] else s.log }
  | .sd ints =>
    { s with point := .idle, log := if has ints .sd then s.log ++ [.mountUnmount] else s.log }

inductive Event where
  | raise (f : Flag)
  | enter (h : Handler)
  | advance (pins : Pins)

/-- Entering a handler is its `GPIO_IntGet`, which reads the flags of all lines. -/
def step (s : Gpio) : Event → Gpio
  | .raise f => { s with pending := s.pending ||| f.mask, log := s.log ++ [.raised f] }
  | .enter h => if s.point = .idle then { s with point := .clear h s.pending } else s
  | .advance pins => GpioInterrupts.advance s pins

/-- No handler running and nothing recorded yet. -/
def start (d : Device) (pending : BitVec 32) : Gpio := ⟨pending, .idle, d, []⟩

def run (s : Gpio) (events : List Event) : Gpio := Traces.run step s events

/-- The actions that deal with a flag; the debounce counts for the button's. -/
def serves : Entry → Flag → Bool
  | .updateVol, .volEven | .updateVol, .volOdd => true
  | .cycleSource, .source | .debounced, .source => true
  | .netIRQ, .eth => true
  | .mountUnmount, .sd => true
  | _, _ => false

/-- Every raised flag is still pending or has been served since. -/
def NothingLost (s : Gpio) : Prop :=
  ∀ f before after, s.log = before ++ .raised f :: after →
    has s.pending f = true ∨ ∃ e ∈ after, serves e f = true

section Bits

def Flag.line : Flag → Nat
  | .eth => 4
  | .source => 6
  | .sd => 7
  | .volEven => 14
  | .volOdd => 15

theorem has_eq (ints : BitVec 32) (f : Flag) : has ints f = ints.getLsbD f.line := by
  have single : f.mask = BitVec.twoPow 32 f.line := by cases f <;> rfl
  have nonzero : BitVec.twoPow 32 f.line ≠ 0#32 := by cases f <;> decide
  rw [has, single, BitVec.and_twoPow]
  cases ints.getLsbD f.line <;> simp [nonzero]

theorem has_mask (f g : Flag) : has g.mask f = decide (f = g) := by
  cases f <;> cases g <;> rfl

@[simp] theorem has_raise (pending : BitVec 32) (f g : Flag) :
    has (pending ||| g.mask) f = (has pending f || decide (f = g)) := by
  rw [← has_mask, has_eq, has_eq, has_eq, BitVec.getLsbD_or]

@[simp] theorem has_intClear (pending flags : BitVec 32) (f : Flag) :
    has (intClear pending flags) f = (has pending f && !has flags f) := by
  have inRange : f.line < 32 := by cases f <;> decide
  simp [has_eq, intClear, inRange]

end Bits

/-- A flag was raised and no action for it has been logged since. -/
def Unserved (log : List Entry) (f : Flag) : Prop :=
  ∃ before after, log = before ++ .raised f :: after ∧ ∀ e ∈ after, serves e f = false

theorem unserved_concat {log : List Entry} {e : Entry} {f : Flag} (unserved : Unserved (log ++ [e]) f) :
    e = .raised f ∨ Unserved log f ∧ serves e f = false := by
  obtain ⟨before, after, split, none⟩ := unserved
  rcases List.eq_nil_or_concat after with rfl | ⟨earlier, last, rfl⟩
  · left
    exact (List.append_inj_right' split rfl |> List.cons.inj).1
  · right
    rw [List.concat_eq_append, ← List.cons_append, ← List.append_assoc] at split
    obtain ⟨same, rest⟩ := List.append_inj' split rfl
    cases rest
    exact ⟨⟨before, earlier, same, fun e member => none e (by simp [member])⟩, none e (by simp)⟩

/-- The actions for a flag that the running handler still has before it. -/
def owes : Point → Flag → Bool
  | .idle, _ => false
  | .clear .even ints, f | .vol .even ints, f =>
    serves .updateVol f && has ints .volEven || serves .cycleSource f && has ints .source ||
      serves .netIRQ f && has ints .eth
  | .clear .odd ints, f | .vol .odd ints, f =>
    serves .updateVol f && has ints .volOdd || serves .mountUnmount f && has ints .sd
  | .source ints, f => serves .cycleSource f && has ints .source || serves .netIRQ f && has ints .eth
  | .debounce ints, f => serves .debounced f || serves .netIRQ f && has ints .eth
  | .select ints, f | .eth ints, f => serves .netIRQ f && has ints .eth
  | .sd ints, f => serves .mountUnmount f && has ints .sd

/-- A handler that reads these flags has an action for each of them. -/
def OwnFlags (pending : BitVec 32) : Handler → Prop
  | .even => has pending .sd = false ∧ (has pending .volOdd = true → has pending .volEven = true)
  | .odd => has pending .eth = false ∧ has pending .source = false ∧
      (has pending .volEven = true → has pending .volOdd = true)

theorem ownFlags_iff (ints : BitVec 32) (h : Handler) :
    OwnFlags ints h ↔ ∀ f, has ints f = true → owes (.clear h ints) f = true := by
  constructor
  · intro own f found
    cases h <;> cases f <;> simp_all [OwnFlags, owes, serves]
  · intro all
    have sd := all .sd
    have eth := all .eth
    have source := all .source
    have even := all .volEven
    have odd := all .volOdd
    cases h <;> simp_all [OwnFlags, owes, serves]

structure Accounted (s : Gpio) : Prop where
  ready : s.dev.init = true
  owed : ∀ f, Unserved s.log f → has s.pending f = true ∨ owes s.point f = true
  read : ∀ h ints, s.point = .clear h ints → OwnFlags ints h

theorem accounted_raise (valid : Accounted s) (f : Flag) : Accounted (step s (.raise f)) := by
  refine ⟨valid.ready, fun g unserved => ?_, valid.read⟩
  rcases unserved_concat unserved with raised | ⟨old, _⟩
  · cases raised
    simp [step]
  · rcases valid.owed g old with pending | owed
    · simp [step, pending]
    · exact .inr owed

/-- A statement without an action passes on what was pending or owed. -/
theorem accounted_silent {s s' : Gpio} (valid : Accounted s) (ready : s'.dev.init = s.dev.init)
    (log : s'.log = s.log) (inside : ∀ h ints, s'.point ≠ .clear h ints)
    (kept : ∀ f, has s.pending f = true ∨ owes s.point f = true →
      has s'.pending f = true ∨ owes s'.point f = true) : Accounted s' where
  ready := ready.trans valid.ready
  owed f unserved := kept f (valid.owed f (log ▸ unserved))
  read h ints here := absurd here (inside h ints)

/-- An action passes on what it does not serve. -/
theorem accounted_logged {s s' : Gpio} (valid : Accounted s) (ready : s'.dev.init = s.dev.init)
    (e : Entry) (action : ∀ f, e ≠ .raised f) (log : s'.log = s.log ++ [e])
    (inside : ∀ h ints, s'.point ≠ .clear h ints)
    (kept : ∀ f, serves e f = false → has s.pending f = true ∨ owes s.point f = true →
      has s'.pending f = true ∨ owes s'.point f = true) : Accounted s' where
  ready := ready.trans valid.ready
  owed f unserved := by
    rcases unserved_concat (log ▸ unserved) with raised | ⟨old, other⟩
    · exact absurd raised (action f)
    · exact kept f other (valid.owed f old)
  read h ints here := absurd here (inside h ints)

theorem accounted_advance (valid : Accounted s) (pins : Pins) : Accounted (advance s pins) := by
  cases h : s.point with
  | idle => simpa [advance, h] using valid
  | clear handler ints =>
    have own := (ownFlags_iff ints handler).mp (valid.read handler ints h)
    simp only [advance, h, valid.ready, if_true]
    refine accounted_silent valid rfl rfl (by simp) fun f known => ?_
    have same : owes (.vol handler ints) f = owes (.clear handler ints) f := by cases handler <;> rfl
    rw [same, has_intClear]
    rcases known with pending | owed
    · cases cleared : has ints f with
      | true => exact .inr (own f cleared)
      | false => simp [pending]
    · exact .inr (h ▸ owed)
  | vol handler ints =>
    cases turned : has ints handler.volFlag <;> simp only [advance, h, turned, if_true, Bool.false_eq_true, if_false]
    · refine accounted_silent valid rfl rfl (by cases handler <;> simp) fun f known => ?_
      cases handler <;> simp_all [owes, Handler.volFlag]
    · refine accounted_logged valid (by simp) .updateVol (by simp) rfl (by cases handler <;> simp)
        fun f other known => ?_
      cases handler <;> simp_all [owes]
  | source ints =>
    cases pressed : has ints .source <;> simp only [advance, h, pressed, if_true, Bool.false_eq_true, if_false]
    · refine accounted_silent valid rfl rfl (by simp) fun f known => ?_
      simp_all [owes]
    · refine accounted_logged valid rfl .cycleSource (by simp) rfl (by simp) fun f other known => ?_
      simp only [h, owes, other, Bool.false_and, Bool.false_or] at known
      exact known.imp_right fun packet => by simp [owes, packet]
  | debounce ints =>
    simp only [advance, h]
    refine accounted_logged valid rfl .debounced (by simp) rfl (by simp) fun f other known => ?_
    have notSource : f ≠ .source := by rintro rfl; cases other
    simp_all [owes, has_mask]
  | select ints =>
    simp only [advance, h]
    refine accounted_silent valid (by simp) rfl (by simp) fun f known => ?_
    simp_all [owes]
  | eth ints =>
    cases packet : has ints .eth <;> simp only [advance, h, packet, if_true, Bool.false_eq_true, if_false]
    · refine accounted_silent valid rfl rfl (by simp) fun f known => ?_
      simp_all [owes]
    · refine accounted_logged valid rfl .netIRQ (by simp) rfl (by simp) fun f other known => ?_
      simp_all [owes]
  | sd ints =>
    cases card : has ints .sd <;> simp only [advance, h, card, if_true, Bool.false_eq_true, if_false]
    · refine accounted_silent valid rfl rfl (by simp) fun f known => ?_
      simp_all [owes]
    · refine accounted_logged valid rfl .mountUnmount (by simp) rfl (by simp) fun f other known => ?_
      simp_all [owes]

/-- A handler is entered only on flags it has actions for. -/
def EntersOnOwn (s : Gpio) (e : Event) : Prop :=
  ∀ h, e = .enter h → s.point = .idle → OwnFlags s.pending h

theorem accounted_step (s : Gpio) (e : Event) (valid : Accounted s) (ok : EntersOnOwn s e) :
    Accounted (step s e) := by
  cases e with
  | raise f => exact accounted_raise valid f
  | enter h =>
    simp only [step]
    split
    · rename_i idle
      refine ⟨valid.ready, fun f unserved => ?_, ?_⟩
      · have known := valid.owed f unserved
        simp only [idle, owes, Bool.false_eq_true, or_false] at known
        exact .inl known
      · rintro _ _ ⟨⟩
        exact ok h rfl idle
    · exact valid
  | advance pins => exact accounted_advance valid pins

/-- With no handler running, every flag raised so far is pending or served. -/
theorem no_event_lost (d : Device) (pending : BitVec 32) (events : List Event)
    (ready : d.init = true) (ok : Traces.Along step EntersOnOwn (start d pending) events)
    (finished : (run (start d pending) events).point = .idle) :
    NothingLost (run (start d pending) events) := by
  have initial : Accounted (start d pending) := by
    refine ⟨ready, ?_, by simp [start]⟩
    rintro f ⟨before, after, split, _⟩
    simp [start] at split
  have final : Accounted (run (start d pending) events) :=
    Traces.run_invariant accounted_step initial ok
  intro f before after split
  by_cases served : ∃ e ∈ after, serves e f = true
  · exact .inr served
  · have unserved : Unserved (run (start d pending) events).log f :=
      ⟨before, after, split, fun e member => by simpa using fun serving => served ⟨e, member, serving⟩⟩
    rcases final.owed f unserved with waiting | owed
    · exact .inl waiting
    · rw [finished] at owed
      cases owed

/-- A pin reading with nothing pressed. -/
def restingPins : Pins := ⟨false, false, true⟩

/-- A packet arrives, then the card moves while its handler runs. -/
theorem no_event_lost_packet :
    NothingLost (run (start bootedDevice 0) [.raise .eth, .enter .even, .raise .sd, .advance restingPins,
      .advance restingPins, .advance restingPins, .advance restingPins]) := by
  refine no_event_lost bootedDevice 0 _ rfl ⟨?_, ?_, ?_, ?_, ?_, ?_, ?_, trivial⟩ (by decide)
  case refine_2 =>
    rintro _ ⟨⟩ _
    exact ⟨by decide, by decide⟩
  all_goals rintro _ ⟨⟩

/-- The handler for the packet also clears the flag of the card, and never looks at it. -/
theorem card_event_lost : ¬ ∀ (d : Device) (pending : BitVec 32) (events : List Event),
    boot erasedDevice 2000 = .ok d → d.init = true → (run (start d pending) events).point = .idle →
    NothingLost (run (start d pending) events) := by
  intro holds
  have lost := holds bootedDevice 0 [.raise .sd, .raise .eth, .enter .even, .advance restingPins,
    .advance restingPins, .advance restingPins, .advance restingPins] bootedDevice_boots rfl (by decide)
    .sd [] [.raised .eth, .netIRQ] (by decide)
  exact absurd lost (by decide)

end AsdPre.GpioInterrupts
