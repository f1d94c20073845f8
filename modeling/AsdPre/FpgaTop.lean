import AsdPre.AudioPath
import AsdPre.SpiSlave
import AsdPre.Traces

/-! The whole FPGA: the SPI slave, the source multiplexer with its clock switch, and
the audio path, as pins change one after another in any order. The bit clock is the
selected input's; the audio registers act on its edges and on nothing else. The clock
switch is a plain multiplexer here: what the primitive does to a pulse it cuts when
the source changes is not modelled. -/
namespace AsdPre.FpgaTop

open AudioPath ShiftRegister

/-- The input pins that some output depends on, those of the SPI bus apart. -/
inductive Pin where
  | audioOsc
  | spdifCoax
  | spdifToslink
  | scki1
  | lrcki1
  | bcki1
  | din1
  | lrcki2
  | bcki2
  | din2
  deriving DecidableEq, Repr

/-- What the multiplexer selects. -/
structure Routed where
  spdif : Bool
  clockSource : Bool
  sck : Bool
  lrck : Bool
  data : Bool
  deriving DecidableEq, Repr

def sourceMux (source : BitVec 2) (pins : Pin → Bool) : Routed :=
  match source.toNat with
  | 0 => ⟨pins .spdifCoax, true, pins .audioOsc, pins .lrcki2, pins .din2⟩
  | 1 => ⟨pins .spdifToslink, false, pins .scki1, pins .lrcki1, pins .din1⟩
  | 2 => ⟨pins .spdifCoax, false, pins .scki1, pins .lrcki1, pins .din1⟩
  | _ => ⟨pins .spdifCoax, false, pins .scki1, pins .lrcki1, pins .din1⟩

structure Chip where
  pins : Pin → Bool
  spi : SpiSlave.State
  audio : AudioPath.State

namespace Chip

def routed (c : Chip) : Routed := sourceMux c.spi.source c.pins

/-- `bck_bufg` -/
def bck (c : Chip) : Bool := if c.routed.clockSource then c.pins .bcki2 else c.pins .bcki1

/-- The output pins. -/
structure Outputs where
  int : Bool
  miso : Bool
  spdif : Bool
  scko2 : Bool
  scko : Bool
  lrcko : Bool
  bcko : Bool
  dout : Bool
  deriving DecidableEq, Repr

def outputs (c : Chip) : Outputs where
  int := false
  miso := c.spi.miso
  spdif := c.routed.spdif
  scko2 := c.pins .audioOsc
  scko := c.routed.sck
  lrcko := c.audio.pts.lrck
  bcko := c.bck
  dout := c.audio.pts.dout

end Chip

/-- An edge on the SPI bus, or a new level on another pin. -/
inductive Event where
  | spi (e : SpiSlave.Edge)
  | level (pin : Pin) (value : Bool)
  deriving DecidableEq, Repr

/-- An edge of the bit clock with what the registers sample there. -/
inductive BckEdge where
  | rise (lrck din : Bool)
  | fall (gain : BitVec 2)
  deriving DecidableEq, Repr

/-- `u_stp` acts on rising edges, `u_pts` on falling ones, through `u_gain`. -/
def edgeStep (s : AudioPath.State) : BckEdge → AudioPath.State
  | .rise lrck din => { s with stp := s.stp.posedge lrck din }
  | .fall gain =>
    let amplified := AudioGain.gain gain s.stp.sync s.stp.left s.stp.right
    { s with pts := s.pts.negedge amplified.syncOut amplified.leftOut amplified.rightOut }

/-- The inputs change; the SPI registers follow their own clock. -/
def react (c : Chip) : Event → Chip
  | .spi e => { c with spi := SpiSlave.edge c.spi e }
  | .level pin value => { c with pins := Function.update c.pins pin value }

/-- The edge, if any, that an event puts on the bit clock. -/
def bckEdge (c : Chip) (e : Event) : Option BckEdge :=
  let after := react c e
  match c.bck, after.bck with
  | false, true => some (.rise after.routed.lrck after.routed.data)
  | true, false => some (.fall after.spi.gain)
  | _, _ => none

def step (c : Chip) (e : Event) : Chip :=
  let after := react c e
  match bckEdge c e with
  | some edge => { after with audio := edgeStep c.audio edge }
  | none => after

def run (c : Chip) (trace : List Event) : Chip := Traces.run step c trace

theorem run_append (c : Chip) (as bs : List Event) : run c (as ++ bs) = run (run c as) bs :=
  Traces.run_append ..

/-- The edges of the bit clock along a run. -/
def edges (c : Chip) : List Event → List BckEdge
  | [] => []
  | e :: rest => (bckEdge c e).toList ++ edges (step c e) rest

/-- `(LRCKO, DOUT)` after each falling edge of the bit clock: what the DAC samples. -/
def shown (c : Chip) : List Event → List (Bool × Bool)
  | [] => []
  | e :: rest =>
    match bckEdge c e with
    | some (.fall _) =>
      ((step c e).outputs.lrcko, (step c e).outputs.dout) :: shown (step c e) rest
    | _ => shown (step c e) rest

section Edges

/-! The run of the audio registers is determined by the edges. -/

theorem step_pins (c : Chip) (e : Event) : (step c e).pins = (react c e).pins := by
  simp only [step]
  cases bckEdge c e <;> rfl

theorem step_spi (c : Chip) (e : Event) : (step c e).spi = (react c e).spi := by
  simp only [step]
  cases bckEdge c e <;> rfl

theorem step_bck (c : Chip) (e : Event) : (step c e).bck = (react c e).bck := by
  rw [Chip.bck, Chip.routed, step_pins, step_spi]
  rfl

theorem step_routed (c : Chip) (e : Event) : (step c e).routed = (react c e).routed := by
  rw [Chip.routed, step_pins, step_spi, Chip.routed]

theorem react_audio (c : Chip) (e : Event) : (react c e).audio = c.audio := by
  cases e <;> rfl

theorem step_audio (c : Chip) (e : Event) :
    (step c e).audio = (bckEdge c e).toList.foldl edgeStep c.audio := by
  simp only [step]
  cases bckEdge c e with
  | none => exact react_audio c e
  | some edge => rfl

theorem run_audio (c : Chip) (trace : List Event) :
    (run c trace).audio = (edges c trace).foldl edgeStep c.audio := by
  induction trace generalizing c with
  | nil => rfl
  | cons e rest ih =>
    have later := ih (step c e)
    simp only [edges, List.foldl_append, ← step_audio]
    exact later

/-- Rising and falling edges in turn, from a low clock to a clock at `level`. -/
def Alternates : Bool → Bool → List BckEdge → Prop
  | now, level, [] => now = level
  | false, level, .rise _ _ :: rest => Alternates true level rest
  | true, level, .fall _ :: rest => Alternates false level rest
  | _, _, _ => False

theorem edges_alternate (c : Chip) (trace : List Event) :
    Alternates c.bck (run c trace).bck (edges c trace) := by
  induction trace generalizing c with
  | nil => rfl
  | cons e rest ih =>
    have later := ih (step c e)
    have next := step_bck c e
    change Alternates (step c e).bck (run c (e :: rest)).bck (edges (step c e) rest) at later
    cases before : c.bck <;> cases after : (react c e).bck <;>
      simpa [edges, bckEdge, before, after, next, Alternates] using later

end Edges

section Periods

/-! Two edges of the clock are one bit period of the audio path. -/

def pair : List BckEdge → List Period
  | .rise lrck din :: .fall gain :: rest => ⟨lrck, din, gain⟩ :: pair rest
  | _ => []

/-- Outputs after the falling edges, from the edges alone. -/
def shownAfter (s : AudioPath.State) : List BckEdge → List (Bool × Bool)
  | [] => []
  | .rise lrck din :: rest => shownAfter (edgeStep s (.rise lrck din)) rest
  | .fall gain :: rest =>
    ((edgeStep s (.fall gain)).pts.lrck, (edgeStep s (.fall gain)).pts.dout) ::
      shownAfter (edgeStep s (.fall gain)) rest

theorem shown_eq (c : Chip) (trace : List Event) :
    shown c trace = shownAfter c.audio (edges c trace) := by
  induction trace generalizing c with
  | nil => rfl
  | cons e rest ih =>
    have audio := step_audio c e
    rw [shown, edges, ih]
    cases edge : bckEdge c e with
    | none => simp [audio, edge]
    | some kind => cases kind <;> simp [audio, edge, shownAfter, Chip.outputs]

theorem shownAfter_eq (s : AudioPath.State) (es : List BckEdge) (whole : Alternates false false es) :
    shownAfter s es = AudioPath.outputs s (pair es) := by
  induction es using pair.induct generalizing s with
  | case1 lrck din gain rest ih =>
    have later : Alternates false false rest := whole
    simp only [shownAfter, pair, AudioPath.outputs]
    rw [ih _ later]
    rfl
  | case2 es other =>
    cases es with
    | nil => rfl
    | cons first es =>
      cases first with
      | fall gain => simp [Alternates] at whole
      | rise lrck din =>
        cases es with
        | nil => simp [Alternates] at whole
        | cons second rest =>
          cases second with
          | rise _ _ => simp [Alternates] at whole
          | fall gain => exact absurd rfl (other lrck din gain rest)

/-- What the rising edges sample, and the gain at the falling ones. -/
def rises (es : List BckEdge) : List (Bool × Bool) :=
  es.filterMap fun
    | .rise lrck din => some (lrck, din)
    | .fall _ => none

def falls (es : List BckEdge) : List (BitVec 2) :=
  es.filterMap fun
    | .rise _ _ => none
    | .fall gain => some gain

theorem rises_append (as bs : List BckEdge) : rises (as ++ bs) = rises as ++ rises bs :=
  List.filterMap_append

theorem pair_parts (es : List BckEdge) (whole : Alternates false false es) :
    (pair es).map (fun p => (p.lrck, p.din)) = rises es ∧ (pair es).map Period.gain = falls es := by
  induction es using pair.induct with
  | case1 lrck din gain rest ih =>
    obtain ⟨bits, gains⟩ := ih whole
    simp [pair, rises, falls, bits, gains]
  | case2 es other =>
    match es, whole with
    | [], _ => exact ⟨rfl, rfl⟩
    | [.rise _ _], h => simp [Alternates] at h
    | .rise _ _ :: .rise _ _ :: _, h => simp [Alternates] at h
    | .rise lrck din :: .fall gain :: rest, _ => exact absurd rfl (other lrck din gain rest)
    | .fall _ :: _, h => simp [Alternates] at h

end Periods

section Selection

/-! The two digital inputs, each with a clock, a channel signal and data of its own. -/

/-- The S/PDIF receiver and the analog-to-digital converter. -/
inductive Input where
  | spdif
  | adc
  deriving DecidableEq, Repr

inductive Wire where
  | lrck
  | bck
  | din
  deriving DecidableEq, Repr

def Input.pin : Input → Wire → Pin
  | .spdif, .lrck => .lrcki1
  | .spdif, .bck => .bcki1
  | .spdif, .din => .din1
  | .adc, .lrck => .lrcki2
  | .adc, .bck => .bcki2
  | .adc, .din => .din2

/-- The input that a value of the source register selects. -/
def selected (source : BitVec 2) : Input := if source = 0 then .adc else .spdif

def Input.wire (i : Input) (pin : Pin) : Option Wire :=
  [Wire.lrck, .bck, .din].find? fun w => i.pin w = pin

def onWires (i : Input) : Event → Option (Wire × Bool)
  | .spi _ => none
  | .level pin value => (i.wire pin).map (·, value)

/-- What a listener on the three wires of an input samples with their own clock. -/
def listen (levels : Wire → Bool) : List (Wire × Bool) → List (Bool × Bool)
  | [] => []
  | (wire, value) :: rest =>
    let after := Function.update levels wire value
    (if !levels .bck && after .bck then [(after .lrck, after .din)] else []) ++ listen after rest

def Chip.levels (c : Chip) (i : Input) (wire : Wire) : Bool := c.pins (i.pin wire)

theorem wire_eq_some {i : Input} {pin : Pin} {w : Wire} : i.wire pin = some w ↔ i.pin w = pin := by
  cases i <;> cases pin <;> cases w <;> decide

/-- Clock, channel signal and data always come from the same input. -/
theorem routed_eq (c : Chip) :
    c.bck = c.levels (selected c.spi.source) .bck ∧
    c.routed.lrck = c.levels (selected c.spi.source) .lrck ∧
    c.routed.data = c.levels (selected c.spi.source) .din := by
  have sources : c.spi.source = 0 ∨ c.spi.source = 1 ∨ c.spi.source = 2 ∨ c.spi.source = 3 := by
    generalize c.spi.source = source
    decide +revert
  rcases sources with h | h | h | h <;>
    simp [Chip.bck, Chip.routed, sourceMux, selected, Chip.levels, Input.pin, h]

/-- No event of the run changes the source register. -/
def Steady (c : Chip) (trace : List Event) : Prop :=
  Traces.Along step (fun c e => (step c e).spi.source = c.spi.source) c trace

/-- The levels on the wires of an input after an event. -/
def wiresAfter (i : Input) (levels : Wire → Bool) (e : Event) : Wire → Bool :=
  match onWires i e with
  | some (wire, value) => Function.update levels wire value
  | none => levels

theorem levels_step (c : Chip) (i : Input) (e : Event) :
    (step c e).levels i = wiresAfter i (c.levels i) e := by
  funext w
  rw [Chip.levels, step_pins]
  cases e with
  | spi e => rfl
  | level pin value =>
    cases found : i.wire pin with
    | none =>
      have other : i.pin w ≠ pin := by
        intro same
        rw [wire_eq_some.mpr same] at found
        contradiction
      simp [react, wiresAfter, onWires, found, Function.update_of_ne other, Chip.levels]
    | some wire =>
      have same := wire_eq_some.mp found
      by_cases this : w = wire
      · subst this
        simp [react, wiresAfter, onWires, found, same]
      · have other : i.pin w ≠ pin := by
          intro equal
          rw [wire_eq_some.mpr equal] at found
          exact this (Option.some.inj found)
        simp [react, wiresAfter, onWires, found, Function.update_of_ne other,
          Function.update_of_ne this, Chip.levels]

/-- The edge between two settings of the wires of an input. -/
def edgeBetween (before after : Wire → Bool) (gain : BitVec 2) : Option BckEdge :=
  match before .bck, after .bck with
  | false, true => some (.rise (after .lrck) (after .din))
  | true, false => some (.fall gain)
  | _, _ => none

theorem edgeBetween_same (levels : Wire → Bool) (gain : BitVec 2) :
    edgeBetween levels levels gain = none := by
  rw [edgeBetween]
  cases levels .bck <;> rfl

theorem rises_edgeBetween (before after : Wire → Bool) (gain : BitVec 2) :
    rises (edgeBetween before after gain).toList =
      if !before .bck && after .bck then [(after .lrck, after .din)] else [] := by
  rw [edgeBetween]
  cases before .bck <;> cases after .bck <;> rfl

/-- The edge of an event is determined by the SPI registers and the selected wires. -/
theorem bckEdge_eq (c : Chip) (e : Event) (same : (step c e).spi.source = c.spi.source) :
    bckEdge c e = edgeBetween (c.levels (selected c.spi.source))
      (wiresAfter (selected c.spi.source) (c.levels (selected c.spi.source)) e)
      (step c e).spi.gain := by
  have moved := levels_step c (selected c.spi.source) e
  obtain ⟨now, -, -⟩ := routed_eq c
  obtain ⟨next, lrck, data⟩ := routed_eq (step c e)
  rw [same, moved] at next lrck data
  rw [step_bck] at next
  rw [step_routed] at lrck data
  simp only [bckEdge, edgeBetween, now, next, lrck, data, step_spi]

/-- The rising edges sample just what a listener on the selected input hears. -/
theorem rises_edges (c : Chip) (trace : List Event) (steady : Steady c trace) :
    rises (edges c trace) =
      listen (c.levels (selected c.spi.source))
        (trace.filterMap (onWires (selected c.spi.source))) := by
  induction trace generalizing c with
  | nil => rfl
  | cons e rest ih =>
    obtain ⟨same, later⟩ := steady
    have tail := ih (step c e) later
    rw [same, levels_step] at tail
    rw [edges, rises_append, tail, bckEdge_eq c e same, rises_edgeBetween]
    cases found : onWires (selected c.spi.source) e with
    | none =>
      have still : wiresAfter (selected c.spi.source) (c.levels (selected c.spi.source)) e =
          c.levels (selected c.spi.source) := by simp only [wiresAfter, found]
      rw [List.filterMap_cons_none found, still]
      simp
    | some change =>
      obtain ⟨wire, value⟩ := change
      have moved : wiresAfter (selected c.spi.source) (c.levels (selected c.spi.source)) e =
          Function.update (c.levels (selected c.spi.source)) wire value := by
        simp only [wiresAfter, found]
      rw [List.filterMap_cons_some found, listen, moved]

end Selection

section Frames

/-! A stereo frame on the wires of an input: 32 bits of the left word, 32 of the right. -/

structure Stereo where
  left : BitVec 32
  right : BitVec 32
  deriving DecidableEq, Repr

def Stereo.bits (f : Stereo) : List (Bool × Bool) :=
  (wireBits f.left).map (true, ·) ++ (wireBits f.right).map (false, ·)

/-- The frame as the audio path takes it, with the gains at its falling edges. -/
def Stereo.withGains (f : Stereo) (gains : List (BitVec 2)) : Frame :=
  ⟨f.left, f.right, fun i => gains.getD i 0⟩

theorem Stereo.length_bits (f : Stereo) : f.bits.length = 64 := by simp [Stereo.bits]

theorem length_flatMap_bits (frames : List Stereo) :
    (frames.flatMap Stereo.bits).length = 64 * frames.length := by
  induction frames with
  | nil => rfl
  | cons f frames ih =>
    rw [List.flatMap_cons, List.length_append, ih, f.length_bits, List.length_cons]
    omega

theorem halfPeriods_eq (lrck : Bool) (word : BitVec 32) (gain : Nat → BitVec 2) (ps : List Period)
    (bits : ps.map (fun p => (p.lrck, p.din)) = (wireBits word).map (lrck, ·))
    (gains : ∀ i (inside : i < ps.length), ps[i].gain = gain i) :
    ps = halfPeriods lrck word gain := by
  have size : ps.length = 32 := by simpa using congrArg List.length bits
  apply List.ext_getElem
  · simp [size]
  · intro i inside inside'
    have bit := List.getElem_of_eq bits (by simpa using inside)
    have gain := gains i inside
    simp only [List.getElem_map, Prod.mk.injEq] at bit
    simp only [halfPeriods, List.getElem_mapIdx, ← bit.1, ← bit.2, ← gain]

/-- Periods that carry the bits of a frame are the frame, whatever the gain did. -/
theorem periods_eq (f : Stereo) (ps : List Period)
    (bits : ps.map (fun p => (p.lrck, p.din)) = f.bits) :
    ps = (f.withGains (ps.map Period.gain)).periods := by
  obtain ⟨lefts, rights, rfl, leftBits, rightBits⟩ := List.map_eq_append_iff.mp bits
  have size : lefts.length = 32 := by simpa using congrArg List.length leftBits
  have left := halfPeriods_eq true f.left
    (f.withGains ((lefts ++ rights).map Period.gain)).gain lefts leftBits (by
      intro i inside
      simp [Stereo.withGains, List.getElem?_append_left, inside])
  have right := halfPeriods_eq false f.right
    (fun i => (f.withGains ((lefts ++ rights).map Period.gain)).gain (32 + i)) rights rightBits (by
      intro i inside
      simp [Stereo.withGains, ← size, inside])
  exact congrArg₂ (· ++ ·) left right

/-- From any registers, a frame that follows another one plays it. -/
theorem outputs_frames (s : AudioPath.State) (before current next after : List Period)
    (f g : Stereo) (currentBits : current.map (fun p => (p.lrck, p.din)) = f.bits)
    (nextBits : next.map (fun p => (p.lrck, p.din)) = g.bits) :
    ((AudioPath.outputs s (before ++ current ++ next ++ after)).drop (before.length + 64)).take 64 =
      played (f.withGains []) fun i => (next.map Period.gain).getD i 0 := by
  have currentSize : current.length = 64 := by
    simpa [Stereo.length_bits] using congrArg List.length currentBits
  have nextSize : next.length = 64 := by
    simpa [Stereo.length_bits] using congrArg List.length nextBits
  have loaded := frame_loads (AudioPath.run s before) (f.withGains (current.map Period.gain))
  rw [← periods_eq f current currentBits, ← AudioPath.run_append] at loaded
  have plays := frame_plays (AudioPath.run s (before ++ current)) (f.withGains [])
    (g.withGains (next.map Period.gain)) loaded.1 loaded.2.1 loaded.2.2
  rw [← periods_eq g next nextBits] at plays
  rw [AudioPath.outputs_append, AudioPath.outputs_append, List.append_assoc,
    List.drop_left' (by simp [currentSize]), List.take_left' (by simp [nextSize]), plays]
  rfl

end Frames

theorem getD_third {α : Type} (as bs cs ds : List α) (x : α) {i : Nat} (inside : i < cs.length) :
    (as ++ (bs ++ (cs ++ ds))).getD (as.length + bs.length + i) x = cs.getD i x := by
  rw [← List.append_assoc, ← List.length_append, List.getD_append_right _ _ _ _ (by omega),
    Nat.add_sub_cancel_left, List.getD_append _ _ _ _ inside]

/-- The gain register at each falling edge of the bit clock. -/
def gains (c : Chip) (trace : List Event) : List (BitVec 2) := falls (edges c trace)

theorem shown_whole (c : Chip) (trace : List Event) (low : c.bck = false)
    (ends : (run c trace).bck = false) :
    shown c trace = AudioPath.outputs c.audio (pair (edges c trace)) := by
  have whole := edges_alternate c trace
  rw [low, ends] at whole
  rw [shown_eq, shownAfter_eq _ _ whole]

/-- Where the rising edges sample frames, each of them is played while the next is
sampled, each word at the gain of the one falling edge that loads it. -/
theorem frame_shown (c : Chip) (trace : List Event) (low : c.bck = false)
    (ends : (run c trace).bck = false) (lead : List (Bool × Bool)) (frames : List Stereo)
    (sampled : rises (edges c trace) = lead ++ frames.flatMap Stereo.bits) (k : Nat)
    (next : k + 1 < frames.length) :
    ((shown c trace).drop (lead.length + 64 * (k + 1))).take 64 =
      (slot (amplify ((gains c trace).getD (lead.length + 64 * (k + 1)) 0) frames[k].left)).map
        (true, ·) ++
      (slot (amplify ((gains c trace).getD (lead.length + 64 * (k + 1) + 32) 0)
        frames[k].right)).map (false, ·) := by
  have whole := edges_alternate c trace
  rw [low, ends] at whole
  obtain ⟨bits, gained⟩ := pair_parts _ whole
  rw [sampled] at bits
  have parts : frames = frames.take k ++ frames[k] :: frames[k + 1] :: frames.drop (k + 2) := by
    rw [List.getElem_cons_drop, List.getElem_cons_drop, List.take_append_drop]
  have stream : lead ++ frames.flatMap Stereo.bits =
      (lead ++ (frames.take k).flatMap Stereo.bits) ++ (frames[k].bits ++ (frames[k + 1].bits ++
        (frames.drop (k + 2)).flatMap Stereo.bits)) := by
    conv_lhs => rw [parts, List.flatMap_append, List.flatMap_cons, List.flatMap_cons]
    rw [List.append_assoc]
  rw [stream] at bits
  obtain ⟨before, rest, split, beforeBits, restBits⟩ := List.map_eq_append_iff.mp bits
  obtain ⟨current, rest, rfl, currentBits, restBits⟩ := List.map_eq_append_iff.mp restBits
  obtain ⟨after, rest, rfl, nextBits, -⟩ := List.map_eq_append_iff.mp restBits
  have beforeSize : before.length = lead.length + 64 * k := by
    have size := congrArg List.length beforeBits
    rw [List.length_map, List.length_append, length_flatMap_bits, List.length_take] at size
    omega
  have currentSize : current.length = 64 := by
    simpa [Stereo.length_bits] using congrArg List.length currentBits
  have nextSize : after.length = 64 := by
    simpa [Stereo.length_bits] using congrArg List.length nextBits
  have place : lead.length + 64 * (k + 1) = before.length + 64 := by omega
  have loads (i : Nat) (inside : i < 64) : (after.map Period.gain).getD i 0 =
      (gains c trace).getD (before.length + 64 + i) 0 := by
    have third := getD_third (before.map Period.gain) (current.map Period.gain)
      (after.map Period.gain) (rest.map Period.gain) 0 (by rwa [List.length_map, nextSize])
    rw [List.length_map, List.length_map, currentSize] at third
    rw [gains, ← gained, split, List.map_append, List.map_append, List.map_append, third]
  have frame := outputs_frames c.audio before current after rest frames[k] frames[k + 1]
    currentBits nextBits
  have grouped : before ++ (current ++ (after ++ rest)) = before ++ current ++ after ++ rest := by
    simp
  rw [shown_whole c trace low ends, split, grouped, place, frame, played, loads 0 (by omega),
    loads 32 (by omega)]
  rfl

/-- Whatever else the pins do, and whatever the SPI bus does short of changing the
source, the output plays the frames of the selected input, each word amplified by the
gain register at the one falling edge that loads it. A part of a frame, as a change of
the source leaves it, may come first. -/
theorem plays_selected_input (c : Chip) (trace : List Event) (low : c.bck = false)
    (ends : (run c trace).bck = false) (steady : Steady c trace) (lead : List (Bool × Bool))
    (frames : List Stereo)
    (sends : listen (c.levels (selected c.spi.source))
      (trace.filterMap (onWires (selected c.spi.source))) = lead ++ frames.flatMap Stereo.bits)
    (k : Nat) (next : k + 1 < frames.length) :
    ((shown c trace).drop (lead.length + 64 * (k + 1))).take 64 =
      (slot (amplify ((gains c trace).getD (lead.length + 64 * (k + 1)) 0) frames[k].left)).map
        (true, ·) ++
      (slot (amplify ((gains c trace).getD (lead.length + 64 * (k + 1) + 32) 0)
        frames[k].right)).map (false, ·) := by
  have sampled := rises_edges c trace steady
  rw [sends] at sampled
  exact frame_shown c trace low ends lead frames sampled k next

section Waves

/-! The plainest way to send bits on an input: set the channel and the data, then one
pulse of the clock. -/

def wave (i : Input) (bits : List (Bool × Bool)) : List Event :=
  bits.flatMap fun (lrck, din) => [.level (i.pin .lrck) lrck, .level (i.pin .din) din,
    .level (i.pin .bck) true, .level (i.pin .bck) false]

theorem steady_of_levels (c : Chip) (trace : List Event)
    (quiet : ∀ e ∈ trace, ∃ pin value, e = .level pin value) : Steady c trace := by
  induction trace generalizing c with
  | nil => trivial
  | cons e rest ih =>
    obtain ⟨pin, value, rfl⟩ := quiet e (by simp)
    have same : (step c (.level pin value)).spi.source = c.spi.source := by
      rw [step_spi]
      rfl
    exact ⟨same, ih _ fun e' member => quiet e' (by simp [member])⟩

theorem onWires_pin (i : Input) (wire : Wire) (value : Bool) :
    onWires i (.level (i.pin wire) value) = some (wire, value) := by
  have found : i.wire (i.pin wire) = some wire := wire_eq_some.mpr rfl
  simp [onWires, found]

theorem listen_wave (i : Input) (levels : Wire → Bool) (bits : List (Bool × Bool))
    (low : levels .bck = false) :
    listen levels ((wave i bits).filterMap (onWires i)) = bits := by
  induction bits generalizing levels with
  | nil => rfl
  | cons bit rest ih =>
    obtain ⟨lrck, din⟩ := bit
    have later := ih (Function.update (Function.update (Function.update levels .lrck lrck) .din din)
      .bck false) (by simp)
    simp only [wave, List.flatMap_cons, List.cons_append, List.nil_append,
      List.filterMap_cons_some (onWires_pin i _ _), listen] at later ⊢
    simp [later, low]

theorem levels_wave (i : Input) (c : Chip) (bits : List (Bool × Bool))
    (low : c.levels i .bck = false) : (run c (wave i bits)).levels i .bck = false := by
  induction bits generalizing c with
  | nil => exact low
  | cons bit rest ih =>
    obtain ⟨lrck, din⟩ := bit
    have pulsed : (run c [.level (i.pin .lrck) lrck, .level (i.pin .din) din,
        .level (i.pin .bck) true, .level (i.pin .bck) false]).levels i .bck = false := by
      simp only [run, Traces.run_cons, Traces.run_nil, levels_step, wiresAfter, onWires_pin]
      simp
    have later := ih _ pulsed
    rw [← run_append] at later
    exact later

theorem wave_quiet (i : Input) (bits : List (Bool × Bool)) :
    ∀ e ∈ wave i bits, ∃ pin value, e = Event.level pin value := by
  intro e member
  obtain ⟨bit, -, inBit⟩ := List.mem_flatMap.mp member
  simp only [List.mem_cons, List.not_mem_nil, or_false] at inBit
  rcases inBit with rfl | rfl | rfl | rfl <;> exact ⟨_, _, rfl⟩

theorem run_spi_of_levels (c : Chip) (trace : List Event)
    (quiet : ∀ e ∈ trace, ∃ pin value, e = Event.level pin value) : (run c trace).spi = c.spi := by
  induction trace generalizing c with
  | nil => rfl
  | cons e rest ih =>
    obtain ⟨pin, value, rfl⟩ := quiet e (by simp)
    have later := ih (step c (.level pin value)) fun e' member => quiet e' (by simp [member])
    rw [step_spi] at later
    exact later

/-- A whole wave on the selected input leaves its clock low. -/
theorem bck_wave (c : Chip) (bits : List (Bool × Bool)) (low : c.bck = false) :
    (run c (wave (selected c.spi.source) bits)).bck = false := by
  have quiet := run_spi_of_levels c _ (wave_quiet (selected c.spi.source) bits)
  rw [(routed_eq c).1] at low
  rw [(routed_eq _).1, quiet]
  exact levels_wave _ c bits low

end Waves

/-- The converter selected, every pin low, and registers with anything in them. -/
def listeningChip : Chip :=
  ⟨fun _ => false, SpiSlave.idle ⟨0, 2⟩, ⟨⟨true, 1, 2, 3, 4, true⟩, ⟨true, 5, 6⟩⟩⟩

def twoFrames : List Stereo := [⟨0x40000000, 0xffffff00⟩, ⟨0, 0⟩]

theorem plays_selected_input_two_frames :
    let bits := (true, true) :: twoFrames.flatMap Stereo.bits
    ((shown listeningChip (wave .adc bits)).drop (1 + 64 * (0 + 1))).take 64 =
      (slot (amplify ((gains listeningChip (wave .adc bits)).getD (1 + 64 * (0 + 1)) 0)
        0x40000000)).map (true, ·) ++
      (slot (amplify ((gains listeningChip (wave .adc bits)).getD (1 + 64 * (0 + 1) + 32) 0)
        0xffffff00)).map (false, ·) :=
  plays_selected_input listeningChip (wave .adc ((true, true) :: twoFrames.flatMap Stereo.bits)) rfl
    (bck_wave listeningChip _ rfl) (steady_of_levels _ _ (wave_quiet _ _)) [(true, true)] twoFrames
    (listen_wave .adc _ _ rfl) 0 (by decide)

section Interference

/-! Which events matter to the audio path. -/

def relevant (i : Input) : Event → Bool
  | .spi _ => true
  | .level pin _ => (i.wire pin).isSome

theorem wiresAfter_irrelevant {i : Input} {e : Event} (other : relevant i e = false)
    (levels : Wire → Bool) : wiresAfter i levels e = levels := by
  cases e with
  | spi e => rfl
  | level pin value =>
    simp only [relevant, Option.isSome_eq_false_iff, Option.isNone_iff_eq_none] at other
    simp [wiresAfter, onWires, other]

theorem step_spi_irrelevant {i : Input} {e : Event} (other : relevant i e = false) (c : Chip) :
    (step c e).spi = c.spi := by
  rw [step_spi]
  cases e with
  | spi e => simp [relevant] at other
  | level pin value => rfl

theorem step_spi_congr {c c' : Chip} (same : c'.spi = c.spi) (e : Event) :
    (step c' e).spi = (step c e).spi := by
  rw [step_spi, step_spi]
  cases e with
  | spi e => simp only [react, same]
  | level pin value => exact same

/-- Leaving out the events on other pins changes no edge of the bit clock. -/
theorem edges_filter (c c' : Chip) (trace : List Event) (steady : Steady c trace)
    (spi : c'.spi = c.spi)
    (levels : c'.levels (selected c.spi.source) = c.levels (selected c.spi.source)) :
    edges c' (trace.filter (relevant (selected c.spi.source))) = edges c trace := by
  induction trace generalizing c c' with
  | nil => rfl
  | cons e rest ih =>
    obtain ⟨same, later⟩ := steady
    have sameInput : selected (step c e).spi.source = selected c.spi.source := by rw [same]
    have tail := ih (step c e)
    rw [sameInput] at tail
    cases matters : relevant (selected c.spi.source) e with
    | false =>
      have quiet : bckEdge c e = none := by
        rw [bckEdge_eq c e same, wiresAfter_irrelevant matters, edgeBetween_same]
      rw [List.filter_cons_of_neg (by simp [matters]), edges, quiet]
      apply tail c' later
      · rw [spi, step_spi_irrelevant matters]
      · rw [levels, levels_step, wiresAfter_irrelevant matters]
    | true =>
      have stepped := step_spi_congr spi e
      have same' : (step c' e).spi.source = c'.spi.source := by rw [stepped, spi, same]
      have edge : bckEdge c' e = bckEdge c e := by
        rw [bckEdge_eq c e same, bckEdge_eq c' e same', spi, levels, stepped]
      rw [List.filter_cons_of_pos matters, edges, edges, edge]
      congr 1
      apply tail (step c' e) later stepped
      rw [levels_step, levels_step, levels]

/-- Two runs from one state that differ only in events on pins of the other input, the
raw S/PDIF signals and the master clocks show the DAC the same. -/
theorem other_pins_silent (c : Chip) (as bs : List Event) (steadyA : Steady c as)
    (steadyB : Steady c bs) (same : as.filter (relevant (selected c.spi.source)) =
      bs.filter (relevant (selected c.spi.source))) :
    shown c as = shown c bs ∧ (run c as).audio = (run c bs).audio := by
  have edges : edges c as = edges c bs := by
    rw [← edges_filter c c as steadyA rfl rfl, ← edges_filter c c bs steadyB rfl rfl, same]
  rw [shown_eq, shown_eq, run_audio, run_audio, edges]
  exact ⟨rfl, rfl⟩

theorem other_pins_silent_noise : let noise := [Event.level .din1 true, .level .bcki1 true]
    shown listeningChip (noise ++ wave .adc (twoFrames.flatMap Stereo.bits)) =
      shown listeningChip (wave .adc (twoFrames.flatMap Stereo.bits)) := by
  intro noise
  have steady : Steady listeningChip (noise ++ wave .adc (twoFrames.flatMap Stereo.bits)) := by
    apply steady_of_levels
    intro e member
    rcases List.mem_append.mp member with inNoise | inWave
    · simp only [noise, List.mem_cons, List.not_mem_nil, or_false] at inNoise
      rcases inNoise with rfl | rfl <;> exact ⟨_, _, rfl⟩
    · exact wave_quiet _ _ e inWave
  have dropped : noise.filter (relevant (selected listeningChip.spi.source)) = [] := by decide
  exact (other_pins_silent listeningChip _ _ steady (steady_of_levels _ _ (wave_quiet .adc _))
    (by rw [List.filter_append, dropped, List.nil_append])).1

end Interference

end AsdPre.FpgaTop
