import AsdPre.AudioGain
import AsdPre.ShiftRegister

/-! The audio path of the FPGA: deserialiser, gain and serialiser on one bit
clock. The deserialiser works on rising edges of `bck`, the serialiser on falling
edges, so one bit period is a rising edge followed by a falling edge. All
assignments of the source are nonblocking: right-hand sides read the old state. -/
namespace AsdPre.AudioPath

open ShiftRegister AudioGain

/-- `DATA_WIDTH` -/
abbrev dataWidth : Nat := 24

abbrev Sample := BitVec dataWidth

structure SerToPar where
  sync : Bool
  left : Sample
  right : Sample
  srLeft : BitVec 32
  srRight : BitVec 32
  isLeft : Bool
  deriving DecidableEq, Repr

/-- The part of a shift register that becomes a sample: its upper 24 bits. -/
def top (sr : BitVec 32) : Sample := sr.extractLsb' (32 - dataWidth) dataWidth

def SerToPar.posedge (lrck din : Bool) (s : SerToPar) : SerToPar where
  -- transfer to the sample output registers when the left slot begins
  sync := lrck && !s.isLeft
  right := if lrck && !s.isLeft then top s.srRight else s.right
  left := if lrck && !s.isLeft then top s.srLeft else s.left
  -- shift in new data
  srLeft := if lrck then s.srLeft.shiftConcat din else s.srLeft
  srRight := if lrck then s.srRight else s.srRight.shiftConcat din
  isLeft := lrck

structure ParToSer where
  lrck : Bool
  shiftreg : Sample
  cnt : BitVec 32
  deriving DecidableEq, Repr

def ParToSer.dout (s : ParToSer) : Bool := s.shiftreg.msb

def ParToSer.negedge (sync : Bool) (left right : Sample) (s : ParToSer) : ParToSer :=
  if sync then
    ⟨true, left, 1⟩
  else if s.cnt.getLsbD 31 then
    ⟨false, right, s.cnt.shiftConcat false⟩
  else
    ⟨s.lrck, s.shiftreg.shiftConcat false, s.cnt.shiftConcat false⟩

/-- The registers of `u_stp` and `u_pts`; `u_gain` between them has none. -/
structure State where
  stp : SerToPar
  pts : ParToSer
  deriving DecidableEq, Repr

/-- One bit period: what the rising edge samples, and the gain at the falling edge. -/
structure Period where
  lrck : Bool
  din : Bool
  gain : BitVec 2
  deriving DecidableEq, Repr

def advance (s : State) (p : Period) : State :=
  let stp := s.stp.posedge p.lrck p.din
  let amplified := AudioGain.gain p.gain stp.sync stp.left stp.right
  ⟨stp, s.pts.negedge amplified.syncOut amplified.leftOut amplified.rightOut⟩

def run (s : State) (periods : List Period) : State := periods.foldl advance s

/-- `(LRCKO, DOUT)` over each bit period, from its falling edge on. -/
def outputs (s : State) : List Period → List (Bool × Bool)
  | [] => []
  | p :: rest => ((advance s p).pts.lrck, (advance s p).pts.dout) :: outputs (advance s p) rest

/-- A stereo frame on the input, with the gain at its 64 falling edges. -/
structure Frame where
  left : BitVec 32
  right : BitVec 32
  gain : Nat → BitVec 2

def halfPeriods (lrck : Bool) (word : BitVec 32) (gain : Nat → BitVec 2) : List Period :=
  (wireBits word).mapIdx fun i bit => ⟨lrck, bit, gain i⟩

def Frame.periods (f : Frame) : List Period :=
  halfPeriods true f.left f.gain ++ halfPeriods false f.right (fun i => f.gain (32 + i))

/-- The sample that a 32-bit input word stands for after amplification. -/
def amplify (g : BitVec 2) (word : BitVec 32) : Sample :=
  BitVec.ofInt dataWidth (clamp dataWidth ((top word).toInt * 2 ^ g.toNat))

/-- A 32-bit output slot: the sample, most significant bit first, then eight zeros. -/
def slot (sample : Sample) : List Bool := wireBits sample ++ List.replicate 8 false

/-- What the frame after `f` plays: `f`'s samples, each with the gain at the
falling edge that loads it, the first of the left and of the right slot. -/
def played (f : Frame) (gain : Nat → BitVec 2) : List (Bool × Bool) :=
  (slot (amplify (gain 0) f.left)).map (fun bit => (true, bit)) ++
  (slot (amplify (gain 32) f.right)).map (fun bit => (false, bit))

theorem run_append (s : State) (as bs : List Period) : run s (as ++ bs) = run (run s as) bs := by
  simp [run]

theorem outputs_append (s : State) (as bs : List Period) :
    outputs s (as ++ bs) = outputs s as ++ outputs (run s as) bs := by
  induction as generalizing s with
  | nil => rfl
  | cons p as ih => simp [outputs, ih, run]

@[simp] theorem length_outputs (s : State) (ps : List Period) :
    (outputs s ps).length = ps.length := by
  induction ps generalizing s with
  | nil => rfl
  | cons p ps ih => simp [outputs, ih]

@[simp] theorem length_halfPeriods (lrck : Bool) (word : BitVec 32) (gain : Nat → BitVec 2) :
    (halfPeriods lrck word gain).length = 32 := by
  simp [halfPeriods]

@[simp] theorem length_periods (f : Frame) : f.periods.length = 64 := by simp [Frame.periods]

theorem channelOut_eq_amplify (g : BitVec 2) (word : BitVec 32) :
    channelOut g (top word) = amplify g word := by
  rw [amplify, ← toInt_channelOut g (top word) (by decide), BitVec.ofInt_toInt]

theorem slot_eq_range (sample : Sample) : slot sample = (List.range 32).map sample.getMsbD :=
  wireBits_append_zeros sample 8

/-- The input registers after periods with one value of `lrck`. -/
theorem run_stp (lrck : Bool) (s : State) (ps : List Period) (same : ∀ p ∈ ps, p.lrck = lrck)
    (nonempty : ps ≠ []) :
    (run s ps).stp.isLeft = lrck ∧
    (run s ps).stp.srLeft =
      (if lrck then shiftIn s.stp.srLeft (ps.map Period.din) else s.stp.srLeft) ∧
    (run s ps).stp.srRight =
      (if lrck then s.stp.srRight else shiftIn s.stp.srRight (ps.map Period.din)) := by
  induction ps using List.reverseRecOn with
  | nil => contradiction
  | append_singleton ps p ih =>
    have last : p.lrck = lrck := same p (by simp)
    rw [run_append]
    by_cases empty : ps = []
    · subst empty
      cases lrck <;> simp [run, advance, SerToPar.posedge, last]
    · obtain ⟨_, leftBits, rightBits⟩ := ih (fun q member => same q (by simp [member])) empty
      cases lrck <;>
        simp_all [run, advance, SerToPar.posedge, shiftIn_concat]

/-- Between loads the serialiser only shifts: with no change of `lrck` and no
counter bit at the end of its register, the sample registers and `LRCKO` hold. -/
theorem shift_run (lrck : Bool) (s : State) (ps : List Period) (same : ∀ p ∈ ps, p.lrck = lrck)
    (inside : s.stp.isLeft = lrck)
    (counting : ∀ i < ps.length, (shiftIn s.pts.cnt (List.replicate i false)).getLsbD 31 = false) :
    outputs s ps =
      (List.range ps.length).map (fun i => (s.pts.lrck, s.pts.shiftreg.getMsbD (i + 1))) ∧
    (run s ps).stp.left = s.stp.left ∧ (run s ps).stp.right = s.stp.right ∧
    (run s ps).pts = ⟨s.pts.lrck, shiftIn s.pts.shiftreg (List.replicate ps.length false),
      shiftIn s.pts.cnt (List.replicate ps.length false)⟩ := by
  induction ps using List.reverseRecOn with
  | nil => exact ⟨rfl, rfl, rfl, rfl⟩
  | append_singleton ps p ih =>
    have last : p.lrck = lrck := same p (by simp)
    have before : ∀ q ∈ ps, q.lrck = lrck := fun q member => same q (by simp [member])
    obtain ⟨shown, left, right, pts⟩ := ih before (fun i bound => counting i (by simp; omega))
    have isLeft : (run s ps).stp.isLeft = lrck := by
      by_cases empty : ps = []
      · simpa [empty, run] using inside
      · exact (run_stp lrck s ps before empty).1
    have noLoad : (shiftIn s.pts.cnt (List.replicate ps.length false))[31] = false := by
      simpa using counting ps.length (by simp)
    have next : advance (run s ps) p =
        ⟨(run s ps).stp.posedge lrck p.din,
          ⟨s.pts.lrck, shiftIn s.pts.shiftreg (List.replicate (ps.length + 1) false),
            shiftIn s.pts.cnt (List.replicate (ps.length + 1) false)⟩⟩ := by
      simp [advance, AudioGain.gain, SerToPar.posedge, ParToSer.negedge, last, isLeft, pts, noLoad,
        List.replicate_succ', shiftIn_concat]
    have step : run s (ps ++ [p]) = advance (run s ps) p := by simp [run]
    rw [step, next, outputs_append, shown]
    refine ⟨?_, ?_, ?_, ?_⟩
    · simp [outputs, next, ParToSer.dout, msb_shiftIn_zeros, List.range_succ]
    · simp [SerToPar.posedge, isLeft, left]
    · simp [SerToPar.posedge, isLeft, right]
    · simp

theorem halfPeriods_split (lrck : Bool) (word : BitVec 32) (gain : Nat → BitVec 2) :
    ∃ din rest, halfPeriods lrck word gain = ⟨lrck, din, gain 0⟩ :: rest ∧
      rest.length = 31 ∧ ∀ p ∈ rest, p.lrck = lrck := by
  have size := length_wireBits word
  cases bits : wireBits word with
  | nil => simp [bits] at size
  | cons din tail =>
    refine ⟨din, tail.mapIdx fun i bit => ⟨lrck, bit, gain (i + 1)⟩, ?_, ?_, ?_⟩
    · simp [halfPeriods, bits, List.mapIdx_cons]
    · simpa [bits] using size
    · intro p member
      obtain ⟨i, _, rfl⟩ := List.mem_mapIdx.mp member
      rfl

theorem halfPeriods_lrck (lrck : Bool) (word : BitVec 32) (gain : Nat → BitVec 2) :
    ∀ p ∈ halfPeriods lrck word gain, p.lrck = lrck := by
  intro p member
  obtain ⟨i, _, rfl⟩ := List.mem_mapIdx.mp member
  rfl

theorem halfPeriods_din (lrck : Bool) (word : BitVec 32) (gain : Nat → BitVec 2) :
    (halfPeriods lrck word gain).map Period.din = wireBits word := by
  apply List.ext_getElem <;> simp [halfPeriods]

theorem run_half (lrck : Bool) (s : State) (word : BitVec 32) (gain : Nat → BitVec 2) :
    (run s (halfPeriods lrck word gain)).stp.isLeft = lrck ∧
    (run s (halfPeriods lrck word gain)).stp.srLeft = (if lrck then word else s.stp.srLeft) ∧
    (run s (halfPeriods lrck word gain)).stp.srRight = (if lrck then s.stp.srRight else word) := by
  have nonempty : halfPeriods lrck word gain ≠ [] := by
    intro empty
    simpa [empty] using length_halfPeriods lrck word gain
  have registers := run_stp lrck s _ (halfPeriods_lrck lrck word gain) nonempty
  simpa only [halfPeriods_din, shiftIn_wireBits] using registers

/-- Whatever the registers held before, a whole frame fills them. -/
theorem frame_loads (s : State) (f : Frame) :
    (run s f.periods).stp.isLeft = false ∧ (run s f.periods).stp.srLeft = f.left ∧
    (run s f.periods).stp.srRight = f.right := by
  have left := run_half true s f.left f.gain
  have right := run_half false (run s (halfPeriods true f.left f.gain)) f.right
    (fun i => f.gain (32 + i))
  simp only [Bool.false_eq_true, if_true, if_false] at left right
  rw [Frame.periods, run_append]
  exact ⟨right.1, right.2.1.trans left.2.1, right.2.2⟩

/-- A slot whose first period loads `sample` and starts the counter at `cnt` sends
the sample and then zeros, as long as the counter does not run out meanwhile. -/
theorem slot_run (lrck lrckOut : Bool) (s : State) (first : Period) (rest : List Period)
    (sample : Sample) (cnt : BitVec 32) (inside : first.lrck = lrck) (size : rest.length = 31)
    (same : ∀ p ∈ rest, p.lrck = lrck)
    (loaded : (advance s first).pts = ⟨lrckOut, sample, cnt⟩)
    (counting : ∀ i < 31, (shiftIn cnt (List.replicate i false)).getLsbD 31 = false) :
    outputs s (first :: rest) = (slot sample).map (fun bit => (lrckOut, bit)) ∧
    (run s (first :: rest)).stp.right = (advance s first).stp.right ∧
    (run s (first :: rest)).pts.cnt = shiftIn cnt (List.replicate 31 false) := by
  have isLeft : (advance s first).stp.isLeft = lrck := inside
  obtain ⟨shown, _, right, pts⟩ := shift_run lrck (advance s first) rest same isLeft
    (by simpa only [loaded, size] using counting)
  have step : run s (first :: rest) = run (advance s first) rest := rfl
  refine ⟨?_, ?_, ?_⟩
  · rw [outputs, shown, loaded, slot_eq_range, List.range_succ_eq_map, size]
    simp [ParToSer.dout, BitVec.msb]
  · rw [step, right]
  · rw [step, pts, loaded, size]

/-- The left slot starts with the transfer pulse, which restarts the counter. -/
theorem left_slot (s : State) (word : BitVec 32) (gain : Nat → BitVec 2)
    (boundary : s.stp.isLeft = false) :
    outputs s (halfPeriods true word gain) =
      (slot (amplify (gain 0) s.stp.srLeft)).map (fun bit => (true, bit)) ∧
    (run s (halfPeriods true word gain)).stp.right = top s.stp.srRight ∧
    (run s (halfPeriods true word gain)).pts.cnt = 0x80000000#32 := by
  obtain ⟨din, rest, split, size, same⟩ := halfPeriods_split true word gain
  have loaded : (advance s ⟨true, din, gain 0⟩).pts =
      ⟨true, amplify (gain 0) s.stp.srLeft, 1#32⟩ := by
    simp [advance, SerToPar.posedge, AudioGain.gain, ParToSer.negedge, boundary,
      channelOut_eq_amplify]
  obtain ⟨shown, right, cnt⟩ := slot_run true true s ⟨true, din, gain 0⟩ rest _ _ rfl size same
    loaded (by decide)
  rw [split]
  refine ⟨shown, right.trans ?_, cnt.trans (by decide)⟩
  simp [advance, SerToPar.posedge, boundary]

/-- The right slot starts when the counter's bit reaches the end of its register. -/
theorem right_slot (s : State) (word : BitVec 32) (gain : Nat → BitVec 2) (previous : BitVec 32)
    (held : s.stp.right = top previous) (expired : s.pts.cnt = 0x80000000#32) :
    outputs s (halfPeriods false word gain) =
      (slot (amplify (gain 0) previous)).map (fun bit => (false, bit)) := by
  obtain ⟨din, rest, split, size, same⟩ := halfPeriods_split false word gain
  have loaded : (advance s ⟨false, din, gain 0⟩).pts =
      ⟨false, amplify (gain 0) previous, 0#32⟩ := by
    simp [advance, SerToPar.posedge, AudioGain.gain, ParToSer.negedge, held, expired,
      channelOut_eq_amplify]
    decide
  rw [split]
  exact (slot_run false false s ⟨false, din, gain 0⟩ rest _ _ rfl size same loaded (by decide)).1

/-- Once the input registers hold a frame, the next frame plays it. -/
theorem frame_plays (s : State) (f g : Frame) (boundary : s.stp.isLeft = false)
    (left : s.stp.srLeft = f.left) (right : s.stp.srRight = f.right) :
    outputs s g.periods = played f g.gain := by
  obtain ⟨shown, held, expired⟩ := left_slot s g.left g.gain boundary
  rw [Frame.periods, outputs_append, shown, left,
    right_slot _ g.right (fun i => g.gain (32 + i)) f.right (by rw [held, right]) expired]
  rfl

theorem length_flatMap_periods (frames : List Frame) :
    (frames.flatMap Frame.periods).length = 64 * frames.length := by
  induction frames with
  | nil => rfl
  | cons f frames ih => simp [ih]; omega

/-- From any register contents, every frame after the first plays its predecessor:
left slot, right slot, each sample saturated at the gain of its load. -/
theorem audio_path (s : State) (frames : List Frame) (k : Nat) (next : k + 1 < frames.length) :
    ((outputs s (frames.flatMap Frame.periods)).drop (64 * (k + 1))).take 64 =
      played frames[k] frames[k + 1].gain := by
  have parts : frames = frames.take k ++ frames[k] :: frames[k + 1] :: frames.drop (k + 2) := by
    rw [List.getElem_cons_drop, List.getElem_cons_drop, List.take_append_drop]
  have prefixLength : ((frames.take k).flatMap Frame.periods ++ frames[k].periods).length =
      64 * (k + 1) := by
    rw [List.length_append, length_flatMap_periods, length_periods, List.length_take]
    omega
  have loaded := frame_loads (run s ((frames.take k).flatMap Frame.periods)) frames[k]
  rw [← run_append] at loaded
  have shown := frame_plays _ frames[k] frames[k + 1] loaded.1 loaded.2.1 loaded.2.2
  have stream : frames.flatMap Frame.periods =
      ((frames.take k).flatMap Frame.periods ++ frames[k].periods) ++
        (frames[k + 1].periods ++ (frames.drop (k + 2)).flatMap Frame.periods) := by
    conv_lhs => rw [parts, List.flatMap_append, List.flatMap_cons, List.flatMap_cons]
    rw [List.append_assoc]
  rw [stream, outputs_append, List.drop_left' (by rw [length_outputs, prefixLength]),
    outputs_append, List.take_left' (by simp), shown]

/-- A loud left sample that clips at gain 3, and a small negative right one. -/
def loudFrame : Frame := ⟨0x40000000#32, 0xffffff00#32, fun _ => 0#2⟩

def silentFrame : Frame := ⟨0#32, 0#32, fun i => if i < 32 then 3#2 else 1#2⟩

def clearedRegisters : State := ⟨⟨false, 0, 0, 0, 0, true⟩, ⟨false, 0, 0⟩⟩

theorem audio_path_loud_frame :
    0 + 1 < [loudFrame, silentFrame].length ∧
    ((outputs clearedRegisters ([loudFrame, silentFrame].flatMap Frame.periods)).drop
      (64 * (0 + 1))).take 64 = played loudFrame silentFrame.gain := by
  have shown := audio_path clearedRegisters [loudFrame, silentFrame] 0 (by decide)
  rw [List.getElem_cons_zero, List.getElem_cons_succ, List.getElem_cons_zero] at shown
  exact ⟨by decide, shown⟩

end AsdPre.AudioPath
