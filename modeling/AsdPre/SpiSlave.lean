import AsdPre.ShiftRegister

/-! The SPI slave of the FPGA, edge by edge, and the byte protocol it implements.
`spi_state` follows a byte one edge late, on the first bit of the next byte; the
data byte is taken on its own eighth edge; `MISO` moves on the falling edge. -/
namespace AsdPre.SpiSlave

open ShiftRegister

/-- The four values of the two-bit `spi_state`. -/
inductive SpiState where
  | cmd
  | magic
  | source
  | gain
  deriving DecidableEq, Repr

/-- `SPI_CMD_MAGIC`, `SPI_CMD_SOURCE`, `SPI_CMD_GAIN` and `MAGIC`. -/
def cmdMagic : BitVec 8 := 1
def cmdSource : BitVec 8 := 2
def cmdGain : BitVec 8 := 3
def magicReply : BitVec 8 := 0xad

structure State where
  nSS : Bool
  miso : Bool
  spiIn : BitVec 8
  spiOut : BitVec 8
  spiCnt : BitVec 8
  spiWordReady : Bool
  spiState : SpiState
  source : BitVec 2
  gain : BitVec 2
  deriving DecidableEq, Repr

/-- Power-up with `nSS` high: the asynchronous reset holds every SPI register, and
`source` and `gain` have their declared values, `SOURCE_COAX` and 0. -/
def powerUp : State := ⟨true, false, 0, 0, 1, false, .cmd, 2, 0⟩

def nextSpiState (s : State) : SpiState :=
  match s.spiState with
  | .cmd =>
    if s.spiWordReady then
      if s.spiIn = cmdSource then .source
      else if s.spiIn = cmdGain then .gain
      else if s.spiIn = cmdMagic then .magic
      else .cmd
    else .cmd
  | .magic => if s.spiWordReady then .cmd else .magic
  | .source => if s.spiWordReady then .cmd else .source
  | .gain => if s.spiWordReady then .cmd else .gain

/-- The reset branch of the rising-edge process. -/
def resetRegisters (s : State) : State :=
  { s with spiState := .cmd, spiIn := 0, spiCnt := 1, spiOut := 0, spiWordReady := false }

/-- The clocked branch of the rising-edge process. -/
def shiftRegisters (mosi : Bool) (s : State) : State :=
  let byte := s.spiIn.shiftConcat mosi
  let last := s.spiCnt[7]
  { s with
    spiState := nextSpiState s
    spiIn := byte
    spiOut := if last && byte == cmdMagic then magicReply else s.spiOut.shiftConcat false
    spiCnt := s.spiCnt.rotateLeft 1
    spiWordReady := last
    -- the eight bits are cut down to the width of the register
    source := if last && s.spiState == .source then byte.setWidth 2 else s.source
    gain := if last && s.spiState == .gain then byte.setWidth 2 else s.gain }

inductive Edge where
  | selectLow
  | selectHigh
  | clockHigh (mosi : Bool)
  | clockLow
  deriving DecidableEq, Repr

def edge (s : State) : Edge → State
  | .selectLow => { s with nSS := false }
  | .selectHigh => { resetRegisters s with nSS := true, miso := false }
  | .clockHigh mosi => if s.nSS then resetRegisters s else shiftRegisters mosi s
  | .clockLow => { s with miso := if s.nSS then false else s.spiOut[7] }

def run (s : State) (edges : List Edge) : State := edges.foldl edge s

/-- What a master that samples on the rising edge reads. -/
def sampled (s : State) : List Edge → List Bool
  | [] => []
  | .clockHigh mosi :: rest => s.miso :: sampled (edge s (.clockHigh mosi)) rest
  | e :: rest => sampled (edge s e) rest

def pulses (bits : List Bool) : List Edge := bits.flatMap fun bit => [.clockHigh bit, .clockLow]

def transaction (bits : List Bool) : List Edge := .selectLow :: (pulses bits ++ [.selectHigh])

/-! The byte protocol, stated on its own: what a complete byte means depends only
on its position in the transaction. -/

inductive Position where
  | command
  | skipped
  | sourceData
  | gainData
  deriving DecidableEq, Repr

structure Registers where
  source : BitVec 2
  gain : BitVec 2
  deriving DecidableEq, Repr

def byteStep : Position × Registers → BitVec 8 → Position × Registers
  | (.command, r), byte =>
    (if byte = 0x02 then .sourceData else if byte = 0x03 then .gainData
      else if byte = 0x01 then .skipped else .command, r)
  | (.skipped, r), _ => (.command, r)
  | (.sourceData, r), byte => (.command, { r with source := byte.setWidth 2 })
  | (.gainData, r), byte => (.command, { r with gain := byte.setWidth 2 })

def byteRun (r : Registers) (bytes : List (BitVec 8)) : Position × Registers :=
  bytes.foldl byteStep (.command, r)

/-- A transaction acts through its complete bytes and always starts in command position. -/
def byteTransaction (r : Registers) (bits : List Bool) : Registers := (byteRun r (words 8 bits)).2

def replyTo (byte : BitVec 8) : BitVec 8 := if byte = 0x01 then 0xad else 0x00

/-- The reply during byte `i` answers byte `i - 1`; the first byte is answered by zeros. -/
def reply (bytes : List (BitVec 8)) (i : Nat) : BitVec 8 :=
  match i with
  | 0 => 0x00
  | i + 1 => replyTo (bytes.getD i 0)

/-- The slave between transactions. -/
def idle (r : Registers) : State := { powerUp with source := r.source, gain := r.gain }

def encode : Position → SpiState
  | .command => .cmd
  | .skipped => .magic
  | .sourceData => .source
  | .gainData => .gain

/-- The slave after `bits` of a transaction that began with registers `r`. Bit
position and byte position are tied to the counter and to the *next* state. -/
structure Tracks (r : Registers) (bits : List Bool) (s : State) : Prop where
  selected : s.nSS = false
  received : s.spiIn = shiftIn 0#8 bits
  counted : s.spiCnt = BitVec.twoPow 8 (bits.length % 8)
  ready : s.spiWordReady = decide (bits.length % 8 = 0 ∧ bits ≠ [])
  position : nextSpiState s = encode (byteRun r (words 8 bits)).1
  registers : (⟨s.source, s.gain⟩ : Registers) = (byteRun r (words 8 bits)).2
  replying : s.spiOut = shiftIn (reply (words 8 bits) (bits.length / 8))
    (List.replicate (bits.length % 8) false)
  shown : s.miso = (reply (words 8 bits) (bits.length / 8)).getMsbD (bits.length % 8)

theorem nextSpiState_waiting (s : State) (waiting : s.spiWordReady = false) :
    nextSpiState s = s.spiState := by
  cases h : s.spiState <;> simp [nextSpiState, h, waiting]

/-- The state machine decodes a complete byte as the protocol does. -/
theorem nextSpiState_ready (s : State) (p : Position × Registers) (ready : s.spiWordReady = true)
    (current : s.spiState = encode p.1) : nextSpiState s = encode (byteStep p s.spiIn).1 := by
  obtain ⟨position, r⟩ := p
  cases position with
  | command =>
    by_cases source : s.spiIn = 2
    · simp [nextSpiState, current, encode, ready, byteStep, cmdSource, source]
    by_cases gain : s.spiIn = 3
    · simp [nextSpiState, current, encode, ready, byteStep, cmdSource, cmdGain, gain]
    by_cases magic : s.spiIn = 1 <;>
      simp_all [nextSpiState, encode, byteStep, cmdSource, cmdGain, cmdMagic]
  | skipped => simp [nextSpiState, current, encode, ready, byteStep]
  | sourceData => simp [nextSpiState, current, encode, ready, byteStep]
  | gainData => simp [nextSpiState, current, encode, ready, byteStep]

theorem counter_last (r : Nat) (bound : r < 8) :
    (BitVec.twoPow 8 r)[7] = decide (r = 7) := by
  interval_cases r <;> decide

theorem counter_rotates (r : Nat) (bound : r < 8) :
    (BitVec.twoPow 8 r).rotateLeft 1 = BitVec.twoPow 8 ((r + 1) % 8) := by
  interval_cases r <;> decide

/-- The edge that completes a byte writes the register its position selects. -/
theorem registers_taken (s : State) (bit : Bool) (p : Position × Registers)
    (full : s.spiCnt[7] = true) (current : s.spiState = encode p.1)
    (held : (⟨s.source, s.gain⟩ : Registers) = p.2) :
    (⟨(shiftRegisters bit s).source, (shiftRegisters bit s).gain⟩ : Registers) =
      (byteStep p (s.spiIn.shiftConcat bit)).2 := by
  obtain ⟨position, r⟩ := p
  subst held
  cases position <;> simp [shiftRegisters, byteStep, full, current, encode]

def pulse (s : State) (bit : Bool) : State := edge (edge s (.clockHigh bit)) .clockLow

theorem pulse_eq (s : State) (bit : Bool) (selected : s.nSS = false) :
    pulse s bit = { shiftRegisters bit s with miso := (shiftRegisters bit s).spiOut.msb } := by
  have still : (shiftRegisters bit s).nSS = false := selected
  simp [pulse, edge, selected, still, BitVec.msb_eq_getLsbD_last]

section Counter

variable {r : Registers} {bits : List Bool} {s : State} (tracked : Tracks r bits s)
include tracked

/-- The counter's last bit says that the next bit completes a byte. -/
theorem tracks_counter : s.spiCnt[7] = decide (bits.length % 8 = 7) := by
  simp only [tracked.counted, counter_last _ (Nat.mod_lt bits.length Nat.succ_pos')]

theorem tracks_rotated (bit : Bool) :
    (shiftRegisters bit s).spiCnt = BitVec.twoPow 8 ((bits ++ [bit]).length % 8) := by
  simp only [shiftRegisters, tracked.counted, counter_rotates _ (Nat.mod_lt _ Nat.succ_pos'),
    List.length_append, List.length_singleton]
  congr 1
  omega

end Counter

/-- A bit inside a byte moves the registers and nothing else. -/
theorem pulse_inside (r : Registers) (bits : List Bool) (bit : Bool) (s : State)
    (tracked : Tracks r bits s) (inside : bits.length % 8 + 1 < 8) :
    Tracks r (bits ++ [bit]) (pulse s bit) := by
  have same := words_concat_partial bits bit inside
  have quotient : (bits.length + 1) / 8 = bits.length / 8 := by omega
  have remainder : (bits.length + 1) % 8 = bits.length % 8 + 1 := by omega
  have inByte : s.spiCnt[7] = false := by
    rw [tracks_counter tracked]
    simp; omega
  have out : (shiftRegisters bit s).spiOut = shiftIn (reply (words 8 bits) (bits.length / 8))
      (List.replicate (bits.length % 8 + 1) false) := by
    simp only [shiftRegisters, inByte, Bool.false_and, Bool.false_eq_true, ite_false,
      tracked.replying, List.replicate_succ', shiftIn_concat]
  rw [pulse_eq s bit tracked.selected]
  constructor
  · exact tracked.selected
  · simp only [shiftRegisters, tracked.received, shiftIn_concat]
  · exact tracks_rotated tracked bit
  · simp [shiftRegisters, inByte, remainder]
  · rw [nextSpiState_waiting _ (by simpa [shiftRegisters] using inByte), same]
    exact tracked.position
  · rw [same, ← tracked.registers]
    simp [shiftRegisters, inByte]
  · rw [List.length_append, List.length_singleton, same, quotient, remainder]
    exact out
  · rw [List.length_append, List.length_singleton, same, quotient, remainder]
    simp only [out, msb_shiftIn_zeros _ _ (show 0 < 8 by decide)]

/-- The eighth bit of a byte takes the data and prepares the reply; the state
machine itself follows on the next edge. -/
theorem pulse_last (r : Registers) (bits : List Bool) (bit : Bool) (s : State)
    (tracked : Tracks r bits s) (last : bits.length % 8 + 1 = 8) :
    Tracks r (bits ++ [bit]) (pulse s bit) := by
  have grown := words_concat_complete bits bit last
  have quotient : (bits.length + 1) / 8 = bits.length / 8 + 1 := by omega
  have remainder : (bits.length + 1) % 8 = 0 := by omega
  have seven : bits.length % 8 = 7 := by omega
  have full : s.spiCnt[7] = true := by
    simp [tracks_counter tracked, seven]
  have waiting : s.spiWordReady = false := by rw [tracked.ready, seven]; simp
  have current : s.spiState = encode (byteRun r (words 8 bits)).1 := by
    rw [← tracked.position, nextSpiState_waiting s waiting]
  have byteIn : s.spiIn.shiftConcat bit = shiftIn 0#8 (bits ++ [bit]) := by
    rw [tracked.received, shiftIn_concat]
  have after : byteRun r (words 8 (bits ++ [bit])) =
      byteStep (byteRun r (words 8 bits)) (shiftIn 0#8 (bits ++ [bit])) := by
    rw [grown]; simp [byteRun]
  have latest : reply (words 8 (bits ++ [bit])) (bits.length / 8 + 1) =
      replyTo (shiftIn 0#8 (bits ++ [bit])) := by
    simp [reply, grown]
  have drained : (s.spiOut.shiftConcat false) = 0#8 := by
    rw [tracked.replying, seven, ← shiftIn_concat,
      shiftIn_eq_of_length _ 0#8 _ (by simp)]
    decide
  have out : (shiftRegisters bit s).spiOut = replyTo (shiftIn 0#8 (bits ++ [bit])) := by
    simp only [shiftRegisters, full, drained, byteIn, replyTo, cmdMagic, magicReply,
      Bool.true_and, beq_iff_eq]
    rfl
  rw [pulse_eq s bit tracked.selected]
  constructor
  · exact tracked.selected
  · simp only [shiftRegisters, byteIn]
  · exact tracks_rotated tracked bit
  · simp [shiftRegisters, full, remainder]
  · rw [after, ← byteIn]
    refine nextSpiState_ready _ _ (by simpa [shiftRegisters] using full) ?_
    exact tracked.position
  · rw [after, ← byteIn]
    exact registers_taken s bit _ full current tracked.registers
  · rw [List.length_append, List.length_singleton, quotient, remainder, latest]
    exact out
  · rw [List.length_append, List.length_singleton, quotient, remainder, latest]
    simp only [out, BitVec.msb]

theorem pulse_tracks (r : Registers) (bits : List Bool) (bit : Bool) (s : State)
    (tracked : Tracks r bits s) : Tracks r (bits ++ [bit]) (pulse s bit) := by
  by_cases inside : bits.length % 8 + 1 < 8
  · exact pulse_inside r bits bit s tracked inside
  · exact pulse_last r bits bit s tracked (by omega)

theorem select_tracks (r : Registers) : Tracks r [] (edge (idle r) .selectLow) := by
  constructor <;> rfl

theorem run_append (s : State) (as bs : List Edge) : run s (as ++ bs) = run (run s as) bs := by
  simp [run]

theorem sampled_append (s : State) (as bs : List Edge) :
    sampled s (as ++ bs) = sampled s as ++ sampled (run s as) bs := by
  induction as generalizing s with
  | nil => rfl
  | cons e as ih => cases e <;> simp [sampled, run, ih]

theorem pulses_concat (bits : List Bool) (bit : Bool) :
    pulses (bits ++ [bit]) = pulses bits ++ [.clockHigh bit, .clockLow] := by simp [pulses]

/-- Any number of bits keeps the slave and the byte machine together. -/
theorem pulses_track (r : Registers) (bits : List Bool) :
    Tracks r bits (run (edge (idle r) .selectLow) (pulses bits)) := by
  induction bits using List.reverseRecOn with
  | nil => exact select_tracks r
  | append_singleton bits bit ih =>
    rw [pulses_concat, run_append]
    exact pulse_tracks r bits bit _ ih

theorem sampled_pulses (r : Registers) (bits : List Bool) :
    sampled (edge (idle r) .selectLow) (pulses bits) = (List.range bits.length).map
      fun n => (reply (words 8 (bits.take n)) (n / 8)).getMsbD (n % 8) := by
  induction bits using List.reverseRecOn with
  | nil => rfl
  | append_singleton bits bit ih =>
    have tracked := pulses_track r bits
    rw [pulses_concat, sampled_append, ih, List.length_append, List.length_singleton,
      List.range_succ, List.map_append]
    congr 1
    · apply List.map_congr_left
      intro n member
      rw [List.take_append_of_le_length (Nat.le_of_lt (List.mem_range.mp member))]
    · simp [sampled, tracked.shown]

/-- The reply to a byte does not depend on the bytes after it. -/
theorem reply_take (bytes : List (BitVec 8)) (i : Nat) : reply (bytes.take i) i = reply bytes i := by
  cases i with
  | zero => rfl
  | succ i => simp [reply]

theorem transaction_run (r : Registers) (bits : List Bool) :
    run (idle r) (transaction bits) = idle (byteTransaction r bits) := by
  have tracked := pulses_track r bits
  have held := tracked.registers
  simp only [transaction, run, List.foldl_cons, List.foldl_append, List.foldl_nil] at *
  simp only [edge, idle, resetRegisters, byteTransaction, powerUp, ← held]

/-- Complete bytes on `MISO`, each the answer to the byte before it. -/
theorem transaction_sampled (r : Registers) (bits : List Bool) :
    words 8 (sampled (idle r) (transaction bits)) =
      (List.range (bits.length / 8)).map (reply (words 8 bits)) := by
  have wire : sampled (idle r) (transaction bits) = (List.range bits.length).map
      fun n => (reply (words 8 bits) (n / 8)).getMsbD (n % 8) := by
    simp only [transaction, sampled, sampled_append, sampled_pulses, List.append_nil]
    apply List.map_congr_left
    intro n member
    rw [words_take _ _ (Nat.le_of_lt (List.mem_range.mp member)) (by decide), reply_take]
  rw [wire, words_range _ _ (by decide)]

theorem transactions_run (r : Registers) (transactions : List (List Bool)) :
    run (idle r) (transactions.flatMap transaction) = idle (transactions.foldl byteTransaction r) := by
  induction transactions generalizing r with
  | nil => rfl
  | cons bits rest ih => simp only [List.flatMap_cons, run_append, transaction_run, ih, List.foldl_cons]

/-- From power-up and after any transactions, the next one leaves exactly what the
byte machine leaves, whatever its length, and its bytes are answered as the
protocol says. Between transactions only `source` and `gain` survive. -/
theorem slave_refines_bytes (before : List (List Bool)) (bits : List Bool) :
    run powerUp ((before ++ [bits]).flatMap transaction) =
      idle (byteTransaction (before.foldl byteTransaction ⟨2, 0⟩) bits) ∧
    words 8 (sampled (run powerUp (before.flatMap transaction)) (transaction bits)) =
      (List.range (bits.length / 8)).map (reply (words 8 bits)) := by
  have start : powerUp = idle ⟨2, 0⟩ := rfl
  constructor
  · rw [start, transactions_run, List.foldl_append, List.foldl_cons, List.foldl_nil]
  · rw [start, transactions_run, transaction_sampled]

end AsdPre.SpiSlave
