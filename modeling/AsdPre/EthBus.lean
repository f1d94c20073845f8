import AsdPre.ByteMemory
import AsdPre.Traces

/-! The SPI bus between the firmware and the Ethernet controller. The controller is
not part of the program: it is any slave that answers byte by byte and takes a frame,
the bytes between two edges of chip select, as a whole. What a frame means is the
instruction table of the driver's header. -/
namespace AsdPre.EthBus

open ByteMemory

/-- `answer` is the byte that comes back with the last byte of the frame so far. -/
structure Slave (S : Type u) where
  answer : S → List Byte → Byte
  commit : S → List Byte → S

/-- The controller, and the bytes sent since chip select went low. -/
structure Bus (S : Type u) where
  chip : S
  sent : Option (List Byte)

def idle (chip : S) : Bus S := ⟨chip, none⟩

variable {S : Type u} (slave : Slave S)

/-- The loop of `spi_transfer`: the frame so far afterwards, and what was received. -/
def transferLoop (chip : S) (sent : List Byte) : List Byte → List Byte × List Byte
  | [] => (sent, [])
  | tx :: rest =>
    let sent := sent ++ [tx]
    let rx := slave.answer chip sent
    let (sent, received) := transferLoop chip sent rest
    (sent, rx :: received)

/-- Without data to send the source sends zeros; `drop` releases chip select. -/
def spiTransfer (bus : Bus S) (tx : List Byte) (drop : Bool) : Bus S × List Byte :=
  let (sent, received) := transferLoop slave bus.chip (bus.sent.getD []) tx
  (if drop then idle (slave.commit bus.chip sent) else ⟨bus.chip, some sent⟩, received)

def zeros (length : Nat) : List Byte := List.replicate length 0

/-- `ENC424J600_READCR`, `WRITECR`, `BITFIELDSET` and `BITFIELDCLEAR`. -/
inductive BankedOp where
  | readCr
  | writeCr
  | bitFieldSet
  | bitFieldClear
  deriving DecidableEq, Repr

def BankedOp.code : BankedOp → Byte
  | .readCr => 0x00
  | .writeCr => 0x40
  | .bitFieldSet => 0x80
  | .bitFieldClear => 0xa0

inductive UnbankedOp where
  | readCru
  | writeCru
  | bitFieldSetU
  | bitFieldClearU
  deriving DecidableEq, Repr

def UnbankedOp.code : UnbankedOp → Byte
  | .readCru => 0x20
  | .writeCru => 0x22
  | .bitFieldSetU => 0x24
  | .bitFieldClearU => 0x26

inductive SimpleOp where
  | setEthRst
  | setPktDec
  | setTxRts
  | fcDisable
  | fcSingle
  | fcMultiple
  | fcClear
  | enableRx
  | disableRx
  | setEie
  | clrEie
  deriving DecidableEq, Repr

def SimpleOp.code : SimpleOp → Byte
  | .setEthRst => 0xca
  | .setPktDec => 0xcc
  | .setTxRts => 0xd4
  | .fcDisable => 0xe0
  | .fcSingle => 0xe2
  | .fcMultiple => 0xe4
  | .fcClear => 0xe6
  | .enableRx => 0xe8
  | .disableRx => 0xea
  | .setEie => 0xec
  | .clrEie => 0xee

inductive Pointer where
  | gpbRdPt
  | rxRdPt
  | udaRdPt
  | gpbWrPt
  | rxWrPt
  | udaWrPt
  deriving DecidableEq, Repr

def Pointer.code : Pointer → Byte
  | .gpbRdPt => 0x60
  | .rxRdPt => 0x64
  | .udaRdPt => 0x68
  | .gpbWrPt => 0x6c
  | .rxWrPt => 0x70
  | .udaWrPt => 0x74

/-- `ENC424J600_WGPDATA` and `ENC424J600_RRXDATA` -/
def wgpData : Byte := 0x2a
def rrxData : Byte := 0x2c

/-- `ENC424J600_ECON1H`: the last banked address, and the mask of all of them. -/
def econ1h : Byte := 0x1f

def simpleOperation (bus : Bus S) (op : SimpleOp) : Bus S := (spiTransfer slave bus [op.code] true).1

/-- The buffer afterwards, and whether the call was accepted. -/
def bankedRegisterOperation (bus : Bus S) (op : BankedOp) (address : Byte) (buffer : List Byte) :
    Bus S × List Byte × Bool :=
  if buffer = [] then (bus, buffer, false)
  else if econ1h < address ∨ op.code &&& econ1h ≠ 0 then (bus, buffer, false)
  else
    let (bus, _) := spiTransfer slave bus [address ||| op.code] false
    let (bus, received) := spiTransfer slave bus
      (if op = .readCr then zeros buffer.length else buffer) true
    (bus, if op = .readCr then received else buffer, true)

def unbankedRegisterOperation (bus : Bus S) (op : UnbankedOp) (address : Byte)
    (buffer : List Byte) : Bus S × List Byte × Bool :=
  if buffer = [] then (bus, buffer, false)
  else
    let (bus, _) := spiTransfer slave bus [op.code] false
    let (bus, _) := spiTransfer slave bus [address] false
    let (bus, received) := spiTransfer slave bus
      (if op = .readCru then zeros buffer.length else buffer) true
    (bus, if op = .readCru then received else buffer, true)

/-- A `uint16_t` as it lies in memory, the low byte first. -/
def lowHigh (value : BitVec 16) : List Byte := leBytes 2 value.toNat

def setPointer (bus : Bus S) (pointer : Pointer) (value : BitVec 16) : Bus S :=
  let (bus, _) := spiTransfer slave bus [pointer.code] false
  (spiTransfer slave bus (lowHigh value) true).1

def readFromRxBuffer (bus : Bus S) (length : Nat) : Bus S × List Byte × Bool :=
  if length = 0 then (bus, [], false)
  else
    let (bus, _) := spiTransfer slave bus [rrxData] false
    let (bus, received) := spiTransfer slave bus (zeros length) true
    (bus, received, true)

section Frames

/-! Each primitive sends one frame; the bytes received with its last part are the
answers along it. -/

/-- What comes back while `tx` is sent after `sent`. -/
def answers (chip : S) (sent : List Byte) : List Byte → List Byte
  | [] => []
  | tx :: rest => slave.answer chip (sent ++ [tx]) :: answers chip (sent ++ [tx]) rest

theorem transferLoop_eq (chip : S) (sent tx : List Byte) :
    transferLoop slave chip sent tx = (sent ++ tx, answers slave chip sent tx) := by
  induction tx generalizing sent with
  | nil => simp [transferLoop, answers]
  | cons t rest ih => simp [transferLoop, answers, ih]

@[simp] theorem length_answers (chip : S) (sent tx : List Byte) :
    (answers slave chip sent tx).length = tx.length := by
  induction tx generalizing sent with
  | nil => rfl
  | cons t rest ih => simp [answers, ih]

theorem answers_zeros (chip : S) (sent : List Byte) (n : Nat) :
    answers slave chip sent (zeros n) =
      (List.range n).map fun i => slave.answer chip (sent ++ zeros (i + 1)) := by
  induction n generalizing sent with
  | zero => rfl
  | succ n ih =>
    have first : zeros (n + 1) = 0 :: zeros n := List.replicate_succ
    have later (i : Nat) : sent ++ [0] ++ zeros (i + 1) = sent ++ zeros (i + 1 + 1) := by
      rw [List.append_assoc]
      rfl
    rw [first, answers, ih, List.range_succ_eq_map, List.map_cons, List.map_map]
    congr 1
    apply List.map_congr_left
    intro i _
    rw [later]
    rfl

theorem spiTransfer_eq (bus : Bus S) (tx : List Byte) (drop : Bool) :
    spiTransfer slave bus tx drop =
      (if drop then idle (slave.commit bus.chip (bus.sent.getD [] ++ tx))
        else ⟨bus.chip, some (bus.sent.getD [] ++ tx)⟩,
      answers slave bus.chip (bus.sent.getD []) tx) := by
  simp only [spiTransfer, transferLoop_eq]

@[simp] theorem simpleOperation_idle (chip : S) (op : SimpleOp) :
    simpleOperation slave (idle chip) op = idle (slave.commit chip [op.code]) := by
  simp [simpleOperation, spiTransfer_eq, idle]

theorem bankedRegisterOperation_idle (chip : S) (op : BankedOp) (address : Byte)
    (buffer : List Byte) (nonempty : buffer ≠ []) (low : address ≤ econ1h) :
    bankedRegisterOperation slave (idle chip) op address buffer =
      (idle (slave.commit chip
        ((address ||| op.code) :: if op = .readCr then zeros buffer.length else buffer)),
      if op = .readCr then answers slave chip [address ||| op.code] (zeros buffer.length) else buffer,
      true) := by
  have aligned : op.code &&& econ1h = 0 := by cases op <;> decide
  have banked : ¬ (econ1h < address ∨ op.code &&& econ1h ≠ 0) := by
    simp only [aligned, ne_eq, not_true_eq_false, or_false]
    exact BitVec.not_lt.mpr low
  rw [bankedRegisterOperation, if_neg nonempty, if_neg banked]
  by_cases read : op = .readCr <;> simp [spiTransfer_eq, idle, read]

theorem unbankedRegisterOperation_idle (chip : S) (op : UnbankedOp) (address : Byte)
    (buffer : List Byte) (nonempty : buffer ≠ []) :
    unbankedRegisterOperation slave (idle chip) op address buffer =
      (idle (slave.commit chip
        (op.code :: address :: if op = .readCru then zeros buffer.length else buffer)),
      if op = .readCru then answers slave chip [op.code, address] (zeros buffer.length) else buffer,
      true) := by
  rw [unbankedRegisterOperation, if_neg nonempty]
  by_cases read : op = .readCru <;> simp [spiTransfer_eq, idle, read]

@[simp] theorem setPointer_idle (chip : S) (pointer : Pointer) (value : BitVec 16) :
    setPointer slave (idle chip) pointer value =
      idle (slave.commit chip (pointer.code :: lowHigh value)) := by
  simp [setPointer, spiTransfer_eq, idle]

theorem readFromRxBuffer_idle (chip : S) (length : Nat) (positive : 0 < length) :
    readFromRxBuffer slave (idle chip) length =
      (idle (slave.commit chip (rrxData :: zeros length)),
        answers slave chip [rrxData] (zeros length), true) := by
  rw [readFromRxBuffer, if_neg (by omega)]
  simp [spiTransfer_eq, idle]

end Frames

section Instructions

/-! The instruction table of the header, read from the controller's side. -/

inductive Instr where
  | simple (op : SimpleOp)
  | banked (op : BankedOp) (address : Fin 32) (data : List Byte)
  | unbanked (op : UnbankedOp) (address : Byte) (data : List Byte)
  | pointer (p : Pointer) (value : BitVec 16)
  | writeGp (data : List Byte)
  | readRx (length : Nat)
  deriving DecidableEq

def SimpleOp.all : List SimpleOp :=
  [.setEthRst, .setPktDec, .setTxRts, .fcDisable, .fcSingle, .fcMultiple, .fcClear, .enableRx,
    .disableRx, .setEie, .clrEie]

def BankedOp.all : List BankedOp := [.readCr, .writeCr, .bitFieldSet, .bitFieldClear]

def UnbankedOp.all : List UnbankedOp := [.readCru, .writeCru, .bitFieldSetU, .bitFieldClearU]

def Pointer.all : List Pointer := [.gpbRdPt, .rxRdPt, .udaRdPt, .gpbWrPt, .rxWrPt, .udaWrPt]

/-- A frame means what its first byte says; the upper three bits of a banked
instruction are the operation and the lower five the address. -/
def decode : List Byte → Option Instr
  | [] => none
  | code :: data =>
    match SimpleOp.all.find? (·.code = code), Pointer.all.find? (·.code = code),
        UnbankedOp.all.find? (·.code = code), BankedOp.all.find? (·.code = code &&& ~~~econ1h) with
    | some op, _, _, _ => if data = [] then some (.simple op) else none
    | _, some p, _, _ => if data.length = 2 then some (.pointer p (BitVec.ofNat 16 (ofLe data))) else none
    | _, _, some op, _ =>
      match data with
      | address :: data => some (.unbanked op address data)
      | [] => none
    | _, _, _, some op => some (.banked op (Fin.ofNat 32 code.toNat) data)
    | _, _, _, _ =>
      if code = wgpData then some (.writeGp data)
      else if code = rrxData then some (.readRx data.length)
      else none

/-- The frame of an instruction, as the driver builds it; a read sends zeros. -/
def Instr.frame : Instr → List Byte
  | .simple op => [op.code]
  | .banked op address data => (BitVec.ofNat 8 address.val ||| op.code) :: data
  | .unbanked op address data => op.code :: address :: data
  | .pointer p value => p.code :: lowHigh value
  | .writeGp data => wgpData :: data
  | .readRx length => rrxData :: zeros length

theorem banked_frame (op : BankedOp) (address : Byte) (data : List Byte) (low : address ≤ econ1h) :
    (Instr.banked op (Fin.ofNat 32 address.toNat) data).frame = (address ||| op.code) :: data := by
  have same : BitVec.ofNat 8 (Fin.ofNat 32 address.toNat).val = address := by
    have small : address.toNat ≤ 31 := low
    apply BitVec.eq_of_toNat_eq
    simp only [Fin.ofNat, BitVec.toNat_ofNat]
    omega
  rw [Instr.frame, same]

theorem decode_frame (i : Instr) : decode i.frame = some i := by
  cases i with
  | simple op => cases op <;> rfl
  | banked op address data =>
    have table : ∀ (op : BankedOp) (address : Fin 32),
        let code := BitVec.ofNat 8 address.val ||| op.code
        SimpleOp.all.find? (·.code = code) = none ∧ Pointer.all.find? (·.code = code) = none ∧
        UnbankedOp.all.find? (·.code = code) = none ∧
        BankedOp.all.find? (·.code = code &&& ~~~econ1h) = some op ∧
        Fin.ofNat 32 code.toNat = address := by
      intro op
      cases op <;> decide
    obtain ⟨notSimple, notPointer, notUnbanked, isBanked, sameAddress⟩ := table op address
    simp only [Instr.frame, decode, notSimple, notPointer, notUnbanked, isBanked, sameAddress]
  | unbanked op address data => cases op <;> rfl
  | pointer p value =>
    have whole : BitVec.ofNat 16 (ofLe (lowHigh value)) = value :=
      ofNat_ofLe_leBytes (k := 2) value
    have size : (lowHigh value).length = 2 := by simp [lowHigh, leBytes]
    have table : SimpleOp.all.find? (·.code = p.code) = none ∧
        Pointer.all.find? (·.code = p.code) = some p := by cases p <;> decide
    simp only [Instr.frame, decode, table, size, if_true, whole]
  | writeGp data => rfl
  | readRx length =>
    have size : (zeros length).length = length := List.length_replicate
    have table : SimpleOp.all.find? (·.code = rrxData) = none ∧
        Pointer.all.find? (·.code = rrxData) = none ∧
        UnbankedOp.all.find? (·.code = rrxData) = none ∧
        BankedOp.all.find? (·.code = rrxData &&& ~~~econ1h) = none := by decide
    have other : rrxData ≠ wgpData := by decide
    simp only [Instr.frame, decode, table, other, if_true, if_false, size]

end Instructions

section Calls

/-! Any sequence of calls, on any controller. -/

inductive Call where
  | simple (op : SimpleOp)
  | banked (op : BankedOp) (address : Byte) (buffer : List Byte)
  | unbanked (op : UnbankedOp) (address : Byte) (buffer : List Byte)
  | pointer (p : Pointer) (value : BitVec 16)
  | readRx (length : Nat)
  deriving DecidableEq

def call (bus : Bus S) : Call → Bus S
  | .simple op => simpleOperation slave bus op
  | .banked op address buffer => (bankedRegisterOperation slave bus op address buffer).1
  | .unbanked op address buffer => (unbankedRegisterOperation slave bus op address buffer).1
  | .pointer p value => setPointer slave bus p value
  | .readRx length => (readFromRxBuffer slave bus length).1

/-- What the caller asked for; a call with a bad argument asks for nothing. -/
def Call.asks : Call → Option Instr
  | .simple op => some (.simple op)
  | .banked op address buffer =>
    if buffer = [] ∨ econ1h < address then none
    else some (.banked op (Fin.ofNat 32 address.toNat)
      (if op = .readCr then zeros buffer.length else buffer))
  | .unbanked op address buffer =>
    if buffer = [] then none
    else some (.unbanked op address (if op = .readCru then zeros buffer.length else buffer))
  | .pointer p value => some (.pointer p value)
  | .readRx length => if length = 0 then none else some (.readRx length)

/-- The controller with a log of its frames. -/
def recording : Slave (S × List (List Byte)) where
  answer s sent := slave.answer s.1 sent
  commit s frame := (slave.commit s.1 frame, s.2 ++ [frame])

/-- A call is one frame between two rests of the bus, or none. -/
theorem call_frame (chip : S) (log : List (List Byte)) (c : Call) :
    ∃ chip', call (recording slave) (idle (chip, log)) c =
      idle (chip', log ++ c.asks.toList.map Instr.frame) := by
  cases c with
  | simple op => exact ⟨_, by simp [call, Call.asks, recording, Instr.frame]; rfl⟩
  | banked op address buffer =>
    by_cases refused : buffer = [] ∨ econ1h < address
    · have unsent : bankedRegisterOperation (recording slave) (idle (chip, log)) op address buffer =
          (idle (chip, log), buffer, false) := by
        rw [bankedRegisterOperation]
        rcases refused with empty | high
        · rw [if_pos empty]
        · by_cases empty : buffer = []
          · rw [if_pos empty]
          · rw [if_neg empty, if_pos (.inl high)]
      exact ⟨chip, by simp [call, Call.asks, refused, unsent]⟩
    · obtain ⟨nonempty, low⟩ := not_or.mp refused
      have bounded := BitVec.not_lt.mp low
      have sent := bankedRegisterOperation_idle (recording slave) (chip, log) op address buffer
        nonempty bounded
      refine ⟨slave.commit chip
        ((address ||| op.code) :: if op = .readCr then zeros buffer.length else buffer), ?_⟩
      rw [call, sent, Call.asks, if_neg refused]
      simp only [Option.toList_some, List.map_cons, List.map_nil,
        banked_frame op address _ bounded]
      rfl
  | unbanked op address buffer =>
    by_cases empty : buffer = []
    · exact ⟨chip, by simp [call, unbankedRegisterOperation, Call.asks, empty]⟩
    · have sent := unbankedRegisterOperation_idle (recording slave) (chip, log) op address buffer
        empty
      refine ⟨slave.commit chip
        (op.code :: address :: if op = .readCru then zeros buffer.length else buffer), ?_⟩
      rw [call, sent, Call.asks, if_neg empty]
      rfl
  | pointer p value => exact ⟨_, by simp [call, Call.asks, recording, Instr.frame]; rfl⟩
  | readRx length =>
    by_cases empty : length = 0
    · exact ⟨chip, by simp [call, readFromRxBuffer, Call.asks, empty]⟩
    · have sent := readFromRxBuffer_idle (recording slave) (chip, log) length (by omega)
      refine ⟨slave.commit chip (rrxData :: zeros length), ?_⟩
      rw [call, sent, Call.asks, if_neg empty]
      rfl

/-- Whatever the controller answers, the frames of any sequence of calls decode to
what the calls asked for, one by one, and chip select is released after each. -/
theorem frames_decode (chip : S) (calls : List Call) :
    ∃ chip' log, Traces.run (call (recording slave)) (idle (chip, [])) calls = idle (chip', log) ∧
      log.map decode = (calls.filterMap Call.asks).map some := by
  suffices general : ∀ before : List (List Byte), ∃ chip' log,
      Traces.run (call (recording slave)) (idle (chip, before)) calls = idle (chip', before ++ log) ∧
        log.map decode = (calls.filterMap Call.asks).map some by
    simpa using general []
  induction calls generalizing chip with
  | nil => exact fun before => ⟨chip, [], by simp, rfl⟩
  | cons c rest ih =>
    intro before
    obtain ⟨next, sent⟩ := call_frame slave chip before c
    obtain ⟨chip', log, ran, decoded⟩ := ih next (before ++ c.asks.toList.map Instr.frame)
    refine ⟨chip', c.asks.toList.map Instr.frame ++ log, ?_, ?_⟩
    · rw [Traces.run_cons, sent, ran, List.append_assoc]
    · cases asked : c.asks with
      | none => simp [List.filterMap_cons_none asked, decoded]
      | some i => simp [List.filterMap_cons_some asked, decoded, decode_frame]

end Calls

end AsdPre.EthBus
