import AsdPre.EthController

/-! The driver of the Ethernet controller as the network stack uses it: polling, which
takes packets out of the controller, and sending. The stack above is any function of
what it has been given. `hw_poll` is called from the packet interrupt and
`enc424j600_spi_send` from the main loop too, over the same bus, and nothing in the
source keeps the interrupt out of a send; here each call of either is finished before
the next begins. -/
namespace AsdPre.EthDriver

open ByteMemory EthBus RingMemory EthController

/-- A packet to send, as a chain of buffers. -/
structure Pbuf where
  chain : List (List Byte)
  nonempty : chain ≠ []

def Pbuf.bytes (p : Pbuf) : Packet := p.chain.flatten

/-- `tot_len` -/
def Pbuf.totLen (p : Pbuf) : Nat := p.bytes.length

/-- What the stack sends when a packet is put into it, given all it was given before,
and when the link comes up. -/
structure Stack where
  responds : List (Option Packet) → List Pbuf
  announces : List (Option Packet) → List Pbuf

/-- The last five fields are a history: what `netif->input` was called with, the null
pointer of a failed allocation as `none`; whether the pool had buffers for each packet;
what the stack gave to `linkoutput`; the upper byte of the status at the start and at
each link event; and how often `enc424j600_spi_PCFULevent` was called. -/
structure Driver (S : Type u) where
  bus : Bus S
  nextPacketPointer : BitVec 16
  linkOn : Bool
  txbusy : Bool
  netifUp : Bool
  input : List (Option Packet)
  offered : List Bool
  output : List Packet
  statuses : List Byte
  full : Nat

/-- `PBUF_POOL_BUFSIZE_ALIGNED` -/
def poolBufSize : Nat := 1556

/-- The lengths of the buffers after the first one. -/
def poolTail (remaining : Nat) : List Nat :=
  if remaining = 0 then []
  else min remaining poolBufSize :: poolTail (remaining - min remaining poolBufSize)
termination_by remaining
decreasing_by
  simp only [poolBufSize]
  omega

/-- `pbuf_alloc` for `PBUF_RAW` and `PBUF_POOL`: the lengths of the chain, or the null
pointer when the pool is exhausted. -/
def pbufAlloc (pool : Bool) (length : Nat) : Option (List Nat) :=
  if pool then some (min length poolBufSize :: poolTail (length - min length poolBufSize)) else none

section Code

variable {S : Type u} (slave : Slave S)

/-- The loop over the chain of `enc424j600_spi_recv`. -/
def readChain (bus : Bus S) : List Nat → Bus S × List (List Byte)
  | [] => (bus, [])
  | length :: rest =>
    let (bus, payload, _) := readFromRxBuffer slave bus length
    let (bus, payloads) := readChain bus rest
    (bus, payload :: payloads)

/-- The loop over the chain of `enc424j600_spi_send`; the last buffer ends the frame. -/
def sendChain (bus : Bus S) : List (List Byte) → Bus S
  | [] => bus
  | payload :: rest => sendChain (spiTransfer slave bus payload rest.isEmpty).1 rest

def send (d : Driver S) (p : Pbuf) : Driver S :=
  if p.totLen > txBufSize then d
  else
    let bus := setPointer slave d.bus .gpbWrPt 0
    let (bus, _) := spiTransfer slave bus [wgpData] false
    let bus := sendChain slave bus p.chain
    let (bus, _, _) := unbankedRegisterOperation slave bus .writeCru etxlenU
      (lowHigh (BitVec.ofNat 16 p.totLen))
    { d with bus := simpleOperation slave bus .setTxRts, txbusy := true }

def sendAll (d : Driver S) (ps : List Pbuf) : Driver S := ps.foldl (send slave) d

/-- The history with what the stack gives to send. -/
def Driver.given (d : Driver S) (ps : List Pbuf) : Driver S :=
  { d with output := d.output ++ ps.map Pbuf.bytes }

/-- The upper byte of the status as the controller would answer. -/
def estath (chip : S) : Byte :=
  (answers slave chip [estatl ||| BankedOp.readCr.code] (zeros 2)).getD 1 0

/-- The history with the status as it is now. -/
def Driver.observed (d : Driver S) : Driver S :=
  { d with statuses := d.statuses ++ [estath slave d.bus.chip] }

/-- The new end of the receive buffer. -/
def rbufTail (nextPacketPointer : BitVec 16) : BitVec 16 :=
  if nextPacketPointer - 2 = 0x400 then 0x5ffe else nextPacketPointer - 2

def recv (stack : Stack) (pool : Bool) (d : Driver S) (length : Nat) : Driver S :=
  let chain := pbufAlloc pool length
  let (bus, payloads) := readChain slave d.bus (chain.getD [])
  let (bus, _, _) := unbankedRegisterOperation slave bus .writeCru erxtailU
    (lowHigh (rbufTail d.nextPacketPointer))
  let bus := simpleOperation slave bus .setPktDec
  let input := d.input ++ [chain.map fun _ => payloads.flatten]
  sendAll slave (Driver.given { d with bus, input } (stack.responds input)) (stack.responds input)

def rxEvent (stack : Stack) (pool : Bool) (d : Driver S) : Driver S :=
  let (bus, pkcnt, _) := bankedRegisterOperation slave d.bus .readCr estatl (zeros 1)
  if pkcnt.getD 0 0 = 0 then { d with bus }
  else
    let bus := setPointer slave bus .rxRdPt d.nextPacketPointer
    let (bus, next, _) := readFromRxBuffer slave bus 2
    let (bus, rsv, _) := readFromRxBuffer slave bus 2
    let (bus, _, _) := readFromRxBuffer slave bus 4
    let nextPacketPointer := BitVec.ofNat 16 (ofLe next)
    recv slave stack pool { d with bus, nextPacketPointer, offered := d.offered ++ [pool] } (ofLe rsv)

/-- `!ENC424J600_FULDPX` -/
def notFuldpx : Byte := 0

/-- The two bytes of a register, one of them changed and both written back. -/
def setMac (bus : Bus S) (ethernetStatus : Byte) : Bus S :=
  let (bus, aux, _) := unbankedRegisterOperation slave bus .readCru macon2U (zeros 2)
  let full := ethernetStatus &&& 0x04 ≠ 0
  let low := if full then aux.getD 0 0 ||| 0x01 else aux.getD 0 0 &&& notFuldpx
  let (bus, _, _) := unbankedRegisterOperation slave bus .writeCru macon2U [low, aux.getD 1 0]
  (unbankedRegisterOperation slave bus .writeCru mabbipgU [if full then 0x15 else 0x12, 0]).1

def linkEvent (stack : Stack) (d : Driver S) : Driver S :=
  let (bus, aux, _) := bankedRegisterOperation slave d.bus .readCr estatl (zeros 2)
  let d :=
    if aux.getD 1 0 &&& 0x01 ≠ 0 then
      let d' := { d with bus := setMac slave bus (aux.getD 1 0), linkOn := true, netifUp := true }
      if d.netifUp then d'
      else sendAll slave (d'.given (stack.announces d.input)) (stack.announces d.input)
    else { d with bus, linkOn := false, netifUp := false }
  { d with bus := (bankedRegisterOperation slave d.bus .bitFieldClear eirh [linkIf]).1 }

/-- The events that only clear their flag. -/
def clearFlag (flag : Byte) (d : Driver S) : Driver S :=
  { d with bus := (bankedRegisterOperation slave d.bus .bitFieldClear eirl [flag]).1 }

def rxAbtEvent (d : Driver S) : Driver S := clearFlag slave rxAbtIf d

def txEvent (d : Driver S) : Driver S := clearFlag slave txIf { d with txbusy := false }

def txAbtEvent (d : Driver S) : Driver S := clearFlag slave txAbtIf { d with txbusy := false }

def pcfulEvent (d : Driver S) : Driver S :=
  clearFlag slave pcfulIf { d with bus := simpleOperation slave d.bus .setPktDec }

/-- The body of the loop of `hw_poll`, and the flags it acted on. -/
def pass (stack : Stack) (pool : Bool) (d : Driver S) : Driver S × BitVec 16 :=
  let (bus, aux, _) := bankedRegisterOperation slave d.bus .readCr eirl (zeros 2)
  let high := aux.getD 1 0 &&& linkIf
  let low := aux.getD 0 0 &&& (pktIf ||| txIf ||| txAbtIf ||| rxAbtIf ||| pcfulIf)
  let iflags := low.setWidth 16 + 256 * high.setWidth 16
  let d := { d with bus }
  let d := if low &&& pktIf ≠ 0 then rxEvent slave stack pool d else d
  let d := if high &&& linkIf ≠ 0 then linkEvent slave stack (d.observed slave) else d
  let d := if low &&& txIf ≠ 0 then txEvent slave d else d
  let d := if low &&& txAbtIf ≠ 0 then txAbtEvent slave d else d
  let d := if low &&& pcfulIf ≠ 0 then pcfulEvent slave { d with full := d.full + 1 } else d
  let d := if low &&& rxAbtIf ≠ 0 then rxAbtEvent slave d else d
  (d, iflags)

/-- The loop of `hw_poll` with, for each pass, whether the pool has buffers. It has
ended when no flag was found. -/
def pollLoop (stack : Stack) : List Bool → Driver S → Driver S × Bool
  | [], d => (d, false)
  | pool :: rest, d =>
    let (d, iflags) := pass slave stack pool d
    if iflags = 0 then (d, true) else pollLoop stack rest d

def hwPoll (stack : Stack) (pools : List Bool) (d : Driver S) : Driver S × Bool :=
  let d := { d with bus := simpleOperation slave d.bus .clrEie }
  let (d, done) := pollLoop slave stack pools d
  if done then ({ d with bus := simpleOperation slave d.bus .setEie }, true) else (d, false)

/-- `while (0 < pkcnt--)` -/
def dropPackets (bus : Bus S) : Nat → Bus S
  | 0 => bus
  | n + 1 => dropPackets (simpleOperation slave bus .setPktDec) n

/-- The first part of `enc424j600_spi_start`: no more packets, and none counted. -/
def stopReceiver (bus : Bus S) : Bus S :=
  let bus := simpleOperation slave bus .disableRx
  let bus := simpleOperation slave bus .clrEie
  let (bus, _, _) := unbankedRegisterOperation slave bus .bitFieldSetU eieU
    [pktIf ||| txIf ||| txAbtIf ||| rxAbtIf ||| pcfulIf, linkIf]
  let (bus, pkcnt, _) := bankedRegisterOperation slave bus .readCr estatl (zeros 1)
  dropPackets slave bus (pkcnt.getD 0 0).toNat

/-- The second part: where the buffers are. -/
def placeBuffers (bus : Bus S) : Bus S :=
  let (bus, _, _) := unbankedRegisterOperation slave bus .writeCru erxstU [0x00, 0x04]
  let (bus, _, _) := unbankedRegisterOperation slave bus .writeCru erxheadU [0x00, 0x04]
  let (bus, _, _) := unbankedRegisterOperation slave bus .writeCru erxtailU [0xfe, 0x5f]
  let (bus, _, _) := bankedRegisterOperation slave bus .bitFieldClear econ1l [0x02]
  (unbankedRegisterOperation slave bus .writeCru etxstU [0x00, 0x00]).1

/-- All that is done before the link is looked at. -/
def setUp (bus : Bus S) : Bus S :=
  let bus := placeBuffers slave (stopReceiver slave bus)
  let (bus, _, _) := bankedRegisterOperation slave bus .bitFieldClear eirl
    [txIf ||| txAbtIf ||| rxAbtIf ||| pcfulIf, linkIf]
  let bus := simpleOperation slave bus .setEie
  simpleOperation slave bus .enableRx

def spiStart (d : Driver S) : Driver S :=
  let (bus, aux, _) := bankedRegisterOperation slave (setUp slave d.bus) .readCr estatl (zeros 2)
  let d := { d with nextPacketPointer := 0x400, txbusy := false }
  if aux.getD 1 0 &&& 0x01 ≠ 0 then
    { d with bus := if d.linkOn then bus else setMac slave bus (aux.getD 1 0), linkOn := true }
  else { d with bus, linkOn := false }

end Code

section Frames

/-! Each access to the controller from rest, as the instruction it sends. -/

variable {S : Type u} (slave : Slave S)

theorem readCr_idle (chip : S) (address : Byte) (n : Nat) (low : address ≤ econ1h) (positive : 0 < n) :
    bankedRegisterOperation slave (idle chip) .readCr address (zeros n) =
      (idle (slave.commit chip (Instr.banked .readCr (Fin.ofNat 32 address.toNat) (zeros n)).frame),
        answers slave chip [address ||| BankedOp.readCr.code] (zeros n), true) := by
  have nonempty : zeros n ≠ [] := by simp [zeros]; omega
  have size : zeros (zeros n).length = zeros n := by simp [zeros]
  rw [bankedRegisterOperation_idle slave chip .readCr address _ nonempty low,
    banked_frame .readCr address _ low]
  simp only [if_true, size]

theorem bitFieldClear_idle (chip : S) (address : Byte) (data : List Byte) (low : address ≤ econ1h)
    (nonempty : data ≠ []) :
    (bankedRegisterOperation slave (idle chip) .bitFieldClear address data).1 =
      idle (slave.commit chip (Instr.banked .bitFieldClear (Fin.ofNat 32 address.toNat) data).frame) := by
  rw [bankedRegisterOperation_idle slave chip .bitFieldClear address _ nonempty low,
    banked_frame .bitFieldClear address _ low]
  rfl

theorem unbanked_idle (chip : S) (op : UnbankedOp) (address : Byte) (data : List Byte)
    (write : op ≠ .readCru) (nonempty : data ≠ []) :
    (unbankedRegisterOperation slave (idle chip) op address data).1 =
      idle (slave.commit chip (Instr.unbanked op address data).frame) := by
  rw [unbankedRegisterOperation_idle slave chip op address _ nonempty, if_neg write]
  rfl

theorem writeCru_idle (chip : S) (address : Byte) (data : List Byte) (nonempty : data ≠ []) :
    (unbankedRegisterOperation slave (idle chip) .writeCru address data).1 =
      idle (slave.commit chip (Instr.unbanked .writeCru address data).frame) :=
  unbanked_idle slave chip .writeCru address data (by decide) nonempty

theorem simple_idle (chip : S) (op : SimpleOp) :
    simpleOperation slave (idle chip) op = idle (slave.commit chip (Instr.simple op).frame) :=
  simpleOperation_idle slave chip op

theorem readCru_idle (chip : S) (address : Byte) (n : Nat) (positive : 0 < n) :
    unbankedRegisterOperation slave (idle chip) .readCru address (zeros n) =
      (idle (slave.commit chip (Instr.unbanked .readCru address (zeros n)).frame),
        answers slave chip [UnbankedOp.readCru.code, address] (zeros n), true) := by
  have nonempty : zeros n ≠ [] := by simp [zeros]; omega
  have size : zeros (zeros n).length = zeros n := by simp [zeros]
  rw [unbankedRegisterOperation_idle slave chip .readCru address _ nonempty]
  simp only [if_true, size]
  rfl

theorem sendChain_open (chip : S) (sent : List Byte) (chain : List (List Byte))
    (nonempty : chain ≠ []) :
    sendChain slave ⟨chip, some sent⟩ chain = idle (slave.commit chip (sent ++ chain.flatten)) := by
  induction chain generalizing sent with
  | nil => exact absurd rfl nonempty
  | cons payload rest ih =>
    cases rest with
    | nil => simp [sendChain, spiTransfer_eq]
    | cons next others =>
      rw [sendChain, spiTransfer_eq]
      simp only [List.isEmpty_cons, Bool.false_eq_true, if_false, Option.getD_some]
      rw [ih _ (by simp), List.flatten_cons (l := payload), List.append_assoc]

end Frames

section Sending

variable {S : Type u}

/-- The controller after a few instructions. -/
def commits (slave : Slave S) (chip : S) (instructions : List Instr) : S :=
  instructions.foldl (fun chip i => slave.commit chip i.frame) chip

theorem send_idle (slave : Slave S) (d : Driver S) (chip : S) (p : Pbuf) (rest : d.bus = idle chip)
    (fits : p.totLen ≤ txBufSize) :
    send slave d p =
      { d with
        bus := idle (commits slave chip [.pointer .gpbWrPt 0, .writeGp p.bytes,
          .unbanked .writeCru etxlenU (lowHigh (BitVec.ofNat 16 p.totLen)), .simple .setTxRts])
        txbusy := true } := by
  have opened (chip : S) : (spiTransfer slave (idle chip) [wgpData] false).1 = ⟨chip, some [wgpData]⟩ := by
    rw [spiTransfer_eq]
    rfl
  have twoBytes : lowHigh (BitVec.ofNat 16 p.totLen) ≠ [] := by simp [lowHigh, leBytes]
  simp only [send, if_neg (Nat.not_lt.mpr fits), rest, setPointer_idle, opened,
    sendChain_open slave _ _ _ p.nonempty, writeCru_idle slave _ _ _ twoBytes, simpleOperation_idle]
  rfl

theorem read_below (m m' : Memory) (n : Nat) (short : n ≤ ring.base)
    (same : ∀ x, ¬ ring.Mem x → m x = m' x) : ByteMemory.read m 0 n = ByteMemory.read m' 0 n := by
  apply read_congr
  intro x _ below
  apply same
  simp only [Region.Mem]
  omega

variable (C : Controller S)

/-- A packet that fits is requested as it is; the receiver does not notice. -/
theorem send_running (d : Driver S) (s : S) (p : Pbuf) (rest : d.bus = idle s)
    (r : Running keep requests (C.view s) start taken lost slack low full) (bound : full ≤ 255)
    (fits : p.totLen ≤ txBufSize) :
    ∃ s', send C.toSlave d p = { d with bus := idle s', txbusy := true } ∧
      Running keep (requests ++ [p.bytes]) (C.view s') start taken lost slack low full := by
  have short : p.bytes.length ≤ ring.base := fits
  refine ⟨_, send_idle C.toSlave d s p rest fits, ?_⟩
  simp only [commits, List.foldl_cons, List.foldl_nil]
  -- the write pointer to the start of the transmit buffer
  obtain ⟨r₁, settled₁, -⟩ := C.keeps r bound (i := .pointer .gpbWrPt 0)
    (u := { C.view s with writePointer := 0 }) rfl
    ⟨fun _ _ => rfl, rfl, rfl, rfl, rfl, id, rfl, rfl, rfl, rfl, rfl⟩
  generalize C.commit s (Instr.pointer .gpbWrPt 0).frame = s₁ at r₁ settled₁ ⊢
  -- the data, which ends before the ring begins
  have pointer : (C.view s₁).writePointer = 0 := settled₁.writePointer
  obtain ⟨r₂, settled₂, -⟩ := C.keeps r₁ bound (i := .writeGp p.bytes)
    (u := { C.view s₁ with
      memory := ByteMemory.write (C.view s₁).memory 0 p.bytes
      writePointer := p.bytes.length })
    (by
      rw [effect, pointer, if_pos (by omega)]
      simp)
    ⟨fun x inside => write_outside _ _ _ _ (by
      simp only [Region.Mem] at inside
      omega), rfl, rfl, rfl, rfl, id, rfl, rfl, rfl, rfl, rfl⟩
  generalize C.commit s₁ (Instr.writeGp p.bytes).frame = s₂ at r₂ settled₂ ⊢
  have written : ByteMemory.read (C.view s₂).memory 0 p.bytes.length = p.bytes := by
    rw [read_below _ _ _ short settled₂.buffer]
    exact read_write _ _ _
  -- the length
  obtain ⟨r₃, settled₃, -⟩ := C.keeps r₂ bound
    (i := .unbanked .writeCru etxlenU (lowHigh (BitVec.ofNat 16 p.totLen)))
    (u := { C.view s₂ with txLength := (BitVec.ofNat 16 p.totLen).toNat })
    (effect_txLength _ _) ⟨fun _ _ => rfl, rfl, rfl, rfl, rfl, id, rfl, rfl, rfl, rfl, rfl⟩
  generalize C.commit s₂ _ = s₃ at r₃ settled₃ ⊢
  have total : (C.view s₃).txLength = p.bytes.length := by
    have small : p.totLen ≤ 1024 := fits
    rw [settled₃.txLength, BitVec.toNat_ofNat, Nat.mod_eq_of_lt (by omega), Pbuf.totLen]
  have kept : ByteMemory.read (C.view s₃).memory 0 p.bytes.length = p.bytes := by
    rw [read_below _ _ _ short settled₃.buffer]
    exact written
  -- the request
  obtain ⟨unread, q⟩ := r₃.queue
  have asked : Running keep (requests ++ [p.bytes]) { C.view s₃ with
      requested := (C.view s₃).requested ++
        [ByteMemory.read (C.view s₃).memory (C.view s₃).txStart (C.view s₃).txLength] }
      start taken lost slack low full :=
    ⟨r₃.on, ⟨unread, q.position, q.arrived, q.held, q.head, q.room, q.counted, q.history⟩, r₃.decremented, r₃.counted,
      r₃.flagged, r₃.txStart, r₃.mac, by simp only [r₃.sent, r₃.txStart, total, kept]⟩
  exact asked.meanwhile bound (C.commits s₃ (.simple .setTxRts) _ rfl fun _ => asked.tail_mem)

/-- The packets that are sent; the driver drops longer ones. -/
def Fits (p : Packet) : Bool := p.length ≤ txBufSize

theorem sendAll_running (d : Driver S) (s : S) (ps : List Pbuf) (rest : d.bus = idle s)
    (r : Running keep requests (C.view s) start taken lost slack low full) (bound : full ≤ 255) :
    ∃ s' busy, sendAll C.toSlave d ps = { d with bus := idle s', txbusy := busy } ∧
      Running keep (requests ++ (ps.map Pbuf.bytes).filter Fits) (C.view s') start taken lost slack
        low full := by
  induction ps generalizing d s requests with
  | nil => exact ⟨s, d.txbusy, by rw [← rest]; rfl, by simpa using r⟩
  | cons p others ih =>
    by_cases fits : p.totLen ≤ txBufSize
    · obtain ⟨s₁, sent, r₁⟩ := send_running C d s p rest r bound fits
      obtain ⟨s', busy, sentAll, r'⟩ := ih { d with bus := idle s₁, txbusy := true } s₁ rfl r₁
      have passes : Fits p.bytes = true := decide_eq_true fits
      refine ⟨s', busy, ?_, ?_⟩
      · rw [sendAll, List.foldl_cons, sent]
        exact sentAll
      · simpa [List.filter_cons, passes] using r'
    · obtain ⟨s', busy, sentAll, r'⟩ := ih d s rest r
      have fails : Fits p.bytes = false := decide_eq_false fits
      refine ⟨s', busy, ?_, ?_⟩
      · rw [sendAll, List.foldl_cons, send, if_pos (Nat.not_le.mp fits)]
        exact sentAll
      · simpa [List.filter_cons, fails] using r'

end Sending

section Receiving

variable {S : Type u} (C : Controller S)

/-- Packet after packet, none may end where the ring does: the driver would set the
end of the buffer below its start. -/
def Clear (packets : List Packet) : Prop :=
  ∀ k, 0 < k → k ≤ packets.length → spans (packets.take k) % ring.size ≠ 0

instance : Decidable (Clear packets) :=
  decidable_of_iff (∀ k < packets.length, spans (packets.take (k + 1)) % ring.size ≠ 0)
    ⟨fun all k positive within => by
      obtain ⟨j, rfl⟩ := Nat.exists_eq_add_of_lt positive
      simpa [Nat.add_comm] using all j (by omega),
    fun all k within => all (k + 1) (by omega) (by omega)⟩

theorem getElem?_of_prefix {as bs : List Packet} {i : Nat} (grown : as <+: bs) (there : as[i]? = some p) :
    bs[i]? = some p := by
  obtain ⟨more, rfl⟩ := grown
  obtain ⟨bound, -⟩ := List.getElem?_eq_some_iff.mp there
  rw [List.getElem?_append_left bound, there]

/-- Reading on while a packet waits. -/
theorem readRx_running {s : S} (r : Running keep requests (C.view s) start taken lost slack low full) (bound : full ≤ 255)
    (waiting : (C.view s).arrived[taken.length]? = some p)
    (pointer : (C.view s).readPointer = ring.after start k) (n : Nat) (positive : 0 < n) :
    ∃ s', readFromRxBuffer C.toSlave (idle s) n =
        (idle s', ring.read (C.view s).memory (ring.after start k) n, true) ∧
      Running keep requests (C.view s') start taken lost slack low full ∧
      (C.view s').arrived[taken.length]? = some p ∧
      (C.view s').readPointer = ring.after start (k + n) := by
  have inside : ring.Mem (C.view s).readPointer := by
    rw [pointer]
    exact ring.after_mem _ _
  obtain ⟨r', settled, grown⟩ := C.keeps r bound (i := .readRx n)
    (u := { C.view s with readPointer := ring.after (C.view s).readPointer n })
    (by rw [effect, if_pos inside]) ⟨fun _ _ => rfl, rfl, rfl, rfl, rfl, id, rfl, rfl, rfl, rfl, rfl⟩
  refine ⟨C.commit s (Instr.readRx n).frame, ?_, r', ?_, ?_⟩
  · rw [readFromRxBuffer_idle _ _ _ positive, C.reads_packets s n inside, pointer]
    rfl
  · exact getElem?_of_prefix grown waiting
  · rw [settled.readPointer, pointer, ring.after_after]

/-- The chain takes what is left of the packet. -/
theorem readChain_running {s : S} (lengths : List Nat) (k : Nat)
    (r : Running keep requests (C.view s) start taken lost slack low full) (bound : full ≤ 255)
    (waiting : (C.view s).arrived[taken.length]? = some p)
    (pointer : (C.view s).readPointer = ring.after start (8 + k)) (fits : k + lengths.sum ≤ p.length) :
    ∃ s' payloads, readChain C.toSlave (idle s) lengths = (idle s', payloads) ∧
      payloads.flatten = (p.drop k).take lengths.sum ∧
      Running keep requests (C.view s') start taken lost slack low full ∧
      (C.view s').arrived[taken.length]? = some p := by
  induction lengths generalizing s k with
  | nil => exact ⟨s, [], rfl, by simp, r, waiting⟩
  | cons n rest ih =>
    rw [List.sum_cons] at fits
    by_cases empty : n = 0
    · subst empty
      obtain ⟨s', payloads, read, content, r', waiting'⟩ := ih k r waiting pointer (by omega)
      refine ⟨s', [] :: payloads, ?_, by simpa using content, r', waiting'⟩
      simp [readChain, readFromRxBuffer, read]
    · obtain ⟨s₁, read₁, r₁, waiting₁, pointer₁⟩ := readRx_running C r bound waiting pointer n (by omega)
      obtain ⟨s', payloads, read, content, r', waiting'⟩ := ih (k + n) r₁ waiting₁
        (by rw [pointer₁, Nat.add_assoc]) (by omega)
      obtain ⟨others, q⟩ := r.first waiting
      obtain ⟨-, -, whole, -⟩ := q.held
      have part := ring.read_part whole k n (by omega)
      rw [ring.after_after] at part
      refine ⟨s', _, by simp only [readChain, read₁, read]; rfl, ?_, r', waiting'⟩
      rw [List.flatten_cons, content, part, List.sum_cons, List.take_add, List.drop_drop]

theorem sum_poolTail (remaining : Nat) : (poolTail remaining).sum = remaining := by
  induction remaining using Nat.strong_induction_on with
  | _ remaining ih =>
    rw [poolTail]
    split
    · simp_all
    · have less : remaining - min remaining poolBufSize < remaining := by
        simp only [poolBufSize]
        omega
      rw [List.sum_cons, ih _ less]
      omega

theorem sum_pbufAlloc (length : Nat) (lengths : List Nat) (allocated : pbufAlloc pool length = some lengths) :
    lengths.sum = length := by
  rw [pbufAlloc] at allocated
  split at allocated
  · cases allocated
    rw [List.sum_cons, sum_poolTail]
    omega
  · cases allocated

theorem prefix_clear {wire packets : List Packet} (clear : Clear wire) (early : packets <+: wire) :
    Clear packets := by
  obtain ⟨more, rfl⟩ := early
  intro k positive within
  have whole := clear k positive (by simp; omega)
  rwa [List.take_append_of_le_length within] at whole

/-- The end of the buffer two bytes before the next packet, or four where that wraps. -/
theorem rbufTail_behind (start : Nat) (inside : ring.Mem start) (even : start % 2 = 0)
    (notFirst : start ≠ ring.base) :
    ∃ t, (rbufTail (BitVec.ofNat 16 start)).toNat = ring.after start t ∧
      ring.size - 4 ≤ t ∧ t + 2 ≤ ring.size := by
  simp only [Region.Mem, ring] at inside notFirst
  have value : (BitVec.ofNat 16 start - 2).toNat = start - 2 := by
    rw [BitVec.toNat_sub]
    simp
    omega
  by_cases second : start = 0x402
  · exact ⟨ring.size - 4, by subst second; decide, by omega, by simp only [ring]; omega⟩
  · refine ⟨ring.size - 2, ?_, by omega, by simp only [ring]; omega⟩
    have other : BitVec.ofNat 16 start - 2 ≠ 0x400 := by
      intro same
      have number := congrArg BitVec.toNat same
      rw [value] at number
      simp at number
      omega
    rw [rbufTail, if_neg other, value,
      ring.after_wrapped (by simp only [Region.Mem, ring]; omega) (by simp only [ring]; omega)
        (by simp only [ring]; omega)]
    simp only [ring]
    omega

/-- The first waiting packet is given up: the next one becomes the first, and the tail
moves up behind it. -/
theorem running_advance (r : Running keep requests v start taken lost 0 low full)
    (waiting : v.arrived[taken.length]? = some p) (clear : Clear v.arrived) :
    Running keep requests { v with tail := (rbufTail (BitVec.ofNat 16 (ring.after start (span p)))).toNat }
      (ring.after start (span p)) (taken ++ [p]) lost 1 low full := by
  obtain ⟨rest, q⟩ := r.first waiting
  have position : ring.after start (span p) = ring.after ring.base (spans (taken ++ [p])) := by
    rw [q.position, ring.after_after, spans_append, spans_cons, spans_nil, Nat.add_zero]
  have notFirst : ring.after start (span p) ≠ ring.base := by
    have apart := clear (taken.length + 1) (by omega) (by simp [q.arrived])
    have through : v.arrived.take (taken.length + 1) = taken ++ [p] := by
      simp [q.arrived, List.take_append]
    rw [through] at apart
    rw [position]
    simp only [Region.after, Nat.sub_self, Nat.zero_add]
    omega
  have even : ring.after start (span p) % 2 = 0 := by
    have evenSpans := spans_even (taken ++ [p])
    rw [position]
    simp only [Region.after, Nat.sub_self, Nat.zero_add, ring]
    omega
  obtain ⟨t, tail, far, lap⟩ := rbufTail_behind _ (ring.after_mem start (span p)) even notFirst
  obtain ⟨t₀, -, behind, lap₀⟩ := q.room
  have long := le_span p
  rw [spans_cons] at behind
  refine ⟨r.on, ⟨rest, position, ?_, ?_, ?_, ⟨t, tail, ?_, lap⟩, ?_, q.history⟩, ?_, r.counted, r.flagged,
    r.txStart, r.mac, r.sent⟩
  · simp [q.arrived]
  · exact q.held.2.2.2
  · rw [q.head, spans_cons, ring.after_after]
  · omega
  · have counted := q.counted
    simp only [List.length_cons] at counted
    omega
  · have decremented := r.decremented
    simp only [List.length_append, List.length_singleton]
    omega

/-- What is put into the stack for a packet: all of it if the pool had buffers for it,
else the null pointer. -/
def delivered (pool : Bool) (p : Packet) : Option Packet := if pool then some p else none

/-- What `set_MAC` leaves in the low byte of the register. -/
def macLow (ethernetStatus low : Byte) : Byte :=
  if ethernetStatus &&& 0x04 ≠ 0 then low ||| 0x01 else low &&& notFuldpx

/-- What is left there after one look at the link after another. -/
def macAfter (low : Byte) (statuses : List Byte) : Byte :=
  statuses.foldl (fun low status => if status &&& 0x01 ≠ 0 then macLow status low else low) low

/-- What was there before: the low byte of the MAC's register, what had been requested,
and the statuses read so far. -/
structure Setting where
  mac : Byte
  before : List Packet
  read : List Byte

/-- The packets taken are those put into the stack, one by one. -/
def Logged (e : Setting) (d : Driver S) (taken : List Packet) : Prop :=
  d.offered.length = taken.length ∧ d.input = List.zipWith delivered d.offered taken ∧
    e.read <+: d.statuses

/-- The driver at rest: what it has put into the stack are the first packets to have
arrived, and its pointer is at the next; what it was given to send has been requested,
and the MAC is as the link was found. -/
def Sound (e : Setting) (d : Driver S) (low full : Nat) : Prop :=
  ∃ s taken, d.bus = idle s ∧
    Running (· = macAfter e.mac d.statuses) (e.before ++ d.output.filter Fits) (C.view s)
      d.nextPacketPointer.toNat taken d.full 0 low full ∧
    Logged e d taken

variable {C} {e : Setting}

theorem Sound.weaken {d : Driver S} (sound : Sound C e d low full) (fewer : low' ≤ low)
    (lower : full' ≤ full) : Sound C e d low' full' := by
  obtain ⟨s, taken, rest, r, log⟩ := sound
  exact ⟨s, taken, rest, r.weaken fewer lower, log⟩

theorem Sound.sendAll {d : Driver S} (sound : Sound C e d low full) (bound : full ≤ 255)
    (ps : List Pbuf) : Sound C e (sendAll C.toSlave (d.given ps) ps) low full := by
  obtain ⟨s, taken, rest, r, log⟩ := sound
  obtain ⟨s', busy, sent, r'⟩ := sendAll_running C (d.given ps) s ps rest r bound
  rw [sent]
  refine ⟨s', taken, rfl, ?_, log⟩
  simpa [Driver.given, List.filter_append] using r'

/-- From the header of the waiting packet on: its data goes to the stack, its place to
the controller. -/
theorem recv_sound (stack : Stack) (pool : Bool) (d : Driver S) (s : S) (rest : d.bus = idle s)
    (r : Running (· = macAfter e.mac d.statuses) (e.before ++ d.output.filter Fits) (C.view s) start taken
      d.full 0 (low + 1) full)
    (bound : full ≤ 255) (waiting : (C.view s).arrived[taken.length]? = some p)
    (pointer : (C.view s).readPointer = ring.after start 8) (clear : Clear C.wire)
    (next : d.nextPacketPointer = BitVec.ofNat 16 (ring.after start (span p)))
    (log : Logged e d taken) :
    Sound C e (recv C.toSlave stack pool { d with offered := d.offered ++ [pool] } p.length) low
      (full - 1) := by
  -- the data
  have fits : ((pbufAlloc pool p.length).getD []).sum ≤ p.length := by
    cases allocated : pbufAlloc pool p.length with
    | none => simp
    | some lengths => exact (sum_pbufAlloc _ _ allocated).le
  obtain ⟨s₁, payloads, read, content, r₁, waiting₁⟩ := readChain_running C
    ((pbufAlloc pool p.length).getD []) 0 r bound waiting pointer (by omega)
  have put : ((pbufAlloc pool p.length).map fun _ => payloads.flatten) = delivered pool p := by
    cases pool with
    | false => rfl
    | true =>
      have whole := sum_pbufAlloc p.length _ (rfl : pbufAlloc true p.length = _)
      simp only [pbufAlloc, if_true, Option.getD_some] at content whole
      simp [pbufAlloc, delivered, content, whole]
  -- the new tail
  have advanced := running_advance r₁ waiting₁ (prefix_clear clear (C.on_wire s₁))
  rw [← next] at advanced
  have r₂ := advanced.meanwhile bound (C.commits s₁
    (.unbanked .writeCru erxtailU (lowHigh (rbufTail d.nextPacketPointer))) _
    (effect_tail _ _) fun _ => advanced.tail_mem)
  generalize at₂ : C.commit s₁ _ = s₂ at r₂
  -- the counter
  obtain ⟨effect₃, fewer⟩ := r₂.decrement
  have r₃ := fewer.meanwhile (by omega) (C.commits s₂ _ _ effect₃ fun _ => fewer.tail_mem)
  have small : (ring.after start (span p)) < 2 ^ 16 := by
    have inside := ring.after_mem start (span p)
    simp only [Region.Mem, ring] at inside ⊢
    omega
  have same : d.nextPacketPointer.toNat = ring.after start (span p) := by
    rw [next, BitVec.toNat_ofNat, Nat.mod_eq_of_lt small]
  have twoBytes : lowHigh (rbufTail d.nextPacketPointer) ≠ [] := by simp [lowHigh, leBytes]
  simp only [recv, rest, read, writeCru_idle C.toSlave _ _ _ twoBytes, at₂, simpleOperation_idle]
  refine Sound.sendAll ⟨_, taken ++ [p], rfl, ?_, ?_⟩ (by omega) _
  · rw [same]
    exact r₃
  · obtain ⟨size, input, read⟩ := log
    refine ⟨by simp [size], ?_, read⟩
    rw [List.zipWith_append size, ← input, put]
    rfl

/-- The header of the waiting packet, with the read pointer left at its data. -/
theorem header_running {s : S} (r : Running keep requests (C.view s) start taken lost slack low full) (bound : full ≤ 255)
    (waiting : (C.view s).arrived[taken.length]? = some p)
    (pointer : (C.view s).readPointer = start) :
    ∃ s₁ s₂ s₃ status,
      readFromRxBuffer C.toSlave (idle s) 2 = (idle s₁, leBytes 2 (ring.after start (span p)), true) ∧
      readFromRxBuffer C.toSlave (idle s₁) 2 = (idle s₂, leBytes 2 p.length, true) ∧
      readFromRxBuffer C.toSlave (idle s₂) 4 = (idle s₃, status, true) ∧
      Running keep requests (C.view s₃) start taken lost slack low full ∧
      (C.view s₃).arrived[taken.length]? = some p ∧
      (C.view s₃).readPointer = ring.after start 8 ∧ p.length ≤ ring.size := by
  obtain ⟨others, q⟩ := r.first waiting
  have first := ring.after_zero q.start_mem
  obtain ⟨s₁, read₁, r₁, waiting₁, pointer₁⟩ := readRx_running C r bound waiting
    (pointer.trans first.symm) 2 (by decide)
  obtain ⟨s₂, read₂, r₂, waiting₂, pointer₂⟩ := readRx_running C r₁ bound waiting₁ pointer₁ 2 (by decide)
  obtain ⟨s₃, read₃, r₃, waiting₃, pointer₃⟩ := readRx_running C r₂ bound waiting₂ pointer₂ 4 (by decide)
  obtain ⟨others₁, q₁⟩ := r₁.first waiting₁
  have long := le_span p
  obtain ⟨t, -, behind, lap⟩ := q.room
  rw [spans_cons] at behind
  rw [first, q.held.1] at read₁
  rw [q₁.held.2.1] at read₂
  exact ⟨s₁, s₂, s₃, _, read₁, read₂, read₃, r₃, waiting₃, pointer₃, by omega⟩

theorem Sound.rxEvent {d : Driver S} (sound : Sound C e d low full) (bound : full ≤ 255)
    (clear : Clear C.wire) (stack : Stack) (pool : Bool) :
    Sound C e (rxEvent C.toSlave stack pool d) (low - 1) (full - 1) := by
  obtain ⟨s, taken, rest, r, log⟩ := sound
  have read := readCr_idle C.toSlave s estatl 1 (by decide) (by decide)
  rw [C.reads_count s] at read
  by_cases none : (C.view s).count = 0
  · have r' := (C.looks r bound (i := .banked .readCr (Fin.ofNat 32 estatl.toNat) (zeros 1)) rfl).1
    simp only [EthDriver.rxEvent, rest, read, List.getD_cons_zero, none, if_true]
    exact Sound.weaken ⟨_, taken, rfl, r', log⟩ (by omega) (by omega)
  · obtain ⟨p, waiting⟩ := r.waiting none
    have counted : Running (· = macAfter e.mac d.statuses) (e.before ++ d.output.filter Fits) (C.view s)
        d.nextPacketPointer.toNat taken d.full 0 (low - 1 + 1) full := by
      have positive : (C.view s).count.toNat ≠ 0 := fun zero => none (BitVec.eq_of_toNat_eq zero)
      have enough := r.counted
      exact ⟨r.on, r.queue, r.decremented, by omega, r.flagged, r.txStart, r.mac, r.sent⟩
    obtain ⟨r₁, grown₁⟩ := C.looks counted bound
      (i := .banked .readCr (Fin.ofNat 32 estatl.toNat) (zeros 1)) rfl
    have waiting₁ := getElem?_of_prefix grown₁ waiting
    generalize C.commit s _ = s₁ at read r₁ waiting₁
    obtain ⟨r₂, settled₂, grown₂⟩ := C.keeps r₁ bound (i := .pointer .rxRdPt d.nextPacketPointer)
      (u := { C.view s₁ with readPointer := d.nextPacketPointer.toNat }) rfl
      ⟨fun _ _ => rfl, rfl, rfl, rfl, rfl, id, rfl, rfl, rfl, rfl, rfl⟩
    have waiting₂ := getElem?_of_prefix grown₂ waiting₁
    have pointed : setPointer C.toSlave (idle s₁) .rxRdPt d.nextPacketPointer =
        idle (C.commit s₁ (Instr.pointer .rxRdPt d.nextPacketPointer).frame) := setPointer_idle _ _ _ _
    obtain ⟨s₃, s₄, s₅, status, read₃, read₄, read₅, r₅, waiting₅, pointer₅, short⟩ :=
      header_running r₂ bound waiting₂ settled₂.readPointer
    have length : ofLe (leBytes 2 p.length) = p.length := by
      rw [ofLe_leBytes, Nat.mod_eq_of_lt]
      simp only [ring] at short
      omega
    have next (n : Nat) : BitVec.ofNat 16 (ofLe (leBytes 2 n)) = BitVec.ofNat 16 n := by
      apply BitVec.eq_of_toNat_eq
      rw [ofLe_leBytes, BitVec.toNat_ofNat, BitVec.toNat_ofNat]
      omega
    simp only [EthDriver.rxEvent, rest, read, List.getD_cons_zero, none, if_false, pointed, read₃, read₄,
      read₅, length, next]
    exact recv_sound stack pool { d with bus := idle s₅, nextPacketPointer := BitVec.ofNat 16 _ } s₅ rfl r₅
      bound waiting₅ pointer₅ clear rfl log

end Receiving

section Polling

variable {S : Type u} {C : Controller S} {e : Setting}

theorem still_masked (x y mask : Byte) (set : (x &&& ~~~y) &&& mask ≠ 0) : x &&& mask ≠ 0 := by
  intro clear
  apply set
  rw [BitVec.and_assoc, BitVec.and_comm (~~~y), ← BitVec.and_assoc, clear]
  exact BitVec.zero_and

theorem cleared_masked (x y mask : Byte) (covers : ~~~y &&& mask = 0) : (x &&& ~~~y) &&& mask = 0 := by
  rw [BitVec.and_assoc, covers]
  exact BitVec.and_zero

theorem Sound.clearFlag {d : Driver S} (sound : Sound C e d low full) (bound : full ≤ 255) (flag : Byte) :
    Sound C e (clearFlag C.toSlave flag d) low full := by
  obtain ⟨s, taken, rest, r, log⟩ := sound
  obtain ⟨r', -, -⟩ := C.keeps r bound
    (i := .banked .bitFieldClear (Fin.ofNat 32 eirl.toNat) [flag]) (u := _) rfl
    ⟨fun _ _ => rfl, rfl, rfl, rfl, rfl, still_masked _ _ _, rfl, rfl, rfl, rfl, rfl⟩
  rw [EthDriver.clearFlag, rest, bitFieldClear_idle C.toSlave s eirl _ (by decide) (by simp)]
  exact ⟨_, taken, rfl, r', log⟩

/-- The counter goes down without a packet; its flag is down for good. -/
theorem Sound.pcfulEvent {d : Driver S} (sound : Sound C e d (low + 1) full) (bound : full ≤ 255) :
    Sound C e (pcfulEvent C.toSlave { d with full := d.full + 1 }) low 255 := by
  obtain ⟨s, taken, rest, r, log⟩ := sound
  obtain ⟨effect₁, fewer⟩ := r.decrement
  have r₁ := fewer.meanwhile (by omega) (C.commits s _ _ effect₁ fun _ => fewer.tail_mem)
  generalize at₁ : C.commit s _ = s₁ at r₁
  have cleared := r₁.undisturbed (u := { C.view s₁ with
    flags := (C.view s₁).flags &&& ~~~pcfulIf
    link := (C.view s₁).link &&& ~~~0 })
    ⟨fun _ _ => rfl, rfl, rfl, rfl, rfl, still_masked _ _ _, rfl, rfl, rfl, rfl, rfl⟩
  have down := cleared_masked (C.view s₁).flags pcfulIf pcfulIf (by decide)
  have unflagged : Running (· = macAfter e.mac d.statuses) (e.before ++ d.output.filter Fits) _
      d.nextPacketPointer.toNat taken (d.full + 1) 0 low 255 :=
    ⟨cleared.on, cleared.queue, cleared.decremented, cleared.counted, fun flagged => absurd down flagged,
      cleared.txStart, cleared.mac, cleared.sent⟩
  have r₂ := unflagged.meanwhile le_rfl (C.commits s₁
    (.banked .bitFieldClear (Fin.ofNat 32 eirl.toNat) [pcfulIf]) _ rfl fun _ => unflagged.tail_mem)
  simp only [EthDriver.pcfulEvent, EthDriver.clearFlag, rest, simpleOperation_idle]
  have same : C.commit s [SimpleOp.setPktDec.code] = s₁ := at₁
  rw [same, bitFieldClear_idle C.toSlave s₁ eirl _ (by decide) (by simp)]
  exact ⟨_, taken, rfl, r₂, log⟩

theorem setMac_running {s : S} (r : Running keep requests (C.view s) start taken lost slack low full)
    (bound : full ≤ 255) (keep' : Byte → Prop) (ethernetStatus : Byte)
    (after : keep' (macLow ethernetStatus (C.view s).macon2.1)) :
    ∃ s', setMac C.toSlave (idle s) ethernetStatus = idle s' ∧
      Running keep' requests (C.view s') start taken lost slack low full := by
  have r₁ := (C.looks r bound (i := .unbanked .readCru macon2U (zeros 2)) rfl).1
  have read := readCru_idle C.toSlave s macon2U 2 (by decide)
  rw [C.reads_macon2 s] at read
  generalize C.commit s _ = s₁ at read r₁
  obtain ⟨unread, q₁⟩ := r₁.queue
  have set : Running keep' requests { C.view s₁ with
      macon2 := (macLow ethernetStatus (C.view s).macon2.1, (C.view s).macon2.2) }
      start taken lost slack low full :=
    ⟨r₁.on, ⟨unread, q₁.position, q₁.arrived, q₁.held, q₁.head, q₁.room, q₁.counted, q₁.history⟩,
      r₁.decremented, r₁.counted, r₁.flagged, r₁.txStart, after, r₁.sent⟩
  have r₂ := set.meanwhile bound (C.commits s₁
    (.unbanked .writeCru macon2U [macLow ethernetStatus (C.view s).macon2.1, (C.view s).macon2.2]) _ rfl
    fun _ => set.tail_mem)
  have wrote := writeCru_idle C.toSlave s₁ macon2U
    [macLow ethernetStatus (C.view s).macon2.1, (C.view s).macon2.2] (by simp)
  generalize C.commit s₁ _ = s₂ at wrote r₂
  have r₃ := (C.looks r₂ bound
    (i := .unbanked .writeCru mabbipgU [if ethernetStatus &&& 0x04 ≠ 0 then 0x15 else 0x12, 0]) rfl).1
  refine ⟨_, ?_, r₃⟩
  rw [macLow] at wrote
  simp only [setMac, read, List.getD_cons_zero, List.getD_cons_succ, wrote,
    writeCru_idle C.toSlave s₂ mabbipgU _ (List.cons_ne_nil _ _)]

theorem macAfter_append (low : Byte) (statuses : List Byte) (status : Byte) :
    macAfter low (statuses ++ [status]) =
      if status &&& 0x01 ≠ 0 then macLow status (macAfter low statuses) else macAfter low statuses := by
  rw [macAfter, List.foldl_append]
  rfl

theorem Sound.linkEvent {d : Driver S} (sound : Sound C e d low full) (bound : full ≤ 255) (stack : Stack) :
    Sound C e (linkEvent C.toSlave stack (d.observed C.toSlave)) low full := by
  obtain ⟨s, taken, rest, r, size, input, before⟩ := sound
  have log : Logged e (d.observed C.toSlave) taken := ⟨size, input, before.trans (List.prefix_append _ _)⟩
  have read := readCr_idle C.toSlave s estatl 2 (by decide) (by decide)
  have r₁ := (C.looks r bound (i := .banked .readCr (Fin.ofNat 32 estatl.toNat) (zeros 2)) rfl).1
  generalize C.commit s _ = s₁ at read r₁
  have cleared (d' : Driver S) (sound : Sound C e d' low full) :
      Sound C e { d' with bus := (bankedRegisterOperation C.toSlave d'.bus .bitFieldClear eirh [linkIf]).1 }
        low full := by
    obtain ⟨s, taken, rest, r, log⟩ := sound
    obtain ⟨r', -, -⟩ := C.keeps r bound
      (i := .banked .bitFieldClear (Fin.ofNat 32 eirh.toNat) [linkIf]) (u := _) rfl
      ⟨fun _ _ => rfl, rfl, rfl, rfl, rfl, id, rfl, rfl, rfl, rfl, rfl⟩
    rw [rest, bitFieldClear_idle C.toSlave s eirh _ (by decide) (by simp)]
    exact ⟨_, taken, rfl, r', log⟩
  have found : (d.observed C.toSlave).statuses = d.statuses ++ [estath C.toSlave s] := by
    rw [Driver.observed, rest]
    rfl
  have atRest : (d.observed C.toSlave).bus = idle s := rest
  simp only [EthDriver.linkEvent, atRest, read]
  apply cleared
  by_cases up : estath C.toSlave s &&& 0x01 ≠ 0
  · have set : macLow (estath C.toSlave s) (C.view s₁).macon2.1 =
        macAfter e.mac (d.observed C.toSlave).statuses := by
      rw [found, macAfter_append, if_pos up, r₁.mac]
    obtain ⟨s₂, written, r₂⟩ := setMac_running r₁ bound
      (· = macAfter e.mac (d.observed C.toSlave).statuses) (estath C.toSlave s) set
    rw [estath] at up written
    rw [if_pos up, written]
    split
    · exact ⟨s₂, taken, rfl, r₂, log⟩
    · apply Sound.sendAll _ bound
      exact ⟨s₂, taken, rfl, r₂, log⟩
  · have same : macAfter e.mac (d.observed C.toSlave).statuses = macAfter e.mac d.statuses := by
      rw [found, macAfter_append, if_neg up]
    rw [estath] at up
    rw [if_neg up]
    rw [← same] at r₁
    exact ⟨s₁, taken, rfl, r₁, log⟩

/-- The counter flag as it is read is the one that is set. -/
theorem pending_pcful (v : View) : v.pending &&& pcfulIf = v.flags &&& pcfulIf := by
  have apart : ~~~pktIf &&& pcfulIf = pcfulIf ∧ pktIf &&& pcfulIf = 0 := by decide
  rw [View.pending, BitVec.and_or_distrib_right, BitVec.and_assoc, apart.1]
  split
  · simp
  · rw [apart.2]
    simp

theorem Sound.ite {d d' : Driver S} {c : Prop} [Decidable c] (sound : Sound C e d low full)
    (next : Sound C e d' low full) : Sound C e (if c then d' else d) low full := by
  split <;> assumption

/-- The events of a pass before the one of the counter, of which one may take a packet. -/
theorem Sound.events {d : Driver S} (sound : Sound C e d low full) (bound : full ≤ 255)
    (clear : Clear C.wire) (stack : Stack) (pool : Bool) (pkt link tx txAbt : Prop) [Decidable pkt]
    [Decidable link] [Decidable tx] [Decidable txAbt] :
    Sound C e
      (let d := if pkt then EthDriver.rxEvent C.toSlave stack pool d else d
      let d := if link then EthDriver.linkEvent C.toSlave stack (d.observed C.toSlave) else d
      let d := if tx then txEvent C.toSlave d else d
      if txAbt then txAbtEvent C.toSlave d else d) (low - 1) (full - 1) := by
  have idleTx (d : Driver S) (low full : Nat) (sound : Sound C e d low full) :
      Sound C e { d with txbusy := false } low full := sound
  have small : full - 1 ≤ 255 := by omega
  have taken := (sound.weaken (Nat.sub_le low 1) (Nat.sub_le full 1)).ite (c := pkt)
    (sound.rxEvent bound clear stack pool)
  have linked := taken.ite (c := link) (taken.linkEvent small stack)
  have done := linked.ite (c := tx) ((idleTx _ _ _ linked).clearFlag small txIf)
  exact done.ite ((idleTx _ _ _ done).clearFlag small txAbtIf)

/-- What the driver can rely on from one pass to the next: where the counter has been
full, at most one packet has been taken since. -/
def Steady (C : Controller S) (e : Setting) (d : Driver S) : Prop := Sound C e d 0 254

theorem Steady.pass {d : Driver S} (steady : Steady C e d) (clear : Clear C.wire) (stack : Stack)
    (pool : Bool) : Steady C e (pass C.toSlave stack pool d).1 := by
  obtain ⟨s, taken, rest, r, log⟩ := steady
  have read := readCr_idle C.toSlave s eirl 2 (by decide) (by decide)
  rw [C.reads_flags s] at read
  have after (low full : Nat) (bound : full ≤ 255)
      (r : Running (· = macAfter e.mac d.statuses) (e.before ++ d.output.filter Fits) (C.view s)
        d.nextPacketPointer.toNat taken d.full 0 low full) :
      Sound C e { d with bus := idle (C.commit s
        (Instr.banked .readCr (Fin.ofNat 32 eirl.toNat) (zeros 2)).frame) } low full := by
    have r' := (C.looks r bound (i := .banked .readCr (Fin.ofNat 32 eirl.toNat) (zeros 2)) rfl).1
    exact ⟨_, taken, rfl, r', log⟩
  have tested : (C.view s).pending &&& (pktIf ||| txIf ||| txAbtIf ||| rxAbtIf ||| pcfulIf) &&& pcfulIf =
      (C.view s).flags &&& pcfulIf := by
    have within : (pktIf ||| txIf ||| txAbtIf ||| rxAbtIf ||| pcfulIf) &&& pcfulIf = pcfulIf := by decide
    rw [BitVec.and_assoc, within, pending_pcful]
  simp only [EthDriver.pass, rest, read, List.getD_cons_zero, List.getD_cons_succ]
  rw [tested]
  generalize (C.view s).pending &&& _ = lowFlags
  generalize (C.view s).link &&& linkIf = highFlags
  by_cases flagged : (C.view s).flags &&& pcfulIf = 0
  · have unflagged := after 0 255 le_rfl
      ⟨r.on, r.queue, r.decremented, Nat.zero_le _, fun set => absurd flagged set, r.txStart, r.mac, r.sent⟩
    rw [if_neg (not_not_intro flagged)]
    have handled := unflagged.events le_rfl clear stack pool (lowFlags &&& pktIf ≠ 0)
      (highFlags &&& linkIf ≠ 0) (lowFlags &&& txIf ≠ 0) (lowFlags &&& txAbtIf ≠ 0)
    exact handled.ite (handled.clearFlag (by decide) rxAbtIf)
  · have counted := after 254 254 (by decide)
      ⟨r.on, r.queue, r.decremented, r.flagged flagged, r.flagged, r.txStart, r.mac, r.sent⟩
    rw [if_pos flagged]
    have handled := counted.events (by decide) clear stack pool (lowFlags &&& pktIf ≠ 0)
      (highFlags &&& linkIf ≠ 0) (lowFlags &&& txIf ≠ 0) (lowFlags &&& txAbtIf ≠ 0)
    have lowered := handled.pcfulEvent (by decide)
    exact (lowered.ite (lowered.clearFlag le_rfl rxAbtIf)).weaken (by decide) (by decide)

theorem Steady.pollLoop {d : Driver S} (steady : Steady C e d) (clear : Clear C.wire) (stack : Stack)
    (pools : List Bool) : Steady C e (pollLoop C.toSlave stack pools d).1 := by
  induction pools generalizing d with
  | nil => exact steady
  | cons pool rest ih =>
    have passed := steady.pass clear stack pool
    simp only [EthDriver.pollLoop]
    split
    · exact passed
    · exact ih passed

theorem Steady.interrupts {d : Driver S} (steady : Steady C e d) (op : SimpleOp)
    (harmless : op = .clrEie ∨ op = .setEie) :
    Steady C e { d with bus := simpleOperation C.toSlave d.bus op } := by
  obtain ⟨s, taken, rest, r, log⟩ := steady
  have unchanged : effect (C.view s) (.simple op) = some (C.view s) := by
    rcases harmless with rfl | rfl <;> rfl
  have r' := (C.looks r (by decide) unchanged).1
  rw [rest, simpleOperation_idle]
  exact ⟨_, taken, rfl, r', log⟩

theorem Steady.hwPoll {d : Driver S} (steady : Steady C e d) (clear : Clear C.wire) (stack : Stack)
    (pools : List Bool) : Steady C e (hwPoll C.toSlave stack pools d).1 := by
  have looped := (steady.interrupts .clrEie (.inl rfl)).pollLoop clear stack pools
  simp only [EthDriver.hwPoll]
  split
  · exact looped.interrupts .setEie (.inr rfl)
  · exact looped

theorem iflags_zero {low high : Byte} (none : low.setWidth 16 + 256 * high.setWidth 16 = (0 : BitVec 16)) :
    low = 0 ∧ high = 0 := by
  have sum := congrArg BitVec.toNat none
  have lowBound := low.isLt
  have highBound := high.isLt
  have wide : (256 : BitVec 16).toNat = 256 ∧ (0 : BitVec 16).toNat = 0 ∧ (0 : Byte).toNat = 0 := by decide
  simp only [BitVec.toNat_add, BitVec.toNat_mul, BitVec.toNat_setWidth, wide] at sum
  constructor
  · apply BitVec.eq_of_toNat_eq
    omega
  · apply BitVec.eq_of_toNat_eq
    omega

/-- Without its flag the counter is down. -/
theorem count_of_pending {v : View}
    (none : v.pending &&& (pktIf ||| txIf ||| txAbtIf ||| rxAbtIf ||| pcfulIf) = 0) : v.count = 0 := by
  by_contra counted
  have within : (pktIf ||| txIf ||| txAbtIf ||| rxAbtIf ||| pcfulIf) &&& pktIf = pktIf := by decide
  have apart : ~~~pktIf &&& pktIf = 0 := by decide
  have unset : v.pending &&& pktIf = 0 := by
    rw [← within, ← BitVec.and_assoc, none]
    exact BitVec.zero_and
  rw [View.pending, if_neg counted, BitVec.and_or_distrib_right, BitVec.and_assoc, apart] at unset
  simp [pktIf] at unset

/-- No flag found: nothing is counted, and nothing is done. -/
theorem pass_quiet {d : Driver S} {s : S} (rest : d.bus = idle s) (stack : Stack) (pool : Bool)
    (quiet : (EthDriver.pass C.toSlave stack pool d).2 = 0) :
    (C.view s).count = 0 ∧ (EthDriver.pass C.toSlave stack pool d).1 = { d with bus := idle (C.commit s
      (Instr.banked .readCr (Fin.ofNat 32 eirl.toNat) (zeros 2)).frame) } := by
  have read := readCr_idle C.toSlave s eirl 2 (by decide) (by decide)
  rw [C.reads_flags s] at read
  simp only [EthDriver.pass, rest, read, List.getD_cons_zero, List.getD_cons_succ] at quiet ⊢
  obtain ⟨low, high⟩ := iflags_zero quiet
  refine ⟨count_of_pending low, ?_⟩
  simp [low, high]

/-- When the loop ends, the packets that had arrived at its last look have been taken,
but for one for each time the counter was full. -/
theorem Steady.returned {d : Driver S} (steady : Steady C e d) (clear : Clear C.wire) (stack : Stack)
    (pools : List Bool) {d' : Driver S} (done : EthDriver.pollLoop C.toSlave stack pools d = (d', true)) :
    ∃ (look : S) (taken left : List Packet), d'.bus = idle (C.commit look
        (Instr.banked .readCr (Fin.ofNat 32 eirl.toNat) (zeros 2)).frame) ∧
      (C.view look).arrived = taken ++ left ∧ Logged e d' taken ∧ left.length = d'.full := by
  induction pools generalizing d with
  | nil => cases done
  | cons pool rest ih =>
    have passed := steady.pass clear stack pool
    simp only [EthDriver.pollLoop] at done
    split at done
    · next quiet =>
      obtain ⟨s, taken, atRest, r, log⟩ := steady
      obtain ⟨none, same⟩ := pass_quiet atRest stack pool quiet
      obtain ⟨unread, q⟩ := r.queue
      have history := q.history
      have decremented := r.decremented
      have zero : (0 : Byte).toNat = 0 := rfl
      rw [none, zero, q.arrived, List.length_append] at history
      rw [same] at done
      cases done
      exact ⟨s, taken, unread, rfl, q.arrived, log, by simp only; omega⟩
    · exact ih passed done

end Polling

section Starting

variable {S : Type u} (C : Controller S)

theorem dropPackets_off (s : S) (n : Nat) (off : (C.view s).enabled = false)
    (counted : (C.view s).count.toNat = n) :
    ∃ s', dropPackets C.toSlave (idle s) n = idle s' ∧ (C.view s').enabled = false ∧
      (C.view s').count = 0 ∧ (C.view s').macon2 = (C.view s).macon2 ∧
      (C.view s').requested = (C.view s).requested := by
  induction n generalizing s with
  | zero => exact ⟨s, rfl, off, BitVec.eq_of_toNat_eq counted, rfl, rfl⟩
  | succ n ih =>
    have nonzero : (C.view s).count ≠ 0 := by
      intro zero
      simp [zero] at counted
    have fewer : ((C.view s).count - 1).toNat = n := by
      have bound := (C.view s).count.isLt
      rw [BitVec.toNat_sub]
      simp
      omega
    have stepped := C.off (s := s) (i := .simple .setPktDec) (u := { C.view s with
      count := (C.view s).count - 1
      decrements := (C.view s).decrements + 1 }) (by rw [effect, if_neg nonzero]) off
    rw [dropPackets, simple_idle]
    obtain ⟨s', dropped, off', none, same, asked⟩ := ih _ (stepped.enabled.trans off)
      (by rw [stepped.count]; exact fewer)
    exact ⟨s', dropped, off', none, same.trans stepped.macon2, asked.trans stepped.requested⟩

theorem stopReceiver_off (s : S) :
    ∃ s', stopReceiver C.toSlave (idle s) = idle s' ∧ (C.view s').enabled = false ∧
      (C.view s').count = 0 ∧ (C.view s').macon2 = (C.view s).macon2 ∧
      (C.view s').requested = (C.view s).requested := by
  have off₁ := C.off (s := s) (i := .simple .disableRx) (u := { C.view s with enabled := false }) rfl rfl
  generalize at₁ : C.commit s _ = s₁ at off₁
  have off₂ := C.off (s := s₁) (i := .simple .clrEie) (u := C.view s₁) rfl off₁.enabled
  generalize at₂ : C.commit s₁ _ = s₂ at off₂
  have still₂ := off₂.enabled.trans off₁.enabled
  have off₃ := C.off (s := s₂) (i := .unbanked .bitFieldSetU eieU
    [pktIf ||| txIf ||| txAbtIf ||| rxAbtIf ||| pcfulIf, linkIf]) (u := C.view s₂) rfl still₂
  generalize at₃ : C.commit s₂ _ = s₃ at off₃
  have still₃ := off₃.enabled.trans still₂
  have off₄ := C.off (s := s₃) (i := .banked .readCr (Fin.ofNat 32 estatl.toNat) (zeros 1))
    (u := C.view s₃) rfl still₃
  have read := readCr_idle C.toSlave s₃ estatl 1 (by decide) (by decide)
  rw [C.reads_count s₃] at read
  generalize C.commit s₃ _ = s₄ at off₄ read
  obtain ⟨s', dropped, off', none, same, asked⟩ := dropPackets_off C s₄ _ (off₄.enabled.trans still₃)
    (congrArg BitVec.toNat off₄.count)
  refine ⟨s', ?_, off', none, same.trans
    (off₄.macon2.trans (off₃.macon2.trans (off₂.macon2.trans off₁.macon2))), asked.trans
    (off₄.requested.trans (off₃.requested.trans (off₂.requested.trans off₁.requested)))⟩
  simpa only [stopReceiver, simple_idle, at₁, at₂, at₃,
    unbanked_idle C.toSlave _ .bitFieldSetU _ _ (by decide) (List.cons_ne_nil _ _), read,
    List.getD_cons_zero] using dropped

theorem placeBuffers_off (s : S) (off : (C.view s).enabled = false) (none : (C.view s).count = 0) :
    ∃ s', placeBuffers C.toSlave (idle s) = idle s' ∧ (C.view s').enabled = false ∧
      (C.view s').count = 0 ∧ (C.view s').head = ring.base ∧ (C.view s').arrived = [] ∧
      (C.view s').decrements = 0 ∧ (C.view s').tail = 0x5ffe ∧ (C.view s').txStart = 0 ∧
      (C.view s').macon2 = (C.view s).macon2 ∧ (C.view s').requested = (C.view s).requested := by
  have off₁ := C.off (s := s) (i := .unbanked .writeCru erxstU [0x00, 0x04])
    (u := { C.view s with head := ring.base, arrived := [], decrements := 0 }) rfl off
  generalize at₁ : C.commit s _ = s₁ at off₁
  have still₁ := off₁.enabled.trans off
  have off₂ := C.off (s := s₁) (i := .unbanked .writeCru erxheadU [0x00, 0x04]) (u := C.view s₁) rfl still₁
  generalize at₂ : C.commit s₁ _ = s₂ at off₂
  have still₂ := off₂.enabled.trans still₁
  have off₃ := C.off (s := s₂) (i := .unbanked .writeCru erxtailU [0xfe, 0x5f])
    (u := { C.view s₂ with tail := 0x5ffe }) rfl still₂
  generalize at₃ : C.commit s₂ _ = s₃ at off₃
  have still₃ := off₃.enabled.trans still₂
  have off₄ := C.off (s := s₃) (i := .banked .bitFieldClear (Fin.ofNat 32 econ1l.toNat) [0x02])
    (u := C.view s₃) rfl still₃
  generalize at₄ : C.commit s₃ _ = s₄ at off₄
  have still₄ := off₄.enabled.trans still₃
  have off₅ := C.off (s := s₄) (i := .unbanked .writeCru etxstU [0x00, 0x00])
    (u := { C.view s₄ with txStart := 0 }) rfl still₄
  have empty : (C.view s₄).arrived = [] :=
    off₄.arrived.trans (off₃.arrived.trans (off₂.arrived.trans off₁.arrived))
  refine ⟨C.commit s₄ (Instr.unbanked .writeCru etxstU [0x00, 0x00]).frame, ?_,
    off₅.enabled.trans still₄, ?_, ?_, off₅.arrived.trans empty, ?_, ?_, off₅.txStart,
    off₅.macon2.trans (off₄.macon2.trans (off₃.macon2.trans (off₂.macon2.trans off₁.macon2))), ?_⟩
  · simp only [placeBuffers, writeCru_idle C.toSlave _ _ _ (List.cons_ne_nil _ _), at₁, at₂, at₃,
      bitFieldClear_idle C.toSlave _ econ1l _ (by decide) (List.cons_ne_nil _ _), at₄]
  · exact off₅.count.trans (off₄.count.trans (off₃.count.trans (off₂.count.trans (off₁.count.trans none))))
  · exact off₅.head.trans (off₄.head.trans (off₃.head.trans (off₂.head.trans off₁.head)))
  · exact off₅.decrements.trans
      (off₄.decrements.trans (off₃.decrements.trans (off₂.decrements.trans off₁.decrements)))
  · exact off₅.tail.trans (off₄.tail.trans off₃.tail)
  · exact off₅.requested.trans
      (off₄.requested.trans (off₃.requested.trans (off₂.requested.trans off₁.requested)))

/-- The driver's variables before `enc424j600_spi_start`, which starts with a bus at rest. -/
def boot (chip : S) : Driver S :=
  { bus := idle chip
    nextPacketPointer := 0
    linkOn := false
    txbusy := false
    netifUp := false
    input := []
    offered := []
    output := []
    statuses := []
    full := 0 }

/-- The driver after `enc424j600_spi_start`. -/
def started (slave : Slave S) (chip : S) : Driver S :=
  { spiStart slave (boot chip) with statuses := [estath slave (setUp slave (idle chip)).chip] }

theorem setUp_running (s : S) :
    ∃ s', setUp C.toSlave (idle s) = idle s' ∧
      Running (· = (C.view s).macon2.1) (C.view s).requested (C.view s') 0x400 [] 0 0 0 254 := by
  obtain ⟨s₁, stopped, off₁, none₁, mac₁, asked₁⟩ := stopReceiver_off C s
  obtain ⟨s₂, placed, off₂, none₂, head₂, empty₂, start₂, tail₂, tx₂, mac₂, asked₂⟩ :=
    placeBuffers_off C s₁ off₁ none₁
  have off₃ := C.off (s := s₂) (i := .banked .bitFieldClear (Fin.ofNat 32 eirl.toNat)
    [txIf ||| txAbtIf ||| rxAbtIf ||| pcfulIf, linkIf]) (u := _) rfl off₂
  generalize at₃ : C.commit s₂ _ = s₃ at off₃
  have still₃ := off₃.enabled.trans off₂
  have off₄ := C.off (s := s₃) (i := .simple .setEie) (u := C.view s₃) rfl still₃
  generalize at₄ : C.commit s₃ _ = s₄ at off₄
  have unflagged : (C.view s₄).flags &&& pcfulIf = 0 := by
    rw [off₄.flags, off₃.flags]
    exact cleared_masked _ _ _ (by decide)
  -- the ring is empty and all of it but two bytes is free
  have none : (C.view s₄).count = 0 := off₄.count.trans (off₃.count.trans none₂)
  have empty : (C.view s₄).arrived = [] := off₄.arrived.trans (off₃.arrived.trans empty₂)
  have fresh : (C.view s₄).decrements = 0 := off₄.decrements.trans (off₃.decrements.trans start₂)
  have ready : Running (· = (C.view s).macon2.1) (C.view s).requested
      { C.view s₄ with enabled := true } 0x400 [] 0 0 0 254 := by
    refine ⟨rfl, ⟨[], ?_, empty, trivial, ?_, ⟨ring.size - 2, ?_, Nat.zero_le _, by decide⟩, ?_, ?_⟩,
      fresh, Nat.zero_le _, fun flagged => absurd unflagged flagged, ?_, ?_, ?_⟩
    · decide
    · exact off₄.head.trans (off₃.head.trans head₂)
    · exact off₄.tail.trans (off₃.tail.trans tail₂)
    · simp [none]
    · simp [none, empty, fresh]
    · exact off₄.txStart.trans (off₃.txStart.trans tx₂)
    · have same : (C.view s₄).macon2 = (C.view s).macon2 :=
        off₄.macon2.trans (off₃.macon2.trans (mac₂.trans mac₁))
      simp only [same]
    · exact off₄.requested.trans (off₃.requested.trans (asked₂.trans asked₁))
  have r₅ := ready.meanwhile (by decide) (C.commits s₄ (.simple .enableRx) _ rfl fun _ => ready.tail_mem)
  have cleared := bitFieldClear_idle C.toSlave s₂ eirl
    [txIf ||| txAbtIf ||| rxAbtIf ||| pcfulIf, linkIf] (by decide) (List.cons_ne_nil _ _)
  refine ⟨_, ?_, r₅⟩
  simp only [setUp, stopped, placed, cleared, at₃, simple_idle, at₄]

theorem started_steady (s : S) :
    Steady C ⟨(C.view s).macon2.1, (C.view s).requested, []⟩ (started C.toSlave s) := by
  obtain ⟨s₅, ready, r₅⟩ := setUp_running C s
  have read := readCr_idle C.toSlave s₅ estatl 2 (by decide) (by decide)
  have r₆ := (C.looks r₅ (by decide) (i := .banked .readCr (Fin.ofNat 32 estatl.toNat) (zeros 2)) rfl).1
  generalize C.commit s₅ _ = s₆ at read r₆
  have none : (C.view s).requested = (C.view s).requested ++ [].filter Fits := by simp
  have log : Logged ⟨(C.view s).macon2.1, (C.view s).requested, []⟩ (started C.toSlave s) [] := by
    have starts : (started C.toSlave s).offered = [] ∧ (started C.toSlave s).input = [] := by
      simp only [started, spiStart]
      split <;> exact ⟨rfl, rfl⟩
    rw [Logged, starts.1, starts.2]
    exact ⟨rfl, rfl, List.nil_prefix⟩
  rw [none] at r₆
  simp only [started, spiStart, boot, ready, read] at log ⊢
  by_cases linked : estath C.toSlave s₅ &&& 0x01 = 0
  · have same : (C.view s).macon2.1 = macAfter (C.view s).macon2.1 [estath C.toSlave s₅] :=
      (if_neg (not_not_intro linked)).symm
    rw [estath] at linked
    rw [if_neg (not_not_intro linked)] at log ⊢
    exact ⟨s₆, [], rfl, ⟨r₆.on, r₆.queue, r₆.decremented, r₆.counted, r₆.flagged, r₆.txStart,
      r₆.mac.trans same, r₆.sent⟩, log⟩
  · obtain ⟨s₇, set, r₇⟩ := setMac_running r₆ (by decide)
      (· = macAfter (C.view s).macon2.1 [estath C.toSlave s₅]) (estath C.toSlave s₅) (by
        rw [r₆.mac]
        exact (if_pos linked).symm)
    rw [estath] at linked set
    rw [if_pos linked] at log ⊢
    rw [set] at log ⊢
    exact ⟨s₇, [], rfl, r₇, log⟩

/-- A call of `hw_poll`, with the buffers it finds, and a packet the stack sends from the
main loop. -/
inductive Event where
  | poll (pools : List Bool)
  | send (p : Pbuf)

def step (slave : Slave S) (stack : Stack) (d : Driver S) : Event → Driver S
  | .poll pools => (hwPoll slave stack pools d).1
  | .send p => send slave (d.given [p]) p

def run (slave : Slave S) (stack : Stack) (chip : S) (events : List Event) : Driver S :=
  Traces.run (step slave stack) (started slave chip) events

theorem run_steady {e : Setting} (stack : Stack) (clear : Clear C.wire) (events : List Event)
    {d : Driver S} (steady : Steady C e d) : Steady C e (Traces.run (step C.toSlave stack) d events) := by
  have preserved (d : Driver S) (event : Event) (steady : Steady C e d) (_ : True) :
      Steady C e (step C.toSlave stack d event) := by
    cases event with
    | poll pools => exact steady.hwPoll clear stack pools
    | send p => exact Sound.sendAll steady (by decide) [p]
  exact Traces.run_invariant preserved steady (Traces.along_of_forall _ events fun _ _ => trivial)

theorem boot_steady (stack : Stack) (clear : Clear C.wire) (chip : S) (events : List Event) :
    Steady C ⟨(C.view chip).macon2.1, (C.view chip).requested, []⟩ (run C.toSlave stack chip events) :=
  run_steady C stack clear events (started_steady C chip)

/-- A wire with three packets on it, a stack that only listens, and one that sends back
all it gets. -/
def threePackets : List Packet := [[1, 2, 3], [4, 5], [6]]

def silent : Stack := ⟨fun _ => [], fun _ => []⟩

def echo : Stack :=
  ⟨fun given => given.getLast?.join.toList.map fun p => ⟨[p], List.cons_ne_nil _ _⟩, fun _ => []⟩

def listening (stack : Stack) (links : List (Option Byte)) (events : List Event) :
    Driver (Reference threePackets) :=
  run (reference threePackets).toSlave stack (powerUp threePackets links) events

/-- Packets arrive between any two frames of the bus, and the stack answers as it likes.
As long as none ends where the ring does, the packets put into the stack are those that
arrived, in order and whole, a null pointer in place of just those for which the pool
had no buffers; the others lie untouched from the next packet pointer on, in the order
they arrived, at least as many as are counted. -/
theorem packets_in_order (stack : Stack) (clear : Clear C.wire) (chip : S) (events : List Event) :
    ∃ s taken unread, (run C.toSlave stack chip events).bus = idle s ∧
      (run C.toSlave stack chip events).offered.length = taken.length ∧
      (run C.toSlave stack chip events).input =
        List.zipWith delivered (run C.toSlave stack chip events).offered taken ∧
      Queue (C.view s) (run C.toSlave stack chip events).nextPacketPointer.toNat taken unread 0 := by
  obtain ⟨s, taken, rest, r, size, input, -⟩ := boot_steady C stack clear chip events
  obtain ⟨unread, queue⟩ := r.queue
  exact ⟨s, taken, unread, rest, size, input, queue⟩

theorem packets_in_order_three_packets :
    Clear threePackets ∧
    (listening silent [] [.poll [true, false, true, true]]).input = [some [1, 2, 3], none, some [6]] ∧
    ∃ s taken unread, (listening silent [] [.poll [true, false, true, true]]).bus = idle s ∧
      (listening silent [] [.poll [true, false, true, true]]).offered.length = taken.length ∧
      (listening silent [] [.poll [true, false, true, true]]).input =
        List.zipWith delivered (listening silent [] [.poll [true, false, true, true]]).offered taken ∧
      Queue ((reference threePackets).view s)
        (listening silent [] [.poll [true, false, true, true]]).nextPacketPointer.toNat taken unread 0 :=
  ⟨by decide, by decide +kernel,
    packets_in_order (reference threePackets) silent (by decide) (powerUp threePackets []) _⟩

/-- The instructions with which a poll ends. -/
def lastLook : List Instr := [Call.banked .readCr eirl (zeros 2), .simple .setEie].filterMap Call.asks

/-- A poll that returns has put into the stack every packet that had arrived when it
last looked at the flags, with a null pointer for those without a buffer, but for the
last ones: one is left behind for each time the counter was found full, where it is
decremented without a packet. -/
theorem poll_drains (stack : Stack) (clear : Clear C.wire) (chip : S) (events : List Event)
    (pools : List Bool)
    (returned : (hwPoll C.toSlave stack pools (run C.toSlave stack chip events)).2 = true) :
    ∃ (look : S) (taken left : List Packet),
      (run C.toSlave stack chip (events ++ [Event.poll pools])).bus = idle (commits C.toSlave look lastLook) ∧
      (C.view look).arrived = taken ++ left ∧
      (run C.toSlave stack chip (events ++ [Event.poll pools])).offered.length = taken.length ∧
      (run C.toSlave stack chip (events ++ [Event.poll pools])).input =
        List.zipWith delivered (run C.toSlave stack chip (events ++ [Event.poll pools])).offered taken ∧
      left.length = (run C.toSlave stack chip (events ++ [Event.poll pools])).full := by
  have polled : run C.toSlave stack chip (events ++ [Event.poll pools]) =
      (hwPoll C.toSlave stack pools (run C.toSlave stack chip events)).1 := Traces.run_append _ _ _ _
  have steady := boot_steady C stack clear chip events
  rw [polled]
  generalize run C.toSlave stack chip events = d at returned steady
  simp only [hwPoll] at returned ⊢
  generalize looped : pollLoop C.toSlave stack pools _ = result at returned ⊢
  obtain ⟨d', done⟩ := result
  cases done with
  | false => cases returned
  | true =>
    obtain ⟨look, taken, left, rest, arrived, ⟨size, input, -⟩, lost⟩ :=
      (steady.interrupts .clrEie (.inl rfl)).returned clear stack pools looped
    refine ⟨look, taken, left, ?_, arrived, size, input, lost⟩
    simp only [if_true, rest, simple_idle]
    rfl

theorem poll_drains_three_packets :
    (hwPoll (reference threePackets).toSlave silent [true, true, true, true] (listening silent [] [])).2 = true ∧
    (listening silent [] [.poll [true, true, true, true]]).input = [some [1, 2, 3], some [4, 5], some [6]] ∧
    ∃ (look : Reference threePackets) (taken left : List Packet),
      (listening silent [] ([] ++ [Event.poll [true, true, true, true]])).bus =
        idle (commits (reference threePackets).toSlave look lastLook) ∧
      ((reference threePackets).view look).arrived = taken ++ left ∧
      (listening silent [] ([] ++ [Event.poll [true, true, true, true]])).offered.length = taken.length ∧
      (listening silent [] ([] ++ [Event.poll [true, true, true, true]])).input =
        List.zipWith delivered (listening silent [] ([] ++ [Event.poll [true, true, true, true]])).offered taken ∧
      left.length = (listening silent [] ([] ++ [Event.poll [true, true, true, true]])).full := by
  have returned : (hwPoll (reference threePackets).toSlave silent [true, true, true, true]
      (listening silent [] [])).2 = true := by
    decide +kernel
  exact ⟨returned, by decide +kernel,
    poll_drains (reference threePackets) silent (by decide) (powerUp threePackets []) [] _ returned⟩

/-- In the same runs the controller is asked to send exactly what the stack gave the
driver, whole and in order, but for packets that do not fit into the transmit buffer. -/
theorem requests_in_order (stack : Stack) (clear : Clear C.wire) (chip : S) (events : List Event) :
    ∃ s, (run C.toSlave stack chip events).bus = idle s ∧
      (C.view s).requested =
        (C.view chip).requested ++ (run C.toSlave stack chip events).output.filter Fits := by
  obtain ⟨s, taken, rest, r, -⟩ := boot_steady C stack clear chip events
  exact ⟨s, rest, r.sent⟩

/-- Two answers, and a packet from the main loop. -/
def answering : List Event := [.poll [true, true], .send ⟨[[9, 9], [8]], List.cons_ne_nil _ _⟩]

theorem requests_in_order_answers :
    Clear threePackets ∧ ∃ s, (listening echo [] answering).bus = idle s ∧
      ((reference threePackets).view s).requested = [[1, 2, 3], [4, 5], [9, 9, 8]] := by
  obtain ⟨s, rest, requested⟩ :=
    requests_in_order (reference threePackets) echo (by decide) (powerUp threePackets []) answering
  have given : (listening echo [] answering).output = [[1, 2, 3], [4, 5], [9, 9, 8]] := by decide +kernel
  refine ⟨by decide, s, rest, requested.trans ?_⟩
  rw [← listening, given]
  rfl

/-- The settings of the MAC but for the duplex bit: padding and checksums. -/
def settings (low : Byte) : Byte := low &&& ~~~0x01

/-- The link is up, at half duplex. -/
def HalfDuplex (status : Byte) : Prop := status &&& 0x05 = 0x01

instance : DecidablePred HalfDuplex := fun status => inferInstanceAs (Decidable (status &&& 0x05 = 0x01))

theorem half_duplex_iff (status : Byte) :
    HalfDuplex status ↔ status &&& 0x01 ≠ 0 ∧ ¬ status &&& 0x04 ≠ 0 := by
  revert status
  decide +kernel

theorem settings_full (low : Byte) : settings (low ||| 0x01) = settings low := by
  rw [settings, BitVec.and_or_distrib_right]
  exact BitVec.or_zero

theorem settings_half (low : Byte) : settings (low &&& notFuldpx) = 0 := by
  simp [settings, notFuldpx]

/-- One look at the link at half duplex, and the settings are gone; without one they stay. -/
theorem settings_after (low : Byte) (statuses : List Byte) :
    settings (macAfter low statuses) =
      if ∃ status ∈ statuses, HalfDuplex status then 0 else settings low := by
  induction statuses using List.reverseRecOn with
  | nil => simp [macAfter]
  | append_singleton statuses status ih =>
    rw [macAfter_append]
    by_cases half : HalfDuplex status
    · obtain ⟨up, notFull⟩ := (half_duplex_iff status).mp half
      rw [if_pos up, macLow, if_neg notFull, if_pos ⟨status, by simp, half⟩, settings_half]
    · have same : (∃ s ∈ statuses ++ [status], HalfDuplex s) ↔ ∃ s ∈ statuses, HalfDuplex s := by
        simp [half]
      rw [if_congr same rfl rfl, ← ih]
      by_cases up : status &&& 0x01 ≠ 0
      · have full : status &&& 0x04 ≠ 0 := by
          intro notFull
          exact half ((half_duplex_iff status).mpr ⟨up, not_not_intro notFull⟩)
        rw [if_pos up, macLow, if_pos full, settings_full]
      · rw [if_neg up]

/-- `set_MAC` clears padding and checksums with the duplex bit: they are gone once the
start or a link event has found the link up at half duplex, and stay so; as long as none
has they are as they were. -/
theorem padding_lost (stack : Stack) (clear : Clear C.wire) (chip : S) (earlier later : List Event) :
    ∃ s s', (run C.toSlave stack chip earlier).bus = idle s ∧
      (run C.toSlave stack chip (earlier ++ later)).bus = idle s' ∧
      (settings (C.view s).macon2.1 =
        if ∃ status ∈ (run C.toSlave stack chip earlier).statuses, HalfDuplex status then 0
        else settings (C.view chip).macon2.1) ∧
      ((∃ status ∈ (run C.toSlave stack chip earlier).statuses, HalfDuplex status) →
        settings (C.view s').macon2.1 = 0) := by
  obtain ⟨s, taken, rest, r, size, input, -⟩ := boot_steady C stack clear chip earlier
  have split : run C.toSlave stack chip (earlier ++ later) =
      Traces.run (step C.toSlave stack) (run C.toSlave stack chip earlier) later :=
    Traces.run_append _ _ _ _
  have steady : Steady C ⟨(C.view chip).macon2.1, (C.view chip).requested,
      (run C.toSlave stack chip earlier).statuses⟩ (run C.toSlave stack chip earlier) :=
    ⟨s, taken, rest, r, size, input, List.prefix_rfl⟩
  obtain ⟨s', taken', rest', r', -, -, grown⟩ := run_steady C stack clear later steady
  refine ⟨s, s', rest, by rw [split, rest'], ?_, ?_⟩
  · rw [r.mac, settings_after]
  · rintro ⟨status, read, half⟩
    rw [r'.mac, settings_after, if_pos ⟨status, grown.subset read, half⟩]

/-- The link comes up at half duplex after the start. -/
def lateLink : List (Option Byte) := List.replicate 14 none ++ [some 0x01]

theorem padding_lost_late_link :
    Clear threePackets ∧ (listening silent lateLink [.poll [true, true]]).statuses = [0x00, 0x01] ∧
    settings ((reference threePackets).view (powerUp threePackets lateLink)).macon2.1 = 0xb0 ∧
    ∃ s s', (listening silent lateLink [.poll [true, true]]).bus = idle s ∧
      (listening silent lateLink ([.poll [true, true]] ++ [.poll [true]])).bus = idle s' ∧
      settings ((reference threePackets).view s).macon2.1 = 0 ∧
      settings ((reference threePackets).view s').macon2.1 = 0 := by
  have read : (listening silent lateLink [.poll [true, true]]).statuses = [0x00, 0x01] := by decide +kernel
  have half : ∃ status ∈ (listening silent lateLink [.poll [true, true]]).statuses, HalfDuplex status := by
    rw [read]
    exact ⟨0x01, by decide, by decide⟩
  obtain ⟨s, s', rest, rest', now, still⟩ := padding_lost (reference threePackets) silent (by decide)
    (powerUp threePackets lateLink) [.poll [true, true]] [.poll [true]]
  exact ⟨by decide, read, rfl, s, s', rest, rest', now.trans (if_pos half), still half⟩

end Starting

end AsdPre.EthDriver
