import AsdPre.EthBus
import AsdPre.RingMemory

/-! What the driver relies on of the Ethernet controller: a memory with a transmit
buffer and a receive ring, a counter of waiting packets, interrupt flags and a few
registers. Packets arrive between any two frames of the bus. An instruction the
driver gives no meaning to, or a receiver set up outside the ring, promises nothing. -/
namespace AsdPre.EthController

open ByteMemory EthBus RingMemory

abbrev Packet := List Byte

/-- From `ENC424J600_RXBUF_START` to the end of the memory. -/
def ring : Region := ⟨0x400, 0x5c00, by decide⟩

def txBufSize : Nat := 1024

/-- Register addresses of the header. -/
def estatl : Byte := 0x1a
def eirl : Byte := 0x1c
def eirh : Byte := 0x1d
def econ1l : Byte := 0x1e
def etxstU : Byte := 0x00
def etxlenU : Byte := 0x02
def erxstU : Byte := 0x04
def erxtailU : Byte := 0x06
def erxheadU : Byte := 0x08
def macon2U : Byte := 0x42
def mabbipgU : Byte := 0x44
def eieU : Byte := 0x72

/-- Interrupt flags. -/
def linkIf : Byte := 0x08
def pktIf : Byte := 0x40
def txIf : Byte := 0x08
def txAbtIf : Byte := 0x04
def rxAbtIf : Byte := 0x02
def pcfulIf : Byte := 0x01

/-- `flags` and `link` are the two bytes of the interrupt flags without the one that
follows the counter. The last three fields are a history: the packets stored since the
receive buffer was set up, how often the counter was decremented since, and what lay
in the transmit buffer at each request to send. -/
structure View where
  memory : Memory
  readPointer : Nat
  writePointer : Nat
  head : Nat
  tail : Nat
  count : Byte
  enabled : Bool
  flags : Byte
  link : Byte
  txStart : Nat
  txLength : Nat
  macon2 : Byte × Byte
  arrived : List Packet
  decrements : Nat
  requested : List Packet

/-- Two bytes written to a register from its low byte on. -/
def View.writeRegister (v : View) (address low high : Byte) : Option View :=
  let value := ofLe [low, high]
  if address = erxtailU then some { v with tail := value }
  else if address = erxstU then
    -- the head follows the start of the buffer
    if value = ring.base then some { v with head := value, arrived := [], decrements := 0 }
    else none
  else if address = etxstU then some { v with txStart := value }
  else if address = etxlenU then some { v with txLength := value }
  else if address = macon2U then some { v with macon2 := (low, high) }
  else if address = mabbipgU ∨ address = erxheadU then some v
  else none

def effect (v : View) : Instr → Option View
  | .simple .setEthRst => none
  | .simple .setPktDec =>
    if v.count = 0 then none
    else some { v with count := v.count - 1, decrements := v.decrements + 1 }
  | .simple .setTxRts =>
    some { v with requested := v.requested ++ [ByteMemory.read v.memory v.txStart v.txLength] }
  | .simple .enableRx => some { v with enabled := true }
  | .simple .disableRx => some { v with enabled := false }
  | .simple _ => some v
  | .pointer .rxRdPt value => some { v with readPointer := value.toNat }
  | .pointer .gpbWrPt value => some { v with writePointer := value.toNat }
  | .pointer _ _ => none
  | .readRx length =>
    if ring.Mem v.readPointer then some { v with readPointer := ring.after v.readPointer length }
    else none
  | .writeGp data =>
    if v.writePointer + data.length ≤ ring.base + ring.size then
      some { v with
        memory := ByteMemory.write v.memory v.writePointer data
        writePointer := v.writePointer + data.length }
    else none
  | .banked .readCr _ _ => some v
  | .banked .bitFieldClear address data =>
    if address.val = eirl.toNat then
      some { v with flags := v.flags &&& ~~~data.getD 0 0, link := v.link &&& ~~~data.getD 1 0 }
    else if address.val = eirh.toNat then some { v with link := v.link &&& ~~~data.getD 0 0 }
    else if address.val = econ1l.toNat then some v
    else none
  | .banked _ _ _ => none
  | .unbanked .readCru _ _ => some v
  | .unbanked .writeCru address [low, high] => v.writeRegister address low high
  | .unbanked .bitFieldSetU address _ => if address = eieU then some v else none
  | .unbanked _ _ _ => none

theorem ofLe_lowHigh (value : BitVec 16) : ofLe (lowHigh value) = value.toNat := by
  rw [lowHigh, ofLe_leBytes]
  exact Nat.mod_eq_of_lt value.isLt

theorem effect_tail (v : View) (value : BitVec 16) :
    effect v (.unbanked .writeCru erxtailU (lowHigh value)) = some { v with tail := value.toNat } := by
  rw [← ofLe_lowHigh value]
  rfl

theorem effect_txLength (v : View) (value : BitVec 16) :
    effect v (.unbanked .writeCru etxlenU (lowHigh value)) = some { v with txLength := value.toNat } := by
  rw [← ofLe_lowHigh value]
  rfl

/-- The bytes a packet takes in the ring: a pointer to the next one, its length, four
bytes of status and its data, up to an even address. -/
def span (p : Packet) : Nat := (8 + p.length + 1) / 2 * 2

def spans (packets : List Packet) : Nat := (packets.map span).sum

def View.store (v : View) (p : Packet) (status : List Byte) : View :=
  { v with
    memory := ring.write v.memory v.head
      (leBytes 2 (ring.after v.head (span p)) ++ leBytes 2 p.length ++ status ++ p)
    head := ring.after v.head (span p)
    count := v.count + 1
    flags := if v.count + 1 = 255 then v.flags ||| pcfulIf else v.flags
    arrived := v.arrived ++ [p] }

/-- What the controller does by itself: store a packet for which there is room before
the tail, or raise flags. -/
inductive Happens : View → View → Prop
  | packet (v : View) (p : Packet) (status : List Byte) (size : status.length = 4)
      (on : v.enabled = true) (counted : v.count ≠ 255) (room : span p ≤ ring.distance v.head v.tail) :
      Happens v (v.store p status)
  | raised (v : View) (low high : Byte) :
      Happens v { v with flags := v.flags ||| (low &&& ~~~pcfulIf), link := v.link ||| high }

def Meanwhile : View → View → Prop := Relation.ReflTransGen Happens

/-- The low byte of the interrupt flags as it reads. -/
def View.pending (v : View) : Byte := v.flags &&& ~~~pktIf ||| if v.count = 0 then 0 else pktIf

/-- A controller: a slave with a view of itself on which instructions have their
effect. `wire` is the traffic it sees, as far as it is stored. -/
structure Controller (S : Type u) extends Slave S where
  view : S → View
  wire : List Packet
  on_wire : ∀ s, (view s).arrived <+: wire
  commits : ∀ s i v, effect (view s) i = some v → (v.enabled = true → ring.Mem v.tail) →
    Meanwhile v (view (commit s i.frame))
  reads_packets : ∀ s n, ring.Mem (view s).readPointer →
    answers toSlave s [rrxData] (zeros n) = ring.read (view s).memory (view s).readPointer n
  reads_count : ∀ s, answers toSlave s [estatl ||| BankedOp.readCr.code] (zeros 1) = [(view s).count]
  reads_flags : ∀ s, answers toSlave s [eirl ||| BankedOp.readCr.code] (zeros 2) =
    [(view s).pending, (view s).link]
  reads_macon2 : ∀ s, answers toSlave s [UnbankedOp.readCru.code, macon2U] (zeros 2) =
    [(view s).macon2.1, (view s).macon2.2]

section Queue

/-! The packets between the driver's next packet pointer and the head. -/

def Holds (m : Memory) : Nat → List Packet → Prop
  | _, [] => True
  | start, p :: rest =>
    ring.read m start 2 = leBytes 2 (ring.after start (span p)) ∧
    ring.read m (ring.after start 2) 2 = leBytes 2 p.length ∧
    ring.read m (ring.after start 8) p.length = p ∧
    Holds m (ring.after start (span p)) rest

/-- `unread` lies in the ring from `start` to the head, and the tail does not reach
it from behind. The counter may run behind, but not ahead by more than `slack`. -/
structure Queue (v : View) (start : Nat) (taken unread : List Packet) (slack : Nat) : Prop where
  position : start = ring.after ring.base (spans taken)
  arrived : v.arrived = taken ++ unread
  held : Holds v.memory start unread
  head : v.head = ring.after start (spans unread)
  room : ∃ t, v.tail = ring.after start t ∧ spans unread ≤ t ∧ t + 2 ≤ ring.size
  counted : v.count.toNat ≤ unread.length + slack
  history : v.arrived.length = v.count.toNat + v.decrements

@[simp] theorem spans_nil : spans [] = 0 := rfl

@[simp] theorem spans_cons (p : Packet) (rest : List Packet) : spans (p :: rest) = span p + spans rest := by
  simp [spans]

@[simp] theorem spans_append (as bs : List Packet) : spans (as ++ bs) = spans as + spans bs := by
  simp [spans]

theorem le_span (p : Packet) : 8 + p.length ≤ span p := by
  rw [span]
  omega

theorem span_even (p : Packet) : span p % 2 = 0 := by
  rw [span]
  omega

theorem spans_even (packets : List Packet) : spans packets % 2 = 0 := by
  induction packets with
  | nil => rfl
  | cons p rest ih =>
    have even := span_even p
    rw [spans_cons]
    omega

theorem holds_append (m : Memory) (start : Nat) (as bs : List Packet) (inside : ring.Mem start) :
    Holds m start (as ++ bs) ↔ Holds m start as ∧ Holds m (ring.after start (spans as)) bs := by
  induction as generalizing start with
  | nil => simp [Holds, ring.after_zero inside]
  | cons p rest ih =>
    simp only [List.cons_append, Holds, spans_cons]
    rw [ih _ (ring.after_mem _ _), ring.after_after]
    simp only [and_assoc]

/-- What is stored past the packets leaves them alone. -/
theorem holds_write (m : Memory) (start offset : Nat) (packets : List Packet) (k : Nat)
    (data : List Byte) (before : offset + spans packets ≤ k) (fits : k + data.length ≤ ring.size)
    (held : Holds m (ring.after start offset) packets) :
    Holds (ring.write m (ring.after start k) data) (ring.after start offset) packets := by
  induction packets generalizing offset with
  | nil => trivial
  | cons p rest ih =>
    have long := le_span p
    rw [spans_cons] at before
    obtain ⟨next, length, content, others⟩ := held
    rw [ring.after_after] at next length content others
    refine ⟨?_, ?_, ?_, ?_⟩
    · rw [ring.read_write_before k data offset 2 (by omega) fits, ring.after_after]
      exact next
    · rw [ring.after_after, ring.read_write_before k data (offset + 2) 2 (by omega) fits]
      exact length
    · rw [ring.after_after, ring.read_write_before k data (offset + 8) p.length (by omega) fits]
      exact content
    · rw [ring.after_after]
      exact ih _ (by omega) others

/-- A stored packet is held. -/
theorem holds_stored (m : Memory) (start : Nat) (p : Packet) (status : List Byte)
    (inside : ring.Mem start) (size : status.length = 4) (fits : 8 + p.length ≤ ring.size) :
    Holds (ring.write m start
      (leBytes 2 (ring.after start (span p)) ++ leBytes 2 p.length ++ status ++ p)) start [p] := by
  have whole := ring.read_write (m := m) inside
    (leBytes 2 (ring.after start (span p)) ++ leBytes 2 p.length ++ status ++ p) (by simp [size]; omega)
  have total : (leBytes 2 (ring.after start (span p)) ++ leBytes 2 p.length ++ status ++ p).length =
      8 + p.length := by
    simp [size]
    omega
  refine ⟨?_, ?_, ?_, trivial⟩
  · have part := ring.read_part whole 0 2 (by omega)
    rw [ring.after_zero inside] at part
    simpa using part
  · have part := ring.read_part whole 2 2 (by omega)
    simpa using part
  · have part := ring.read_part whole 8 p.length (by omega)
    rwa [List.drop_left' (by simp [size]), List.take_length] at part

theorem Queue.start_mem (q : Queue v start taken unread slack) : ring.Mem start := by
  rw [q.position]
  exact ring.after_mem _ _

theorem Queue.tail_mem (q : Queue v start taken unread slack) : ring.Mem v.tail := by
  obtain ⟨t, tail, -, -⟩ := q.room
  rw [tail]
  exact ring.after_mem _ _

theorem count_succ {count : Byte} (notFull : count ≠ 255) : (count + 1).toNat = count.toNat + 1 := by
  have small : count.toNat ≠ 255 := fun full => notFull (BitVec.eq_of_toNat_eq full)
  have bound := count.isLt
  rw [BitVec.toNat_add]
  simp
  omega

/-- An arrival goes behind the packets that wait. -/
theorem Queue.store (q : Queue v start taken unread slack) (p : Packet) (status : List Byte)
    (size : status.length = 4) (counted : v.count ≠ 255)
    (room : span p ≤ ring.distance v.head v.tail) :
    Queue (v.store p status) start taken (unread ++ [p]) slack := by
  obtain ⟨t, tail, behind, lap⟩ := q.room
  have inside := q.start_mem
  have long := le_span p
  rw [q.head, tail, ring.distance_after_after (spans unread) t behind (by omega)] at room
  have more := count_succ counted
  refine ⟨q.position, ?_, ?_, ?_, ⟨t, tail, ?_, lap⟩, ?_, ?_⟩
  · simp [View.store, q.arrived]
  · simp only [View.store, q.head]
    rw [holds_append _ _ _ _ inside]
    refine ⟨?_, holds_stored _ _ p status (ring.after_mem _ _) size (by omega)⟩
    have kept := holds_write v.memory start 0 unread (spans unread)
      (leBytes 2 (ring.after (ring.after start (spans unread)) (span p)) ++ leBytes 2 p.length ++
        status ++ p) (by omega) (by simp [size]; omega)
      (by rw [ring.after_zero inside]; exact q.held)
    rwa [ring.after_zero inside] at kept
  · simp [View.store, q.head, ring.after_after]
  · simp only [spans_append, spans_cons, spans_nil]
    omega
  · have before := q.counted
    simp only [View.store, more, List.length_append, List.length_singleton]
    omega
  · have before := q.history
    simp only [View.store, more, List.length_append, List.length_singleton]
    omega

theorem Queue.raised (q : Queue v start taken unread slack) (low high : Byte) :
    Queue { v with flags := low, link := high } start taken unread slack :=
  ⟨q.position, q.arrived, q.held, q.head, q.room, q.counted, q.history⟩

end Queue

section Running

/-! What stays true of a receiver at work, between frames and across them. -/

/-- The receiver is on and its waiting packets lie from `start` on, after those
`taken`. The counter was decremented for each of these, but for `slack`, and `lost`
times more. At least `low` packets are counted, and `full` where the counter has been
full since its flag was cleared; `keep` is what is known of the MAC's settings and
`requests` what has been requested to be sent. -/
structure Running (keep : Byte → Prop) (requests : List Packet) (v : View)
    (start : Nat) (taken : List Packet) (lost slack low full : Nat) : Prop where
  on : v.enabled = true
  queue : ∃ unread, Queue v start taken unread slack
  decremented : v.decrements + slack = taken.length + lost
  counted : low ≤ v.count.toNat
  flagged : v.flags &&& pcfulIf ≠ 0 → full ≤ v.count.toNat
  txStart : v.txStart = 0
  mac : keep v.macon2.1
  sent : v.requested = requests

variable {keep : Byte → Prop} {requests : List Packet}

/-- The parts of the view that only the driver changes. -/
structure Settled (v u : View) : Prop where
  readPointer : u.readPointer = v.readPointer
  writePointer : u.writePointer = v.writePointer
  tail : u.tail = v.tail
  enabled : u.enabled = v.enabled
  txStart : u.txStart = v.txStart
  txLength : u.txLength = v.txLength
  macon2 : u.macon2 = v.macon2
  decrements : u.decrements = v.decrements
  requested : u.requested = v.requested
  buffer : ∀ x, ¬ ring.Mem x → u.memory x = v.memory x

theorem Happens.settled (h : Happens v u) : Settled v u := by
  cases h with
  | packet p status size on counted room =>
    exact ⟨rfl, rfl, rfl, rfl, rfl, rfl, rfl, rfl, rfl, fun x outside => ring.write_outside _ _ _ outside⟩
  | raised low high => exact ⟨rfl, rfl, rfl, rfl, rfl, rfl, rfl, rfl, rfl, fun _ _ => rfl⟩

theorem Meanwhile.settled (h : Meanwhile v u) : Settled v u := by
  induction h with
  | refl => exact ⟨rfl, rfl, rfl, rfl, rfl, rfl, rfl, rfl, rfl, fun _ _ => rfl⟩
  | tail _ last ih =>
    have step := last.settled
    exact ⟨step.readPointer.trans ih.readPointer, step.writePointer.trans ih.writePointer,
      step.tail.trans ih.tail, step.enabled.trans ih.enabled, step.txStart.trans ih.txStart,
      step.txLength.trans ih.txLength, step.macon2.trans ih.macon2,
      step.decrements.trans ih.decrements, step.requested.trans ih.requested,
      fun x outside => (step.buffer x outside).trans (ih.buffer x outside)⟩

theorem Meanwhile.arrived (h : Meanwhile v u) : v.arrived <+: u.arrived := by
  induction h with
  | refl => exact List.prefix_rfl
  | tail _ last ih =>
    cases last with
    | packet p status size on counted room => exact ih.trans (List.prefix_append _ _)
    | raised low high => exact ih

theorem masked_or (x y mask : Byte) : (x ||| (y &&& ~~~mask)) &&& mask = x &&& mask := by
  ext i
  simp only [BitVec.getElem_and, BitVec.getElem_or, BitVec.getElem_not]
  cases x[i] <;> cases y[i] <;> cases mask[i] <;> rfl

theorem Running.happens (r : Running keep requests v start taken lost slack low full) (bound : full ≤ 255)
    (h : Happens v u) : Running keep requests u start taken lost slack low full := by
  obtain ⟨unread, queue⟩ := r.queue
  have counts := r.counted
  cases h with
  | packet p status size on counted room =>
    have more := count_succ counted
    refine ⟨r.on, ⟨unread ++ [p], queue.store p status size counted room⟩, r.decremented,
      ?_, ?_, r.txStart, r.mac, r.sent⟩
    · simp only [View.store, more]
      omega
    · simp only [View.store]
      split
      · next filled =>
        intro _
        rw [filled]
        exact bound
      · intro flagged
        have before := r.flagged flagged
        rw [more]
        omega
  | raised lowByte high =>
    refine ⟨r.on, ⟨unread, queue.raised _ _⟩, r.decremented, counts, ?_, r.txStart, r.mac, r.sent⟩
    intro flagged
    apply r.flagged
    rwa [masked_or] at flagged

theorem Running.meanwhile (r : Running keep requests v start taken lost slack low full) (bound : full ≤ 255)
    (h : Meanwhile v u) : Running keep requests u start taken lost slack low full := by
  induction h with
  | refl => exact r
  | tail _ last ih => exact ih.happens bound last

theorem Running.weaken (r : Running keep requests v start taken lost slack low full) (fewer : low' ≤ low)
    (lower : full' ≤ full) : Running keep requests v start taken lost slack low' full' :=
  ⟨r.on, r.queue, r.decremented, fewer.trans r.counted, fun flagged => lower.trans (r.flagged flagged),
    r.txStart, r.mac, r.sent⟩

/-- What an instruction on something else leaves alone. -/
structure Undisturbed (v u : View) : Prop where
  memory : ∀ x, ring.Mem x → u.memory x = v.memory x
  head : u.head = v.head
  tail : u.tail = v.tail
  count : u.count = v.count
  enabled : u.enabled = v.enabled
  flags : u.flags &&& pcfulIf ≠ 0 → v.flags &&& pcfulIf ≠ 0
  txStart : u.txStart = v.txStart
  arrived : u.arrived = v.arrived
  decrements : u.decrements = v.decrements
  macon2 : u.macon2 = v.macon2
  requested : u.requested = v.requested

theorem Holds.congr {m m' : Memory} (same : ∀ x, ring.Mem x → m' x = m x) {start : Nat}
    {packets : List Packet} (inside : ring.Mem start) (held : Holds m start packets) :
    Holds m' start packets := by
  induction packets generalizing start with
  | nil => trivial
  | cons p rest ih =>
    have reads (a n : Nat) : ring.read m' a n = ring.read m a n :=
      ring.read_congr fun i _ => same _ (ring.after_mem a i)
    obtain ⟨next, length, content, others⟩ := held
    exact ⟨by rw [reads, next], by rw [reads, length], by rw [reads, content],
      ih (ring.after_mem _ _) others⟩

theorem Running.undisturbed (r : Running keep requests v start taken lost slack low full) (same : Undisturbed v u) :
    Running keep requests u start taken lost slack low full := by
  obtain ⟨unread, q⟩ := r.queue
  refine ⟨same.enabled.trans r.on, ⟨unread, ?_⟩, ?_, ?_, ?_, same.txStart.trans r.txStart, ?_,
    same.requested.trans r.sent⟩
  · exact ⟨q.position, same.arrived.trans q.arrived, q.held.congr same.memory q.start_mem,
      same.head.trans q.head, by rw [same.tail]; exact q.room, by rw [same.count]; exact q.counted,
      by rw [same.arrived, same.count, same.decrements]; exact q.history⟩
  · rw [same.decrements]
    exact r.decremented
  · rw [same.count]
    exact r.counted
  · rw [same.count]
    exact fun flagged => r.flagged (same.flags flagged)
  · rw [same.macon2]
    exact r.mac

theorem Running.tail_mem (r : Running keep requests v start taken lost slack low full) : ring.Mem v.tail := by
  obtain ⟨unread, q⟩ := r.queue
  exact q.tail_mem

/-- An instruction on something else, with whatever arrives after it. -/
theorem Controller.keeps (C : Controller S) {s : S} {i : Instr} {u : View}
    (r : Running keep requests (C.view s) start taken lost slack low full) (bound : full ≤ 255)
    (e : effect (C.view s) i = some u) (same : Undisturbed (C.view s) u) :
    Running keep requests (C.view (C.commit s i.frame)) start taken lost slack low full ∧
      Settled u (C.view (C.commit s i.frame)) ∧
      (C.view s).arrived <+: (C.view (C.commit s i.frame)).arrived := by
  have here := r.undisturbed same
  have happened := C.commits s i u e fun _ => here.tail_mem
  have grown := happened.arrived
  rw [same.arrived] at grown
  exact ⟨here.meanwhile bound happened, happened.settled, grown⟩

/-- An instruction that only reads, with whatever arrives after it. -/
theorem Controller.looks (C : Controller S) {s : S} {i : Instr}
    (r : Running keep requests (C.view s) start taken lost slack low full) (bound : full ≤ 255)
    (e : effect (C.view s) i = some (C.view s)) :
    Running keep requests (C.view (C.commit s i.frame)) start taken lost slack low full ∧
      (C.view s).arrived <+: (C.view (C.commit s i.frame)).arrived := by
  obtain ⟨r', -, grown⟩ := C.keeps r bound e
    ⟨fun _ _ => rfl, rfl, rfl, rfl, rfl, id, rfl, rfl, rfl, rfl, rfl⟩
  exact ⟨r', grown⟩

/-- With the receiver off, nothing but flags changes by itself, and not the one of the
counter. -/
structure Off (v u : View) : Prop extends Settled v u where
  head : u.head = v.head
  count : u.count = v.count
  arrived : u.arrived = v.arrived
  flags : u.flags &&& pcfulIf = v.flags &&& pcfulIf

theorem Meanwhile.off (h : Meanwhile v u) (off : v.enabled = false) : Off v u := by
  induction h with
  | refl => exact ⟨Meanwhile.settled .refl, rfl, rfl, rfl, rfl⟩
  | tail before last ih =>
    have settled := Meanwhile.settled (.tail before last)
    cases last with
    | packet p status size on counted room =>
      rw [ih.enabled, off] at on
      cases on
    | raised low high =>
      exact ⟨settled, ih.head, ih.count, ih.arrived, (masked_or _ _ _).trans ih.flags⟩

theorem Controller.off (C : Controller S) {s : S} {i : Instr} {u : View}
    (e : effect (C.view s) i = some u) (off : u.enabled = false) :
    Off u (C.view (C.commit s i.frame)) :=
  (C.commits s i u e fun on => by simp [off] at on).off off

/-- The packet after those taken is the one at `start`. -/
theorem Running.first (r : Running keep requests v start taken lost slack low full)
    (waiting : v.arrived[taken.length]? = some p) :
    ∃ rest, Queue v start taken (p :: rest) slack := by
  obtain ⟨unread, q⟩ := r.queue
  cases unread with
  | nil => simp [q.arrived] at waiting
  | cons next rest =>
    have same : next = p := by simpa [q.arrived] using waiting
    exact ⟨rest, same ▸ q⟩

/-- Counted packets are there. -/
theorem Running.waiting (r : Running keep requests v start taken lost 0 low full) (positive : v.count ≠ 0) :
    ∃ p, v.arrived[taken.length]? = some p := by
  obtain ⟨unread, q⟩ := r.queue
  have counted := q.counted
  have some : v.count.toNat ≠ 0 := fun zero => positive (BitVec.eq_of_toNat_eq zero)
  cases unread with
  | nil =>
    simp only [List.length_nil] at counted
    omega
  | cons p rest => exact ⟨p, by simp [q.arrived]⟩

theorem Running.decrement (r : Running keep requests v start taken lost slack (low + 1) full) :
    effect v (.simple .setPktDec) =
        some { v with count := v.count - 1, decrements := v.decrements + 1 } ∧
      Running keep requests { v with count := v.count - 1, decrements := v.decrements + 1 } start taken
        (lost + (1 - slack)) (slack - 1) low (full - 1) := by
  obtain ⟨unread, q⟩ := r.queue
  have counts := r.counted
  have bound := v.count.isLt
  have nonzero : v.count ≠ 0 := by
    intro zero
    simp [zero] at counts
  have fewer : (v.count - 1).toNat = v.count.toNat - 1 := by
    rw [BitVec.toNat_sub]
    simp
    omega
  refine ⟨by rw [effect, if_neg nonzero], r.on, ⟨unread, ?_⟩, ?_, ?_, ?_, r.txStart, r.mac,
    r.sent⟩
  · have history := q.history
    have counted := q.counted
    refine ⟨q.position, q.arrived, q.held, q.head, q.room, ?_, ?_⟩
    · simp only [fewer]
      omega
    · simp only [fewer]
      omega
  · have decremented := r.decremented
    simp only
    omega
  · simp only [fewer]
    omega
  · intro flagged
    have before := r.flagged flagged
    simp only [fewer]
    omega

end Running

section Reference

/-! A controller of this kind: it stores the next packet of the wire as soon as it can,
and its link changes as planned. -/

variable (wire : List Packet)

/-- The packets that arrived are those of the wire. `status` is the upper byte of the
status, and `links` what it changes to after each frame. -/
structure Reference where
  seen : View
  early : seen.arrived <+: wire
  status : Byte
  links : List (Option Byte)

def View.next (v : View) : Option Packet :=
  if v.enabled ∧ v.count ≠ 255 ∧ v.arrived <+: wire then
    wire[v.arrived.length]?.filter fun p => span p ≤ ring.distance v.head v.tail
  else none

def View.receive (v : View) : View :=
  match v.next wire with
  | some p => v.store p [0, 0, 0, 0]
  | none => v

theorem receive_meanwhile (v : View) : Meanwhile v (v.receive wire) := by
  rw [View.receive]
  split
  · next p found =>
    rw [View.next] at found
    split at found
    · next able =>
      obtain ⟨-, room⟩ := Option.filter_eq_some_iff.mp found
      exact .single (.packet v p _ rfl able.1 able.2.1 (by simpa using room))
    · cases found
  · exact .refl

theorem receive_arrived (v : View) (early : v.arrived <+: wire) : (v.receive wire).arrived <+: wire := by
  rw [View.receive]
  split
  · next p found =>
    rw [View.next] at found
    split at found
    · obtain ⟨there, -⟩ := Option.filter_eq_some_iff.mp found
      obtain ⟨rest, rfl⟩ := early
      rw [List.getElem?_append_right le_rfl, Nat.sub_self] at there
      cases rest with
      | nil => simp at there
      | cons q rest =>
        have same : q = p := by simpa using there
        exact ⟨rest, by simp [View.store, same]⟩
    · cases found
  · exact early

/-- The flag of the link goes up where the link changes. -/
def View.relink (v : View) : Option Byte → View
  | none => v
  | some _ => { v with link := v.link ||| linkIf }

theorem relink_meanwhile (v : View) (change : Option Byte) : Meanwhile v (v.relink change) := by
  cases change with
  | none => exact .refl
  | some status =>
    have raised := Happens.raised v 0 linkIf
    simp only [BitVec.ofNat_eq_ofNat, BitVec.zero_and, BitVec.or_zero] at raised
    exact .single raised

theorem relink_arrived (v : View) (change : Option Byte) : (v.relink change).arrived = v.arrived := by
  cases change <;> rfl

theorem writeRegister_arrived {v u : View} {address low high : Byte}
    (e : v.writeRegister address low high = some u) : u.arrived = v.arrived ∨ u.arrived = [] := by
  simp only [View.writeRegister] at e
  grind

theorem effect_arrived {v u : View} {i : Instr} (e : effect v i = some u) :
    u.arrived = v.arrived ∨ u.arrived = [] := by
  unfold effect at e
  split at e <;> first
    | exact writeRegister_arrived e
    | grind

/-- The byte of the reply that comes with the last byte of the frame so far. -/
def View.answer (v : View) (status : Byte) (sent : List Byte) : Byte :=
  match sent with
  | [] => 0
  | code :: rest =>
    if code = rrxData then v.memory (ring.after v.readPointer (rest.length - 1))
    else if code = estatl then if rest.length = 1 then v.count else status
    else if code = eirl then if rest.length = 1 then v.pending else v.link
    else if rest.length = 2 then v.macon2.1
    else v.macon2.2

def reference : Controller (Reference wire) where
  answer s sent := s.seen.answer s.status sent
  commit s frame :=
    match found : (decode frame).bind (effect s.seen) with
    | none => s
    | some u =>
      { seen := (u.receive wire).relink s.links.head?.join
        early := by
          obtain ⟨i, -, e⟩ := Option.bind_eq_some_iff.mp found
          rw [relink_arrived]
          apply receive_arrived
          rcases effect_arrived e with same | none
          · rw [same]
            exact s.early
          · rw [none]
            exact List.nil_prefix
        status := s.links.head?.join.getD s.status
        links := s.links.tail }
  view s := s.seen
  wire := wire
  on_wire s := s.early
  commits s i v e _ := by
    have found : (decode i.frame).bind (effect s.seen) = some v := by
      rw [decode_frame]
      exact e
    split
    · next none =>
      rw [found] at none
      cases none
    · next u same =>
      rw [found] at same
      cases same
      exact (receive_meanwhile wire v).trans (relink_meanwhile _ _)
  reads_packets s n _ := by
    rw [answers_zeros]
    apply List.map_congr_left
    intro i _
    simp [View.answer, zeros]
  reads_count s := by
    rw [answers_zeros]
    rfl
  reads_flags s := by
    rw [answers_zeros]
    rfl
  reads_macon2 s := by
    rw [answers_zeros]
    rfl

/-- Before the driver has set anything up; the register of the MAC is as `hw_init` leaves it. -/
def powerUp (links : List (Option Byte)) : Reference wire where
  seen :=
    { memory := fun _ => 0
      readPointer := 0
      writePointer := 0
      head := 0
      tail := 0
      count := 0
      enabled := false
      flags := 0
      link := 0
      txStart := 0
      txLength := 0
      macon2 := (0xb0, 0x40)
      arrived := []
      decrements := 0
      requested := [] }
  early := List.nil_prefix
  status := 0
  links := links

end Reference

end AsdPre.EthController
