import AsdPre.ByteMemory
import AsdPre.OnesComplement

/-! The Internet checksum as the network stack computes it: two bytes at a time from
aligned addresses, over a chain of buffers of any lengths at any addresses, with the
carries folded back in and the bytes exchanged where the alignment changes. -/
namespace AsdPre.InetChksum

open ByteMemory OnesComplement

/-- `FOLD_U32T` -/
def foldU32T (u : Nat) : Nat := fold 65536 u

/-- `SWAP_BYTES_IN_WORD` and `htons` -/
def swapBytesInWord (w : Nat) : Nat := swap 256 w

/-- The loop of `lwip_standard_chksum`; the byte left over, if any. -/
def bulk (sum : Nat) : List Byte → Nat × List Byte
  | b₀ :: b₁ :: rest => bulk ((sum + (b₀.toNat + 256 * b₁.toNat)) % 2 ^ 32) rest
  | rest => (sum, rest)

/-- The first byte of data at an odd address, and the data from an even address on. -/
def align : Bool → List Byte → Byte × List Byte
  | true, b :: rest => (b, rest)
  | _, data => (0, data)

/-- Version 2, the one that is built; `odd` is the lowest bit of the address. -/
def lwipStandardChksum (odd : Bool) (data : List Byte) : Nat :=
  let (high, data) := align odd data
  let (sum, left) := bulk 0 data
  let t := (left.headD 0).toNat + 256 * high.toNat
  let sum := (sum + t) % 2 ^ 32
  let sum := foldU32T sum
  let sum := foldU32T sum
  let sum := if odd then swapBytesInWord sum else sum
  sum % 2 ^ 16

/-- A buffer of a chain, with the lowest bit of its address; `len` has 16 bits. -/
structure Pbuf where
  odd : Bool
  payload : List Byte
  short : payload.length < 2 ^ 16

def bytes (chain : List Pbuf) : List Byte := chain.flatMap Pbuf.payload

/-- One buffer: the sum, and whether its bytes are exchanged. -/
def addPbuf (s : Nat × Bool) (q : Pbuf) : Nat × Bool :=
  let acc := (s.1 + lwipStandardChksum q.odd q.payload) % 2 ^ 32
  let acc := foldU32T acc
  if q.payload.length % 2 ≠ 0 then (swapBytesInWord acc, !s.2) else (acc, s.2)

def addChain (acc : Nat) (p : List Pbuf) : Nat :=
  let (acc, swapped) := p.foldl addPbuf (acc, false)
  if swapped then swapBytesInWord acc else acc

/-- `(u16_t)~(acc & 0xffffUL)` -/
def complement (acc : Nat) : Nat := 65535 - acc % 65536

def inetCksumPseudoBase (p : List Pbuf) (proto : Byte) (protoLen : BitVec 16) (acc : Nat) : Nat :=
  let acc := addChain acc p
  let acc := (acc + swapBytesInWord proto.toNat) % 2 ^ 32
  let acc := (acc + swapBytesInWord protoLen.toNat) % 2 ^ 32
  complement (foldU32T (foldU32T acc))

/-- The addresses are in network order, so the first byte is the lowest. -/
def inetChksumPseudo (p : List Pbuf) (proto : Byte) (protoLen : BitVec 16) (src dest : BitVec 32) : Nat :=
  let acc := src.toNat % 65536
  let acc := acc + src.toNat / 65536 % 65536
  let acc := acc + dest.toNat % 65536
  let acc := acc + dest.toNat / 65536 % 65536
  inetCksumPseudoBase p proto protoLen (foldU32T (foldU32T acc))

def inetChksum (odd : Bool) (data : List Byte) : Nat := complement (lwipStandardChksum odd data)

def inetChksumPbuf (p : List Pbuf) : Nat := complement (addChain 0 p)

section Sums

/-! What each step stands for: a string of bytes as a number, the first byte lowest. -/

theorem ofLe_append (a b : List Byte) : ofLe (a ++ b) = ofLe a + 256 ^ a.length * ofLe b := by
  induction a with
  | nil => simp [ofLe]
  | cons x rest ih =>
    simp only [List.cons_append, ofLe, ih, List.length_cons]
    ring

theorem same_word (n : Nat) : Same 65536 (65536 * n) n := same_carry (by decide) n

theorem same_foldU32T (u : Nat) : Same 65536 (foldU32T u) u := same_fold (by decide) u

theorem same_swapBytes {w : Nat} (word : w < 65536) : Same 65536 (swapBytesInWord w) (256 * w) :=
  same_swap (by decide) word

theorem swapBytes_lt (w : Nat) : swapBytesInWord w < 65536 := swap_lt (by decide) w

theorem same_byteShift (k n : Nat) : Same 65536 (256 ^ k * n) (256 ^ (k % 2) * n) := same_pow (by decide) k n

theorem same_shifts {k l : Nat} (parity : k % 2 = l % 2) (n : Nat) : Same 65536 (256 ^ k * n) (256 ^ l * n) := by
  refine (same_byteShift k n).trans ?_
  rw [parity]
  exact (same_byteShift l n).symm

theorem same_evenShift {k : Nat} (even : k % 2 = 0) (n : Nat) : Same 65536 (256 ^ k * n) n := by
  simpa using same_shifts (l := 0) even n

/-- Two folds take any 32-bit sum to a word. -/
theorem foldU32T_twice {u : Nat} (small : u < 2 ^ 32) :
    foldU32T (foldU32T u) < 65536 ∧ Same 65536 (foldU32T (foldU32T u)) u := by
  have once : foldU32T u ≤ 2 * (65536 - 1) := fold_le_twice (by omega)
  have twice : foldU32T (foldU32T u) ≤ 65536 - 1 := fold_le (by decide) once
  exact ⟨by omega, (same_foldU32T _).trans (same_foldU32T _)⟩

theorem bulk_spec (sum : Nat) (data : List Byte) (room : sum + 65535 * (data.length / 2) < 2 ^ 32) :
    ∃ sum' left, bulk sum data = (sum', left) ∧ sum' ≤ sum + 65535 * (data.length / 2) ∧
      ofLe left = (left.headD 0).toNat ∧ Same 65536 (sum' + ofLe left) (sum + ofLe data) := by
  induction sum, data using bulk.induct with
  | case1 sum b₀ b₁ rest ih =>
    have low := b₀.isLt
    have high := b₁.isLt
    have longer : (b₀ :: b₁ :: rest).length / 2 = rest.length / 2 + 1 := by
      simp only [List.length_cons]
      omega
    rw [longer] at room ⊢
    have word : (sum + (b₀.toNat + 256 * b₁.toNat)) % 2 ^ 32 = sum + (b₀.toNat + 256 * b₁.toNat) :=
      Nat.mod_eq_of_lt (by omega)
    rw [bulk]
    rw [word] at ih ⊢
    obtain ⟨sum', left, rest', bound, single, same⟩ := ih (by omega)
    refine ⟨sum', left, rest', by omega, single, same.trans ?_⟩
    have value : sum + ofLe (b₀ :: b₁ :: rest) =
        sum + (b₀.toNat + 256 * b₁.toNat) + 65536 * ofLe rest := by
      simp only [ofLe]
      ring
    rw [value]
    exact (Same.refl _).add (same_word _).symm
  | case2 sum data short =>
    rw [bulk.eq_2 sum data short]
    refine ⟨sum, data, rfl, Nat.le_add_right _ _, ?_, .refl _⟩
    cases data with
    | nil => rfl
    | cons b rest =>
      cases rest with
      | nil => simp [ofLe]
      | cons b' rest => exact absurd rfl (short b b' rest)

/-- The bytes before and after the aligned words are the two halves of one more word. -/
theorem aligned_spec (high : Byte) (data : List Byte) (short : data.length < 2 ^ 16) :
    ∃ sum left, bulk 0 data = (sum, left) ∧
      let u := foldU32T (foldU32T ((sum + ((left.headD 0).toNat + 256 * high.toNat)) % 2 ^ 32))
      u < 65536 ∧ Same 65536 u (ofLe data + 256 * high.toNat) := by
  obtain ⟨sum, left, split, bound, single, same⟩ := bulk_spec 0 data (by omega)
  refine ⟨sum, left, split, ?_⟩
  have low := (left.headD 0).isLt
  have top := high.isLt
  rw [Nat.mod_eq_of_lt (by omega)]
  obtain ⟨word, folded⟩ := foldU32T_twice (u := sum + ((left.headD 0).toNat + 256 * high.toNat)) (by omega)
  refine ⟨word, folded.trans ?_⟩
  rw [single, Nat.zero_add] at same
  rw [← Nat.add_assoc]
  exact same.add (.refl _)

/-- Wherever the data lies, its sum is that of the words counted from its first byte. -/
theorem standard_spec (odd : Bool) (data : List Byte) (short : data.length < 2 ^ 16) :
    lwipStandardChksum odd data < 65536 ∧ Same 65536 (lwipStandardChksum odd data) (ofLe data) := by
  cases odd with
  | false =>
    obtain ⟨sum, left, split, word, same⟩ := aligned_spec 0 data short
    have value : lwipStandardChksum false data =
        foldU32T (foldU32T ((sum + ((left.headD 0).toNat + 256 * (0 : Byte).toNat)) % 2 ^ 32)) := by
      simp only [lwipStandardChksum, align, split, Bool.false_eq_true, if_false]
      exact Nat.mod_eq_of_lt word
    rw [value]
    exact ⟨word, by simpa using same⟩
  | true =>
    cases data with
    | nil => exact ⟨by decide, ⟨rfl, by decide⟩⟩
    | cons b rest =>
      obtain ⟨sum, left, split, word, same⟩ := aligned_spec b rest (by simp only [List.length_cons] at short; omega)
      have value : lwipStandardChksum true (b :: rest) =
          swapBytesInWord (foldU32T (foldU32T ((sum + ((left.headD 0).toNat + 256 * b.toNat)) % 2 ^ 32))) := by
        simp only [lwipStandardChksum, align, split, if_true]
        exact Nat.mod_eq_of_lt (swapBytes_lt _)
      rw [value]
      refine ⟨swapBytes_lt _, (same_swapBytes word).trans ((same.mul 256).trans ?_)⟩
      have shifted : 256 * (ofLe rest + 256 * b.toNat) = 65536 * b.toNat + 256 * ofLe rest := by ring
      rw [shifted, ofLe]
      exact (same_word _).add (.refl _)

end Sums

section Chains

/-- The sum after the buffers of `done`, which is shifted by a byte as long as an odd number of
bytes has been added. -/
structure Summed (start : Nat) (done : List Byte) (s : Nat × Bool) : Prop where
  word : s.1 < 65536
  swapped : s.2 = (done.length % 2 == 1)
  same : Same 65536 s.1 (256 ^ done.length * (start + ofLe done))

theorem Summed.addPbuf {start : Nat} {done : List Byte} {s : Nat × Bool} (h : Summed start done s) (q : Pbuf) :
    Summed start (done ++ q.payload) (addPbuf s q) := by
  obtain ⟨word, same⟩ := standard_spec q.odd q.payload q.short
  have small := h.word
  have whole : (s.1 + lwipStandardChksum q.odd q.payload) % 2 ^ 32 = s.1 + lwipStandardChksum q.odd q.payload :=
    Nat.mod_eq_of_lt (by omega)
  have folded : foldU32T (s.1 + lwipStandardChksum q.odd q.payload) ≤ 65536 - 1 := fold_le (by decide) (by omega)
  have total : Same 65536 (foldU32T (s.1 + lwipStandardChksum q.odd q.payload))
      (256 ^ done.length * (start + ofLe (done ++ q.payload))) := by
    refine (same_foldU32T _).trans ((h.same.add same).trans ?_)
    rw [ofLe_append, ← Nat.add_assoc, Nat.mul_add _ (start + ofLe done), ← Nat.mul_assoc, ← Nat.pow_add]
    exact (Same.refl _).add (same_evenShift (by omega) _).symm
  unfold InetChksum.addPbuf
  rw [whole]
  by_cases odd : q.payload.length % 2 ≠ 0
  · rw [if_pos odd]
    refine ⟨swapBytes_lt _, ?_, (same_swapBytes (by omega)).trans ((total.mul 256).trans ?_)⟩
    · rw [h.swapped, List.length_append]
      rcases Nat.mod_two_eq_zero_or_one done.length with even | odd'
      · have parity : (done.length + q.payload.length) % 2 = 1 := by omega
        rw [even, parity]
        rfl
      · have parity : (done.length + q.payload.length) % 2 = 0 := by omega
        rw [odd', parity]
        rfl
    · rw [← Nat.mul_assoc, ← Nat.pow_succ']
      exact same_shifts (by rw [List.length_append]; omega) _
  · rw [if_neg odd]
    have parity : (done ++ q.payload).length % 2 = done.length % 2 := by
      rw [List.length_append]
      omega
    refine ⟨?_, ?_, total.trans (same_shifts parity.symm _)⟩
    · show foldU32T _ < 65536
      omega
    · rw [parity]
      exact h.swapped

theorem Summed.addChain {start : Nat} {done : List Byte} {s : Nat × Bool} (h : Summed start done s) (p : List Pbuf) :
    Summed start (done ++ bytes p) (p.foldl InetChksum.addPbuf s) := by
  induction p generalizing done s with
  | nil => simpa [bytes] using h
  | cons q rest ih =>
    have next := ih (h.addPbuf q)
    rwa [List.append_assoc] at next

/-- However the bytes are spread over buffers, their sum is that of one string. -/
theorem addChain_spec {start : Nat} (word : start < 65536) (p : List Pbuf) :
    addChain start p < 65536 ∧ Same 65536 (addChain start p) (start + ofLe (bytes p)) := by
  have first : Summed start [] (start, false) := ⟨word, rfl, by simp [ofLe, Same.refl]⟩
  have last := first.addChain p
  rw [List.nil_append] at last
  unfold addChain
  rcases ended : p.foldl addPbuf (start, false) with ⟨acc, swapped⟩
  rw [ended] at last
  obtain ⟨small, flag, same⟩ := last
  simp only at small flag same ⊢
  rcases Nat.mod_two_eq_zero_or_one (bytes p).length with even | odd
  · rw [even] at flag
    subst flag
    exact ⟨small, same.trans (same_evenShift even _)⟩
  · rw [odd] at flag
    subst flag
    refine ⟨swapBytes_lt _, (same_swapBytes small).trans ((same.mul 256).trans ?_)⟩
    rw [← Nat.mul_assoc, ← Nat.pow_succ']
    exact same_evenShift (by omega) _

end Chains

section Packets

/-- The sum of a string of bytes, word by word with each carry added in at once. -/
def plainSum : List Byte → Nat
  | [] => 0
  | [b] => b.toNat
  | b₀ :: b₁ :: rest => fold 65536 (b₀.toNat + 256 * b₁.toNat + plainSum rest)

/-- The pseudo header as the protocol has it: addresses, zero, protocol and length. -/
def pseudoHeader (proto : Byte) (protoLen : BitVec 16) (src dest : BitVec 32) : List Byte :=
  leBytes 4 src.toNat ++ leBytes 4 dest.toNat ++
    [0, proto, BitVec.ofNat 8 (protoLen.toNat / 256), BitVec.ofNat 8 protoLen.toNat]

theorem plainSum_spec (data : List Byte) : plainSum data ≤ 65535 ∧ Same 65536 (plainSum data) (ofLe data) := by
  induction data using plainSum.induct with
  | case1 => exact ⟨by decide, .refl _⟩
  | case2 b =>
    have := b.isLt
    exact ⟨by rw [plainSum]; omega, by simp [plainSum, ofLe, Same.refl]⟩
  | case3 b₀ b₁ rest ih =>
    have low := b₀.isLt
    have high := b₁.isLt
    rw [plainSum]
    refine ⟨fold_le (by decide) (by omega), (same_fold (by decide) _).trans ?_⟩
    have value : ofLe (b₀ :: b₁ :: rest) = b₀.toNat + 256 * b₁.toNat + 65536 * ofLe rest := by
      simp only [ofLe]
      ring
    rw [value]
    exact (Same.refl _).add (ih.2.trans (same_word _).symm)

theorem eq_plainSum {sum : Nat} {data : List Byte} (word : sum < 65536) (same : Same 65536 sum (ofLe data)) :
    sum = plainSum data := by
  obtain ⟨word', same'⟩ := plainSum_spec data
  exact (same.trans same'.symm).eq (Nat.le_of_lt_succ word) word'

variable {proto : Byte} {protoLen : BitVec 16} {src dest : BitVec 32}

theorem length_pseudoHeader : (pseudoHeader proto protoLen src dest).length = 12 := by simp [pseudoHeader]

theorem same_address (a : BitVec 32) : Same 65536 (a.toNat % 65536 + a.toNat / 65536 % 65536) (ofLe (leBytes 4 a.toNat)) := by
  have top : a.toNat / 65536 % 65536 = a.toNat / 65536 := Nat.mod_eq_of_lt (by have := a.isLt; omega)
  have whole : ofLe (leBytes 4 a.toNat) = a.toNat := by
    rw [ofLe_leBytes]
    exact Nat.mod_eq_of_lt a.isLt
  rw [top, whole, Nat.add_comm]
  exact same_foldU32T a.toNat

theorem ofLe_tail : ofLe [0, proto, BitVec.ofNat 8 (protoLen.toNat / 256), BitVec.ofNat 8 protoLen.toNat] =
    swapBytesInWord proto.toNat + 65536 * swapBytesInWord protoLen.toNat := by
  have small := proto.isLt
  have short := protoLen.isLt
  have zero : (0 : Byte).toNat = 0 := rfl
  simp only [ofLe, swapBytesInWord, swap, BitVec.toNat_ofNat, zero]
  omega

theorem same_pseudoHeader (data : List Byte) :
    Same 65536 (ofLe (pseudoHeader proto protoLen src dest ++ data))
      ((src.toNat % 65536 + src.toNat / 65536 % 65536) + (dest.toNat % 65536 + dest.toNat / 65536 % 65536) +
        (swapBytesInWord proto.toNat + swapBytesInWord protoLen.toNat) + ofLe data) := by
  rw [ofLe_append, length_pseudoHeader, pseudoHeader, ofLe_append, ofLe_append, ofLe_tail]
  refine (((same_address src).symm.add ?_).add ?_).add (same_evenShift (by decide) _)
  · exact (same_evenShift (by simp) _).trans (same_address dest).symm
  · exact (same_evenShift (by simp) _).trans ((Same.refl _).add (same_word _))

theorem inetCksumPseudoBase_spec {start : Nat} (word : start < 65536) (p : List Pbuf) (proto : Byte)
    (protoLen : BitVec 16) : ∃ sum, sum ≤ 65535 ∧
      Same 65536 sum (start + ofLe (bytes p) + (swapBytesInWord proto.toNat + swapBytesInWord protoLen.toNat)) ∧
      inetCksumPseudoBase p proto protoLen start = 65535 - sum := by
  obtain ⟨small, chain⟩ := addChain_spec word p
  have first := swapBytes_lt proto.toNat
  have second := swapBytes_lt protoLen.toNat
  obtain ⟨low, same⟩ := foldU32T_twice
    (u := addChain start p + swapBytesInWord proto.toNat + swapBytesInWord protoLen.toNat) (by omega)
  refine ⟨_, Nat.le_of_lt_succ low, same.trans ?_, ?_⟩
  · rw [Nat.add_assoc]
    exact chain.add (.refl _)
  · simp only [inetCksumPseudoBase, complement]
    have one : addChain start p + swapBytesInWord proto.toNat < 2 ^ 32 := by omega
    have two : addChain start p + swapBytesInWord proto.toNat + swapBytesInWord protoLen.toNat < 2 ^ 32 := by omega
    rw [Nat.mod_eq_of_lt one, Nat.mod_eq_of_lt two, Nat.mod_eq_of_lt low]

/-- The sum that is complemented is that of the pseudo header and the data. -/
theorem inetChksumPseudo_spec (p : List Pbuf) (proto : Byte) (protoLen : BitVec 16) (src dest : BitVec 32) :
    ∃ sum, sum ≤ 65535 ∧ Same 65536 sum (ofLe (pseudoHeader proto protoLen src dest ++ bytes p)) ∧
      inetChksumPseudo p proto protoLen src dest = 65535 - sum := by
  have addresses := foldU32T_twice (u := src.toNat % 65536 + src.toNat / 65536 % 65536 +
    dest.toNat % 65536 + dest.toNat / 65536 % 65536) (by omega)
  obtain ⟨sum, word, same, value⟩ := inetCksumPseudoBase_spec addresses.1 p proto protoLen
  refine ⟨sum, word, same.trans (.trans ?_ (same_pseudoHeader (bytes p)).symm), value⟩
  rw [Nat.add_right_comm, ← Nat.add_assoc (src.toNat % 65536 + _)]
  exact (addresses.2.add (.refl _)).add (.refl _)

/-- However the bytes of a packet are spread over buffers and wherever these lie, the checksum is
the complement of the plain sum over the pseudo header and the packet. -/
theorem checksum_of_packet (p : List Pbuf) (proto : Byte) (protoLen : BitVec 16) (src dest : BitVec 32) :
    inetChksumPseudo p proto protoLen src dest =
      65535 - plainSum (pseudoHeader proto protoLen src dest ++ bytes p) := by
  obtain ⟨sum, word, same, value⟩ := inetChksumPseudo_spec p proto protoLen src dest
  rw [value, eq_plainSum (Nat.lt_succ_of_le word) same]

theorem inetChksumPbuf_eq (p : List Pbuf) : inetChksumPbuf p = 65535 - plainSum (bytes p) := by
  obtain ⟨word, same⟩ := addChain_spec (Nat.zero_lt_succ 65535) p
  rw [Nat.zero_add] at same
  rw [inetChksumPbuf, complement, Nat.mod_eq_of_lt word, eq_plainSum word same]

theorem inetChksum_eq (odd : Bool) {data : List Byte} (short : data.length < 2 ^ 16) :
    inetChksum odd data = 65535 - plainSum data := by
  obtain ⟨word, same⟩ := standard_spec odd data short
  rw [inetChksum, complement, Nat.mod_eq_of_lt word, eq_plainSum word same]

theorem accepted_iff (p : List Pbuf) : inetChksumPseudo p proto protoLen src dest = 0 ↔
    Same 65536 (ofLe (pseudoHeader proto protoLen src dest ++ bytes p)) 65535 := by
  obtain ⟨sum, word, same, value⟩ := inetChksumPseudo_spec p proto protoLen src dest
  rw [value]
  constructor
  · intro zero
    have full : sum = 65535 := by omega
    rw [← full]
    exact same.symm
  · intro full
    rw [(same.trans full).eq word (by decide)]

/-- A word in the middle of the data adds what it is worth, if it lies at an even offset. -/
theorem same_field {before after : List Byte} (even : before.length % 2 = 0) {w : Nat} (word : w < 65536) :
    Same 65536 (ofLe (pseudoHeader proto protoLen src dest ++ (before ++ leBytes 2 w ++ after)))
      (w + ofLe (pseudoHeader proto protoLen src dest ++ (before ++ [0, 0] ++ after))) := by
  have digits : ofLe (leBytes 2 w) = w := by
    rw [ofLe_leBytes]
    exact Nat.mod_eq_of_lt word
  have none : ofLe [0, 0] = 0 := by decide
  have value : ofLe (pseudoHeader proto protoLen src dest ++ (before ++ leBytes 2 w ++ after)) =
      256 ^ (12 + before.length) * w + ofLe (pseudoHeader proto protoLen src dest ++ (before ++ [0, 0] ++ after)) := by
    simp only [ofLe_append, length_pseudoHeader, digits, none, List.length_append, length_leBytes,
      List.length_cons, List.length_nil]
    ring
  rw [value]
  exact (same_evenShift (by omega) _).add (.refl _)

/-- A packet sent with its checksum in place of the zeros it was computed over is accepted, however
the two ends spread it over buffers. -/
theorem sent_packet_accepted {p q : List Pbuf} {before after : List Byte} (even : before.length % 2 = 0)
    (blank : bytes p = before ++ [0, 0] ++ after)
    (filled : bytes q = before ++ leBytes 2 (inetChksumPseudo p proto protoLen src dest) ++ after) :
    inetChksumPseudo q proto protoLen src dest = 0 := by
  obtain ⟨sum, word, same, value⟩ := inetChksumPseudo_spec p proto protoLen src dest
  rw [accepted_iff, filled, value]
  refine (same_field even (by omega)).trans ?_
  rw [← blank]
  have total := (Same.refl (65535 - sum)).add same.symm
  rwa [Nat.sub_add_cancel word] at total

theorem sent_packet_accepted_split :
    inetChksumPseudo [⟨true, [1], by decide⟩, ⟨true, [2, 120, 158, 3], by decide⟩] 6 5 0x0101a8c0 0x0201a8c0 = 0 := by
  have even : ([1, 2] : List Byte).length % 2 = 0 := by decide
  have blank : bytes [⟨false, [1, 2, 0, 0, 3], by decide⟩] = [1, 2] ++ [0, 0] ++ [3] := by decide
  exact sent_packet_accepted even blank (by decide)

theorem pseudoHeader_positive (known : proto ≠ 0) (protoLen : BitVec 16) (src dest : BitVec 32) (data : List Byte) :
    ofLe (pseudoHeader proto protoLen src dest ++ data) ≠ 0 := by
  intro zero
  have parts := (same_pseudoHeader data).2.mp zero
  have empty : swapBytesInWord proto.toNat = 0 := by omega
  have small := proto.isLt
  have nothing : proto.toNat = 0 := by
    simp only [swapBytesInWord, swap] at empty
    omega
  exact known (BitVec.eq_of_toNat_eq nothing)

theorem modEq_words (w w' : BitVec 16) :
    w'.toNat ≡ w.toNat [MOD 65535] ↔ w' = w ∨ w = 0 ∧ w' = 0xffff ∨ w = 0xffff ∧ w' = 0 := by
  have small := w.isLt
  have small' := w'.isLt
  have zero : (0 : BitVec 16).toNat = 0 := rfl
  have top : (0xffff : BitVec 16).toNat = 65535 := rfl
  simp only [← BitVec.toNat_inj, Nat.ModEq, zero, top]
  omega

/-- Of the changes to one word of an accepted packet, only that between the two zeros of ones'
complement goes unnoticed. -/
theorem change_unnoticed_iff {p q : List Pbuf} {before after : List Byte} {w w' : BitVec 16} (known : proto ≠ 0)
    (even : before.length % 2 = 0) (sent : bytes p = before ++ leBytes 2 w.toNat ++ after)
    (received : bytes q = before ++ leBytes 2 w'.toNat ++ after)
    (accepted : inetChksumPseudo p proto protoLen src dest = 0) :
    inetChksumPseudo q proto protoLen src dest = 0 ↔ w' = w ∨ w = 0 ∧ w' = 0xffff ∨ w = 0xffff ∧ w' = 0 := by
  have rest := pseudoHeader_positive known protoLen src dest (before ++ [0, 0] ++ after)
  rw [accepted_iff, sent] at accepted
  have first := (same_field even w.isLt).symm.trans accepted
  rw [accepted_iff, received, ← modEq_words]
  constructor
  · intro full
    have second := (same_field even w'.isLt).symm.trans full
    exact (second.1.trans first.1.symm).add_right_cancel' _
  · intro same
    refine (same_field even w'.isLt).trans ⟨?_, by omega⟩
    exact (same.add_right _).trans first.1

theorem change_unnoticed_iff_word :
    inetChksumPseudo [⟨false, [1, 2, 120, 158, 3, 0], by decide⟩] 6 5 0x0101a8c0 0x0201a8c0 = 0 ∧
      inetChksumPseudo [⟨false, [1, 3, 120, 158, 3, 0], by decide⟩] 6 5 0x0101a8c0 0x0201a8c0 ≠ 0 := by
  have even : ([] : List Byte).length % 2 = 0 := by decide
  have sent : bytes [⟨false, [1, 2, 120, 158, 3, 0], by decide⟩] =
      [] ++ leBytes 2 (0x0201#16).toNat ++ [120, 158, 3, 0] := by decide
  have received : bytes [⟨false, [1, 3, 120, 158, 3, 0], by decide⟩] =
      [] ++ leBytes 2 (0x0301#16).toNat ++ [120, 158, 3, 0] := by decide
  have accepted : inetChksumPseudo [⟨false, [1, 2, 120, 158, 3, 0], by decide⟩] 6 5 0x0101a8c0 0x0201a8c0 = 0 := by
    decide
  have exact_condition := change_unnoticed_iff (by decide) even sent received accepted
  exact ⟨accepted, fun unnoticed => absurd (exact_condition.mp unnoticed) (by decide)⟩

end Packets

end AsdPre.InetChksum
