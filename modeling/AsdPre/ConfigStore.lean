import AsdPre.ByteMemory

/-! The configuration store, byte by byte. `configMem` is an array of 64-byte
lines, an 8-byte id and a 56-byte value union; line 0 holds the flash header. The
flash page is erased and rewritten as a whole by every flush. Ids and values are
given to `strcpy` and `strncmp` as the source gives them, terminators included. -/
namespace AsdPre.ConfigStore

open ByteMemory

/-- `CONFIG_FLASH_SIZE`, `ID_SIZE`, `VALUE_SIZE`, `sizeof(struct configLine)` and `CONFIG_LINES`. -/
abbrev flashSize : Nat := 2048
abbrev idSize : Nat := 8
abbrev valueSize : Nat := 56
abbrev lineSize : Nat := 64
abbrev configLines : Nat := 32

/-- `CONFIG_FLASH_ID` and `CONFIG_FLASH_VERSION`. -/
def flashId : CString := ⟨ascii "ASD", by decide⟩
def flashVersion : CString := ⟨ascii "1", by decide⟩

/-- `configMem` and the page at `CONFIG_FLASH_ADDRESS`, each addressed from its start. -/
structure Config where
  mem : Memory
  flash : Memory

/-- Offsets of `configMem[i].id` and `configMem[i].value`. -/
def idAddr (i : Nat) : Nat := lineSize * i
def valueAddr (i : Nat) : Nat := lineSize * i + idSize

/-- `MSC_ErasePage` leaves every byte of the page at 0xFF. -/
def erasePage (flash : Memory) : Memory := fun a => if a < flashSize then 0xff#8 else flash a

/-- `MSC_WriteWord` after the first `n` words, written in ascending order. -/
def writeWords (flash mem : Memory) (n : Nat) : Memory := memcpy flash mem (4 * n)

def flushConfig (c : Config) : Config :=
  { c with flash := writeWords (erasePage c.flash) c.mem (flashSize / 4) }

/-- One round of the loop that empties the lines of a fresh store. -/
def clearLine (m : Memory) (i : Nat) : Memory :=
  write (write m (idAddr i) [0#8]) (valueAddr i) [0#8]

/-- The memory that initialisation builds from what was read from flash. -/
def freshMem (m : Memory) : Memory :=
  (List.range' 1 (configLines - 1)).foldl clearLine
    (strcpy (strcpy m (idAddr 0) flashId) (valueAddr 0) flashVersion)

/-- The header test of `configInit`. -/
def headerMatches (m : Memory) : Bool :=
  strncmp (fun i => m (idAddr 0 + i)) flashId.char flashId.length = 0

def configInit (c : Config) : Config :=
  let mem := memcpy c.mem c.flash flashSize
  if headerMatches mem then
    { c with mem := mem }
  else
    flushConfig { c with mem := freshMem mem }

/-- The loops of `getLine` and `getFreeLine`: the first line that qualifies. -/
def findLine (p : Nat → Bool) : Option Nat := (List.range' 1 (configLines - 1)).find? p

def getLine (m : Memory) (id : CString) : Option Nat :=
  findLine fun i => strncmp (fun j => m (idAddr i + j)) id.char 8 = 0

def getFreeLine (m : Memory) : Option Nat := findLine fun i => m (idAddr i) = 0#8

def configExists (m : Memory) (id : CString) : Bool := (getLine m id).isSome

def getInt16 (m : Memory) (id : CString) : BitVec 16 :=
  match getLine m id with
  | some i => BitVec.ofNat 16 (ofLe (read m (valueAddr i) 2))
  | none => 0

def getUint32 (m : Memory) (id : CString) : BitVec 32 :=
  match getLine m id with
  | some i => BitVec.ofNat 32 (ofLe (read m (valueAddr i) 4))
  | none => 0

/-- A double is its bit pattern. -/
def getDouble (m : Memory) (id : CString) : BitVec 64 :=
  match getLine m id with
  | some i => BitVec.ofNat 64 (ofLe (read m (valueAddr i) 8))
  | none => 0

/-- A pointer to the value, or NULL. -/
def getString (m : Memory) (id : CString) : Option Nat := (getLine m id).map valueAddr

/-- The line a setter writes: the id's own, else a free one. -/
def targetLine (m : Memory) (id : CString) : Option Nat := (getLine m id).or (getFreeLine m)

/-- What all four setters do once their arguments are checked. -/
def putLine (m : Memory) (id : CString) (value : List Byte) : Memory :=
  match targetLine m id with
  | some i => write (strcpy m (idAddr i) id) (valueAddr i) value
  | none => m

/-- A setter for a fixed-size value; the error is the text given to `panic`, which
does not return. -/
def setValue (c : Config) (id : CString) (value : List Byte) : Except String Config :=
  if id.length > idSize then .error "Config id length"
  else .ok { c with mem := putLine c.mem id value }

def setInt16 (c : Config) (id : CString) (val : BitVec 16) : Except String Config :=
  setValue c id (leBytes 2 val.toNat)

def setUint32 (c : Config) (id : CString) (val : BitVec 32) : Except String Config :=
  setValue c id (leBytes 4 val.toNat)

def setDouble (c : Config) (id : CString) (val : BitVec 64) : Except String Config :=
  setValue c id (leBytes 8 val.toNat)

/-- The string setter checks its value as well. Copying the id and then the value
is `putLine` with the value's terminator. -/
def setString (c : Config) (id s : CString) : Except String Config :=
  if id.length > idSize then .error "Config id length"
  else if s.length ≥ valueSize then .error "Config value length"
  else .ok { c with mem := putLine c.mem id (s.bytes ++ [0#8]) }

def clearConfig (c : Config) : Config :=
  configInit (flushConfig { c with mem := write c.mem (idAddr 0) [0#8] })

/-- A restart loses `configMem` and keeps the flash. -/
def reboot (c : Config) (mem : Memory) : Config := configInit { c with mem := mem }

/-- The lines that hold entries; line 0 is the header. -/
def IsLine (i : Nat) : Prop := 1 ≤ i ∧ i < configLines

/-- The id of a line, cut at its terminator or at eight characters. -/
def lineId (m : Memory) (i : Nat) : List Byte := fieldString m (idAddr i) idSize

theorem lineId_eq_nil (m : Memory) (i : Nat) : lineId m i = [] ↔ m (idAddr i) = 0#8 :=
  fieldString_eq_nil m _ _ (by decide)

theorem mem_range'_isLine : i ∈ List.range' 1 (configLines - 1) ↔ IsLine i := by
  simp only [List.mem_range'_1, IsLine, configLines]

theorem findLine_eq_some {p : Nat → Bool} :
    findLine p = some i ↔ IsLine i ∧ p i = true ∧ ∀ j, IsLine j → j < i → p j = false := by
  rw [findLine, List.find?_range'_eq_some, mem_range'_isLine]
  constructor
  · rintro ⟨found, line, first⟩
    exact ⟨line, found, fun j inside before => by simpa using first j inside.1 before⟩
  · rintro ⟨line, found, first⟩
    refine ⟨found, line, fun j low before => ?_⟩
    simpa using first j ⟨low, Nat.lt_trans before line.2⟩ before

theorem findLine_eq_none {p : Nat → Bool} : findLine p = none ↔ ∀ i, IsLine i → p i = false := by
  simp only [findLine, List.find?_eq_none, mem_range'_isLine, Bool.not_eq_true]

theorem getLine_match (m : Memory) (id : CString) (i : Nat) (short : id.length ≤ idSize) :
    strncmp (fun j => m (idAddr i + j)) id.char 8 = 0 ↔ lineId m i = id.bytes :=
  strncmp_eq_zero m (idAddr i) 8 id short

theorem getLine_eq_some (m : Memory) (id : CString) (i : Nat) (short : id.length ≤ idSize) :
    getLine m id = some i ↔
      IsLine i ∧ lineId m i = id.bytes ∧ ∀ j, IsLine j → j < i → lineId m j ≠ id.bytes := by
  simp only [getLine, findLine_eq_some, getLine_match m id _ short, decide_eq_true_eq,
    decide_eq_false_iff_not, ne_eq]

theorem getLine_eq_none (m : Memory) (id : CString) (short : id.length ≤ idSize) :
    getLine m id = none ↔ ∀ i, IsLine i → lineId m i ≠ id.bytes := by
  simp only [getLine, findLine_eq_none, getLine_match m id _ short, decide_eq_false_iff_not, ne_eq]

theorem getFreeLine_eq_none (m : Memory) :
    getFreeLine m = none ↔ ∀ i, IsLine i → lineId m i ≠ [] := by
  simp only [getFreeLine, findLine_eq_none, decide_eq_false_iff_not, ne_eq, lineId_eq_nil]

theorem getFreeLine_eq_some (m : Memory) (i : Nat) (found : getFreeLine m = some i) :
    IsLine i ∧ lineId m i = [] := by
  have := findLine_eq_some.mp found
  exact ⟨this.1, (lineId_eq_nil m i).mpr (by simpa using this.2.1)⟩

/-- A setter finds its own line, or an empty one when the id has none. -/
theorem targetLine_eq_some (m : Memory) (id : CString) (i : Nat) (short : id.length ≤ idSize)
    (found : targetLine m id = some i) :
    IsLine i ∧ (lineId m i = id.bytes ∨
      lineId m i = [] ∧ ∀ j, IsLine j → lineId m j ≠ id.bytes) := by
  cases own : getLine m id with
  | some j =>
    have same : j = i := by simpa [targetLine, own] using found
    subst same
    obtain ⟨line, holds, _⟩ := (getLine_eq_some m id j short).mp own
    exact ⟨line, .inl holds⟩
  | none =>
    have free : getFreeLine m = some i := by simpa [targetLine, own] using found
    obtain ⟨line, empty⟩ := getFreeLine_eq_some m i free
    exact ⟨line, .inr ⟨empty, (getLine_eq_none m id short).mp own⟩⟩

theorem targetLine_eq_none (m : Memory) (id : CString) (short : id.length ≤ idSize) :
    targetLine m id = none ↔ ∀ i, IsLine i → lineId m i ≠ id.bytes ∧ lineId m i ≠ [] := by
  rw [targetLine, Option.or_eq_none_iff, getLine_eq_none m id short, getFreeLine_eq_none]
  exact ⟨fun h i line => ⟨h.1 i line, h.2 i line⟩,
    fun h => ⟨fun i line => (h i line).1, fun i line => (h i line).2⟩⟩

section Written

/-! The memory after an entry has been written to line `i`. An 8-character id puts
its terminator on the first value byte; the value, never empty, covers it. -/

variable (m : Memory) (id : CString) (value : List Byte) (i : Nat)

def written : Memory := write (strcpy m (idAddr i) id) (valueAddr i) value

variable (short : id.length ≤ idSize)
include short

theorem written_outside (fits : value.length ≤ valueSize) (a : Nat)
    (outside : a < idAddr i ∨ idAddr (i + 1) ≤ a) : written m id value i a = m a := by
  simp only [idAddr, lineSize, idSize, valueSize] at *
  rw [written, write_outside _ _ _ _ (by simp only [valueAddr, lineSize, idSize]; omega),
    strcpy_outside _ _ _ _ (by simp only [idAddr, lineSize]; omega)]

theorem written_lineId : lineId (written m id value i) i = id.bytes := by
  apply fieldString_eq _ _ _ _ short
  intro j inField within
  rw [written, write_outside _ _ _ _ (by simp only [valueAddr, idAddr, idSize] at *; omega),
    strcpy_char _ _ _ _ within]

omit short in
theorem written_value : read (written m id value i) (valueAddr i) value.length = value :=
  read_write _ _ _

theorem written_lineId_other (fits : value.length ≤ valueSize) (j : Nat) (other : j ≠ i) :
    lineId (written m id value i) j = lineId m j := by
  apply fieldString_congr
  intro a low high
  apply written_outside m id value i short fits
  simp only [idAddr, lineSize, idSize] at *
  omega

theorem written_value_other (fits : value.length ≤ valueSize) (j n : Nat) (other : j ≠ i)
    (size : n ≤ valueSize) :
    read (written m id value i) (valueAddr j) n = read m (valueAddr j) n := by
  apply read_congr
  intro a low high
  apply written_outside m id value i short fits
  simp only [idAddr, valueAddr, lineSize, idSize, valueSize] at *
  omega

end Written

theorem putLine_some (m : Memory) (id : CString) (value : List Byte) (i : Nat)
    (found : targetLine m id = some i) : putLine m id value = written m id value i := by
  simp [putLine, found, written]

theorem putLine_none (m : Memory) (id : CString) (value : List Byte)
    (full : targetLine m id = none) : putLine m id value = m := by
  simp [putLine, full]

/-- Emptying lines touches the first id byte and the first value byte of each. -/
theorem foldl_clearLine (m : Memory) (lines : List Nat) (a : Nat) :
    lines.foldl clearLine m a =
      if ∃ i ∈ lines, a = idAddr i ∨ a = valueAddr i then 0#8 else m a := by
  induction lines generalizing m with
  | nil => simp
  | cons i lines ih =>
    rw [List.foldl_cons, ih]
    by_cases later : ∃ j ∈ lines, a = idAddr j ∨ a = valueAddr j
    · obtain ⟨j, member, hit⟩ := later
      rw [if_pos ⟨j, member, hit⟩, if_pos ⟨j, by simp [member], hit⟩]
    · rw [if_neg later]
      by_cases now : a = idAddr i ∨ a = valueAddr i
      · rw [if_pos ⟨i, by simp, now⟩]
        rcases now with rfl | rfl
        · rw [clearLine, write_outside _ _ _ _ (by simp [valueAddr, idAddr]),
            write, if_pos (by simp)]; simp
        · rw [clearLine, write, if_pos (by simp)]; simp
      · have never : ¬ ∃ j ∈ i :: lines, a = idAddr j ∨ a = valueAddr j := by
          simp only [List.mem_cons, exists_eq_or_imp, not_or]
          exact ⟨by simpa using now, later⟩
        rw [if_neg never, clearLine, write_outside _ _ _ _ (by simp; omega),
          write_outside _ _ _ _ (by simp; omega)]

theorem freshMem_lineId (m : Memory) (i : Nat) (line : IsLine i) : lineId (freshMem m) i = [] := by
  rw [lineId_eq_nil, freshMem, foldl_clearLine, if_pos ⟨i, mem_range'_isLine.mpr line, .inl rfl⟩]

theorem headerMatches_iff (m : Memory) : headerMatches m = true ↔ fieldString m 0 3 = flashId.bytes := by
  simp only [headerMatches, decide_eq_true_eq]
  exact strncmp_eq_zero m 0 3 flashId (by decide)

section Page

/-! Two memories that agree on the page read the same. -/

variable {m m' : Memory} (same : ∀ a < flashSize, m a = m' a)
include same

theorem headerMatches_congr : headerMatches m = headerMatches m' := by
  have headers : fieldString m 0 3 = fieldString m' 0 3 := by
    apply fieldString_congr
    intro a _ high
    apply same
    simp only [flashSize]
    omega
  rw [Bool.eq_iff_iff, headerMatches_iff, headerMatches_iff, headers]

theorem lineId_congr (i : Nat) (line : IsLine i) : lineId m i = lineId m' i := by
  apply fieldString_congr
  intro a _ high
  apply same
  simp only [IsLine, idAddr, lineSize, idSize, configLines, flashSize] at *
  omega

theorem value_congr (i n : Nat) (line : IsLine i) (size : n ≤ valueSize) :
    read m (valueAddr i) n = read m' (valueAddr i) n := by
  apply read_congr
  intro a _ high
  apply same
  simp only [IsLine, valueAddr, lineSize, idSize, valueSize, configLines, flashSize] at *
  omega

theorem getLine_congr (id : CString) (short : id.length ≤ idSize) : getLine m id = getLine m' id := by
  apply Option.ext
  intro i
  simp only [getLine_eq_some _ id i short]
  constructor
  · rintro ⟨line, holds, first⟩
    refine ⟨line, by rw [← lineId_congr same i line, holds], fun j lineJ before => ?_⟩
    rw [← lineId_congr same j lineJ]
    exact first j lineJ before
  · rintro ⟨line, holds, first⟩
    refine ⟨line, by rw [lineId_congr same i line, holds], fun j lineJ before => ?_⟩
    rw [lineId_congr same j lineJ]
    exact first j lineJ before

theorem getUint32_congr (id : CString) (short : id.length ≤ idSize) :
    getUint32 m id = getUint32 m' id := by
  simp only [getUint32, getLine_congr same id short]
  cases found : getLine m' id with
  | none => rfl
  | some i =>
    obtain ⟨line, _, _⟩ := (getLine_eq_some m' id i short).mp found
    simp only [value_congr same i 4 line (by decide)]

end Page

theorem freshMem_headerMatches (m : Memory) : headerMatches (freshMem m) = true := by
  rw [headerMatches_iff]
  apply fieldString_eq _ _ _ _ (by decide)
  intro i inField within
  have line0 : ¬ ∃ j ∈ List.range' 1 (configLines - 1), 0 + i = idAddr j ∨ 0 + i = valueAddr j := by
    rintro ⟨j, member, hit⟩
    have line := mem_range'_isLine.mp member
    simp only [idAddr, valueAddr, lineSize, idSize, IsLine] at *
    omega
  rw [freshMem, foldl_clearLine, if_neg line0,
    strcpy_outside _ _ _ _ (by simp only [valueAddr, idSize]; omega)]
  exact strcpy_char m 0 flashId i within

end AsdPre.ConfigStore
