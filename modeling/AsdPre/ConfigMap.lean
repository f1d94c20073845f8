import AsdPre.ConfigStore
import AsdPre.Traces

/-! What the configuration store is for: a finite map from ids to typed values,
of bounded size, with a durable copy. The byte-level store simulates a pair of
such maps, and its accessors read the volatile one. -/
namespace AsdPre.ConfigMap

open ByteMemory ConfigStore

/-- An id the setters accept and `getLine` can tell from an empty line. -/
structure Key where
  id : CString
  nonempty : id.bytes ≠ []
  short : id.length ≤ idSize
  deriving DecidableEq

/-- A string that fits the value field with its terminator. -/
structure Text where
  string : CString
  fits : string.length < valueSize
  deriving DecidableEq

inductive Value where
  | int16 (val : BitVec 16)
  | uint32 (val : BitVec 32)
  | double (bits : BitVec 64)
  | string (s : Text)
  deriving DecidableEq

abbrev Store := Finmap fun _ : Key => Value

/-- The bytes a setter stores for a value. -/
def Value.encode : Value → List Byte
  | .int16 val => leBytes 2 val.toNat
  | .uint32 val => leBytes 4 val.toNat
  | .double bits => leBytes 8 bits.toNat
  | .string s => s.string.bytes ++ [0#8]

theorem Value.length_encode_le (v : Value) : v.encode.length ≤ valueSize := by
  cases v with
  | string s => simpa [Value.encode, CString.length] using Nat.succ_le_of_lt s.fits
  | _ => simp [Value.encode, valueSize]

/-- The store's capacity: every line but the header. -/
abbrev capacity : Nat := configLines - 1

/-- A memory image whose lines are exactly the entries of a map. -/
structure Represents (M : Store) (m : Memory) : Prop where
  header : headerMatches m = true
  stored : ∀ i, IsLine i → lineId m i ≠ [] → ∃ key v, lineId m i = key.id.bytes ∧
    M.lookup key = some v ∧ read m (valueAddr i) v.encode.length = v.encode
  present : ∀ key, key ∈ M → ∃ i, IsLine i ∧ lineId m i = key.id.bytes
  distinct : ∀ i j, IsLine i → IsLine j → lineId m i ≠ [] → lineId m i = lineId m j → i = j

theorem Key.ext_bytes {a b : Key} (same : a.id.bytes = b.id.bytes) : a = b := by
  have := CString.ext_bytes same
  cases a; cases b; simp_all

/-- Only the first 2048 bytes of a memory carry the map. -/
theorem Represents.congr {M : Store} {m m' : Memory} (represents : Represents M m)
    (same : ∀ a < flashSize, m a = m' a) : Represents M m' := by
  refine ⟨?_, ?_, ?_, ?_⟩
  · rw [← headerMatches_congr same]
    exact represents.header
  · intro i line used
    rw [← lineId_congr same i line] at used ⊢
    obtain ⟨key, v, holds, found, encoded⟩ := represents.stored i line used
    exact ⟨key, v, holds, found, by rw [← value_congr same i _ line v.length_encode_le, encoded]⟩
  · intro key member
    obtain ⟨i, line, holds⟩ := represents.present key member
    exact ⟨i, line, by rw [← lineId_congr same i line, holds]⟩
  · intro i j lineI lineJ used equal
    rw [← lineId_congr same i lineI] at used equal
    rw [← lineId_congr same j lineJ] at equal
    exact represents.distinct i j lineI lineJ used equal

/-- A freshly initialised memory holds no entries, whatever the flash contained. -/
theorem represents_fresh (m : Memory) : Represents ∅ (freshMem m) where
  header := freshMem_headerMatches m
  stored i line used := absurd (freshMem_lineId m i line) used
  present _ member := absurd member Finmap.notMem_empty
  distinct i _ line _ used := absurd (freshMem_lineId m i line) used

section Lookup

variable {M : Store} {m : Memory} (represents : Represents M m)
include represents

theorem getLine_some_of_mem (key : Key) (i : Nat) (line : IsLine i)
    (holds : lineId m i = key.id.bytes) : getLine m key.id = some i := by
  rw [getLine_eq_some m key.id i key.short]
  refine ⟨line, holds, fun j lineJ before same => ?_⟩
  have equal : j = i := represents.distinct j i lineJ line (by rw [same]; exact key.nonempty)
    (by rw [same, holds])
  omega

/-- A line that holds a key of the map holds its value. -/
theorem value_of_line (key : Key) (v : Value) (found : M.lookup key = some v) (i : Nat)
    (line : IsLine i) (holds : lineId m i = key.id.bytes) :
    read m (valueAddr i) v.encode.length = v.encode := by
  obtain ⟨key', v', holds', found', encoded⟩ :=
    represents.stored i line (by rw [holds]; exact key.nonempty)
  have same : key' = key := Key.ext_bytes (by rw [← holds', holds])
  subst same
  have value : v' = v := by rw [found'] at found; exact Option.some.inj found
  exact value ▸ encoded

/-- The line of a key in the map, with its value. -/
theorem getLine_of_lookup (key : Key) (v : Value) (found : M.lookup key = some v) :
    ∃ i, getLine m key.id = some i ∧ read m (valueAddr i) v.encode.length = v.encode := by
  obtain ⟨i, line, holds⟩ := represents.present key (Finmap.mem_of_lookup_eq_some found)
  exact ⟨i, getLine_some_of_mem represents key i line holds,
    value_of_line represents key v found i line holds⟩

theorem mem_of_line (key : Key) (i : Nat) (line : IsLine i) (holds : lineId m i = key.id.bytes) :
    key ∈ M := by
  obtain ⟨key', v, holds', found, _⟩ := represents.stored i line (by rw [holds]; exact key.nonempty)
  have same : key' = key := Key.ext_bytes (by rw [← holds', holds])
  exact same ▸ Finmap.mem_of_lookup_eq_some found

theorem configExists_iff (key : Key) : configExists m key.id = true ↔ key ∈ M := by
  rw [configExists, Option.isSome_iff_exists]
  constructor
  · rintro ⟨i, found⟩
    obtain ⟨line, holds, _⟩ := (getLine_eq_some m key.id i key.short).mp found
    exact mem_of_line represents key i line holds
  · intro member
    obtain ⟨v, found⟩ := Finmap.mem_iff.mp member
    obtain ⟨i, line, _⟩ := getLine_of_lookup represents key v found
    exact ⟨i, line⟩

theorem getInt16_of_lookup (key : Key) (val : BitVec 16) (found : M.lookup key = some (.int16 val)) :
    getInt16 m key.id = val := by
  obtain ⟨i, line, encoded⟩ := getLine_of_lookup represents key _ found
  simp only [Value.encode, length_leBytes] at encoded
  simp only [getInt16, line, encoded]
  exact ofNat_ofLe_leBytes (k := 2) val

theorem getUint32_of_lookup (key : Key) (val : BitVec 32)
    (found : M.lookup key = some (.uint32 val)) : getUint32 m key.id = val := by
  obtain ⟨i, line, encoded⟩ := getLine_of_lookup represents key _ found
  simp only [Value.encode, length_leBytes] at encoded
  simp only [getUint32, line, encoded]
  exact ofNat_ofLe_leBytes (k := 4) val

theorem getDouble_of_lookup (key : Key) (bits : BitVec 64)
    (found : M.lookup key = some (.double bits)) : getDouble m key.id = bits := by
  obtain ⟨i, line, encoded⟩ := getLine_of_lookup represents key _ found
  simp only [Value.encode, length_leBytes] at encoded
  simp only [getDouble, line, encoded]
  exact ofNat_ofLe_leBytes (k := 8) bits

/-- The pointer leads to the characters of the string and its terminator. -/
theorem getString_of_lookup (key : Key) (s : Text) (found : M.lookup key = some (.string s)) :
    ∃ a, getString m key.id = some a ∧ read m a (s.string.length + 1) = s.string.bytes ++ [0#8] := by
  obtain ⟨i, line, encoded⟩ := getLine_of_lookup represents key _ found
  exact ⟨valueAddr i, by simp [getString, line], by simpa [Value.encode, CString.length] using encoded⟩

/-- The used lines are as many as the entries. -/
theorem card_used : ((Finset.Ico 1 configLines).filter fun i => lineId m i ≠ []).card = M.keys.card := by
  have isLine {i : Nat} : i ∈ Finset.Ico 1 configLines ↔ IsLine i := Finset.mem_Ico
  choose keyOf valueOf holds found _ using represents.stored
  have split {i : Nat} (member : i ∈ (Finset.Ico 1 configLines).filter fun i => lineId m i ≠ []) :
      IsLine i ∧ lineId m i ≠ [] :=
    ⟨isLine.mp (Finset.mem_filter.mp member).1, (Finset.mem_filter.mp member).2⟩
  apply Finset.card_bij fun i member => keyOf i (split member).1 (split member).2
  · intro i member
    exact Finmap.mem_keys.mpr (Finmap.mem_of_lookup_eq_some (found i _ _))
  · intro i memberI j memberJ same
    refine represents.distinct i j (split memberI).1 (split memberJ).1 (split memberI).2 ?_
    rw [holds i (split memberI).1 (split memberI).2, holds j (split memberJ).1 (split memberJ).2, same]
  · intro key member
    obtain ⟨i, line, held⟩ := represents.present key (Finmap.mem_keys.mp member)
    have used : lineId m i ≠ [] := by rw [held]; exact key.nonempty
    refine ⟨i, Finset.mem_filter.mpr ⟨isLine.mpr line, used⟩, Key.ext_bytes ?_⟩
    rw [← holds i line used, held]

/-- A setter finds a line exactly when the id is known or the map has room. -/
theorem targetLine_isSome_iff (key : Key) :
    (targetLine m key.id).isSome = true ↔ key ∈ M ∨ M.keys.card < capacity := by
  rw [← not_iff_not, Option.not_isSome_iff_eq_none, targetLine_eq_none m key.id key.short, not_or,
    ← card_used represents]
  constructor
  · intro none
    refine ⟨fun member => ?_, ?_⟩
    · obtain ⟨i, line, holds⟩ := represents.present key member
      exact (none i line).1 holds
    · rw [Finset.filter_true_of_mem (fun i member => (none i (Finset.mem_Ico.mp member)).2)]
      simp [capacity]
  · rintro ⟨unknown, full⟩ i line
    refine ⟨fun holds => unknown (mem_of_line represents key i line holds), ?_⟩
    have all : (Finset.Ico 1 configLines).filter (fun i => lineId m i ≠ []) = Finset.Ico 1 configLines := by
      apply Finset.eq_of_subset_of_card_le (Finset.filter_subset _ _)
      simpa [capacity] using full
    have member : i ∈ Finset.Ico 1 configLines := Finset.mem_Ico.mpr line
    rw [← all] at member
    exact (Finset.mem_filter.mp member).2

/-- No line but the one a setter chooses holds its id. -/
theorem targetLine_alone (key : Key) (i : Nat) (target : targetLine m key.id = some i) (j : Nat)
    (line : IsLine j) (other : j ≠ i) : lineId m j ≠ key.id.bytes := by
  obtain ⟨lineI, before⟩ := targetLine_eq_some m key.id i key.short target
  rcases before with holds | ⟨_, absent⟩
  · intro same
    exact other (represents.distinct j i line lineI (by rw [same]; exact key.nonempty)
      (by rw [same, holds]))
  · exact absent j line

/-- Writing an entry to the line a setter chooses inserts it into the map. -/
theorem represents_written (key : Key) (v : Value) (i : Nat)
    (target : targetLine m key.id = some i) :
    Represents (M.insert key v) (written m key.id v.encode i) := by
  obtain ⟨line, before⟩ := targetLine_eq_some m key.id i key.short target
  have fits := v.length_encode_le
  have here := written_lineId m key.id v.encode i key.short
  have elsewhere := written_lineId_other m key.id v.encode i key.short fits
  have alone := targetLine_alone represents key i target
  refine ⟨?_, ?_, ?_, ?_⟩
  · rw [headerMatches_iff]
    refine Eq.trans ?_ ((headerMatches_iff m).mp represents.header)
    apply fieldString_congr
    intro a _ high
    apply written_outside m key.id v.encode i key.short fits
    simp only [IsLine, idAddr, lineSize] at *
    omega
  · intro j lineJ used
    by_cases same : j = i
    · subst same
      exact ⟨key, v, here, Finmap.lookup_insert M, written_value m key.id v.encode j⟩
    · rw [elsewhere j same] at used ⊢
      obtain ⟨key', v', holds', found', encoded⟩ := represents.stored j lineJ used
      have different : key' ≠ key := fun equal => alone j lineJ same (equal ▸ holds')
      refine ⟨key', v', holds', (Finmap.lookup_insert_of_ne M different).trans found', ?_⟩
      rw [written_value_other m key.id v.encode i key.short fits j _ same v'.length_encode_le, encoded]
  · intro key' member
    by_cases same : key' = key
    · exact ⟨i, line, same ▸ here⟩
    · have old : key' ∈ M := (Finmap.mem_insert.mp member).resolve_left same
      obtain ⟨j, lineJ, holds⟩ := represents.present key' old
      have other : j ≠ i := by
        rintro rfl
        rcases before with own | ⟨empty, _⟩
        · exact same (Key.ext_bytes (by rw [← holds, own]))
        · exact key'.nonempty (by rw [← holds, empty])
      exact ⟨j, lineJ, by rw [elsewhere j other, holds]⟩
  · intro j k lineJ lineK used equal
    by_cases jSame : j = i <;> by_cases kSame : k = i
    · rw [jSame, kSame]
    · rw [jSame, here, elsewhere k kSame] at equal
      exact absurd equal.symm (alone k lineK kSame)
    · rw [kSame, here, elsewhere j jSame] at equal
      exact absurd equal (alone j lineJ jSame)
    · rw [elsewhere j jSame] at used equal
      rw [elsewhere k kSame] at equal
      exact represents.distinct j k lineJ lineK used equal

end Lookup

theorem flush_flash (c : Config) (a : Nat) (inPage : a < flashSize) : (flushConfig c).flash a = c.mem a := by
  have written : a < 4 * (flashSize / 4) := inPage
  simp [flushConfig, writeWords, memcpy, written]

theorem represents_flush (represents : Represents M c.mem) : Represents M (flushConfig c).flash :=
  represents.congr fun a inPage => (flush_flash c a inPage).symm

/-- Initialisation reads a page that carries a map. -/
theorem configInit_of_represents (c : Config) (represents : Represents M c.flash) :
    Represents M (configInit c).mem ∧ Represents M (configInit c).flash := by
  have copied : Represents M (memcpy c.mem c.flash flashSize) :=
    represents.congr fun a inPage => by simp [memcpy, inPage]
  rw [configInit, if_pos copied.header]
  exact ⟨copied, represents⟩

/-- Initialisation starts an empty store on any page without the header. -/
theorem configInit_of_noHeader (c : Config) (missing : headerMatches c.flash = false) :
    Represents ∅ (configInit c).mem ∧ Represents ∅ (configInit c).flash := by
  have copied : headerMatches (memcpy c.mem c.flash flashSize) = false := by
    rw [← missing]
    exact headerMatches_congr fun a inPage => by simp [memcpy, inPage]
  rw [configInit, if_neg (by simp [copied])]
  exact ⟨represents_fresh _, represents_flush (represents_fresh _)⟩

/-- Initialisation leaves the page and its copy alike, with the header. -/
theorem configInit_alike (c : Config) : headerMatches (configInit c).mem = true ∧
    ∀ a < flashSize, (configInit c).flash a = (configInit c).mem a := by
  rw [configInit]
  split
  · exact ⟨‹_›, fun a inPage => by simp [memcpy, inPage]⟩
  · exact ⟨freshMem_headerMatches _, fun a inPage => flush_flash _ a inPage⟩

/-- A restart reads back a page that is like its copy. -/
theorem reboot_alike (c : Config) (header : headerMatches c.mem = true)
    (alike : ∀ a < flashSize, c.flash a = c.mem a) (ram : Memory) (a : Nat) (inPage : a < flashSize) :
    (reboot c ram).mem a = c.mem a := by
  have copied : ∀ a < flashSize, memcpy ram c.flash flashSize a = c.mem a := by
    intro a inPage
    rw [memcpy, if_pos inPage, alike a inPage]
  rw [reboot, configInit, if_pos (by rw [headerMatches_congr copied, header])]
  exact copied a inPage

/-- The calls a client of the store can make, and a loss of power between them. -/
inductive Op where
  | set (key : Key) (v : Value)
  | clearConfig
  | flushConfig
  | reboot (mem : Memory)

/-- The setter of a value's type. -/
def set (c : Config) (key : Key) : Value → Except String Config
  | .int16 val => setInt16 c key.id val
  | .uint32 val => setUint32 c key.id val
  | .double bits => setDouble c key.id bits
  | .string s => setString c key.id s.string

def step (c : Config) : Op → Except String Config
  | .set key v => set c key v
  | .clearConfig => .ok (ConfigStore.clearConfig c)
  | .flushConfig => .ok (ConfigStore.flushConfig c)
  | .reboot mem => .ok (ConfigStore.reboot c mem)

/-- The volatile map and its durable copy. -/
structure Maps where
  M : Store
  D : Store

/-- A new id is refused when every line is taken. -/
def accepts (M : Store) (key : Key) : Prop := key ∈ M ∨ M.keys.card < capacity

instance (M : Store) (key : Key) : Decidable (accepts M key) := inferInstanceAs (Decidable (_ ∨ _))

def Maps.step (s : Maps) : Op → Maps
  | .set key v => if accepts s.M key then { s with M := s.M.insert key v } else s
  | .clearConfig => ⟨∅, ∅⟩
  | .flushConfig => { s with D := s.M }
  | .reboot _ => { s with M := s.D }

structure Simulates (s : Maps) (c : Config) : Prop where
  volatile : Represents s.M c.mem
  durable : Represents s.D c.flash

/-- With an id and a string of legal length no setter panics. -/
theorem set_eq_putLine (c : Config) (key : Key) (v : Value) :
    set c key v = .ok { c with mem := putLine c.mem key.id v.encode } := by
  have short : ¬ key.id.length > idSize := Nat.not_lt.mpr key.short
  cases v with
  | string s =>
    have fits : ¬ s.string.length ≥ valueSize := Nat.not_le.mpr s.fits
    simp only [set, setString, short, fits, if_false, Value.encode]
  | _ => simp only [set, setInt16, setUint32, setDouble, setValue, short, if_false, Value.encode]

theorem represents_putLine (represents : Represents M m) (key : Key) (v : Value) :
    Represents (if accepts M key then M.insert key v else M) (putLine m key.id v.encode) := by
  have room := targetLine_isSome_iff represents key
  cases target : targetLine m key.id with
  | some i =>
    have accepted : accepts M key := room.mp (by simp [target])
    rw [putLine_some _ _ _ i target, if_pos accepted]
    exact represents_written represents key v i target
  | none =>
    have refused : ¬ accepts M key := fun h => by simpa [target] using room.mpr h
    rw [putLine_none _ _ _ target, if_neg refused]
    exact represents

theorem set_simulates (s : Maps) (c : Config) (related : Simulates s c) (key : Key) (v : Value) :
    Simulates (s.step (.set key v)) { c with mem := putLine c.mem key.id v.encode } := by
  have volatile := represents_putLine related.volatile key v
  rw [Maps.step]
  split at volatile
  · rw [if_pos ‹_›]
    exact ⟨volatile, related.durable⟩
  · rw [if_neg ‹_›]
    exact ⟨volatile, related.durable⟩

/-- Every operation takes related states to related states. -/
theorem step_simulates (s : Maps) (c : Config) (op : Op) (related : Simulates s c) :
    ∃ c', step c op = .ok c' ∧ Simulates (s.step op) c' := by
  cases op with
  | set key v => exact ⟨_, set_eq_putLine c key v, set_simulates s c related key v⟩
  | clearConfig =>
    refine ⟨_, rfl, ?_⟩
    have missing : headerMatches (ConfigStore.flushConfig
        { c with mem := write c.mem (idAddr 0) [0#8] }).flash = false := by
      rw [← Bool.not_eq_true, headerMatches_iff, fieldString_succ, flush_flash _ _ (by decide),
        if_pos (by simp [write, idAddr])]
      decide
    obtain ⟨volatile, durable⟩ := configInit_of_noHeader _ missing
    exact ⟨volatile, durable⟩
  | flushConfig => exact ⟨_, rfl, related.volatile, represents_flush related.volatile⟩
  | reboot mem =>
    refine ⟨_, rfl, ?_⟩
    obtain ⟨volatile, durable⟩ := configInit_of_represents { c with mem := mem } related.durable
    exact ⟨volatile, durable⟩

/-- What a map promises about the store that represents it. -/
structure Lawful (M : Store) (c : Config) : Prop where
  header : headerMatches c.mem = true
  configExists : ∀ key, configExists c.mem key.id = true ↔ key ∈ M
  getInt16 : ∀ key val, M.lookup key = some (.int16 val) → getInt16 c.mem key.id = val
  getUint32 : ∀ key val, M.lookup key = some (.uint32 val) → getUint32 c.mem key.id = val
  getDouble : ∀ key bits, M.lookup key = some (.double bits) → getDouble c.mem key.id = bits
  getString : ∀ key s, M.lookup key = some (.string s) → ∃ a, getString c.mem key.id = some a ∧
    read c.mem a (s.string.length + 1) = s.string.bytes ++ [0#8]
  distinct : ∀ i j, IsLine i → IsLine j → lineId c.mem i ≠ [] → lineId c.mem i = lineId c.mem j → i = j
  /-- An accepted set stays inside one line, which then holds the id. -/
  setFrame : ∀ key v, accepts M key → ∃ c' i, set c key v = .ok c' ∧ c'.flash = c.flash ∧ IsLine i ∧
    lineId c'.mem i = key.id.bytes ∧
    ∀ a, a < idAddr i ∨ idAddr (i + 1) ≤ a → c'.mem a = c.mem a
  setRefused : ∀ key v, ¬ accepts M key → set c key v = .ok c

theorem Represents.lawful (represents : Represents M c.mem) : Lawful M c where
  header := represents.header
  configExists := configExists_iff represents
  getInt16 := getInt16_of_lookup represents
  getUint32 := getUint32_of_lookup represents
  getDouble := getDouble_of_lookup represents
  getString := getString_of_lookup represents
  distinct := represents.distinct
  setFrame key v accepted := by
    obtain ⟨i, target⟩ := Option.isSome_iff_exists.mp ((targetLine_isSome_iff represents key).mpr accepted)
    have line := (targetLine_eq_some c.mem key.id i key.short target).1
    refine ⟨_, i, set_eq_putLine c key v, rfl, line, ?_, fun a outside => ?_⟩
    · simp only [putLine_some _ _ _ i target]
      exact written_lineId c.mem key.id v.encode i key.short
    · simp only [putLine_some _ _ _ i target]
      exact written_outside c.mem key.id v.encode i key.short v.length_encode_le a outside
  setRefused key v refused := by
    have full : targetLine c.mem key.id = none := by
      rw [← Option.not_isSome_iff_eq_none]
      exact fun h => refused ((targetLine_isSome_iff represents key).mp h)
    rw [set_eq_putLine, putLine_none _ _ _ full]

/-- The store started on a page without the header follows the pair of maps through
every sequence of operations; no operation fails. -/
theorem store_simulates_maps (c : Config) (missing : headerMatches c.flash = false) (ops : List Op) :
    ∃ c', ops.foldlM step (configInit c) = .ok c' ∧
      Simulates (Traces.run Maps.step ⟨∅, ∅⟩ ops) c' ∧
      Lawful (Traces.run Maps.step ⟨∅, ∅⟩ ops).M c' := by
  obtain ⟨volatile, durable⟩ := configInit_of_noHeader c missing
  have start : Simulates ⟨∅, ∅⟩ (configInit c) := ⟨volatile, durable⟩
  obtain ⟨c', ran, related⟩ := Traces.foldlM_simulates
    (fun s c op related => step_simulates s c op related) start ops
  exact ⟨c', ran, related, related.volatile.lawful⟩

/-- The ids the firmware uses. -/
def volumeKey : Key := ⟨⟨ascii "volume", by decide⟩, by decide, by decide⟩
def sourceKey : Key := ⟨⟨ascii "source", by decide⟩, by decide, by decide⟩
def gainKey : Key := ⟨⟨ascii "gain", by decide⟩, by decide, by decide⟩

/-- Two settings are saved and one changed again before the power goes. -/
def savedTwo : List Op :=
  [.clearConfig, .set gainKey (.uint32 2), .set volumeKey (.uint32 1600), .flushConfig,
    .set gainKey (.uint32 3), .reboot fun _ => 0#8]

theorem store_simulates_maps_erased :
    headerMatches (fun _ => 0xff#8) = false ∧
    (Traces.run Maps.step ⟨∅, ∅⟩ savedTwo).M.lookup gainKey = some (.uint32 2) ∧
    (Traces.run Maps.step ⟨∅, ∅⟩ savedTwo).M.lookup volumeKey = some (.uint32 1600) ∧
    ∃ c', savedTwo.foldlM step (configInit ⟨fun _ => 0#8, fun _ => 0xff#8⟩) = .ok c' ∧
      Simulates (Traces.run Maps.step ⟨∅, ∅⟩ savedTwo) c' ∧
      Lawful (Traces.run Maps.step ⟨∅, ∅⟩ savedTwo).M c' :=
  ⟨by decide, by decide +kernel, by decide +kernel,
    store_simulates_maps ⟨fun _ => 0#8, fun _ => 0xff#8⟩ (by decide) savedTwo⟩

end AsdPre.ConfigMap
