import AsdPre.ConfigMap

/-! Loss of power during a flush. The page is erased and then written word by word,
and the next start trusts whatever lies behind a valid header. -/
namespace AsdPre.ConfigCrash

open ByteMemory ConfigStore ConfigMap

/-- Where `flushConfig` stops: before the erase, or after it and `n` written words. -/
inductive CrashPoint where
  | beforeErase
  | afterWords (n : Nat)
  deriving DecidableEq, Repr

def crashFlash (c : Config) : CrashPoint → Memory
  | .beforeErase => c.flash
  | .afterWords n => writeWords (erasePage c.flash) c.mem n

/-- The next start; `mem` is whatever the RAM then contains. -/
def bootAfter (c : Config) (p : CrashPoint) (mem : Memory) : Config :=
  configInit ⟨mem, crashFlash c p⟩

/-- Each id of the firmware can be set and read back. -/
def Usable (c : Config) : Prop :=
  ∀ key ∈ [volumeKey, sourceKey, gainKey], ∀ v, ∃ c',
    setUint32 c key.id v = .ok c' ∧ getUint32 c'.mem key.id = v

/-- The store after the restart is the old one, the new one or an empty one. -/
def Recovers (old new : Store) (c : Config) : Prop :=
  (Represents old c.mem ∨ Represents new c.mem ∨ Represents ∅ c.mem) ∧ Usable c

/-- A store that has lines left for the firmware's ids, or has the ids already. -/
def Roomy (M : Store) : Prop := ∀ key ∈ [volumeKey, sourceKey, gainKey], accepts M key

/-- The bytes that tell the entries of a map: the first byte of a free line; of a
used line, the id with its terminator and the bytes of the value. -/
def Matters (M : Store) (m : Memory) (a : Nat) : Prop :=
  ∃ i, IsLine i ∧ ((lineId m i = [] ∧ a = idAddr i) ∨
    ∃ key v, lineId m i = key.id.bytes ∧ M.lookup key = some v ∧
      ((idAddr i ≤ a ∧ a < valueAddr i ∧ a ≤ idAddr i + key.id.length) ∨
        (valueAddr i ≤ a ∧ a < valueAddr i + v.encode.length)))

/-- No word has been written yet, or those still missing would not have changed
a byte that matters: it is 0xFF in the new store too. -/
def Harmless (M : Store) (m : Memory) : CrashPoint → Prop
  | .beforeErase => True
  | .afterWords n => n = 0 ∨ ∀ a, 4 * n ≤ a → Matters M m a → m a = 0xff#8

theorem usable_of_represents (represents : Represents M c.mem) (roomy : Roomy M) : Usable c := by
  intro key member v
  have accepted := roomy key member
  obtain ⟨i, target⟩ := Option.isSome_iff_exists.mp ((targetLine_isSome_iff represents key).mpr accepted)
  have after := represents_written represents key (.uint32 v) i target
  refine ⟨_, set_eq_putLine c key (.uint32 v), ?_⟩
  rw [putLine_some _ _ _ i target]
  exact getUint32_of_lookup after key v (Finmap.lookup_insert M)

theorem roomy_empty : Roomy ∅ := fun _ _ => .inr (by decide)

/-- A memory that agrees on the bytes that matter carries the same map. -/
theorem represents_of_agree (represents : Represents M m) (header : headerMatches m' = true)
    (agree : ∀ a, Matters M m a → m' a = m a) : Represents M m' := by
  have free (i : Nat) (line : IsLine i) (empty : lineId m i = []) : lineId m' i = [] := by
    rw [lineId_eq_nil, agree _ ⟨i, line, .inl ⟨empty, rfl⟩⟩]
    exact (lineId_eq_nil m i).mp empty
  have used (i : Nat) (line : IsLine i) (key : Key) (holds : lineId m i = key.id.bytes) :
      lineId m' i = key.id.bytes := by
    obtain ⟨key', v, holds', found, _⟩ := represents.stored i line (by rw [holds]; exact key.nonempty)
    have same : key' = key := Key.ext_bytes (by rw [← holds', holds])
    subst same
    apply fieldString_eq _ _ _ _ key'.short
    intro x inField within
    rw [agree (idAddr i + x) ⟨i, line, .inr ⟨key', v, holds, found, .inl
      ⟨by omega, by simp only [valueAddr, idAddr] at *; omega, by omega⟩⟩⟩]
    exact char_of_fieldString_eq m _ _ key'.id holds x inField within
  have ids (i : Nat) (line : IsLine i) : lineId m' i = lineId m i := by
    by_cases empty : lineId m i = []
    · rw [free i line empty, empty]
    · obtain ⟨key, _, holds, _⟩ := represents.stored i line empty
      rw [used i line key holds, holds]
  refine ⟨header, ?_, ?_, ?_⟩
  · intro i line nonempty
    rw [ids i line] at nonempty ⊢
    obtain ⟨key, v, holds, found, encoded⟩ := represents.stored i line nonempty
    refine ⟨key, v, holds, found, Eq.trans ?_ encoded⟩
    apply read_congr
    intro a low high
    exact agree a ⟨i, line, .inr ⟨key, v, holds, found, .inr ⟨low, high⟩⟩⟩
  · intro key member
    obtain ⟨i, line, holds⟩ := represents.present key member
    exact ⟨i, line, used i line key holds⟩
  · intro i j lineI lineJ nonempty equal
    rw [ids i lineI] at nonempty equal
    rw [ids j lineJ] at equal
    exact represents.distinct i j lineI lineJ nonempty equal

/-- Erasing alone destroys the header, so the next start begins afresh. -/
theorem noHeader_of_erased (c : Config) : headerMatches (crashFlash c (.afterWords 0)) = false := by
  have byte : crashFlash c (.afterWords 0) 0 = 0xff#8 := by
    simp [crashFlash, writeWords, memcpy, erasePage]
  rw [← Bool.not_eq_true, headerMatches_iff, fieldString_succ, byte, if_neg (by decide)]
  intro same
  have first : some 0xff#8 = flashId.bytes.head? := by rw [← same]; rfl
  exact absurd first (by decide)

/-- The first written word is the header: three characters and the terminator. -/
theorem header_of_words (c : Config) (n : Nat) (some : 0 < n) (header : headerMatches c.mem = true) :
    headerMatches (crashFlash c (.afterWords n)) = true := by
  rw [headerMatches_iff] at *
  rw [← header]
  apply fieldString_congr
  intro a _ high
  have inFirstWord : a < 4 * n := by omega
  simp [crashFlash, writeWords, memcpy, inFirstWord]

theorem line_inPage (i : Nat) (line : IsLine i) (x : Nat) (inLine : x < lineSize) :
    idAddr i + x < flashSize := by
  simp only [IsLine, idAddr, lineSize, flashSize, configLines] at *
  omega

theorem matters_inPage (matters : Matters M m a) : a < flashSize := by
  obtain ⟨i, line, ⟨_, rfl⟩ | ⟨key, v, _, _, position⟩⟩ := matters
  · exact line_inPage i line 0 (by decide)
  · have short := key.short
    have size := v.length_encode_le
    have inLine : a - idAddr i < lineSize := by
      simp only [valueAddr, idAddr, lineSize, idSize, valueSize] at *
      omega
    have inPage := line_inPage i line _ inLine
    simp only [valueAddr, idAddr] at *
    omega

/-- A start that finds the header shows the page as it is. -/
theorem represents_of_boot (header : headerMatches (crashFlash c p) = true)
    (booted : Represents N (bootAfter c p ram).mem) : Represents N (crashFlash c p) := by
  have copied : headerMatches (memcpy ram (crashFlash c p) flashSize) = true := by
    rw [← header]
    exact headerMatches_congr fun a inPage => by simp [memcpy, inPage]
  rw [bootAfter, configInit, if_pos copied] at booted
  exact booted.congr fun a inPage => by simp [memcpy, inPage]

section Cut

/-! The page after `n` words: the new contents, then erased bytes. -/

variable {M : Store} {c : Config} {n : Nat}

theorem cut_written (a : Nat) (before : a < 4 * n) : crashFlash c (.afterWords n) a = c.mem a := by
  simp [crashFlash, writeWords, memcpy, before]

theorem cut_erased (a : Nat) (after : 4 * n ≤ a) (inPage : a < flashSize) :
    crashFlash c (.afterWords n) a = 0xff#8 := by
  simp [crashFlash, writeWords, memcpy, erasePage, Nat.not_lt.mpr after, inPage]

/-- The id that an unwritten line shows. -/
def erasedId : CString := ⟨List.replicate 8 0xff#8, by decide⟩

theorem erasedId_char (x : Nat) (inField : x < 8) : erasedId.char x = 0xff#8 := by
  interval_cases x <;> rfl

/-- A line keeps an id of eight erased bytes wherever the page is cut. -/
theorem cut_erasedId (i : Nat) (line : IsLine i)
    (bytes : ∀ x < 8, 4 * n ≤ idAddr i + x ∨ c.mem (idAddr i + x) = 0xff#8) :
    lineId (crashFlash c (.afterWords n)) i = erasedId.bytes := by
  apply fieldString_eq _ _ _ _ (by decide)
  intro x inField _
  rw [erasedId_char x inField]
  by_cases before : idAddr i + x < 4 * n
  · rw [cut_written _ before]
    exact (bytes x inField).resolve_left (by omega)
  · exact cut_erased _ (by omega) (line_inPage i line x (Nat.lt_trans inField (by decide)))

theorem cut_unwritten (i : Nat) (line : IsLine i) (after : 4 * n ≤ idAddr i) :
    lineId (crashFlash c (.afterWords n)) i = erasedId.bytes :=
  cut_erasedId i line fun x _ => .inl (by omega)

theorem cut_of_erasedId (i : Nat) (line : IsLine i) (holds : lineId c.mem i = erasedId.bytes) :
    lineId (crashFlash c (.afterWords n)) i = erasedId.bytes :=
  cut_erasedId i line fun x inField => .inr (by
    rw [char_of_fieldString_eq c.mem _ 8 erasedId holds x inField (Nat.le_of_lt inField),
      erasedId_char x inField])

variable (new : Represents M c.mem) (cut : Represents M (crashFlash c (.afterWords n)))
include new cut

/-- If the cut page carries the new map, an unwritten line had the erased id all
along: the map has that id, and no two lines of the cut page may show it. -/
theorem unwritten_holds_erasedId (i : Nat) (line : IsLine i) (after : 4 * n ≤ idAddr i) :
    lineId c.mem i = erasedId.bytes := by
  have shown := cut_unwritten (c := c) i line after
  obtain ⟨key, v, holds, found, _⟩ := cut.stored i line (by rw [shown]; decide)
  obtain ⟨j, lineJ, own⟩ := new.present key (Finmap.mem_of_lookup_eq_some found)
  have same : lineId c.mem j = erasedId.bytes := by rw [own, ← holds, shown]
  have there := cut_of_erasedId (n := n) j lineJ same
  have equal : j = i := cut.distinct j i lineJ line (by rw [there]; decide) (by rw [there, shown])
  exact equal ▸ same

/-- Every used line still shows its id. -/
theorem cut_keeps_id (i : Nat) (line : IsLine i) (used : lineId c.mem i ≠ []) :
    lineId (crashFlash c (.afterWords n)) i = lineId c.mem i := by
  by_cases whole : idAddr i + 8 ≤ 4 * n
  · apply fieldString_congr
    intro a _ high
    exact cut_written a (by simp only [idSize] at high; omega)
  by_cases after : 4 * n ≤ idAddr i
  · rw [cut_unwritten i line after, unwritten_holds_erasedId new cut i line after]
  -- the cut goes through this id; the key must be in the cut page somewhere
  obtain ⟨key, v, holds, found, _⟩ := new.stored i line used
  obtain ⟨k, lineK, shown⟩ := cut.present key (Finmap.mem_of_lookup_eq_some found)
  by_cases same : k = i
  · rw [← same, shown, same, holds]
  rcases Nat.lt_or_gt_of_ne same with before | behind
  · have wholeK : lineId (crashFlash c (.afterWords n)) k = lineId c.mem k := by
      apply fieldString_congr
      intro a _ high
      exact cut_written a (by simp only [idAddr, lineSize, idSize] at *; omega)
    exact absurd (new.distinct k i lineK line (by rw [← wholeK, shown]; exact key.nonempty)
      (by rw [← wholeK, shown, holds])) same
  · have erased := cut_unwritten (c := c) (n := n) k lineK
      (by simp only [idAddr, lineSize, Nat.not_le] at *; omega)
    have own : lineId c.mem i = erasedId.bytes := by rw [holds, ← shown, erased]
    rw [cut_of_erasedId i line own, own]

/-- A free line has its first byte written, or it would not look free. -/
theorem cut_free_written (i : Nat) (line : IsLine i) (empty : lineId c.mem i = []) :
    idAddr i < 4 * n := by
  by_contra after
  have held := unwritten_holds_erasedId new cut i line (Nat.not_lt.mp after)
  rw [empty] at held
  exact absurd held (by decide)

/-- The missing bytes that matter are erased in the new store as well. -/
theorem missing_bytes_erased (a : Nat) (after : 4 * n ≤ a) (matters : Matters M c.mem a) :
    c.mem a = 0xff#8 := by
  obtain ⟨i, line, ⟨empty, rfl⟩ | ⟨key, v, holds, found, position⟩⟩ := matters
  · have := cut_free_written new cut i line empty
    omega
  have used : lineId c.mem i ≠ [] := by rw [holds]; exact key.nonempty
  have shown : lineId (crashFlash c (.afterWords n)) i = key.id.bytes := by
    rw [cut_keeps_id new cut i line used, holds]
  rcases position with ⟨low, inId, within⟩ | ⟨low, high⟩
  · obtain ⟨x, rfl⟩ := Nat.exists_eq_add_of_le low
    have inField : x < idSize := by simp only [valueAddr, idAddr] at inId; omega
    rw [char_of_fieldString_eq c.mem _ _ key.id holds x inField (by omega),
      ← char_of_fieldString_eq _ _ _ key.id shown x inField (by omega)]
    exact cut_erased _ after (line_inPage i line x (Nat.lt_trans inField (by decide)))
  · obtain ⟨x, rfl⟩ := Nat.exists_eq_add_of_le low
    have inValue : x < v.encode.length := by omega
    have equal : c.mem (valueAddr i + x) = crashFlash c (.afterWords n) (valueAddr i + x) := by
      have both := (value_of_line new key v found i line holds).trans
        (value_of_line cut key v found i line shown).symm
      have byte := congrArg (fun l => l[x]?) both
      simpa [ByteMemory.read, inValue] using byte
    have size := v.length_encode_le
    have inPage := line_inPage i line (idSize + x)
      (by simp only [idSize, lineSize, valueSize] at *; omega)
    rw [equal]
    exact cut_erased _ after (by simpa [valueAddr, idAddr, Nat.add_assoc] using inPage)

end Cut

/-- A start on a page that carries a map gives that map, ready for use. -/
theorem recovers_of_represents (p : CrashPoint) (ram : Memory) (represents : Represents M (crashFlash c p))
    (roomy : Roomy M) :
    Represents M (bootAfter c p ram).mem ∧ Usable (bootAfter c p ram) := by
  have booted := (configInit_of_represents ⟨ram, crashFlash c p⟩ represents).1
  exact ⟨booted, usable_of_represents booted roomy⟩

theorem recovers_of_harmless (new : Represents M c.mem) (old : Represents D c.flash)
    (roomyNew : Roomy M) (roomyOld : Roomy D) (p : CrashPoint) (ram : Memory)
    (harmless : Harmless M c.mem p) : Recovers D M (bootAfter c p ram) := by
  cases p with
  | beforeErase =>
    obtain ⟨booted, usable⟩ := recovers_of_represents .beforeErase ram (c := c) old roomyOld
    exact ⟨.inl booted, usable⟩
  | afterWords n =>
    rcases Nat.eq_zero_or_pos n with rfl | positive
    · have empty := (configInit_of_noHeader ⟨ram, crashFlash c (.afterWords 0)⟩ (noHeader_of_erased c)).1
      exact ⟨.inr (.inr empty), usable_of_represents empty roomy_empty⟩
    · have erased := harmless.resolve_left (Nat.ne_of_gt positive)
      have agree (a : Nat) (matters : Matters M c.mem a) : crashFlash c (.afterWords n) a = c.mem a := by
        by_cases before : a < 4 * n
        · exact cut_written a before
        · rw [erased a (Nat.not_lt.mp before) matters,
            cut_erased a (Nat.not_lt.mp before) (matters_inPage matters)]
      have cut := represents_of_agree new (header_of_words c n positive new.header) agree
      obtain ⟨booted, usable⟩ := recovers_of_represents (.afterWords n) ram cut roomyNew
      exact ⟨.inr (.inl booted), usable⟩

/-- A page cut after the header that nevertheless reads as the new map or as an
empty one has lost no byte that matters. -/
theorem harmless_of_represents (new : Represents M c.mem) (n : Nat)
    (shown : Represents M (crashFlash c (.afterWords n)) ∨
      Represents ∅ (crashFlash c (.afterWords n))) (a : Nat) (after : 4 * n ≤ a)
    (matters : Matters M c.mem a) : c.mem a = 0xff#8 := by
  rcases shown with same | empty
  · exact missing_bytes_erased new same a after matters
  · have free (i : Nat) (line : IsLine i) : lineId (crashFlash c (.afterWords n)) i = [] := by
      by_contra used
      obtain ⟨key, v, _, found, _⟩ := empty.stored i line used
      simp at found
    have written (i : Nat) (line : IsLine i) : idAddr i < 4 * n := by
      by_contra unwritten
      have erased := cut_unwritten (c := c) i line (Nat.not_lt.mp unwritten)
      rw [free i line] at erased
      exact absurd erased (by decide)
    -- no line is used in the new store either, so what matters lies in the written part
    obtain ⟨i, line, ⟨_, rfl⟩ | ⟨key, v, holds, _⟩⟩ := matters
    · have := written i line
      omega
    · have first := (lineId_eq_nil _ i).mp (free i line)
      rw [cut_written _ (written i line)] at first
      exact absurd (holds.symm.trans ((lineId_eq_nil c.mem i).mpr first)) key.nonempty

/-- Whatever the old store was, a loss of power during the flush leaves the old
store, the new store or an empty one, and a usable one, exactly at the harmless
crash points. -/
theorem recovers_iff_harmless (M : Store) (mem : Memory) (new : Represents M mem) (roomy : Roomy M)
    (p : CrashPoint) :
    (∀ D flash ram, Represents D flash → Roomy D → Recovers D M (bootAfter ⟨mem, flash⟩ p ram)) ↔
      Harmless M mem p := by
  constructor
  · intro always
    cases p with
    | beforeErase => trivial
    | afterWords n =>
      rcases Nat.eq_zero_or_pos n with rfl | positive
      · exact .inl rfl
      · refine .inr fun a after matters => ?_
        -- an empty old store leaves only two ways to recover
        have fresh := represents_fresh fun _ => 0#8
        have recovered := (always ∅ (freshMem fun _ => 0#8) (fun _ => 0#8) fresh roomy_empty).1
        have header := header_of_words ⟨mem, freshMem fun _ => 0#8⟩ n positive new.header
        have page (N : Store) (booted : Represents N
            (bootAfter ⟨mem, freshMem fun _ => 0#8⟩ (.afterWords n) fun _ => 0#8).mem) :
            Represents N (crashFlash ⟨mem, freshMem fun _ => 0#8⟩ (.afterWords n)) :=
          represents_of_boot header booted
        refine harmless_of_represents (c := ⟨mem, freshMem fun _ => 0#8⟩) new n ?_ a after matters
        rcases recovered with empty | same | empty
        · exact .inr (page ∅ empty)
        · exact .inl (page M same)
        · exact .inr (page ∅ empty)
  · intro harmless D flash ram old roomyOld
    exact recovers_of_harmless (c := ⟨mem, flash⟩) new old roomy roomyOld p ram harmless

/-- The page of a new device: an empty store written over erased flash. -/
def emptyPage : Memory := freshMem fun _ => 0xff#8

/-- The same with one setting stored. -/
def gainStore : Store := (∅ : Store).insert gainKey (.uint32 2)
def gainPage : Memory := putLine emptyPage gainKey.id (Value.uint32 2).encode

theorem gainPage_represents : Represents gainStore gainPage := by
  have stored := represents_putLine (represents_fresh fun _ => 0xff#8) gainKey (.uint32 2)
  rwa [if_pos (.inr (by decide))] at stored

theorem gainStore_roomy : Roomy gainStore := fun _ _ => .inr (by decide)

/-- In the last line only the first word matters, which is free. -/
theorem gainPage_harmless : Harmless gainStore gainPage (.afterWords 497) := by
  refine .inr fun a after matters => ?_
  have last : lineId gainPage 31 = [] := by decide +kernel
  obtain ⟨i, ⟨_, below⟩, ⟨_, rfl⟩ | ⟨key, v, holds, _, within⟩⟩ := matters
  · simp only [idAddr, lineSize, configLines] at after below
    omega
  · have size := v.length_encode_le
    have there : i = 31 := by
      simp only [idAddr, valueAddr, lineSize, idSize, valueSize, configLines] at within size below
      omega
    subst there
    exact absurd (holds.symm.trans last) key.nonempty

theorem recovers_iff_harmless_gain :
    (Represents gainStore gainPage ∧ Roomy gainStore) ∧ gainStore.lookup gainKey = some (.uint32 2) ∧
    Harmless gainStore gainPage (.afterWords 497) ∧
    ∀ D flash ram, Represents D flash → Roomy D →
      Recovers D gainStore (bootAfter ⟨gainPage, flash⟩ (.afterWords 497) ram) :=
  ⟨⟨gainPage_represents, gainStore_roomy⟩, Finmap.lookup_insert _, gainPage_harmless,
    (recovers_iff_harmless gainStore gainPage gainPage_represents gainStore_roomy (.afterWords 497)).mpr
      gainPage_harmless⟩

/-- After the header word alone, every line looks taken and a setting is dropped. -/
theorem header_word_alone_unusable :
    Represents ∅ emptyPage ∧ Roomy ∅ ∧
    ¬ Recovers ∅ ∅ (bootAfter ⟨emptyPage, emptyPage⟩ (.afterWords 1) fun _ => 0#8) := by
  refine ⟨represents_fresh _, roomy_empty, fun recovered => ?_⟩
  obtain ⟨c', stored, got⟩ := recovered.2 volumeKey (by simp) 5
  have placed := set_eq_putLine (bootAfter ⟨emptyPage, emptyPage⟩ (.afterWords 1) fun _ => 0#8)
    volumeKey (.uint32 5)
  have dropped : getUint32 (putLine (bootAfter ⟨emptyPage, emptyPage⟩ (.afterWords 1)
      fun _ => 0#8).mem volumeKey.id (leBytes 4 5)) volumeKey.id = 0 := by decide
  rw [show setUint32 _ volumeKey.id 5 = _ from placed] at stored
  cases stored
  exact absurd (dropped.symm.trans got) (by decide)

end AsdPre.ConfigCrash
