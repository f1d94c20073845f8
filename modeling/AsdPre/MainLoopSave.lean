import AsdPre.MainLoop

/-! The deferred save. A change of source or gain sets `saveSettings`; the main loop
clears the flag and copies the settings to flash over several statements, any of
which a further change may interrupt. -/
namespace AsdPre.MainLoopSave

open ByteMemory ConfigStore Firmware MainLoop
open ConfigMap hiding step

/-- A restart would restore the current source and gain, whatever the RAM holds. -/
def OnFlash (d : Device) : Prop :=
  ∀ ram, restoreSource (reboot d.config ram).mem = d.source ∧
    restoreGain (reboot d.config ram).mem = d.gain

/-- The store holds no ids but those of `main`. -/
def OnlySettings (M : Store) : Prop := M.keys ⊆ {volumeKey, sourceKey, gainKey}

theorem onlySettings_accepts (only : OnlySettings M) (key : Key) : accepts M key := by
  right
  calc M.keys.card ≤ ({volumeKey, sourceKey, gainKey} : Finset Key).card := Finset.card_le_card only
    _ ≤ 3 := Finset.card_le_three
    _ < capacity := by decide

theorem onlySettings_insert (only : OnlySettings M) (key : Key) (v : Value)
    (setting : key ∈ ({volumeKey, sourceKey, gainKey} : Finset Key)) : OnlySettings (M.insert key v) := by
  intro other member
  rcases Finmap.mem_insert.mp (Finmap.mem_keys.mp member) with rfl | old
  · exact setting
  · exact only (Finmap.mem_keys.mpr old)

theorem represents_setting (represents : Represents M m) (only : OnlySettings M) (key : Key)
    (val : BitVec 32) (setting : key ∈ ({volumeKey, sourceKey, gainKey} : Finset Key)) :
    Represents (M.insert key (.uint32 val)) (putLine m key.id (leBytes 4 val.toNat)) ∧
      OnlySettings (M.insert key (.uint32 val)) := by
  have put := represents_putLine represents key (.uint32 val)
  rw [if_pos (onlySettings_accepts only key)] at put
  exact ⟨put, onlySettings_insert only key _ setting⟩

theorem onFlash_of_alike (d : Device) (header : headerMatches d.config.mem = true)
    (alike : ∀ a < flashSize, d.config.flash a = d.config.mem a)
    (source : restoreSource d.config.mem = d.source) (gain : restoreGain d.config.mem = d.gain) :
    OnFlash d := by
  intro ram
  have read := reboot_alike d.config header alike ram
  rw [restoreSource, getUint32_congr read _ sourceKey.short, restoreGain,
    getUint32_congr read _ gainKey.short]
  exact ⟨source, gain⟩

theorem ofInt_emod (n k : Int) (low : 0 ≤ n) (high : n < k) (small : k ≤ 2 ^ 32) :
    ((BitVec.ofInt 32 n).toNat : Int) % k = n := by
  have stored : ((BitVec.ofInt 32 n).toNat : Int) = n := by
    rw [BitVec.toNat_ofInt]
    omega
  rw [stored]
  exact Int.emod_eq_of_lt low high

/-- Between the first `setUint32` of a save and its flush. -/
def saving : Point → Bool
  | .saveVolume | .saveSource | .saveGain | .flush => true
  | _ => false

/-- Either the flag is set, or the statements of a save so far have put the current
settings into the map, or they are on flash. -/
structure Consistent (s : Sys) (M : Store) : Prop where
  source : 0 ≤ s.dev.source ∧ s.dev.source < sources
  gain : 0 ≤ s.dev.gain ∧ s.dev.gain < maxGain + 1
  volatile : Represents M s.dev.config.mem
  only : OnlySettings M
  requested : s.point = .clearSave → s.dev.saveSettings = true
  sourceSaved : s.dev.saveSettings = false → s.point = .saveGain ∨ s.point = .flush →
    M.lookup sourceKey = some (.uint32 (BitVec.ofInt 32 s.dev.source))
  gainSaved : s.dev.saveSettings = false → s.point = .flush →
    M.lookup gainKey = some (.uint32 (BitVec.ofInt 32 s.dev.gain))
  flashed : s.dev.saveSettings = false → saving s.point = false → OnFlash s.dev

theorem consistent_flushed (valid : Consistent s M) (here : s.point = .flush)
    (clean : s.dev.saveSettings = false) :
    OnFlash { s.dev with config := flushConfig s.dev.config } := by
  have sourceSaved := getUint32_of_lookup valid.volatile _ _ (valid.sourceSaved clean (.inr here))
  have gainSaved := getUint32_of_lookup valid.volatile _ _ (valid.gainSaved clean here)
  apply onFlash_of_alike
  · exact valid.volatile.header
  · exact flush_flash s.dev.config
  · simp only [restoreSource, flushConfig, sourceSaved]
    exact ofInt_emod _ _ valid.source.1 valid.source.2 (by decide)
  · simp only [restoreGain, flushConfig, gainSaved]
    exact ofInt_emod _ _ valid.gain.1 valid.gain.2 (by decide)

/-- A step that leaves the settings and the store alone, and neither starts nor ends a save. -/
theorem consistent_frame {s s' : Sys} (valid : Consistent s M) (config : s'.dev.config = s.dev.config)
    (source : s'.dev.source = s.dev.source) (gain : s'.dev.gain = s.dev.gain)
    (flag : s'.dev.saveSettings = s.dev.saveSettings)
    (moved : s'.point = s.point ∨ saving s.point = false ∧ saving s'.point = false ∧
      (s'.point = .clearSave → s.dev.saveSettings = true)) : Consistent s' M := by
  have onFlash : OnFlash s'.dev ↔ OnFlash s.dev := by
    simp only [OnFlash, config, source, gain]
  refine ⟨by rw [source]; exact valid.source, by rw [gain]; exact valid.gain,
    by rw [config]; exact valid.volatile, valid.only, ?_, ?_, ?_, ?_⟩ <;>
    simp only [source, gain, flag, onFlash] <;>
    rcases moved with same | ⟨outside, outside', requested⟩
  · rw [same]
    exact valid.requested
  · exact requested
  · rw [same]
    exact valid.sourceSaved
  · rintro _ (here | here) <;> simp [here, saving] at outside'
  · rw [same]
    exact valid.gainSaved
  · rintro _ here
    simp [here, saving] at outside'
  · rw [same]
    exact valid.flashed
  · exact fun clean _ => valid.flashed clean outside

theorem consistent_main (valid : Consistent s M) : ∃ M', Consistent (mainStep s) M' := by
  have ⟨source, gain, volatile, only, _, sourceSaved, _, _⟩ := valid
  cases h : s.point
  case saveVolume =>
    obtain ⟨put, only'⟩ := represents_setting volatile only volumeKey
      (s.dev.volume.signExtend 32) (by simp)
    simp only [mainStep, h, storeSetting_eq]
    exact ⟨_, source, gain, put, only', by simp, by simp, by simp, by simp [saving]⟩
  case saveSource =>
    obtain ⟨put, only'⟩ := represents_setting volatile only sourceKey
      (BitVec.ofInt 32 s.dev.source) (by simp)
    simp only [mainStep, h, storeSetting_eq]
    exact ⟨_, source, gain, put, only', by simp, fun _ _ => Finmap.lookup_insert M, by simp,
      by simp [saving]⟩
  case saveGain =>
    obtain ⟨put, only'⟩ := represents_setting volatile only gainKey
      (BitVec.ofInt 32 s.dev.gain) (by simp)
    simp only [mainStep, h, storeSetting_eq]
    refine ⟨_, source, gain, put, only', by simp, fun clean _ => ?_,
      fun _ _ => Finmap.lookup_insert M, by simp [saving]⟩
    exact (Finmap.lookup_insert_of_ne M (by decide)).trans (sourceSaved clean (.inl h))
  case flush =>
    simp only [mainStep, h]
    exact ⟨M, source, gain, volatile, only, by simp, by simp, by simp,
      fun clean _ => consistent_flushed valid h clean⟩
  case clearSave =>
    simp only [mainStep, h]
    exact ⟨M, source, gain, volatile, only, by simp, by simp, by simp, by simp [saving]⟩
  case waitInit =>
    refine ⟨M, ?_⟩
    simp only [mainStep, h]
    split
    · exact valid
    · exact consistent_frame valid rfl rfl rfl rfl (.inr (by simp [h, saving]))
  case testSave =>
    refine ⟨M, consistent_frame valid ?_ ?_ ?_ ?_ (.inr ?_)⟩
    all_goals cases flag : s.dev.saveSettings <;> simp [mainStep, h, flag, saving]
  case testMute =>
    refine ⟨M, consistent_frame valid ?_ ?_ ?_ ?_ (.inr ?_)⟩
    all_goals by_cases ended : s.dev.muteCounter = 0 <;> simp [mainStep, h, ended, saving]
  all_goals
    refine ⟨M, consistent_frame valid ?_ ?_ ?_ ?_ (.inr ?_)⟩ <;> simp [mainStep, h, saving]

/-- The changes whose arguments are not negative. -/
def NotNegative : Event → Prop
  | .setSource n | .setGain n => 0 ≤ n
  | _ => True

theorem consistent_step (s : Sys) (e : Event) (valid : ∃ M, Consistent s M) (ok : NotNegative e) :
    ∃ M, Consistent (step s e) M := by
  obtain ⟨M, valid⟩ := valid
  cases e with
  | main => exact consistent_main valid
  | sysTick => exact ⟨M, consistent_frame valid rfl rfl rfl rfl (.inl rfl)⟩
  | setSource n =>
    have source : 0 ≤ n.tmod sources ∧ n.tmod sources < sources :=
      ⟨Int.tmod_nonneg _ ok, Int.tmod_lt_of_pos _ (by decide)⟩
    exact ⟨M, source, valid.gain, valid.volatile, valid.only, fun _ => rfl, by simp [step],
      by simp [step], by simp [step]⟩
  | setGain n =>
    have gain : 0 ≤ n.tmod (maxGain + 1) ∧ n.tmod (maxGain + 1) < maxGain + 1 :=
      ⟨Int.tmod_nonneg _ ok, Int.tmod_lt_of_pos _ (by decide)⟩
    exact ⟨M, valid.source, gain, valid.volatile, valid.only, fun _ => rfl, by simp [step],
      by simp [step], by simp [step]⟩
  | setVol v =>
    obtain ⟨_, _, changed⟩ := setVol_eq s.dev v
    refine ⟨M, consistent_frame valid ?_ ?_ ?_ ?_ (.inl rfl)⟩ <;> simp [step, changed]
  | setMute b => exact ⟨M, consistent_frame valid rfl rfl rfl rfl (.inl rfl)⟩
  | save => exact ⟨M, valid.source, valid.gain, valid.volatile, valid.only, fun _ => rfl,
      by simp [step], by simp [step], by simp [step]⟩

/-- A page without the header, or a store of nothing but settings. -/
def SettingsPage (flash : Memory) : Prop :=
  headerMatches flash = false ∨ ∃ M, Represents M flash ∧ OnlySettings M

/-- After a start, the page and its copy hold one map of settings. -/
theorem settings_boot (page : SettingsPage d.config.flash) (restored : Restored d d') :
    ∃ M, Represents M d'.config.mem ∧ Represents M d'.config.flash ∧ OnlySettings M := by
  rw [restored.config]
  rcases page with missing | ⟨M, represents, only⟩
  · obtain ⟨volatile, stored⟩ := configInit_of_noHeader _ missing
    exact ⟨∅, volatile, stored, by simp [OnlySettings]⟩
  · obtain ⟨volatile, stored⟩ := configInit_of_represents _ represents
    exact ⟨M, volatile, stored, only⟩

theorem consistent_boot (page : SettingsPage d.config.flash) (restored : Restored d d') :
    ∃ M, Consistent (start d') M := by
  obtain ⟨M, volatile, _, only⟩ := settings_boot page restored
  obtain ⟨header, alike⟩ := configInit_alike d.config
  rw [← restored.config] at header alike
  have onFlash := onFlash_of_alike d' header alike restored.source.symm restored.gain.symm
  refine ⟨M, ?_, ?_, volatile, only, by simp [start], by simp [start], by simp [start],
    fun _ _ => onFlash⟩
  · rw [start, restored.source]
    exact restoreSource_range _
  · rw [start, restored.gain]
    exact restoreGain_range _

/-- At the head of the loop with nothing left to save, the settings are on flash. -/
theorem change_not_lost (dac : Byte → Byte) (fpga : SpiSlave.State) (config : Config)
    (msTicks : BitVec 32) (d : Device) (page : SettingsPage config.flash)
    (booted : boot (powerOn dac fpga config) msTicks = .ok d) (events : List Event)
    (ok : ∀ e ∈ events, NotNegative e) (atHead : (run (start d) events).point = .head)
    (clean : (run (start d) events).dev.saveSettings = false) :
    OnFlash (run (start d) events).dev := by
  have along : Traces.Along step (fun _ e => NotNegative e) (start d) events :=
    Traces.along_of_forall _ _ ok
  have final : ∃ M, Consistent (run (start d) events) M :=
    Traces.run_invariant consistent_step (consistent_boot page (boot_ok booted)) along
  obtain ⟨M, final⟩ := final
  exact final.flashed clean (by rw [atHead]; rfl)

/-- Two changes, the second in the middle of saving the first. -/
def changedTwice : List Event :=
  toLoop ++ [.setSource 2, .main, .main, .main, .main, .setGain 1] ++ List.replicate 12 .main

theorem change_not_lost_twice :
    OnFlash (run (start bootedDevice) changedTwice).dev ∧
      (run (start bootedDevice) changedTwice).dev.source = 2 ∧
      (run (start bootedDevice) changedTwice).dev.gain = 1 :=
  ⟨change_not_lost _ _ _ 2000 bootedDevice (.inl (by decide)) bootedDevice_boots changedTwice
    (by simp [changedTwice, toLoop, NotNegative]) (by decide +kernel) (by decide +kernel),
    by decide +kernel, by decide +kernel⟩

end AsdPre.MainLoopSave
