import AsdPre.MainLoopSave

/-! Saving the settings and starting again. The volume is stored as a sign-extended
word and read back through a default for a missing entry and two clamps. -/
namespace AsdPre.MainLoopRestore

open ByteMemory ConfigStore Firmware MainLoop MainLoopSave
open ConfigMap hiding step

/-- The states of an amplifier whose first page held nothing but settings. Power may
fail between any two statements; the RAM holds anything after that. -/
inductive Reachable : Sys → Prop where
  | boot {dac : Byte → Byte} {fpga : SpiSlave.State} {config : Config} {msTicks : BitVec 32}
      {d : Device} (page : SettingsPage config.flash)
      (booted : boot (powerOn dac fpga config) msTicks = .ok d) : Reachable (start d)
  | step {s : Sys} (e : Event) (before : Reachable s) : Reachable (step s e)
  | powerCycle {s : Sys} {dac : Byte → Byte} {fpga : SpiSlave.State} {ram : Memory}
      {msTicks : BitVec 32} {d : Device} (before : Reachable s)
      (booted : boot (powerOn dac fpga ⟨ram, s.dev.config.flash⟩) msTicks = .ok d) :
      Reachable (start d)

theorem reachable_run {s : Sys} (before : Reachable s) (events : List Event) :
    Reachable (run s events) := by
  induction events generalizing s with
  | nil => exact before
  | cons e rest ih => exact ih (.step e before)

/-- Memory and page hold settings only, at every moment. -/
structure Stored (s : Sys) : Prop where
  volatile : ∃ M, Represents M s.dev.config.mem ∧ OnlySettings M
  page : SettingsPage s.dev.config.flash

abbrev Interrupt := { e : Event // e ≠ .main }

/-- A statement of `main` and the interrupts that follow it. -/
def statement (s : Sys) (interrupts : List Interrupt) : Sys :=
  run (mainStep s) (interrupts.map Subtype.val)

/-- The interrupts after each statement of a save but the last. -/
structure Save where
  afterClear : List Interrupt
  afterVolume : List Interrupt
  afterSource : List Interrupt
  afterGain : List Interrupt

section Save

variable (save : Save) (s : Sys)

/-- The program as it comes to each `setUint32` and to `flushConfig`, and after it. -/
def Save.atVolume : Sys := statement s save.afterClear
def Save.atSource : Sys := statement (save.atVolume s) save.afterVolume
def Save.atGain : Sys := statement (save.atSource s) save.afterSource
def Save.atFlush : Sys := statement (save.atGain s) save.afterGain
def Save.done : Sys := mainStep (save.atFlush s)

/-- A restart after the save restores what was saved, whatever the RAM holds. -/
def Save.Restores : Prop :=
  ∀ ram, restoreSource (reboot (save.done s).dev.config ram).mem = (save.atSource s).dev.source ∧
    restoreGain (reboot (save.done s).dev.config ram).mem = (save.atGain s).dev.gain ∧
    (restoreVolume (reboot (save.done s).dev.config ram).mem).toInt =
      max volMin (min (save.atVolume s).dev.volume.toInt volMax)

end Save

theorem interrupt_frame (s : Sys) (e : Interrupt) :
    (step s e.val).point = s.point ∧ (step s e.val).dev.config = s.dev.config := by
  obtain ⟨e, interrupt⟩ := e
  cases e with
  | main => contradiction
  | setVol v =>
    obtain ⟨_, _, changed⟩ := setVol_eq s.dev v
    simp [step, changed]
  | _ => exact ⟨rfl, rfl⟩

theorem statement_frame (s : Sys) (interrupts : List Interrupt) :
    (statement s interrupts).point = (mainStep s).point ∧
      (statement s interrupts).dev.config = (mainStep s).dev.config := by
  rw [statement]
  generalize mainStep s = t
  induction interrupts generalizing t with
  | nil => exact ⟨rfl, rfl⟩
  | cons e rest ih =>
    obtain ⟨point, config⟩ := interrupt_frame t e
    obtain ⟨point', config'⟩ := ih (step t e.val)
    exact ⟨point'.trans point, config'.trans config⟩

/-- Only the statements of a save change the store. -/
theorem mainStep_config (s : Sys) (outside : saving s.point = false) :
    (mainStep s).dev.config = s.dev.config := by
  cases here : s.point
  case saveVolume | saveSource | saveGain | flush => simp [here, saving] at outside
  case waitInit =>
    simp only [mainStep, here]
    split <;> rfl
  all_goals simp [mainStep, here]

theorem stored_setting {s s' : Sys} (stored : Stored s) (key : Key) (val : BitVec 32)
    (setting : key ∈ ({volumeKey, sourceKey, gainKey} : Finset Key))
    (config : s'.dev.config =
      { s.dev.config with mem := putLine s.dev.config.mem key.id (leBytes 4 val.toNat) }) :
    Stored s' := by
  obtain ⟨M, represents, only⟩ := stored.volatile
  refine ⟨⟨M.insert key (.uint32 val), ?_⟩, ?_⟩
  · rw [config]
    exact represents_setting represents only key val setting
  · rw [config]
    exact stored.page

theorem stored_frame {s s' : Sys} (stored : Stored s) (config : s'.dev.config = s.dev.config) :
    Stored s' := by
  refine ⟨?_, ?_⟩ <;> rw [config]
  · exact stored.volatile
  · exact stored.page

theorem stored_main {s : Sys} (stored : Stored s) : Stored (mainStep s) := by
  cases here : s.point
  case saveVolume =>
    exact stored_setting stored volumeKey (s.dev.volume.signExtend 32) (by simp)
      (by simp [mainStep, here, storeSetting_eq])
  case saveSource =>
    exact stored_setting stored sourceKey (BitVec.ofInt 32 s.dev.source) (by simp)
      (by simp [mainStep, here, storeSetting_eq])
  case saveGain =>
    exact stored_setting stored gainKey (BitVec.ofInt 32 s.dev.gain) (by simp)
      (by simp [mainStep, here, storeSetting_eq])
  case flush =>
    obtain ⟨M, represents, only⟩ := stored.volatile
    have config : (mainStep s).dev.config = flushConfig s.dev.config := by simp [mainStep, here]
    refine ⟨⟨M, ?_, only⟩, .inr ⟨M, ?_, only⟩⟩ <;> rw [config]
    · exact represents
    · exact represents_flush represents
  all_goals exact stored_frame stored (mainStep_config s (by rw [here]; rfl))

theorem stored_boot {d d' : Device} (restored : Restored d d') (page : SettingsPage d.config.flash) :
    Stored (start d') := by
  obtain ⟨M, volatile, flashed, only⟩ := settings_boot page restored
  exact ⟨⟨M, volatile, only⟩, .inr ⟨M, flashed, only⟩⟩

theorem stored_of_reachable {s : Sys} (reachable : Reachable s) : Stored s := by
  induction reachable with
  | boot page booted => exact stored_boot (boot_ok booted) page
  | @step s e _ ih =>
    by_cases main : e = .main
    · rw [main]
      exact stored_main ih
    · exact stored_frame ih (interrupt_frame s ⟨e, main⟩).2
  | powerCycle _ booted ih => exact stored_boot (boot_ok booted) ih.page

section Restore

/-- The sentinel for a missing entry is a volume too. -/
theorem restoreVolume_iff (m : Memory) (v : BitVec 16)
    (stored : getUint32 m volumeKey.id = v.signExtend 32) :
    (restoreVolume m).toInt = max volMin (min v.toInt volMax) ↔ v ≠ 0 := by
  have whole : (v.signExtend 32).setWidth 16 = v := by
    ext i bound
    have inside : i < 32 := by omega
    simp [BitVec.getElem_signExtend, bound, inside]
  have zero : v = 0 ↔ v.toInt = 0 := by
    rw [← BitVec.toInt_inj]
    rfl
  have limits := vol_limits
  rw [toInt_restoreVolume, stored, whole, ne_eq, zero]
  split
  next missing =>
    simp only [missing, not_true_eq_false, iff_false]
    omega
  next present => simp only [present, not_false_eq_true]

/-- A statement that stores a setting, and the interrupts after it. -/
theorem statement_setting {s : Sys} {M : Store} (next : Point) (key : Key) (val : BitVec 32)
    (represents : Represents M s.dev.config.mem) (only : OnlySettings M)
    (setting : key ∈ ({volumeKey, sourceKey, gainKey} : Finset Key))
    (stores : mainStep s = storeSetting s next key val) (interrupts : List Interrupt) :
    (statement s interrupts).point = next ∧
      Represents (M.insert key (.uint32 val)) (statement s interrupts).dev.config.mem ∧
      OnlySettings (M.insert key (.uint32 val)) := by
  obtain ⟨point, config⟩ := statement_frame s interrupts
  rw [stores, storeSetting_eq] at point config
  refine ⟨point, ?_⟩
  rw [config]
  exact represents_setting represents only key val setting

/-- When the program comes to `flushConfig`, the map holds the three settings. -/
theorem atFlush_lookup {s : Sys} (stored : Stored s) (here : s.point = .clearSave) (save : Save) :
    (save.atFlush s).point = .flush ∧ ∃ M, Represents M (save.atFlush s).dev.config.mem ∧
      M.lookup volumeKey = some (.uint32 ((save.atVolume s).dev.volume.signExtend 32)) ∧
      M.lookup sourceKey = some (.uint32 (BitVec.ofInt 32 (save.atSource s).dev.source)) ∧
      M.lookup gainKey = some (.uint32 (BitVec.ofInt 32 (save.atGain s).dev.gain)) := by
  obtain ⟨M, represents, only⟩ := stored.volatile
  have cleared := mainStep_config s (by rw [here]; rfl)
  have atVolume : (save.atVolume s).point = .saveVolume ∧
      (save.atVolume s).dev.config = s.dev.config := by
    obtain ⟨point, config⟩ := statement_frame s save.afterClear
    exact ⟨point.trans (by simp [mainStep, here]), config.trans cleared⟩
  rw [← atVolume.2] at represents
  obtain ⟨atSource, represents, only⟩ := statement_setting .saveSource volumeKey _ represents only
    (by simp) (by rw [mainStep, atVolume.1]) save.afterVolume
  obtain ⟨atGain, represents, only⟩ := statement_setting .saveGain sourceKey _ represents only
    (by simp) (by rw [mainStep, atSource]) save.afterSource
  obtain ⟨atFlush, represents, only⟩ := statement_setting .flush gainKey _ represents only
    (by simp) (by rw [mainStep, atGain]) save.afterGain
  refine ⟨atFlush, _, represents, ?_, ?_, Finmap.lookup_insert _⟩
  · rw [Finmap.lookup_insert_of_ne _ (by decide), Finmap.lookup_insert_of_ne _ (by decide),
      Finmap.lookup_insert]
  · rw [Finmap.lookup_insert_of_ne _ (by decide), Finmap.lookup_insert]
    rfl

/-- What a restart reads after a save. -/
theorem restored_settings {s : Sys} (stored : Stored s) (here : s.point = .clearSave) (save : Save)
    (ram : Memory) :
    getUint32 (reboot (save.done s).dev.config ram).mem volumeKey.id =
      (save.atVolume s).dev.volume.signExtend 32 ∧
    getUint32 (reboot (save.done s).dev.config ram).mem sourceKey.id =
      BitVec.ofInt 32 (save.atSource s).dev.source ∧
    getUint32 (reboot (save.done s).dev.config ram).mem gainKey.id =
      BitVec.ofInt 32 (save.atGain s).dev.gain := by
  obtain ⟨point, M, represents, volume, source, gain⟩ := atFlush_lookup stored here save
  have flushed : (save.done s).dev.config = flushConfig (save.atFlush s).dev.config := by
    rw [Save.done, mainStep, point]
  have read := reboot_alike (flushConfig (save.atFlush s).dev.config) represents.header
    (flush_flash _) ram
  rw [flushed, getUint32_congr read _ volumeKey.short, getUint32_congr read _ sourceKey.short,
    getUint32_congr read _ gainKey.short]
  exact ⟨getUint32_of_lookup represents _ _ volume, getUint32_of_lookup represents _ _ source,
    getUint32_of_lookup represents _ _ gain⟩

/-- A save and a restart give back the settings exactly if the saved volume is not 0:
0 is also what a missing entry reads as, and that restores to `VOL_MAX`. -/
theorem restored_iff (s : Sys) (reachable : Reachable s) (here : s.point = .clearSave) (save : Save)
    (source : 0 ≤ (save.atSource s).dev.source ∧ (save.atSource s).dev.source < sources)
    (gain : 0 ≤ (save.atGain s).dev.gain ∧ (save.atGain s).dev.gain ≤ maxGain) :
    save.Restores s ↔ (save.atVolume s).dev.volume ≠ 0 := by
  have settings := restored_settings (stored_of_reachable reachable) here save
  constructor
  · intro restored
    obtain ⟨_, _, volume⟩ := restored fun _ => 0
    exact (restoreVolume_iff _ _ (settings _).1).mp volume
  · intro nonzero ram
    obtain ⟨volume, storedSource, storedGain⟩ := settings ram
    refine ⟨?_, ?_, (restoreVolume_iff _ _ volume).mpr nonzero⟩
    · rw [restoreSource, storedSource]
      exact ofInt_emod _ _ source.1 source.2 (by decide)
    · rw [restoreGain, storedGain]
      exact ofInt_emod _ _ gain.1 (by omega) (by decide)

end Restore

/-- The program about to save, after a start and a change of the volume. -/
def aboutToSave (volume : BitVec 16) : Sys :=
  run (start bootedDevice) (toLoop ++ [.setVol volume, .save, .main, .main])

theorem aboutToSave_reachable (volume : BitVec 16) : Reachable (aboutToSave volume) :=
  reachable_run (.boot (.inl (by decide)) bootedDevice_boots) _

/-- The encoder and the button are used while the settings are being saved. -/
def busySave : Save :=
  ⟨[⟨.setVol (-5), by decide⟩], [⟨.setSource 2, by decide⟩], [⟨.setSource 1, by decide⟩], []⟩

theorem restored_iff_busy : busySave.Restores (aboutToSave 800) ∧
    (busySave.atVolume (aboutToSave 800)).dev.volume = -5 ∧
    (busySave.atSource (aboutToSave 800)).dev.source = 2 :=
  ⟨(restored_iff (aboutToSave 800) (aboutToSave_reachable 800) (by decide +kernel)
      busySave ⟨by decide +kernel, by decide +kernel⟩ ⟨by decide +kernel, by decide +kernel⟩).mpr
      (by decide +kernel),
    by decide +kernel, by decide +kernel⟩

/-- The loudest volume is saved, and the quietest comes back. -/
theorem full_volume_lost : ¬ ∀ (s : Sys) (save : Save), Reachable s → s.point = .clearSave →
    0 ≤ (save.atSource s).dev.source ∧ (save.atSource s).dev.source < sources →
    0 ≤ (save.atGain s).dev.gain ∧ (save.atGain s).dev.gain ≤ maxGain → save.Restores s := by
  intro holds
  obtain ⟨_, _, volume⟩ := holds (aboutToSave 0) ⟨[], [], [], []⟩ (aboutToSave_reachable 0)
    (by decide +kernel) ⟨by decide +kernel, by decide +kernel⟩
    ⟨by decide +kernel, by decide +kernel⟩ fun _ => 0
  exact absurd volume (by decide +kernel)

end AsdPre.MainLoopRestore
