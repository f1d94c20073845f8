import AsdPre.AndroidApp
import AsdPre.DacVolume

/-! The client refreshing what it shows. `getState` asks for the state and moves the
slider to it; a slider that moves calls its listener, which sends the volume of its
new position, whether or not the user moved it. The mute button and the radio
buttons are only set. -/
namespace AsdPre.AppRefresh

open ByteMemory Firmware CommandServer CommandNumbers AndroidApp DacVolume

/-- The activity's fields, and the position of its slider. No volume that the server
sends takes a result of the two scalings out of the range of an `int`. -/
structure App where
  volmin : Int
  volmax : Int
  volume : Int
  mute : Bool
  source : Int
  gain : Int
  failCounter : Nat
  progress : Int
  deriving DecidableEq, Repr

/-- A message whose answer the rest of the code uses; an exception ends it. -/
def question (d : Device) (app : App) (message : List Byte)
    (rest : Device → App → Int → Option (Device × App)) : Option (Device × App) :=
  match sendMessage d app.failCounter message with
  | none => none
  | some (d', some x) => rest d' { app with failCounter := 0 } x
  | some (d', none) => some (d', { app with failCounter := max app.failCounter 1 + 1 })

def onProgressChanged (d : Device) (app : App) (progress : Int) : Option (Device × App) :=
  let newVol := app.volmax + ((app.volmin - app.volmax) * (100 - progress)).tdiv 100
  question d app (ascii "SET_VOL " ++ decimal newVol) fun d app _ => some (d, app)

/-- `SeekBar.setProgress`: the position is limited, and the listener called if it changes. -/
def setProgress (d : Device) (app : App) (progress : Int) : Option (Device × App) :=
  let progress := max 0 (min progress 100)
  if progress = app.progress then some (d, app)
  else onProgressChanged d { app with progress := progress } progress

def getState (d : Device) (app : App) : Option (Device × App) :=
  question d app (ascii "GET_VOL") fun d app x =>
  question d { app with volume := x } (ascii "GET_VOL_MIN") fun d app x =>
  question d { app with volmin := x } (ascii "GET_VOL_MAX") fun d app x =>
  question d { app with volmax := x } (ascii "GET_MUTE") fun d app x =>
  question d { app with mute := x ≠ 0 } (ascii "GET_SOURCE") fun d app x =>
  question d { app with source := x } (ascii "GET_GAIN") fun d app x =>
  let app := { app with gain := x }
  -- a division by zero is an exception, and caught
  if app.volmin = app.volmax then some (d, app)
  else setProgress d app (100 - (100 * (app.volume - app.volmax)).tdiv (app.volmin - app.volmax))

/-- Nothing that can be heard or asked for is different. -/
structure Unchanged (d d' : Device) : Prop where
  volume : d'.volume = d.volume
  source : d'.source = d.source
  gain : d'.gain = d.gain
  mute : d'.mute = d.mute
  dac : d'.dac = d.dac

/-- The position that shows a volume. -/
def position (volume : Int) : Int := 100 - max volMin (min volume volMax) / 16

/-- The volume is one of the 101 that the slider can send, and the DAC already has the
registers that `setVol` gives it. -/
structure Settled (d : Device) : Prop where
  range : volMin ≤ d.volume.toInt ∧ d.volume.toInt ≤ volMax
  step : (16 : Int) ∣ d.volume.toInt
  level : ((d.dac regVolumeA).toNat : Int) = d.volume.toInt >>> volShift
  muted : d.volume.toInt = volMax → d.dac regMuteCtrl = muteOn
  unmuted : d.volume.toInt < volMax → d.dacMuted = true → d.dac regMuteCtrl = 0xe0

theorem question_of_exchange {d d' : Device} {message : List Byte} {x : Int} (app : App)
    (rest : Device → App → Int → Option (Device × App))
    (exchanged : exchange d message = some (d', some x)) :
    question d app message rest = rest d' { app with failCounter := 0 } x := by
  rw [question, sendMessage_of_exchange exchanged]

section Refresh

variable (d : Device)

theorem exchange_getVolMin : exchange d (ascii "GET_VOL_MIN") = some (d, some volMax) :=
  exchange_get .getVolMin "VOL_MIN" rfl (by simp [ascii, isDelimiter, delimiters]) (by simp [ascii])
    (by norm_num) (by norm_num)

theorem exchange_getVolMax : exchange d (ascii "GET_VOL_MAX") = some (d, some volMin) :=
  exchange_get .getVolMax "VOL_MAX" rfl (by simp [ascii, isDelimiter, delimiters]) (by simp [ascii])
    (by norm_num) (by norm_num)

theorem exchange_getMute :
    exchange d (ascii "GET_MUTE") = some (d, some (if d.mute then 1 else 0)) := by
  have range : -2 ^ 31 ≤ (if d.mute then 1 else 0 : Int) ∧ (if d.mute then 1 else 0 : Int) < 2 ^ 31 := by
    split <;> simp
  exact exchange_get .getMute "MUTE" rfl (by simp [ascii, isDelimiter, delimiters]) (by simp [ascii])
    range.1 range.2

/-- The questions bring the slider to the volume, and nothing else happens before that. -/
theorem getState_eq (app : App) (source : -2 ^ 31 ≤ d.source ∧ d.source < 2 ^ 31)
    (gain : -2 ^ 31 ≤ d.gain ∧ d.gain < 2 ^ 31) :
    ∃ app', app'.progress = app.progress ∧ app'.volmin = volMax ∧ app'.volmax = volMin ∧
      getState d app = setProgress d app'
        (100 - (100 * (d.volume.toInt - volMin)).tdiv (volMax - volMin)) := by
  have scale : ¬ volMax = volMin := by decide
  rw [getState, question_of_exchange _ _ (exchange_getVol d),
    question_of_exchange _ _ (exchange_getVolMin d), question_of_exchange _ _ (exchange_getVolMax d),
    question_of_exchange _ _ (exchange_getMute d),
    question_of_exchange _ _ (exchange_getSource source.1 source.2),
    question_of_exchange _ _ (exchange_getGain gain.1 gain.2)]
  refine ⟨⟨volMax, volMin, d.volume.toInt, (if d.mute then 1 else 0 : Int) ≠ 0, d.source, d.gain, 0,
    app.progress⟩, rfl, rfl, rfl, ?_⟩
  simp only [if_neg scale]

/-- The two truncating divisions, as one. -/
theorem progress_eq (v : Int) :
    max 0 (min (100 - (100 * (v - volMin)).tdiv (volMax - volMin)) 100) = position v := by
  have scale : volMax - volMin = 1600 := rfl
  have limits := vol_limits
  rw [position, scale]
  rcases Int.le_total 0 v with positive | negative
  · rw [Int.tdiv_eq_ediv_of_nonneg (by omega)]
    omega
  · have mirrored : 100 * (v - volMin) = -(100 * (volMin - v)) := by ring
    rw [mirrored, Int.neg_tdiv, Int.tdiv_eq_ediv_of_nonneg (by omega)]
    omega

theorem setProgress_eq (app : App) (volmin : app.volmin = volMax) (volmax : app.volmax = volMin)
    (progress : Int) : ∃ app', setProgress d app progress =
      if max 0 (min progress 100) = app.progress then some (d, app)
      else some (setVol d ((strtol (decimal (16 * (100 - max 0 (min progress 100))))).setWidth 16),
        app') := by
  have step : volMin + ((volMax - volMin) * (100 - max 0 (min progress 100))).tdiv 100 =
      16 * (100 - max 0 (min progress 100)) := by
    have scale : (volMax - volMin) * (100 - max 0 (min progress 100)) =
        16 * (100 - max 0 (min progress 100)) * 100 := by
      have whole : volMax - volMin = 1600 := rfl
      rw [whole]
      ring
    rw [scale, Int.mul_tdiv_cancel _ (by decide)]
    exact zero_add _
  refine ⟨{ app with progress := max 0 (min progress 100), failCounter := 0 }, ?_⟩
  simp only [setProgress, onProgressChanged, volmin, volmax, step]
  split
  · rfl
  · exact question_of_exchange _ _ (exchange_setVol d _)

/-- Setting a volume is no change exactly if it is the volume already and the two
registers have it. -/
theorem unchanged_setVol_iff (v : BitVec 16) : Unchanged d (setVol d v) ↔
    v = d.volume ∧ volumeRegister v = d.dac regVolumeA ∧
      (setVol d v).dac regMuteCtrl = d.dac regMuteCtrl := by
  constructor
  · rintro ⟨volume, _, _, _, dac⟩
    refine ⟨?_, ?_, congrFun dac _⟩
    · rw [← volume, setVol_volume]
    · rw [← dac, setVol_regVolumeA]
  · rintro ⟨volume, level, muteCtrl⟩
    have dac : (setVol d v).dac = d.dac := by
      funext r
      by_cases isVolume : r = regVolumeA
      · rw [isVolume, setVol_regVolumeA, level]
      · by_cases isMute : r = regMuteCtrl
        · rw [isMute, muteCtrl]
        · exact setVol_dac_other d v r isVolume isMute
    obtain ⟨dacMuted, registers, changed⟩ := setVol_eq d v
    refine ⟨?_, ?_, ?_, ?_, dac⟩
    · rw [setVol_volume, volume]
    all_goals rw [changed]

/-- The volume that the slider sends from the position of another. -/
theorem sent_volume (v : Int) :
    ((strtol (decimal (16 * (100 - position v)))).setWidth 16).toInt =
      16 * (max volMin (min v volMax) / 16) := by
  have limits := vol_limits
  have sent : 16 * (100 - position v) = 16 * (max volMin (min v volMax) / 16) := by
    rw [position]
    ring
  rw [toInt_setWidth_strtol, sent, saturated_bmod _ (by omega) (by omega)]

theorem volumeRegister_inside (v : BitVec 16) (range : volMin ≤ v.toInt ∧ v.toInt ≤ volMax) :
    ((volumeRegister v).toNat : Int) = v.toInt >>> volShift := by
  by_cases audible : v.toInt < volMax
  · rw [toNat_volumeRegister v audible, max_eq_left range.1]
  · have limit : v.toInt = volMax := by omega
    rw [toNat_volumeRegister_quiet v (by omega), limit]
    decide

theorem settled_iff : Unchanged d
    (setVol d ((strtol (decimal (16 * (100 - position d.volume.toInt)))).setWidth 16)) ↔ Settled d := by
  have limits := vol_limits
  have sent := sent_volume d.volume.toInt
  rw [unchanged_setVol_iff]
  generalize (strtol (decimal (16 * (100 - position d.volume.toInt)))).setWidth 16 = v at sent
  rw [setVol_regMuteCtrl]
  constructor
  · rintro ⟨rfl, level, muteCtrl⟩
    have range : volMin ≤ d.volume.toInt ∧ d.volume.toInt ≤ volMax := by omega
    refine ⟨range, ⟨_, sent⟩, ?_, fun limit => ?_, fun audible flag => ?_⟩
    · rw [← level, volumeRegister_inside _ range]
    · rw [if_pos (by omega)] at muteCtrl
      exact muteCtrl.symm
    · rw [if_neg (by omega), if_pos flag] at muteCtrl
      exact muteCtrl.symm
  · rintro ⟨range, ⟨k, step⟩, level, muted, unmuted⟩
    have same : v = d.volume := by
      apply BitVec.eq_of_toInt_eq
      omega
    subst same
    refine ⟨rfl, ?_, ?_⟩
    · apply BitVec.eq_of_toNat_eq
      have register := volumeRegister_inside d.volume range
      omega
    · by_cases limit : d.volume.toInt = volMax
      · rw [if_pos (by omega), muted limit]
      · rw [if_neg (by omega)]
        split
        next flag => exact (unmuted (by omega) flag).symm
        next => rfl

/-- A refresh is read-only exactly if the slider shows the volume already, or the
volume and the DAC are as the slider would set them. -/
theorem refresh_iff (app : App) (source : -2 ^ 31 ≤ d.source ∧ d.source < 2 ^ 31)
    (gain : -2 ^ 31 ≤ d.gain ∧ d.gain < 2 ^ 31) :
    (∃ d' app', getState d app = some (d', app') ∧ Unchanged d d') ↔
      app.progress = position d.volume.toInt ∨ Settled d := by
  obtain ⟨shown, progress, volmin, volmax, asked⟩ := getState_eq d app source gain
  obtain ⟨moved, slid⟩ := setProgress_eq d shown volmin volmax
    (100 - (100 * (d.volume.toInt - volMin)).tdiv (volMax - volMin))
  rw [progress_eq, progress] at slid
  rw [asked, slid]
  by_cases still : position d.volume.toInt = app.progress
  · rw [if_pos still]
    simp only [still, true_or, iff_true]
    exact ⟨d, shown, rfl, rfl, rfl, rfl, rfl, rfl⟩
  · have moves : app.progress ≠ position d.volume.toInt := fun same => still same.symm
    rw [if_neg still, ← settled_iff]
    simp [moves]

end Refresh

/-- A client that has shown nothing yet. -/
def freshApp : App := ⟨1600, 0, 1600, false, 0, 0, 0, 0⟩

/-- At half the range a refresh from any position is harmless. -/
theorem refresh_iff_half : ∃ d' app', getState (setVol bootedDevice 800) freshApp = some (d', app') ∧
    Unchanged (setVol bootedDevice 800) d' := by
  have source : (setVol bootedDevice 800).source = 0 := by decide +kernel
  have gain : (setVol bootedDevice 800).gain = 0 := by decide +kernel
  refine (refresh_iff _ freshApp (by rw [source]; decide) (by rw [gain]; decide)).mpr (.inr ?_)
  constructor <;> decide +kernel

/-- At volume 5 a refresh turns the amplifier up to full volume. -/
theorem refresh_changes_volume : ¬ ∀ (d : Device) (app : App),
    -2 ^ 31 ≤ d.source ∧ d.source < 2 ^ 31 → -2 ^ 31 ≤ d.gain ∧ d.gain < 2 ^ 31 →
    0 ≤ app.progress ∧ app.progress ≤ 100 →
    ∃ d' app', getState d app = some (d', app') ∧ Unchanged d d' := by
  intro holds
  have source : (setVol bootedDevice 5).source = 0 := by decide +kernel
  have gain : (setVol bootedDevice 5).gain = 0 := by decide +kernel
  obtain ⟨d', app', refreshed, unchanged⟩ := holds (setVol bootedDevice 5) freshApp
    (by rw [source]; decide) (by rw [gain]; decide) (by decide)
  have volume : (getState (setVol bootedDevice 5) freshApp).map (·.1.volume) = some 0 := by
    decide +kernel
  rw [refreshed] at volume
  have same : d'.volume = 5 := unchanged.volume.trans (setVol_volume _ _)
  simp [same] at volume

end AsdPre.AppRefresh
