import AsdPre.Firmware
import AsdPre.Traces

/-! The source and the gain live twice, as `int` globals of the firmware and as
two-bit registers of the FPGA. A number gets there through a remainder, a byte on
the wire and the low two bits of it. -/
namespace AsdPre.FpgaAgreement

open ByteMemory ConfigStore Firmware FpgaLink

/-- SET_SOURCE and SET_GAIN with a number `strtol` can return, and the source button
with the level its pin has after the debounce. -/
inductive Op where
  | setSource (n : BitVec 32)
  | setGain (n : BitVec 32)
  | press (pin : Bool)
  deriving DecidableEq, Repr

def step (d : Device) : Op → Device
  | .setSource n => setSource d n.toInt
  | .setGain n => setGain d n.toInt
  | .press pin => cycleSource d pin

def run (d : Device) (ops : List Op) : Device := Traces.run step d ops

/-- Both sides hold the same legal numbers. -/
structure Agrees (d : Device) : Prop where
  source : 0 ≤ d.source ∧ d.source < sources
  gain : 0 ≤ d.gain ∧ d.gain ≤ maxGain
  sourceRegister : (d.fpga.source.toNat : Int) = d.source
  gainRegister : (d.fpga.gain.toNat : Int) = d.gain

/-- The remainder of the argument is not negative. -/
def Legal : Op → Prop
  | .setSource n => 0 ≤ n.toInt ∨ sources ∣ n.toInt
  | .setGain n => 0 ≤ n.toInt ∨ maxGain + 1 ∣ n.toInt
  | .press _ => True

instance : DecidablePred Legal
  | .setSource _ | .setGain _ => inferInstanceAs (Decidable (_ ∨ _))
  | .press _ => inferInstanceAs (Decidable True)

theorem tmod_nonneg_iff (n k : Int) : 0 ≤ n.tmod k ↔ 0 ≤ n ∨ k ∣ n := by
  rw [← Int.sign_nonneg_iff, Int.sign_tmod]
  split <;> simp_all

/-- The low two bits of the byte that carries a number below four. -/
theorem register_toNat (n : Int) (low : 0 ≤ n) (high : n < 4) :
    (((toByte n).setWidth 2).toNat : Int) = n := by
  simp only [toByte, BitVec.toNat_setWidth, BitVec.toNat_ofInt]
  omega

/-- Between transactions, with registers that agree. -/
structure Settled (d : Device) : Prop extends Agrees d where
  idle : ∃ r, d.fpga = SpiSlave.idle r

theorem settled_boot {r : SpiSlave.Registers} (idle : d.fpga = SpiSlave.idle r)
    (restored : Restored d d') : Settled d' := by
  have source : 0 ≤ d'.source ∧ d'.source < sources := by
    rw [restored.source]
    exact restoreSource_range _
  have gain : 0 ≤ d'.gain ∧ d'.gain < maxGain + 1 := by
    rw [restored.gain]
    exact restoreGain_range _
  have fpga := restored.fpga
  rw [idle, fpgaInit_idle] at fpga
  have configured := (Except.ok.inj fpga).symm
  refine ⟨⟨source, ⟨gain.1, Int.lt_add_one_iff.mp gain.2⟩, ?_, ?_⟩, ⟨_, configured⟩⟩
  · rw [configured]
    exact register_toNat _ source.1 (source.2.trans (by decide))
  · rw [configured]
    exact register_toNat _ gain.1 gain.2

theorem settled_setSource (valid : Settled d) (n : Int) (legal : 0 ≤ n.tmod sources) :
    Settled (setSource d n) := by
  obtain ⟨r, idle⟩ := valid.idle
  have small : n.tmod sources < sources := Int.tmod_lt_of_pos _ (by decide)
  have selected : (setSource d n).fpga =
      SpiSlave.idle { r with source := (toByte (n.tmod sources)).setWidth 2 } := by
    rw [setSource_fpga, idle, fpgaSelectSource_idle]
  refine ⟨⟨⟨legal, small⟩, valid.gain, ?_, ?_⟩, ⟨_, selected⟩⟩
  · rw [selected]
    exact register_toNat _ legal (small.trans (by decide))
  · rw [selected]
    have gain := valid.gainRegister
    rwa [idle] at gain

theorem settled_setGain (valid : Settled d) (n : Int) (legal : 0 ≤ n.tmod (maxGain + 1)) :
    Settled (setGain d n) := by
  obtain ⟨r, idle⟩ := valid.idle
  have small : n.tmod (maxGain + 1) < maxGain + 1 := Int.tmod_lt_of_pos _ (by decide)
  have amplified : (setGain d n).fpga =
      SpiSlave.idle { r with gain := (toByte (n.tmod (maxGain + 1))).setWidth 2 } := by
    rw [setGain_fpga, idle, fpgaSetGain_idle]
  refine ⟨⟨valid.source, ⟨legal, Int.lt_add_one_iff.mp small⟩, ?_, ?_⟩, ⟨_, amplified⟩⟩
  · rw [amplified]
    have source := valid.sourceRegister
    rwa [idle] at source
  · rw [amplified]
    exact register_toNat _ legal small

theorem settled_step (d : Device) (op : Op) (valid : Settled d) (legal : Legal op) :
    Settled (step d op) := by
  cases op with
  | setSource n => exact settled_setSource valid _ ((tmod_nonneg_iff _ _).mpr legal)
  | setGain n => exact settled_setGain valid _ ((tmod_nonneg_iff _ _).mpr legal)
  | press pin =>
    cases pin with
    | true => exact valid
    | false =>
      have next : 0 ≤ d.source + 1 := Int.le_add_one valid.source.1
      exact settled_setSource valid _ ((tmod_nonneg_iff _ _).mpr (.inl next))

theorem legal_of_agrees (d : Device) (op : Op) (agrees : Agrees (step d op)) : Legal op := by
  cases op with
  | setSource n => exact (tmod_nonneg_iff _ _).mp agrees.source.1
  | setGain n => exact (tmod_nonneg_iff _ _).mp agrees.gain.1
  | press pin => trivial

/-- Firmware and FPGA agree after every operation exactly when every argument is legal. -/
theorem agree_iff_legal (dac : Byte → Byte) (r : SpiSlave.Registers) (config : Config)
    (msTicks : BitVec 32) (d : Device)
    (booted : boot (powerOn dac (SpiSlave.idle r) config) msTicks = .ok d) (ops : List Op) :
    (∀ done, done <+: ops → Agrees (run d done)) ↔ ∀ op ∈ ops, Legal op := by
  constructor
  · exact Traces.forall_of_prefixes legal_of_agrees
  · intro legal done earlier
    have along : Traces.Along step (fun _ op => Legal op) d done :=
      Traces.along_of_forall _ _ fun op member => legal op (earlier.subset member)
    have final : Settled (run d done) :=
      Traces.run_invariant settled_step (settled_boot rfl (boot_ok booted)) along
    exact final.toAgrees

theorem agree_iff_legal_cycle : boot erasedDevice 2000 = .ok bootedDevice ∧
    Agrees (run bootedDevice [.setSource 5, .setGain 7, .press false, .setGain (-4)]) :=
  ⟨bootedDevice_boots, (agree_iff_legal _ ⟨2, 0⟩ _ 2000 bootedDevice bootedDevice_boots
    [.setSource 5, .setGain 7, .press false, .setGain (-4)]).mpr (by decide) _ (List.prefix_refl _)⟩

/-- SET_SOURCE -1 makes the source -1 and the register 3. -/
theorem negative_source_disagrees : ¬ ∀ (d : Device) (ops : List Op),
    boot erasedDevice 2000 = .ok d → ∀ done, done <+: ops → Agrees (run d done) := by
  intro holds
  have agrees := holds bootedDevice [.setSource (-1)] bootedDevice_boots _ (List.prefix_refl _)
  exact absurd agrees.source.1 (by decide)

end AsdPre.FpgaAgreement
