import AsdPre.FpgaAgreement
import AsdPre.FpgaTop

/-! From a setting to the sound: the numbers that the firmware keeps, the registers
that the FPGA got over the SPI bus, the input its multiplexer then listens to, and the
samples on the wire to the DAC. -/
namespace AsdPre.SourceRouting

open ByteMemory ConfigStore Firmware FpgaAgreement
open FpgaTop hiding run step
open AudioPath (slot top dataWidth Sample)

/-- By source number, the input that is played and the socket that the S/PDIF receiver
listens to: 0 is the converter, 1 the optical and 2 the coaxial socket. The unused names
in the firmware's header have 0 and 2 the other way round. -/
def routes : List (Int × Input × Pin) :=
  [(0, .adc, .spdifCoax), (1, .spdif, .spdifToslink), (2, .spdif, .spdifCoax)]

/-- A word of a frame at one of the firmware's gains, each of them 6 dB. -/
def amplified (gain : Int) (word : BitVec 32) : Sample :=
  BitVec.ofInt dataWidth (AudioGain.clamp dataWidth ((top word).toInt * 2 ^ gain.toNat))

theorem settled_run {d : Device} (valid : Settled d) (ops : List Op)
    (legal : ∀ op ∈ ops, Legal op) : Settled (FpgaAgreement.run d ops) :=
  Traces.run_invariant settled_step valid (Traces.along_of_forall _ _ legal)

/-- The register holds one of the three numbers, and the multiplexer follows the table. -/
theorem route_eq {d : Device} (agrees : Agrees d) :
    ∃ input socket, (d.source, input, socket) ∈ routes ∧ selected d.fpga.source = input ∧
      ∀ pins, (sourceMux d.fpga.source pins).spdif = pins socket := by
  have register := agrees.sourceRegister
  have small := agrees.source.2
  have sources : d.fpga.source = 0 ∨ d.fpga.source = 1 ∨ d.fpga.source = 2 ∨ d.fpga.source = 3 := by
    generalize d.fpga.source = source
    decide +revert
  rw [← register] at small ⊢
  rcases sources with h | h | h | h <;> rw [h] at small ⊢
  · exact ⟨.adc, .spdifCoax, by decide, rfl, fun _ => rfl⟩
  · exact ⟨.spdif, .spdifToslink, by decide, rfl, fun _ => rfl⟩
  · exact ⟨.spdif, .spdifCoax, by decide, rfl, fun _ => rfl⟩
  · exact absurd small (by decide)

/-- With a silent SPI bus every falling edge sees the same gain. -/
theorem gains_quiet (c : Chip) (trace : List FpgaTop.Event)
    (quiet : ∀ e ∈ trace, ∃ pin value, e = FpgaTop.Event.level pin value) :
    ∀ g ∈ gains c trace, g = c.spi.gain := by
  induction trace generalizing c with
  | nil => simp [gains, edges, falls]
  | cons e rest ih =>
    obtain ⟨pin, value, rfl⟩ := quiet e (by simp)
    have spi : (FpgaTop.step c (.level pin value)).spi = c.spi := by
      rw [step_spi]
      rfl
    have later := ih (FpgaTop.step c (.level pin value)) fun e' member => quiet e' (by simp [member])
    rw [spi] at later
    intro g member
    rw [gains, edges, falls, List.filterMap_append, List.mem_append] at member
    rcases member with now | afterwards
    · rw [bckEdge_eq c _ (by rw [spi]), edgeBetween, spi] at now
      split at now <;> simp_all
    · exact later g afterwards

theorem getD_gains (c : Chip) (trace : List FpgaTop.Event)
    (quiet : ∀ e ∈ trace, ∃ pin value, e = FpgaTop.Event.level pin value) {i : Nat}
    (inside : i < (gains c trace).length) : (gains c trace).getD i 0 = c.spi.gain := by
  rw [List.getD_eq_getElem _ _ inside]
  exact gains_quiet c trace quiet _ (List.getElem_mem inside)

/-- As many falling edges as the selected input sent bits. -/
theorem length_gains (c : Chip) (trace : List FpgaTop.Event) (low : c.bck = false)
    (ends : (FpgaTop.run c trace).bck = false) (steady : Steady c trace) :
    (gains c trace).length = (listen (c.levels (selected c.spi.source))
      (trace.filterMap (onWires (selected c.spi.source)))).length := by
  have whole := edges_alternate c trace
  rw [low, ends] at whole
  obtain ⟨bits, gained⟩ := pair_parts _ whole
  rw [gains, ← gained, List.length_map, ← rises_edges c trace steady, ← bits, List.length_map]

/-- After a start and any legal commands, whatever the pins of the other input do, the
DAC plays the input that the table has for the firmware's source number, each word at the
firmware's gain, and the S/PDIF receiver gets the socket in the table. -/
theorem settings_reach_the_dac (dac : Byte → Byte) (r : SpiSlave.Registers) (config : Config)
    (msTicks : BitVec 32) (d : Device)
    (booted : boot (powerOn dac (SpiSlave.idle r) config) msTicks = .ok d) (ops : List Op)
    (legal : ∀ op ∈ ops, Legal op) (c : Chip) (wired : c.spi = (FpgaAgreement.run d ops).fpga)
    (low : c.bck = false) (trace : List FpgaTop.Event)
    (quiet : ∀ e ∈ trace, ∃ pin value, e = FpgaTop.Event.level pin value)
    (ends : (FpgaTop.run c trace).bck = false) :
    ∃ input socket, ((FpgaAgreement.run d ops).source, input, socket) ∈ routes ∧
      (FpgaTop.run c trace).outputs.spdif = (FpgaTop.run c trace).pins socket ∧
      ∀ (lead : List (Bool × Bool)) (frames : List Stereo),
        listen (c.levels input) (trace.filterMap (onWires input)) = lead ++ frames.flatMap Stereo.bits →
        ∀ k (next : k + 1 < frames.length),
          ((shown c trace).drop (lead.length + 64 * (k + 1))).take 64 =
            (slot (amplified (FpgaAgreement.run d ops).gain
              (frames.get ⟨k, Nat.lt_of_succ_lt next⟩).left)).map (true, ·) ++
            (slot (amplified (FpgaAgreement.run d ops).gain
              (frames.get ⟨k, Nat.lt_of_succ_lt next⟩).right)).map (false, ·) := by
  have settled := settled_run (settled_boot rfl (boot_ok booted)) ops legal
  have steady := steady_of_levels c trace quiet
  obtain ⟨input, socket, listed, chosen, routed⟩ := route_eq settled.toAgrees
  refine ⟨input, socket, listed, ?_, fun lead frames sends k next => ?_⟩
  · have same := run_spi_of_levels c trace quiet
    have receiver := routed (FpgaTop.run c trace).pins
    rw [← wired, ← same] at receiver
    exact receiver
  · rw [← wired] at chosen
    rw [← chosen] at sends
    have size : (gains c trace).length = lead.length + 64 * frames.length := by
      rw [length_gains c trace low ends steady, sends, List.length_append, length_flatMap_bits]
    have gain : c.spi.gain.toNat = (FpgaAgreement.run d ops).gain.toNat := by
      have register := settled.gainRegister
      rw [wired]
      omega
    have sampled := rises_edges c trace steady
    rw [sends] at sampled
    have played := frame_shown c trace low ends lead frames sampled k next
    rw [getD_gains c trace quiet (by omega), getD_gains c trace quiet (by omega)] at played
    rw [played, AudioPath.amplify, AudioPath.amplify, gain]
    rfl

/-- Source 5 is source 2, the receiver, and gain 6 is gain 2. -/
def listeningFirmware : Device := FpgaAgreement.run bootedDevice [.setSource 5, .setGain 6]

def wiredChip : Chip := ⟨fun _ => false, listeningFirmware.fpga, AudioPath.clearedRegisters⟩

def receiverWave : List FpgaTop.Event := wave .spdif ([] ++ twoFrames.flatMap Stereo.bits)

theorem settings_reach_the_dac_gain_two :
    listeningFirmware.source = 2 ∧
      ((shown wiredChip receiverWave).drop (0 + 64 * (0 + 1))).take 64 =
        (slot (amplified listeningFirmware.gain 0x40000000)).map (true, ·) ++
        (slot (amplified listeningFirmware.gain 0xffffff00)).map (false, ·) := by
  have legal : ∀ op ∈ [Op.setSource 5, .setGain 6], Legal op := by decide
  have source : listeningFirmware.source = 2 := by decide +kernel
  have low : wiredChip.bck = false := (routed_eq wiredChip).1
  have chosen : selected wiredChip.spi.source = .spdif := by decide +kernel
  have ends := bck_wave wiredChip ([] ++ twoFrames.flatMap Stereo.bits) low
  rw [chosen] at ends
  obtain ⟨input, socket, listed, -, played⟩ := settings_reach_the_dac _ ⟨2, 0⟩ _ 2000 bootedDevice
    bootedDevice_boots _ legal wiredChip rfl low receiverWave (wave_quiet _ _) ends
  have input : input = .spdif := by
    change (listeningFirmware.source, input, socket) ∈ routes at listed
    rw [source] at listed
    simp_all [routes]
  subst input
  exact ⟨source, played [] twoFrames (listen_wave _ _ _ rfl) 0 (by decide)⟩

end AsdPre.SourceRouting
