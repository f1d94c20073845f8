import AsdPre.ByteMemory
import AsdPre.SpiSlave

/-! The microcontroller's side of the SPI bus. The USART sends most significant
bit first with the clock idle low; each function is one transaction under CS. -/
namespace AsdPre.FpgaLink

open ByteMemory ShiftRegister
open SpiSlave hiding cmdMagic cmdSource cmdGain

/-- `CMD_MAGIC`, `CMD_SOURCE`, `CMD_GAIN` and `MAGIC` as the firmware defines them. -/
def cmdMagic : Byte := 0x01
def cmdSource : Byte := 0x02
def cmdGain : Byte := 0x03
def magicNumber : Byte := 0xad

/-- The bytes of one transaction as the slave sees them. -/
def exchange (bytes : List Byte) : List Edge := transaction (bytes.flatMap wireBits)

def fpgaSelectSource (s : State) (source : Byte) : State := run s (exchange [cmdSource, source])

def fpgaSetGain (s : State) (gain : Byte) : State := run s (exchange [cmdGain, gain])

/-- The second received byte, and the slave afterwards. -/
def readMagic (s : State) : State × Byte :=
  (run s (exchange [cmdMagic, 0]), (words 8 (sampled s (exchange [cmdMagic, 0]))).getD 1 0)

/-- The error is the text given to `panic`. -/
def fpgaInit (s : State) (source gain : Byte) : Except String State :=
  let (s, magic) := readMagic s
  if magic ≠ magicNumber then
    .error ("Incorrect FPGA magic number '" ++ String.ofList (Nat.toDigits 16 magic.toNat) ++ "'")
  else
    .ok (fpgaSetGain (fpgaSelectSource s source) gain)

theorem words_wireBits (bytes : List Byte) : words 8 (bytes.flatMap wireBits) = bytes := by
  induction bytes with
  | nil => rfl
  | cons b rest ih =>
    rw [List.flatMap_cons, words_append _ _ (length_wireBits b) (by decide), shiftIn_wireBits, ih]

theorem exchange_run (r : Registers) (bytes : List Byte) :
    run (idle r) (exchange bytes) = idle (byteRun r bytes).2 := by
  rw [exchange, transaction_run, byteTransaction, words_wireBits]

@[simp] theorem fpgaSelectSource_idle (r : Registers) (source : Byte) :
    fpgaSelectSource (idle r) source = idle { r with source := source.setWidth 2 } :=
  exchange_run r _

@[simp] theorem fpgaSetGain_idle (r : Registers) (gain : Byte) :
    fpgaSetGain (idle r) gain = idle { r with gain := gain.setWidth 2 } :=
  exchange_run r _

theorem readMagic_idle (r : Registers) : readMagic (idle r) = (idle r, magicNumber) := by
  have answers := transaction_sampled r ([cmdMagic, 0].flatMap wireBits)
  rw [words_wireBits] at answers
  rw [readMagic, exchange_run, exchange, answers]
  rfl

/-- A configured FPGA answers, and then holds what it was given. -/
theorem fpgaInit_idle (r : Registers) (source gain : Byte) :
    fpgaInit (idle r) source gain = .ok (idle ⟨source.setWidth 2, gain.setWidth 2⟩) := by
  simp [fpgaInit, readMagic_idle]

end AsdPre.FpgaLink
