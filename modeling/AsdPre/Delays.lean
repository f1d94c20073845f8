import AsdPre.Firmware
import AsdPre.Polling

/-! The delay loops of the firmware. `msleep` polls the `msTicks` that the SysTick
interrupt advances, `usleep` the 16-bit counter of TIMER0, which counts up to the
default top 65535 and starts again at 0. -/
namespace AsdPre.Delays

open Firmware Polling

/-- The register is 16 bits wide; the driver passes it as a `uint32_t`. -/
def timerCounterSet (value : BitVec 32) : BitVec 16 := value.setWidth 16

def timerCounterGet (timer : BitVec 16) : BitVec 32 := timer.setWidth 32

def timerCount (timer : BitVec 16) : BitVec 16 := timer + 1

def msleep (d : Device) (ms : BitVec 32) : BusyWait Device :=
  let curTicks := d.msTicks
  { start := d
    tick := sysTickHandler
    waiting := fun d => d.msTicks - curTicks < ms }

/-- The product is an `int`: `us` is promoted, so it does not wrap at 16 bits. -/
def usleep (us : BitVec 16) : BusyWait (BitVec 16) where
  start := timerCounterSet 0
  tick := timerCount
  waiting timer := timerCounterGet timer < BitVec.ofInt 32 ((us.toNat : Int) * 3)

/-- The subtraction cancels the start value, whether or not `msTicks` has wrapped. -/
theorem msleep_compares (d : Device) (ms : BitVec 32) :
    (msleep d ms).ComparesWrapped (2 ^ 32) ms.toNat := by
  intro k
  have elapsed : (sysTickHandler^[k] d).msTicks - d.msTicks = BitVec.ofNat 32 k := by
    have counted := BusyWait.iterate_reading sysTickHandler Device.msTicks (fun _ => rfl) d k
    rw [counted, BitVec.add_comm, BitVec.add_sub_cancel]
  simp only [msleep, BusyWait.count, elapsed]
  simp [BitVec.lt_def]

theorem usleep_compares (us : BitVec 16) :
    (usleep us).ComparesWrapped (2 ^ 16) (3 * us.toNat) := by
  intro k
  have product : (BitVec.ofInt 32 ((us.toNat : Int) * 3)).toNat = 3 * us.toNat := by
    have bound := us.isLt
    rw [BitVec.toNat_ofInt]
    omega
  have counted : timerCount^[k] (timerCounterSet 0) = BitVec.ofNat 16 k := by
    have advanced := BusyWait.iterate_reading timerCount id (fun _ => rfl) (timerCounterSet 0) k
    simpa [timerCounterSet] using advanced
  have read : (timerCounterGet (BitVec.ofNat 16 k)).toNat = k % 2 ^ 16 := by
    simp only [timerCounterGet, BitVec.toNat_setWidth, BitVec.toNat_ofNat]
    omega
  simp only [usleep, BusyWait.count, counted, BitVec.lt_def, read, product]

/-- Past 21845 microseconds the product is more than the counter can hold. -/
theorem usleep_never_returns {us : BitVec 16} (long : 21845 < us.toNat) (order : Schedule)
    (n : Nat) : ((usleep us).after order n).returned = false :=
  (usleep_compares us).never_returns order (by norm_num) (by omega) n

/-- `msleep` returns after exactly `ms` ticks from every start value; `usleep` returns,
and not before `3 * us` counts, just for the delays whose product fits the counter. -/
theorem delays_long_enough_iff (d : Device) (ms : BitVec 32) (us : BitVec 16) :
    (∀ order : Schedule, (msleep d ms).Returns order (· = ms.toNat)) ∧
    ((∀ order : Schedule, (usleep us).Returns order (3 * us.toNat ≤ ·)) ↔ us.toNat ≤ 21845) := by
  constructor
  · intro order
    exact (msleep_compares d ms).returns order ms.isLt
  · have fits := (usleep_compares us).returns_iff (by norm_num)
    rw [fits]
    omega

/-- The shortest delay that never ends. -/
theorem usleep_21846_not_long_enough :
    ¬ ∀ order : Schedule, (usleep 21846).Returns order (3 * 21846 ≤ ·) := by
  intro returns
  obtain ⟨⟨n, -, ended⟩, -⟩ := returns .alternating
  have still : ((usleep 21846).after .alternating (n + 1)).returned = false :=
    usleep_never_returns (by decide) .alternating (n + 1)
  rw [still] at ended
  contradiction

end AsdPre.Delays
