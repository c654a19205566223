import Qboot.Model.Device
import Qboot.Proofs.Record
/-!
# Storage calls on a steady device

The calls through the operation table on region-backed storage under steady
power, and how the 32-bit alignment macros relate to rounding.
-/

namespace Qboot

open Library Bytes Flash Machine

variable {κ : Type} {backend : TargetId → Backend}
  {m : Machine FlashDev κ} {h : Handle}

def Machine.storing (m : Machine FlashDev κ) (id : TargetId) (r : Region)
    (es : List Event) : Machine FlashDev κ :=
  { m.record es with dev := m.dev.setRegion id r }

@[simp] theorem Machine.storing_log (m : Machine FlashDev κ) (id : TargetId)
    (r : Region) (es : List Event) : (m.storing id r es).log = m.log ++ es := rfl

@[simp] theorem Machine.storing_power (m : Machine FlashDev κ) (id : TargetId)
    (r : Region) (es : List Event) :
    (m.storing id r es).dev.power = m.dev.power := rfl

@[simp] theorem Machine.storing_same (m : Machine FlashDev κ) (id : TargetId)
    (r : Region) (es : List Event) :
    (m.storing id r es).dev.region id = r := FlashDev.setRegion_same _ _ _

theorem Machine.storing_other (m : Machine FlashDev κ) {id id' : TargetId}
    (r : Region) (es : List Event) (hne : id' ≠ id) :
    (m.storing id r es).dev.region id' = m.dev.region id' :=
  FlashDev.setRegion_other _ _ hne

def Fits (m : Machine FlashDev κ) (h : Handle) (off len : Nat) : Prop :=
  0 < (m.dev.region h.target).size ∧ off + len ≤ (m.dev.region h.target).size

theorem ioRead_steady {off len : Nat} (hpower : m.dev.power = .steady)
    (hfit : Fits m h off len) :
    ioRead (regionIo backend) h off len m =
      (some ((m.dev.region h.target).read off len),
        m.record [.read h.target off len (some ((m.dev.region h.target).read off len).1)]) := by
  have hrange := Backend.inRange_of_le (b := backend h.target) hfit.1 hfit.2
  rw [run_ioRead, regionIo_read hpower hrange]
  rfl

theorem eraseWithFeed_steady {off len : Nat} (hpower : m.dev.power = .steady)
    (hfit : Fits m h off len) :
    eraseWithFeed (regionIo backend) h off len m =
      (true, m.storing h.target ((m.dev.region h.target).erase off len)
        [.erased h.target off len true]) := by
  have hrange := Backend.inRange_of_le (b := backend h.target) hfit.1 hfit.2
  rw [run_eraseWithFeed, regionIo_erase hpower hrange]
  rfl

theorem eraseWithFeed_outside {off len : Nat} (hlen : 0 < len)
    (hout : (m.dev.region h.target).size < off + len) :
    eraseWithFeed (regionIo backend) h off len m =
      (false, m.record [.erased h.target off len false]) := by
  have hrange := Backend.not_inRange_of_gt (b := backend h.target) hlen hout
  simp [run_eraseWithFeed, regionIo, hrange, Machine.record]

theorem ioWrite_steady {off : Nat} {data : List UInt8}
    (hpower : m.dev.power = .steady) (hfit : Fits m h off data.length) :
    ioWrite (regionIo backend) h off data m =
      (true, m.storing h.target ((m.dev.region h.target).program off data)
        [.wrote h.target off data true]) := by
  have hrange := Backend.inRange_of_le (b := backend h.target) hfit.1 hfit.2
  rw [run_ioWrite, regionIo_write hpower hrange]
  rfl

theorem ioWrite_outside {off : Nat} {data : List UInt8} (hlen : 0 < data.length)
    (hout : (m.dev.region h.target).size < off + data.length) :
    ioWrite (regionIo backend) h off data m =
      (false, m.record [.wrote h.target off data false]) := by
  have hrange := Backend.not_inRange_of_gt (b := backend h.target) hlen hout
  simp [run_ioWrite, regionIo, hrange, Machine.record]

theorem targetOpen_region {id : TargetId} (hsize : (m.dev.region id).size ≠ 0)
    (flags : OpenFlags) :
    targetOpen (regionIo backend) id flags m =
      ((some ⟨id, 0⟩, some (m.dev.region id).size),
        m.record [.opened id true]) := by
  have hopen : (regionIo backend).openTarget id flags m.dev =
      (some 0, m.dev) := by
    simp [regionIo, hsize]
  simp only [targetOpen, Prog.run_bind, run_onDev, hopen]
  rfl

/-! ## Alignment -/

private theorem align_mask {k : Nat} (hk : k ≤ 31) :
    2 ^ 32 - 1 - u32 (2 ^ k + 2 ^ 32 - 1) = 2 ^ 32 - 2 ^ k := by
  have hpos : 0 < 2 ^ k := Nat.two_pow_pos k
  have hle : 2 ^ k ≤ 2 ^ 31 := Nat.pow_le_pow_right (by omega) hk
  rw [u32, show 2 ^ k + 2 ^ 32 - 1 = (2 ^ k - 1) + 2 ^ 32 by omega,
    Nat.add_mod_right, Nat.mod_eq_of_lt (by omega)]
  omega

theorem rtAlign_eq_up {x k : Nat} (hk : k ≤ 31) (hx : x + 2 ^ k ≤ 2 ^ 32) :
    rtAlign x (2 ^ k) = up x (2 ^ k) := by
  have hpos : 0 < 2 ^ k := Nat.two_pow_pos k
  have hsum : u32 (x + (2 ^ k + 2 ^ 32 - 1)) = x + 2 ^ k - 1 := by
    rw [u32, show x + (2 ^ k + 2 ^ 32 - 1) = (x + 2 ^ k - 1) + 2 ^ 32 by omega,
      Nat.add_mod_right, Nat.mod_eq_of_lt (by omega)]
  rw [rtAlign, align_mask hk, hsum, land_mask (by omega) (by omega)]
  rfl

theorem rtAlignDown_eq_down {x k : Nat} (hk : k ≤ 31) (hx : x < 2 ^ 32) :
    rtAlignDown x (2 ^ k) = down x (2 ^ k) := by
  rw [rtAlignDown, align_mask hk, u32, Nat.mod_eq_of_lt hx,
    land_mask (by omega) hx]

end Qboot
