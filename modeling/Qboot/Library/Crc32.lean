import Mathlib.Tactic.Common
/-!
# CRC-32

The reflected CRC-32 (polynomial `0xEDB88320`), incremental and whole.  The
only property the clients use is that updates over consecutive pieces compose.
-/

namespace Library.Crc32

/-- One bit of the reflected division. -/
def shiftBit (crc : UInt32) : UInt32 :=
  if crc &&& 1 = 1 then (crc >>> 1) ^^^ 0xEDB88320 else crc >>> 1

/-- Feed one byte. -/
def updateByte (crc : UInt32) (byte : UInt8) : UInt32 :=
  shiftBit (shiftBit (shiftBit (shiftBit (shiftBit (shiftBit (shiftBit
    (shiftBit (crc ^^^ byte.toUInt32))))))))

/-- Feed the bytes of `bytes` in order. -/
def update (crc : UInt32) (bytes : List UInt8) : UInt32 :=
  bytes.foldl updateByte crc

/-- The CRC-32 of a whole byte string. -/
def checksum (bytes : List UInt8) : UInt32 :=
  update 0xFFFFFFFF bytes ^^^ 0xFFFFFFFF

@[simp] theorem update_nil (crc : UInt32) : update crc [] = crc := rfl

theorem update_append (crc : UInt32) (a b : List UInt8) :
    update crc (a ++ b) = update (update crc a) b :=
  List.foldl_append

example : checksum [0x31, 0x32, 0x33, 0x34, 0x35, 0x36, 0x37, 0x38, 0x39] =
    0xCBF43926 := by decide +kernel

/-! ## Evaluation -/

/-- `f n`, where evaluation reduces `n` to a numeral first. -/
def eager {α : Type} (n : Nat) (f : Nat → α) : α :=
  Nat.casesOn n (f 0) fun k => f (k + 1)

theorem eager_eq {α : Type} (n : Nat) (f : Nat → α) : eager n f = f n := by
  cases n <;> rfl

/-- `update` with every intermediate value reduced, so that long inputs can be
evaluated. -/
def updateEager (crc : UInt32) : List UInt8 → UInt32
  | [] => crc
  | b :: bs => eager (updateByte crc b).toNat fun n => updateEager (.ofNat n) bs

theorem updateEager_eq (bytes : List UInt8) (crc : UInt32) :
    updateEager crc bytes = update crc bytes := by
  induction bytes generalizing crc with
  | nil => rfl
  | cons b bs ih =>
      rw [updateEager, eager_eq, ih, UInt32.ofNat_toNat]
      rfl

end Library.Crc32
