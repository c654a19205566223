import Qboot.Library.Bytes
import Qboot.Library.Trace
import Mathlib.Data.Nat.Bitwise
/-!
# Flash regions

Erase units, the rounding of addresses to them, and the discipline of flash
programming: a cell may be programmed only while it is erased.  A region is
an array of cells that is erased in whole units; the discipline is a property
of the list of operations, so it can be stated of a driver's trace.
-/

namespace Library.Flash

open Bytes Trace

/-! ## Rounding to erase units -/

/-- The start of the unit that holds address `x`. -/
def down (x unit : Nat) : Nat := x / unit * unit

/-- The least multiple of `unit` that is not below `x`. -/
def up (x unit : Nat) : Nat := (x + unit - 1) / unit * unit

theorem down_le (x unit : Nat) : down x unit ≤ x := Nat.div_mul_le_self x unit

theorem le_up {x unit : Nat} (hunit : 0 < unit) : x ≤ up x unit := by
  have h := Nat.div_add_mod' (x + unit - 1) unit
  have hlt := Nat.mod_lt (x + unit - 1) hunit
  unfold up
  omega

theorem dvd_up (x unit : Nat) : unit ∣ up x unit := Nat.dvd_mul_left _ _

theorem up_of_dvd {x unit : Nat} (hunit : 0 < unit) (h : unit ∣ x) :
    up x unit = x := by
  obtain ⟨k, rfl⟩ := h
  have hq : (unit * k + unit - 1) / unit = k := by
    rw [show unit * k + unit - 1 = unit * k + (unit - 1) by omega,
      Nat.mul_add_div hunit, Nat.div_eq_of_lt (by omega), Nat.add_zero]
  rw [up, hq, Nat.mul_comm]

theorem down_of_dvd {x unit : Nat} (h : unit ∣ x) : down x unit = x :=
  Nat.div_mul_cancel h

theorem up_mono {x y unit : Nat} (h : x ≤ y) : up x unit ≤ up y unit :=
  Nat.mul_le_mul_right _ (Nat.div_le_div_right (by omega))

theorem up_le_of_dvd {x y unit : Nat} (hunit : 0 < unit) (h : x ≤ y)
    (hy : unit ∣ y) : up x unit ≤ y := by
  rw [← up_of_dvd hunit hy]
  exact up_mono h

theorem le_down_of_dvd {x y unit : Nat} (h : y ≤ x) (hy : unit ∣ y) :
    y ≤ down x unit := by
  rw [← down_of_dvd hy]
  exact Nat.mul_le_mul_right _ (Nat.div_le_div_right h)

@[simp] theorem up_zero (unit : Nat) : up 0 unit = 0 := by
  rcases Nat.eq_zero_or_pos unit with rfl | hunit
  · simp [up]
  · exact up_of_dvd hunit (Nat.dvd_zero _)

/-- Clearing the low bits of a `w`-bit word rounds it down. -/
theorem land_mask {x w k : Nat} (hk : k ≤ w) (hx : x < 2 ^ w) :
    x &&& (2 ^ w - 2 ^ k) = down x (2 ^ k) := by
  have hmask : 2 ^ w - 2 ^ k = 2 ^ k * (2 ^ (w - k) - 1) := by
    rw [Nat.mul_sub, ← pow_add, Nat.add_sub_cancel' hk, Nat.mul_one]
  apply Nat.eq_of_testBit_eq
  intro i
  rw [hmask, down, Nat.mul_comm (x / 2 ^ k), Nat.testBit_and,
    Nat.testBit_two_pow_mul, Nat.testBit_two_pow_mul,
    Nat.testBit_two_pow_sub_one, Nat.testBit_div_two_pow]
  by_cases hki : k ≤ i
  · have hi : i - k + k = i := by omega
    by_cases hiw : i < w
    · simp [hki, hi]
      omega
    · have hbit : x.testBit i = false := Nat.testBit_lt_two_pow
        (hx.trans_le (Nat.pow_le_pow_right (by omega) (by omega)))
      simp [hbit, hi]
  · simp [hki]

/-! ## Regions -/

/-- A storage region: `size` bytes, erased in units of `unit` bytes. -/
@[ext]
structure Region where
  size : Nat
  unit : Nat
  cells : Nat → UInt8

/-- Address `a` lies in a unit that the range `[off, off + len)` touches. -/
def Covers (unit off len a : Nat) : Prop :=
  0 < len ∧ down off unit ≤ a ∧ a < up (off + len) unit

instance (unit off len a : Nat) : Decidable (Covers unit off len a) :=
  inferInstanceAs (Decidable (_ ∧ _ ∧ _))

/-- The value of an erased cell. -/
def erasedByte : UInt8 := 0xFF

namespace Region

/-- Erase every unit that the range touches. -/
def erase (r : Region) (off len : Nat) : Region :=
  { r with cells := fun a =>
      if Covers r.unit off len a then erasedByte else r.cells a }

/-- Store `data` from `off` on. -/
def program (r : Region) (off : Nat) (data : List UInt8) : Region :=
  { r with cells := overwrite r.cells off data }

/-- The bytes at `[off, off + len)`. -/
def read (r : Region) (off len : Nat) : Block len := readCells r.cells off len

@[simp] theorem size_erase (r : Region) (off len : Nat) :
    (r.erase off len).size = r.size := rfl

@[simp] theorem unit_erase (r : Region) (off len : Nat) :
    (r.erase off len).unit = r.unit := rfl

@[simp] theorem size_program (r : Region) (off : Nat) (data : List UInt8) :
    (r.program off data).size = r.size := rfl

@[simp] theorem unit_program (r : Region) (off : Nat) (data : List UInt8) :
    (r.program off data).unit = r.unit := rfl

theorem erase_cells_of_covers {r : Region} {off len a : Nat}
    (h : Covers r.unit off len a) : (r.erase off len).cells a = erasedByte :=
  if_pos h

theorem erase_cells_of_not_covers {r : Region} {off len a : Nat}
    (h : ¬Covers r.unit off len a) : (r.erase off len).cells a = r.cells a :=
  if_neg h

end Region

/-- A range whose ends are unit boundaries covers exactly itself. -/
theorem covers_iff_of_dvd {unit off len a : Nat} (hunit : 0 < unit)
    (hoff : unit ∣ off) (hend : unit ∣ off + len) :
    Covers unit off len a ↔ off ≤ a ∧ a < off + len := by
  rw [Covers, down_of_dvd hoff, up_of_dvd hunit hend]
  omega

/-! ## Programming discipline -/

/-- An erase or a program operation on a range of a region. -/
inductive Op where
  | erase (off len : Nat)
  | program (off len : Nat)
  deriving DecidableEq, Repr

namespace Op

/-- The operation erases address `a`. -/
def Erases (unit : Nat) : Op → Nat → Prop
  | .erase off len, a => Covers unit off len a
  | .program _ _, _ => False

/-- The operation programs address `a`. -/
def Programs : Op → Nat → Prop
  | .erase _ _, _ => False
  | .program off len, a => off ≤ a ∧ a < off + len

instance (unit : Nat) (op : Op) (a : Nat) : Decidable (op.Erases unit a) := by
  cases op <;> unfold Erases <;> infer_instance

instance (op : Op) (a : Nat) : Decidable (op.Programs a) := by
  cases op <;> unfold Programs <;> infer_instance

end Op

/-- The region after `op` was interrupted: its range holds `torn`. -/
def Region.tear (r : Region) (op : Op) (torn : Nat → UInt8) : Region :=
  { r with cells := fun a =>
      if op.Erases r.unit a ∨ op.Programs a then torn a else r.cells a }

/-- After `ops`, address `a` has been erased and not programmed since. -/
def fresh (unit : Nat) (ops : List Op) (a : Nat) : Bool :=
  ops.foldl (fun acc op =>
    if op.Erases unit a then true else if op.Programs a then false else acc)
    false

/-- How often `ops` erases address `a`. -/
def eraseCount (unit : Nat) (ops : List Op) (a : Nat) : Nat :=
  ops.countP fun op => op.Erases unit a

/-- How often `ops` programs address `a`. -/
def programCount (ops : List Op) (a : Nat) : Nat :=
  ops.countP fun op => op.Programs a

/-- Every program operation finds its cells erased. -/
def Disciplined (unit : Nat) (ops : List Op) : Prop :=
  Along (fun before op => ∀ a, op.Programs a → fresh unit before a = true) ops

theorem fresh_concat (unit : Nat) (ops : List Op) (op : Op) (a : Nat) :
    fresh unit (ops ++ [op]) a =
      if op.Erases unit a then true
      else if op.Programs a then false else fresh unit ops a := by
  rw [fresh, List.foldl_append]
  rfl

theorem eraseCount_concat (unit : Nat) (ops : List Op) (op : Op) (a : Nat) :
    eraseCount unit (ops ++ [op]) a =
      eraseCount unit ops a + if op.Erases unit a then 1 else 0 := by
  rw [eraseCount, List.countP_append, List.countP_singleton]
  simp only [eraseCount, decide_eq_true_eq]

theorem programCount_concat (ops : List Op) (op : Op) (a : Nat) :
    programCount (ops ++ [op]) a =
      programCount ops a + if op.Programs a then 1 else 0 := by
  rw [programCount, List.countP_append, List.countP_singleton]
  simp only [programCount, decide_eq_true_eq]

end Library.Flash
