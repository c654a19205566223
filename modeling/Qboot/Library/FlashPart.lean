import Qboot.Library.Flash
/-!
# A part of a flash

An operation behind a unit boundary changes the same cells as the operation from zero on,
further on.
-/

namespace Library.Flash

open Bytes

/-! ## The cells of an operation -/

/-- The operation changes address `a`. -/
def Touches (unit : Nat) (op : Op) (a : Nat) : Prop := op.Erases unit a ∨ op.Programs a

theorem tear_touched {r : Region} {op : Op} {torn : Nat → UInt8} {a : Nat}
    (h : Touches r.unit op a) : (r.tear op torn).cells a = torn a := if_pos h

theorem tear_untouched {r : Region} {op : Op} {torn : Nat → UInt8} {a : Nat}
    (h : ¬Touches r.unit op a) : (r.tear op torn).cells a = r.cells a := if_neg h

theorem not_touches_program (unit addr a : Nat) : ¬Touches unit (.program addr 0) a := by
  rintro (herase | ⟨hlo, hhi⟩)
  · exact herase
  · omega

theorem not_touches_erase (unit addr a : Nat) : ¬Touches unit (.erase addr 0) a := by
  rintro (⟨hlen, -⟩ | hprogram)
  · exact absurd hlen (lt_irrefl 0)
  · exact hprogram

namespace Region

theorem erase_nothing (r : Region) (off : Nat) : r.erase off 0 = r := by
  apply Region.ext rfl rfl
  funext a
  exact erase_cells_of_not_covers fun hcovers => lt_irrefl 0 hcovers.1

theorem program_nothing (r : Region) (off : Nat) : r.program off [] = r := by
  rw [program, overwrite_nil]

end Region

/-! ## Further on -/

theorem down_add {base unit : Nat} (hunit : 0 < unit) (hbase : unit ∣ base) (x : Nat) :
    down (base + x) unit = base + down x unit := by
  obtain ⟨k, rfl⟩ := hbase
  rw [down, down, Nat.mul_add_div hunit, Nat.add_mul, Nat.mul_comm k]

theorem up_add {base unit : Nat} (hunit : 0 < unit) (hbase : unit ∣ base) (x : Nat) :
    up (base + x) unit = base + up x unit := by
  have hassoc : base + x + unit - 1 = base + (x + unit - 1) := by omega
  have h := down_add hunit hbase (x + unit - 1)
  rw [down, down] at h
  rw [up, up, hassoc, h]

/-- An erase at a unit boundary further on covers the same units further on. -/
theorem covers_add {base unit off len a : Nat} (hunit : 0 < unit) (hbase : unit ∣ base) :
    Covers unit (base + off) len (base + a) ↔ Covers unit off len a := by
  rw [Covers, Covers, down_add hunit hbase, Nat.add_assoc, up_add hunit hbase]
  omega

theorem overwrite_add (cells cells' : Nat → UInt8) {base off a : Nat} {data : List UInt8}
    (h : cells' (base + a) = cells a) :
    overwrite cells' (base + off) data (base + a) = overwrite cells off data a := by
  have hrange : base + off ≤ base + a ∧ base + a < base + off + data.length ↔
      off ≤ a ∧ a < off + data.length := by omega
  have hsub : base + a - (base + off) = a - off := by omega
  simp only [overwrite, hrange, hsub, h]

end Library.Flash
