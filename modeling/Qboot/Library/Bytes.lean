import Mathlib.Tactic.Common
import Mathlib.Tactic.Ring
/-!
# Byte blocks, slices and cells

Three views of stored bytes: a block whose length is part of its type, a
half-open slice of a list, and an addressable map of cells.  The lemmas say
how slices concatenate and how a read of cells meets an overwrite.
-/

namespace Library.Bytes

/-- A byte string of length `n`. -/
abbrev Block (n : Nat) := { bytes : List UInt8 // bytes.length = n }

/-- The block that starts with `l`, cut or filled up with zeros. -/
def Block.ofList (n : Nat) (l : List UInt8) : Block n :=
  ⟨(l ++ List.replicate n 0).take n, by simp⟩

theorem Block.take_ofList {n : Nat} {l : List UInt8} (h : l.length ≤ n) :
    (Block.ofList n l).1.take l.length = l := by
  rw [Block.ofList, List.take_take, Nat.min_eq_left h, List.take_left]

theorem Block.take_ofList_le {n k : Nat} {l : List UInt8}
    (hn : k ≤ n) (hk : k ≤ l.length) : (Block.ofList n l).1.take k = l.take k := by
  rw [Block.ofList, List.take_take, Nat.min_eq_left hn,
    List.take_append_of_le_length hk]

/-! ## Slices -/

/-- The bytes of `l` at the positions `[a, b)`. -/
def slice (l : List UInt8) (a b : Nat) : List UInt8 := (l.take b).drop a

@[simp] theorem length_slice (l : List UInt8) (a b : Nat) :
    (slice l a b).length = min b l.length - a := by
  simp [slice]

@[simp] theorem slice_self (l : List UInt8) (a : Nat) : slice l a a = [] := by
  simp [slice]

theorem slice_zero (l : List UInt8) (b : Nat) : slice l 0 b = l.take b := rfl

theorem slice_to_end (l : List UInt8) (a : Nat) :
    slice l a l.length = l.drop a := by
  simp [slice]

theorem slice_append_slice (l : List UInt8) {a b c : Nat} (hab : a ≤ b)
    (hbc : b ≤ c) : slice l a b ++ slice l b c = slice l a c := by
  have hsplit : l.take c = l.take b ++ (l.take c).drop b := by
    conv_lhs => rw [← List.take_append_drop b (l.take c)]
    rw [List.take_take, Nat.min_eq_left hbc]
  by_cases hb : b ≤ l.length
  · have hlen : a ≤ (l.take b).length := by simp; omega
    calc
      slice l a b ++ slice l b c =
          (l.take b ++ (l.take c).drop b).drop a := by
        rw [List.drop_append_of_le_length hlen, slice, slice]
      _ = slice l a c := by rw [← hsplit, slice]
  · have hempty : slice l b c = [] := by
      apply List.eq_nil_of_length_eq_zero
      simp; omega
    rw [hempty, List.append_nil]
    unfold slice
    rw [List.take_of_length_le (by omega), List.take_of_length_le (by omega)]

theorem take_append_slice (l : List UInt8) {a b : Nat} (h : a ≤ b) :
    l.take a ++ slice l a b = l.take b := by
  simpa [slice_zero] using slice_append_slice l (Nat.zero_le a) h

theorem slice_drop (l : List UInt8) (a i j : Nat) :
    slice (l.drop a) i j = slice l (a + i) (a + j) := by
  rw [slice, slice, List.take_drop, List.drop_drop]

theorem take_drop_eq_slice (l : List UInt8) (a k : Nat) :
    (l.drop a).take k = slice l a (a + k) := by
  rw [slice, List.take_drop]

/-! ## Little-endian fields -/

/-- The `width` low bytes of `n`, lowest first. -/
def leBytes : Nat → Nat → List UInt8
  | 0, _ => []
  | width + 1, n => UInt8.ofNat n :: leBytes width (n / 256)

/-- The number whose bytes, lowest first, are `l`. -/
def leNat : List UInt8 → Nat
  | [] => 0
  | b :: l => b.toNat + 256 * leNat l

@[simp] theorem length_leBytes (width n : Nat) :
    (leBytes width n).length = width := by
  induction width generalizing n with
  | zero => rfl
  | succ width ih => simp [leBytes, ih]

theorem leNat_leBytes (width : Nat) :
    ∀ n, n < 256 ^ width → leNat (leBytes width n) = n := by
  induction width with
  | zero =>
      intro n h
      simp only [pow_zero] at h
      simp [leBytes, leNat]; omega
  | succ width ih =>
      intro n h
      have hdiv : n / 256 < 256 ^ width := by
        rw [Nat.div_lt_iff_lt_mul (by omega)]
        rwa [pow_succ] at h
      rw [leBytes, leNat, ih _ hdiv, UInt8.toNat_ofNat']
      omega

theorem leNat_lt (l : List UInt8) : leNat l < 256 ^ l.length := by
  induction l with
  | nil => simp [leNat]
  | cons b l ih =>
      have hb : b.toNat < 256 := b.toNat_lt
      rw [leNat, List.length_cons, pow_succ]
      omega

theorem leBytes_leNat (l : List UInt8) : leBytes l.length (leNat l) = l := by
  induction l with
  | nil => rfl
  | cons b l ih =>
      have hb : b.toNat < 256 := b.toNat_lt
      have hdiv : (b.toNat + 256 * leNat l) / 256 = leNat l := by omega
      have hbyte : UInt8.ofNat (b.toNat + 256 * leNat l) = b := by
        apply UInt8.toNat_inj.mp
        rw [UInt8.toNat_ofNat']
        omega
      rw [List.length_cons, leNat, leBytes, hdiv, hbyte, ih]

/-- The bytes of `l` from `off` on, if there are `len` of them. -/
def readSlice (l : List UInt8) (off len : Nat) : Option (Block len) :=
  if h : off + len ≤ l.length then
    some ⟨slice l off (off + len), by rw [length_slice]; omega⟩
  else none

theorem readSlice_of_le {l : List UInt8} {off len : Nat} (h : off + len ≤ l.length) :
    ∃ data : Block len, readSlice l off len = some data ∧
      data.1 = slice l off (off + len) :=
  ⟨_, dif_pos h, rfl⟩

theorem readSlice_eq_none {l : List UInt8} {off len : Nat} :
    readSlice l off len = none ↔ ¬off + len ≤ l.length := by
  unfold readSlice
  split <;> simp [*]

/-- The same, by the number of bytes that there are. -/
theorem readSlice_eq_take (l : List UInt8) (off : Nat) {len : Nat} (hlen : 0 < len) :
    readSlice l off len =
      if h : ((l.drop off).take len).length = len then some ⟨(l.drop off).take len, h⟩
      else none := by
  have hiff : ((l.drop off).take len).length = len ↔ off + len ≤ l.length := by
    rw [List.length_take, List.length_drop]
    omega
  unfold readSlice
  by_cases h : off + len ≤ l.length
  · rw [dif_pos h, dif_pos (hiff.mpr h)]
    congr 2
    exact (take_drop_eq_slice l off len).symm
  · rw [dif_neg h, dif_neg fun hboth => h (hiff.mp hboth)]

/-- A read behind the first `k` bytes is a read of the rest. -/
theorem readSlice_drop (l : List UInt8) (k off : Nat) {len : Nat} (hlen : 0 < len) :
    readSlice (l.drop k) off len = readSlice l (k + off) len := by
  unfold readSlice
  by_cases h : k + off + len ≤ l.length
  · have hdrop : off + len ≤ (l.drop k).length := by
      rw [List.length_drop]
      omega
    rw [dif_pos h, dif_pos hdrop]
    congr 2
    rw [slice, slice, List.drop_take, List.drop_take, List.drop_drop, Nat.add_sub_cancel_left,
      Nat.add_sub_cancel_left]
  · have hdrop : ¬off + len ≤ (l.drop k).length := by
      rw [List.length_drop]
      omega
    rw [dif_neg h, dif_neg hdrop]

/-! ## Cells -/

/-- The cells at `[off, off + len)` as a block. -/
def readCells (cells : Nat → UInt8) (off len : Nat) : Block len :=
  ⟨(List.range len).map fun i => cells (off + i), by simp⟩

/-- The cells after `data` is stored from `off` on. -/
def overwrite (cells : Nat → UInt8) (off : Nat) (data : List UInt8) :
    Nat → UInt8 :=
  fun a => if off ≤ a ∧ a < off + data.length then data.getD (a - off) 0
    else cells a

theorem overwrite_of_lt {cells : Nat → UInt8} {off a : Nat}
    {data : List UInt8} (h : a < off) : overwrite cells off data a = cells a := by
  rw [overwrite, if_neg (by omega)]

theorem overwrite_of_ge {cells : Nat → UInt8} {off a : Nat}
    {data : List UInt8} (h : off + data.length ≤ a) :
    overwrite cells off data a = cells a := by
  rw [overwrite, if_neg (by omega)]

@[simp] theorem overwrite_nil (cells : Nat → UInt8) (off : Nat) :
    overwrite cells off [] = cells := by
  funext a
  rw [overwrite, if_neg (by simp)]

theorem overwrite_append (cells : Nat → UInt8) (off : Nat) (data more : List UInt8) :
    overwrite (overwrite cells off data) (off + data.length) more =
      overwrite cells off (data ++ more) := by
  funext a
  by_cases hlow : a < off
  · rw [overwrite_of_lt (by omega), overwrite_of_lt hlow, overwrite_of_lt hlow]
  by_cases hhigh : off + (data ++ more).length ≤ a
  · rw [overwrite_of_ge hhigh]
    rw [List.length_append] at hhigh
    rw [overwrite_of_ge (by omega), overwrite_of_ge (by omega)]
  have hwhole : overwrite cells off (data ++ more) a = (data ++ more).getD (a - off) 0 :=
    if_pos ⟨by omega, by omega⟩
  rw [hwhole, List.getD_eq_getElem?_getD]
  rw [List.length_append] at hhigh
  by_cases hdata : a < off + data.length
  · have hfirst : overwrite cells off data a = data.getD (a - off) 0 :=
      if_pos ⟨by omega, hdata⟩
    rw [overwrite_of_lt hdata, hfirst, List.getElem?_append_left (by omega),
      List.getD_eq_getElem?_getD]
  · have hsecond (c : Nat → UInt8) : overwrite c (off + data.length) more a =
        more.getD (a - (off + data.length)) 0 := if_pos ⟨by omega, by omega⟩
    rw [hsecond, List.getElem?_append_right (by omega), List.getD_eq_getElem?_getD,
      Nat.sub_add_eq]

theorem readCells_congr {cells cells' : Nat → UInt8} {off len : Nat}
    (h : ∀ a, off ≤ a → a < off + len → cells a = cells' a) :
    readCells cells off len = readCells cells' off len := by
  apply Subtype.ext
  apply List.map_congr_left
  intro i hi
  have hi' : i < len := by simpa using hi
  exact h _ (by omega) (by omega)

theorem readCells_append (cells : Nat → UInt8) (off a b : Nat) :
    (readCells cells off (a + b)).1 =
      (readCells cells off a).1 ++ (readCells cells (off + a) b).1 := by
  simp only [readCells, List.range_add, List.map_append, List.map_map]
  congr 1
  apply List.map_congr_left
  intro i _
  simp [Nat.add_assoc]

/-- A read inside a longer read. -/
theorem readCells_inner (cells : Nat → UInt8) (off : Nat) {len i k : Nat}
    (h : i + k ≤ len) :
    (readCells cells (off + i) k).1 =
      slice (readCells cells off len).1 i (i + k) := by
  apply List.ext_getElem
  · simp [readCells]
    omega
  · intro j hj hj'
    simp [readCells, slice, Nat.add_assoc]

theorem readCells_overwrite_same (cells : Nat → UInt8) (off : Nat)
    (data : List UInt8) :
    (readCells (overwrite cells off data) off data.length).1 = data := by
  apply List.ext_getElem
  · simp [readCells]
  · intro i hi hi'
    have hlt : i < data.length := hi'
    simp [readCells, overwrite, hlt]

/-- Storing what other cells hold at the same addresses. -/
theorem overwrite_readCells (cells cells' : Nat → UInt8) {off len a : Nat} (hoff : off ≤ a)
    (hend : a < off + len) : overwrite cells off (readCells cells' off len).1 a = cells' a := by
  have hlen := (readCells cells' off len).2
  have hlt : a - off < len := by omega
  rw [overwrite, if_pos ⟨hoff, by omega⟩, List.getD_eq_getElem?_getD]
  simp [readCells, hlt, Nat.add_sub_cancel' hoff]

theorem readCells_overwrite_disjoint (cells : Nat → UInt8) {off len woff : Nat}
    {data : List UInt8} (h : off + len ≤ woff ∨ woff + data.length ≤ off) :
    readCells (overwrite cells woff data) off len = readCells cells off len := by
  apply readCells_congr
  intro a hlo hhi
  rcases h with h | h
  · exact overwrite_of_lt (by omega)
  · exact overwrite_of_ge (by omega)

/-- Cells that hold `data` after an overwrite anywhere behind it, extended by
the overwritten bytes. -/
theorem readCells_overwrite_extend {cells : Nat → UInt8} {off len : Nat}
    {front data : List UInt8}
    (hfront : (readCells cells off len).1 = front) :
    (readCells (overwrite cells (off + len) data) off (len + data.length)).1 =
      front ++ data := by
  rw [readCells_append, readCells_overwrite_same,
    readCells_overwrite_disjoint cells (Or.inl (by omega)), hfront]

theorem readCells_eq_iff {cells : Nat → UInt8} {off len : Nat}
    {data : List UInt8} (hlen : data.length = len) :
    (readCells cells off len).1 = data ↔
      ∀ i < len, cells (off + i) = data.getD i 0 := by
  constructor
  · intro h i hi
    rw [← h]
    simp [readCells, hi]
  · intro h
    apply List.ext_getElem
    · simp [readCells, hlen]
    · intro i hi hi'
      have hlt : i < len := by omega
      simpa [readCells, hi'] using h i hlt

end Library.Bytes
