import Qboot.Library.Run
import Qboot.Proofs.PatchFrame
/-!
# The progress percentage of a patch

`_do_write_new` divides a product of the position in the new file by the size in
the header.  The position comes from the patch alone, so the arithmetic is
defined as long as the two lengths allow it.
-/

namespace Qboot

open Library Machine Run

variable {σ κ : Type}

/-! ## Runs of the callback -/

/-- The instance at the first call for the package with the header `h`. -/
def HpatchInst.begun (inst : HpatchInst) (h : FwInfo) : HpatchInst :=
  { inst with newerWritePos := 0, newerFileLen := i32 h.rawSize.toNat }

variable (io : IoOps σ) (cfg : HpatchConfig)

/-- A call of `_do_write_new` with `c.2`, on the machine `c.1`; one that fails
leaves the position. -/
def writeStep (inst : HpatchInst) (c : Machine σ κ × List UInt8) : HpatchInst :=
  (doWriteNew io cfg inst c.2 c.1).1.getD inst

/-- The arithmetic of the call is defined, and a position inside the new file
gives a percentage. -/
def ProgressDefined (inst : HpatchInst) (c : Machine σ κ × List UInt8) : Prop :=
  ∀ inst', (doWriteNew io cfg inst c.2 c.1).1 = some inst' →
    ∃ percent, inst'.percent = some percent ∧
      (i32 (u32 inst'.newerWritePos) ≤ inst'.newerFileLen → 0 ≤ percent ∧ percent ≤ 100)

/-- The header has a size, and the data of the call ends within the first
21474836 bytes. -/
def WriteFits (h : FwInfo) (inst : HpatchInst) (c : Machine σ κ × List UInt8) : Prop :=
  h.rawSize.toNat ≠ 0 ∧ inst.newerWritePos + c.2.length ≤ 21474836

variable {io cfg} {inst inst' : HpatchInst} {c : Machine σ κ × List UInt8}

theorem writeNew_position (h : (doWriteNew io cfg inst c.2 c.1).1 = some inst') :
    inst'.newerWritePos = inst.newerWritePos + c.2.length ∧
      inst'.newerFileLen = inst.newerFileLen := by
  obtain ⟨mid, hmid, rfl⟩ := doWriteNew_moves io cfg inst c.2 c.1 inst' h
  exact ⟨by rw [← hmid.newerWritePos], hmid.newerFileLen⟩

/-! ## The arithmetic -/

theorem i32_u32_of_lt {n : Nat} (h : n < 2 ^ 31) : i32 (u32 n) = n := by
  rw [u32, Nat.mod_eq_of_lt (by omega), i32, if_pos h]

theorem i32_eq_zero_iff {n : Nat} (h : n < 2 ^ 32) : i32 n = 0 ↔ n = 0 := by
  unfold i32
  split <;> omega

theorem percent_bounds {pos len : Int} (hpos : 0 ≤ pos) (hlen : len ≠ 0)
    (hle : pos ≤ len) : 0 ≤ (pos * 100).tdiv len ∧ (pos * 100).tdiv len ≤ 100 := by
  have hlen0 : 0 < len := by omega
  have hprod : 0 ≤ pos * 100 := by omega
  rw [Int.tdiv_eq_ediv_of_nonneg hprod]
  constructor
  · exact Int.ediv_nonneg hprod hlen0.le
  · apply Int.ediv_le_of_le_mul hlen0
    omega

theorem progressPercent_of_le {total : Nat} {len : Int} (hlen : len ≠ 0)
    (htotal : total ≤ 21474836) :
    ∃ percent, progressPercent (i32 (u32 total)) len = some percent ∧
      (i32 (u32 total) ≤ len → 0 ≤ percent ∧ percent ≤ 100) := by
  have hpos : i32 (u32 total) = total := i32_u32_of_lt (by omega)
  rw [hpos, progressPercent, if_neg (by omega), if_neg hlen]
  exact ⟨_, rfl, fun hle => percent_bounds (by omega) hlen hle⟩

/-- Beyond the bound the product overflows, up to where the position itself has
wrapped around. -/
theorem le_of_progressPercent {total : Nat} {len percent : Int}
    (h : progressPercent (i32 (u32 total)) len = some percent)
    (htotal : total < 2 ^ 31 + 21474837) : len ≠ 0 ∧ total ≤ 21474836 := by
  unfold progressPercent at h
  split at h
  · exact nomatch h
  next hrange =>
  split at h
  · exact nomatch h
  next hlen =>
  refine ⟨hlen, ?_⟩
  have hwrap : i32 (u32 total) = if total < 2 ^ 31 then (total : Int) else total - 2 ^ 32 := by
    rw [u32, Nat.mod_eq_of_lt (by omega), i32]
  rw [hwrap] at hrange
  split at hrange <;> omega

/-! ## Runs -/

def ForHeader (h : FwInfo) (inst : HpatchInst) : Prop :=
  inst.newerFileLen = i32 h.rawSize.toNat

theorem forHeader_step {h : FwInfo} (hfor : ForHeader h inst) :
    ForHeader h (writeStep io cfg inst c) := by
  unfold writeStep
  cases hrun : (doWriteNew io cfg inst c.2 c.1).1 with
  | none => exact hfor
  | some inst' => exact (writeNew_position hrun).2.trans hfor

theorem progressDefined_of_fits {h : FwInfo} (hfor : ForHeader h inst)
    (hfits : WriteFits h inst c) : ProgressDefined io cfg inst c := by
  intro inst' hrun
  obtain ⟨hpos, hlen⟩ := writeNew_position hrun
  have hne : i32 h.rawSize.toNat ≠ 0 := by
    rw [ne_eq, i32_eq_zero_iff h.rawSize.toNat_lt]
    exact hfits.1
  rw [HpatchInst.percent, hpos, hlen, hfor]
  exact progressPercent_of_le hne hfits.2

theorem fits_of_progressDefined {h : FwInfo} (hfor : ForHeader h inst)
    (hsmall : inst.newerWritePos ≤ 21474836) (hdata : c.2.length < 2 ^ 31)
    (hdefined : ProgressDefined io cfg inst c)
    (hrun : (doWriteNew io cfg inst c.2 c.1).1 = some inst') : WriteFits h inst c := by
  obtain ⟨percent, hpercent, -⟩ := hdefined inst' hrun
  obtain ⟨hpos, hlen⟩ := writeNew_position hrun
  rw [HpatchInst.percent, hpos, hlen, hfor] at hpercent
  obtain ⟨hne, hle⟩ := le_of_progressPercent hpercent (by omega)
  rw [ne_eq, i32_eq_zero_iff h.rawSize.toNat_lt] at hne
  exact ⟨hne, hle⟩

/-- In every run whose calls all fit, every call's arithmetic is defined; and a
run of calls with buffers below 2 GiB is defined only if every call that
succeeds fits. -/
theorem progress_defined (io : IoOps σ) (cfg : HpatchConfig) (inst : HpatchInst)
    (h : FwInfo) (calls : List (Machine σ κ × List UInt8)) :
    (Each (writeStep io cfg) (WriteFits h) (inst.begun h) calls →
        Each (writeStep io cfg) (ProgressDefined io cfg) (inst.begun h) calls) ∧
      ((∀ c ∈ calls, c.2.length < 2 ^ 31) →
        Each (writeStep io cfg) (ProgressDefined io cfg) (inst.begun h) calls →
        Each (writeStep io cfg)
          (fun inst c => (doWriteNew io cfg inst c.2 c.1).1.isSome → WriteFits h inst c)
          (inst.begun h) calls) := by
  have hstart : ForHeader h (inst.begun h) := rfl
  constructor
  · intro hfits
    refine hfits.imp_inv (I := ForHeader h) ?_ ?_ hstart
    · intro inst c hfor hc
      exact progressDefined_of_fits hfor hc
    · intro inst c hfor _
      exact forHeader_step hfor
  · intro hdata hdefined
    have hbounded : Each (writeStep io cfg)
        (fun inst c => ProgressDefined io cfg inst c ∧ c.2.length < 2 ^ 31)
        (inst.begun h) calls := by
      intro front c back hsplit
      exact ⟨hdefined front c back hsplit, hdata c (by rw [hsplit]; simp)⟩
    refine hbounded.imp_inv
      (I := fun inst => ForHeader h inst ∧ inst.newerWritePos ≤ 21474836) ?_ ?_
      ⟨hstart, Nat.zero_le _⟩
    · intro inst c hinv hc hsome
      obtain ⟨inst', hrun⟩ := Option.isSome_iff_exists.mp hsome
      exact fits_of_progressDefined hinv.1 hinv.2 hc.2 hc.1 hrun
    · intro inst c hinv hc
      refine ⟨forHeader_step hinv.1, ?_⟩
      unfold writeStep
      cases hrun : (doWriteNew io cfg inst c.2 c.1).1 with
      | none => exact hinv.2
      | some inst' =>
          have hfits := fits_of_progressDefined hinv.1 hinv.2 hc.2 hc.1 hrun
          rw [Option.getD_some, (writeNew_position hrun).1]
          exact hfits.2

/-! ## A header without a size -/

def calmIo : IoOps Unit where
  openTarget _ _ := pure (some 0)
  close _ := pure ()
  read _ _ len := pure (some (Bytes.Block.ofList len []))
  erase _ _ _ := pure true
  write _ _ _ := pure true
  size _ := pure (some 4096)
  getEraseAlign _ := pure (some 1)

def ramConfig : HpatchConfig where
  useStorageSwap := false
  swapOffset := 0
  copyBufferSize := 16
  ramBufferSize := 16
  swapFileSize := none

def ramInst (patchFileLen newerFileLen : Int) : HpatchInst :=
  { hpatchStart ⟨.download, 0⟩ ⟨.app, 0⟩ patchFileLen newerFileLen srcReadPos 1 with
    capacity := ramConfig.ramBufSize }

def emptyImage : FwInfo := FwInfo.ofBytes (Bytes.Block.ofList srcReadPos [])

def calmMachine : Machine Unit Unit := ⟨(), (), emptyImage, []⟩

/-- A patch that writes one byte divides by the size zero of the header. -/
theorem emptyImage_divides :
    ¬Each (writeStep calmIo ramConfig) (ProgressDefined calmIo ramConfig)
      ((ramInst 8 0).begun emptyImage) [(calmMachine, [1])] := by
  intro hdefined
  obtain ⟨percent, hpercent, -⟩ := hdefined [] (calmMachine, [1]) [] rfl _ rfl
  have hnone : (none : Option Int) = some percent := hpercent
  exact nomatch hnone

def threeByteImage : FwInfo := { emptyImage with rawSize := 3 }

def twoCalls : List (Machine Unit Unit × List UInt8) :=
  [(calmMachine, [1]), (calmMachine, [2, 3])]

theorem threeByteImage_defined :
    Each (writeStep calmIo ramConfig) (WriteFits threeByteImage)
        ((ramInst 8 3).begun threeByteImage) twoCalls ∧
      Each (writeStep calmIo ramConfig) (ProgressDefined calmIo ramConfig)
        ((ramInst 8 3).begun threeByteImage) twoCalls := by
  have hfits : Each (writeStep calmIo ramConfig) (WriteFits threeByteImage)
      ((ramInst 8 3).begun threeByteImage) twoCalls :=
    each_cons.mpr ⟨⟨by decide, by decide⟩,
      each_cons.mpr ⟨⟨by decide, by decide⟩, each_nil⟩⟩
  exact ⟨hfits, (progress_defined calmIo ramConfig (ramInst 8 3) threeByteImage _).1 hfits⟩

end Qboot
