import Qboot.Library.Loop
import Qboot.Model.Machine
/-!
# In-place patching

`qboot_hpatchlite.c`: the swap area in RAM or in storage, the erase-aligned
commits to the old partition, the three callbacks handed to the patcher, and
the driver.  The patcher is a parameter: a tree of callback invocations whose
branches are chosen by the answers.  Of the progress line only the percentage
is kept.
-/

namespace Qboot

open Library Bytes Machine Loop

/-! ## Configuration and patcher -/

/-- The `QBOOT_HPATCH_*` options.  `swapFileSize` is set when the swap area is a
file. -/
structure HpatchConfig where
  useStorageSwap : Bool
  swapOffset : Nat
  copyBufferSize : Nat
  ramBufferSize : Nat
  swapFileSize : Option Nat
  deriving DecidableEq, Repr

/-- `ram_buf_size` of the selected backend -/
def HpatchConfig.ramBufSize (cfg : HpatchConfig) : Nat :=
  if cfg.useStorageSwap then cfg.copyBufferSize else cfg.ramBufferSize

/-- A run of `hpi_patch`, as the callbacks it makes on each answer.  A callback
that fails ends the run with an error. -/
inductive Patcher where
  | done (success : Bool)
  | readPatch (size : Nat) (next : List UInt8 → Patcher)
  | readOld (addr size : Nat) (next : List UInt8 → Patcher)
  | writeNew (data : List UInt8) (next : Patcher)

/-- What the patching code is linked with. -/
structure HpatchEnv (σ : Type) where
  cfg : HpatchConfig
  malloc : Nat → Prog σ Bool
  malloc_zero : ∀ s, (malloc 0 s).1 = false
  hpiPatch : Patcher

/-- A heap that grants every request but an empty one. -/
theorem granted_zero {σ : Type} (s : σ) :
    ((fun n d => (n != 0, d) : Nat → Prog σ Bool) 0 s).1 = false := rfl

/-! ## Instance -/

/-- The swap backend in use: the RAM buffer, or an open storage area. -/
inductive Swap where
  | ram
  | flash (part : Handle) (partSize : Nat)
  deriving DecidableEq, Repr

/-- `hpatchi_instance_t` with the swap state it points to. -/
structure HpatchInst where
  patchFileOffset : Nat
  patchFileLen : Int
  patchReadPos : Nat
  newerFileLen : Int
  newerWritePos : Nat
  patchPart : Handle
  oldPart : Handle
  swap : Swap
  ramBuf : List UInt8
  writePos : Nat
  capacity : Int
  committedLen : Nat
  sectorSize : Nat
  erasedEnd : Nat

variable {σ κ : Type} (io : IoOps σ) (cfg : HpatchConfig)

/-! ## Callbacks that read -/

/-- What `_do_read_patch` reports: its result, `*size` and the bytes at `data`. -/
structure PatchAnswer where
  ok : Bool
  size : Nat
  data : List UInt8
  deriving DecidableEq, Repr

/-- `_do_read_patch` -/
def doReadPatch (inst : HpatchInst) (size : Nat) :
    Prog (Machine σ κ) (PatchAnswer × HpatchInst) :=
  if inst.patchFileLen ≤ inst.patchReadPos then pure (⟨true, 0, []⟩, inst)
  else
    let size := min size (inst.patchFileLen - inst.patchReadPos).toNat
    if size = 0 then pure (⟨true, size, []⟩, inst)
    else do
      match ← ioRead io inst.patchPart
        (inst.patchFileOffset + inst.patchReadPos) size with
      | none => pure (⟨false, 0, []⟩, inst)
      | some data =>
          pure (⟨true, size, data.1⟩, { inst with patchReadPos := inst.patchReadPos + size })

/-- `_do_read_old` -/
def doReadOld (inst : HpatchInst) (addr size : Nat) :
    Prog (Machine σ κ) (Option (List UInt8)) := do
  pure ((← ioRead io inst.oldPart addr size).map Subtype.val)

/-! ## Swap backends -/

/-- One round of `qbt_flash_copy_to_old`: source, destination, bytes left. -/
def copyRound (bufSize : Nat) (part oldPart : Handle) (c : Nat × Nat × Nat) :
    Prog (Machine σ κ) (Next (Nat × Nat × Nat) Bool) :=
  if c.2.2 = 0 then pure (.done true)
  else do
    let chunk := min c.2.2 bufSize
    match ← ioRead io part c.1 chunk with
    | none => pure (.done false)
    | some data =>
        if ← ioWrite io oldPart c.2.1 data.1 then
          pure (.again (c.1 + chunk, c.2.1 + chunk, c.2.2 - chunk))
        else
          pure (.done false)

/-- `qbt_ram_copy_to_old` and `qbt_flash_copy_to_old` -/
def copyToOld (inst : HpatchInst) (size : Nat) : Prog (Machine σ κ) Bool :=
  match inst.swap with
  | .ram => ioWrite io inst.oldPart inst.committedLen (inst.ramBuf.take size)
  | .flash part _ => do
      let r ← iterate (copyRound io cfg.ramBufSize part inst.oldPart) (size + 1)
        (cfg.swapOffset, inst.committedLen, size)
      pure (r.getD false)

/-- `qbt_ram_swap_append` and `qbt_flash_swap_append` -/
def swapAppend (inst : HpatchInst) (data : List UInt8) :
    Prog (Machine σ κ) (Option HpatchInst) :=
  match inst.swap with
  | .ram =>
      pure (some { inst with
        ramBuf := inst.ramBuf.take inst.writePos ++ data
        writePos := inst.writePos + data.length })
  | .flash part _ => do
      if ← ioWrite io part (cfg.swapOffset + inst.writePos) data then
        pure (some { inst with writePos := inst.writePos + data.length })
      else
        pure none

/-- `qbt_ram_swap_reset` and `qbt_flash_swap_reset` -/
def swapReset (inst : HpatchInst) : Prog (Machine σ κ) (Option HpatchInst) :=
  match inst.swap with
  | .ram => pure (some { inst with writePos := 0 })
  | .flash part partSize => do
      if ← eraseWithFeed io part cfg.swapOffset partSize then
        pure (some { inst with writePos := 0 })
      else
        pure none

/-! ## Commits -/

/-- `qbt_erase_aligned_range` -/
def eraseAlignedRange (inst : HpatchInst) (start stop : Nat)
    (alignStartUp : Bool) : Prog (Machine σ κ) (Option HpatchInst) :=
  if stop ≤ start then pure (some inst)
  else
    let eraseStart := if alignStartUp then rtAlign start inst.sectorSize
      else rtAlignDown start inst.sectorSize
    let eraseEnd := rtAlign stop inst.sectorSize
    if eraseEnd ≤ inst.erasedEnd then pure (some inst)
    else
      let eraseStart := max eraseStart inst.erasedEnd
      if eraseStart < eraseEnd then do
        if ← eraseWithFeed io inst.oldPart eraseStart (eraseEnd - eraseStart) then
          pure (some { inst with erasedEnd := eraseEnd })
        else
          pure none
      else pure (some inst)

/-- `qbt_swap_commit` -/
def swapCommit (inst : HpatchInst) : Prog (Machine σ κ) (Option HpatchInst) :=
  let used := inst.writePos
  if used = 0 then pure (some inst)
  else do
    match ← eraseAlignedRange io inst inst.committedLen
      (inst.committedLen + used) false with
    | none => pure none
    | some inst =>
        if ← copyToOld io cfg inst used then
          let inst := { inst with committedLen := inst.committedLen + used }
          emit (.committed inst.committedLen inst.erasedEnd)
          swapReset io cfg inst
        else
          pure none

/-! ## The callback that writes -/

/-- A signed value converted to `hpi_size_t`. -/
def sizeT (x : Int) : Nat := (x % 2 ^ 32).toNat

/-- One round of `_do_write_new`: the instance and the data left. -/
def writeNewRound (c : HpatchInst × List UInt8) :
    Prog (Machine σ κ) (Next (HpatchInst × List UInt8) (Option HpatchInst)) :=
  if c.2 = [] then pure (.done (some c.1))
  else
    let chunk := min c.2.length (sizeT (c.1.capacity - c.1.writePos))
    let append : Prog (Machine σ κ) (Option HpatchInst) :=
      if 0 < chunk then swapAppend io cfg c.1 (c.2.take chunk) else pure (some c.1)
    do
      match ← append with
      | none => pure (.done none)
      | some inst =>
          if inst.capacity ≤ inst.writePos then
            match ← swapCommit io cfg inst with
            | none => pure (.done none)
            | some inst => pure (.again (inst, c.2.drop chunk))
          else pure (.again (inst, c.2.drop chunk))

/-- `_do_write_new` -/
def doWriteNew (inst : HpatchInst) (data : List UInt8) :
    Prog (Machine σ κ) (Option HpatchInst) := do
  let r ← iterate (writeNewRound io cfg) (data.length + 1) (inst, data)
  pure (r.join.map fun inst =>
    { inst with newerWritePos := inst.newerWritePos + data.length })

/-- `percent` of `_do_write_new` in `int` arithmetic; `none` where that is
undefined. -/
def progressPercent (newerWritePos newerFileLen : Int) : Option Int :=
  if newerWritePos * 100 < -2 ^ 31 ∨ 2 ^ 31 ≤ newerWritePos * 100 then none
  else if newerFileLen = 0 then none
  else some ((newerWritePos * 100).tdiv newerFileLen)

/-- The percentage of an instance whose position `_do_write_new` has just moved. -/
def HpatchInst.percent (inst : HpatchInst) : Option Int :=
  progressPercent (i32 (u32 inst.newerWritePos)) inst.newerFileLen

/-- Run the patcher over the callbacks; `none` is any error. -/
def runPatch : Patcher → HpatchInst → Prog (Machine σ κ) (Option HpatchInst)
  | .done success, inst => pure (if success then some inst else none)
  | .readPatch size next, inst => do
      let (answer, inst) ← doReadPatch io inst size
      if answer.ok then runPatch (next answer.data) inst else pure none
  | .readOld addr size next, inst => do
      match ← doReadOld io inst addr size with
      | some data => runPatch (next data) inst
      | none => pure none
  | .writeNew data next, inst => do
      match ← doWriteNew io cfg inst data with
      | some inst => runPatch next inst
      | none => pure none

/-! ## The driver -/

/-- `qbt_ram_swap_init` and `qbt_flash_swap_init` -/
def swapInit (inst : HpatchInst) : Prog (Machine σ κ) (Option HpatchInst) :=
  if cfg.useStorageSwap then do
    match ← targetOpen io .swap .writeCreate with
    | (some part, some swapPartSize) =>
        if swapPartSize ≤ cfg.swapOffset then
          targetClose io part
          pure none
        else
          let partSize := swapPartSize - cfg.swapOffset
          if ← eraseWithFeed io part cfg.swapOffset partSize then
            pure (some { inst with
              swap := .flash part partSize, capacity := i32 partSize, writePos := 0 })
          else
            targetClose io part
            pure none
    | _ => pure none
  else
    pure (some { inst with
      swap := .ram, capacity := cfg.ramBufSize, writePos := 0 })

/-- `qbt_ram_swap_deinit` and `qbt_flash_swap_deinit` -/
def swapDeinit (inst : HpatchInst) : Prog (Machine σ κ) Unit :=
  match inst.swap with
  | .ram => pure ()
  | .flash part _ => targetClose io part

/-- The tail erase and the length check at the end of
`qbt_hpatchlite_release_from_part`. -/
def hpatchFinish (inst : HpatchInst) : Prog (Machine σ κ) Bool := do
  let partLen ← onDev (io.size inst.oldPart)
  let erased ← match partLen with
    | some partLen =>
        if inst.newerFileLen < i32 partLen then
          eraseAlignedRange io inst (sizeT inst.newerFileLen) partLen true
        else pure (some inst)
    | none => pure (some inst)
  match erased with
  | none => pure false
  | some inst => pure ((inst.committedLen : Int) = inst.newerFileLen)

variable (env : HpatchEnv σ)

/-- The instance at the start of `qbt_hpatchlite_release_from_part`. -/
def hpatchStart (patchPart oldPart : Handle) (patchFileLen newerFileLen : Int)
    (patchFileOffset sectorSize : Nat) : HpatchInst where
  patchFileOffset := patchFileOffset
  patchFileLen := patchFileLen
  patchReadPos := 0
  newerFileLen := newerFileLen
  newerWritePos := 0
  patchPart := patchPart
  oldPart := oldPart
  swap := .ram
  ramBuf := []
  writePos := 0
  capacity := 0
  committedLen := 0
  sectorSize := sectorSize
  erasedEnd := 0

/-- `hpi_patch` and the last commit; `none` when either fails. -/
def patchAndCommit (inst : HpatchInst) :
    Prog (Machine σ κ) (Option HpatchInst) := do
  match ← runPatch io env.cfg env.hpiPatch inst with
  | some inst => swapCommit io env.cfg inst
  | none => pure none

/-- The swap file is smaller than an erase unit. -/
def swapFileTooSmall (sectorSize : Nat) : Bool :=
  match cfg.swapFileSize with
  | some size => cfg.useStorageSwap && ((size : Int) < i32 sectorSize)
  | none => false

/-- `qbt_hpatchlite_release_from_part` -/
def hpatchliteReleaseFromPart (patchPart oldPart : Handle)
    (patchFileLen newerFileLen : Int) (patchFileOffset : Nat) :
    Prog (Machine σ κ) Bool := do
  match ← onDev (io.getEraseAlign oldPart) with
  | none => pure false
  | some sectorSize =>
      if swapFileTooSmall env.cfg sectorSize then pure false
      else if ← onDev (env.malloc env.cfg.ramBufSize) then
        match ← swapInit io env.cfg (hpatchStart patchPart oldPart patchFileLen
          newerFileLen patchFileOffset sectorSize) with
        | none => pure false
        | some inst =>
            let result ← patchAndCommit io env inst
            swapDeinit io inst
            match result with
            | none => pure false
            | some inst => hpatchFinish io inst
      else pure false

end Qboot
