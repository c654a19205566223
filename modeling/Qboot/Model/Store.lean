import Qboot.Model.Device
/-!
# One flash, and the mux

The CUSTOM backend, which places every target at an address of its own in the flash
behind the board's hooks, and the mux backend, which dispatches every target to the
backend of its descriptor.
-/

namespace Qboot

open Library Bytes Flash

variable {σ : Type}

/-- `qbt_store_backend_t` -/
inductive StoreBackend where
  | fal
  | fs
  | custom
  deriving DecidableEq, Repr

/-- `qboot_store_desc_t` -/
structure StoreDesc where
  flashAddr : Nat
  flashLen : Nat
  backend : StoreBackend
  deriving DecidableEq, Repr

/-! ## CUSTOM -/

/-- The hooks of a board: `qbt_custom_flash_read`, `qbt_custom_flash_write` and
`qbt_custom_flash_erase`. -/
structure FlashHooks (σ : Type) where
  read : Nat → (len : Nat) → Prog σ (Option (Block len))
  write : Nat → List UInt8 → Prog σ Bool
  erase : Nat → Nat → Prog σ Bool

section Custom

variable (hooks : FlashHooks σ) (descs : TargetId → StoreDesc)

/-- `qbt_custom_range_check` -/
def customRangeCheck (desc : StoreDesc) (off len : Nat) : Bool :=
  if desc.flashLen = 0 then false
  else if desc.flashLen < off then false
  else if desc.flashLen - off < len then false
  else true

/-- `qbt_custom_read` -/
def customRead (h : Handle) (off len : Nat) : Prog σ (Option (Block len)) :=
  if customRangeCheck (descs h.target) off len then
    hooks.read (u32 ((descs h.target).flashAddr + off)) len
  else pure none

/-- `qbt_custom_write` -/
def customWrite (h : Handle) (off : Nat) (data : List UInt8) : Prog σ Bool :=
  if customRangeCheck (descs h.target) off data.length then
    hooks.write (u32 ((descs h.target).flashAddr + off)) data
  else pure false

/-- `qbt_custom_erase` -/
def customErase (h : Handle) (off len : Nat) : Prog σ Bool :=
  if customRangeCheck (descs h.target) off len then
    hooks.erase (u32 ((descs h.target).flashAddr + off)) len
  else pure false

/-- The operation table of CUSTOM; `eraseAlign` is `QBOOT_FLASH_ERASE_ALIGN`. -/
def customIo (eraseAlign : Nat) : IoOps σ where
  openTarget := fun id _ =>
    if (descs id).backend = .custom ∧ (descs id).flashLen ≠ 0 then pure (some 0)
    else pure none
  close := fun _ => pure ()
  read := customRead hooks descs
  erase := customErase hooks descs
  write := customWrite hooks descs
  size := fun h => pure (some (descs h.target).flashLen)
  getEraseAlign := fun _ => pure (some eraseAlign)

/-- The sign handlers of CUSTOM. -/
def customParser : HeaderParserOps σ where
  signRead := fun h info => do
    match ← customRead hooks descs h (signPos info) 4 with
    | none => pure none
    | some bytes => pure (some (leNat bytes.1 == releaseSignWord))
  signWrite := fun h info =>
    customWrite hooks descs h (signPos info) (leBytes 4 releaseSignWord)
  signClear := fun _ _ => pure true

end Custom

/-! ## A flash -/

/-- One flash behind all targets; `lost` is the address at which the operation began that
a power cut hit. -/
structure SharedFlash where
  medium : Region
  power : Power
  torn : Nat → UInt8
  lost : Nat

namespace SharedFlash

/-- Perform `op` at `addr`, which turns the medium into `r`, as far as the power lasts. -/
def perform (d : SharedFlash) (addr : Nat) (op : Op) (r : Region) : Bool × SharedFlash :=
  match d.power with
  | .steady => (true, { d with medium := r })
  | .cutAfter (n + 1) => (true, { d with medium := r, power := .cutAfter n })
  | .cutAfter 0 =>
      (false, { d with medium := d.medium.tear op d.torn, power := .off, lost := addr })
  | .off => (false, d)

/-- The hooks over this flash. -/
def hooks : FlashHooks SharedFlash where
  read := fun addr len d =>
    (if d.power ≠ .off then some (d.medium.read addr len) else none, d)
  write := fun addr data d =>
    d.perform addr (.program addr data.length) (d.medium.program addr data)
  erase := fun addr len d => d.perform addr (.erase addr len) (d.medium.erase addr len)

end SharedFlash

/-! ## The mux -/

/-- `qbt_mux_handle_t` -/
structure MuxHandle where
  backend : StoreBackend
  backendHandle : Handle
  deriving DecidableEq, Repr

/-- A storage with `g_mux_handles` beside it; a slot that was never opened is all zeros. -/
structure MuxDev (σ : Type) where
  dev : σ
  slots : TargetId → Option MuxHandle

section Mux

variable (backends : StoreBackend → IoOps σ) (parsers : StoreBackend → HeaderParserOps σ)
  (descs : TargetId → StoreDesc)

/-- Perform a backend's operation on the storage. -/
def onBackend {α : Type} (x : Prog σ α) : Prog (MuxDev σ) α :=
  Prog.zoom (·.dev) (fun s d => { d with dev := s }) x

/-- A call with the handle in the slot; a slot that was never opened gives `refused`. -/
def viaSlot {α : Type} (h : Handle) (refused : α)
    (call : StoreBackend → Handle → Prog σ α) : Prog (MuxDev σ) α := do
  match ← Prog.gets (·.slots h.target) with
  | none => pure refused
  | some slot => onBackend (call slot.backend slot.backendHandle)

/-- `qbt_mux_open` -/
def muxOpen (id : TargetId) (flags : OpenFlags) : Prog (MuxDev σ) (Option Nat) := do
  match ← onBackend ((backends (descs id).backend).openTarget id flags) with
  | none => pure none
  | some ref =>
      Prog.modify fun d =>
        { d with slots := Function.update d.slots id (some ⟨(descs id).backend, ⟨id, ref⟩⟩) }
      pure (some 0)

/-- The operation table of the mux; a close leaves the slot as it is. -/
def muxIo : IoOps (MuxDev σ) where
  openTarget := muxOpen backends descs
  close := fun h => viaSlot h () fun b => (backends b).close
  read := fun h off len => viaSlot h none fun b h => (backends b).read h off len
  erase := fun h off len => viaSlot h false fun b h => (backends b).erase h off len
  write := fun h off data => viaSlot h false fun b h => (backends b).write h off data
  size := fun h => viaSlot h none fun b => (backends b).size
  getEraseAlign := fun h => viaSlot h none fun b => (backends b).getEraseAlign

/-- The sign handlers of the mux. -/
def muxParser : HeaderParserOps (MuxDev σ) where
  signRead := fun h info => viaSlot h none fun b h => (parsers b).signRead h info
  signWrite := fun h info => viaSlot h false fun b h => (parsers b).signWrite h info
  signClear := fun h info => viaSlot h false fun b h => (parsers b).signClear h info

end Mux

end Qboot
