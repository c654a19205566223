import Qboot.Library.Prog
import Qboot.Model.Types
/-!
# The machine and the storage interface

The boot code runs over a machine: the storage device behind the registered
operation table, the static memory of the codecs, the static firmware header
of the boot thread, and a record of what has been issued so far.  The record
is read by no modelled function; it is what run properties talk about.
-/

namespace Qboot

open Library Bytes

/-- An open target: the identifier it was opened for and the backend's pointer. -/
structure Handle where
  target : TargetId
  ref : Nat
  deriving DecidableEq, Repr

/-- `QBT_OPEN_*` -/
inductive OpenFlags where
  | read
  | write
  | writeCreate
  | writeCreateTrunc
  deriving DecidableEq, Repr

/-- `qboot_io_ops_t`: the operation table of a storage backend. -/
structure IoOps (σ : Type) where
  openTarget : TargetId → OpenFlags → Prog σ (Option Nat)
  close : Handle → Prog σ Unit
  read : Handle → Nat → (len : Nat) → Prog σ (Option (Block len))
  erase : Handle → Nat → Nat → Prog σ Bool
  write : Handle → Nat → List UInt8 → Prog σ Bool
  size : Handle → Prog σ (Option Nat)
  getEraseAlign : Handle → Prog σ (Option Nat)

/-- `qboot_header_parser_ops_t`: the release sign of a package. -/
structure HeaderParserOps (σ : Type) where
  signRead : Handle → FwInfo → Prog σ (Option Bool)
  signWrite : Handle → FwInfo → Prog σ Bool
  signClear : Handle → FwInfo → Prog σ Bool

/-! ## Streams -/

/-- `qbt_stream_purpose_t` -/
inductive StreamPurpose where
  | write
  | crc
  deriving DecidableEq, Repr

/-- `qbt_stream_status_t` -/
structure StreamStatus where
  consumed : Nat
  produced : Nat
  remainingIn : Nat
  deriving DecidableEq, Repr

/-- The zero-initialised status. -/
def StreamStatus.zero : StreamStatus := ⟨0, 0, 0⟩

/-- `qbt_stream_ctx_t` -/
structure StreamCtx where
  total : Nat
  consumed : Nat
  rawRemaining : Nat
  purpose : StreamPurpose
  deriving DecidableEq, Repr

/-! ## Record of a run -/

/-- A stage of the codec pipeline. -/
inductive Stage where
  | crypt
  | cmprs
  deriving DecidableEq, Repr

/-- What the boot code issues, in order. -/
inductive Event where
  | opened (id : TargetId) (ok : Bool)
  | closed (id : TargetId)
  /-- A read, with the bytes that it answered when it succeeded. -/
  | read (id : TargetId) (off len : Nat) (data : Option (List UInt8))
  | erased (id : TargetId) (off len : Nat) (ok : Bool)
  | wrote (id : TargetId) (off : Nat) (data : List UInt8) (ok : Bool)
  | signWritten (id : TargetId) (ok : Bool)
  | stageInit (stage : Stage) (ok : Bool)
  | stageDeinit (stage : Stage)
  /-- `cmprs_len` bytes are buffered and `read_len` more are about to be read. -/
  | filled (cmprsLen readLen : Nat)
  /-- The bytes that the crypto stage delivered into the input buffer. -/
  | decrypted (bytes : List UInt8)
  | decompress (inp : List UInt8) (outLen : Nat) (ctx : StreamCtx)
  /-- The consumer accepted an output, `consumed` input bytes after the last. -/
  | accepted (out : List UInt8) (consumed : Nat)
  /-- A swap commit ended, with the two counters it leaves. -/
  | committed (committedLen erasedEnd : Nat)
  | releaseStart (src : TargetId) (checkSign : Bool)
  | released (src : TargetId) (checkSign ok : Bool)
  | updated (dst : TargetId) (ok : Bool)
  | jumped
  | notified (success : Bool)
  | reset
  deriving DecidableEq, Repr

/-- An erase or a write issued to target `id`. -/
def Event.touches (id : TargetId) : Event → Bool
  | .erased id' _ _ _ => id' == id
  | .wrote id' _ _ _ => id' == id
  | _ => false

/-! ## The machine -/

/-- Storage `σ`, codec memory `κ`, the static header, and the record. -/
structure Machine (σ κ : Type) where
  dev : σ
  mem : κ
  fwInfo : FwInfo
  log : List Event

variable {σ κ α : Type}

namespace Machine

/-- Run a storage operation. -/
def onDev (x : Prog σ α) : Prog (Machine σ κ) α :=
  Prog.zoom (·.dev) (fun d m => { m with dev := d }) x

/-- Run an operation of the codecs' static memory. -/
def onMem (x : Prog κ α) : Prog (Machine σ κ) α :=
  Prog.zoom (·.mem) (fun k m => { m with mem := k }) x

/-- Record an event. -/
def emit (e : Event) : Prog (Machine σ κ) Unit :=
  Prog.modify fun m => { m with log := m.log ++ [e] }

/-- Assign the static header. -/
def setFwInfo (h : FwInfo) : Prog (Machine σ κ) Unit :=
  Prog.modify fun m => { m with fwInfo := h }

@[simp] theorem run_onDev (x : Prog σ α) (m : Machine σ κ) :
    onDev x m = ((x m.dev).1, { m with dev := (x m.dev).2 }) := rfl

@[simp] theorem run_onMem (x : Prog κ α) (m : Machine σ κ) :
    onMem x m = ((x m.mem).1, { m with mem := (x m.mem).2 }) := rfl

@[simp] theorem run_emit (e : Event) (m : Machine σ κ) :
    emit e m = ((), { m with log := m.log ++ [e] }) := rfl

@[simp] theorem run_setFwInfo (h : FwInfo) (m : Machine σ κ) :
    setFwInfo h m = ((), { m with fwInfo := h }) := rfl

end Machine

open Machine

/-! ## Calls through the operation table -/

section Calls

variable (io : IoOps σ)

/-- `_header_io_ops->read` -/
def ioRead (h : Handle) (off len : Nat) :
    Prog (Machine σ κ) (Option (Block len)) := do
  let r ← onDev (io.read h off len)
  emit (.read h.target off len (r.map Subtype.val))
  pure r

/-- `_header_io_ops->write` -/
def ioWrite (h : Handle) (off : Nat) (data : List UInt8) :
    Prog (Machine σ κ) Bool := do
  let ok ← onDev (io.write h off data)
  emit (.wrote h.target off data ok)
  pure ok

/-- `qbt_erase_with_feed` -/
def eraseWithFeed (h : Handle) (off len : Nat) : Prog (Machine σ κ) Bool := do
  let ok ← onDev (io.erase h off len)
  emit (.erased h.target off len ok)
  pure ok

/-- `qbt_target_close` on a non-NULL handle -/
def targetClose (h : Handle) : Prog (Machine σ κ) Unit := do
  onDev (io.close h)
  emit (.closed h.target)

/-- `qbt_target_open`: the handle it stores, and the size when it succeeds.
When only the size query fails the handle is closed but stays stored. -/
def targetOpen (id : TargetId) (flags : OpenFlags) :
    Prog (Machine σ κ) (Option Handle × Option Nat) := do
  match ← onDev (io.openTarget id flags) with
  | none =>
      emit (.opened id false)
      pure (none, none)
  | some ref =>
      emit (.opened id true)
      match ← onDev (io.size ⟨id, ref⟩) with
      | none =>
          targetClose io ⟨id, ref⟩
          pure (some ⟨id, ref⟩, none)
      | some size => pure (some ⟨id, ref⟩, some size)

theorem run_ioRead (h : Handle) (off len : Nat) (m : Machine σ κ) :
    ioRead io h off len m = ((io.read h off len m.dev).1,
      { m with
        dev := (io.read h off len m.dev).2
        log := m.log ++
          [.read h.target off len ((io.read h off len m.dev).1.map Subtype.val)] }) := rfl

theorem run_ioWrite (h : Handle) (off : Nat) (data : List UInt8)
    (m : Machine σ κ) :
    ioWrite io h off data m = ((io.write h off data m.dev).1,
      { m with
        dev := (io.write h off data m.dev).2
        log := m.log ++
          [.wrote h.target off data (io.write h off data m.dev).1] }) := rfl

theorem run_eraseWithFeed (h : Handle) (off len : Nat) (m : Machine σ κ) :
    eraseWithFeed io h off len m = ((io.erase h off len m.dev).1,
      { m with
        dev := (io.erase h off len m.dev).2
        log := m.log ++
          [.erased h.target off len (io.erase h off len m.dev).1] }) := rfl

end Calls

end Qboot
