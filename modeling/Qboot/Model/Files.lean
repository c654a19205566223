import Qboot.Library.Posix
import Qboot.Model.Boot
/-!
# File-backed storage

`qboot_fs_ops.c`: every target is a file, and the release sign is the existence
of a marker file.  A handle is the target's number; the descriptor behind it is
looked up in a table with one entry for each target.
-/

namespace Qboot

open Library Bytes Posix

/-- The files of the backend: `store_name` of a target, and
`QBOOT_DOWNLOAD_SIGN_FILE_PATH`. -/
inductive FsPath where
  | target (id : TargetId)
  | sign
  deriving DecidableEq, Repr

/-- The file system, and `g_fs_fds`, which stores `fd + 1`. -/
structure FsDev where
  sys : FileSys FsPath
  slots : TargetId → Option Nat

namespace FsDev

/-- The files are there and nothing has been opened yet. -/
def start (file : FsPath → Option (List UInt8)) (openMax offMax : Nat) : FsDev where
  sys :=
    { file := file
      desc := fun _ => none
      pos := fun _ => 0
      openMax := openMax
      offMax := offMax
      opens := 0
      closed := [] }
  slots := fun _ => none

/-- What the file of a target holds. -/
def bytes (d : FsDev) (id : TargetId) : List UInt8 := d.sys.content (.target id)

end FsDev

def OpenFlags.writable : OpenFlags → Bool
  | .read => false
  | _ => true

def OpenFlags.create : OpenFlags → Bool
  | .writeCreate => true
  | .writeCreateTrunc => true
  | _ => false

def OpenFlags.trunc : OpenFlags → Bool
  | .writeCreateTrunc => true
  | _ => false

/-- `qbt_fs_open` -/
def fsOpen (id : TargetId) (flags : OpenFlags) : Prog FsDev (Option Nat) := fun d =>
  match d.sys.openFile (.target id) flags.writable flags.create flags.trunc with
  | (none, sys) => (none, { d with sys := sys })
  | (some fd, sys) => (some 0, { sys := sys, slots := Function.update d.slots id (some fd) })

/-- `qbt_fs_close` -/
def fsClose (h : Handle) : Prog FsDev Unit := fun d =>
  ((), {
    sys := match d.slots h.target with
      | none => d.sys
      | some fd => d.sys.close fd
    slots := Function.update d.slots h.target none })

/-- `qbt_fs_read`; on an empty slot the descriptor is `-1`.  The answer of `read` is
compared with the length as `int`. -/
def fsRead (h : Handle) (off len : Nat) : Prog FsDev (Option (Block len)) := fun d =>
  match d.slots h.target with
  | none => (none, d)
  | some fd =>
      match d.sys.seek fd off with
      | (false, sys) => (none, { d with sys := sys })
      | (true, sys) =>
          match sys.read fd len with
          | (none, sys) => (none, { d with sys := sys })
          | (some bytes, sys) =>
              (if hlen : bytes.length = len ∧ len < 2 ^ 31 then some ⟨bytes, hlen.1⟩ else none,
                { d with sys := sys })

/-- The swap target keeps a fixed size where its area is a file. -/
def fixedSize (cfg : HpatchConfig) (id : TargetId) : Option Nat :=
  if id = .swap ∧ cfg.useStorageSwap then cfg.swapFileSize else none

/-- `qbt_fs_erase`; the range is ignored. -/
def fsErase (cfg : HpatchConfig) (h : Handle) (_off _len : Nat) : Prog FsDev Bool := fun d =>
  match d.slots h.target with
  | none => (false, d)
  | some fd =>
      match d.sys.ftruncate fd ((fixedSize cfg h.target).getD 0) with
      | (ok, sys) => (ok, { d with sys := sys })

/-- `qbt_fs_write` -/
def fsWrite (h : Handle) (off : Nat) (data : List UInt8) : Prog FsDev Bool := fun d =>
  match d.slots h.target with
  | none => (false, d)
  | some fd =>
      match d.sys.seek fd off with
      | (false, sys) => (false, { d with sys := sys })
      | (true, sys) =>
          match sys.write fd data with
          | (ok, sys) => (ok && data.length < 2 ^ 31, { d with sys := sys })

/-- `qbt_fs_size` -/
def fsSize (cfg : HpatchConfig) (h : Handle) : Prog FsDev (Option Nat) := fun d =>
  match fixedSize cfg h.target with
  | some size => (some (u32 size), d)
  | none =>
      match d.slots h.target with
      | none => (none, d)
      | some fd => ((d.sys.fileLength fd).map u32, d)

/-- `g_qboot_io_fs`; the alignment query is not supported. -/
def fsIo (cfg : HpatchConfig) : IoOps FsDev where
  openTarget := fsOpen
  close := fsClose
  read := fsRead
  erase := fsErase cfg
  write := fsWrite
  size := fsSize cfg
  getEraseAlign := fun _ d => (none, d)

/-- `qbt_fs_sign_read` -/
def fsSignRead (_h : Handle) (_info : FwInfo) : Prog FsDev (Option Bool) := fun d =>
  match d.sys.openFile .sign false false false with
  | (none, sys) => (some false, { d with sys := sys })
  | (some fd, sys) => (some true, { d with sys := sys.close fd })

/-- `qbt_fs_sign_write` -/
def fsSignWrite (_h : Handle) (_info : FwInfo) : Prog FsDev Bool := fun d =>
  match d.sys.openFile .sign true true true with
  | (none, sys) => (false, { d with sys := sys })
  | (some fd, sys) => (true, { d with sys := sys.close fd })

/-- `qbt_fs_sign_clear` -/
def fsSignClear (_h : Handle) (_info : FwInfo) : Prog FsDev Bool := fun d =>
  (true, { d with sys := d.sys.unlink .sign })

/-- `g_qboot_header_parser_fs` -/
def fsParser : HeaderParserOps FsDev where
  signRead := fsSignRead
  signWrite := fsSignWrite
  signClear := fsSignClear

end Qboot
