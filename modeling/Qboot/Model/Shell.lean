import Qboot.Model.Boot
/-!
# The clone command

The clone command of `qbt_shell_cmd`, with `qbt_fw_clone`.
-/

namespace Qboot

open Library Bytes Machine Loop

variable {σ κ : Type} (env : Env σ κ)

/-- One round of the copy loop of `qbt_fw_clone`, at position `pos`. -/
def cloneRound (dst src : Handle) (size pos : Nat) :
    Prog (Machine σ κ) (Next Nat Bool) :=
  if size ≤ pos then pure (.done true)
  else do
    let readLen := sizeT (min bufSize (i32 (size - pos)))
    match ← ioRead env.io src pos readLen with
    | none => pure (.done false)
    | some data =>
        if ← ioWrite env.io dst pos data.1 then pure (.again (u32 (pos + readLen)))
        else pure (.done false)

/-- `qbt_fw_clone` -/
def fwClone (dst src : Handle) (size : Nat) : Prog (Machine σ κ) Bool := do
  if ← eraseWithFeed env.io dst 0 size then
    let r ← iterate (cloneRound env dst src size) (size + 1) 0
    pure (r.getD false)
  else pure false

/-- The clone command with both targets open, up to closing them. -/
def cloneOpened (dst src : Handle) (srcSize : Nat) : Prog (Machine σ κ) Bool := do
  if ← fwCheck env src srcSize then
    let info ← Prog.gets (·.fwInfo)
    fwClone env dst src (u32 (srcReadPos + info.pkgSize.toNat))
  else pure false

/-- `qbt_name_to_id` of a command argument -/
def argToId (name : List UInt8) : Option TargetId :=
  nameToId env.hpatch.cfg.useStorageSwap (name ++ [0])

/-- The clone command of `qbt_shell_cmd`; the destination is opened first, and
without asking for its size. -/
def shellClone (src dst : List UInt8) : Prog (Machine σ κ) Unit :=
  match argToId env dst with
  | none => pure ()
  | some dstId => do
      match ← onDev (env.io.openTarget dstId .writeCreate) with
      | none => emit (.opened dstId false)
      | some ref =>
          emit (.opened dstId true)
          match argToId env src with
          | none => targetClose env.io ⟨dstId, ref⟩
          | some srcId =>
              match ← targetOpen env.io srcId .read with
              | (some srcHandle, some srcSize) =>
                  let _ ← cloneOpened env ⟨dstId, ref⟩ srcHandle srcSize
                  targetClose env.io srcHandle
                  targetClose env.io ⟨dstId, ref⟩
              | _ => targetClose env.io ⟨dstId, ref⟩

end Qboot
