import Qboot.Library.Loop
import Qboot.Model.Algo
/-!
# The streaming engine

`qbt_decompress_with_consumer` and `qbt_fw_stream_process`, as loops over the
buffered input.  Both loops carry fuel and answer `none` only when it is spent;
`Proofs.StreamRules` shows that the fuel given here always suffices.

The input buffer is `g_cmprs_buf` with the number of valid bytes in it.  Where
no compression is configured the output and cipher buffers are that same
array, which is why fetching and decompressing write to it.
-/

namespace Qboot

open Library Bytes Machine Loop

/-! ## The input buffer -/

/-- `cmprs_buf` and the number of valid bytes at its start. -/
structure CmprsBuf where
  cells : Nat → UInt8
  len : Nat

namespace CmprsBuf

def empty : CmprsBuf := ⟨fun _ => 0, 0⟩

/-- The valid bytes. -/
def bytes (w : CmprsBuf) : List UInt8 := (readCells w.cells 0 w.len).1

/-- Store `data` behind the valid bytes. -/
def fill (w : CmprsBuf) (data : List UInt8) : CmprsBuf :=
  ⟨overwrite w.cells w.len data, w.len + data.length⟩

/-- Drop `k` bytes and move the others to the start. -/
def consume (w : CmprsBuf) (k : Nat) : CmprsBuf :=
  ⟨overwrite w.cells 0 (readCells w.cells k (w.len - k)).1, w.len - k⟩

/-- Overwrite the start of the array, the valid length left as it is. -/
def clobber (w : CmprsBuf) (data : List UInt8) : CmprsBuf :=
  { w with cells := overwrite w.cells 0 data }

@[simp] theorem length_bytes (w : CmprsBuf) : w.bytes.length = w.len :=
  (readCells w.cells 0 w.len).2

@[simp] theorem len_empty : empty.len = 0 := rfl

@[simp] theorem bytes_empty : empty.bytes = [] := rfl

@[simp] theorem len_fill (w : CmprsBuf) (data : List UInt8) :
    (w.fill data).len = w.len + data.length := rfl

@[simp] theorem len_consume (w : CmprsBuf) (k : Nat) :
    (w.consume k).len = w.len - k := rfl

@[simp] theorem bytes_fill (w : CmprsBuf) (data : List UInt8) :
    (w.fill data).bytes = w.bytes ++ data := by
  have hfront : (readCells w.cells 0 w.len).1 = w.bytes := rfl
  have h : (readCells (overwrite w.cells (0 + w.len) data) 0
      (w.len + data.length)).1 = w.bytes ++ data :=
    readCells_overwrite_extend hfront
  simpa [bytes, fill] using h

theorem bytes_consume {w : CmprsBuf} {k : Nat} (h : k ≤ w.len) :
    (w.consume k).bytes = w.bytes.drop k := by
  have hsplit : w.bytes =
      (readCells w.cells 0 k).1 ++ (readCells w.cells k (w.len - k)).1 := by
    have happend := readCells_append w.cells 0 k (w.len - k)
    rwa [Nat.zero_add, Nat.add_sub_cancel' h] at happend
  have hlen : (readCells w.cells k (w.len - k)).1.length = w.len - k :=
    (readCells w.cells k (w.len - k)).2
  have hread := readCells_overwrite_same w.cells 0
    (readCells w.cells k (w.len - k)).1
  have hfront : (readCells w.cells 0 k).1.length = k :=
    (readCells w.cells 0 k).2
  rw [hsplit, List.drop_left' hfront, bytes, consume]
  rwa [hlen] at hread

theorem bytes_of_len_eq_zero {w : CmprsBuf} (h : w.len = 0) : w.bytes = [] :=
  List.eq_nil_of_length_eq_zero (by rw [length_bytes, h])

end CmprsBuf

/-! ## Platform -/

/-- What the streaming code is compiled against. -/
structure Platform (σ : Type) where
  build : Build
  io : IoOps σ
  crc : CrcLib

variable {σ κ : Type} (pl : Platform σ)

/-- `qbt_fw_pkg_read` into the tail of the input buffer.  The crypto stage is
always present after a lookup, so the raw branch is left out. -/
def fwPkgRead (src : Handle) (srcOff : Nat) (win : CmprsBuf) (readLen : Nat)
    (algo : AlgoContext κ) : Prog (Machine σ κ) (Option CmprsBuf) := do
  match ← ioRead pl.io src srcOff readLen with
  | none => pure none
  | some cipher =>
      let win := if pl.build.usingCompression then win else win.clobber cipher.1
      let r ← onMem (algo.crypt.decrypt (readCells win.cells win.len readLen) cipher)
      emit (.decrypted r.2.1)
      pure (if r.1 = .eok then some (win.fill r.2.1) else none)

/-! ## Consumers -/

/-- `qbt_stream_state_t` -/
structure StreamState where
  dst : Handle
  rawPos : Nat
  rawSize : Nat
  deriving DecidableEq

/-- The consumer context: the CRC accumulator of `qbt_stream_crc_proc`, or the
state of `qbt_stream_write_proc`.  Callers pass each with its own purpose. -/
inductive ProcCtx where
  | crc (acc : UInt32)
  | write (st : StreamState)
  deriving DecidableEq

namespace ProcCtx

def purpose : ProcCtx → StreamPurpose
  | crc _ => .crc
  | write _ => .write

/-- The stream loop sets the output position of a write context. -/
def setRawPos (rawPos : Nat) : ProcCtx → ProcCtx
  | crc acc => crc acc
  | write st => write { st with rawPos := rawPos }

end ProcCtx

/-- `qbt_crc_chunk_consumer` and `qbt_write_chunk_consumer` -/
def consumer (ctx : ProcCtx) (buf : List UInt8) :
    Prog (Machine σ κ) (RtErr × ProcCtx) :=
  match ctx with
  | .crc acc => pure (.eok, .crc (pl.crc.cycCal acc buf))
  | .write st => do
      if ← ioWrite pl.io st.dst st.rawPos buf then
        pure (.eok, .write { st with rawPos := st.rawPos + buf.length })
      else
        pure (.error, .write st)

/-! ## The inner loop -/

/-- The variables of `qbt_decompress_with_consumer`. -/
structure DecState where
  win : CmprsBuf
  remainingOut : Nat
  consumed : Nat
  produced : Nat
  step : StreamStatus
  ctx : ProcCtx

namespace DecState

/-- `cur_cap` -/
def curCap (d : DecState) : Nat := min d.remainingOut bufSize

/-- `call_ctx` -/
def callCtx (ctx : StreamCtx) (d : DecState) : StreamCtx :=
  { ctx with
    rawRemaining := d.remainingOut
    consumed := ctx.consumed + d.consumed }

/-- An empty buffer before the end of the package waits for more input. -/
def Waits (ctx : StreamCtx) (d : DecState) : Prop :=
  d.win.len = 0 ∧ ctx.consumed + d.consumed < ctx.total

instance (ctx : StreamCtx) (d : DecState) : Decidable (d.Waits ctx) :=
  inferInstanceAs (Decidable (_ ∧ _))

/-- The round ends here: more input needed, a failure, an overrun of either
buffer, or no progress. -/
def Stops (d : DecState) (rst : RtErr) (step : StreamStatus) : Prop :=
  rst ≠ .eok ∨ d.win.len < step.consumed ∨ d.curCap < step.produced ∨
    (step.consumed = 0 ∧ step.produced = 0)

instance (d : DecState) (rst : RtErr) (step : StreamStatus) :
    Decidable (d.Stops rst step) :=
  inferInstanceAs (Decidable (_ ∨ _ ∨ _ ∨ _ ∧ _))

/-- What a handler leaves behind: its status, and in a build without separate
buffers its output over the input. -/
def called (b : Build) (d : DecState) (step : StreamStatus)
    (out : List UInt8) : DecState :=
  { d with
    step := step
    win := if b.usingCompression then d.win else d.win.clobber out }

/-- The counters after an accepted output. -/
def advance (d : DecState) (pc : ProcCtx) : DecState :=
  { d with
    win := d.win.consume d.step.consumed
    remainingOut := d.remainingOut - d.step.produced
    consumed := d.consumed + d.step.consumed
    produced := d.produced + d.step.produced
    ctx := pc }

end DecState

/-- One round of `qbt_decompress_with_consumer`. -/
def decompressRound (algo : AlgoContext κ) (ctx : StreamCtx) (d : DecState) :
    Prog (Machine σ κ) (Next DecState (RtErr × DecState)) :=
  if d.remainingOut = 0 ∨ d.Waits ctx then pure (.done (.eok, d))
  else do
    emit (.decompress d.win.bytes d.curCap (d.callCtx ctx))
    let r ← onMem (algo.cmprs.decompress d.win.bytes d.curCap d.step
      (d.callCtx ctx))
    let d := d.called pl.build r.2.1 r.2.2.1
    if d.Stops r.1 d.step then pure (.done (r.1, d))
    else
      let out := r.2.2.1.take d.step.produced
      let c ← consumer pl d.ctx out
      if c.1 ≠ .eok then pure (.done (c.1, { d with ctx := c.2 }))
      else
        emit (.accepted out d.step.consumed)
        pure (.again (d.advance c.2))

/-- `qbt_decompress_with_consumer` -/
def decompressWithConsumer (algo : AlgoContext κ) (ctx : StreamCtx)
    (win : CmprsBuf) (pc : ProcCtx) :
    Prog (Machine σ κ) (Option (RtErr × DecState)) :=
  iterate (decompressRound pl algo ctx) (ctx.rawRemaining + win.len + 1)
    ⟨win, ctx.rawRemaining, 0, 0, .zero, pc⟩

/-! ## The outer loop -/

/-- The variables of `qbt_fw_stream_process`. -/
structure StreamLoop where
  srcPos : Nat
  rawPos : Nat
  win : CmprsBuf
  ctx : ProcCtx

/-- `remain_len`, the signed difference of two wrapped positions. -/
def remainLen (h : FwInfo) (srcPos : Nat) : Int :=
  i32 (u32 (u32 (h.pkgSize.toNat + srcReadPos) + 2 ^ 32 - srcPos))

/-- The second half of a round: decompress what is buffered. -/
def streamDecode (h : FwInfo) (algo : AlgoContext κ) (st : StreamLoop) :
    Prog (Machine σ κ) (Next StreamLoop (Option (Bool × ProcCtx))) := do
  let ctx : StreamCtx :=
    { total := h.pkgSize.toNat
      consumed := st.srcPos - srcReadPos - st.win.len
      rawRemaining := h.rawSize.toNat - st.rawPos
      purpose := st.ctx.purpose }
  match ← decompressWithConsumer pl algo ctx st.win (st.ctx.setRawPos st.rawPos) with
  | none => pure (.done none)
  | some (rst, d) =>
      if rst = .error ∨ d.produced = 0 then
        pure (.done (some (false, d.ctx)))
      else
        pure (.again
          { st with win := d.win, rawPos := st.rawPos + d.produced, ctx := d.ctx })

/-- One round of `qbt_fw_stream_process`. -/
def streamRound (h : FwInfo) (src : Handle) (algo : AlgoContext κ)
    (st : StreamLoop) :
    Prog (Machine σ κ) (Next StreamLoop (Option (Bool × ProcCtx))) :=
  if h.rawSize.toNat ≤ st.rawPos then pure (.done (some (true, st.ctx)))
  else
    let remain := remainLen h st.srcPos
    if 0 < remain then do
      let readLen := min cmprsReadSize remain.toNat
      emit (.filled st.win.len readLen)
      match ← fwPkgRead pl src st.srcPos st.win readLen algo with
      | none => pure (.done (some (false, st.ctx)))
      | some win =>
          streamDecode pl h algo
            { st with srcPos := st.srcPos + readLen, win := win }
    else if remain < 0 ∨ st.win.len = 0 then
      pure (.done (some (false, st.ctx)))
    else
      streamDecode pl h algo st

/-- `qbt_fw_stream_process`, with `none` for spent fuel. -/
def streamProcess (h : FwInfo) (src : Handle) (algo : AlgoContext κ)
    (pc : ProcCtx) : Prog (Machine σ κ) (Option (Bool × ProcCtx)) := do
  let r ← iterate (streamRound pl h src algo) (h.rawSize.toNat + 1)
    ⟨srcReadPos, 0, .empty, pc⟩
  pure r.join

/-- `qbt_fw_stream_process` -/
def fwStreamProcess (h : FwInfo) (src : Handle) (algo : AlgoContext κ)
    (pc : ProcCtx) : Prog (Machine σ κ) (Bool × ProcCtx) := do
  let r ← streamProcess pl h src algo pc
  pure (r.getD (false, pc))

end Qboot
