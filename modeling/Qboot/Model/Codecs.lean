import Qboot.Model.Stream
/-!
# The built-in codecs

The handlers of NONE, GZIP, QuickLZ, FastLZ and the HPatchLite placeholder, and
the crypto stages NONE and AES.  The third-party decoders below them are
parameters: a stream decoder for zlib, block decoders for QuickLZ and FastLZ,
and a chained block cipher.
-/

namespace Qboot

open Library Bytes

/-! ## Third-party decoders -/

/-- Return codes of `inflate`. -/
inductive InflateRet where
  | ok
  | streamEnd
  | needDict
  | dataError
  | memError
  | bufError
  | streamError
  deriving DecidableEq, Repr

/-- The answer of one `inflate` call. -/
structure Inflated (Z : Type) where
  ret : InflateRet
  consumed : Nat
  out : List UInt8
  strm : Z

/-- zlib with a stream of type `Z`: `inflate strm next_in avail_out`. -/
structure Zlib (Z : Type) where
  inflateInit2 : Z
  inflate : Z → List UInt8 → Nat → Inflated Z
  inflateEnd : Z → Z
  consumed_le : ∀ strm inp availOut,
    (inflate strm inp availOut).consumed ≤ inp.length
  out_le : ∀ strm inp availOut,
    (inflate strm inp availOut).out.length ≤ availOut

/-- QuickLZ: the decoded block, of the payload that the buffer starts with. -/
structure Quicklz (Q : Type) where
  stateInit : Q
  decompress : Q → List UInt8 → List UInt8 × Q

/-- FastLZ: `decompress input length maxout`, with `[]` for a result of at most
zero. -/
structure Fastlz where
  decompress : List UInt8 → Nat → Nat → List UInt8

/-- The AES package in CBC mode, with the chaining value in `A`. -/
structure Aes (A : Type) where
  init : A
  cryptCbc : {len : Nat} → A → Block len → Block len × A

/-- The packages that the codecs are linked with. -/
structure Vendor (Z Q A : Type) where
  zlib : Zlib Z
  quicklz : Quicklz Q
  fastlz : Fastlz
  aes : Aes A

/-! ## Static memory of the codecs -/

/-- `GZIP_REMAIN_BUF_SIZE` -/
def gzipRemainBufSize : Nat := 32

/-- `qbt_strm` with its `avail_in`, and the remainder buffer. -/
structure GzipMem (Z : Type) where
  strm : Z
  availIn : Nat
  remain : List UInt8

structure CodecMem (Z Q A : Type) where
  gzip : GzipMem Z
  quicklz : Q
  aes : A

variable {Z Q A κ : Type}

def onGzip {α : Type} (x : Prog (GzipMem Z) α) : Prog (CodecMem Z Q A) α :=
  Prog.zoom (·.gzip) (fun g m => { m with gzip := g }) x

def onQuicklz {α : Type} (x : Prog Q α) : Prog (CodecMem Z Q A) α :=
  Prog.zoom (·.quicklz) (fun q m => { m with quicklz := q }) x

def onAes {α : Type} (x : Prog A α) : Prog (CodecMem Z Q A) α :=
  Prog.zoom (·.aes) (fun a m => { m with aes := a }) x

/-! ## NONE -/

/-- `qbt_algo_none_decompress`; without compression both buffers are one. -/
def noneDecompress (b : Build) (inp : List UInt8) (outLen : Nat)
    (step : StreamStatus) (_ctx : StreamCtx) :
    Prog κ (RtErr × StreamStatus × Block outLen) :=
  let out := Block.ofList outLen inp
  if inp.length = 0 then pure (.enospc, step, out)
  else
    let copyLen := if b.usingCompression then min inp.length outLen else inp.length
    pure (.eok, { step with consumed := copyLen, produced := copyLen }, out)

/-- `qbt_algo_none_crypt` -/
def noneCrypt (b : Build) {len : Nat} (old inp : Block len) :
    Prog κ (RtErr × Block len) :=
  pure (.eok, if b.usingCompression then inp else old)

def noneCmprsOps (b : Build) : CmprsOps κ where
  cmprsId := algoCmprsNone
  init := none
  decompress := noneDecompress b
  deinit := none

def noneCryptOps (b : Build) : CryptoOps κ where
  cryptoId := algoCryptNone
  init := none
  decrypt := noneCrypt b
  deinit := none

/-! ## AES -/

/-- `qbt_algo_aes_crypt` -/
def aesCrypt (aes : Aes A) {len : Nat} (inp : Block len) :
    Prog A (RtErr × Block len) := fun a =>
  let r := aes.cryptCbc a inp
  ((.eok, r.1), r.2)

def aesCryptOps (v : Vendor Z Q A) : CryptoOps (CodecMem Z Q A) where
  cryptoId := algoCryptAes
  init := some (onAes fun _ => (.eok, v.aes.init))
  decrypt := fun _ inp => onAes (aesCrypt v.aes inp)
  deinit := none

/-! ## GZIP -/

/-- `last_chunk`: the buffered input reaches the end of the package. -/
def gzipLastChunk (inLen : Nat) (ctx : StreamCtx) : Bool :=
  0 < ctx.total && ctx.total ≤ ctx.consumed + inLen

/-- Steps 2 and 3 of `qbt_algo_gzip_decompress`: cut the output to a multiple
of 32, keep or flush the remainder, and check the progress. -/
def gzipFinish (inLen outLen : Nat) (step : StreamStatus) (ctx : StreamCtx)
    (dec : List UInt8) (isEnd : Bool) :
    Prog (GzipMem Z) (RtErr × StreamStatus × Block outLen) := fun g =>
  let total := g.remain ++ dec
  let newRemain := total.length % gzipRemainBufSize
  let aligned := total.length - newRemain
  let pad := ctx.purpose = .write ∧ gzipLastChunk inLen ctx ∧
    aligned + gzipRemainBufSize ≤ outLen
  let produced :=
    if isEnd ∧ 0 < newRemain then
      if pad then aligned + gzipRemainBufSize else aligned + newRemain
    else aligned
  let out := total ++ List.replicate (gzipRemainBufSize - newRemain) 0xFF
  let consumed := u32 (inLen + 2 ^ 32 - g.availIn)
  let rst : RtErr :=
    if consumed = 0 ∧ produced = 0 ∧ ¬isEnd then .enospc
    else if produced = 0 then .error
    else if consumed = 0 ∧ 0 < inLen then .error
    else .eok
  ((rst, { step with consumed := consumed, produced := produced },
      Block.ofList outLen out),
    { g with remain := if isEnd then [] else total.drop aligned })

/-- `qbt_algo_gzip_decompress` -/
def gzipDecompress (z : Zlib Z) (inp : List UInt8) (outLen : Nat)
    (step : StreamStatus) (ctx : StreamCtx) :
    Prog (GzipMem Z) (RtErr × StreamStatus × Block outLen) := fun g =>
  let none := Block.ofList outLen []
  if outLen < g.remain.length then ((.error, step, none), g)
  else if inp.length = 0 then
    -- nothing to inflate: only the remainder at the end can be flushed
    if ¬gzipLastChunk inp.length ctx ∨ g.remain = [] then ((.enospc, step, none), g)
    else gzipFinish inp.length outLen step ctx [] true g
  else
    let room := outLen - g.remain.length
    let r := z.inflate g.strm inp room
    let availIn := inp.length - r.consumed
    if r.ret = .needDict ∨ r.ret = .dataError ∨ r.ret = .memError then
      ((.error, step, none),
        { g with strm := z.inflateEnd r.strm, availIn := availIn })
    else
      gzipFinish inp.length outLen step ctx r.out (r.out.length < room)
        { g with strm := r.strm, availIn := availIn }

def gzipCmprsOps (v : Vendor Z Q A) : CmprsOps (CodecMem Z Q A) where
  cmprsId := algoCmprsGzip
  init := some (onGzip fun _ => (.eok, ⟨v.zlib.inflateInit2, 0, []⟩))
  decompress := fun inp outLen step ctx =>
    onGzip (gzipDecompress v.zlib inp outLen step ctx)
  deinit := some (onGzip fun g =>
    ((), { g with strm := v.zlib.inflateEnd g.strm, remain := [] }))

/-! ## QuickLZ and FastLZ -/

/-- `QBOOT_QUICKLZ_BLOCK_HDR_SIZE` and `QBOOT_FASTLZ_BLOCK_HDR_SIZE` -/
def blockHdrSize : Nat := 4

/-- `qbt_quicklz_get_block_size` and `qbt_fastlz_get_block_size` -/
def getBlockSize (inp : List UInt8) : Nat :=
  (inp.take blockHdrSize).foldl (fun size b => size * 256 + b.toNat) 0

/-- The header checks that both block handlers start with, and the decoding
step behind them: `decode block_size` answers the output or a failure. -/
def blockDecompress (inp : List UInt8) (outLen : Nat) (step : StreamStatus)
    (decode : Nat → Prog κ (Option (List UInt8))) :
    Prog κ (RtErr × StreamStatus × Block outLen) := do
  let none := Block.ofList outLen []
  if inp.length < blockHdrSize then pure (.enospc, step, none)
  else
    let blockSize := getBlockSize inp
    let needLen := u32 (blockSize + blockHdrSize)
    if blockSize = 0 then pure (.error, step, none)
    else if inp.length < needLen then pure (.enospc, step, none)
    else
      match ← decode blockSize with
      | .none => pure (.error, step, none)
      | .some out =>
          pure (.eok, { step with consumed := needLen, produced := out.length },
            Block.ofList outLen out)

/-- `qbt_algo_quicklz_decompress` -/
def quicklzDecompress (qlz : Quicklz Q) (inp : List UInt8) (outLen : Nat)
    (step : StreamStatus) (_ctx : StreamCtx) :
    Prog Q (RtErr × StreamStatus × Block outLen) :=
  blockDecompress inp outLen step fun _ q =>
    let r := qlz.decompress q (inp.drop blockHdrSize)
    -- an empty block and a block beyond the output capacity are failures
    (if r.1.length = 0 ∨ outLen < r.1.length then none else some r.1, r.2)

/-- `qbt_algo_fastlz_decompress` -/
def fastlzDecompress (flz : Fastlz) (inp : List UInt8) (outLen : Nat)
    (step : StreamStatus) (_ctx : StreamCtx) :
    Prog κ (RtErr × StreamStatus × Block outLen) :=
  blockDecompress inp outLen step fun blockSize =>
    let out := flz.decompress (inp.drop blockHdrSize) blockSize outLen
    -- a longer result is cut to the output capacity
    pure (if out.length = 0 then none else some (out.take outLen))

def quicklzCmprsOps (v : Vendor Z Q A) : CmprsOps (CodecMem Z Q A) where
  cmprsId := algoCmprsQuicklz
  init := some (onQuicklz fun _ => (.eok, v.quicklz.stateInit))
  decompress := fun inp outLen step ctx =>
    onQuicklz (quicklzDecompress v.quicklz inp outLen step ctx)
  deinit := none

def fastlzCmprsOps (v : Vendor Z Q A) : CmprsOps (CodecMem Z Q A) where
  cmprsId := algoCmprsFastlz
  init := none
  decompress := fastlzDecompress v.fastlz
  deinit := none

/-! ## HPatchLite placeholder -/

/-- `qbt_algo_hpatchlite_decompress` -/
def hpatchliteDecompress (inp : List UInt8) (outLen : Nat)
    (_step : StreamStatus) (_ctx : StreamCtx) :
    Prog κ (RtErr × StreamStatus × Block outLen) :=
  pure (.error, ⟨0, 0, inp.length⟩, Block.ofList outLen [])

def hpatchliteCmprsOps : CmprsOps κ where
  cmprsId := algoCmprsHpatchlite
  init := none
  decompress := hpatchliteDecompress
  deinit := none

/-! ## Registration -/

/-- Register `ops` where the build has it. -/
def registerIf {T : Type} (on : Bool) (register : T → Option T) (t : T) :
    Option T :=
  if on then register t else some t

/-- `qbot_algo_startup` on empty tables -/
def algoStartup (b : Build) (v : Vendor Z Q A) :
    Option (AlgoTables (CodecMem Z Q A)) := do
  let t ← cmprsRegister (noneCmprsOps b) (.empty _)
  let t ← cryptoRegister (noneCryptOps b) t
  let t ← registerIf b.usingGzip (cmprsRegister (gzipCmprsOps v)) t
  let t ← registerIf b.usingAes (cryptoRegister (aesCryptOps v)) t
  let t ← registerIf b.usingQuicklz (cmprsRegister (quicklzCmprsOps v)) t
  let t ← registerIf b.usingFastlz (cmprsRegister (fastlzCmprsOps v)) t
  registerIf b.usingHpatchlite (cmprsRegister hpatchliteCmprsOps) t

/-! ## The registered stages -/

/-- The compression stages that decode a stream. -/
inductive Codec where
  | none
  | gzip
  | quicklz
  | fastlz
  deriving DecidableEq, Repr

/-- The crypto stages. -/
inductive Crypto where
  | none
  | aes
  deriving DecidableEq, Repr

def Codec.enabled (b : Build) : Codec → Bool
  | .none => true
  | .gzip => b.usingGzip
  | .quicklz => b.usingQuicklz
  | .fastlz => b.usingFastlz

def Codec.ops (b : Build) (v : Vendor Z Q A) : Codec → CmprsOps (CodecMem Z Q A)
  | .none => noneCmprsOps b
  | .gzip => gzipCmprsOps v
  | .quicklz => quicklzCmprsOps v
  | .fastlz => fastlzCmprsOps v

def Crypto.enabled (b : Build) : Crypto → Bool
  | .none => true
  | .aes => b.usingAes

def Crypto.ops (b : Build) (v : Vendor Z Q A) :
    Crypto → CryptoOps (CodecMem Z Q A)
  | .none => noneCryptOps b
  | .aes => aesCryptOps v

/-- Register a stage whose slot is free, where the build has it. -/
theorem registerIf_cmprs {ops : CmprsOps κ} {t : AlgoTables κ} {i : Nat}
    (on : Bool) (hidx : cmprsIdToIndex ops.cmprsId = i) (hlt : i < algoCmprsCount)
    (hfree : t.cmprs i = none) :
    registerIf on (cmprsRegister ops) t =
      some { t with cmprs := fun j =>
        if on = true ∧ j = i then some ops else t.cmprs j } := by
  cases on
  · simp [registerIf]
  · have hslot : ¬(i ≥ algoCmprsCount ∨ (t.cmprs i).isSome) := by
      simp [hfree, hlt]
    simp only [registerIf, if_true, cmprsRegister, hidx, if_neg hslot]
    congr 2
    funext j
    by_cases hj : j = i <;> simp [Function.update, hj]

theorem registerIf_crypto {ops : CryptoOps κ} {t : AlgoTables κ} {i : Nat}
    (on : Bool) (hidx : cryptoIdToIndex ops.cryptoId = i)
    (hlt : i < algoCryptCount) (hfree : t.crypt i = none) :
    registerIf on (cryptoRegister ops) t =
      some { t with crypt := fun j =>
        if on = true ∧ j = i then some ops else t.crypt j } := by
  cases on
  · simp [registerIf]
  · have hslot : ¬(i ≥ algoCryptCount ∨ (t.crypt i).isSome) := by
      simp [hfree, hlt]
    simp only [registerIf, if_true, cryptoRegister, hidx, if_neg hslot]
    congr 2
    funext j
    by_cases hj : j = i <;> simp [Function.update, hj]

/-- The tables after startup. -/
def startupTables (b : Build) (v : Vendor Z Q A) :
    AlgoTables (CodecMem Z Q A) where
  cmprs := fun
    | 0 => some (noneCmprsOps b)
    | 1 => if b.usingGzip then some (gzipCmprsOps v) else none
    | 2 => if b.usingQuicklz then some (quicklzCmprsOps v) else none
    | 3 => if b.usingFastlz then some (fastlzCmprsOps v) else none
    | 4 => if b.usingHpatchlite then some hpatchliteCmprsOps else none
    | _ => none
  crypt := fun
    | 0 => some (noneCryptOps b)
    | 2 => if b.usingAes then some (aesCryptOps v) else none
    | _ => none

private theorem index_none (b : Build) :
    cmprsIdToIndex (@noneCmprsOps (CodecMem Z Q A) b).cmprsId = 0 := by
  show cmprsIdToIndex algoCmprsNone = 0
  decide

private theorem index_gzip (v : Vendor Z Q A) :
    cmprsIdToIndex (gzipCmprsOps v).cmprsId = 1 := by
  show cmprsIdToIndex algoCmprsGzip = 1
  decide

private theorem index_quicklz (v : Vendor Z Q A) :
    cmprsIdToIndex (quicklzCmprsOps v).cmprsId = 2 := by
  show cmprsIdToIndex algoCmprsQuicklz = 2
  decide

private theorem index_fastlz (v : Vendor Z Q A) :
    cmprsIdToIndex (fastlzCmprsOps v).cmprsId = 3 := by
  show cmprsIdToIndex algoCmprsFastlz = 3
  decide

private theorem index_hpatchlite :
    cmprsIdToIndex (@hpatchliteCmprsOps (CodecMem Z Q A)).cmprsId = 4 := by
  show cmprsIdToIndex algoCmprsHpatchlite = 4
  decide

private theorem index_plain (b : Build) :
    cryptoIdToIndex (@noneCryptOps (CodecMem Z Q A) b).cryptoId = 0 := by
  show cryptoIdToIndex algoCryptNone = 0
  decide

private theorem index_aes (v : Vendor Z Q A) :
    cryptoIdToIndex (aesCryptOps v).cryptoId = 2 := by
  show cryptoIdToIndex algoCryptAes = 2
  decide

/-- Startup registers exactly the configured stages. -/
theorem algoStartup_eq (b : Build) (v : Vendor Z Q A) :
    algoStartup b v = some (startupTables b v) := by
  have hnone := registerIf_cmprs (t := .empty (CodecMem Z Q A)) true
    (index_none b) (by decide) rfl
  have hplain := registerIf_crypto (t := ⟨fun j =>
      if true = true ∧ j = 0 then some (noneCmprsOps b) else none, fun _ => none⟩)
    true (index_plain (Z := Z) (Q := Q) (A := A) b) (by decide) rfl
  simp only [registerIf, if_true, AlgoTables.empty] at hnone hplain
  rw [algoStartup, AlgoTables.empty, hnone]
  simp only [Option.bind_eq_bind, Option.bind_some, hplain]
  rw [registerIf_cmprs b.usingGzip (index_gzip v) (by decide) (by simp)]
  simp only [Option.bind_some]
  rw [registerIf_crypto b.usingAes (index_aes v) (by decide) (by simp)]
  simp only [Option.bind_some]
  rw [registerIf_cmprs b.usingQuicklz (index_quicklz v) (by decide) (by simp)]
  simp only [Option.bind_some]
  rw [registerIf_cmprs b.usingFastlz (index_fastlz v) (by decide) (by simp)]
  simp only [Option.bind_some]
  rw [registerIf_cmprs b.usingHpatchlite index_hpatchlite (by decide) (by simp)]
  rw [startupTables]
  congr 2
  · funext i
    rcases i with _ | _ | _ | _ | _ | i <;> simp
  · funext i
    rcases i with _ | _ | _ | i <;> simp

/-- A codec is found exactly where it is configured. -/
theorem findCmprs_startup (b : Build) (v : Vendor Z Q A) (c : Codec) :
    findCmprs (startupTables b v) (c.ops b v).cmprsId =
      if c.enabled b then some (c.ops b v) else none := by
  cases c with
  | none => rw [findCmprs, Codec.ops, index_none]; rfl
  | gzip => rw [findCmprs, Codec.ops, index_gzip]; rfl
  | quicklz => rw [findCmprs, Codec.ops, index_quicklz]; rfl
  | fastlz => rw [findCmprs, Codec.ops, index_fastlz]; rfl

theorem findCrypto_startup (b : Build) (v : Vendor Z Q A) (c : Crypto) :
    findCrypto (startupTables b v) (c.ops b v).cryptoId =
      if c.enabled b then some (c.ops b v) else none := by
  cases c with
  | none => rw [findCrypto, Crypto.ops, index_plain]; rfl
  | aes => rw [findCrypto, Crypto.ops, index_aes]; rfl

end Qboot
