import Qboot.Library.Crc32
import Qboot.Model.Machine
/-!
# Codec tables

The crypto and compression stages, the tables they are registered in, and the
selection of a pair of stages by the header.  `init` and `deinit` are optional
in both tables, as in the source; `crc32` is an external library, of which
only the composition of updates is assumed.
-/

namespace Qboot

open Library Bytes Machine

/-- The `crc32` package: `crc32_cal` and the incremental `crc32_cyc_cal`. -/
structure CrcLib where
  cal : List UInt8 → UInt32
  cycCal : UInt32 → List UInt8 → UInt32
  cycCal_nil : ∀ crc, cycCal crc [] = crc
  cycCal_append : ∀ crc a b, cycCal crc (a ++ b) = cycCal (cycCal crc a) b

/-- The CRC-32 that a sequence of updates from `0xFFFFFFFF` arrives at. -/
def CrcLib.whole (lib : CrcLib) (bytes : List UInt8) : UInt32 :=
  lib.cycCal 0xFFFFFFFF bytes ^^^ 0xFFFFFFFF

/-- The package with the CRC-32 of its name. -/
def crc32Lib : CrcLib where
  cal := Crc32.checksum
  cycCal := Crc32.update
  cycCal_nil := Crc32.update_nil
  cycCal_append := Crc32.update_append

/-- `qboot_crypto_ops_t`.  `decrypt old inp` is given what the output buffer
held before. -/
structure CryptoOps (κ : Type) where
  cryptoId : Nat
  init : Option (Prog κ RtErr)
  decrypt : {len : Nat} → (old inp : Block len) → Prog κ (RtErr × Block len)
  deinit : Option (Prog κ Unit)

/-- `qboot_cmprs_ops_t`.  The status is passed in because a handler may leave
fields of it as the previous call set them. -/
structure CmprsOps (κ : Type) where
  cmprsId : Nat
  init : Option (Prog κ RtErr)
  decompress : (inp : List UInt8) → (outLen : Nat) → StreamStatus → StreamCtx →
    Prog κ (RtErr × StreamStatus × Block outLen)
  deinit : Option (Prog κ Unit)

/-- `qbt_algo_context_t` after a successful lookup: both stages are present. -/
structure AlgoContext (κ : Type) where
  crypt : CryptoOps κ
  cmprs : CmprsOps κ

/-! ## Identifiers -/

def algoCryptNone : Nat := 0
def algoCryptAes : Nat := 2
def algoCryptCount : Nat := 3
def algoCryptMask : Nat := 0x0F

def algoCmprsNone : Nat := 0 <<< 8
def algoCmprsGzip : Nat := 1 <<< 8
def algoCmprsQuicklz : Nat := 2 <<< 8
def algoCmprsFastlz : Nat := 3 <<< 8
def algoCmprsHpatchlite : Nat := 4 <<< 8
def algoCmprsMask : Nat := 0x1F <<< 8
def algoCmprsCount : Nat := 5

/-- `qboot_cmprs_id_to_index` -/
def cmprsIdToIndex (algoId : Nat) : Nat :=
  if algoId >>> 8 ≥ algoCmprsCount then algoCmprsCount else algoId >>> 8

/-- `qboot_crypto_id_to_index` -/
def cryptoIdToIndex (algoId : Nat) : Nat :=
  if algoId &&& algoCryptMask ≥ algoCryptCount then algoCryptCount
  else algoId &&& algoCryptMask

/-! ## Tables -/

/-- `g_cmprs_table` and `g_crypt_table` -/
structure AlgoTables (κ : Type) where
  cmprs : Nat → Option (CmprsOps κ)
  crypt : Nat → Option (CryptoOps κ)

def AlgoTables.empty (κ : Type) : AlgoTables κ := ⟨fun _ => none, fun _ => none⟩

variable {σ κ : Type}

/-- `qboot_cmprs_register`; `none` is `-RT_ERROR`. -/
def cmprsRegister (ops : CmprsOps κ) (t : AlgoTables κ) : Option (AlgoTables κ) :=
  let idx := cmprsIdToIndex ops.cmprsId
  if idx ≥ algoCmprsCount ∨ (t.cmprs idx).isSome then none
  else some { t with cmprs := Function.update t.cmprs idx (some ops) }

/-- `qboot_crypto_register` -/
def cryptoRegister (ops : CryptoOps κ) (t : AlgoTables κ) :
    Option (AlgoTables κ) :=
  let idx := cryptoIdToIndex ops.cryptoId
  if idx ≥ algoCryptCount ∨ (t.crypt idx).isSome then none
  else some { t with crypt := Function.update t.crypt idx (some ops) }

/-- `qboot_find_crypto` -/
def findCrypto (t : AlgoTables κ) (id : Nat) : Option (CryptoOps κ) :=
  if cryptoIdToIndex id ≥ algoCryptCount then none else t.crypt id

/-- `qboot_find_cmprs` -/
def findCmprs (t : AlgoTables κ) (id : Nat) : Option (CmprsOps κ) :=
  if cmprsIdToIndex id ≥ algoCmprsCount then none else t.cmprs (cmprsIdToIndex id)

/-- `qbt_fw_get_algo_context` -/
def fwGetAlgoContext (t : AlgoTables κ) (h : FwInfo) : Option (AlgoContext κ) := do
  let crypt ← findCrypto t (h.algo.toNat &&& algoCryptMask)
  let cmprs ← findCmprs t (h.algo.toNat &&& algoCmprsMask)
  pure ⟨crypt, cmprs⟩

/-! ## Initialisation -/

/-- Run an optional initialiser; a missing one succeeds. -/
def stageInit (stage : Stage) (init : Option (Prog κ RtErr)) :
    Prog (Machine σ κ) Bool :=
  match init with
  | none => pure true
  | some init => do
      let r ← onMem init
      emit (.stageInit stage (r = .eok))
      pure (r = .eok)

/-- Run an optional cleanup. -/
def stageDeinit (stage : Stage) (deinit : Option (Prog κ Unit)) :
    Prog (Machine σ κ) Unit :=
  match deinit with
  | none => pure ()
  | some deinit => do
      onMem deinit
      emit (.stageDeinit stage)

/-- `qbt_fw_algo_init` -/
def fwAlgoInit (algo : AlgoContext κ) : Prog (Machine σ κ) Bool := do
  if ← stageInit .crypt algo.crypt.init then
    if ← stageInit .cmprs algo.cmprs.init then
      pure true
    else
      stageDeinit .crypt algo.crypt.deinit
      pure false
  else
    pure false

/-- `qbt_fw_algo_deinit` -/
def fwAlgoDeinit (algo : AlgoContext κ) : Prog (Machine σ κ) Unit := do
  stageDeinit .cmprs algo.cmprs.deinit
  stageDeinit .crypt algo.crypt.deinit

end Qboot
