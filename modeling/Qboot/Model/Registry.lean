import Qboot.Library.Run
import Qboot.Model.Algo
/-!
# Registration of codecs

Any sequence of `qboot_cmprs_register` and `qboot_crypto_register` calls, with
whatever operation tables they are given.  Beside the codec tables the state
keeps the stages that were registered with success, in the order of the calls.
-/

namespace Qboot

open Library Bytes

variable {κ : Type}

/-- A `qboot_crypto_ops_t` of a caller, with the pointers that may be null. -/
structure CryptoTable (κ : Type) where
  cryptoName : Option (List UInt8)
  cryptoId : UInt16
  init : Option (Prog κ RtErr)
  decrypt : Option ({len : Nat} → (old inp : Block len) → Prog κ (RtErr × Block len))
  deinit : Option (Prog κ Unit)

/-- A `qboot_cmprs_ops_t` of a caller. -/
structure CmprsTable (κ : Type) where
  cmprsName : Option (List UInt8)
  cmprsId : UInt16
  init : Option (Prog κ RtErr)
  decompress : Option ((inp : List UInt8) → (outLen : Nat) → StreamStatus →
    StreamCtx → Prog κ (RtErr × StreamStatus × Block outLen))
  deinit : Option (Prog κ Unit)

/-- The null checks of `qboot_crypto_register`. -/
def CryptoTable.checked (ops : CryptoTable κ) : Option (CryptoOps κ) :=
  match ops.decrypt, ops.cryptoName with
  | some decrypt, some _ => some ⟨ops.cryptoId.toNat, ops.init, decrypt, ops.deinit⟩
  | _, _ => none

/-- The null checks of `qboot_cmprs_register`. -/
def CmprsTable.checked (ops : CmprsTable κ) : Option (CmprsOps κ) :=
  match ops.decompress, ops.cmprsName with
  | some decompress, some _ =>
      some ⟨ops.cmprsId.toNat, ops.init, decompress, ops.deinit⟩
  | _, _ => none

/-- A call of a registration function; `none` is the null pointer. -/
inductive RegisterCall (κ : Type) where
  | crypto (ops : Option (CryptoTable κ))
  | cmprs (ops : Option (CmprsTable κ))

/-- The codec tables, and the stages registered with success so far. -/
structure Registry (κ : Type) where
  tables : AlgoTables κ
  crypts : List (CryptoOps κ)
  cmprss : List (CmprsOps κ)

/-- The tables after a reset. -/
def Registry.empty (κ : Type) : Registry κ := ⟨AlgoTables.empty κ, [], []⟩

/-- One registration call. -/
def Registry.call (r : Registry κ) : RegisterCall κ → Registry κ
  | .crypto ops =>
      match ops.bind CryptoTable.checked with
      | none => r
      | some ops =>
          match cryptoRegister ops r.tables with
          | none => r
          | some t => { r with tables := t, crypts := r.crypts ++ [ops] }
  | .cmprs ops =>
      match ops.bind CmprsTable.checked with
      | none => r
      | some ops =>
          match cmprsRegister ops r.tables with
          | none => r
          | some t => { r with tables := t, cmprss := r.cmprss ++ [ops] }

/-- The registry after the calls `calls`. -/
def registered (calls : List (RegisterCall κ)) : Registry κ :=
  Run.run Registry.call (Registry.empty κ) calls

end Qboot
