import Mathlib.Data.List.Find
import Qboot.Model.Registry
/-!
# Which stages a header selects

The tables hold, in every slot, the stage that was first registered with
success for that slot.  A header selects by its two identifier fields, so the
bits outside them, and the bits of a registered identifier outside its field,
take no part.
-/

namespace Qboot

open Library Run

variable {κ : Type}

/-! ## Identifier fields -/

theorem cryptoIdToIndex_eq {id : Nat} (h : cryptoIdToIndex id < algoCryptCount) :
    cryptoIdToIndex id = id &&& algoCryptMask := by
  unfold cryptoIdToIndex at h ⊢
  split
  · next hover => rw [if_pos hover] at h; exact absurd h (Nat.lt_irrefl _)
  · rfl

theorem cmprsIdToIndex_eq {id : Nat} (h : cmprsIdToIndex id < algoCmprsCount) :
    cmprsIdToIndex id = id >>> 8 := by
  unfold cmprsIdToIndex at h ⊢
  split
  · next hover => rw [if_pos hover] at h; exact absurd h (Nat.lt_irrefl _)
  · rfl

theorem cryptoIdToIndex_of_lt {id : Nat} (h : id &&& algoCryptMask < algoCryptCount) :
    cryptoIdToIndex id = id &&& algoCryptMask := by
  rw [cryptoIdToIndex, if_neg (not_le.mpr h)]

theorem cmprsIdToIndex_of_lt {id : Nat} (h : id >>> 8 < algoCmprsCount) :
    cmprsIdToIndex id = id >>> 8 := by
  rw [cmprsIdToIndex, if_neg (not_le.mpr h)]

theorem and_cryptMask_twice (a : Nat) :
    (a &&& algoCryptMask) &&& algoCryptMask = a &&& algoCryptMask := by
  rw [Nat.and_assoc, Nat.and_self]

theorem cmprsField_shift (a : Nat) :
    ((a &&& algoCmprsMask) >>> 8) <<< 8 = a &&& algoCmprsMask := by
  apply Nat.eq_of_testBit_eq
  intro i
  rw [Nat.testBit_shiftLeft, Nat.testBit_shiftRight, algoCmprsMask]
  simp only [Nat.testBit_and, Nat.testBit_shiftLeft]
  by_cases hi : 8 ≤ i
  · rw [show 8 + (i - 8) = i by omega]
    simp [hi]
  · simp [hi]

/-! ## The tables hold what came first -/

/-- Every slot holds the first registered stage that belongs to it, and every
registered stage belongs to one. -/
structure Registry.FirstKept (r : Registry κ) : Prop where
  crypt : ∀ idx, idx < algoCryptCount → r.tables.crypt idx =
    r.crypts.find? (fun o => cryptoIdToIndex o.cryptoId == idx)
  cmprs : ∀ idx, idx < algoCmprsCount → r.tables.cmprs idx =
    r.cmprss.find? (fun o => cmprsIdToIndex o.cmprsId == idx)
  crypt_lt : ∀ o ∈ r.crypts, cryptoIdToIndex o.cryptoId < algoCryptCount
  cmprs_lt : ∀ o ∈ r.cmprss, cmprsIdToIndex o.cmprsId < algoCmprsCount

theorem firstKept_empty : (Registry.empty κ).FirstKept where
  crypt _ _ := rfl
  cmprs _ _ := rfl
  crypt_lt o ho := by simp [Registry.empty] at ho
  cmprs_lt o ho := by simp [Registry.empty] at ho

theorem cryptoRegister_some {ops : CryptoOps κ} {t t' : AlgoTables κ}
    (h : cryptoRegister ops t = some t') :
    cryptoIdToIndex ops.cryptoId < algoCryptCount ∧
      t.crypt (cryptoIdToIndex ops.cryptoId) = none ∧
      t' = { t with
        crypt := Function.update t.crypt (cryptoIdToIndex ops.cryptoId) (some ops) } := by
  unfold cryptoRegister at h
  dsimp only at h
  split at h
  · exact nomatch h
  · next hfree =>
    rw [not_or, not_le, Bool.not_eq_true, Option.isSome_eq_false_iff,
      Option.isNone_iff_eq_none] at hfree
    exact ⟨hfree.1, hfree.2, (Option.some.inj h).symm⟩

theorem cmprsRegister_some {ops : CmprsOps κ} {t t' : AlgoTables κ}
    (h : cmprsRegister ops t = some t') :
    cmprsIdToIndex ops.cmprsId < algoCmprsCount ∧
      t.cmprs (cmprsIdToIndex ops.cmprsId) = none ∧
      t' = { t with
        cmprs := Function.update t.cmprs (cmprsIdToIndex ops.cmprsId) (some ops) } := by
  unfold cmprsRegister at h
  dsimp only at h
  split at h
  · exact nomatch h
  · next hfree =>
    rw [not_or, not_le, Bool.not_eq_true, Option.isSome_eq_false_iff,
      Option.isNone_iff_eq_none] at hfree
    exact ⟨hfree.1, hfree.2, (Option.some.inj h).symm⟩

theorem update_find {α : Type} (slot : α → Nat) (table : Nat → Option α)
    (done : List α) (new : α) (hfree : table (slot new) = none) (idx : Nat)
    (h : table idx = done.find? (fun o => slot o == idx)) :
    Function.update table (slot new) (some new) idx =
      (done ++ [new]).find? (fun o => slot o == idx) := by
  rw [List.find?_append]
  by_cases hidx : idx = slot new
  · subst hidx
    rw [Function.update_self, ← h, hfree]
    simp
  · rw [Function.update_of_ne hidx, h]
    have hnew : [new].find? (fun o => slot o == idx) = none := by
      simp [Ne.symm hidx]
    rw [hnew, Option.or_none]

theorem firstKept_call (r : Registry κ) (c : RegisterCall κ) (h : r.FirstKept) :
    (r.call c).FirstKept := by
  cases c with
  | crypto ops =>
      simp only [Registry.call]
      cases hops : ops.bind CryptoTable.checked with
      | none => exact h
      | some ops =>
          cases hreg : cryptoRegister ops r.tables with
          | none => simpa [hreg] using h
          | some t =>
              obtain ⟨hlt, hfree, rfl⟩ := cryptoRegister_some hreg
              dsimp only
              rw [hreg]
              have hcrypt (idx : Nat) (hidx : idx < algoCryptCount) :
                  Function.update r.tables.crypt (cryptoIdToIndex ops.cryptoId)
                      (some ops) idx =
                    (r.crypts ++ [ops]).find? (fun o => cryptoIdToIndex o.cryptoId == idx) :=
                update_find (fun o : CryptoOps κ => cryptoIdToIndex o.cryptoId) r.tables.crypt
                  r.crypts ops hfree idx (h.crypt idx hidx)
              exact
                { crypt := hcrypt
                  cmprs := h.cmprs
                  crypt_lt := by
                    intro o ho
                    obtain hold | rfl : o ∈ r.crypts ∨ o = ops := by simpa using ho
                    · exact h.crypt_lt o hold
                    · exact hlt
                  cmprs_lt := h.cmprs_lt }
  | cmprs ops =>
      simp only [Registry.call]
      cases hops : ops.bind CmprsTable.checked with
      | none => exact h
      | some ops =>
          cases hreg : cmprsRegister ops r.tables with
          | none => simpa [hreg] using h
          | some t =>
              obtain ⟨hlt, hfree, rfl⟩ := cmprsRegister_some hreg
              dsimp only
              rw [hreg]
              have hcmprs (idx : Nat) (hidx : idx < algoCmprsCount) :
                  Function.update r.tables.cmprs (cmprsIdToIndex ops.cmprsId)
                      (some ops) idx =
                    (r.cmprss ++ [ops]).find? (fun o => cmprsIdToIndex o.cmprsId == idx) :=
                update_find (fun o : CmprsOps κ => cmprsIdToIndex o.cmprsId) r.tables.cmprs
                  r.cmprss ops hfree idx (h.cmprs idx hidx)
              exact
                { crypt := h.crypt
                  cmprs := hcmprs
                  crypt_lt := h.crypt_lt
                  cmprs_lt := by
                    intro o ho
                    obtain hold | rfl : o ∈ r.cmprss ∨ o = ops := by simpa using ho
                    · exact h.cmprs_lt o hold
                    · exact hlt }

theorem firstKept_registered (calls : List (RegisterCall κ)) :
    (registered calls).FirstKept := by
  have hrun : Always Registry.call Registry.FirstKept (Registry.empty κ) calls :=
    always_of_inv firstKept_call firstKept_empty
  exact hrun.last

/-! ## Lookup -/

/-- The crypto identifiers `id` and `algo` agree in the crypto field. -/
def sameCrypt (algo id : Nat) : Bool := id &&& algoCryptMask == algo &&& algoCryptMask

def sameCmprs (algo id : Nat) : Bool := id >>> 8 == (algo &&& algoCmprsMask) >>> 8

theorem findCrypto_eq {r : Registry κ} (h : r.FirstKept) (algo : Nat) :
    findCrypto r.tables (algo &&& algoCryptMask) =
      r.crypts.find? (fun o => sameCrypt algo o.cryptoId) := by
  have hslot : ∀ o ∈ r.crypts, cryptoIdToIndex o.cryptoId = o.cryptoId &&& algoCryptMask :=
    fun o ho => cryptoIdToIndex_eq (h.crypt_lt o ho)
  by_cases hlt : algo &&& algoCryptMask < algoCryptCount
  · have hidx : cryptoIdToIndex (algo &&& algoCryptMask) = algo &&& algoCryptMask := by
      rw [cryptoIdToIndex_of_lt (by rwa [and_cryptMask_twice]), and_cryptMask_twice]
    rw [findCrypto, hidx, if_neg (not_le.mpr hlt), h.crypt _ hlt]
    refine List.find?_congr fun o ho => ?_
    rw [hslot o ho, sameCrypt]
  · have hidx : cryptoIdToIndex (algo &&& algoCryptMask) = algoCryptCount := by
      rw [cryptoIdToIndex, if_pos (by rw [and_cryptMask_twice]; exact not_lt.mp hlt)]
    rw [findCrypto, hidx, if_pos le_rfl]
    symm
    rw [List.find?_eq_none]
    intro o ho hsame
    have hfield : o.cryptoId &&& algoCryptMask = algo &&& algoCryptMask := by
      simpa [sameCrypt] using hsame
    exact hlt (by rw [← hfield, ← hslot o ho]; exact h.crypt_lt o ho)

theorem findCmprs_eq {r : Registry κ} (h : r.FirstKept) (algo : Nat) :
    findCmprs r.tables (algo &&& algoCmprsMask) =
      r.cmprss.find? (fun o => sameCmprs algo o.cmprsId) := by
  have hslot : ∀ o ∈ r.cmprss, cmprsIdToIndex o.cmprsId = o.cmprsId >>> 8 :=
    fun o ho => cmprsIdToIndex_eq (h.cmprs_lt o ho)
  by_cases hlt : (algo &&& algoCmprsMask) >>> 8 < algoCmprsCount
  · have hidx := cmprsIdToIndex_of_lt hlt
    rw [findCmprs, hidx, if_neg (not_le.mpr hlt), h.cmprs _ hlt]
    refine List.find?_congr fun o ho => ?_
    rw [hslot o ho, sameCmprs]
  · have hidx : cmprsIdToIndex (algo &&& algoCmprsMask) = algoCmprsCount := by
      rw [cmprsIdToIndex, if_pos (not_lt.mp hlt)]
    rw [findCmprs, hidx, if_pos le_rfl]
    symm
    rw [List.find?_eq_none]
    intro o ho hsame
    have hfield : o.cmprsId >>> 8 = (algo &&& algoCmprsMask) >>> 8 := by
      simpa [sameCmprs] using hsame
    exact hlt (by rw [← hfield, ← hslot o ho]; exact h.cmprs_lt o ho)

theorem fwGetAlgoContext_some {t : AlgoTables κ} {h : FwInfo} {ctx : AlgoContext κ} :
    fwGetAlgoContext t h = some ctx ↔
      findCrypto t (h.algo.toNat &&& algoCryptMask) = some ctx.crypt ∧
        findCmprs t (h.algo.toNat &&& algoCmprsMask) = some ctx.cmprs := by
  unfold fwGetAlgoContext
  cases findCrypto t (h.algo.toNat &&& algoCryptMask) with
  | none => simp
  | some crypt =>
      cases findCmprs t (h.algo.toNat &&& algoCmprsMask) with
      | none => simp
      | some cmprs =>
          obtain ⟨crypt', cmprs'⟩ := ctx
          simp

/-- The lookup answers exactly the stages that were registered first for the two
fields of `algo`, and the fields are those of the two identifiers. -/
theorem algoContext_fields (calls : List (RegisterCall κ)) (h : FwInfo)
    (ctx : AlgoContext κ) :
    (fwGetAlgoContext (registered calls).tables h = some ctx ↔
      (registered calls).crypts.find? (fun o => sameCrypt h.algo.toNat o.cryptoId) =
          some ctx.crypt ∧
        (registered calls).cmprss.find? (fun o => sameCmprs h.algo.toNat o.cmprsId) =
          some ctx.cmprs) ∧
      (fwGetAlgoContext (registered calls).tables h = some ctx →
        h.algo.toNat &&& (algoCryptMask ||| algoCmprsMask) =
          (ctx.crypt.cryptoId &&& algoCryptMask) ||| (ctx.cmprs.cmprsId >>> 8) <<< 8) := by
  have hkept := firstKept_registered calls
  have hiff : fwGetAlgoContext (registered calls).tables h = some ctx ↔ _ :=
    fwGetAlgoContext_some
  rw [findCrypto_eq hkept, findCmprs_eq hkept] at hiff
  refine ⟨hiff, ?_⟩
  intro hctx
  obtain ⟨hcrypt, hcmprs⟩ := hiff.mp hctx
  have hlow : ctx.crypt.cryptoId &&& algoCryptMask = h.algo.toNat &&& algoCryptMask := by
    simpa [sameCrypt] using List.find?_some hcrypt
  have hhigh : ctx.cmprs.cmprsId >>> 8 = (h.algo.toNat &&& algoCmprsMask) >>> 8 := by
    simpa [sameCmprs] using List.find?_some hcmprs
  rw [Nat.and_or_distrib_left, hlow, hhigh, cmprsField_shift]

/-! ## A reserved bit -/

def copyCrypto (id : UInt16) : CryptoTable Unit where
  cryptoName := some []
  cryptoId := id
  init := none
  decrypt := some fun _ inp => pure (.eok, inp)
  deinit := none

def emptyCmprs (id : UInt16) : CmprsTable Unit where
  cmprsName := some []
  cmprsId := id
  init := none
  decompress := some fun _ n st _ => pure (.eok, st, Bytes.Block.ofList n [])
  deinit := none

def algoHeader (algo : UInt16) : FwInfo :=
  { FwInfo.ofBytes (Bytes.Block.ofList srcReadPos []) with algo := algo }

/-- Bits outside the fields are ignored, in a header and in a registered
identifier: `0x0010` selects the stages registered as zero, and `0x0100` the one
registered as `0x0105`. -/
theorem reservedBit_accepted :
    (∃ ctx, fwGetAlgoContext
        (registered [.crypto (some (copyCrypto 0)), .cmprs (some (emptyCmprs 0))]).tables
        (algoHeader 0x0010) = some ctx ∧
      (algoHeader 0x0010).algo.toNat ≠ ctx.crypt.cryptoId ||| ctx.cmprs.cmprsId) ∧
      ∃ ctx, fwGetAlgoContext
          (registered [.crypto (some (copyCrypto 0)),
            .cmprs (some (emptyCmprs 0x0105))]).tables
          (algoHeader 0x0100) = some ctx ∧
        (algoHeader 0x0100).algo.toNat ≠ ctx.crypt.cryptoId ||| ctx.cmprs.cmprsId := by
  constructor
  · exact ⟨_, rfl, by decide⟩
  · exact ⟨_, rfl, by decide⟩

end Qboot
