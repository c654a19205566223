import Qboot.Library.Framing
import Qboot.Proofs.BlockHeader
import Qboot.Proofs.BodyDecryption
import Qboot.Proofs.Decoding
import Qboot.Proofs.PassAgreement
/-!
# The encodings of a package body

What NONE, QuickLZ and FastLZ make of an image on the host, plain or behind a chained
cipher, and that the bootloader makes the image of it again.
-/

namespace Qboot

open Library Bytes Machine

variable {σ κ Z Q A : Type} {v : Vendor Z Q A}

/-! ## Blocks -/

/-- A block as it is stored: the length of its payload, high byte first, and the payload. -/
def blockOf (payload : List UInt8) : List UInt8 :=
  (leBytes blockHdrSize payload.length).reverse ++ payload

theorem length_blockOf (payload : List UInt8) :
    (blockOf payload).length = blockHdrSize + payload.length := by
  rw [blockOf, List.length_append, List.length_reverse, length_leBytes]

theorem foldl_reverse_eq_leNat (l : List UInt8) :
    l.reverse.foldl (fun size b => size * 256 + b.toNat) 0 = leNat l := by
  rw [List.foldl_reverse]
  induction l with
  | nil => rfl
  | cons b l ih =>
      rw [List.foldr_cons, ih, leNat]
      omega

theorem getBlockSize_front {payload w r : List UInt8} (hlen : payload.length < 2 ^ 32)
    (hfront : w ++ r = blockOf payload) (hw : blockHdrSize ≤ w.length) :
    getBlockSize w = payload.length := by
  have htake : w.take blockHdrSize = (leBytes blockHdrSize payload.length).reverse := by
    calc w.take blockHdrSize = (w ++ r).take blockHdrSize :=
          (List.take_append_of_le_length hw).symm
      _ = _ := by
        rw [hfront, blockOf]
        apply List.take_left'
        rw [List.length_reverse, length_leBytes]
  rw [getBlockSize, htake, foldl_reverse_eq_leNat]
  exact leNat_leBytes blockHdrSize _ hlen

section Handler

variable {payload w r out : List UInt8} {cap : Nat} {step : StreamStatus}
  {decode : Nat → Prog κ (Option (List UInt8))} {k k' : κ}

theorem block_front (hpos : 0 < payload.length) (hlen : (blockOf payload).length < 2 ^ 32)
    (hdecode : decode payload.length k = (some out, k')) :
    blockDecompress (blockOf payload ++ w) cap step decode k =
      ((.eok, { step with
          consumed := (blockOf payload).length, produced := out.length },
        Block.ofList cap out), k') := by
  rw [length_blockOf] at hlen
  have hblock : blockHdrSize ≤ (blockOf payload ++ w).length := by
    rw [List.length_append, length_blockOf]
    omega
  have hsize : getBlockSize (blockOf payload ++ w) = payload.length := by
    have hfront : getBlockSize (blockOf payload) = payload.length :=
      getBlockSize_front (by omega) (List.append_nil _)
        (by rw [length_blockOf]; exact Nat.le_add_right _ _)
    rw [← hfront, getBlockSize, getBlockSize, List.take_append_of_le_length]
    rw [length_blockOf]
    exact Nat.le_add_right _ _
  have hneed : u32 (payload.length + blockHdrSize) = (blockOf payload).length := by
    rw [length_blockOf, u32, Nat.mod_eq_of_lt (by omega), Nat.add_comm]
  rw [block_decoded (not_lt.mpr hblock) (by omega), hsize, hdecode, hneed]
  rw [hsize, hneed, List.length_append]
  omega

theorem block_starved (hpos : 0 < payload.length) (hlen : (blockOf payload).length < 2 ^ 32)
    (hfront : w ++ r = blockOf payload) (hr : r ≠ []) :
    blockDecompress w cap step decode k =
      ((.enospc, step, Block.ofList cap []), k) := by
  rw [length_blockOf] at hlen
  by_cases hshort : w.length < blockHdrSize
  · exact block_short hshort
  have hsize := getBlockSize_front (by omega) hfront (not_lt.mp hshort)
  have htotal : w.length + r.length = blockHdrSize + payload.length := by
    rw [← List.length_append, hfront, length_blockOf]
  have hrest := List.length_pos_iff.mpr hr
  have hneed : w.length < u32 (getBlockSize w + blockHdrSize) := by
    rw [hsize, u32, Nat.mod_eq_of_lt (by omega)]
    omega
  exact block_incomplete hshort (by omega) hneed

end Handler

/-! ## What the host writes -/

/-- A stored block of at most 4096 bytes whose payload is `out`, encoded: from the memory
`k` the codec decodes it, and leaves `k'`. -/
def BlockFrame {K : Type} (Decodes : K → List UInt8 → List UInt8 → K → Prop) (k : K)
    (block out : List UInt8) (k' : K) : Prop :=
  ∃ payload, block = blockOf payload ∧ 0 < payload.length ∧
    block.length ≤ cmprsReadSize ∧ 0 < out.length ∧ out.length ≤ bufSize ∧
    Decodes k payload out k'

def QuicklzBlock (v : Vendor Z Q A) (q : Q) (payload out : List UInt8) (q' : Q) : Prop :=
  ∀ rest, v.quicklz.decompress q (payload ++ rest) = (out, q')

/-- FastLZ is told the length of a block, and decodes it where the output has room. -/
def FastlzBlock (v : Vendor Z Q A) (_ : Unit) (payload out : List UInt8) (_ : Unit) : Prop :=
  ∀ rest cap, out.length ≤ cap →
    v.fastlz.decompress (payload ++ rest) payload.length cap = out

/-- `stream` is an encoding of `image` that the codec decodes. -/
inductive Encodes (v : Vendor Z Q A) : Codec → List UInt8 → List UInt8 → Prop where
  | none (image : List UInt8) : Encodes v .none image image
  | quicklz {stream image : List UInt8}
      (h : Framed (BlockFrame (QuicklzBlock v)) v.quicklz.stateInit stream image) :
      Encodes v .quicklz stream image
  | fastlz {stream image : List UInt8}
      (h : Framed (BlockFrame (FastlzBlock v)) () stream image) :
      Encodes v .fastlz stream image

/-- The cipher goes on from the chaining value that whole cipher blocks leave. -/
def Crypto.Chains (v : Vendor Z Q A) (c : Crypto) : Prop :=
  ∀ a x y, 16 ∣ x.length →
    (c.apply v a (x ++ y)).1 = (c.apply v a x).1 ++ (c.apply v (c.apply v a x).2 y).1

theorem chains_none (v : Vendor Z Q A) : Crypto.none.Chains v := fun _ _ _ _ => rfl

/-! ## The stages undo it -/

/-- The decryption of what is left of the body. -/
def ClearOf (v : Vendor Z Q A) (c : Crypto) (k : CodecMem Z Q A)
    (cipher plain : List UInt8) : Prop :=
  (c.apply v k.aes cipher).1 = plain

theorem crypt_undoes {b : Build} {c : Crypto} (hc : c.enabled b = true) (hchain : c.Chains v)
    {k : CodecMem Z Q A} {x y p : List UInt8} (hclear : ClearOf v c k (x ++ y) p)
    (hx : x.length = cmprsReadSize ∨ y = []) {n : Nat} (old inp : Block n) (hinp : inp.1 = x)
    (hold : b.usingCompression = false → old.1 = inp.1) :
    ∃ plain k', (c.ops b v).decrypt old inp k = ((.eok, plain), k') ∧
      (∃ q, p = plain.1 ++ q ∧ ClearOf v c k' y q) ∧ k'.quicklz = k.quicklz := by
  have hsplit : p = (c.apply v k.aes x).1 ++ (c.apply v (c.apply v k.aes x).2 y).1 := by
    rcases hx with hfull | rfl
    · rw [← hclear]
      exact hchain _ _ _ (hfull ▸ by decide)
    · have hnil : (c.apply v (c.apply v k.aes x).2 []).1 = [] :=
        List.eq_nil_of_length_eq_zero (c.length_apply v _ [])
      have hwhole : (c.apply v k.aes (x ++ [])).1 = p := hclear
      rw [hnil, ← hwhole, List.append_nil, List.append_nil]
  obtain ⟨data, rfl⟩ := inp
  obtain rfl : data = x := hinp
  cases c with
  | none =>
      have hsame : (if b.usingCompression then ⟨data, rfl⟩ else old).1 = data := by
        cases hsep : b.usingCompression with
        | true => rfl
        | false => exact hold hsep
      exact ⟨_, k, rfl, ⟨_, hsplit.trans (congrArg (· ++ _) hsame.symm), rfl⟩, rfl⟩
  | aes => exact ⟨_, _, rfl, ⟨_, hsplit, rfl⟩, rfl⟩

section Stages

variable {b : Build} {c : Crypto} (hc : c.enabled b = true) (hchain : c.Chains v)

include hc hchain

theorem undoes_none :
    Undoes b ⟨c.ops b v, noneCmprsOps b⟩ (ClearOf v c) (fun _ stream image => stream = image)
      0 where
  slack_lt := by decide
  apart _ := rfl
  clear_length h := by
    rw [← h]
    exact c.length_apply v _ _
  left_nil h := h.symm
  decrypt hclear hx _ old inp hinp hold := by
    obtain ⟨plain, k', hplain, hq, -⟩ := crypt_undoes hc hchain hclear hx old inp hinp hold
    exact ⟨plain, k', hplain, hq, fun _ _ hleft => hleft⟩
  decompress {k w r o} hleft ho hw hlen cap step ctx hcap := by
    have hpos := List.length_pos_iff.mpr hw
    have htotal : w.length + r.length = o.length := by
      rw [← List.length_append, hleft]
    have hbuf : bufSize = cmprsReadSize := rfl
    have hfits : w.length ≤ cap := by omega
    refine .inl ⟨w, [], w, r, { step with consumed := w.length, produced := w.length }, k,
      Block.ofList cap w, ?_⟩
    exact
      { answer := by
          have hcopy : (if b.usingCompression then min w.length cap else w.length) =
              w.length := by
            rw [Nat.min_eq_left hfits]
            exact ite_self _
          show noneDecompress b w cap step ctx k = _
          rw [noneDecompress]
          simp only [if_neg hpos.ne', hcopy]
          rfl
        input := (List.append_nil w).symm
        output := hleft.symm
        consumed := rfl
        produced := rfl
        some := hpos
        fits := hfits
        delivered := by
          rw [Block.take_ofList_le hfits le_rfl, List.take_length]
        left := rfl
        clear := fun _ _ h => h
        whole := fun _ => rfl }

/-- The stages of a block codec, whose step is `decode` and whose memory is `view`. -/
theorem undoes_blocks {K : Type} {cmprs : CmprsOps (CodecMem Z Q A)}
    (view : CodecMem Z Q A → K) (Decodes : K → List UInt8 → List UInt8 → K → Prop)
    (decode : List UInt8 → Nat → Nat → Prog (CodecMem Z Q A) (Option (List UInt8)))
    (hsep : b.usingCompression = true)
    (hview : ∀ k k' : CodecMem Z Q A, k'.quicklz = k.quicklz → view k' = view k)
    (hops : ∀ w cap step ctx k, cmprs.decompress w cap step ctx k =
      blockDecompress w cap step (decode w cap) k)
    (hdecode : ∀ payload rest out q' cap k, Decodes (view k) payload out q' →
      0 < out.length → out.length ≤ cap → ∃ k', view k' = q' ∧ k'.aes = k.aes ∧
        decode (blockOf payload ++ rest) cap payload.length k = (some out, k')) :
    Undoes b ⟨c.ops b v, cmprs⟩ (ClearOf v c)
      (fun k => Framed (BlockFrame Decodes) (view k)) (cmprsReadSize - 1) where
  slack_lt := by decide
  apart h := absurd (hsep.symm.trans h) (by simp)
  clear_length h := by
    rw [← h]
    exact c.length_apply v _ _
  left_nil h := h.out_nil fun k u o k' hframe hnil => by
    obtain ⟨payload, hu, -⟩ := hframe
    have hlen := congrArg List.length (hu.symm.trans hnil)
    rw [length_blockOf] at hlen
    exact absurd hlen (by simp [blockHdrSize])
  decrypt hclear hx _ old inp hinp hold := by
    obtain ⟨plain, k', hplain, hq, hquicklz⟩ :=
      crypt_undoes hc hchain hclear hx old inp hinp hold
    refine ⟨plain, k', hplain, hq, fun w o hleft => ?_⟩
    rw [hview _ _ hquicklz]
    exact hleft
  decompress {k w r o} hleft ho hw hlen cap step ctx hcap := by
    obtain ⟨u, o₁, q', us, os, hframe, htail, rfl, hcase⟩ := hleft.window ho
    obtain ⟨payload, rfl, hpos, hsize, hsome, hfits, hblock⟩ := hframe
    have hread : cmprsReadSize = 4096 := rfl
    have hlt : (blockOf payload).length < 2 ^ 32 := by omega
    rw [hops]
    rcases hcase with ⟨w', rfl, rfl⟩ | ⟨hshort, rest, hrest, hfront, rfl⟩
    · have hout : o₁.length ≤ cap := by
        rw [hcap, List.length_append]
        omega
      obtain ⟨k', hq, haes, hrun⟩ := hdecode payload w' o₁ q' cap k hblock hsome hout
      refine .inl ⟨blockOf payload, w', o₁, os, { step with
        consumed := (blockOf payload).length, produced := o₁.length }, k',
        Block.ofList cap o₁, ?_⟩
      exact
        { answer := (hops _ _ _ _ _).trans (block_front hpos hlt hrun)
          input := rfl
          output := rfl
          consumed := rfl
          produced := rfl
          some := hsome
          fits := hout
          delivered := by rw [Block.take_ofList_le hout le_rfl, List.take_length]
          left := by
            rw [hq]
            exact htail
          clear := fun x p hclear => by
            rw [ClearOf, haes]
            exact hclear
          whole := fun h => absurd (hsep.symm.trans h) (by simp) }
    · refine .inr ⟨hsep, by omega, ?_, step, _, block_starved hpos hlt hfront.symm hrest⟩
      exact fun hnil => hrest (List.append_eq_nil_iff.mp hnil).1

theorem undoes_fastlz (hsep : b.usingCompression = true) :
    Undoes b ⟨c.ops b v, fastlzCmprsOps v⟩ (ClearOf v c)
      (fun _ => Framed (BlockFrame (FastlzBlock v)) ()) (cmprsReadSize - 1) := by
  apply undoes_blocks hc hchain (fun _ => ()) (FastlzBlock v)
    (fun w cap => fastlzDecode v.fastlz w cap) hsep
  · exact fun _ _ _ => rfl
  · exact fun w cap step ctx k => rfl
  · intro payload rest out q' cap k hblock hsome hfits
    refine ⟨k, rfl, rfl, ?_⟩
    have hdrop : (blockOf payload ++ rest).drop blockHdrSize = payload ++ rest := by
      rw [blockOf, List.append_assoc]
      apply List.drop_left'
      rw [List.length_reverse, length_leBytes]
    have hrun : v.fastlz.decompress (payload ++ rest) payload.length cap = out :=
      hblock rest cap hfits
    simp only [fastlzDecode, hdrop, hrun, if_neg hsome.ne', List.take_of_length_le hfits]
    rfl

omit hc hchain in
theorem onQuicklz_block (w : List UInt8) (cap : Nat) (step : StreamStatus)
    (decode : Nat → Prog Q (Option (List UInt8))) (k : CodecMem Z Q A) :
    onQuicklz (blockDecompress w cap step decode) k =
      blockDecompress w cap step (fun n => onQuicklz (decode n)) k := by
  have hzoom {α : Type} (x : Prog Q α) :
      onQuicklz x k = ((x k.quicklz).1, { k with quicklz := (x k.quicklz).2 }) := rfl
  rw [hzoom]
  by_cases hshort : w.length < blockHdrSize
  · rw [block_short hshort, block_short hshort]
  by_cases hzero : getBlockSize w = 0
  · rw [block_empty hshort hzero, block_empty hshort hzero]
  by_cases hneed : w.length < u32 (getBlockSize w + blockHdrSize)
  · rw [block_incomplete hshort hzero hneed, block_incomplete hshort hzero hneed]
  · rw [block_decoded hshort hzero hneed, block_decoded hshort hzero hneed]
    rfl

theorem undoes_quicklz (hsep : b.usingCompression = true) :
    Undoes b ⟨c.ops b v, quicklzCmprsOps v⟩ (ClearOf v c)
      (fun k => Framed (BlockFrame (QuicklzBlock v)) k.quicklz) (cmprsReadSize - 1) := by
  apply undoes_blocks hc hchain (fun k => k.quicklz) (QuicklzBlock v)
    (fun w cap n => onQuicklz (quicklzDecode v.quicklz w cap n)) hsep
  · exact fun _ _ h => h
  · exact fun w cap step ctx k => onQuicklz_block w cap step _ k
  · intro payload rest out q' cap k hblock hsome hfits
    refine ⟨{ k with quicklz := q' }, rfl, rfl, ?_⟩
    have hdrop : (blockOf payload ++ rest).drop blockHdrSize = payload ++ rest := by
      rw [blockOf, List.append_assoc]
      apply List.drop_left'
      rw [List.length_reverse, length_leBytes]
    have hrun : v.quicklz.decompress k.quicklz (payload ++ rest) = (out, q') := hblock rest
    have hgood : ¬(out.length = 0 ∨ cap < out.length) := by omega
    show ((quicklzDecode v.quicklz _ cap _ k.quicklz).1,
      { k with quicklz := (quicklzDecode v.quicklz _ cap _ k.quicklz).2 }) = _
    simp only [quicklzDecode, hdrop, hrun, if_neg hgood]

end Stages

/-! ## The image -/

theorem fwAlgoInit_fresh (b : Build) (v : Vendor Z Q A) (c : Crypto) (d : Codec)
    (m : Machine σ (CodecMem Z Q A)) :
    (fwAlgoInit ⟨c.ops b v, d.ops b v⟩ m).1 = true ∧
      (c = .aes → (fwAlgoInit ⟨c.ops b v, d.ops b v⟩ m).2.mem.aes = v.aes.init) ∧
      (d = .quicklz →
        (fwAlgoInit ⟨c.ops b v, d.ops b v⟩ m).2.mem.quicklz = v.quicklz.stateInit) := by
  cases c <;> cases d <;> exact ⟨rfl, by rintro ⟨⟩ <;> rfl, by rintro ⟨⟩ <;> rfl⟩

theorem fwGetAlgoContext_registered {env : Env σ (CodecMem Z Q A)} {c : Crypto} {d : Decoder}
    {info : FwInfo} (hreg : Registered env v c d info) :
    fwGetAlgoContext env.tables info = some ⟨c.ops env.build v, d.ops env.build v⟩ := by
  rw [fwGetAlgoContext, hreg.tables, hreg.selects.1, hreg.selects.2, findCrypto_startup,
    findCmprs_decoder, if_pos hreg.crypto, if_pos hreg.decoder]
  rfl

/-- The body of a package whose stages are registered: its decryption is an encoding of the
image. -/
structure EncodedBody (env : Env σ (CodecMem Z Q A)) (v : Vendor Z Q A) (c : Crypto) (d : Codec)
    (info : FwInfo) (body image : List UInt8) : Prop where
  registered : Registered env v c (.codec d) info
  chains : c.Chains v
  pkgSize : info.pkgSize.toNat = body.length
  rawSize : info.rawSize.toNat = image.length
  small : body.length < 2 ^ 31
  encodes : Encodes v d (c.apply v v.aes.init body).1 image

theorem EncodedBody.image {env : Env σ (CodecMem Z Q A)} {c : Crypto} {d : Codec}
    {info : FwInfo} {body image : List UInt8} (h : EncodedBody env v c d info body image)
    (src dst : Handle) (k : CodecMem Z Q A) :
    imageOf env info src dst body k = some image := by
  obtain ⟨hreg, hchain, hpkg, hraw, hsmall, hencodes⟩ := h
  have halgo := fwGetAlgoContext_registered hreg
  obtain ⟨hinit, haes, hquicklz⟩ := fwAlgoInit_fresh env.build v c d
    (⟨(), k, info, []⟩ : Machine Unit (CodecMem Z Q A))
  have hsep (h : env.build.usingQuicklz = true ∨ env.build.usingFastlz = true) :
      env.build.usingCompression = true := by
    unfold Build.usingCompression
    rcases h with h | h <;> simp [h]
  unfold imageOf
  rw [halgo]
  dsimp only
  generalize hmem : (fwAlgoInit ⟨c.ops env.build v, (Decoder.codec d).ops env.build v⟩
    (⟨(), k, info, []⟩ : Machine Unit (CodecMem Z Q A))) = r
  have hr : r.1 = true := by
    rw [← hmem]
    exact hinit
  rw [if_pos hr]
  have hclear : ClearOf v c r.2.mem body (c.apply v v.aes.init body).1 := by
    cases c with
    | none => rfl
    | aes =>
        rw [ClearOf, ← hmem]
        exact congrArg (fun a => (Crypto.aes.apply v a body).1) (haes rfl)
  cases hencodes with
  | none => exact unpack_undoes (undoes_none hreg.crypto hchain) hpkg hraw hsmall hclear rfl
  | quicklz hframed =>
      have hbegin : r.2.mem.quicklz = v.quicklz.stateInit := by
        rw [← hmem]
        exact hquicklz rfl
      rw [← hbegin] at hframed
      exact unpack_undoes (undoes_quicklz hreg.crypto hchain (hsep (.inl hreg.decoder))) hpkg
        hraw hsmall hclear hframed
  | fastlz hframed =>
      exact unpack_undoes (undoes_fastlz hreg.crypto hchain (hsep (.inr hreg.decoder))) hpkg
        hraw hsmall hclear hframed

/-- A body whose decryption is an encoding of the image is unpacked to it, however its
blocks lie across the pieces that are read. -/
theorem imageOf_encoded {env : Env σ (CodecMem Z Q A)} {c : Crypto} {d : Codec}
    {info : FwInfo} {body image : List UInt8} (hreg : Registered env v c (.codec d) info)
    (hchain : c.Chains v) (hpkg : info.pkgSize.toNat = body.length)
    (hraw : info.rawSize.toNat = image.length) (hsmall : body.length < 2 ^ 31)
    (hencodes : Encodes v d (c.apply v v.aes.init body).1 image)
    (src dst : Handle) (k : CodecMem Z Q A) :
    imageOf env info src dst body k = some image :=
  EncodedBody.image ⟨hreg, hchain, hpkg, hraw, hsmall, hencodes⟩ src dst k

/-! ## Two blocks -/

/-- FastLZ on a block that is one run of literals. -/
def literalFastlz (inp : List UInt8) (len cap : Nat) : List UInt8 :=
  let out := (inp.take len).drop 1
  if out.length ≤ cap then out else []

def literalVendor : Vendor Unit Unit Unit := { flipVendor with fastlz := ⟨literalFastlz⟩ }

def literalEnv (body : List UInt8) : Env Unit (CodecMem Unit Unit Unit) :=
  { bodyEnv body with tables := startupTables (bodyEnv body).build literalVendor }

def twoBlocks : FwInfo :=
  { FwInfo.ofBytes (Block.ofList srcReadPos []) with
    algo := 0x0300
    rawSize := 5
    pkgSize := 15 }

def twoBlocksBody : List UInt8 := blockOf [1, 7, 8] ++ (blockOf [2, 9, 9, 9] ++ [])

theorem literal_block (n : UInt8) (out : List UInt8) :
    FastlzBlock literalVendor () (n :: out) out () := by
  intro rest cap hcap
  show literalFastlz _ _ _ = _
  have htake : ((n :: out ++ rest).take (n :: out).length).drop 1 = out := by
    rw [List.take_left]
    rfl
  rw [literalFastlz, htake]
  exact if_pos hcap

theorem imageOf_encoded_twoBlocks :
    imageOf (literalEnv twoBlocksBody) twoBlocks ⟨.download, 0⟩ ⟨.app, 0⟩ twoBlocksBody
      ⟨⟨(), 0, []⟩, (), ()⟩ = some [7, 8, 9, 9, 9] := by
  have hframed : Framed (BlockFrame (FastlzBlock literalVendor)) () twoBlocksBody
      ([7, 8] ++ ([9, 9, 9] ++ [])) := by
    apply Framed.cons
    · exact ⟨[1, 7, 8], rfl, by decide, by decide, by decide, by decide, literal_block 1 _⟩
    apply Framed.cons
    · exact ⟨[2, 9, 9, 9], rfl, by decide, by decide, by decide, by decide, literal_block 2 _⟩
    · exact Framed.nil ()
  have hreg : Registered (literalEnv twoBlocksBody) literalVendor .none (.codec .fastlz)
      twoBlocks := ⟨rfl, rfl, rfl, by decide, by decide⟩
  exact imageOf_encoded hreg (chains_none literalVendor) (by decide) (by decide) (by decide)
    (.fastlz hframed) _ _ _

end Qboot
