import Qboot.Model.Codecs
/-!
# The block header of QuickLZ and FastLZ

What both block handlers promise of a header: the codec runs only on a payload that
is in the buffer, and success accounts for exactly that block.  The needed length is
a 32-bit sum, so the promise ends four bytes before the largest block size.
-/

namespace Qboot

open Library Bytes

variable {Q κ α : Type}

/-! ## The handlers with their codec calls recorded -/

def quicklzDecode (qlz : Quicklz Q) (inp : List UInt8) (outLen : Nat) :
    Nat → Prog Q (Option (List UInt8)) := fun _ q =>
  let r := qlz.decompress q (inp.drop blockHdrSize)
  (if r.1.length = 0 ∨ outLen < r.1.length then none else some r.1, r.2)

def fastlzDecode (flz : Fastlz) (inp : List UInt8) (outLen : Nat) :
    Nat → Prog κ (Option (List UInt8)) := fun blockSize =>
  let out := flz.decompress (inp.drop blockHdrSize) blockSize outLen
  pure (if out.length = 0 then none else some (out.take outLen))

theorem quicklzDecompress_eq (qlz : Quicklz Q) (inp : List UInt8) (outLen : Nat)
    (step : StreamStatus) (ctx : StreamCtx) :
    quicklzDecompress qlz inp outLen step ctx =
      blockDecompress inp outLen step (quicklzDecode qlz inp outLen) := rfl

theorem fastlzDecompress_eq (flz : Fastlz) (inp : List UInt8) (outLen : Nat)
    (step : StreamStatus) (ctx : StreamCtx) :
    (fastlzDecompress flz inp outLen step ctx : Prog κ _) =
      blockDecompress inp outLen step (fastlzDecode flz inp outLen) := rfl

/-- `decode` with its calls counted beside its memory. -/
def counted (decode : Nat → Prog κ α) : Nat → Prog (κ × Nat) α := fun n s =>
  ((decode n s.1).1, ((decode n s.1).2, s.2 + 1))

section Header

variable {inp : List UInt8} {outLen : Nat} {step : StreamStatus}
  {decode : Nat → Prog κ (Option (List UInt8))} {k : κ}

theorem block_short (h : inp.length < blockHdrSize) :
    blockDecompress inp outLen step decode k =
      ((.enospc, step, Block.ofList outLen []), k) := by
  rw [blockDecompress]
  exact congrFun (if_pos h) k

theorem block_empty (h : ¬inp.length < blockHdrSize) (hsize : getBlockSize inp = 0) :
    blockDecompress inp outLen step decode k =
      ((.error, step, Block.ofList outLen []), k) := by
  rw [blockDecompress, if_neg h]
  exact congrFun (if_pos hsize) k

theorem block_incomplete (h : ¬inp.length < blockHdrSize) (hsize : getBlockSize inp ≠ 0)
    (hneed : inp.length < u32 (getBlockSize inp + blockHdrSize)) :
    blockDecompress inp outLen step decode k =
      ((.enospc, step, Block.ofList outLen []), k) := by
  rw [blockDecompress, if_neg h]
  exact congrFun ((if_neg hsize).trans (if_pos hneed)) k

theorem block_decoded (h : ¬inp.length < blockHdrSize) (hsize : getBlockSize inp ≠ 0)
    (hneed : ¬inp.length < u32 (getBlockSize inp + blockHdrSize)) :
    blockDecompress inp outLen step decode k =
      ((match (decode (getBlockSize inp) k).1 with
        | none => (.error, step, Block.ofList outLen [])
        | some out => (.eok, { step with
            consumed := u32 (getBlockSize inp + blockHdrSize), produced := out.length },
            Block.ofList outLen out)), (decode (getBlockSize inp) k).2) := by
  rw [blockDecompress, if_neg h]
  refine (congrFun ((if_neg hsize).trans (if_neg hneed)) k).trans ?_
  rw [Prog.run_bind]
  rcases (decode (getBlockSize inp) k).1 with _ | out <;> rfl

theorem block_counted (inp : List UInt8) (outLen : Nat) (step : StreamStatus)
    (decode : Nat → Prog κ (Option (List UInt8))) (k : κ) (calls : Nat) :
    (blockDecompress inp outLen step (counted decode) (k, calls)).1 =
        (blockDecompress inp outLen step decode k).1 ∧
      (blockDecompress inp outLen step (counted decode) (k, calls)).2.1 =
        (blockDecompress inp outLen step decode k).2 := by
  by_cases h : inp.length < blockHdrSize
  · rw [block_short h, block_short h]
    exact ⟨rfl, rfl⟩
  by_cases hsize : getBlockSize inp = 0
  · rw [block_empty h hsize, block_empty h hsize]
    exact ⟨rfl, rfl⟩
  by_cases hneed : inp.length < u32 (getBlockSize inp + blockHdrSize)
  · rw [block_incomplete h hsize hneed, block_incomplete h hsize hneed]
    exact ⟨rfl, rfl⟩
  · rw [block_decoded h hsize hneed, block_decoded h hsize hneed]
    exact ⟨rfl, rfl⟩

end Header

/-! ## The promise -/

/-- The length that the header of `inp` announces, as a number without a width. -/
def announced (inp : List UInt8) : Nat := getBlockSize inp + blockHdrSize

/-- A block handler around `decode`: it calls its codec only for a payload that is in
the buffer, reports that payload and a fitting output when it succeeds, and waits for
a payload that is not there yet. -/
structure BlockHandled (inp : List UInt8) (outLen : Nat)
    (decode : Nat → Prog κ (Option (List UInt8))) (step : StreamStatus) (k : κ) :
    Prop where
  called : (blockDecompress inp outLen step (counted decode) (k, 0)).2.2 ≠ 0 →
    announced inp ≤ inp.length
  reported : (blockDecompress inp outLen step decode k).1.1 = .eok →
    (blockDecompress inp outLen step decode k).1.2.1.consumed = announced inp ∧
      1 ≤ (blockDecompress inp outLen step decode k).1.2.1.produced ∧
      (blockDecompress inp outLen step decode k).1.2.1.produced ≤ outLen
  waits : blockHdrSize ≤ inp.length → inp.length < announced inp →
    (blockDecompress inp outLen step decode k).1.1 = .enospc ∧
      (blockDecompress inp outLen step (counted decode) (k, 0)).2.2 = 0

/-- The codec step answers outputs that fit the buffer, and no empty one. -/
def OutputFits (outLen : Nat) (decode : Nat → Prog κ (Option (List UInt8))) : Prop :=
  ∀ n k out, (decode n k).1 = some out → 1 ≤ out.length ∧ out.length ≤ outLen

theorem fits_quicklz (qlz : Quicklz Q) (inp : List UInt8) (outLen : Nat) :
    OutputFits outLen (quicklzDecode qlz inp outLen) := by
  intro n q out hout
  simp only [quicklzDecode] at hout
  split at hout
  · cases hout
  · rename_i hfit
    push Not at hfit
    rw [← Option.some.inj hout]
    exact ⟨Nat.one_le_iff_ne_zero.mpr hfit.1, hfit.2⟩

theorem fits_fastlz (flz : Fastlz) (inp : List UInt8) {outLen : Nat} (hout : 0 < outLen) :
    OutputFits outLen (fastlzDecode flz inp outLen : Nat → Prog κ _) := by
  intro n k out hdecode
  simp only [fastlzDecode, Prog.run_pure] at hdecode
  split at hdecode
  · cases hdecode
  · rw [← Option.some.inj hdecode, List.length_take]
    omega

theorem blockHandled {inp : List UInt8} {outLen : Nat}
    (hwidth : inp.length < blockHdrSize ∨ announced inp < 2 ^ 32)
    {decode : Nat → Prog κ (Option (List UInt8))} (hfits : OutputFits outLen decode)
    (step : StreamStatus) (k : κ) : BlockHandled inp outLen decode step k := by
  by_cases h : inp.length < blockHdrSize
  · refine ⟨?_, ?_, fun hlong _ => absurd h (Nat.not_lt.mpr hlong)⟩
    · rw [block_short h]
      exact fun hcalls => absurd rfl hcalls
    · rw [block_short h]
      exact fun hok => by cases hok
  have hneed : u32 (getBlockSize inp + blockHdrSize) = announced inp :=
    Nat.mod_eq_of_lt (hwidth.resolve_left h)
  by_cases hsize : getBlockSize inp = 0
  · refine ⟨?_, ?_, fun _ hmore => ?_⟩
    · rw [block_empty h hsize]
      exact fun hcalls => absurd rfl hcalls
    · rw [block_empty h hsize]
      exact fun hok => by cases hok
    · -- an empty block announces its header only
      rw [announced, hsize] at hmore
      omega
  by_cases hmore : inp.length < announced inp
  · have hpart : inp.length < u32 (getBlockSize inp + blockHdrSize) := by rwa [hneed]
    refine ⟨?_, ?_, fun _ _ => ?_⟩
    · rw [block_incomplete h hsize hpart]
      exact fun hcalls => absurd rfl hcalls
    · rw [block_incomplete h hsize hpart]
      exact fun hok => by cases hok
    · rw [block_incomplete h hsize hpart, block_incomplete h hsize hpart]
      exact ⟨rfl, rfl⟩
  · have hfull : ¬inp.length < u32 (getBlockSize inp + blockHdrSize) := by rwa [hneed]
    refine ⟨fun _ => Nat.le_of_not_lt hmore, ?_, fun _ hlt => absurd hlt hmore⟩
    rw [block_decoded h hsize hfull]
    rcases hdec : (decode (getBlockSize inp) k).1 with _ | out
    · exact fun hok => by cases hok
    · intro _
      obtain ⟨hone, hle⟩ := hfits _ _ _ hdec
      exact ⟨hneed, hone, hle⟩

theorem not_blockHandled {inp : List UInt8} {outLen : Nat}
    (h : ¬inp.length < blockHdrSize) (hwrap : 2 ^ 32 ≤ announced inp)
    (hwidth : getBlockSize inp < 2 ^ 32) {decode : Nat → Prog κ (Option (List UInt8))}
    {k : κ} {out : List UInt8} (hdec : (decode (getBlockSize inp) k).1 = some out)
    (step : StreamStatus) : ¬BlockHandled inp outLen decode step k := by
  intro hhandled
  have hhdr : blockHdrSize = 4 := rfl
  unfold announced at hwrap
  have hneed : u32 (getBlockSize inp + blockHdrSize) =
      getBlockSize inp + blockHdrSize - 2 ^ 32 := by
    unfold u32
    omega
  have hfull : ¬inp.length < u32 (getBlockSize inp + blockHdrSize) := by omega
  have hreport := hhandled.reported
  rw [block_decoded h (by omega) hfull, hdec] at hreport
  have hconsumed : u32 (getBlockSize inp + blockHdrSize) = announced inp := (hreport rfl).1
  rw [hneed, announced] at hconsumed
  omega

theorem getBlockSize_lt (inp : List UInt8) : getBlockSize inp < 2 ^ 32 := by
  have hstep (l : List UInt8) : ∀ n, l.foldl (fun size b => size * 256 + b.toNat) n <
      (n + 1) * 256 ^ l.length := by
    induction l with
    | nil => intro n; simp
    | cons b l ih =>
        intro n
        have hb : b.toNat < 256 := b.toNat_lt
        have htail := ih (n * 256 + b.toNat)
        have hgrow : (n * 256 + b.toNat + 1) * 256 ^ l.length ≤
            (n + 1) * 256 * 256 ^ l.length := Nat.mul_le_mul_right _ (by omega)
        calc (b :: l).foldl (fun size b => size * 256 + b.toNat) n
            < (n * 256 + b.toNat + 1) * 256 ^ l.length := htail
          _ ≤ (n + 1) * 256 * 256 ^ l.length := hgrow
          _ = (n + 1) * 256 ^ (b :: l).length := by
              rw [List.length_cons, pow_succ, Nat.mul_assoc, Nat.mul_comm 256]
  have hlen : (inp.take blockHdrSize).length ≤ 4 := List.length_take_le _ _
  calc getBlockSize inp
      < (0 + 1) * 256 ^ (inp.take blockHdrSize).length := hstep _ 0
    _ ≤ (0 + 1) * 256 ^ 4 := Nat.mul_le_mul_left _ (Nat.pow_le_pow_right (by omega) hlen)
    _ = 2 ^ 32 := by decide

/-- Each block handler keeps its promise, whatever its codec answers, exactly for the
buffers that hold no header yet and the headers whose needed length is a 32-bit
number. -/
theorem blockHandled_iff (inp : List UInt8) {outLen : Nat} (hout : 0 < outLen) :
    ((∀ (Q : Type) (qlz : Quicklz Q) step q,
        BlockHandled inp outLen (quicklzDecode qlz inp outLen) step q) ↔
      inp.length < blockHdrSize ∨ announced inp < 2 ^ 32) ∧
    ((∀ (κ : Type) (flz : Fastlz) step (k : κ),
        BlockHandled inp outLen (fastlzDecode flz inp outLen) step k) ↔
      inp.length < blockHdrSize ∨ announced inp < 2 ^ 32) := by
  refine ⟨⟨fun hall => ?_, fun hwidth Q qlz step q => ?_⟩,
    fun hall => ?_, fun hwidth κ flz step k => ?_⟩
  · by_contra hwidth
    push Not at hwidth
    have hdec : (quicklzDecode ⟨(), fun _ _ => ([0], ())⟩ inp outLen
        (getBlockSize inp) ()).1 = some [0] :=
      if_neg (by simp only [List.length_singleton]; omega)
    exact not_blockHandled (Nat.not_lt.mpr hwidth.1) hwidth.2 (getBlockSize_lt inp) hdec
      .zero (hall Unit _ .zero ())
  · exact blockHandled hwidth (fits_quicklz qlz inp outLen) step q
  · by_contra hwidth
    push Not at hwidth
    have hdec : (fastlzDecode ⟨fun _ _ _ => [0]⟩ inp outLen (getBlockSize inp) ()).1 =
        some ([0].take outLen) := rfl
    exact not_blockHandled (Nat.not_lt.mpr hwidth.1) hwidth.2 (getBlockSize_lt inp) hdec
      .zero (hall Unit _ .zero ())
  · exact blockHandled hwidth (fits_fastlz flz inp hout) step k

theorem blockHandled_twoBytes :
    BlockHandled [0, 0, 0, 2, 7, 7] 8 (fastlzDecode ⟨fun inp _ _ => inp⟩ [0, 0, 0, 2, 7, 7] 8)
      .zero () :=
  ((blockHandled_iff [0, 0, 0, 2, 7, 7] (by decide : 0 < 8)).2.mpr (.inr (by decide)))
    Unit ⟨fun inp _ _ => inp⟩ .zero ()

/-- Four bytes 0xFF announce 2^32 + 3 bytes; FastLZ is called on the empty rest of the
buffer, and three bytes are reported as consumed. -/
theorem wrappedHeader_decoded :
    ¬BlockHandled [0xFF, 0xFF, 0xFF, 0xFF] 8
      (fastlzDecode ⟨fun _ _ _ => [0]⟩ [0xFF, 0xFF, 0xFF, 0xFF] 8) .zero () := by
  intro hhandled
  have hcalled : announced [0xFF, 0xFF, 0xFF, 0xFF] ≤ 4 := hhandled.called (by decide)
  exact absurd hcalled (by decide)

end Qboot
