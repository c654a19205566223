import Qboot.Proofs.RegionCrc
/-!
# Verification of stored bytes

What `qbt_dest_part_verify` answers, on storage that serves a fixed content: the
content itself decides it.
-/

namespace Qboot

open Library Bytes Machine Loop Prog

variable {σ κ : Type}

/-- While the storage state is in `Ok`, reads through `h` serve `content`; a length that
is negative as `int` is refused. -/
structure Serving (io : IoOps σ) (h : Handle) (content : List UInt8) (Ok : σ → Prop) :
    Prop where
  read : ∀ dev off len, Ok dev → 0 < len → len < 2 ^ 31 → off < 2 ^ 32 →
    ∃ dev', io.read h off len dev = (readSlice content off len, dev') ∧ Ok dev'
  refuse : ∀ dev off len, Ok dev → 2 ^ 31 ≤ len →
    ∃ dev', io.read h off len dev = (none, dev') ∧ Ok dev'

/-- The content has the CRC in its first `size` bytes, which can be checked. -/
def CrcMatches (crc : CrcLib) (content : List UInt8) (size : Nat) (value : UInt32) : Prop :=
  size < 2 ^ 31 ∧ size ≤ content.length ∧ crc.whole (content.take size) = value

instance (crc : CrcLib) (content : List UInt8) (size : Nat) (value : UInt32) :
    Decidable (CrcMatches crc content size value) :=
  inferInstanceAs (Decidable (_ ∧ _ ∧ _))

/-- The tail of the first `partLen` bytes is a header that the content verifies against. -/
def TailVerifies (crc : CrcLib) (content : List UInt8) (partLen : Nat) : Prop :=
  srcReadPos ≤ partLen ∧
    ∃ block, readSlice content (partLen - srcReadPos) srcReadPos = some block ∧
      fwInfoCheck crc (.ofBytes block) = true ∧
      ((FwInfo.ofBytes block).verifyCrc = true →
        CrcMatches crc content (FwInfo.ofBytes block).rawSize.toNat
          (FwInfo.ofBytes block).rawCrc)

variable {env : Env σ κ} {h : Handle} {content : List UInt8} {Ok : σ → Prop}
  {m : Machine σ κ}

theorem ioRead_serving (hio : Serving env.io h content Ok) (hok : Ok m.dev) (off len : Nat)
    (hpos : 0 < len) (hlen : len < 2 ^ 31) (hoff : off < 2 ^ 32) :
    ∃ m', ioRead env.io h off len m = (readSlice content off len, m') ∧ Ok m'.dev := by
  obtain ⟨dev', hread, hok'⟩ := hio.read m.dev off len hok hpos hlen hoff
  rw [run_ioRead, hread]
  exact ⟨_, rfl, hok'⟩

structure CrcUpTo (env : Env σ κ) (content : List UInt8) (size : Nat) (Ok : σ → Prop)
    (c : Nat × UInt32) (m : Machine σ κ) : Prop where
  dev : Ok m.dev
  bound : c.1 ≤ size
  there : c.1 ≤ content.length
  acc : c.2 = env.crc.cycCal 0xFFFFFFFF (content.take c.1)

def CrcResult (env : Env σ κ) (content : List UInt8) (size : Nat) (Ok : σ → Prop)
    (r : Option UInt32) (m : Machine σ κ) : Prop :=
  Ok m.dev ∧ match r with
    | some acc => size ≤ content.length ∧
        acc = env.crc.cycCal 0xFFFFFFFF (content.take size)
    | none => ¬size ≤ content.length

theorem crcUpTo_round (hio : Serving env.io h content Ok) {size : Nat} (hsize : size < 2 ^ 31)
    (c : Nat × UInt32) (m : Machine σ κ) (hI : CrcUpTo env content size Ok c m) :
    Ends (CrcUpTo env content size Ok) (fun c => size - c.1) (CrcResult env content size Ok)
      (size - c.1) (crcCheckRound env h 0 size c m) := by
  obtain ⟨pos, acc⟩ := c
  have hbound : pos ≤ size := hI.bound
  have hthere : pos ≤ content.length := hI.there
  have hacc : acc = env.crc.cycCal 0xFFFFFFFF (content.take pos) := hI.acc
  unfold crcCheckRound
  by_cases hdone : size ≤ pos
  · obtain rfl : pos = size := le_antisymm hbound hdone
    rw [if_pos hdone]
    exact ⟨hI.dev, hthere, hacc⟩
  rw [if_neg hdone]
  generalize hlen : sizeT (min bufSize (i32 (size - pos))) = n
  rw [crcReadLen_small (not_le.mp hdone) hsize] at hlen
  have hbuf : bufSize = 4096 := rfl
  have hat : u32 (0 + pos) = pos := by
    unfold u32
    omega
  have hnext : u32 (pos + n) = pos + n := by
    unfold u32
    omega
  simp only [hat, hnext, Prog.run_bind]
  obtain ⟨m', hread, hok'⟩ := ioRead_serving hio hI.dev pos n (by omega) (by omega)
    (by omega)
  rw [hread]
  by_cases hfits : pos + n ≤ content.length
  · obtain ⟨data, hdata, hbytes⟩ := readSlice_of_le hfits
    rw [hdata]
    refine ⟨⟨hok', ?_, hfits, ?_⟩, ?_⟩
    · show pos + n ≤ size
      omega
    · show env.crc.cycCal acc data.1 = _
      rw [hacc, hbytes, ← env.crc.cycCal_append, take_append_slice content (by omega)]
    · show size - (pos + n) < size - pos
      omega
  · rw [readSlice_eq_none.mpr hfits]
    refine ⟨hok', ?_⟩
    show ¬size ≤ content.length
    omega

/-- A region that is too long as `int` cannot be read at once. -/
theorem crcCheckRound_refused (hio : Serving env.io h content Ok) {size : Nat}
    (hbig : 2 ^ 31 ≤ size) (hsize : size < 2 ^ 32) (hok : Ok m.dev) :
    ∃ m', crcCheckRound env h 0 size (0, 0xFFFFFFFF) m = (.done none, m') ∧ Ok m'.dev := by
  obtain ⟨dev', hread, hok'⟩ := hio.refuse m.dev (u32 (0 + 0)) size hok hbig
  have hgo : ¬size ≤ 0 := by omega
  rw [crcCheckRound, if_neg hgo]
  dsimp only
  generalize hlen : sizeT (min bufSize (i32 (size - 0))) = len
  rw [crcReadLen_big hbig hsize] at hlen
  subst hlen
  rw [Prog.run_bind, run_ioRead, hread]
  exact ⟨_, rfl, hok'⟩

theorem fwCrcCheck_serving (hio : Serving env.io h content Ok) {size : Nat}
    (hsize : size < 2 ^ 32) (crc : UInt32) (hok : Ok m.dev) :
    ∃ m', fwCrcCheck env h 0 size crc m =
      (decide (CrcMatches env.crc content size crc), m') ∧ Ok m'.dev := by
  by_cases hbig : 2 ^ 31 ≤ size
  · have hnot : ¬CrcMatches env.crc content size crc := fun hmatch =>
      absurd hmatch.1 (not_lt.mpr hbig)
    obtain ⟨m', hround, hok'⟩ := crcCheckRound_refused hio hbig hsize hok
    refine ⟨m', ?_, hok'⟩
    simp only [fwCrcCheck, Prog.run_bind, iterate_done hround, Prog.run_pure, decide_eq_false hnot]
    rfl
  have hstart : CrcUpTo env content size Ok (0, 0xFFFFFFFF) m :=
    ⟨hok, Nat.zero_le _, Nat.zero_le _, (env.crc.cycCal_nil _).symm⟩
  obtain ⟨r, m', hrun, hok', hr⟩ :=
    iterate_rule (crcUpTo_round hio (not_le.mp hbig)) hstart (Nat.lt_succ_self _)
  have hloop : iterate (crcCheckRound env h 0 size) (size + 1) (0, 0xFFFFFFFF) m =
      (some r, m') := hrun
  refine ⟨m', ?_, hok'⟩
  simp only [fwCrcCheck, Prog.run_bind, hloop, Prog.run_pure]
  rcases r with _ | acc
  · have hnot : ¬CrcMatches env.crc content size crc := fun hmatch => hr hmatch.2.1
    rw [decide_eq_false hnot]
    rfl
  · obtain ⟨hthere, rfl⟩ := hr
    have hiff : CrcMatches env.crc content size crc ↔
        env.crc.whole (content.take size) = crc :=
      ⟨fun hmatch => hmatch.2.2, fun hcrc => ⟨not_le.mp hbig, hthere, hcrc⟩⟩
    rw [decide_eq_decide.mpr hiff]
    rfl

theorem destPartVerify_serving (hio : Serving env.io h content Ok) {partLen : Nat}
    (hpart : partLen < 2 ^ 32) (hok : Ok m.dev) :
    ∃ ok m', destPartVerify env h partLen m = (ok, m') ∧ Ok m'.dev ∧
      (ok = true ↔ TailVerifies env.crc content partLen) := by
  by_cases hshort : partLen < srcReadPos
  · have hinfo : fwInfoRead env h partLen true m = (false, m) := by
      rw [fwInfoRead, if_pos ⟨rfl, hshort⟩]
      rfl
    refine ⟨false, m, ?_, hok, iff_of_false Bool.false_ne_true fun hverifies =>
      absurd hverifies.1 (not_le.mpr hshort)⟩
    rw [destPartVerify, Prog.run_bind, hinfo]
    rfl
  have haddr : u32Sub partLen srcReadPos = partLen - srcReadPos := by
    unfold u32Sub u32
    omega
  obtain ⟨m₁, hread, hok₁⟩ := ioRead_serving hio hok (partLen - srcReadPos) srcReadPos
    (by decide) (by decide) (by omega)
  cases hblock : readSlice content (partLen - srcReadPos) srcReadPos with
  | none =>
      have hinfo : fwInfoRead env h partLen true m = (false, m₁) := by
        simp only [fwInfoRead, hshort, and_false, if_false, if_true, haddr, Prog.run_bind,
          hread, hblock]
        rfl
      refine ⟨false, m₁, ?_, hok₁, iff_of_false Bool.false_ne_true ?_⟩
      · rw [destPartVerify, Prog.run_bind, hinfo]
        rfl
      · rintro ⟨-, block, hsome, -⟩
        rw [hblock] at hsome
        simp at hsome
  | some block =>
      have hhead : fwInfoRead env h partLen true m =
          (true, { m₁ with fwInfo := .ofBytes block }) := by
        simp only [fwInfoRead, hshort, and_false, if_false, if_true, haddr, Prog.run_bind,
          hread, hblock]
        rfl
      have hiff : TailVerifies env.crc content partLen ↔
          fwInfoCheck env.crc (.ofBytes block) = true ∧
            ((FwInfo.ofBytes block).verifyCrc = true →
              CrcMatches env.crc content (FwInfo.ofBytes block).rawSize.toNat
                (FwInfo.ofBytes block).rawCrc) := by
        constructor
        · rintro ⟨-, block', hsome, hcheck⟩
          rw [hblock] at hsome
          obtain rfl := Option.some.inj hsome
          exact hcheck
        · exact fun hcheck => ⟨not_lt.mp hshort, block, hblock, hcheck⟩
      generalize FwInfo.ofBytes block = info at hhead hiff
      have hrun : destPartVerify env h partLen m =
          (if !fwInfoCheck env.crc info then pure false
            else if info.verifyCrc then fwCrcCheck env h 0 info.rawSize.toNat info.rawCrc
            else pure true : Prog (Machine σ κ) Bool) { m₁ with fwInfo := info } := by
        rw [destPartVerify, Prog.run_bind, hhead]
        rfl
      rw [hrun, hiff]
      by_cases hcheck : fwInfoCheck env.crc info = true
      swap
      · rw [Bool.not_eq_true] at hcheck
        rw [hcheck]
        exact ⟨false, _, rfl, hok₁, iff_of_false Bool.false_ne_true fun hboth =>
          Bool.false_ne_true hboth.1⟩
      rw [hcheck]
      by_cases hverify : info.verifyCrc = true
      · obtain ⟨m₂, hcrc, hok₂⟩ := fwCrcCheck_serving (m := { m₁ with fwInfo := info }) hio
          info.rawSize.toNat_lt info.rawCrc hok₁
        rw [hverify]
        refine ⟨_, m₂, hcrc, hok₂, ?_⟩
        rw [decide_eq_true_iff]
        exact ⟨fun hmatch => ⟨rfl, fun _ => hmatch⟩, fun hboth => hboth.2 rfl⟩
      · rw [Bool.not_eq_true] at hverify
        rw [hverify]
        exact ⟨true, _, rfl, hok₁, iff_of_true rfl ⟨rfl, by simp⟩⟩

end Qboot
