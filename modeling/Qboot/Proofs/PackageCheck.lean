import Qboot.Proofs.CheckedInstall
/-!
# Which contents are packages

Over storage that serves a fixed content, `qbt_fw_check` decides a property of that
content: a header that passes its own check, the body that it announces, and with the
application check the image that it announces.
-/

namespace Qboot

open Library Bytes Machine Loop Prog

variable {σ κ : Type} {env : Env σ κ} {h : Handle} {content : List UInt8} {Ok : σ → Prop}
  {m : Machine σ κ}

/-! ## The CRC from an address on -/

section Crc

variable {addr size : Nat}

theorem crcUpTo_roundAt (hio : Serving env.io h content Ok) (haddr : addr ≤ 2 ^ 31)
    (hsize : size < 2 ^ 31) (c : Nat × UInt32) (m : Machine σ κ)
    (hI : CrcUpTo env (content.drop addr) size Ok c m) :
    Ends (CrcUpTo env (content.drop addr) size Ok) (fun c => size - c.1)
      (CrcResult env (content.drop addr) size Ok) (size - c.1)
      (crcCheckRound env h addr size c m) := by
  obtain ⟨pos, acc⟩ := c
  have hbound : pos ≤ size := hI.bound
  have hthere : pos ≤ (content.drop addr).length := hI.there
  have hacc : acc = env.crc.cycCal 0xFFFFFFFF ((content.drop addr).take pos) := hI.acc
  unfold crcCheckRound
  by_cases hdone : size ≤ pos
  · obtain rfl : pos = size := le_antisymm hbound hdone
    rw [if_pos hdone]
    exact ⟨hI.dev, hthere, hacc⟩
  rw [if_neg hdone]
  generalize hlen : sizeT (min bufSize (i32 (size - pos))) = n
  rw [crcReadLen_small (not_le.mp hdone) hsize] at hlen
  have hbuf : bufSize = 4096 := rfl
  have hat : u32 (addr + pos) = addr + pos := by
    unfold u32
    omega
  have hnext : u32 (pos + n) = pos + n := by
    unfold u32
    omega
  have hpos : 0 < n := by omega
  simp only [hat, hnext, Prog.run_bind]
  obtain ⟨m', hread, hok'⟩ := ioRead_serving hio hI.dev (addr + pos) n hpos (by omega)
    (by omega)
  rw [hread, ← readSlice_drop content addr pos hpos]
  by_cases hfits : pos + n ≤ (content.drop addr).length
  · obtain ⟨data, hdata, hbytes⟩ := readSlice_of_le hfits
    rw [hdata]
    refine ⟨⟨hok', ?_, hfits, ?_⟩, ?_⟩
    · show pos + n ≤ size
      omega
    · show env.crc.cycCal acc data.1 = _
      rw [hacc, hbytes, ← env.crc.cycCal_append, take_append_slice _ (by omega)]
    · show size - (pos + n) < size - pos
      omega
  · rw [readSlice_eq_none.mpr hfits]
    refine ⟨hok', ?_⟩
    show ¬size ≤ (content.drop addr).length
    omega

theorem crcRoundAt_refused (hio : Serving env.io h content Ok) (hbig : 2 ^ 31 ≤ size)
    (hsize : size < 2 ^ 32) (addr : Nat) (hok : Ok m.dev) :
    ∃ m', crcCheckRound env h addr size (0, 0xFFFFFFFF) m = (.done none, m') ∧
      Ok m'.dev := by
  obtain ⟨dev', hread, hok'⟩ := hio.refuse m.dev (u32 (addr + 0)) size hok hbig
  have hgo : ¬size ≤ 0 := by omega
  rw [crcCheckRound, if_neg hgo]
  dsimp only
  generalize hlen : sizeT (min bufSize (i32 (size - 0))) = len
  rw [crcReadLen_big hbig hsize] at hlen
  subst hlen
  rw [Prog.run_bind, run_ioRead, hread]
  exact ⟨_, rfl, hok'⟩

theorem fwCrcCheck_at (hio : Serving env.io h content Ok) (haddr : addr ≤ 2 ^ 31)
    (hsize : size < 2 ^ 32) (crc : UInt32) (hok : Ok m.dev) :
    ∃ m', fwCrcCheck env h addr size crc m =
      (decide (CrcMatches env.crc (content.drop addr) size crc), m') ∧ Ok m'.dev := by
  by_cases hbig : 2 ^ 31 ≤ size
  · have hnot : ¬CrcMatches env.crc (content.drop addr) size crc := fun hmatch =>
      absurd hmatch.1 (not_lt.mpr hbig)
    obtain ⟨m', hround, hok'⟩ := crcRoundAt_refused hio hbig hsize addr hok
    refine ⟨m', ?_, hok'⟩
    simp only [fwCrcCheck, Prog.run_bind, iterate_done hround, Prog.run_pure,
      decide_eq_false hnot]
    rfl
  have hstart : CrcUpTo env (content.drop addr) size Ok (0, 0xFFFFFFFF) m :=
    ⟨hok, Nat.zero_le _, Nat.zero_le _, (env.crc.cycCal_nil _).symm⟩
  obtain ⟨r, m', hloop, hok', hr⟩ : ∃ r m',
      iterate (crcCheckRound env h addr size) (size + 1) (0, 0xFFFFFFFF) m = (some r, m') ∧
        CrcResult env (content.drop addr) size Ok r m' :=
    iterate_rule (crcUpTo_roundAt hio haddr (not_le.mp hbig)) hstart (Nat.lt_succ_self _)
  refine ⟨m', ?_, hok'⟩
  simp only [fwCrcCheck, Prog.run_bind, hloop, Prog.run_pure]
  rcases r with _ | acc
  · have hnot : ¬CrcMatches env.crc (content.drop addr) size crc :=
      fun hmatch => hr hmatch.2.1
    rw [decide_eq_false hnot]
    rfl
  · obtain ⟨hthere, rfl⟩ := hr
    have hiff : CrcMatches env.crc (content.drop addr) size crc ↔
        env.crc.whole ((content.drop addr).take size) = crc :=
      ⟨fun hmatch => hmatch.2.2, fun hcrc => ⟨not_le.mp hbig, hthere, hcrc⟩⟩
    rw [decide_eq_decide.mpr hiff]
    rfl

end Crc

/-! ## The check -/

def contentHeader (content : List UInt8) : FwInfo := .ofBytes (Block.ofList srcReadPos content)

/-- The content is a package: a header that passes its check, the body with the announced
length and CRC, and behind the application check an image with the announced CRC. -/
structure IsPackage (env : Env σ κ) (src dst : Handle) (k : κ) (content : List UInt8) :
    Prop where
  header : srcReadPos ≤ content.length
  check : fwInfoCheck env.crc (contentHeader content) = true
  body : CrcMatches env.crc (content.drop srcReadPos) (contentHeader content).pkgSize.toNat
    (contentHeader content).pkgCrc
  image : env.usingAppCheck = true → (contentHeader content).AppChecked →
    ∃ image, imageOf env (contentHeader content) src dst (content.drop srcReadPos) k =
      some image ∧ env.crc.whole image = (contentHeader content).rawCrc

theorem readSlice_header (hlen : srcReadPos ≤ content.length) :
    readSlice content 0 srcReadPos = some (Block.ofList srcReadPos content) := by
  obtain ⟨block, hblock, hbytes⟩ := readSlice_of_le
    (show 0 + srcReadPos ≤ content.length by omega)
  rw [hblock]
  apply congrArg some
  apply Subtype.ext
  rw [hbytes, Nat.zero_add, slice_zero]
  exact (List.take_append_of_le_length hlen).symm

theorem fwInfoRead_serving (hio : Serving env.io h content Ok) (partLen : Nat)
    (hok : Ok m.dev) :
    ∃ m', fwInfoRead env h partLen false m =
        (decide (srcReadPos ≤ content.length), m') ∧ Ok m'.dev ∧
      (srcReadPos ≤ content.length → m'.fwInfo = contentHeader content) := by
  obtain ⟨m₁, hread, hok₁⟩ := ioRead_serving hio hok 0 srcReadPos (by decide) (by decide)
    (by decide)
  have hrun : fwInfoRead env h partLen false m = match ioRead env.io h 0 srcReadPos m with
      | (none, m') => (false, m')
      | (some bytes, m') => (true, { m' with fwInfo := .ofBytes bytes }) := by
    rw [fwInfoRead, if_neg (by simp)]
    simp only [Bool.false_eq_true, if_false, Prog.run_bind]
    rcases ioRead env.io h 0 srcReadPos m with ⟨_ | bytes, m'⟩ <;> rfl
  rw [hrun, hread]
  by_cases hlen : srcReadPos ≤ content.length
  · rw [readSlice_header hlen, decide_eq_true hlen]
    exact ⟨_, rfl, hok₁, fun _ => rfl⟩
  · rw [readSlice_eq_none.mpr (by rwa [Nat.zero_add]), decide_eq_false hlen]
    exact ⟨_, rfl, hok₁, fun h => absurd h hlen⟩

section Check

variable {Z Q A : Type} {v : Vendor Z Q A} {env : Env σ (CodecMem Z Q A)}
  {m : Machine σ (CodecMem Z Q A)}
  (htables : env.tables = startupTables env.build v)
  (hgzip : env.usingAppCheck = true →
    (contentHeader content).algo.toNat &&& algoCmprsMask ≠ algoCmprsGzip)
  (hio : Serving env.io h content Ok)
  (hfeeds : Feeds env.io h (content.drop srcReadPos) Ok) (hok : Ok m.dev)

include htables hgzip hio hfeeds hok

theorem fwCheck_serving (partLen : Nat) (dst : Handle) (k : CodecMem Z Q A) :
    ∃ ok m', fwCheck env h partLen m = (ok, m') ∧ Ok m'.dev ∧
      (ok = true ↔ IsPackage env h dst k content) ∧
      (ok = true → m'.fwInfo = contentHeader content) := by
  obtain ⟨m₁, hread, hok₁, hinfo⟩ := fwInfoRead_serving hio partLen hok
  by_cases hlen : srcReadPos ≤ content.length
  swap
  · rw [decide_eq_false hlen] at hread
    refine ⟨false, m₁, ?_, hok₁, iff_of_false Bool.false_ne_true fun hpkg => hlen hpkg.header,
      fun h => absurd h Bool.false_ne_true⟩
    rw [fwCheck, run_bind, hread]
    rfl
  rw [decide_eq_true hlen] at hread
  rw [fwCheck_read hread, hinfo hlen]
  by_cases hcheck : fwInfoCheck env.crc (contentHeader content) = true
  swap
  · rw [if_neg hcheck]
    exact ⟨false, m₁, rfl, hok₁, iff_of_false Bool.false_ne_true fun hpkg => hcheck hpkg.check,
      fun h => absurd h Bool.false_ne_true⟩
  obtain ⟨m₂, hcrc, hok₂⟩ := fwCrcCheck_at (m := m₁) hio (show srcReadPos ≤ 2 ^ 31 by decide)
    (contentHeader content).pkgSize.toNat_lt (contentHeader content).pkgCrc hok₁
  have hinfo₂ : m₂.fwInfo = contentHeader content := by
    have hkeeps := on_fwCrcCheck (sameInfo_admits env.io) (h := h) trivial srcReadPos
      (contentHeader content).pkgSize.toNat (contentHeader content).pkgCrc m₁
    rw [hcrc] at hkeeps
    have hsame : m₂.fwInfo = m₁.fwInfo := hkeeps
    rw [hsame, hinfo hlen]
  rw [if_pos hcheck, hcrc]
  by_cases hbody : CrcMatches env.crc (content.drop srcReadPos)
    (contentHeader content).pkgSize.toNat (contentHeader content).pkgCrc
  swap
  · rw [decide_eq_false hbody]
    exact ⟨false, m₂, rfl, hok₂, iff_of_false Bool.false_ne_true fun hpkg => hbody hpkg.body,
      fun h => absurd h Bool.false_ne_true⟩
  rw [decide_eq_true hbody]
  by_cases happ : env.usingAppCheck = true ∧ (contentHeader content).AppChecked
  · simp only [if_pos happ]
    obtain ⟨ok, m₃, hrun, hok₃, hiff⟩ :=
      appCrcCheck_feeds (m := m₂) htables (hgzip happ.1) hfeeds hok₂ dst k
    refine ⟨ok, m₃, hrun, hok₃, ?_, fun _ => ?_⟩
    · rw [hiff]
      exact ⟨fun himage => ⟨hlen, hcheck, hbody, fun _ _ => himage⟩,
        fun hpkg => hpkg.image happ.1 happ.2⟩
    · have hkeeps := on_appCrcCheck (sameInfo_admits env.io) (h := h) trivial
        (contentHeader content) m₂
      rw [hrun] at hkeeps
      have hsame : m₃.fwInfo = m₂.fwInfo := hkeeps
      rw [hsame, hinfo₂]
  · simp only [if_neg happ]
    exact ⟨true, m₂, rfl, hok₂, iff_of_true rfl ⟨hlen, hcheck, hbody,
      fun husing hselects => absurd ⟨husing, hselects⟩ happ⟩, fun _ => hinfo₂⟩

/-- `qbt_fw_check` accepts exactly the packages. -/
theorem fwCheck_iff_isPackage (partLen : Nat) (dst : Handle) (k : CodecMem Z Q A) :
    (fwCheck env h partLen m).1 = true ↔ IsPackage env h dst k content := by
  obtain ⟨ok, m', hrun, -, hiff, -⟩ :=
    fwCheck_serving htables hgzip hio hfeeds hok partLen dst k
  rw [hrun]
  exact hiff

end Check

theorem fwCheck_iff_isPackage_stored :
    (fwCheck (fsEnv startupFileEnv) ⟨.download, 0⟩ 104 startupStored).1 = true ↔
      IsPackage (fsEnv startupFileEnv) ⟨.download, 0⟩ ⟨.app, 0⟩ startupStored.mem
        (startupStored.dev.bytes .download) := by
  have hopen : startupStored.dev.OpenOn .download false :=
    ⟨0, 0, by decide +kernel, by decide +kernel, by decide +kernel⟩
  have hoff : 2 ^ 33 ≤ startupStored.dev.sys.offMax := by decide +kernel
  exact fwCheck_iff_isPackage (v := flipVendor) rfl (fun _ => by decide +kernel)
    (serving_files startupFileEnv.hpatch.cfg hopen hoff)
    (feeds_files startupFileEnv.hpatch.cfg hopen hoff) (.refl _) 104 ⟨.app, 0⟩
    startupStored.mem

end Qboot
