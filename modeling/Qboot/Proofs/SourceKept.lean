import Qboot.Proofs.HandleUse
import Qboot.Proofs.Restart
/-!
# The source package stays

Releasing, resuming and cloning erase and write the destination, and nothing below the
sign of the source.  They do not look whether the two targets are one.
-/

namespace Qboot

open Library Bytes Flash Prog Machine Loop

variable {κ : Type}

/-! ## Other targets -/

def KeepsRegion (id : TargetId) (m m' : Machine FlashDev κ) : Prop :=
  m'.dev.region id = m.dev.region id

instance (id : TargetId) : IsPreorder (Machine FlashDev κ) (KeepsRegion id) where
  refl _ := rfl
  trans _ _ _ h h' := Eq.trans h' h

section Frame

variable {id : TargetId} {n : Nat} (backend : TargetId → Backend)

theorem write_other {h : Handle} (hne : h.target ≠ id) (off : Nat) (data : List UInt8)
    (d : FlashDev) : ((regionIo backend).write h off data d).2.region id = d.region id :=
  (performIn_outside h.target (fun size => (backend h.target).InRange size off data.length)
    (opEffect_program off data) d).1 id hne.symm

theorem erase_other {h : Handle} (hne : h.target ≠ id) (off len : Nat)
    (d : FlashDev) : ((regionIo backend).erase h off len d).2.region id = d.region id :=
  (performIn_outside h.target (fun size => (backend h.target).InRange size off len)
    (opEffect_erase off len) d).1 id hne.symm

theorem write_behind {h : Handle} {off : Nat} (hoff : n ≤ off) (data : List UInt8)
    (d : FlashDev) {a : Nat} (ha : a < n) :
    (((regionIo backend).write h off data d).2.region id).cells a = (d.region id).cells a := by
  by_cases hid : id = h.target
  · subst hid
    refine (performIn_outside h.target
      (fun size => (backend h.target).InRange size off data.length)
      (opEffect_program off data) d).2 a ?_
    rintro (hno | ⟨hlow, -⟩)
    · exact hno
    · omega
  · exact congrArg (·.cells a) (write_other backend (Ne.symm hid) off data d)

variable (env : Env FlashDev κ)

theorem keeps_admits (id : TargetId) : AdmitsEnvOn (regionEnv backend env) (fun _ => True)
    (fun h => h.target ≠ id) (KeepsRegion id) where
  reads := fun _ _ _ _ _ => rfl
  writes := fun _ off data hne m => write_other backend hne off data m.dev
  erases := fun _ off len hne m => erase_other backend hne off len m.dev
  sizes := fun _ _ _ => rfl
  aligns := fun _ _ _ => rfl
  mem := fun _ _ => rfl
  emits := fun _ _ _ => rfl
  info := fun _ _ => rfl
  signReads := fun _ _ _ _ => rfl
  signWrites := fun _ info hne m =>
    write_other backend hne (signPos info) (leBytes 4 releaseSignWord) m.dev

theorem keeps_targetClose (h : Handle) :
    Within (KeepsRegion id) (targetClose (regionIo backend) h :
      Prog (Machine FlashDev κ) Unit) :=
  fun _ => rfl

theorem keeps_targetOpen (id' : TargetId) (flags : OpenFlags) :
    Within (KeepsRegion id) (targetOpen (regionIo backend) id' flags :
      Prog (Machine FlashDev κ) _) := by
  intro m
  rw [run_targetOpen]
  split <;> rfl

theorem keeps_swap (hswap : id ≠ .swap) :
    AdmitsSwap (regionEnv backend env).io (regionEnv backend env).hpatch (fun _ => True)
      (fun h => h.target ≠ id) (KeepsRegion (κ := κ) id) where
  mallocs := fun _ _ => rfl
  opens := keeps_targetOpen backend _ _
  closes := fun _ => keeps_targetClose backend _
  usable := fun _ => ⟨trivial, hswap.symm⟩

theorem keeps_fwUpdate (hswap : id ≠ .swap) {dst : Handle} (hdst : dst.target ≠ id)
    (dstSize : Nat) (src : Handle) :
    Within (KeepsRegion id) (fwUpdate (regionEnv backend env) dst dstSize src) :=
  on_fwUpdate (keeps_admits backend env id) (keeps_swap backend env hswap)
    (fun _ _ => rfl) trivial ⟨trivial, hdst⟩ dstSize

end Frame

/-! ## Checked packages -/

def SameDev (m m' : Machine FlashDev κ) : Prop := m'.dev = m.dev

instance : IsPreorder (Machine FlashDev κ) SameDev where
  refl _ := rfl
  trans _ _ _ h h' := Eq.trans h' h

def SameInfo {σ : Type} (m m' : Machine σ κ) : Prop := m'.fwInfo = m.fwInfo

instance {σ : Type} : IsPreorder (Machine σ κ) SameInfo where
  refl _ := rfl
  trans _ _ _ h h' := Eq.trans h' h

theorem sameInfo_admits {σ : Type} (io : IoOps σ) :
    AdmitsOn io (fun _ => True) (fun _ => True) (SameInfo (κ := κ)) where
  reads := fun _ _ _ _ _ => rfl
  writes := fun _ _ _ _ _ => rfl
  erases := fun _ _ _ _ _ => rfl
  sizes := fun _ _ _ => rfl
  aligns := fun _ _ _ => rfl
  mem := fun _ _ => rfl
  emits := fun _ _ _ => rfl

/-- The header asks for the application check of its package, where that is configured. -/
def FwInfo.AppChecked (info : FwInfo) : Prop :=
  info.algo.toNat &&& algoCmprsMask ≠ algoCmprsHpatchlite ∧ info.verifyCrc = true

instance (info : FwInfo) : Decidable info.AppChecked :=
  inferInstanceAs (Decidable (_ ∧ _))

theorem fwCheck_read {σ : Type} {env : Env σ κ} {h : Handle} {partLen : Nat}
    {m m₁ : Machine σ κ} (hread : fwInfoRead env h partLen false m = (true, m₁)) :
    fwCheck env h partLen m =
      if fwInfoCheck env.crc m₁.fwInfo = true then
        match fwCrcCheck env h srcReadPos m₁.fwInfo.pkgSize.toNat m₁.fwInfo.pkgCrc m₁ with
        | (true, m₂) =>
            if env.usingAppCheck = true ∧ m₁.fwInfo.AppChecked then
              appCrcCheck env h m₁.fwInfo m₂
            else (true, m₂)
        | (false, m₂) => (false, m₂)
      else (false, m₁) := by
  have hcond : (env.usingAppCheck &&
      m₁.fwInfo.algo.toNat &&& algoCmprsMask != algoCmprsHpatchlite &&
      m₁.fwInfo.verifyCrc) = decide (env.usingAppCheck = true ∧ m₁.fwInfo.AppChecked) := by
    rw [Bool.eq_iff_iff, decide_eq_true_iff, Bool.and_eq_true, Bool.and_eq_true,
      bne_iff_ne, FwInfo.AppChecked, and_assoc]
  have hrun : fwCheck env h partLen m =
      (if !fwInfoCheck env.crc m₁.fwInfo then pure false
        else do
          if ← fwCrcCheck env h srcReadPos m₁.fwInfo.pkgSize.toNat m₁.fwInfo.pkgCrc then
            if env.usingAppCheck &&
                m₁.fwInfo.algo.toNat &&& algoCmprsMask != algoCmprsHpatchlite &&
                m₁.fwInfo.verifyCrc then
              appCrcCheck env h m₁.fwInfo
            else pure true
          else pure false : Prog (Machine σ κ) Bool) m₁ := by
    rw [fwCheck, run_bind, hread]
    rfl
  rw [hrun, hcond]
  rcases Bool.eq_false_or_eq_true (fwInfoCheck env.crc m₁.fwInfo) with hcheck | hcheck
  swap
  · rw [hcheck]
    rfl
  rw [hcheck]
  simp only [Bool.not_true, Bool.false_eq_true, if_false, if_true, run_bind]
  rcases fwCrcCheck env h srcReadPos m₁.fwInfo.pkgSize.toNat m₁.fwInfo.pkgCrc m₁ with
    ⟨_ | _, m₂⟩
  · rfl
  · by_cases hboth : env.usingAppCheck = true ∧ m₁.fwInfo.AppChecked
    · simp only [if_pos hboth, if_true, decide_eq_true hboth]
    · simp only [if_neg hboth, if_true, decide_eq_false hboth, Bool.false_eq_true, if_false,
        run_pure]

theorem productCodeOk_run {σ : Type} (env : Env σ κ) (m : Machine σ κ) :
    ∃ ok, productCodeOk env m = (ok, m) ∧ (ok = true ↔
      ∀ code, env.productCode = some code → strEq m.fwInfo.fromProdCode code = true) := by
  refine ⟨_, rfl, ?_⟩
  cases env.productCode with
  | none => simp
  | some code => simp

theorem sameInfo_targetOpen {σ : Type} (io : IoOps σ) (id : TargetId) (flags : OpenFlags) :
    Within SameInfo (targetOpen io id flags : Prog (Machine σ κ) _) := by
  have hdev {α : Type} (x : Prog σ α) : Within SameInfo (onDev x : Prog (Machine σ κ) α) :=
    fun _ => rfl
  have hemit (e : Event) : Within SameInfo (emit e : Prog (Machine σ κ) Unit) := fun _ => rfl
  refine (hdev _).bind fun ref => ?_
  rcases ref with _ | ref
  · exact (hemit _).bind fun _ => .pure _
  refine (hemit _).bind fun _ => (hdev _).bind fun size => ?_
  rcases size with _ | size
  · exact ((hdev _).bind fun _ => hemit _).bind fun _ => .pure _
  · exact .pure _

theorem sameDev_targetOpen (backend : TargetId → Backend) (id : TargetId)
    (flags : OpenFlags) :
    Within SameDev (targetOpen (regionIo backend) id flags : Prog (Machine FlashDev κ) _) := by
  intro m
  rw [run_targetOpen]
  split <;> rfl

section Header

variable {σ : Type} {env : Env σ κ} {m m₁ : Machine σ κ}

theorem fwRelease_written {dst src : Handle} {dstSize : Nat} {info : FwInfo}
    (hrun : fwRelease env dst dstSize src info m = (true, m₁)) :
    ∃ m₀, fwInfoWrite env dst dstSize info true m₀ = (true, m₁) := by
  have hlast (x : Prog (Machine σ κ) Bool) (m₀ : Machine σ κ)
      (hx : (x >>= fun released => if released then
          fwInfoWrite env dst dstSize info true
        else pure false) m₀ = (true, m₁)) :
      ∃ m₀, fwInfoWrite env dst dstSize info true m₀ = (true, m₁) := by
    rw [run_bind] at hx
    by_cases hreleased : (x m₀).1 = true
    · rw [if_pos hreleased] at hx
      exact ⟨(x m₀).2, hx⟩
    · rw [if_neg hreleased] at hx
      cases hx
  simp only [fwRelease] at hrun
  rcases halgo : fwGetAlgoContext env.tables info with _ | algo
  · rw [halgo] at hrun
    cases hrun
  rw [halgo] at hrun
  simp only [run_bind] at hrun
  by_cases hinit : (fwAlgoInit algo m).1 = true
  swap
  · rw [if_neg hinit] at hrun
    cases hrun
  rw [if_pos hinit] at hrun
  split at hrun
  · exact hlast _ (fwAlgoInit algo m).2 hrun
  · exact hlast _ (fwAlgoInit algo m).2 hrun

theorem destPartVerify_read {dst : Handle} {dstSize : Nat}
    (hok : (destPartVerify env dst dstSize m).1 = true) :
    ∃ m₁, fwInfoRead env dst dstSize true m = (true, m₁) ∧
      (destPartVerify env dst dstSize m).2.fwInfo = m₁.fwInfo := by
  unfold destPartVerify at hok ⊢
  simp only [run_bind] at hok ⊢
  rcases hread : fwInfoRead env dst dstSize true m with ⟨_ | _, m₁⟩
  · rw [hread] at hok
    cases hok
  refine ⟨m₁, rfl, ?_⟩
  have hrest (info : FwInfo) : Within SameInfo
      (if !fwInfoCheck env.crc info then pure false
        else if info.verifyCrc then
          fwCrcCheck env dst 0 info.rawSize.toNat info.rawCrc
        else pure true) :=
    .ite (.pure _) (.ite (on_fwCrcCheck (sameInfo_admits _) trivial _ _ _) (.pure _))
  exact hrest m₁.fwInfo m₁

end Header

section Checks

variable (backend : TargetId → Backend) (env : Env FlashDev κ)

theorem sameDev_admits : AdmitsEnvOn (regionEnv backend env) (fun _ => True) (fun _ => False)
    (SameDev (κ := κ)) where
  reads := fun _ _ _ _ _ => rfl
  writes := fun _ _ _ hno => hno.elim
  erases := fun _ _ _ hno => hno.elim
  sizes := fun _ _ _ => rfl
  aligns := fun _ _ _ => rfl
  mem := fun _ _ => rfl
  emits := fun _ _ _ => rfl
  info := fun _ _ => rfl
  signReads := fun _ _ _ _ => rfl
  signWrites := fun _ _ hno => hno.elim

variable {backend env} {h : Handle} {m : Machine FlashDev κ}

theorem ioRead_inside {off len : Nat} {m' : Machine FlashDev κ} {b : Block len}
    (hread : ioRead (regionIo backend) h off len m = (some b, m')) :
    (backend h.target).InRange (m.dev.region h.target).size off len ∧ m'.dev = m.dev ∧
      b = (m.dev.region h.target).read off len := by
  rw [run_ioRead] at hread
  obtain ⟨hdata, rfl⟩ := Prod.mk.inj hread
  simp only [regionIo] at hdata
  split at hdata
  · rename_i hin
    exact ⟨hin.2, rfl, (Option.some.inj hdata).symm⟩
  · cases hdata

theorem Backend.InRange.le {b : Backend} {size off len : Nat} (hin : b.InRange size off len)
    (hlen : 0 < len) : off + len ≤ size := by
  by_contra hout
  exact Backend.not_inRange_of_gt hlen (by omega) hin

theorem Backend.inRange_iff {b : Backend} {size off len : Nat} (hsize : 0 < size)
    (hlen : 0 < len) : b.InRange size off len ↔ off + len ≤ size :=
  ⟨fun hin => hin.le hlen, Backend.inRange_of_le hsize⟩

/-- What `qbt_fw_crc_check` has read so far lies inside the target. -/
structure InsideSoFar (m₀ : Machine FlashDev κ) (h : Handle) (addr size : Nat)
    (c : Nat × UInt32) (m : Machine FlashDev κ) : Prop where
  dev : m.dev = m₀.dev
  bound : c.1 ≤ size
  first : c.1 = 0 ∨ c.1 = size ∨ size < 2 ^ 31
  inside : c.1 = 0 ∨ addr + c.1 ≤ (m₀.dev.region h.target).size

theorem crcCheckRound_inside {m₀ : Machine FlashDev κ} {addr size : Nat}
    (haddr : addr ≤ 2 ^ 31) (hsize : size < 2 ^ 32) (c : Nat × UInt32)
    (m : Machine FlashDev κ) (hI : InsideSoFar m₀ h addr size c m) :
    Ends (InsideSoFar m₀ h addr size) (fun c => size - c.1)
      (fun r _ => r.isSome = true → size = 0 ∨ addr + size ≤ (m₀.dev.region h.target).size)
      (size - c.1) (crcCheckRound (regionEnv backend env) h addr size c m) := by
  obtain ⟨pos, acc⟩ := c
  have hbound : pos ≤ size := hI.bound
  have hfirst : pos = 0 ∨ pos = size ∨ size < 2 ^ 31 := hI.first
  have hinside : pos = 0 ∨ addr + pos ≤ (m₀.dev.region h.target).size := hI.inside
  unfold crcCheckRound
  by_cases hdone : size ≤ pos
  · obtain rfl : pos = size := Nat.le_antisymm hbound hdone
    rw [if_pos hdone]
    exact fun _ => hinside
  rw [if_neg hdone]
  generalize hlen : sizeT (min bufSize (i32 (size - pos))) = n
  have hfirst : pos = 0 ∨ size < 2 ^ 31 :=
    hfirst.imp_right fun h => h.resolve_left (by omega)
  obtain ⟨hn, hle, hlast⟩ := crcReadLen_spec (by omega) hsize hfirst hlen
  have hat : u32 (addr + pos) = addr + pos := Nat.mod_eq_of_lt (by omega)
  have hnext : u32 (pos + n) = pos + n := Nat.mod_eq_of_lt (by omega)
  simp only [hat, hnext, run_bind]
  rcases hread : ioRead (regionEnv backend env).io h (addr + pos) n m with ⟨_ | data, m'⟩
  · exact fun hno => absurd hno (by simp)
  · obtain ⟨hin, hdev, -⟩ := ioRead_inside hread
    rw [hI.dev] at hin
    have hend := hin.le hn
    refine ⟨⟨hdev.trans hI.dev, hle, .inr hlast, .inr ?_⟩, ?_⟩
    · show addr + (pos + n) ≤ _
      omega
    · show size - (pos + n) < size - pos
      omega

theorem fwCrcCheck_inside {addr size : Nat} (haddr : addr ≤ 2 ^ 31) (hsize : size < 2 ^ 32)
    {crc : UInt32} (hok : (fwCrcCheck (regionEnv backend env) h addr size crc m).1 = true) :
    size = 0 ∨ addr + size ≤ (m.dev.region h.target).size := by
  have hstart : InsideSoFar m h addr size (0, 0xFFFFFFFF) m :=
    ⟨rfl, Nat.zero_le _, .inl rfl, .inl rfl⟩
  obtain ⟨r, m', hrun, hinside⟩ := iterate_rule
    (crcCheckRound_inside haddr hsize) hstart (Nat.lt_succ_self _)
  have hrun : iterate (crcCheckRound (regionEnv backend env) h addr size) (size + 1)
      (0, 0xFFFFFFFF) m = (some r, m') := hrun
  simp only [fwCrcCheck, run_bind, hrun] at hok
  cases r with
  | none => cases hok
  | some acc => exact hinside rfl

/-- Where `qbt_fw_info_read` and `qbt_fw_info_write` find a header. -/
def infoAddr (partLen : Nat) (tail : Bool) : Nat :=
  if tail then u32Sub partLen srcReadPos else 0

theorem fwInfoRead_inside {len : Nat} {tail : Bool} {m' : Machine FlashDev κ}
    (hread : fwInfoRead (regionEnv backend env) h len tail m = (true, m')) :
    m'.dev = m.dev ∧
      m'.fwInfo = .ofBytes ((m.dev.region h.target).read (infoAddr len tail) srcReadPos) ∧
      infoAddr len tail + srcReadPos ≤ (m.dev.region h.target).size := by
  unfold fwInfoRead at hread
  split at hread
  · cases hread
  simp only [run_bind] at hread
  rcases hrun : ioRead (regionEnv backend env).io h (infoAddr len tail) srcReadPos m
    with ⟨_ | bytes, m₁⟩
  all_goals
    unfold infoAddr at hrun
    rw [hrun] at hread
  · cases hread
  · obtain ⟨-, rfl⟩ := Prod.mk.inj hread
    obtain ⟨hin, hdev, rfl⟩ := ioRead_inside hrun
    exact ⟨hdev, rfl, hin.le (by decide)⟩

/-- What `qbt_fw_check` has found out about a package that it accepts. -/
structure AcceptedIn (env : Env FlashDev κ) (id : TargetId) (m m' : Machine FlashDev κ) :
    Prop where
  dev : m'.dev = m.dev
  info : m'.fwInfo = packageOf m.dev.region id
  header : fwInfoCheck env.crc (packageOf m.dev.region id) = true
  inside : packageEnd m.dev.region id ≤ (m.dev.region id).size

theorem fwCheck_accepts (len : Nat) (hok : (fwCheck (regionEnv backend env) h len m).1 = true) :
    AcceptedIn env h.target m (fwCheck (regionEnv backend env) h len m).2 := by
  have hdev : (fwCheck (regionEnv backend env) h len m).2.dev = m.dev :=
    on_fwCheck (sameDev_admits backend env) trivial len m
  have hrest (ok : Bool) : Within SameInfo (if ok then
      if (regionEnv backend env).usingAppCheck &&
          (packageOf m.dev.region h.target).algo.toNat &&& algoCmprsMask != algoCmprsHpatchlite &&
          (packageOf m.dev.region h.target).verifyCrc then
        appCrcCheck (regionEnv backend env) h (packageOf m.dev.region h.target)
      else pure true
    else pure false) :=
    .ite (.ite (on_appCrcCheck (sameInfo_admits _) trivial _) (.pure _)) (.pure _)
  unfold fwCheck at hok hdev ⊢
  rcases hread : fwInfoRead (regionEnv backend env) h len false m with ⟨_ | _, m₁⟩
  · simp only [run_bind, hread] at hok
    cases hok
  obtain ⟨hdev₁, hinfo, hin⟩ := fwInfoRead_inside hread
  have hinfo : m₁.fwInfo = packageOf m.dev.region h.target := hinfo
  simp only [run_bind, hread, if_true, run_gets, hinfo] at hok hdev ⊢
  by_cases hcheck : fwInfoCheck (regionEnv backend env).crc (packageOf m.dev.region h.target) = true
  swap
  · rw [if_pos (by simp [hcheck])] at hok
    cases hok
  rw [if_neg (by simp [hcheck])] at hok hdev ⊢
  simp only [run_bind] at hok hdev ⊢
  have hcrcInfo := on_fwCrcCheck (sameInfo_admits (regionEnv backend env).io) (h := h) trivial
    srcReadPos (packageOf m.dev.region h.target).pkgSize.toNat
    (packageOf m.dev.region h.target).pkgCrc m₁
  rcases hcrc : fwCrcCheck (regionEnv backend env) h srcReadPos
    (packageOf m.dev.region h.target).pkgSize.toNat
    (packageOf m.dev.region h.target).pkgCrc m₁ with ⟨_ | _, m₂⟩
  · rw [hcrc] at hok
    cases hok
  have hbody := fwCrcCheck_inside (by decide) (packageOf m.dev.region h.target).pkgSize.toNat_lt
    (congrArg Prod.fst hcrc)
  rw [hcrc] at hdev hcrcInfo
  rw [hdev₁] at hbody
  have hlast := hrest true m₂
  refine ⟨hdev, (Eq.trans hlast (Eq.trans hcrcInfo hinfo)), hcheck, ?_⟩
  rcases hbody with hempty | hend
  · show srcReadPos + _ ≤ _
    omega
  · exact hend

/-! ## What an update leaves -/

theorem write_done {off : Nat} {data : List UInt8} {d d' : FlashDev}
    (hwrite : (regionIo backend).write h off data d = (true, d')) :
    d'.region h.target = (d.region h.target).program off data ∧
      (backend h.target).InRange (d.region h.target).size off data.length := by
  simp only [regionIo] at hwrite
  split at hwrite
  swap
  · cases hwrite
  rename_i hin
  by_cases hoff : d.power = .off
  · simp [FlashDev.perform, hoff] at hwrite
  obtain ⟨p, -, hdone⟩ | htorn := perform_cases hoff h.target
    (.program off data.length) ((d.region h.target).program off data)
  · rw [hdone] at hwrite
    obtain ⟨-, rfl⟩ := Prod.mk.inj hwrite
    exact ⟨FlashDev.setRegion_same _ _ _, hin⟩
  · rw [htorn] at hwrite
    cases hwrite

theorem readCells_overwrite_info (cells : Nat → UInt8) (addr : Nat) (info : FwInfo) :
    readCells (overwrite cells addr info.toBytes) addr srcReadPos =
      ⟨info.toBytes, info.length_toBytes⟩ := by
  have hback := readCells_overwrite_same cells addr info.toBytes
  rw [info.length_toBytes] at hback
  exact Subtype.ext hback

end Checks

end Qboot
