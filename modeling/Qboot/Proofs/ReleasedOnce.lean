import Qboot.Proofs.SeparateTargets
/-!
# A second release

A boot that has released the package in DOWNLOAD puts the release sign behind it, if
there is room.  The next boot finds the package as it was; it finds the sign, and then
does nothing, or releases the package once more.
-/

namespace Qboot

open Library Bytes Flash Prog Machine Loop

variable {κ : Type}

/-! ## The sign -/

/-- A target after the sign of package `info` has been written to it, if it fits. -/
def withSign (b : Backend) (info : FwInfo) (r : Region) : Region :=
  if b.InRange r.size (signPos info) 4 then
    r.program (signPos info) (leBytes 4 releaseSignWord)
  else r

section Sign

variable (b : Backend) (info : FwInfo) (r : Region)

theorem withSign_shape :
    (withSign b info r).size = r.size ∧ (withSign b info r).unit = r.unit := by
  unfold withSign
  split
  · exact ⟨r.size_program _ _, r.unit_program _ _⟩
  · exact ⟨rfl, rfl⟩

theorem withSign_below {a : Nat} (ha : a < signPos info) :
    (withSign b info r).cells a = r.cells a := by
  unfold withSign
  split
  · exact overwrite_of_lt ha
  · rfl

variable {b info r}

theorem signIn_withSign (hin : b.InRange r.size (signPos info) 4) :
    signIn b info (withSign b info r) = true := by
  have hread : ((withSign b info r).read (signPos info) 4).1 = leBytes 4 releaseSignWord := by
    rw [withSign, if_pos hin]
    exact readCells_overwrite_same r.cells (signPos info) (leBytes 4 releaseSignWord)
  have hword : leNat (leBytes 4 releaseSignWord) = releaseSignWord := by decide
  rw [signIn, hread, hword, (withSign_shape b info r).1]
  simp [hin]

end Sign

/-! ## One release -/

section Release

variable {backend : TargetId → Backend} {env : Env FlashDev κ} {srcId dstId : TargetId}
  {m m₁ : Machine FlashDev κ} {src : Handle} {info : FwInfo}

theorem checkPackage_accepted
    (hrun : checkPackage (regionEnv backend env) srcId m = (.accepted src, m₁)) :
    src.target = srcId ∧ AcceptedIn env srcId m m₁ := by
  unfold checkPackage at hrun
  simp only [run_bind] at hrun
  generalize hstart : (emit (.releaseStart srcId true) m).2 = m₀ at hrun
  have hdev₀ : m₀.dev = m.dev := by
    rw [← hstart]
    rfl
  have htarget := targetOpen_target (regionEnv backend env).io srcId .read m₀
  have hdev := sameDev_targetOpen backend srcId .read m₀
  rcases hopen : targetOpen (regionEnv backend env).io srcId .read m₀
    with ⟨⟨_ | h, _ | size⟩, m₂⟩
  all_goals
    rw [hopen] at hrun htarget
    rw [show targetOpen (regionIo backend) srcId .read m₀ = _ from hopen] at hdev
  · cases hrun
  · cases hrun
  · cases hrun
  have hdev₂ : m₂.dev = m.dev := Eq.trans hdev hdev₀
  have htarget : h.target = srcId := htarget h rfl
  have haccepts := @fwCheck_accepts _ backend env h m₂ size
  simp only [run_bind] at hrun
  rcases hcheck : fwCheck (regionEnv backend env) h size m₂ with ⟨_ | _, m₃⟩
  all_goals rw [hcheck] at hrun haccepts
  · cases hrun
  have hproduct : (productCodeOk (regionEnv backend env) m₃).2 = m₃ := rfl
  simp only [if_true, run_bind, hproduct] at hrun
  generalize (productCodeOk (regionEnv backend env) m₃).1 = ok at hrun
  cases ok with
  | false => cases hrun
  | true =>
  obtain ⟨hsrc, rfl⟩ := Prod.mk.inj hrun
  cases hsrc
  obtain ⟨hdev₃, hinfo, hheader, hinside⟩ := haccepts rfl
  rw [htarget, hdev₂] at hinfo hheader hinside
  exact ⟨htarget, hdev₃.trans hdev₂, hinfo, hheader, hinside⟩

/-- How the update of a package for `dstId` has succeeded. -/
structure UpdateOf (backend : TargetId → Backend) (env : Env FlashDev κ) (info : FwInfo)
    (src : Handle) (m : Machine FlashDev κ) (x : Applied × Machine FlashDev κ) : Prop where
  run : ∃ dstId dst dstSize m₀,
    nameToId env.hpatch.cfg.useStorageSwap info.fromPartName = some dstId ∧ dst.target = dstId ∧
      m₀.dev = m.dev ∧ m₀.fwInfo = m.fwInfo ∧ x.1 = .updated src dst ∧
        fwUpdate (regionEnv backend env) dst dstSize src m₀ = (true, x.2)

theorem updateNamed_updated
    (hok : (updateNamed (regionEnv backend env) src info m).1.answer = true) :
    UpdateOf backend env info src m (updateNamed (regionEnv backend env) src info m) := by
  unfold updateNamed at hok ⊢
  rcases hnamed : nameToId (regionEnv backend env).hpatch.cfg.useStorageSwap info.fromPartName
    with _ | dstId
  all_goals simp only [hnamed] at hok ⊢
  · cases hok
  have htarget := targetOpen_target (regionEnv backend env).io dstId .writeCreate m
  have hdev := sameDev_targetOpen backend dstId .writeCreate m
  have hinfo := sameInfo_targetOpen (regionIo backend) dstId .writeCreate m
  simp only [run_bind] at hok ⊢
  rcases hopen : targetOpen (regionEnv backend env).io dstId .writeCreate m
    with ⟨⟨_ | dst, _ | dstSize⟩, m₀⟩
  all_goals
    rw [hopen] at hok htarget
    rw [show targetOpen (regionIo backend) dstId .writeCreate m = _ from hopen] at hdev hinfo
  · cases hok
  · cases hok
  · cases hok
  simp only [run_bind] at hok ⊢
  rcases hupdate : fwUpdate (regionEnv backend env) dst dstSize src m₀ with ⟨_ | _, m₁⟩
  all_goals rw [hupdate] at hok
  · cases hok
  · exact ⟨dstId, dst, dstSize, m₀, hnamed, htarget dst rfl, hdev, hinfo, rfl, hupdate⟩

theorem fwUpdate_destructive {dst : Handle} {dstSize : Nat}
    (hrun : fwUpdate (regionEnv backend env) dst dstSize src m = (true, m₁)) :
    ∃ e ∈ m₁.log, e.destructive = true := by
  unfold fwUpdate at hrun
  simp only [run_bind, run_gets] at hrun
  rcases hrelease : fwRelease (regionEnv backend env) dst dstSize src m.fwInfo m
    with ⟨_ | _, m₂⟩
  all_goals rw [hrelease] at hrun
  · cases hrun
  obtain ⟨m₀, hwrite⟩ := fwRelease_written hrelease
  have hwritten : .wrote dst.target (infoAddr dstSize true) m.fwInfo.toBytes true ∈ m₂.log := by
    have hrun : (fwInfoWrite (regionEnv backend env) dst dstSize m.fwInfo true m₀).2 = m₂ :=
      congrArg Prod.snd hwrite
    have hok : (fwInfoWrite (regionEnv backend env) dst dstSize m.fwInfo true m₀).1 = true :=
      congrArg Prod.fst hwrite
    rw [← hrun]
    refine List.mem_append_right _ ?_
    rw [List.mem_singleton]
    exact congrArg _ hok.symm
  simp only [if_true, run_bind] at hrun
  have hverify := within_destPartVerify (idles_admits backend env) dst dstSize m₂
  obtain ⟨-, rfl⟩ := Prod.mk.inj hrun
  refine ⟨_, List.mem_append_left _ (hverify.mem_log hwritten), rfl⟩

theorem applied_accepted (hok : (applied backend env srcId m).1.answer = true) :
    ∃ src m₁, checkPackage (regionEnv backend env) srcId m = (.accepted src, m₁) := by
  rw [applied_eq] at hok
  rcases hcheck : checkPackage (regionEnv backend env) srcId m with ⟨_ | src | src, m₁⟩
  all_goals rw [hcheck] at hok
  · cases hok
  · cases hok
  · exact ⟨src, m₁, rfl⟩

abbrev signed (backend : TargetId → Backend) (srcId : TargetId) (R : TargetId → Region) : Bool :=
  signIn (backend srcId) (packageOf R srcId) (R srcId)

theorem run_signed (backend : TargetId → Backend) (env : Env FlashDev κ)
    {R : TargetId → Region} (htarget : src.target = srcId)
    (hinfo : m.fwInfo = packageOf R srcId) (hregion : m.dev.region srcId = R srcId)
    (hon : m.dev.power ≠ .off) :
    releaseSignCheck (regionEnv backend env) src m = (signed backend srcId R, m) := by
  rw [run_releaseSignCheck backend env src hon, htarget, hinfo, hregion]

theorem applied_unsigned (hon : m.dev.power ≠ .off)
    (hsign : signed backend srcId m.dev.region = false)
    (hok : (applied backend env srcId m).1.answer = true) :
    ∃ src m₁, src.target = srcId ∧ m₁.dev = m.dev ∧
      m₁.fwInfo = packageOf m.dev.region srcId ∧
        UpdateOf backend env (packageOf m.dev.region srcId) src m₁
          (applied backend env srcId m) := by
  obtain ⟨src, m₁, hcheck⟩ := applied_accepted hok
  obtain ⟨htarget, hdev, hinfo, -, -⟩ := checkPackage_accepted hcheck
  have hrun := run_signed backend env htarget hinfo (congrArg (·.region srcId) hdev) (by rwa [hdev])
  rw [hsign] at hrun
  have happly : applied backend env srcId m =
      updateNamed (regionEnv backend env) src (packageOf m.dev.region srcId) m₁ := by
    rw [applied_eq, hcheck]
    simp only [applyPackage, run_bind, hrun, Bool.false_eq_true, if_false, run_gets, hinfo]
  rw [happly] at hok ⊢
  exact ⟨src, m₁, htarget, hdev, hinfo, updateNamed_updated hok⟩

/-- The first release leaves the package with its sign, if that fits. -/
theorem released_source (hswap : srcId ≠ .swap) (hsteady : m.dev.power = .steady)
    (hsign : signed backend srcId m.dev.region = false)
    (hother : nameToId env.hpatch.cfg.useStorageSwap (packageOf m.dev.region srcId).fromPartName ≠
      some srcId) (hok : (releaseFromPart (regionEnv backend env) srcId true m).1 = true) :
    (releaseFromPart (regionEnv backend env) srcId true m).2.dev.region srcId =
      withSign (backend srcId) (packageOf m.dev.region srcId) (m.dev.region srcId) := by
  rw [releaseFromPart_run] at hok ⊢
  rw [closeRelease_answer] at hok
  have hon : m.dev.power ≠ .off := by simp [hsteady]
  obtain ⟨src, m₁, htarget, hdev, hinfo, ⟨dstId, dst, dstSize, m₀, hnamed, hdst, hdev₀, hinfo₀,
    hupdated, hrun⟩⟩ := applied_unsigned hon hsign hok
  generalize applied backend env srcId m = x at hupdated hrun ⊢
  obtain ⟨k, m₂⟩ := x
  obtain rfl : k = .updated src dst := hupdated
  have hne : dst.target ≠ srcId := by
    intro hsame
    rw [hnamed, ← hdst, hsame] at hother
    exact hother rfl
  have hkept := keeps_fwUpdate backend env hswap hne dstSize src m₀
  have hlast : (fwUpdate (regionEnv backend env) dst dstSize src m₀).1 = true →
      (fwUpdate (regionEnv backend env) dst dstSize src m₀).2.fwInfo = m₀.fwInfo :=
    @fwUpdate_header _ _ (regionSeparate backend env) _ _ _ _
  rw [hrun] at hkept hlast
  have hregion : m₂.dev.region srcId = m.dev.region srcId := by
    rw [← hdev, ← hdev₀]
    exact hkept
  have hinfo₂ : m₂.fwInfo = packageOf m.dev.region srcId :=
    (hlast rfl).trans (hinfo₀.trans hinfo)
  have hsteady₂ : m₂.dev.power = .steady := by
    have hidle := idles_fwUpdate backend env dst dstSize src m₀
    rw [hrun] at hidle
    exact hidle.steady (by rw [hdev₀, hdev, hsteady])
  have hcheck := run_signed backend env htarget hinfo₂ hregion (by simp [hsteady₂])
  rw [hsign] at hcheck
  have hwrite : (closeRelease (regionEnv backend env) srcId (.updated src dst) m₂).2.dev =
      ((regionIo backend).write src (signPos m₂.fwInfo) (leBytes 4 releaseSignWord) m₂.dev).2 := by
    simp only [closeRelease, run_bind, hcheck, Bool.not_false, if_true]
    rfl
  have hlen : (leBytes 4 releaseSignWord).length = 4 := length_leBytes 4 _
  rw [hwrite, hinfo₂, withSign]
  by_cases hin : (backend srcId).InRange (m.dev.region srcId).size
    (signPos (packageOf m.dev.region srcId)) 4
  · have hin' : (backend src.target).InRange (m₂.dev.region src.target).size
        (signPos (packageOf m.dev.region srcId)) (leBytes 4 releaseSignWord).length := by
      rwa [hlen, htarget, hregion]
    rw [if_pos hin, regionIo_write hsteady₂ hin', htarget, hregion]
    exact FlashDev.setRegion_same ..
  · have hout : ¬(backend src.target).InRange (m₂.dev.region src.target).size
        (signPos (packageOf m.dev.region srcId)) (leBytes 4 releaseSignWord).length := by
      rwa [hlen, htarget, hregion]
    have hnone : (regionIo backend).write src (signPos (packageOf m.dev.region srcId))
        (leBytes 4 releaseSignWord) m₂.dev = (false, m₂.dev) := if_neg hout
    rw [if_neg hin, hnone]
    exact hregion

theorem signed_of_quiet (hon : m.dev.power ≠ .off)
    (hok : (releaseFromPart (regionEnv backend env) srcId true m).1 = true)
    (hquiet : ∀ e ∈ (releaseFromPart (regionEnv backend env) srcId true m).2.log,
      e.destructive = false) : signed backend srcId m.dev.region = true := by
  by_contra hsign
  rw [releaseFromPart_run] at hok hquiet
  rw [closeRelease_answer] at hok
  obtain ⟨src, m₁, -, -, -, ⟨dstId, dst, dstSize, m₀, -, -, -, -, -, hrun⟩⟩ :=
    applied_unsigned hon (Bool.not_eq_true _ ▸ hsign) hok
  obtain ⟨e, he, hdestructive⟩ := fwUpdate_destructive hrun
  have hclose := idles_closeRelease backend env srcId (applied backend env srcId m).1
    (applied backend env srcId m).2
  rw [hquiet e (hclose.mem_log he)] at hdestructive
  cases hdestructive

theorem signed_release {src : Handle} (hon : m.dev.power ≠ .off) (hlog : m.log = [])
    (hsign : signed backend srcId m.dev.region = true)
    (hcheck : checkPackage (regionEnv backend env) srcId m = (.accepted src, m₁)) :
    (releaseFromPart (regionEnv backend env) srcId true m).1 = true ∧
      ∀ e ∈ (releaseFromPart (regionEnv backend env) srcId true m).2.log,
        e.destructive = false := by
  obtain ⟨htarget, hdev, hinfo, -, -⟩ := checkPackage_accepted hcheck
  have hrun := run_signed backend env htarget hinfo (congrArg (·.region srcId) hdev) (by rwa [hdev])
  rw [hsign] at hrun
  have happly : applied backend env srcId m = (.decided src true, m₁) := by
    rw [applied_eq, hcheck]
    simp only [applyPackage, run_bind, hrun, if_true, run_pure]
  obtain ⟨-, new, hnew, hall⟩ := quiet_checkPackage backend env srcId m
  rw [hcheck, hlog] at hnew
  have hnew : m₁.log = new := hnew
  rw [releaseFromPart_run, happly]
  refine ⟨rfl, fun e he => ?_⟩
  have he : e ∈ m₁.log ++ [.closed src.target] ++ [.released srcId true true] := he
  rw [hnew] at he
  rcases List.mem_append.mp he with he | he
  · rcases List.mem_append.mp he with he | he
    · exact hall e he
    · obtain rfl := List.mem_singleton.mp he
      rfl
  · obtain rfl := List.mem_singleton.mp he
    rfl

end Release

/-! ## Two boots -/

section Boots

variable (backend : TargetId → Backend) (env : Env FlashDev κ) (mem : κ) (info : FwInfo)
  (R : TargetId → Region)

/-- A boot accepts the package in DOWNLOAD, reading no more at once than its buffer
holds, releases it, and answers true. -/
structure FirstRelease : Prop where
  accepted : Accepted backend env .download mem info R
  unsigned : signed backend .download R = false
  answer : (steadyRelease backend env .download mem info R).1 = true

def afterRelease : TargetId → Region :=
  (steadyRelease backend env .download mem info R).2.dev.region

/-- A boot accepts the package in DOWNLOAD, answers true, and erases and writes
nothing. -/
structure NothingLeft : Prop where
  accepted : (packageCheck backend env .download mem info R).1 = true
  answer : (steadyRelease backend env .download mem info R).1 = true
  quiet : ∀ e ∈ (steadyRelease backend env .download mem info R).2.log, e.destructive = false

/-- The release sign fits behind the package in DOWNLOAD. -/
def SignFits : Prop :=
  signPos (packageOf R .download) + 4 ≤ (R .download).size

variable {backend env mem info R}

theorem afterRelease_shape (id : TargetId) :
    (afterRelease backend env mem info R id).size = (R id).size ∧
      (afterRelease backend env mem info R id).unit = (R id).unit := by
  have hidle : Idles (bootMachine R .steady (fun _ => 0) mem info)
      (steadyRelease backend env .download mem info R).2 := by
    rw [steadyRelease, releaseFromPart_run]
    exact trans_of Idles (idles_applied backend env .download _)
      (idles_closeRelease backend env .download _ _)
  exact ⟨hidle.size id, hidle.unit id⟩

theorem FirstRelease.source (h : FirstRelease backend env mem info R)
    (hother : nameToId env.hpatch.cfg.useStorageSwap (packageOf R .download).fromPartName ≠
      some .download) : afterRelease backend env mem info R .download =
      withSign (backend .download) (packageOf R .download) (R .download) :=
  released_source (by decide) rfl h.unsigned hother h.answer

/-- Another boot, which finds the package unchanged. -/
structure SamePackageIn (r R : TargetId → Region) : Prop where
  size : ∀ id, (r id).size = (R id).size
  unit : ∀ id, (r id).unit = (R id).unit
  package : ∀ a, a < packageEnd R .download → (r .download).cells a = (R .download).cells a

section Again

variable {r : TargetId → Region}

theorem SamePackageIn.alike (hsame : SamePackageIn r R) :
    Alike .app r R (bootMachine r .steady (fun _ => 0) mem info)
      (bootMachine R .steady (fun _ => 0) mem info) :=
  alike_boot hsame.size hsame.unit (fun hno => nomatch hno)

theorem SamePackageIn.accepted (hsame : SamePackageIn r R)
    (h : Accepted backend env .download mem info R) :
    (packageCheck backend env .download mem info r).1 = true := by
  have hpkg : SamePackage ⟨.download, 0⟩ .app r R (packageEnd R .download) :=
    ⟨(fun hno => nomatch hno), hsame.package⟩
  have hlead : Follows .app r R (Has .app R True info fun _ => False)
      (fwCheck (regionEnv backend env) ⟨.download, 0⟩ (R .download).size)
      fun ok m => ok = true → Has .app R True (packageOf R .download) (fun _ => False) m :=
    follows_fwCheck hpkg (Nat.le_refl _) h.small _
  rw [packageCheck, hsame.size]
  obtain hstop | ⟨hval, -⟩ := hlead.step _ _ hsame.alike start_has
  · have hidle := within_fwCheck (idles_admits backend env) ⟨.download, 0⟩ (R .download).size
      (bootMachine r .steady (fun _ => 0) mem info)
    exact absurd (hidle.steady rfl) hstop.not_steady
  · exact hval.trans h.checked

theorem SamePackageIn.check (hsame : SamePackageIn r R)
    (hsmall : (packageOf R .download).pkgSize.toNat < 2 ^ 31) :
    (checkPackage (regionEnv backend env) .download
        (bootMachine r .steady (fun _ => 0) mem info)).1 =
      (checkPackage (regionEnv backend env) .download
        (bootMachine R .steady (fun _ => 0) mem info)).1 := by
  have hlead : Follows .app r R (Has .app R True info fun _ => False)
      (checkPackage (regionEnv backend env) .download)
      (CheckedBy .download .app R fun _ => False) :=
    follows_checkPackage (by decide) hsmall hsame.package
  obtain hstop | ⟨hval, -⟩ := hlead.step _ _ hsame.alike start_has
  · have hidle := idles_checkPackage backend env .download
      (bootMachine r .steady (fun _ => 0) mem info)
    exact absurd (hidle.steady rfl) hstop.not_steady
  · exact hval

end Again

/-- A release is not repeated by the next boot exactly when its sign fits behind the
package. -/
theorem nothingLeft_iff (h : FirstRelease backend env mem info R)
    (hother : nameToId env.hpatch.cfg.useStorageSwap (packageOf R .download).fromPartName ≠
      some .download) :
    NothingLeft backend env mem info (afterRelease backend env mem info R) ↔ SignFits R := by
  have hsource := h.source hother
  have hend := packageEnd_le_signPos h.accepted.small
  have hsame (a : Nat) (ha : a < packageEnd R .download) :
      (afterRelease backend env mem info R .download).cells a = (R .download).cells a := by
    rw [hsource]
    exact withSign_below _ _ _ (ha.trans_le hend)
  have hpackage : packageOf (afterRelease backend env mem info R) .download =
      packageOf R .download := by
    refine congrArg FwInfo.ofBytes (readCells_congr fun a _ ha => hsame a ?_)
    exact Nat.lt_add_right _ (by simpa using ha)
  have hagain : SamePackageIn (afterRelease backend env mem info R) R :=
    ⟨fun id => (afterRelease_shape id).1, fun id => (afterRelease_shape id).2, hsame⟩
  have hon (r : TargetId → Region) :
      (bootMachine r .steady (fun _ => 0) mem info).dev.power ≠ .off := fun hno => nomatch hno
  have hnonempty : 0 < (R .download).size :=
    (Nat.add_pos_left (by decide) _).trans_le
      (fwCheck_accepts _ h.accepted.checked).inside
  constructor
  · intro hleft
    have hsigned := signed_of_quiet (hon (afterRelease backend env mem info R)) hleft.answer
      hleft.quiet
    have hsigned : signed backend .download (afterRelease backend env mem info R) = true :=
      hsigned
    rw [signed, hpackage, signIn, Bool.and_eq_true, decide_eq_true_eq, hagain.size] at hsigned
    exact hsigned.1.le (by decide)
  · intro hfits
    have hin : (backend .download).InRange (R .download).size
      (signPos (packageOf R .download)) 4 := Backend.inRange_of_le hnonempty hfits
    have hsigned : signed backend .download (afterRelease backend env mem info R) = true := by
      rw [signed, hpackage, hsource]
      exact signIn_withSign hin
    have hanswer := h.answer
    rw [steadyRelease, releaseFromPart_run, closeRelease_answer] at hanswer
    obtain ⟨src, m₁, hfirst⟩ := applied_accepted hanswer
    have hcheck : (checkPackage (regionEnv backend env) .download
        (bootMachine (afterRelease backend env mem info R) .steady (fun _ => 0) mem info)).1 =
          .accepted src := by
      rw [hagain.check h.accepted.small, hfirst]
    obtain ⟨hok, hquiet⟩ := signed_release (hon (afterRelease backend env mem info R)) rfl
      hsigned (Prod.ext hcheck rfl)
    exact ⟨hagain.accepted h.accepted, hok, hquiet⟩

end Boots

def eightByteRegions (size : Nat) : TargetId → Region :=
  Function.update (eightByteMachine 1024).dev.region .download
    ⟨size, 4, ((eightByteMachine 1024).dev.region .download).cells⟩

theorem eightByte_first {size : Nat}
    (hchecked : (packageCheck (fun _ => .fal) eagerEnv .download () eightByteHeader
      (eightByteRegions size)).1 = true)
    (hreads : (packageCheck (fun _ => .fal) eagerEnv .download () eightByteHeader
      (eightByteRegions size)).2.log.all (fun e => match e with
        | .read _ _ len _ => decide (len ≤ bufSize)
        | _ => true) = true)
    (hunsigned : signed (fun _ => .fal) .download (eightByteRegions size) = false)
    (hanswer : (steadyRelease (fun _ => .fal) eagerEnv .download () eightByteHeader
      (eightByteRegions size)).1 = true) :
    FirstRelease (fun _ => .fal) eagerEnv () eightByteHeader (eightByteRegions size) :=
  ⟨⟨hchecked, fun _ _ _ _ he => of_decide_eq_true (List.all_eq_true.mp hreads _ he)⟩,
    hunsigned, hanswer⟩

theorem eightByte_nothingLeft :
    NothingLeft (fun _ => .fal) eagerEnv () eightByteHeader (afterRelease (fun _ => .fal)
        eagerEnv () eightByteHeader (eightByteRegions 1024)) ↔
      SignFits (eightByteRegions 1024) :=
  nothingLeft_iff
    (eightByte_first (by decide +kernel) (by decide +kernel) (by decide +kernel)
      (by decide +kernel))
    (by decide)

/-- With two bytes of room behind the package, the next boot releases it again. -/
theorem tight_releasedAgain :
    FirstRelease (fun _ => .fal) eagerEnv () eightByteHeader (eightByteRegions 106) ∧
      ¬NothingLeft (fun _ => .fal) eagerEnv () eightByteHeader (afterRelease (fun _ => .fal)
        eagerEnv () eightByteHeader (eightByteRegions 106)) := by
  constructor
  · apply eightByte_first <;> decide +kernel
  · intro hleft
    have hissued : ((steadyRelease (fun _ => .fal) eagerEnv .download () eightByteHeader
        (afterRelease (fun _ => .fal) eagerEnv () eightByteHeader (eightByteRegions 106))).2.log.all
          fun e => e.destructive == false) = false := by
      decide +kernel
    rw [List.all_eq_true.mpr fun e he => by rw [hleft.quiet e he]; rfl] at hissued
    cases hissued

end Qboot
