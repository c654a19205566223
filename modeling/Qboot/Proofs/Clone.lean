import Qboot.Proofs.SeparateTargets
/-!
# The clone command

What `qbt_fw_clone` copies into another target, and what it does to its own: on regions
it erases the package before it reads it, and on files its descriptor is the read-only
one of the source.
-/

namespace Qboot

open Library Bytes Flash Prog Machine Loop

variable {σ κ : Type}

/-! ## The copy loop -/

/-- What the copy loop has done: the source is as before, and the destination holds its
first bytes. -/
structure CopiedTo (env : SeparateEnv σ κ) (src dst : TargetId) (size : Nat)
    (m₀ : Machine σ κ) (pos : Nat) (m : Machine σ κ) : Prop where
  bound : pos ≤ size
  first : pos = 0 ∨ pos = size ∨ size < 2 ^ 31
  source : KeepsBytes env.toStableEnv src m₀ m
  copied : ∀ a, a < pos → env.content m.dev dst a = env.content m₀.dev src a

structure Copied (env : SeparateEnv σ κ) (src dst : TargetId) (size : Nat)
    (m₀ : Machine σ κ) (ok : Bool) (m : Machine σ κ) : Prop where
  source : KeepsBytes env.toStableEnv src m₀ m
  copied : ok = true → ∀ a, a < size → env.content m.dev dst a = env.content m₀.dev src a

theorem Copied.failed {env : SeparateEnv σ κ} {src dst : TargetId} {size : Nat}
    {m₀ m : Machine σ κ} (hsource : KeepsBytes env.toStableEnv src m₀ m) :
    Copied env src dst size m₀ false m :=
  ⟨hsource, nofun⟩

section Copy

variable (env : SeparateEnv σ κ) {src dst : Handle} (hne : src.target ≠ dst.target)
  {size : Nat} (hsize : size < 2 ^ 32)
include hne hsize

theorem cloneRound_copies {m₀ : Machine σ κ} (pos : Nat) (m : Machine σ κ)
    (hI : CopiedTo env src.target dst.target size m₀ pos m) :
    Ends (CopiedTo env src.target dst.target size m₀) (fun pos => size - pos)
      (Copied env src.target dst.target size m₀) (size - pos)
      (cloneRound env.toEnv dst src size pos m) := by
  unfold cloneRound
  by_cases hdone : size ≤ pos
  · obtain rfl : pos = size := Nat.le_antisymm hI.bound hdone
    rw [if_pos hdone]
    exact ⟨hI.source, fun _ => hI.copied⟩
  rw [if_neg hdone]
  generalize hlen : sizeT (min bufSize (i32 (size - pos))) = n
  obtain ⟨hn, hle, hlast⟩ := crcReadLen_spec (by omega) hsize
    (hI.first.imp_right fun h => h.resolve_left (by omega)) hlen
  have hnext : u32 (pos + n) = pos + n := Nat.mod_eq_of_lt (by omega)
  simp only [hnext, run_bind]
  have hkeeps : Quiet env.toStableEnv m (ioRead env.io src pos n m).2 := quiet_ioRead src pos n m
  rcases hread : ioRead env.io src pos n m with ⟨_ | data, m₁⟩
  all_goals
    rw [hread] at hkeeps
    have hsource := trans_of (KeepsBytes env.toStableEnv _) hI.source (hkeeps.bytes src.target)
  · exact .failed hsource
  have hdata : data = readCells (env.content m.dev src.target) pos n :=
    ioRead_content env.toStableEnv hread
  simp only [run_bind]
  have hother : KeepsBytes env.toStableEnv src.target m₁ (ioWrite env.io dst pos data.1 m₁).2 :=
    env.write_other dst pos data.1 m₁.dev src.target hne
  rcases hwrite : ioWrite env.io dst pos data.1 m₁ with ⟨_ | _, m₂⟩
  all_goals
    rw [hwrite] at hother
    have hsource₂ := trans_of (KeepsBytes env.toStableEnv _) hsource hother
  · exact .failed hsource₂
  have hstored := ioWrite_content hwrite
  rw [hkeeps.1] at hstored
  refine ⟨⟨hle, .inr hlast, hsource₂, fun a ha => ?_⟩, ?_⟩
  · have ha : a < pos + n := ha
    show env.content m₂.dev dst.target a = _
    rw [hstored]
    by_cases hlow : a < pos
    · exact (overwrite_of_lt hlow).trans (hI.copied a hlow)
    · rw [hdata, show env.content m.dev src.target = env.content m₀.dev src.target from hI.source]
      exact overwrite_readCells _ _ (by omega) (by omega)
  · show size - (pos + n) < size - pos
    omega

/-- A clone into another target leaves the source alone, and copies it if it succeeds. -/
theorem fwClone_copies (m : Machine σ κ) : Copied env src.target dst.target size m
    (fwClone env.toEnv dst src size m).1 (fwClone env.toEnv dst src size m).2 := by
  have herase : KeepsBytes env.toStableEnv src.target m (eraseWithFeed env.io dst 0 size m).2 :=
    env.erase_other dst 0 size m.dev src.target hne
  unfold fwClone
  rw [run_bind]
  rcases hrun : eraseWithFeed env.io dst 0 size m with ⟨_ | _, m₁⟩
  all_goals rw [hrun] at herase
  · exact .failed herase
  have hstart : CopiedTo env src.target dst.target size m 0 m₁ :=
    ⟨Nat.zero_le _, .inl rfl, herase, fun a ha => absurd ha (Nat.not_lt_zero a)⟩
  obtain ⟨ok, m₂, hloop, hcopied⟩ := iterate_rule
    (cloneRound_copies env hne hsize) hstart (Nat.lt_succ_self _)
  have hloop : iterate (cloneRound env.toEnv dst src size) (size + 1) 0 m₁ = (some ok, m₂) :=
    hloop
  simp only [if_true, run_bind, hloop]
  exact hcopied

end Copy

/-! ## The command -/

/-- The clone command of `qbt_shell_cmd`, answering whether it reports success. -/
def shellCloneReport (env : Env σ κ) (src dst : List UInt8) :
    Prog (Machine σ κ) Bool :=
  match argToId env dst with
  | none => pure false
  | some dstId => do
      match ← onDev (env.io.openTarget dstId .writeCreate) with
      | none =>
          emit (.opened dstId false)
          pure false
      | some ref =>
          emit (.opened dstId true)
          match argToId env src with
          | none =>
              targetClose env.io ⟨dstId, ref⟩
              pure false
          | some srcId =>
              match ← targetOpen env.io srcId .read with
              | (some srcHandle, some srcSize) =>
                  let ok ← cloneOpened env ⟨dstId, ref⟩ srcHandle srcSize
                  targetClose env.io srcHandle
                  targetClose env.io ⟨dstId, ref⟩
                  pure ok
              | _ =>
                  targetClose env.io ⟨dstId, ref⟩
                  pure false

theorem shellClone_eq (env : Env σ κ) (src dst : List UInt8) :
    shellClone env src dst = (do
      let _ ← shellCloneReport env src dst
      pure () : Prog (Machine σ κ) Unit) := by
  funext m
  unfold shellClone shellCloneReport
  rcases argToId env dst with _ | dstId
  · rfl
  simp only [run_bind]
  rcases (onDev (env.io.openTarget dstId .writeCreate) m).1 with _ | ref
  · rfl
  rcases argToId env src with _ | srcId
  · rfl
  simp only [run_bind]
  generalize targetOpen env.io srcId .read _ = x
  rcases x with ⟨⟨_ | srcHandle, _ | srcSize⟩, m₁⟩
  · rfl
  · rfl
  · rfl
  · rfl

/-- A clone keeps the source package, and what it reports as cloned is in the destination. -/
structure CloneGood (env : SeparateEnv σ κ) (src dst : List UInt8) (m : Machine σ κ) : Prop where
  kept : ∀ srcId, argToId env.toEnv src = some srcId →
    PackageKept env.toStableEnv srcId m (shellClone env.toEnv src dst m).2
  copied : (shellCloneReport env.toEnv src dst m).1 = true → ∃ srcId dstId,
    argToId env.toEnv src = some srcId ∧ argToId env.toEnv dst = some dstId ∧
      ∀ a, a < env.packageEnd m srcId →
        env.content (shellCloneReport env.toEnv src dst m).2.dev dstId a =
          env.content m.dev srcId a

section Command

variable {env : SeparateEnv σ κ} {src dst : List UInt8} {srcId dstId : TargetId}
  {m : Machine σ κ}

/-- A clone that goes on from the check to `qbt_fw_clone`. -/
structure Cloning (env : SeparateEnv σ κ) (srcId dstId : TargetId) (m : Machine σ κ)
    (r : Bool × Machine σ κ) : Prop where
  package : PackageIn env.toEnv (env.content m.dev srcId)
  run : ∃ d s size m₀ m₁, d.target = dstId ∧ s.target = srcId ∧
    targetOpen env.io srcId .read m₀ = ((some s, some size), m₁) ∧
    Quiet env.toStableEnv m (fwCheck env.toEnv s size m₁).2 ∧
      let c := fwClone env.toEnv d s (u32 (env.packageEnd m srcId)) (fwCheck env.toEnv s size m₁).2
      r.1 = c.1 ∧ Quiet env.toStableEnv c.2 r.2

theorem shellCloneReport_cases (hsrc : argToId env.toEnv src = some srcId)
    (hdst : argToId env.toEnv dst = some dstId) :
    ((shellCloneReport env.toEnv src dst m).1 = false ∧
        Quiet env.toStableEnv m (shellCloneReport env.toEnv src dst m).2) ∨
      Cloning env srcId dstId m (shellCloneReport env.toEnv src dst m) := by
  have hopen : Quiet env.toStableEnv m (onDev (env.io.openTarget dstId .writeCreate) m).2 :=
    quiet_open dstId .writeCreate nofun m
  simp only [shellCloneReport, hdst, run_bind]
  rcases hrun : onDev (env.io.openTarget dstId .writeCreate) m with ⟨_ | ref, m₁⟩
  all_goals rw [hrun] at hopen
  · exact .inl ⟨rfl, hopen.trans (quiet_emit rfl m₁)⟩
  have hmark : Quiet env.toStableEnv m₁ (emit (.opened dstId true) m₁).2 := quiet_emit rfl m₁
  simp only [hsrc, run_bind]
  generalize (emit (.opened dstId true) m₁).2 = m₂ at hmark
  have hsource : Quiet env.toStableEnv m₂ (targetOpen env.io srcId .read m₂).2 :=
    quiet_targetOpen srcId .read nofun m₂
  have htarget := targetOpen_target env.io srcId .read m₂
  have hclose (h : Handle) (m' : Machine σ κ) :
      Quiet env.toStableEnv m' (targetClose env.io h m').2 := quiet_targetClose h m'
  rcases hrun₂ : targetOpen env.io srcId .read m₂ with ⟨⟨_ | s, _ | size⟩, m₃⟩
  all_goals
    rw [hrun₂] at hsource htarget
    have hbefore := (hopen.trans hmark).trans hsource
  · exact .inl ⟨rfl, hbefore.trans (hclose _ m₃)⟩
  · exact .inl ⟨rfl, hbefore.trans (hclose _ m₃)⟩
  · exact .inl ⟨rfl, hbefore.trans (hclose _ m₃)⟩
  have htarget : s.target = srcId := htarget s rfl
  have hchecked := quiet_fwCheck env.toStableEnv s size m₃
  have hfound := @offered_of_check _ _ env.toStableEnv m₃ srcId s size m htarget hbefore
  simp only [cloneOpened, run_bind]
  rcases hcheck : fwCheck env.toEnv s size m₃ with ⟨_ | _, m₄⟩
  all_goals rw [hcheck] at hchecked hfound
  · exact .inl ⟨rfl, ((hbefore.trans hchecked).trans (hclose _ _)).trans (hclose _ _)⟩
  obtain ⟨hpackage, hinfo⟩ := hfound rfl
  have hinfo : m₄.fwInfo = env.header m srcId := hinfo
  refine .inr ⟨hpackage, ⟨dstId, ref⟩, s, size, m₂, m₃, rfl, htarget, hrun₂, ?_, ?_⟩
  · rw [hcheck]
    exact hbefore.trans hchecked
  · simp only [hcheck, if_true, run_bind, run_gets, hinfo]
    exact ⟨rfl, (hclose _ _).trans (hclose _ _)⟩

/-- Names of two targets, or of one that holds no package, are cloned well. -/
theorem cloneGood_apart
    (haddr : ∀ id, argToId env.toEnv src = some id → env.Addressable m id)
    (hapart : ∀ id, argToId env.toEnv src = some id → argToId env.toEnv dst = some id →
      ¬PackageIn env.toEnv (env.content m.dev id)) : CloneGood env src dst m := by
  rcases hdst : argToId env.toEnv dst with _ | dstId
  · have hrun : shellCloneReport env.toEnv src dst m = (false, m) := by
      rw [shellCloneReport, hdst]
      rfl
    refine ⟨fun srcId _ => ?_, fun hok => ?_⟩
    · rw [shellClone_eq, run_bind, hrun]
      exact refl_of (KeepsBelow _ _ _) m
    · rw [hrun] at hok
      cases hok
  rcases hsrc : argToId env.toEnv src with _ | srcId
  · refine ⟨fun id hid => ?_, fun hok => ?_⟩
    · rw [hsrc] at hid
      cases hid
    · simp only [shellCloneReport, hdst, hsrc, run_bind] at hok
      generalize onDev (env.io.openTarget dstId .writeCreate) m = x at hok
      obtain ⟨_ | ref, m₁⟩ := x
      · cases hok
      · cases hok
  obtain ⟨hno, hquiet⟩ | ⟨hpackage, d, s, size, m₀, m₁, rfl, rfl, -, hquiet, hanswer, hlast⟩ :=
    @shellCloneReport_cases _ _ env src dst srcId dstId m hsrc hdst
  · refine ⟨fun id hid => ?_, fun hok => ?_⟩
    · rw [shellClone_eq, run_bind]
      exact (hquiet.bytes id).below _
    · rw [hno] at hok
      cases hok
  have hne : s.target ≠ d.target := by
    intro hsame
    exact hapart s.target hsrc (hsame ▸ hdst) hpackage
  have hend : env.packageEnd m s.target < 2 ^ 32 := by
    have hfits := haddr s.target hsrc
    unfold SeparateEnv.Addressable releaseSignAlignSize at hfits
    omega
  have hsize : u32 (env.packageEnd m s.target) = env.packageEnd m s.target := Nat.mod_eq_of_lt hend
  rw [hsize] at hanswer hlast
  have hcopies := fwClone_copies env hne hend (fwCheck env.toEnv s size m₁).2
  refine ⟨fun id hid => ?_, fun hok => ⟨s.target, d.target, hsrc, hdst, fun a ha => ?_⟩⟩
  · obtain rfl := Option.some.inj (hsrc.symm.trans hid)
    rw [shellClone_eq, run_bind]
    exact (trans_of (KeepsBytes env.toStableEnv s.target) (trans_of (KeepsBytes env.toStableEnv
      s.target) (hquiet.bytes _) hcopies.source) (hlast.bytes _)).below _
  · rw [hlast.1, hcopies.copied (hanswer ▸ hok) a ha, hquiet.1]

end Command

/-! ## One target for both names

On regions the destination is erased before the first byte of the source is read, and
these are the same bytes. -/

section Regions

variable {backend : TargetId → Backend} {env : Env FlashDev κ}

theorem program_read (r : Region) (off len : Nat) : r.program off (r.read off len).1 = r := by
  have hcells : (r.program off (r.read off len).1).cells = r.cells := by
    funext a
    by_cases hlow : a < off
    · exact overwrite_of_lt hlow
    by_cases hhigh : off + len ≤ a
    · exact overwrite_of_ge (by rwa [(r.read off len).2])
    · exact overwrite_readCells r.cells r.cells (by omega) (by omega)
  exact Region.ext rfl rfl hcells

theorem cloneRound_self {h : Handle} {size : Nat} (hsize : size < 2 ^ 32) {r : Region}
    (pos : Nat) (m : Machine FlashDev κ)
    (hI : (pos ≤ size ∧ (pos = 0 ∨ pos = size ∨ size < 2 ^ 31)) ∧ m.dev.power = .steady ∧
      m.dev.region h.target = r) :
    Ends (fun pos m => (pos ≤ size ∧ (pos = 0 ∨ pos = size ∨ size < 2 ^ 31)) ∧
        m.dev.power = .steady ∧ m.dev.region h.target = r) (fun pos => size - pos)
      (fun _ m => m.dev.region h.target = r) (size - pos)
      (cloneRound (regionEnv backend env) h h size pos m) := by
  obtain ⟨⟨hbound, hfirst⟩, hpower, hregion⟩ := hI
  unfold cloneRound
  by_cases hdone : size ≤ pos
  · rw [if_pos hdone]
    exact hregion
  rw [if_neg hdone]
  generalize hlen : sizeT (min bufSize (i32 (size - pos))) = n
  obtain ⟨hn, hle, hlast⟩ := crcReadLen_spec (by omega) hsize
    (hfirst.imp_right fun h => h.resolve_left (by omega)) hlen
  have hnext : u32 (pos + n) = pos + n := Nat.mod_eq_of_lt (by omega)
  simp only [hnext, run_bind]
  have hreadDev := (sameDev_admits backend env).reads h pos n trivial m
  rcases hread : ioRead (regionEnv backend env).io h pos n m with ⟨_ | data, m₁⟩
  all_goals
    rw [hread] at hreadDev
    have hreadDev : m₁.dev = m.dev := hreadDev
  · show m₁.dev.region h.target = r
    rw [hreadDev]
    exact hregion
  obtain ⟨hin, -, rfl⟩ := ioRead_inside hread
  have hend := hin.le hn
  have hfit : Fits m₁ h pos ((m.dev.region h.target).read pos n).1.length := by
    rw [Fits, hreadDev, ((m.dev.region h.target).read pos n).2]
    omega
  have hwrite : ioWrite (regionEnv backend env).io h pos
      ((m.dev.region h.target).read pos n).1 m₁ = _ :=
    ioWrite_steady (by rw [hreadDev]; exact hpower) hfit
  simp only [run_bind, hwrite]
  refine ⟨⟨⟨hle, .inr hlast⟩, ?_, ?_⟩, ?_⟩
  · rw [Machine.storing_power, hreadDev]
    exact hpower
  · rw [Machine.storing_same, hreadDev, program_read]
    exact hregion
  · show size - (pos + n) < size - pos
    omega

/-- A clone onto itself leaves the package erased. -/
theorem fwClone_self {h : Handle} {size : Nat} (hsize : size < 2 ^ 32) {m : Machine FlashDev κ}
    (hpower : m.dev.power = .steady) (hpos : 0 < size)
    (hfit : size ≤ (m.dev.region h.target).size) :
    (fwClone (regionEnv backend env) h h size m).2.dev.region h.target =
      (m.dev.region h.target).erase 0 size := by
  have herase : eraseWithFeed (regionEnv backend env).io h 0 size m = _ :=
    eraseWithFeed_steady hpower ⟨by omega, by omega⟩
  unfold fwClone
  simp only [run_bind, herase, if_true]
  generalize hm : m.storing h.target ((m.dev.region h.target).erase 0 size)
    [.erased h.target 0 size true] = m₁
  have hregion : m₁.dev.region h.target = (m.dev.region h.target).erase 0 size := by
    rw [← hm, Machine.storing_same]
  have hpower₁ : m₁.dev.power = .steady := by
    rw [← hm, Machine.storing_power]
    exact hpower
  obtain ⟨ok, m₂, hrun, hlast⟩ := iterate_rule
    (cloneRound_self hsize)
    (show _ ∧ _ ∧ _ from ⟨⟨Nat.zero_le _, .inl rfl⟩, hpower₁, hregion⟩) (Nat.lt_succ_self _)
  have hrun : iterate (cloneRound (regionEnv backend env) h h size) (size + 1) 0 m₁ =
    (some ok, m₂) := hrun
  rw [hrun]
  exact hlast

theorem magic_not_erased {cells : Nat → UInt8}
    (hcheck : fwInfoCheck env.crc (headerOf cells) = true) : cells 0 ≠ erasedByte := by
  have hmagic : strEq (headerOf cells).toBytes (ascii "RBL") = true :=
    (Bool.and_eq_true_iff.mp hcheck).1
  have htype : (headerOf cells).type.1 = [cells 0, cells 1, cells 2, cells 3] := rfl
  intro hzero
  obtain ⟨after, hafter⟩ := (headerOf cells).toBytes_eq
  rw [hafter, htype, hzero, strEq_iff] at hmagic
  simp [erasedByte, ascii] at hmagic

/-- The clone command, given `id` twice, accepts the package there. -/
def CloneAccepts (backend : TargetId → Backend) (env : Env FlashDev κ) (id : TargetId)
    (m : Machine FlashDev κ) : Prop :=
  (fwCheck (regionEnv backend env) ⟨id, 0⟩ (m.dev.region id).size
    (m.record [.opened id true, .opened id true])).1 = true

theorem shellCloneReport_self {src dst : List UInt8} {id : TargetId}
    (hsrc : argToId (regionEnv backend env) src = some id)
    (hdst : argToId (regionEnv backend env) dst = some id) (m : Machine FlashDev κ) :
    let r := shellCloneReport (regionEnv backend env) src dst m
    (¬CloneAccepts backend env id m ∧ r.1 = false ∧ r.2.dev = m.dev) ∨
      (CloneAccepts backend env id m ∧ ∃ m₁, m₁.dev = m.dev ∧
        let c := fwClone (regionEnv backend env) ⟨id, 0⟩ ⟨id, 0⟩
          (u32 (packageEnd m.dev.region id)) m₁
        r.1 = c.1 ∧ r.2.dev = c.2.dev) := by
  have haccepts : CloneAccepts backend env id m → _ := fwCheck_accepts (m.dev.region id).size
  dsimp only
  by_cases hsize : (m.dev.region id).size = 0
  · have hopen : (regionEnv backend env).io.openTarget id .writeCreate m.dev =
        (none, m.dev) := congrArg (·, m.dev) (if_pos hsize)
    have hrun : shellCloneReport (regionEnv backend env) src dst m =
        (false, m.record [.opened id false]) := by
      simp [shellCloneReport, hdst, hopen, Machine.record]
    rw [hrun]
    -- there is nothing to read a header from
    refine .inl ⟨fun hacc => ?_, rfl, rfl⟩
    have hin : packageEnd m.dev.region id ≤ (m.dev.region id).size := (haccepts hacc).inside
    rw [hsize] at hin
    exact absurd hin (Nat.not_le.mpr (Nat.add_pos_left (by decide) _))
  have hopen : (regionEnv backend env).io.openTarget id .writeCreate m.dev =
      (some 0, m.dev) := congrArg (·, m.dev) (if_neg hsize)
  have hio : (regionEnv backend env).io = regionIo backend := rfl
  unfold shellCloneReport
  simp only [hdst, run_bind, run_onDev, hopen, run_emit, hsrc]
  rw [hio, run_targetOpen, if_neg hsize]
  have hchecks : (⟨m.dev, m.mem, m.fwInfo, m.log ++ [.opened id true] ++ [.opened id true]⟩ :
      Machine FlashDev κ) = m.record [.opened id true, .opened id true] := by
    simp [Machine.record]
  dsimp only
  rw [hchecks]
  have hdev := on_fwCheck (sameDev_admits backend env) (h := ⟨id, 0⟩) trivial
    (m.dev.region id).size (m.record [.opened id true, .opened id true])
  unfold CloneAccepts at haccepts ⊢
  simp only [cloneOpened, run_bind]
  rcases hrun : fwCheck (regionEnv backend env) ⟨id, 0⟩ (m.dev.region id).size
    (m.record [.opened id true, .opened id true]) with ⟨_ | _, m₂⟩
  all_goals rw [hrun] at haccepts hdev
  · exact .inl ⟨Bool.false_ne_true, rfl, hdev⟩
  have hinfo : m₂.fwInfo = packageOf m.dev.region id := (haccepts rfl).info
  refine .inr ⟨rfl, m₂, hdev, ?_⟩
  simp only [if_true, run_bind, run_gets, hinfo]
  exact ⟨rfl, rfl⟩

theorem cloneGood_regions {src dst : List UInt8} {m : Machine FlashDev κ}
    (hpower : m.dev.power = .steady) (hunit : ∀ id, 0 < (m.dev.region id).unit)
    (haddr : ∀ id, argToId env src = some id → (regionSeparate backend env).Addressable m id) :
    CloneGood (regionSeparate backend env) src dst m ↔
      ∀ id, argToId env src = some id → argToId env dst = some id →
        ¬CloneAccepts backend env id m := by
  by_cases hsame : ∃ id, argToId env src = some id ∧ argToId env dst = some id
  swap
  · refine iff_of_true (cloneGood_apart haddr ?_) ?_
    · exact fun id hsrc hdst => absurd ⟨id, hsrc, hdst⟩ hsame
    · exact fun id hsrc hdst => absurd ⟨id, hsrc, hdst⟩ hsame
  obtain ⟨id, hsrc, hdst⟩ := hsame
  have hend : packageEnd m.dev.region id < 2 ^ 32 := by
    have hfits : packageEnd m.dev.region id + releaseSignAlignSize ≤ 2 ^ 32 := haddr id hsrc
    unfold releaseSignAlignSize at hfits
    omega
  obtain ⟨hrejects, hreport, hdev⟩ | ⟨haccepts, m₁, hdev₁, hreport, hdev⟩ :=
    @shellCloneReport_self _ backend env _ _ _ hsrc hdst m
  · refine iff_of_true ⟨fun id' hid => ?_, fun hok => ?_⟩ fun id' hid _ => ?_
    · rw [shellClone_eq, run_bind]
      exact fun a _ => congrArg (fun d : FlashDev => (d.region id').cells a) hdev
    · exact absurd (hreport.symm.trans hok) Bool.false_ne_true
    · obtain rfl := Option.some.inj (hsrc.symm.trans hid)
      exact hrejects
  refine iff_of_false (fun hgood => ?_) fun hnone => hnone id hsrc hdst haccepts
  have hacc := fwCheck_accepts _ haccepts
  have hpos : 0 < packageEnd m.dev.region id := Nat.add_pos_left (by decide) _
  rw [show u32 (packageEnd m.dev.region id) = packageEnd m.dev.region id from
    Nat.mod_eq_of_lt hend] at hdev
  have hself : (fwClone (regionEnv backend env) ⟨id, 0⟩ ⟨id, 0⟩
      (packageEnd m.dev.region id) m₁).2.dev.region id = _ :=
    fwClone_self hend (by rwa [hdev₁]) hpos (by rw [hdev₁]; exact hacc.inside)
  have hcovers : Covers (m.dev.region id).unit 0 (packageEnd m.dev.region id) 0 := by
    refine ⟨hpos, down_le 0 _, hpos.trans_le ?_⟩
    rw [Nat.zero_add]
    exact le_up (hunit id)
  have hzero : ((shellClone (regionEnv backend env) src dst m).2.dev.region id).cells 0 =
      (m.dev.region id).cells 0 := hgood.kept id hsrc 0 hpos
  rw [shellClone_eq, run_bind] at hzero
  have hzero : ((shellCloneReport (regionEnv backend env) src dst m).2.dev.region id).cells 0 =
      (m.dev.region id).cells 0 := hzero
  rw [hdev, hself, hdev₁, Region.erase_cells_of_covers hcovers] at hzero
  exact magic_not_erased hacc.header hzero.symm

end Regions

/-! ## Files

Opening the source replaces the destination's descriptor by a read-only one, and the
erase through it fails. -/

section Files

open Posix FileSys

variable {env : Env FsStorage κ} {d d' : FsDev} {id : TargetId}

/-- The descriptor of the target is for reading only. -/
def FsDev.ReadOnly (d : FsDev) (id : TargetId) : Prop :=
  ∃ fd e, d.slots id = some fd ∧ d.sys.desc fd = some e ∧ e.writable = false

theorem FsDev.ReadOnly.kept (h : d.ReadOnly id) (hkeeps : KeepsTable d d') : d'.ReadOnly id := by
  obtain ⟨fd, e, hslot, hdesc, he⟩ := h
  exact ⟨fd, e, by rw [hkeeps.slots, hslot], by rw [hkeeps.sys.desc, hdesc], he⟩

theorem FsDev.ReadOnly.signRead (h : d.ReadOnly id) (hdl : Handle) (info : FwInfo) :
    (fsSignRead hdl info d).2.ReadOnly id := by
  unfold fsSignRead
  obtain hopen | ⟨fd₀, sys, hopen, hfree, hnew, -⟩ :=
    openFile_cases d.sys .sign false false false
  · rw [hopen]
    exact h
  rw [hopen]
  obtain ⟨fd, e, hslot, hdesc, he⟩ := h
  have hne : fd ≠ fd₀ := by
    rintro rfl
    rw [hfree] at hdesc
    cases hdesc
  refine ⟨fd, e, hslot, ?_, he⟩
  simp only [FileSys.close, hnew, Function.update_self, Function.update_of_ne hne, hdesc]

theorem readOnly_fsOpen {ref : Nat} (hopen : (fsOpen id .read d).1 = some ref) :
    (fsOpen id .read d).2.ReadOnly id := by
  unfold fsOpen at hopen ⊢
  obtain hnone | ⟨fd, sys, hsys, -, hdesc, -⟩ :=
    openFile_cases d.sys (.target id) OpenFlags.read.writable OpenFlags.read.create
      OpenFlags.read.trunc
  · rw [hnone] at hopen
    cases hopen
  · rw [hsys]
    refine ⟨fd, ⟨.target id, false, d.sys.opens⟩, Function.update_self .., ?_, rfl⟩
    exact (congrFun hdesc fd).trans (Function.update_self ..)

theorem fsErase_readOnly {h : Handle} (hd : d.ReadOnly h.target) (cfg : HpatchConfig)
    (off len : Nat) : fsErase cfg h off len d = (false, d) := by
  obtain ⟨fd, e, hslot, hdesc, he⟩ := hd
  simp [fsErase, hslot, ftruncate, hdesc, he]

def StaysReadOnly (id : TargetId) (m m' : Machine FsStorage κ) : Prop :=
  m.dev.1.ReadOnly id → m'.dev.1.ReadOnly id

instance : IsPreorder (Machine FsStorage κ) (StaysReadOnly id) where
  refl _ h := h
  trans _ _ _ h h' := h' ∘ h

theorem readOnly_admits (env : Env FsStorage κ) (id : TargetId) :
    AdmitsEnvOn (filesSeparate env).toEnv (fun _ => True) (fun _ => False)
      (StaysReadOnly id) where
  reads := fun h off len _ m hd => hd.kept (keepsTable_read h off len m.dev.1)
  writes := fun _ _ _ hno => hno.elim
  erases := fun _ _ _ hno => hno.elim
  sizes := fun h _ m hd => by
    show (fsSize env.hpatch.cfg h m.dev.1).2.ReadOnly id
    rwa [fsSize_same]
  aligns := fun _ _ _ hd => hd
  mem := fun _ _ hd => hd
  emits := fun _ _ _ hd => hd
  info := fun _ _ hd => hd
  signReads := fun h info _ m hd => hd.signRead h info
  signWrites := fun _ _ hno => hno.elim

theorem readOnly_targetOpen {h : Handle} {size : Nat} {m m' : Machine FsStorage κ}
    (hopen : targetOpen (filesSeparate env).io id .read m = ((some h, some size), m')) :
    m'.dev.1.ReadOnly id := by
  have hread := @readOnly_fsOpen m.dev.1 id
  have hsize (h : Handle) (d : FsStorage) : ((filesSeparate env).io.size h d).2.1 = d.1 :=
    fsSize_same env.hpatch.cfg h d.1
  rw [show fsOpen id .read m.dev.1 = (((filesSeparate env).io.openTarget id .read m.dev).1,
    ((filesSeparate env).io.openTarget id .read m.dev).2.1) from rfl] at hread
  simp only [targetOpen, run_bind, run_onDev] at hopen
  rcases hrun : (filesSeparate env).io.openTarget id .read m.dev with ⟨_ | ref, d₁⟩
  all_goals rw [hrun] at hopen hread
  · cases hopen
  have hread : d₁.1.ReadOnly id := hread rfl
  simp only [run_bind, run_emit, run_onDev] at hopen
  have hkept := hsize ⟨id, ref⟩ d₁
  rcases hlen : (filesSeparate env).io.size ⟨id, ref⟩ d₁ with ⟨_ | len, d₂⟩
  all_goals rw [hlen] at hopen hkept
  · cases hopen
  obtain ⟨-, rfl⟩ := Prod.mk.inj hopen
  show d₂.1.ReadOnly id
  rw [hkept]
  exact hread

/-- A clone through a descriptor that is for reading only fails at the erase. -/
theorem fwClone_readOnly (env : Env FsStorage κ) {dst : Handle} (src : Handle) (size : Nat)
    {m : Machine FsStorage κ}
    (hd : m.dev.1.ReadOnly dst.target) :
    ∃ m', fwClone (filesSeparate env).toEnv dst src size m = (false, m') ∧ m'.dev = m.dev := by
  have hrun := fsErase_readOnly hd env.hpatch.cfg 0 size
  have hanswer : ((filesSeparate env).io.erase dst 0 size m.dev).1 = false :=
    congrArg Prod.fst hrun
  have hdev : ((filesSeparate env).io.erase dst 0 size m.dev).2 = m.dev :=
    Subtype.ext (congrArg Prod.snd hrun)
  refine ⟨(eraseWithFeed (filesSeparate env).io dst 0 size m).2, ?_, hdev⟩
  have herase : (eraseWithFeed (filesSeparate env).io dst 0 size m).1 = false := hanswer
  unfold fwClone
  rw [run_bind, herase]
  rfl

theorem cloneGood_files {src dst : List UInt8} {m : Machine FsStorage κ}
    (haddr : ∀ id, argToId env src = some id → (filesSeparate env).Addressable m id) :
    CloneGood (filesSeparate env) src dst m := by
  by_cases hsame : ∃ id, argToId env src = some id ∧ argToId env dst = some id
  swap
  · exact cloneGood_apart haddr fun id hsrc hdst => absurd ⟨id, hsrc, hdst⟩ hsame
  obtain ⟨id, hsrc, hdst⟩ := hsame
  obtain ⟨hno, hkept⟩ : (shellCloneReport (filesSeparate env).toEnv src dst m).1 = false ∧
      ∀ id', KeepsBytes (filesSeparate env).toStableEnv id' m
        (shellCloneReport (filesSeparate env).toEnv src dst m).2 := by
    obtain ⟨hno, hquiet⟩ | ⟨-, d, s, size, m₀, m₁, rfl, hsrcId, hopen, hbefore, hanswer, hlast⟩ :=
      @shellCloneReport_cases _ _ (filesSeparate env) _ _ _ _ m hsrc hdst
    · exact ⟨hno, hquiet.bytes⟩
    have hd := on_fwCheck (readOnly_admits env d.target) (h := s) trivial size m₁
      (readOnly_targetOpen hopen)
    obtain ⟨m', hclone, hdev⟩ := fwClone_readOnly env s
      (u32 ((filesSeparate env).packageEnd m d.target)) hd
    rw [hclone] at hanswer hlast
    refine ⟨hanswer, fun id' => ?_⟩
    have hclone : KeepsBytes (filesSeparate env).toStableEnv id'
        (fwCheck (filesSeparate env).toEnv s size m₁).2 m' :=
      congrArg (fun d : FsStorage => d.1.cells id') hdev
    exact trans_of (KeepsBytes (filesSeparate env).toStableEnv id')
      (trans_of (KeepsBytes (filesSeparate env).toStableEnv id') (hbefore.bytes id') hclone)
      (hlast.bytes id')
  refine ⟨fun id' _ => ?_, fun hok => absurd (hno.symm.trans hok) Bool.false_ne_true⟩
  rw [shellClone_eq, run_bind]
  exact (hkept id').below _

end Files

end Qboot
