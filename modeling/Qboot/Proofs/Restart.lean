import Qboot.Proofs.BootPath
import Qboot.Proofs.DeviceSteps
import Qboot.Proofs.RegionCrc
import Qboot.Proofs.SameSteps
/-!
# Starting a release again

A release that power cuts have interrupted any number of times is run once more.
What the cuts leave behind is an invariant of the storage: the package is there, the
destination differs from its first content only where the undisturbed release writes,
and a release sign that the cuts have brought along stands for a finished update.
-/

namespace Qboot

open Library Bytes Flash Prog Machine Loop

variable {κ α : Type}

/-! ## Three parts of a release -/

/-- Where `qbt_release_from_part` stands before it looks at the release sign. -/
inductive Checked where
  | unopened
  | refused (src : Handle)
  | accepted (src : Handle)

/-- Where it stands when only closing and the sign are left. -/
inductive Applied where
  | unopened
  | decided (src : Handle) (rst : Bool)
  | failed (src dst : Handle)
  | updated (src dst : Handle)

def Applied.answer : Applied → Bool
  | .unopened => false
  | .decided _ rst => rst
  | .failed .. => false
  | .updated .. => true

section Parts

variable {σ : Type} (env : Env σ κ) (srcId : TargetId)

def checkPackage : Prog (Machine σ κ) Checked := do
  emit (.releaseStart srcId true)
  match ← targetOpen env.io srcId .read with
  | (some src, some srcSize) =>
      if ← fwCheck env src srcSize then
        if ← productCodeOk env then pure (.accepted src) else pure (.refused src)
      else pure (.refused src)
  | _ => pure .unopened

def updateNamed (src : Handle) (info : FwInfo) : Prog (Machine σ κ) Applied :=
  match nameToId env.hpatch.cfg.useStorageSwap info.fromPartName with
  | none => pure (.decided src false)
  | some dstId => do
      match ← targetOpen env.io dstId .writeCreate with
      | (some dst, some dstSize) =>
          if ← fwUpdate env dst dstSize src then pure (.updated src dst)
          else pure (.failed src dst)
      | (some dst, none) =>
          targetClose env.io dst
          pure (.decided src false)
      | (none, _) => pure (.decided src false)

/-- Apply a package that has been checked, unless it carries the sign. -/
def applyPackage : Checked → Prog (Machine σ κ) Applied
  | .unopened => pure .unopened
  | .refused src => pure (.decided src false)
  | .accepted src => do
      if ← releaseSignCheck env src then pure (.decided src true)
      else
        let info ← Prog.gets (·.fwInfo)
        updateNamed env src info

def answerWith (rst : Bool) : Prog (Machine σ κ) Bool := do
  emit (.released srcId true rst)
  pure rst

/-- Write the sign that is due, and close what is open. -/
def closeRelease : Applied → Prog (Machine σ κ) Bool
  | .unopened => answerWith srcId false
  | .decided src rst => do
      targetClose env.io src
      answerWith srcId rst
  | .failed src dst => do
      targetClose env.io dst
      targetClose env.io src
      answerWith srcId false
  | .updated src dst => do
      if !(← releaseSignCheck env src) then
        let _ ← releaseSignWrite env src
      targetClose env.io dst
      targetClose env.io src
      answerWith srcId true

theorem releaseFromPart_eq : releaseFromPart env srcId true =
    checkPackage env srcId >>= applyPackage env >>= closeRelease env srcId := by
  funext m
  simp only [releaseFromPart, checkPackage, run_bind]
  rcases targetOpen env.io srcId .read (emit (.releaseStart srcId true) m).2 with
    ⟨⟨_ | src, _ | srcSize⟩, m₁⟩
  · rfl
  · rfl
  · rfl
  simp only [releaseOpened, run_bind]
  rcases fwCheck env src srcSize m₁ with ⟨_ | _, m₂⟩
  · rfl
  simp only [if_true, run_bind]
  rcases productCodeOk env m₂ with ⟨_ | _, m₃⟩
  · rfl
  simp only [if_true, run_bind, run_pure, applyPackage]
  rcases releaseSignCheck env src m₃ with ⟨_ | _, m₄⟩
  swap
  · rfl
  simp only [Bool.false_eq_true, if_false, run_bind, run_gets, updateNamed]
  rcases nameToId env.hpatch.cfg.useStorageSwap m₄.fwInfo.fromPartName with _ | dstId
  · rfl
  simp only [run_bind]
  rcases targetOpen env.io dstId .writeCreate m₄ with ⟨⟨_ | dst, _ | dstSize⟩, m₅⟩
  · rfl
  · rfl
  · rfl
  simp only [updateAndSign, run_bind]
  rcases fwUpdate env dst dstSize src m₅ with ⟨_ | _, m₆⟩
  · rfl
  simp only [if_true, run_bind, run_pure, closeRelease]
  rcases releaseSignCheck env src m₆ with ⟨_ | _, m₇⟩
  · simp only [Bool.not_false, if_true, run_bind, run_pure, answerWith]
  · simp only [Bool.not_true, Bool.false_eq_true, if_false, run_bind, run_pure, answerWith]

end Parts

/-! ## The parts side by side -/

variable {backend : TargetId → Backend} {env : Env FlashDev κ}

theorem run_targetOpen (backend : TargetId → Backend) (id : TargetId) (flags : OpenFlags) (m : Machine FlashDev κ) :
    targetOpen (regionIo backend) id flags m = if (m.dev.region id).size = 0
      then ((none, none), { m with log := m.log ++ [.opened id false] })
      else ((some ⟨id, 0⟩, some (m.dev.region id).size),
        { m with log := m.log ++ [.opened id true] }) := by
  by_cases hsize : (m.dev.region id).size = 0
  · have hopen : (regionIo backend).openTarget id flags m.dev = (none, m.dev) :=
      congrArg (·, m.dev) (if_pos hsize)
    simp [targetOpen, hopen, hsize]
  · have hopen : (regionIo backend).openTarget id flags m.dev = (some 0, m.dev) :=
      congrArg (·, m.dev) (if_neg hsize)
    have hlen : (regionIo backend).size ⟨id, 0⟩ m.dev =
      (some (m.dev.region id).size, m.dev) := rfl
    simp [targetOpen, hopen, hlen, hsize]

/-- The release sign of package `info` that a region holds. -/
def signIn (b : Backend) (info : FwInfo) (reg : Region) : Bool :=
  decide (b.InRange reg.size (signPos info) 4) &&
    leNat (reg.read (signPos info) 4).1 == releaseSignWord

theorem run_releaseSignCheck (backend : TargetId → Backend) (env : Env FlashDev κ)
    (h : Handle) {m : Machine FlashDev κ}
    (hon : m.dev.power ≠ .off) : releaseSignCheck (regionEnv backend env) h m =
      (signIn (backend h.target) m.fwInfo (m.dev.region h.target), m) := by
  have hread : ((regionParser backend).signRead h m.fwInfo m.dev).1.getD false =
      signIn (backend h.target) m.fwInfo (m.dev.region h.target) := by
    by_cases hin : (backend h.target).InRange (m.dev.region h.target).size
      (signPos m.fwInfo) 4 <;> simp [regionParser, regionIo, signIn, hin, hon]
  exact Prod.ext hread rfl

section Idling

variable (backend env)

theorem idles_fwUpdate (dst : Handle) (dstSize : Nat) (src : Handle) :
    Within Idles (fwUpdate (regionEnv backend env) dst dstSize src) := by
  have hidles := idles_admits backend env
  refine (Within.gets _).bind fun info => ?_
  refine (within_fwRelease hidles dst dstSize src info).bind fun released => ?_
  have hanswer (ok : Bool) : Within Idles (do
      emit (.updated dst.target ok)
      pure ok : Prog (Machine FlashDev κ) Bool) :=
    (idles_emit _).bind fun _ => .pure _
  exact .ite ((within_destPartVerify hidles dst dstSize).bind hanswer) (hanswer false)

theorem idles_updateNamed (src : Handle) (info : FwInfo) :
    Within Idles (updateNamed (regionEnv backend env) src info) := by
  have hidles := idles_admits backend env
  unfold updateNamed
  split
  · exact .pure _
  · refine (hidles.opens _ _).bind fun o => ?_
    rcases o with ⟨_ | dst, _ | dstSize⟩
    · exact .pure _
    · exact .pure _
    · exact (hidles.closes _).bind fun _ => .pure _
    · exact (idles_fwUpdate backend env dst dstSize src).bind fun _ =>
        .ite (.pure _) (.pure _)

theorem idles_checkPackage (srcId : TargetId) :
    Within Idles (checkPackage (regionEnv backend env) srcId) := by
  refine (idles_emit _).bind fun _ => (idles_targetOpen backend srcId .read).bind fun o => ?_
  rcases o with ⟨_ | src, _ | srcSize⟩
  · exact .pure _
  · exact .pure _
  · exact .pure _
  refine (within_fwCheck (idles_admits backend env) src srcSize).bind fun _ => .ite ?_ (.pure _)
  exact ((Within.gets _).bind fun _ => .pure _).bind fun _ => .ite (.pure _) (.pure _)

theorem idles_applyPackage (k : Checked) :
    Within Idles (applyPackage (regionEnv backend env) k) := by
  rcases k with _ | src | src
  · exact .pure _
  · exact .pure _
  · refine (within_releaseSignCheck (idles_admits backend env) src).bind fun _ => ?_
    exact .ite (.pure _) ((Within.gets _).bind (idles_updateNamed backend env src))

theorem idles_answerWith (srcId : TargetId) (rst : Bool) :
    Within Idles (answerWith srcId rst : Prog (Machine FlashDev κ) Bool) :=
  (idles_emit _).bind fun _ => .pure _

theorem idles_closeRelease (srcId : TargetId) (k : Applied) :
    Within Idles (closeRelease (regionEnv backend env) srcId k) := by
  have hidles := idles_admits backend env
  have hclose (h : Handle) (rst : Bool) : Within Idles (do
      targetClose (regionIo backend) h
      answerWith srcId rst : Prog (Machine FlashDev κ) Bool) :=
    (idles_targetClose backend h).bind fun _ => idles_answerWith srcId rst
  rcases k with _ | ⟨src, rst⟩ | ⟨src, dst⟩ | ⟨src, dst⟩
  · exact idles_answerWith srcId false
  · exact hclose src rst
  · exact (idles_targetClose backend dst).bind fun _ => hclose src false
  · refine (within_releaseSignCheck hidles src).bind fun _ => ?_
    have hend : Within Idles (do
        targetClose (regionIo backend) dst
        targetClose (regionIo backend) src
        answerWith srcId true : Prog (Machine FlashDev κ) Bool) :=
      (idles_targetClose backend dst).bind fun _ => hclose src true
    exact .ite ((within_releaseSignWrite hidles src).bind fun _ => hend) hend

end Idling

section Parts

variable {srcId dst : TargetId} {r R : TargetId → Region} {c : Prop} {info : FwInfo}
  {T : Nat → Prop}

theorem follows_targetOpen (id : TargetId) (flags : OpenFlags) :
    Follows dst r R (Has dst R c info T) (targetOpen (regionIo backend) id flags :
      Prog (Machine FlashDev κ) _) fun o =>
        Has dst R (c ∧ ∀ h, o.1 = some h → h.target = id) info T := by
  have hrun (m : Machine FlashDev κ) := run_targetOpen backend id flags m
  refine follows_quiet (idles_targetOpen backend id flags) (fun m => ?_) (fun m => ?_)
    fun m m' hA hm => ?_
  · rw [hrun]
    split <;> rfl
  · rw [hrun]
    split <;> rw [opsOn_append] <;> exact List.append_nil _
  · rw [hrun, hrun, hA.size id]
    split
    · refine ⟨rfl, hA.mem, hA.info, Has.grow (m := m') (hm.imp fun hc => ⟨hc, ?_⟩) rfl rfl⟩
      exact fun h hno => nomatch hno
    · refine ⟨rfl, hA.mem, hA.info, Has.grow (m := m') (hm.imp fun hc => ⟨hc, ?_⟩) rfl rfl⟩
      rintro h ⟨⟩
      rfl

abbrev packageOf (R : TargetId → Region) (srcId : TargetId) : FwInfo :=
  headerOf (R srcId).cells

abbrev packageEnd (R : TargetId → Region) (srcId : TargetId) : Nat :=
  srcReadPos + (packageOf R srcId).pkgSize.toNat

/-- `srcId` holds a full image for another target, `dst`. -/
structure FullImage (env : Env FlashDev κ) (srcId dst : TargetId) (R : TargetId → Region) :
    Prop where
  ne : srcId ≠ dst
  named : nameToId env.hpatch.cfg.useStorageSwap (packageOf R srcId).fromPartName = some dst
  full : patches env (packageOf R srcId) = false
  unit : 0 < (R dst).unit
  small : (packageOf R srcId).pkgSize.toNat < 2 ^ 31

/-- What is known of an accepted package in the second boot. -/
def CheckedBy (srcId dst : TargetId) (R : TargetId → Region) (T : Nat → Prop) :
    Checked → Machine FlashDev κ → Prop
  | .accepted src, m => Has dst R (src.target = srcId) (packageOf R srcId) T m
  | _, _ => True

theorem follows_checkPackage (hne : srcId ≠ dst)
    (hsmall : (packageOf R srcId).pkgSize.toNat < 2 ^ 31)
    (hsame : ∀ a, a < packageEnd R srcId → (r srcId).cells a = (R srcId).cells a) :
    Follows dst r R (Has dst R True info T) (checkPackage (regionEnv backend env) srcId)
      (CheckedBy srcId dst R T) := by
  have hidles := idles_admits backend env
  have hproduct : Within Idles (productCodeOk (regionEnv backend env)) :=
    (Within.gets _).bind fun _ => .pure _
  refine (follows_emit rfl).bind fun _ => (follows_targetOpen srcId .read).bind fun o => ?_
  rcases o with ⟨_ | src, _ | srcSize⟩
  · exact .pure fun m hm => trivial
  · exact .pure fun m hm => trivial
  · exact .pure fun m hm => trivial
  refine follows_assume (c := src.target = srcId) ?_ (fun m hm => hm.cond.2 src rfl) ?_
  · refine (within_fwCheck hidles src srcSize).bind fun _ => .ite ?_ (.pure _)
    exact hproduct.bind fun _ => .ite (.pure _) (.pure _)
  rintro rfl
  refine (follows_fwCheck ⟨hne, hsame⟩ (Nat.le_refl _) hsmall srcSize).bind
    fun ok => .ite (fun hok => ?_) fun _ => .pure fun m hm => trivial
  have hcode : Follows dst r R
      (Has dst R (True ∧ ∀ h, some src = some h → h.target = src.target)
        (packageOf R src.target) T) (productCodeOk (regionEnv backend env)) fun _ =>
        Has dst R (src.target = src.target) (packageOf R src.target) T :=
    follows_info.bind fun _ => .pure fun m hm => hm.imp fun _ => rfl
  refine (hcode.pre fun m hm => hm hok).bind fun ok =>
    .ite (fun _ => .pure fun m hm => hm) fun _ => .pure fun m hm => trivial

/-- What is known of an update in the second boot: the package came without a sign. -/
def AppliedBy (backend : TargetId → Backend) (srcId dst : TargetId)
    (R : TargetId → Region) (T : Nat → Prop) : Applied → Machine FlashDev κ → Prop
  | .updated src _, m => Has dst R (src.target = srcId ∧
      signIn (backend srcId) (packageOf R srcId) (R srcId) = false) (packageOf R srcId) T m
  | _, _ => True

theorem follows_updateNamed (himage : FullImage env srcId dst R)
    (hsame : ∀ a, a < packageEnd R srcId → (r srcId).cells a = (R srcId).cells a)
    {src : Handle} (hsrc : src.target = srcId) :
    Follows dst r R (Has dst R c (packageOf R srcId) T)
      (updateNamed (regionEnv backend env) src (packageOf R srcId)) fun k m =>
        match k with
        | .updated src' _ => src' = src ∧ Has dst R c (packageOf R srcId) T m
        | _ => True := by
  have hnamed : nameToId (regionEnv backend env).hpatch.cfg.useStorageSwap
    (packageOf R srcId).fromPartName = some dst := himage.named
  simp only [updateNamed, hnamed]
  refine (follows_targetOpen dst .writeCreate).bind fun o => ?_
  rcases o with ⟨_ | h, _ | dstSize⟩
  · exact .pure fun m hm => trivial
  · exact .pure fun m hm => trivial
  · have hclose : Follows dst r R
        (Has dst R (c ∧ ∀ h', some h = some h' → h'.target = dst) (packageOf R srcId) T)
        (targetClose (regionIo backend) h : Prog (Machine FlashDev κ) Unit)
        fun _ _ => True :=
      follows_quiet (idles_targetClose backend h) (fun _ => rfl) (fun m =>
        (opsOn_append ..).trans (List.append_nil _)) fun m m' hA hm =>
          ⟨rfl, hA.mem, hA.info, trivial⟩
    exact hclose.bind fun _ => .pure fun m hm => trivial
  refine follows_assume (c := h.target = dst) ?_ (fun m hm => hm.cond.2 h rfl) fun htarget => ?_
  · exact (idles_fwUpdate backend env h dstSize src).bind fun _ => .ite (.pure _) (.pure _)
  refine (follows_fwUpdate ⟨hsrc ▸ himage.ne, hsrc ▸ hsame⟩ (Nat.le_refl _) himage.small
    htarget himage.unit himage.full dstSize).bind fun ok =>
      .ite (fun hok => .pure fun m hm => ⟨rfl, (hm hok).imp fun hc => hc.1⟩) fun _ =>
        .pure fun m hm => trivial

theorem follows_applyPackage (himage : FullImage env srcId dst R)
    (hsame : ∀ a, a < packageEnd R srcId → (r srcId).cells a = (R srcId).cells a)
    (hsign : signIn (backend srcId) (packageOf R srcId) (r srcId) =
      signIn (backend srcId) (packageOf R srcId) (R srcId)) (k : Checked) :
    Follows dst r R (CheckedBy srcId dst R T k) (applyPackage (regionEnv backend env) k)
      (AppliedBy backend srcId dst R T) := by
  have hidles := idles_admits backend env
  rcases k with _ | src | src
  · exact .pure fun m hm => trivial
  · exact .pure fun m hm => trivial
  have hcheck : Follows dst r R (CheckedBy srcId dst R T (.accepted src))
      (releaseSignCheck (regionEnv backend env) src : Prog (Machine FlashDev κ) Bool)
      fun b => Has dst R (src.target = srcId ∧
        b = signIn (backend srcId) (packageOf R srcId) (R srcId)) (packageOf R srcId) T := by
    refine follows_quiet (within_releaseSignCheck hidles src) (fun _ => rfl) (fun _ => rfl)
      fun m m' hA hm => ?_
    have hon' : m'.dev.power ≠ .off := by simp [hA.steady]
    obtain ⟨hr, hR⟩ := hA.others src.target (hm.cond ▸ himage.ne)
    rw [run_releaseSignCheck backend env src hA.on, run_releaseSignCheck backend env src hon', hr, hR]
    have hsrc : src.target = srcId := hm.cond
    refine ⟨?_, hA.mem, hA.info, hm.imp fun _ => ⟨hsrc, ?_⟩⟩
    · rw [hA.info, hm.info, hsrc]
      exact hsign
    · rw [hm.info, hsrc]
  refine hcheck.bind fun b => .ite (fun _ => .pure fun m hm => trivial) fun hb => ?_
  refine follows_info.bind fun i => ?_
  refine follows_assume (c := i = packageOf R srcId ∧ src.target = srcId ∧
    b = signIn (backend srcId) (packageOf R srcId) (R srcId)) ?_
    (fun m hm => ⟨hm.cond.2, hm.cond.1⟩) ?_
  · exact idles_updateNamed backend env src i
  rintro ⟨rfl, hsrc, hsigned⟩
  refine (follows_updateNamed himage hsame hsrc).post fun k m hm => ?_
  cases k with
  | updated src' d =>
      obtain ⟨rfl, hm⟩ := hm
      exact hm.imp fun hc => ⟨hc.1.1, by rw [← hsigned]; simpa using hb⟩
  | _ => trivial

end Parts

/-! ## Closing -/

theorem performIn_outside (id : TargetId) (inRange : Nat → Prop) [DecidablePred inRange]
    {op : Op} {apply : Region → Region} (heffect : OpEffect op apply) (d : FlashDev) :
    (∀ id', id' ≠ id → (performIn id inRange op apply d).2.region id' = d.region id') ∧
      ∀ a, ¬(op.Erases (d.region id).unit a ∨ op.Programs a) →
        ((performIn id inRange op apply d).2.region id).cells a = (d.region id).cells a := by
  have hset (r : Region) : ∀ id', id' ≠ id → (d.setRegion id r).region id' = d.region id' :=
    fun id' hid => FlashDev.setRegion_other d r hid
  have hsame (r : Region) : (d.setRegion id r).region id = r := FlashDev.setRegion_same d id r
  unfold performIn
  split
  swap
  · exact ⟨fun _ _ => rfl, fun _ _ => rfl⟩
  by_cases hoff : d.power = .off
  · simp [FlashDev.perform, hoff]
  obtain ⟨p, -, hperform⟩ | hperform := perform_cases hoff id op (apply (d.region id))
  · rw [hperform]
    refine ⟨hset _, fun a ha => ?_⟩
    show ((d.setRegion id _).region id).cells a = _
    rw [hsame]
    exact heffect.outside _ a ha
  · rw [hperform]
    refine ⟨hset _, fun a ha => ?_⟩
    show ((d.setRegion id _).region id).cells a = _
    rw [hsame]
    exact if_neg ha

theorem closeRelease_answer {σ : Type} (env : Env σ κ) (srcId : TargetId) (k : Applied)
    (m : Machine σ κ) : (closeRelease env srcId k m).1 = k.answer := by
  rcases k with _ | ⟨src, rst⟩ | ⟨src, dst⟩ | ⟨src, dst⟩
  · rfl
  · rfl
  · rfl
  · simp only [closeRelease, run_bind]
    rcases releaseSignCheck env src m with ⟨_ | _, m₁⟩ <;> rfl

theorem closeRelease_dev (backend : TargetId → Backend) (env : Env FlashDev κ)
    (srcId : TargetId) (k : Applied) (m : Machine FlashDev κ) :
    (closeRelease (regionEnv backend env) srcId k m).2.dev = m.dev ∨
      ∃ src dst, k = .updated src dst ∧
        (closeRelease (regionEnv backend env) srcId k m).2.dev =
          ((regionParser backend).signWrite src m.fwInfo m.dev).2 := by
  rcases k with _ | ⟨src, rst⟩ | ⟨src, dst⟩ | ⟨src, dst⟩
  · exact .inl rfl
  · exact .inl rfl
  · exact .inl rfl
  · have hcheck : (releaseSignCheck (regionEnv backend env) src m).2 = m := rfl
    simp only [closeRelease, run_bind, hcheck]
    rcases (releaseSignCheck (regionEnv backend env) src m).1 with _ | _
    · exact .inr ⟨src, dst, rfl, rfl⟩
    · exact .inl rfl

theorem closeRelease_outside (backend : TargetId → Backend) (env : Env FlashDev κ)
    {srcId : TargetId} {k : Applied} {m : Machine FlashDev κ} (info : FwInfo)
    (hk : ∀ src dst, k = .updated src dst → src.target = srcId ∧ m.fwInfo = info) :
    (∀ id, id ≠ srcId →
      (closeRelease (regionEnv backend env) srcId k m).2.dev.region id = m.dev.region id) ∧
    ∀ a, ¬(signPos info ≤ a ∧ a < signPos info + 4) →
      ((closeRelease (regionEnv backend env) srcId k m).2.dev.region srcId).cells a =
        (m.dev.region srcId).cells a := by
  obtain hdev | ⟨src, dst, hupdated, hdev⟩ := closeRelease_dev backend env srcId k m
  · rw [hdev]
    exact ⟨fun _ _ => rfl, fun _ _ => rfl⟩
  obtain ⟨rfl, rfl⟩ := hk src dst hupdated
  have hwrite := performIn_outside src.target
    (fun size => (backend src.target).InRange size (signPos m.fwInfo) 4)
    (opEffect_program (signPos m.fwInfo) (leBytes 4 releaseSignWord)) m.dev
  rw [hdev]
  refine ⟨hwrite.1, fun a ha => hwrite.2 a ?_⟩
  rintro (hno | hin)
  · exact hno
  · exact ha hin

/-! ## Cut boots -/

/-- A power cut in a boot: after so many operations, leaving `torn` in the range of
the operation it hits. -/
structure Cut where
  ops : Nat
  torn : Nat → UInt8

/-- A boot on what the storage holds. -/
def bootMachine (region : TargetId → Region) (power : Power) (torn : Nat → UInt8)
    (mem : κ) (info : FwInfo) : Machine FlashDev κ :=
  ⟨⟨region, power, torn⟩, mem, info, []⟩

section Cuts

variable (backend : TargetId → Backend) (env : Env FlashDev κ) (srcId : TargetId) (mem : κ)
  (info : FwInfo)

/-- What a boot with a power cut leaves. -/
def afterCut (region : TargetId → Region) (cut : Cut) : TargetId → Region :=
  (releaseFromPart (regionEnv backend env) srcId true
    (bootMachine region (.cutAfter cut.ops) cut.torn mem info)).2.dev.region

/-- What a sequence of boots with power cuts leaves. -/
def afterCuts (region : TargetId → Region) (cuts : List Cut) : TargetId → Region :=
  cuts.foldl (afterCut backend env srcId mem info) region

/-- An uninterrupted boot. -/
def steadyRelease (region : TargetId → Region) : Bool × Machine FlashDev κ :=
  releaseFromPart (regionEnv backend env) srcId true
    (bootMachine region .steady (fun _ => 0) mem info)

def applied (m : Machine FlashDev κ) : Applied × Machine FlashDev κ :=
  (checkPackage (regionEnv backend env) srcId >>= applyPackage (regionEnv backend env)) m

theorem applied_eq (m : Machine FlashDev κ) : applied backend env srcId m =
    applyPackage (regionEnv backend env) (checkPackage (regionEnv backend env) srcId m).1
      (checkPackage (regionEnv backend env) srcId m).2 := rfl

theorem releaseFromPart_run (m : Machine FlashDev κ) :
    releaseFromPart (regionEnv backend env) srcId true m =
      closeRelease (regionEnv backend env) srcId (applied backend env srcId m).1
        (applied backend env srcId m).2 := by
  rw [releaseFromPart_eq]
  rfl

variable (dst : TargetId) (R : TargetId → Region)

/-- The undisturbed boot from `R`, up to where it starts to close. -/
def undisturbed : Applied × Machine FlashDev κ :=
  applied backend env srcId (bootMachine R .steady (fun _ => 0) mem info)

/-- What is left of `R` after cut boots. -/
structure Resumable (r : TargetId → Region) : Prop where
  size : ∀ id, (r id).size = (R id).size
  unit : ∀ id, (r id).unit = (R id).unit
  source : ∀ a, ¬(signPos (packageOf R srcId) ≤ a ∧ a < signPos (packageOf R srcId) + 4) →
    (r srcId).cells a = (R srcId).cells a
  dest : ∀ a, ¬touched (R dst).unit dst (undisturbed backend env srcId mem info R).2.log a →
    (r dst).cells a = (R dst).cells a
  /-- A sign that was not there at first stands for a finished update. -/
  sign : signIn (backend srcId) (packageOf R srcId) (r srcId) =
      signIn (backend srcId) (packageOf R srcId) (R srcId) ∨
    signIn (backend srcId) (packageOf R srcId) (r srcId) = true ∧
      (∃ src h, (undisturbed backend env srcId mem info R).1 = .updated src h) ∧
      ∀ a, (r dst).cells a =
        ((undisturbed backend env srcId mem info R).2.dev.region dst).cells a

end Cuts

/-! ## One more boot -/

theorem packageEnd_le_sign {info : FwInfo}
    (hroom : srcReadPos + info.pkgSize.toNat + 2 ^ 3 ≤ 2 ^ 32) :
    srcReadPos + info.pkgSize.toNat ≤ signPos info := by
  rw [signPos, show releaseSignAlignSize = 2 ^ 3 from rfl, rtAlign_eq_up (by decide) hroom]
  exact le_up (by decide)

theorem packageEnd_le_signPos {info : FwInfo} (hsmall : info.pkgSize.toNat < 2 ^ 31) :
    srcReadPos + info.pkgSize.toNat ≤ signPos info := by
  apply packageEnd_le_sign
  unfold srcReadPos
  omega

section Boots

variable {srcId dst : TargetId} {mem : κ} {info : FwInfo} {r R : TargetId → Region}
  {p : Power} {torn : Nat → UInt8}

theorem resumable_refl : Resumable backend env srcId mem info dst R R :=
  ⟨fun _ => rfl, fun _ => rfl, fun _ _ => rfl, fun _ _ => rfl, .inl rfl⟩

theorem Resumable.package (himage : FullImage env srcId dst R)
    (h : Resumable backend env srcId mem info dst R r) (a : Nat)
    (ha : a < packageEnd R srcId) : (r srcId).cells a = (R srcId).cells a := by
  have hsign : packageEnd R srcId ≤ signPos (packageOf R srcId) :=
    packageEnd_le_signPos himage.small
  exact h.source a (by omega)

theorem alike_boot (hsize : ∀ id, (r id).size = (R id).size)
    (hunit : ∀ id, (r id).unit = (R id).unit) (hp : p ≠ .off) :
    Alike dst r R (bootMachine r p torn mem info)
      (bootMachine R .steady (fun _ => 0) mem info) where
  on := hp
  steady := rfl
  size := hsize
  unit := hunit
  size_eq := rfl
  unit_eq := rfl
  others := fun _ _ => ⟨rfl, rfl⟩
  kept := fun _ _ => ⟨rfl, rfl⟩
  same := fun _ ha => absurd ha (not_touched_of_nil rfl)
  mem := rfl
  info := rfl

theorem Resumable.start (h : Resumable backend env srcId mem info dst R r)
    (hp : p ≠ .off) : Alike dst r R (bootMachine r p torn mem info)
      (bootMachine R .steady (fun _ => 0) mem info) :=
  alike_boot h.size h.unit hp

theorem start_has : Has dst R True info (fun _ => False)
    (bootMachine R .steady (fun _ => 0) mem info) :=
  ⟨trivial, rfl, fun _ hno => hno.elim⟩

theorem Resumable.check (himage : FullImage env srcId dst R)
    (h : Resumable backend env srcId mem info dst R r) (hp : p ≠ .off)
    (torn : Nat → UInt8) :
    let x := checkPackage (regionEnv backend env) srcId (bootMachine r p torn mem info)
    let y := checkPackage (regionEnv backend env) srcId
      (bootMachine R .steady (fun _ => 0) mem info)
    Stopped dst r R x.2 y.2 ∨ (x.1 = y.1 ∧ Alike dst r R x.2 y.2 ∧
      CheckedBy srcId dst R (fun _ => False) y.1 y.2) :=
  (follows_checkPackage himage.ne himage.small (h.package himage)).step _ _ (h.start hp) start_has

/-- Beside a boot that finds the sign as the undisturbed one does. -/
theorem Resumable.boot (himage : FullImage env srcId dst R)
    (h : Resumable backend env srcId mem info dst R r)
    (hsign : signIn (backend srcId) (packageOf R srcId) (r srcId) =
      signIn (backend srcId) (packageOf R srcId) (R srcId)) (hp : p ≠ .off)
    (torn : Nat → UInt8) :
    let m := applied backend env srcId (bootMachine r p torn mem info)
    let m' := undisturbed backend env srcId mem info R
    Stopped dst r R m.2 m'.2 ∨ (m.1 = m'.1 ∧ Alike dst r R m.2 m'.2 ∧
      AppliedBy backend srcId dst R (fun _ => False) m'.1 m'.2) :=
  ((follows_checkPackage himage.ne himage.small (h.package himage)).bind
    (follows_applyPackage himage (h.package himage) hsign)).step _ _ (h.start hp) start_has

theorem quiet_checkPackage (backend : TargetId → Backend) (env : Env FlashDev κ)
    (srcId : TargetId) :
    Within (Quiet (regionStable backend (regionEnv backend env)))
      (checkPackage (regionEnv backend env) srcId) := by
  have hquiet := quiet_fwCheck (regionStable backend (regionEnv backend env))
  refine (quiet_emit rfl).bind fun _ => (quiet_targetOpen srcId .read nofun).bind fun o => ?_
  rcases o with ⟨_ | src, _ | srcSize⟩
  · exact .pure _
  · exact .pure _
  · exact .pure _
  refine (hquiet src srcSize).bind fun _ => .ite ?_ (.pure _)
  exact ((Within.gets _).bind fun _ => .pure _).bind fun _ => .ite (.pure _) (.pure _)

theorem Resumable.boot_signed (himage : FullImage env srcId dst R)
    (h : Resumable backend env srcId mem info dst R r)
    (hsign : signIn (backend srcId) (packageOf R srcId) (r srcId) = true)
    {src h' : Handle}
    (hupdated : (undisturbed backend env srcId mem info R).1 = .updated src h')
    (hp : p ≠ .off) (torn : Nat → UInt8) :
    (∀ id, ((applied backend env srcId (bootMachine r p torn mem info)).2.dev.region id).cells =
        (r id).cells) ∧
      ((applied backend env srcId (bootMachine r p torn mem info)).2.dev.power = .off ∨
        ∃ src, (applied backend env srcId (bootMachine r p torn mem info)).1 =
          .decided src true) := by
  have hcheck := h.check himage hp torn
  have hquiet := quiet_checkPackage backend env srcId (bootMachine r p torn mem info)
  rw [undisturbed, applied_eq] at hupdated
  rw [applied_eq]
  generalize checkPackage (regionEnv backend env) srcId
    (bootMachine R .steady (fun _ => 0) mem info) = y at hcheck hupdated
  generalize checkPackage (regionEnv backend env) srcId (bootMachine r p torn mem info) = x
    at hcheck hquiet ⊢
  obtain ⟨k, m⟩ := x
  obtain ⟨k', m'⟩ := y
  have hcells (id : TargetId) : (m.dev.region id).cells = (r id).cells :=
    congrFun hquiet.1 id
  obtain hstop | ⟨hk, halike, hchecked⟩ := hcheck
  · have hdev := (idles_applyPackage backend env k m).dev hstop.off
    rw [hdev]
    exact ⟨hcells, .inl hstop.off⟩
  obtain rfl : k = k' := hk
  rcases k with _ | src' | src'
  · cases hupdated
  · cases hupdated
  have htarget : src'.target = srcId := hchecked.cond
  have hinfo : m.fwInfo = packageOf R srcId := halike.info.trans hchecked.info
  have hregion : m.dev.region srcId = r srcId := (halike.others srcId himage.ne).1
  have hrun := run_releaseSignCheck backend env src' halike.on
  rw [htarget, hinfo, hregion, hsign] at hrun
  simp only [applyPackage, run_bind, hrun, if_true, run_pure]
  exact ⟨hcells, .inr ⟨src', rfl⟩⟩

theorem signIn_congr (b : Backend) (hi : FwInfo) {reg reg' : Region}
    (hsize : reg.size = reg'.size) (hcells : reg.cells = reg'.cells) :
    signIn b hi reg = signIn b hi reg' := by
  simp only [signIn, Region.read, hsize, hcells]

/-- A boot that has got as far as the undisturbed one leaves something to resume from,
the sign that it writes included. -/
theorem Resumable.close (himage : FullImage env srcId dst R)
    (h : Resumable backend env srcId mem info dst R r)
    (hsign : signIn (backend srcId) (packageOf R srcId) (r srcId) =
      signIn (backend srcId) (packageOf R srcId) (R srcId))
    {k : Applied} {m : Machine FlashDev κ}
    (hshape : ∀ id, (m.dev.region id).size = (R id).size ∧
      (m.dev.region id).unit = (R id).unit)
    (hk : k = (undisturbed backend env srcId mem info R).1)
    (halike : Alike dst r R m (undisturbed backend env srcId mem info R).2)
    (happlied : AppliedBy backend srcId dst R (fun _ => False)
      (undisturbed backend env srcId mem info R).1
      (undisturbed backend env srcId mem info R).2) :
    Resumable backend env srcId mem info dst R
      (closeRelease (regionEnv backend env) srcId k m).2.dev.region := by
  have hupdated (src h' : Handle) (hupdate : k = .updated src h') :
      src.target = srcId ∧ signIn (backend srcId) (packageOf R srcId) (R srcId) = false ∧
        m.fwInfo = packageOf R srcId := by
    rw [← hk, hupdate] at happlied
    exact ⟨happlied.cond.1, happlied.cond.2, halike.info.trans happlied.info⟩
  have hidle := idles_closeRelease backend env srcId k m
  obtain ⟨hother, hsource⟩ := closeRelease_outside backend env (packageOf R srcId) fun src h' hupdate =>
    ⟨(hupdated src h' hupdate).1, (hupdated src h' hupdate).2.2⟩
  have hdst := hother dst himage.ne.symm
  have hsrc : m.dev.region srcId = r srcId := (halike.others srcId himage.ne).1
  constructor
  case size => exact fun id => (hidle.size id).trans (hshape id).1
  case unit => exact fun id => (hidle.unit id).trans (hshape id).2
  case source =>
    intro a ha
    rw [hsource a ha, hsrc]
    exact h.source a ha
  case dest =>
    intro a ha
    rw [hdst, (halike.kept a ha).1]
    exact h.dest a ha
  case sign =>
    obtain hdev | ⟨src, h', hupdate, -⟩ := closeRelease_dev backend env srcId k m
    · rw [hdev, hsrc]
      exact .inl hsign
    by_cases hnow : signIn (backend srcId) (packageOf R srcId)
        ((closeRelease (regionEnv backend env) srcId k m).2.dev.region srcId) = true
    · refine .inr ⟨hnow, ⟨src, h', hk ▸ hupdate⟩, fun a => ?_⟩
      rw [hdst]
      by_cases ha : touched (R dst).unit dst
        (undisturbed backend env srcId mem info R).2.log a
      · exact halike.same a ha
      · rw [(halike.kept a ha).1, (halike.kept a ha).2, h.dest a ha]
    · rw [(hupdated src h' hupdate).2.1]
      exact .inl (Bool.not_eq_true _ ▸ hnow)

theorem Resumable.same (h : Resumable backend env srcId mem info dst R r)
    {r' : TargetId → Region} (hsize : ∀ id, (r' id).size = (r id).size)
    (hunit : ∀ id, (r' id).unit = (r id).unit) (hsrc : (r' srcId).cells = (r srcId).cells)
    (hdst : ∀ a, (r' dst).cells a ≠ (r dst).cells a →
      touched (R dst).unit dst (undisturbed backend env srcId mem info R).2.log a)
    (hsign : signIn (backend srcId) (packageOf R srcId) (r srcId) =
        signIn (backend srcId) (packageOf R srcId) (R srcId) ∨
      (r' dst).cells = (r dst).cells) :
    Resumable backend env srcId mem info dst R r' := by
  have hsame := signIn_congr (backend srcId) (packageOf R srcId) (hsize srcId) hsrc
  constructor
  case size => exact fun id => (hsize id).trans (h.size id)
  case unit => exact fun id => (hunit id).trans (h.unit id)
  case source =>
    rw [hsrc]
    exact h.source
  case dest =>
    intro a ha
    rw [← h.dest a ha]
    by_contra hne
    exact ha (hdst a hne)
  case sign =>
    rw [hsame]
    obtain hsign | hdst' := hsign
    · exact .inl hsign
    · rw [hdst']
      exact h.sign

theorem idles_applied (backend : TargetId → Backend) (env : Env FlashDev κ)
    (srcId : TargetId) : Within Idles (applied backend env srcId) :=
  (idles_checkPackage backend env srcId).bind (idles_applyPackage backend env)

theorem Resumable.afterCut (himage : FullImage env srcId dst R)
    (h : Resumable backend env srcId mem info dst R r) (cut : Cut) :
    Resumable backend env srcId mem info dst R
      (afterCut backend env srcId mem info r cut) := by
  have hp : Power.cutAfter cut.ops ≠ .off := fun hno => nomatch hno
  have hboot (hsign) := h.boot himage hsign hp cut.torn
  have hidle := idles_applied backend env srcId
    (bootMachine r (.cutAfter cut.ops) cut.torn mem info)
  rw [Qboot.afterCut, releaseFromPart_run]
  obtain hsign | ⟨hsign, ⟨src, h', hupdate⟩, hdst⟩ := h.sign
  · have hboot := hboot hsign
    generalize applied backend env srcId
      (bootMachine r (.cutAfter cut.ops) cut.torn mem info) = x at hboot hidle ⊢
    obtain ⟨k, m⟩ := x
    obtain hstop | ⟨hk, halike, happlied⟩ := hboot
    · rw [(idles_closeRelease backend env srcId k m).dev hstop.off]
      refine h.same hidle.size hidle.unit ?_ (fun a ha => ?_) (.inl hsign)
      · rw [hstop.others srcId himage.ne]
      · by_contra hno
        exact ha (hstop.kept a hno)
    · exact h.close himage hsign (fun id => ⟨(hidle.size id).trans (h.size id),
        (hidle.unit id).trans (h.unit id)⟩) hk halike happlied
  · obtain ⟨hcells, hend⟩ := h.boot_signed himage hsign hupdate hp cut.torn
    generalize applied backend env srcId
      (bootMachine r (.cutAfter cut.ops) cut.torn mem info) = x at hcells hend hidle ⊢
    obtain ⟨k, m⟩ := x
    have hdev : (closeRelease (regionEnv backend env) srcId k m).2.dev = m.dev := by
      obtain hoff | ⟨src', hk⟩ := hend
      · exact (idles_closeRelease backend env srcId k m).dev hoff
      · obtain rfl : k = .decided src' true := hk
        rfl
    rw [hdev]
    refine h.same hidle.size hidle.unit (hcells srcId) (fun a ha => ?_) (.inr (hcells dst))
    exact absurd (congrFun (hcells dst) a) ha

theorem Resumable.afterCuts (himage : FullImage env srcId dst R) (cuts : List Cut)
    (h : Resumable backend env srcId mem info dst R r) :
    Resumable backend env srcId mem info dst R
      (afterCuts backend env srcId mem info r cuts) := by
  induction cuts generalizing r with
  | nil => exact h
  | cons cut cuts ih => exact ih (h.afterCut himage cut)

theorem Stopped.not_steady {m m' : Machine FlashDev κ} (h : Stopped dst r R m m') :
    m.dev.power ≠ .steady := by
  simp [h.off]

theorem undisturbed_applied (himage : FullImage env srcId dst R) :
    AppliedBy backend srcId dst R (fun _ => False)
      (undisturbed backend env srcId mem info R).1
      (undisturbed backend env srcId mem info R).2 := by
  have hself : Resumable backend env srcId mem info dst R R := resumable_refl
  have hsteady : Power.steady ≠ .off := fun hno => nomatch hno
  obtain hstop | ⟨-, -, happlied⟩ :=
    hself.boot himage rfl hsteady fun _ => 0
  · exact absurd ((idles_applied backend env srcId _).steady rfl) hstop.not_steady
  · exact happlied

theorem AppliedBy.close_dst {k : Applied} {m : Machine FlashDev κ}
    (h : AppliedBy backend srcId dst R (fun _ => False) k m) (hne : dst ≠ srcId) :
    (closeRelease (regionEnv backend env) srcId k m).2.dev.region dst = m.dev.region dst := by
  refine (closeRelease_outside backend env (packageOf R srcId) fun src h' hupdate => ?_).1 dst hne
  rw [hupdate] at h
  exact ⟨h.cond.1, h.info⟩

/-- A steady boot from there answers what the undisturbed one answers, and leaves the
same destination. -/
theorem Resumable.finish (himage : FullImage env srcId dst R)
    (h : Resumable backend env srcId mem info dst R r) :
    (steadyRelease backend env srcId mem info r).1 =
        (steadyRelease backend env srcId mem info R).1 ∧
      (steadyRelease backend env srcId mem info r).2.dev.region dst =
        (steadyRelease backend env srcId mem info R).2.dev.region dst := by
  have hp : Power.steady ≠ .off := fun hno => nomatch hno
  have hboot (hsign) := h.boot himage hsign hp fun _ => 0
  have hidle := idles_applied backend env srcId (bootMachine r .steady (fun _ => 0) mem info)
  have hsteady := hidle.steady rfl
  have hlast : (steadyRelease backend env srcId mem info R).2.dev.region dst =
      (undisturbed backend env srcId mem info R).2.dev.region dst := by
    rw [steadyRelease, releaseFromPart_run]
    exact (undisturbed_applied himage).close_dst himage.ne.symm
  have hanswer : (steadyRelease backend env srcId mem info R).1 =
      (undisturbed backend env srcId mem info R).1.answer := by
    rw [steadyRelease, releaseFromPart_run, closeRelease_answer]
    rfl
  rw [hlast, hanswer, steadyRelease, releaseFromPart_run, closeRelease_answer]
  obtain hsign | ⟨hsign, ⟨src, h', hupdate⟩, hdst⟩ := h.sign
  · have hboot := hboot hsign
    generalize applied backend env srcId (bootMachine r .steady (fun _ => 0) mem info) = x
      at hboot hsteady ⊢
    obtain ⟨k, m⟩ := x
    obtain hstop | ⟨hk, halike, happlied⟩ := hboot
    · exact absurd hsteady hstop.not_steady
    have hk : k = (undisturbed backend env srcId mem info R).1 := hk
    have hclose : (closeRelease (regionEnv backend env) srcId k m).2.dev.region dst =
        m.dev.region dst := by
      refine (closeRelease_outside backend env (packageOf R srcId) fun src h' hupdate => ?_).1 dst himage.ne.symm
      rw [← hk, hupdate] at happlied
      exact ⟨happlied.cond.1, halike.info.trans happlied.info⟩
    refine ⟨by rw [hk], ?_⟩
    rw [hclose]
    ext a
    · exact halike.size dst
    · exact halike.unit dst
    · by_cases ha : touched (R dst).unit dst
        (undisturbed backend env srcId mem info R).2.log a
      · exact congrArg _ (halike.same a ha)
      · rw [(halike.kept a ha).1, (halike.kept a ha).2, h.dest a ha]
  · obtain ⟨hcells, hend⟩ :=
      h.boot_signed himage hsign hupdate hp fun _ => 0
    have hidle' := idles_applied backend env srcId
      (bootMachine R .steady (fun _ => 0) mem info)
    generalize applied backend env srcId (bootMachine r .steady (fun _ => 0) mem info) = x
      at hcells hend hsteady hidle ⊢
    obtain ⟨k, m⟩ := x
    obtain ⟨src', hk⟩ := hend.resolve_left fun hoff => nomatch hsteady.symm.trans hoff
    obtain rfl : k = .decided src' true := hk
    refine ⟨by rw [hupdate]; rfl, ?_⟩
    show m.dev.region dst = _
    ext a
    · exact ((hidle.size dst).trans (h.size dst)).trans (hidle'.size dst).symm
    · exact ((hidle.unit dst).trans (h.unit dst)).trans (hidle'.unit dst).symm
    · exact congrArg _ ((congrFun (hcells dst) a).trans (hdst a))

end Boots

/-! ## Accepted packages -/

theorem Idles.mem_log {m m' : Machine FlashDev κ} (h : Idles m m') {e : Event}
    (he : e ∈ m.log) : e ∈ m'.log := by
  obtain ⟨more, hlog⟩ := h.log
  rw [hlog]
  exact List.mem_append_left more he

section Restart

variable (backend : TargetId → Backend) (env : Env FlashDev κ) (srcId dst : TargetId)
  (mem : κ) (info : FwInfo) (R : TargetId → Region)

def packageCheck : Bool × Machine FlashDev κ :=
  fwCheck (regionEnv backend env) ⟨srcId, 0⟩ (R srcId).size
    (bootMachine R .steady (fun _ => 0) mem info)

/-- `qbt_fw_check` accepts the package, and reads no more at once than its buffer
holds. -/
structure Accepted : Prop where
  checked : (packageCheck backend env srcId mem info R).1 = true
  buffered : ∀ id off len data,
    .read id off len data ∈ (packageCheck backend env srcId mem info R).2.log → len ≤ bufSize

variable {backend env srcId dst mem info R}

theorem Accepted.small (h : Accepted backend env srcId mem info R) :
    (packageOf R srcId).pkgSize.toNat < 2 ^ 31 := by
  obtain ⟨hchecked, hbuffered⟩ := h
  by_contra hbig
  have hhead := fwInfoRead_head (regionStable backend (regionEnv backend env)) ⟨srcId, 0⟩
    (R srcId).size (bootMachine R .steady (fun _ => 0) mem info)
  rw [packageCheck, fwCheck, run_bind] at hchecked hbuffered
  rcases hread : fwInfoRead (regionEnv backend env) ⟨srcId, 0⟩ (R srcId).size false
    (bootMachine R .steady (fun _ => 0) mem info) with ⟨_ | _, m₁⟩
  · rw [hread] at hchecked
    cases hchecked
  have hinfo : m₁.fwInfo = packageOf R srcId := by
    rw [show (regionStable backend (regionEnv backend env)).toEnv = regionEnv backend env
      from rfl, hread] at hhead
    exact hhead rfl
  rw [hread] at hchecked hbuffered
  simp only [if_true, run_bind, run_gets, hinfo] at hchecked hbuffered
  split at hbuffered
  · rename_i hbad
    rw [if_pos hbad] at hchecked
    cases hchecked
  obtain ⟨new, hlog, off, ok, hmem⟩ := fwCrcCheck_firstRead (regionEnv backend env) ⟨srcId, 0⟩
    srcReadPos (Nat.le_of_not_lt hbig) (packageOf R srcId).pkgSize.toNat_lt
    (packageOf R srcId).pkgCrc m₁
  have hrest (b : Bool) : Within Idles (if b = true then
      if (regionEnv backend env).usingAppCheck &&
          (packageOf R srcId).algo.toNat &&& algoCmprsMask != algoCmprsHpatchlite &&
          (packageOf R srcId).verifyCrc then
        appCrcCheck (regionEnv backend env) ⟨srcId, 0⟩ (packageOf R srcId)
      else pure true
    else pure false) :=
    .ite (.ite (within_appCrcCheck (idles_admits backend env) _ _) (.pure _)) (.pure _)
  have hissued := List.mem_append_right m₁.log hmem
  rw [← hlog] at hissued
  have hlen := hbuffered _ _ _ _ ((hrest _ _).mem_log hissued)
  unfold bufSize at hlen
  omega

/-- A full-image update can be restarted: after any number of boots with power cuts,
the next undisturbed boot answers what a boot that was never interrupted answers,
and the destination, image and tail header, is the same. -/
theorem release_restartable (h : Accepted backend env srcId mem info R)
    (hne : srcId ≠ dst)
    (hnamed : nameToId env.hpatch.cfg.useStorageSwap (packageOf R srcId).fromPartName = some dst)
    (hfull : patches env (packageOf R srcId) = false) (hunit : 0 < (R dst).unit)
    (cuts : List Cut) :
    (steadyRelease backend env srcId mem info
        (afterCuts backend env srcId mem info R cuts)).1 =
      (steadyRelease backend env srcId mem info R).1 ∧
    (steadyRelease backend env srcId mem info
        (afterCuts backend env srcId mem info R cuts)).2.dev.region dst =
      (steadyRelease backend env srcId mem info R).2.dev.region dst := by
  have himage : FullImage env srcId dst R := ⟨hne, hnamed, hfull, hunit, h.small⟩
  exact (resumable_refl.afterCuts himage cuts).finish himage

/-- A read fits the buffer. -/
def Event.shortRead : Event → Bool
  | .read _ _ len _ => decide (len ≤ bufSize)
  | _ => true

theorem eightByte_restartable :
    (steadyRelease (fun _ => .fal) eagerEnv .download () eightByteHeader
        (afterCuts (fun _ => .fal) eagerEnv .download () eightByteHeader
          (eightByteMachine 1024).dev.region [⟨3, fun _ => 0⟩, ⟨1, fun _ => 0x55⟩])).1 =
      (steadyRelease (fun _ => .fal) eagerEnv .download () eightByteHeader
        (eightByteMachine 1024).dev.region).1 ∧
    (steadyRelease (fun _ => .fal) eagerEnv .download () eightByteHeader
        (afterCuts (fun _ => .fal) eagerEnv .download () eightByteHeader
          (eightByteMachine 1024).dev.region [⟨3, fun _ => 0⟩, ⟨1, fun _ => 0x55⟩])).2.dev.region
        .app =
      (steadyRelease (fun _ => .fal) eagerEnv .download () eightByteHeader
        (eightByteMachine 1024).dev.region).2.dev.region .app := by
  have hreads : (packageCheck (fun _ => .fal) eagerEnv .download () eightByteHeader
      (eightByteMachine 1024).dev.region).2.log.all Event.shortRead = true := by
    decide +kernel
  refine release_restartable ⟨by decide +kernel, fun id off len ok he => ?_⟩ (by decide)
    (by decide +kernel) (by decide +kernel) (by decide) _
  exact of_decide_eq_true (List.all_eq_true.mp hreads _ he)

end Restart

end Qboot
