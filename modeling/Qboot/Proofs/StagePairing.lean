import Qboot.Proofs.Emitted
import Qboot.Proofs.WriteProgress
/-!
# Setup and cleanup of the codec stages

What `qbt_app_crc_check` and `qbt_fw_release` record of the two stages: every
stage that was set up is cleaned up once, except after a failed patch.
-/

namespace Qboot

open Library Prog Machine

variable {σ κ : Type}

/-! ## What is recorded -/

/-- The stage has a cleanup. -/
def AlgoContext.hasDeinit (algo : AlgoContext κ) : Stage → Prop
  | .crypt => algo.crypt.deinit.isSome
  | .cmprs => algo.cmprs.deinit.isSome

/-- In the record `tr` of a run, `qbt_fw_algo_init` has set up the stage: its
initialiser is missing or has succeeded, and the crypto stage comes first. -/
def SetUp (algo : AlgoContext κ) (tr : List Event) : Stage → Prop
  | .crypt => algo.crypt.init.isNone ∨ .stageInit .crypt true ∈ tr
  | .cmprs => (algo.crypt.init.isNone ∨ .stageInit .crypt true ∈ tr) ∧
      (algo.cmprs.init.isNone ∨ .stageInit .cmprs true ∈ tr)

/-- Every stage that was set up has been cleaned up once, where it has a cleanup,
and no other one has. -/
def StagesPaired (algo : Option (AlgoContext κ)) (tr : List Event) : Prop :=
  ∀ stage, match algo with
    | none => tr.count (.stageDeinit stage) = 0
    | some algo =>
        (SetUp algo tr stage ∧ algo.hasDeinit stage → tr.count (.stageDeinit stage) = 1) ∧
          (¬(SetUp algo tr stage ∧ algo.hasDeinit stage) →
            tr.count (.stageDeinit stage) = 0)

def StagesOpen (algo : AlgoContext κ) (tr : List Event) : Prop :=
  ∀ stage, SetUp algo tr stage ∧ tr.count (.stageDeinit stage) = 0

def NoStage (tr : List Event) : Prop := ∀ e ∈ tr, e.marksStage = false

variable {algo : AlgoContext κ} {tr more : List Event}

theorem NoStage.count (h : NoStage more) (stage : Stage) :
    more.count (.stageDeinit stage) = 0 := by
  rw [List.count_eq_zero]
  intro hmem
  exact absurd (h _ hmem) (by simp [Event.marksStage])

theorem NoStage.not_init (h : NoStage more) (stage : Stage) (ok : Bool) :
    .stageInit stage ok ∉ more := by
  intro hmem
  exact absurd (h _ hmem) (by simp [Event.marksStage])

theorem NoStage.setUp_append (h : NoStage more) (stage : Stage) :
    SetUp algo (tr ++ more) stage ↔ SetUp algo tr stage := by
  cases stage with
  | crypt => simp [SetUp, h.not_init]
  | cmprs => simp [SetUp, h.not_init]

theorem StagesOpen.append (h : StagesOpen algo tr) (hmore : NoStage more) :
    StagesOpen algo (tr ++ more) := by
  intro stage
  obtain ⟨hset, hcount⟩ := h stage
  refine ⟨(hmore.setUp_append stage).mpr hset, ?_⟩
  rw [List.count_append, hcount, hmore.count]

theorem StagesPaired.append (h : StagesPaired (some algo) tr) (hmore : NoStage more) :
    StagesPaired (some algo) (tr ++ more) := by
  intro stage
  dsimp only
  rw [hmore.setUp_append, List.count_append, hmore.count, Nat.add_zero]
  exact h stage

/-- Without a cleanup the stages are paired only where there is nothing to clean up. -/
theorem StagesOpen.paired_iff (h : StagesOpen algo tr) :
    StagesPaired (some algo) tr ↔ ∀ stage, ¬algo.hasDeinit stage := by
  constructor
  · intro hpaired stage hdeinit
    obtain ⟨hset, hcount⟩ := h stage
    have hone := (hpaired stage).1 ⟨hset, hdeinit⟩
    omega
  · intro hno stage
    exact ⟨fun hboth => absurd hboth.2 (hno stage), fun _ => (h stage).2⟩

/-! ## One stage -/

def initTrace (stage : Stage) (init : Option (Prog κ RtErr)) (ok : Bool) : List Event :=
  if init.isSome then [.stageInit stage ok] else []

def deinitTrace (stage : Stage) (deinit : Option (Prog κ Unit)) : List Event :=
  if deinit.isSome then [.stageDeinit stage] else []

theorem stageInit_log (stage : Stage) (init : Option (Prog κ RtErr)) (m : Machine σ κ) :
    (stageInit stage init m).2.log =
        m.log ++ initTrace stage init (stageInit stage init m).1 ∧
      (init.isNone → (stageInit stage init m).1 = true) := by
  cases init with
  | none => exact ⟨(List.append_nil _).symm, fun _ => rfl⟩
  | some init => exact ⟨rfl, fun hnone => nomatch hnone⟩

theorem stageDeinit_log (stage : Stage) (deinit : Option (Prog κ Unit))
    (m : Machine σ κ) :
    (stageDeinit stage deinit m).2.log = m.log ++ deinitTrace stage deinit := by
  cases deinit with
  | none => exact (List.append_nil _).symm
  | some deinit => rfl

/-! ## Both stages -/

theorem fwAlgoDeinit_log (algo : AlgoContext κ) (m : Machine σ κ) :
    (fwAlgoDeinit algo m).2.log =
      m.log ++ (deinitTrace .cmprs algo.cmprs.deinit ++
        deinitTrace .crypt algo.crypt.deinit) := by
  rw [fwAlgoDeinit, Prog.run_bind, stageDeinit_log, stageDeinit_log, List.append_assoc]

theorem StagesOpen.paired (h : StagesOpen algo tr) :
    StagesPaired (some algo) (tr ++ (deinitTrace .cmprs algo.cmprs.deinit ++
      deinitTrace .crypt algo.crypt.deinit)) := by
  intro stage
  have hset : SetUp algo (tr ++ (deinitTrace .cmprs algo.cmprs.deinit ++
      deinitTrace .crypt algo.crypt.deinit)) stage := by
    have hbefore := (h stage).1
    cases stage with
    | crypt => exact hbefore.imp_right fun hmem => List.mem_append_left _ hmem
    | cmprs =>
        exact ⟨hbefore.1.imp_right fun hmem => List.mem_append_left _ hmem,
          hbefore.2.imp_right fun hmem => List.mem_append_left _ hmem⟩
  have hcount := (h stage).2
  refine ⟨fun hboth => ?_, fun hnot => ?_⟩
  · have hdeinit := hboth.2
    rw [List.count_append, hcount]
    cases stage with
    | crypt =>
        have hcrypt : algo.crypt.deinit.isSome = true := hdeinit
        cases hcmprs : algo.cmprs.deinit <;> simp [deinitTrace, hcrypt]
    | cmprs =>
        have hcmprs : algo.cmprs.deinit.isSome = true := hdeinit
        cases hcrypt : algo.crypt.deinit <;> simp [deinitTrace, hcmprs]
  · have hno : ¬algo.hasDeinit stage := fun hdeinit => hnot ⟨hset, hdeinit⟩
    rw [List.count_append, hcount]
    cases stage with
    | crypt =>
        have hcrypt : ¬algo.crypt.deinit.isSome = true := hno
        cases hcmprs : algo.cmprs.deinit <;> simp [deinitTrace, hcrypt]
    | cmprs =>
        have hcmprs : ¬algo.cmprs.deinit.isSome = true := hno
        cases hcrypt : algo.crypt.deinit <;> simp [deinitTrace, hcmprs]

theorem initTrace_false (stage : Stage) {init : Option (Prog κ RtErr)}
    (h : init.isNone → false = true) :
    init.isNone = false ∧ initTrace stage init false = [.stageInit stage false] := by
  cases init with
  | none => exact absurd (h rfl) (by simp)
  | some init => exact ⟨rfl, rfl⟩

theorem setUp_of_initTrace (stage : Stage) (init : Option (Prog κ RtErr)) :
    init.isNone ∨ .stageInit stage true ∈ initTrace stage init true := by
  cases init with
  | none => exact .inl rfl
  | some init => exact .inr (List.mem_singleton_self _)

theorem count_initTrace (stage stage' : Stage) (init : Option (Prog κ RtErr)) (ok : Bool) :
    (initTrace stage init ok).count (.stageDeinit stage') = 0 := by
  cases init <;> simp [initTrace]

theorem crypt_failed_paired (hnone : algo.crypt.init.isNone = false) :
    StagesPaired (some algo) [.stageInit .crypt false] := by
  intro stage
  have hnot : ¬SetUp algo [.stageInit .crypt false] stage := by
    cases stage with
    | crypt => simp [SetUp, hnone]
    | cmprs => simp [SetUp, hnone]
  exact ⟨fun hboth => absurd hboth.1 hnot, fun _ => by simp⟩

/-- When the second initialiser fails, the first stage is rolled back. -/
theorem cmprs_failed_paired (hnone : algo.cmprs.init.isNone = false) :
    StagesPaired (some algo) (initTrace .crypt algo.crypt.init true ++
      ([.stageInit .cmprs false] ++ deinitTrace .crypt algo.crypt.deinit)) := by
  intro stage
  have hcrypt := setUp_of_initTrace .crypt algo.crypt.init
  cases stage with
  | crypt =>
      refine ⟨fun hboth => ?_, fun hnot => ?_⟩
      · have hdeinit : algo.crypt.deinit.isSome = true := hboth.2
        simp [List.count_append, count_initTrace, deinitTrace, hdeinit]
      · have hno : ¬algo.crypt.deinit.isSome = true := fun hdeinit => hnot
          ⟨hcrypt.imp_right fun hmem => List.mem_append_left _ hmem, hdeinit⟩
        simp [List.count_append, count_initTrace, deinitTrace, hno]
  | cmprs =>
      have hnot : ¬SetUp algo (initTrace .crypt algo.crypt.init true ++
          ([.stageInit .cmprs false] ++ deinitTrace .crypt algo.crypt.deinit)) .cmprs := by
        rintro ⟨-, hinit | hmem⟩
        · rw [hnone] at hinit
          exact nomatch hinit
        · cases hinit : algo.crypt.init <;> cases hdeinit : algo.crypt.deinit <;>
            simp [initTrace, deinitTrace, hinit, hdeinit] at hmem
      refine ⟨fun hboth => absurd hboth.1 hnot, fun _ => ?_⟩
      cases hdeinit : algo.crypt.deinit <;>
        simp [List.count_append, count_initTrace, deinitTrace]

/-- `qbt_fw_algo_init` leaves both stages set up, or it has cleaned up after itself. -/
theorem fwAlgoInit_log (algo : AlgoContext κ) (m : Machine σ κ) :
    ∃ tr, (fwAlgoInit algo m).2.log = m.log ++ tr ∧
      ((fwAlgoInit algo m).1 = true → StagesOpen algo tr) ∧
      ((fwAlgoInit algo m).1 = false → StagesPaired (some algo) tr) := by
  obtain ⟨hlog₁, hnone₁⟩ := stageInit_log .crypt algo.crypt.init m
  unfold fwAlgoInit
  rw [Prog.run_bind]
  generalize stageInit .crypt algo.crypt.init m = r₁ at hlog₁ hnone₁ ⊢
  obtain ⟨crypt, m₁⟩ := r₁
  cases crypt with
  | false =>
      obtain ⟨hsome, htrace⟩ := initTrace_false .crypt hnone₁
      exact ⟨_, hlog₁, fun hno => (nomatch hno), fun _ => by
        rw [htrace]; exact crypt_failed_paired hsome⟩
  | true =>
      obtain ⟨hlog₂, hnone₂⟩ := stageInit_log .cmprs algo.cmprs.init m₁
      rw [if_pos rfl, Prog.run_bind]
      generalize stageInit .cmprs algo.cmprs.init m₁ = r₂ at hlog₂ hnone₂ ⊢
      obtain ⟨cmprs, m₂⟩ := r₂
      dsimp only at hlog₁ hlog₂
      rw [hlog₁, List.append_assoc] at hlog₂
      cases cmprs with
      | true =>
          refine ⟨_, hlog₂, fun _ stage => ⟨?_, ?_⟩, fun hno => (nomatch hno)⟩
          · have hcrypt := setUp_of_initTrace .crypt algo.crypt.init
            have hcmprs := setUp_of_initTrace .cmprs algo.cmprs.init
            have hfirst := hcrypt.imp_right fun hmem =>
              List.mem_append_left (initTrace .cmprs algo.cmprs.init true) hmem
            cases stage with
            | crypt => exact hfirst
            | cmprs =>
                exact ⟨hfirst, hcmprs.imp_right fun hmem => List.mem_append_right _ hmem⟩
          · rw [List.count_append, count_initTrace, count_initTrace]
      | false =>
          obtain ⟨hsome, htrace⟩ := initTrace_false .cmprs hnone₂
          refine ⟨initTrace .crypt algo.crypt.init true ++
            ([.stageInit .cmprs false] ++ deinitTrace .crypt algo.crypt.deinit), ?_,
            fun hno => (nomatch hno), fun _ => cmprs_failed_paired hsome⟩
          rw [if_neg (by simp), Prog.run_bind]
          have hroll := stageDeinit_log .crypt algo.crypt.deinit m₂
          rw [hlog₂, htrace, List.append_assoc, List.append_assoc] at hroll
          exact hroll

/-! ## What happens between setup and cleanup -/

/-- The record has grown by nothing of the stages. -/
def Stageless (m m' : Machine σ κ) : Prop :=
  Extends Machine.log (fun e => e.marksStage = false) m m'

instance : IsPreorder (Machine σ κ) Stageless :=
  inferInstanceAs (IsPreorder _ (Extends Machine.log _))

theorem stageless_onDev {α : Type} (x : Prog σ α) :
    Within Stageless (onDev x : Prog (Machine σ κ) α) :=
  fun _ => extends_of_eq rfl

theorem stageless_emit {e : Event} (he : e.marksStage = false) :
    Within Stageless (emit e : Prog (Machine σ κ) Unit) :=
  fun _ => extends_concat rfl he

theorem stageless_ioWrite (io : IoOps σ) (h : Handle) (off : Nat) (data : List UInt8) :
    Within Stageless (ioWrite io h off data : Prog (Machine σ κ) _) :=
  (stageless_onDev _).bind fun _ => (stageless_emit rfl).bind fun _ => .pure _

theorem stageless_body (io : IoOps σ) :
    AdmitsBody io (fun _ => True) (fun _ => True) (@Stageless σ κ) where
  reads := fun _ _ _ _ => (stageless_onDev _).bind fun _ =>
    (stageless_emit rfl).bind fun _ => .pure _
  writes := fun h off data _ => stageless_ioWrite io h off data
  erases := fun _ _ _ _ => (stageless_onDev _).bind fun _ =>
    (stageless_emit rfl).bind fun _ => .pure _
  sizes := fun _ _ => stageless_onDev _
  aligns := fun _ _ => stageless_onDev _
  mem := fun _ _ => extends_of_eq rfl
  emits := fun _ _ => stageless_emit

theorem stageless_swap (io : IoOps σ) (hpatch : HpatchEnv σ) :
    AdmitsSwap io hpatch (fun _ => True) (fun _ => True) (@Stageless σ κ) where
  mallocs := fun _ => stageless_onDev _
  opens := by
    refine (stageless_onDev _).bind fun ref => ?_
    cases ref with
    | none => exact (stageless_emit rfl).bind fun _ => .pure _
    | some ref =>
        refine (stageless_emit rfl).bind fun _ => (stageless_onDev _).bind fun size => ?_
        cases size with
        | none =>
            exact ((stageless_onDev _).bind fun _ => stageless_emit rfl).bind fun _ => .pure _
        | some size => exact .pure _
  closes := fun _ => (stageless_onDev _).bind fun _ => stageless_emit rfl
  usable := fun _ => ⟨trivial, trivial⟩

variable (env : Env σ κ)

theorem appCrcCheck_paired (src : Handle) (info : FwInfo) (m : Machine σ κ) :
    ∃ tr, (appCrcCheck env src info m).2.log = m.log ++ tr ∧
      StagesPaired (fwGetAlgoContext env.tables info) tr := by
  unfold appCrcCheck
  cases fwGetAlgoContext env.tables info with
  | none => exact ⟨[], (List.append_nil _).symm, fun stage => rfl⟩
  | some algo =>
      obtain ⟨tr, hlog, hopen, hfail⟩ := fwAlgoInit_log algo m
      dsimp only
      rw [Prog.run_bind]
      generalize fwAlgoInit algo m = r at hlog hopen hfail ⊢
      obtain ⟨ok, m₁⟩ := r
      cases ok with
      | false => exact ⟨tr, hlog, hfail rfl⟩
      | true =>
          have hstream : Within Stageless (fwStreamProcess env.toPlatform info src algo
              (.crc 0xFFFFFFFF)) :=
            on_fwStreamProcess info src algo (stageless_body env.io) trivial _ trivial
          obtain ⟨more, hmore, hnone⟩ := hstream m₁
          have hend := (hopen rfl).append hnone
          refine ⟨_, ?_, hend.paired⟩
          have hclean := fwAlgoDeinit_log algo
            (fwStreamProcess env.toPlatform info src algo (.crc 0xFFFFFFFF) m₁).2
          rw [hmore, hlog, List.append_assoc m.log] at hclean
          rw [List.append_assoc m.log] at hclean
          exact hclean

theorem streamRelease_paired (dst : Handle) (dstSize : Nat) (src : Handle) (info : FwInfo)
    {tr : List Event} (hopen : StagesOpen algo tr) {front : List Event} {m : Machine σ κ}
    (hlog : m.log = front ++ tr) :
    ∃ tr', (streamRelease env dst dstSize src info algo m).2.log = front ++ tr' ∧
      StagesPaired (some algo) tr' := by
  have hclean (ok : Bool) {m' : Machine σ κ} (hm' : Stageless m m') :
      ∃ tr', ((do
          fwAlgoDeinit algo
          pure ok : Prog (Machine σ κ) Bool) m').2.log = front ++ tr' ∧
        StagesPaired (some algo) tr' := by
    obtain ⟨more, hmore, hnone⟩ := hm'
    have hdeinit := fwAlgoDeinit_log algo m'
    rw [hmore, hlog, List.append_assoc front, List.append_assoc front] at hdeinit
    exact ⟨_, hdeinit, (hopen.append hnone).paired⟩
  have hbody := @stageless_body σ κ env.io
  have herase (off len : Nat) : Within Stageless (eraseWithFeed env.io dst off len) :=
    hbody.erases dst off len trivial
  unfold streamRelease
  rw [Prog.run_bind, Prog.run_ite]
  have hfirst := herase 0 info.rawSize.toNat m
  generalize eraseWithFeed env.io dst 0 info.rawSize.toNat m = r₁ at hfirst ⊢
  obtain ⟨ok₁, m₁⟩ := r₁
  cases ok₁ with
  | false => exact hclean false hfirst
  | true =>
      rw [if_pos rfl, Prog.run_bind, Prog.run_ite]
      have hsecond := hfirst.trans (herase (u32Sub dstSize srcReadPos) srcReadPos m₁)
      generalize eraseWithFeed env.io dst (u32Sub dstSize srcReadPos) srcReadPos m₁ = r₂
        at hsecond ⊢
      obtain ⟨ok₂, m₂⟩ := r₂
      cases ok₂ with
      | false => exact hclean false hsecond
      | true =>
          have hstream : Within Stageless (fwStreamProcess env.toPlatform info src algo
              (.write ⟨dst, 0, info.rawSize.toNat⟩)) :=
            on_fwStreamProcess info src algo hbody trivial _ trivial
          exact hclean _ (hsecond.trans (hstream m₂))

def patchOf (dst src : Handle) (info : FwInfo) : Prog (Machine σ κ) Bool :=
  hpatchliteReleaseFromPart env.io env.hpatch src dst (i32 info.pkgSize.toNat)
    (i32 info.rawSize.toNat) srcReadPos

theorem hpatchRelease_paired (dst src : Handle) (info : FwInfo)
    {tr : List Event} (hopen : StagesOpen algo tr) {front : List Event} {m : Machine σ κ}
    (hlog : m.log = front ++ tr) :
    ∃ tr', (hpatchRelease env dst src info algo m).2.log = front ++ tr' ∧
      (StagesPaired (some algo) tr' ↔
        (patchOf env dst src info m).1 = true ∨ ∀ stage, ¬algo.hasDeinit stage) := by
  have hpatch : Within Stageless (patchOf env dst src info) :=
    on_hpatchliteReleaseFromPart (@stageless_body σ κ env.io)
      (stageless_swap env.io env.hpatch) trivial trivial trivial _ _ _
  obtain ⟨more, hmore, hnone⟩ := hpatch m
  rw [hlog, List.append_assoc] at hmore
  have hmid := hopen.append hnone
  have hrun : hpatchRelease env dst src info algo =
      (do if ← patchOf env dst src info then
            fwAlgoDeinit algo
            pure true
          else pure false) := rfl
  rw [hrun, Prog.run_bind, Prog.run_ite]
  generalize patchOf env dst src info m = r at hmore ⊢
  obtain ⟨ok, m₁⟩ := r
  cases ok with
  | false =>
      refine ⟨tr ++ more, hmore, hmid.paired_iff.trans ?_⟩
      simp
  | true =>
      have hdeinit := fwAlgoDeinit_log algo m₁
      dsimp only at hmore
      rw [hmore, List.append_assoc front] at hdeinit
      exact ⟨_, hdeinit, iff_of_true hmid.paired (.inl rfl)⟩

/-- If the release patches in place, the patch succeeds, or neither stage has a
cleanup. -/
def PatchCleans (dst src : Handle) (info : FwInfo) (m : Machine σ κ) : Prop :=
  ∀ algo, fwGetAlgoContext env.tables info = some algo → (fwAlgoInit algo m).1 = true →
    (env.build.usingHpatchlite && algo.cmprs.cmprsId == algoCmprsHpatchlite) = true →
    (patchOf env dst src info (fwAlgoInit algo m).2).1 = true ∨
      ∀ stage, ¬algo.hasDeinit stage

/-- Writing the header comes after the cleanup. -/
theorem header_keeps {front tr : List Event} {m : Machine σ κ} {P : List Event → Prop}
    (hP : ∀ more, NoStage more → P tr → P (tr ++ more)) (released : Bool)
    (dst : Handle) (dstSize : Nat) (info : FwInfo)
    (hlog : m.log = front ++ tr) (h : P tr) :
    ∃ tr', ((if released then fwInfoWrite env dst dstSize info true else pure false :
        Prog (Machine σ κ) Bool) m).2.log = front ++ tr' ∧ P tr' := by
  have hquiet : Within Stageless (if released then fwInfoWrite env dst dstSize info true
      else pure false : Prog (Machine σ κ) Bool) :=
    .ite (stageless_ioWrite env.io dst _ _) (.pure _)
  obtain ⟨more, hmore, hnone⟩ := hquiet m
  rw [hlog, List.append_assoc] at hmore
  exact ⟨tr ++ more, hmore, hP more hnone h⟩

theorem paired_append_iff (hmore : NoStage more) :
    StagesPaired (some algo) (tr ++ more) ↔ StagesPaired (some algo) tr := by
  refine ⟨fun h stage => ?_, fun h => h.append hmore⟩
  have hstage := h stage
  dsimp only at hstage ⊢
  rwa [hmore.setUp_append, List.count_append, hmore.count, Nat.add_zero] at hstage

theorem fwRelease_paired_iff (dst : Handle) (dstSize : Nat) (src : Handle) (info : FwInfo)
    (m : Machine σ κ) :
    ∃ tr, (fwRelease env dst dstSize src info m).2.log = m.log ++ tr ∧
      (StagesPaired (fwGetAlgoContext env.tables info) tr ↔
        PatchCleans env dst src info m) := by
  unfold fwRelease PatchCleans
  cases hctx : fwGetAlgoContext env.tables info with
  | none =>
      exact ⟨[], (List.append_nil _).symm,
        iff_of_true (fun stage => rfl) (fun algo hsome => nomatch hsome)⟩
  | some algo =>
      obtain ⟨tr, hlog, hopen, hfail⟩ := fwAlgoInit_log algo m
      have honly (P : AlgoContext κ → Prop) :
          (∀ algo', some algo = some algo' → P algo') ↔ P algo := by
        simp
      rw [honly]
      dsimp only
      rw [Prog.run_bind, Prog.run_ite]
      generalize fwAlgoInit algo m = r at hlog hopen hfail ⊢
      obtain ⟨ok, m₁⟩ := r
      cases ok with
      | false =>
          exact ⟨tr, hlog, iff_of_true (hfail rfl) (fun hno => nomatch hno)⟩
      | true =>
          have hstages := hopen rfl
          rw [if_pos rfl]
          cases hpatched : env.build.usingHpatchlite &&
              algo.cmprs.cmprsId == algoCmprsHpatchlite with
          | false =>
              obtain ⟨tr₁, hlog₁, hpaired⟩ :=
                streamRelease_paired env dst dstSize src info hstages hlog
              rw [if_neg (by simp), Prog.run_bind]
              obtain ⟨tr₂, hlog₂, hpaired₂⟩ := header_keeps env
                (P := StagesPaired (some algo)) (fun more hmore h => h.append hmore)
                (streamRelease env dst dstSize src info algo m₁).1 dst dstSize info
                hlog₁ hpaired
              exact ⟨tr₂, hlog₂, iff_of_true hpaired₂ (fun _ hno => nomatch hno)⟩
          | true =>
              obtain ⟨tr₁, hlog₁, hiff⟩ :=
                hpatchRelease_paired env dst src info hstages hlog
              rw [if_pos rfl, Prog.run_bind]
              obtain ⟨tr₂, hlog₂, hiff₂⟩ := header_keeps env
                (P := fun tr' => StagesPaired (some algo) tr' ↔
                  (patchOf env dst src info m₁).1 = true ∨
                    ∀ stage, ¬algo.hasDeinit stage)
                (fun more hmore h => (paired_append_iff hmore).trans h)
                (hpatchRelease env dst src info algo m₁).1 dst dstSize info hlog₁ hiff
              refine ⟨tr₂, hlog₂, hiff₂.trans ?_⟩
              simp

/-- On every path of a checking pass the stages are paired, and on every path of
a release exactly if it does not leave after a failed patch. -/
theorem stages_paired_iff (dst : Handle) (dstSize : Nat) (src : Handle) (info : FwInfo)
    (m : Machine σ κ) :
    (∃ tr, (appCrcCheck env src info m).2.log = m.log ++ tr ∧
        StagesPaired (fwGetAlgoContext env.tables info) tr) ∧
      ∃ tr, (fwRelease env dst dstSize src info m).2.log = m.log ++ tr ∧
        (StagesPaired (fwGetAlgoContext env.tables info) tr ↔
          PatchCleans env dst src info m) :=
  ⟨appCrcCheck_paired env src info m, fwRelease_paired_iff env dst dstSize src info m⟩

/-! ## A failed patch -/

def cleanedCrypt : CryptoOps Unit where
  cryptoId := algoCryptNone
  init := some (pure .eok)
  decrypt := fun _ inp => pure (.eok, inp)
  deinit := some (pure ())

/-- A build with patching, where `hpi_patch` ends with `success`. -/
def patchingEnv (success : Bool) : Env Unit Unit where
  build := ⟨false, false, false, false, true⟩
  io := calmIo
  crc := crc32Lib
  parser := ⟨fun _ _ => pure (some false), fun _ _ => pure true, fun _ _ => pure true⟩
  tables :=
    { cmprs := fun idx => if idx = 4 then some hpatchliteCmprsOps else none
      crypt := fun idx => if idx = 0 then some cleanedCrypt else none }
  hpatch :=
    { cfg := ramConfig
      malloc := fun size => pure (size != 0)
      malloc_zero := fun _ => rfl
      hpiPatch := .done success }
  productCode := none
  usingAppCheck := false

def patchImage : FwInfo := { emptyImage with algo := 0x0400 }

/-- After a patch that fails the crypto stage stays set up. -/
theorem failedPatch_unpaired :
    ∃ tr, (fwRelease (patchingEnv false) ⟨.app, 0⟩ 4096 ⟨.download, 0⟩ patchImage
        calmMachine).2.log = tr ∧
      ¬StagesPaired (fwGetAlgoContext (patchingEnv false).tables patchImage) tr := by
  obtain ⟨tr, hlog, hiff⟩ := fwRelease_paired_iff (patchingEnv false) ⟨.app, 0⟩ 4096
    ⟨.download, 0⟩ patchImage calmMachine
  refine ⟨tr, hlog, fun hpaired => ?_⟩
  have hends := hiff.mp hpaired ⟨cleanedCrypt, hpatchliteCmprsOps⟩ rfl rfl rfl
  obtain hpatched | hno := hends
  · exact nomatch hpatched
  · exact hno .crypt rfl

end Qboot
