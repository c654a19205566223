import Qboot.Proofs.FileUpdate
import Qboot.Proofs.Restart
/-!
# From the release to the update

A release erases and writes a target only if it gets to `qbt_fw_update` of that target,
and from there on it answers what the update answers.
-/

namespace Qboot

open Library Prog Machine

variable {σ κ : Type}

/-- No erase and no write has been issued to `id`. -/
def Untouched (id : TargetId) (m m' : Machine σ κ) : Prop :=
  Extends Machine.log (fun e => e.touches id = false) m m'

instance (id : TargetId) : IsPreorder (Machine σ κ) (Untouched id) :=
  inferInstanceAs (IsPreorder _ (Extends Machine.log _))

section Frame

variable {id : TargetId}

theorem untouched_onDev {α : Type} (x : Prog σ α) :
    Within (Untouched id) (onDev x : Prog (Machine σ κ) α) :=
  fun _ => extends_of_eq rfl

theorem untouched_emit {e : Event} (he : e.touches id = false) :
    Within (Untouched id) (emit e : Prog (Machine σ κ) Unit) :=
  fun _ => extends_concat rfl he

theorem untouched_admits (env : Env σ κ) (id : TargetId) :
    AdmitsEnvOn env (fun _ => True) (fun h => h.target ≠ id) (Untouched id) where
  reads := fun h off len _ => (untouched_onDev _).bind fun _ =>
    (untouched_emit rfl).bind fun _ => .pure _
  writes := fun h off data hne => (untouched_onDev _).bind fun ok =>
    (untouched_emit (show Event.touches id (.wrote h.target off data ok) = false from
      beq_eq_false_iff_ne.mpr hne)).bind fun _ => .pure _
  erases := fun h off len hne => (untouched_onDev _).bind fun ok =>
    (untouched_emit (show Event.touches id (.erased h.target off len ok) = false from
      beq_eq_false_iff_ne.mpr hne)).bind fun _ => .pure _
  sizes := fun _ _ => untouched_onDev _
  aligns := fun _ _ => untouched_onDev _
  mem := fun _ _ => extends_of_eq rfl
  emits := fun e he => untouched_emit (by cases e <;> first | rfl | cases he)
  info := fun _ _ => extends_of_eq rfl
  signReads := fun _ _ _ => untouched_onDev _
  signWrites := fun _ _ _ => untouched_onDev _

theorem untouched_targetClose (io : IoOps σ) (h : Handle) :
    Within (Untouched id) (targetClose io h : Prog (Machine σ κ) Unit) :=
  (untouched_onDev _).bind fun _ => untouched_emit rfl

theorem untouched_targetOpen (io : IoOps σ) (id' : TargetId) (flags : OpenFlags) :
    Within (Untouched id) (targetOpen io id' flags : Prog (Machine σ κ) _) := by
  refine (untouched_onDev _).bind fun ref => ?_
  rcases ref with _ | ref
  · exact (untouched_emit rfl).bind fun _ => .pure _
  refine (untouched_emit rfl).bind fun _ => (untouched_onDev _).bind fun size => ?_
  rcases size with _ | size
  · exact (untouched_targetClose io _).bind fun _ => .pure _
  · exact .pure _

theorem untouched_swap (env : Env σ κ) (hswap : id ≠ .swap) :
    AdmitsSwap env.io env.hpatch (fun _ => True) (fun h => h.target ≠ id)
      (Untouched (κ := κ) id) where
  mallocs := fun _ => untouched_onDev _
  opens := untouched_targetOpen env.io _ _
  closes := fun _ => untouched_targetClose env.io _
  usable := fun _ => ⟨trivial, hswap.symm⟩

end Frame

/-! ## What an update touches -/

def Grows (m m' : Machine σ κ) : Prop := Extends Machine.log (fun _ => True) m m'

instance : IsPreorder (Machine σ κ) Grows :=
  inferInstanceAs (IsPreorder _ (Extends Machine.log _))

def Touched (id : TargetId) (m m' : Machine σ κ) : Prop :=
  Traced m m' fun new => ∃ e ∈ new, e.touches id = true

theorem Touched.grow {id : TargetId} {m₀ m m' : Machine σ κ} (h : Touched id m₀ m)
    (hgrows : Grows m m') : Touched id m₀ m' := by
  obtain ⟨more, hmore, -⟩ := hgrows
  exact Traced.concat h hmore fun new ⟨e, he, ht⟩ => ⟨e, List.mem_append_left more he, ht⟩

theorem Touched.after {id : TargetId} {m₀ m m' : Machine σ κ} (hgrows : Grows m₀ m)
    (h : Touched id m m') : Touched id m₀ m' := by
  obtain ⟨before, hbefore, -⟩ := hgrows
  obtain ⟨new, hnew, e, he, ht⟩ := h
  exact ⟨before ++ new, by rw [hnew, hbefore, List.append_assoc], e,
    List.mem_append_right before he, ht⟩

theorem Untouched.grows {id : TargetId} {m m' : Machine σ κ} (h : Untouched id m m') :
    Grows m m' :=
  h.imp fun _ _ => trivial

theorem grows_admits (env : Env σ κ) :
    AdmitsEnvOn env (fun _ => True) (fun _ => True) (Grows (σ := σ) (κ := κ)) where
  reads := fun _ _ _ _ _ => extends_concat rfl trivial
  writes := fun _ _ _ _ _ => extends_concat rfl trivial
  erases := fun _ _ _ _ _ => extends_concat rfl trivial
  sizes := fun _ _ _ => extends_of_eq rfl
  aligns := fun _ _ _ => extends_of_eq rfl
  mem := fun _ _ => extends_of_eq rfl
  emits := fun _ _ _ => extends_concat rfl trivial
  info := fun _ _ => extends_of_eq rfl
  signReads := fun _ _ _ _ => extends_of_eq rfl
  signWrites := fun _ _ _ _ => extends_of_eq rfl

theorem grows_swap (env : Env σ κ) :
    AdmitsSwap env.io env.hpatch (fun _ => True) (fun _ => True) (Grows (σ := σ) (κ := κ)) where
  mallocs := fun _ _ => extends_of_eq rfl
  opens := fun m => (@untouched_targetOpen σ κ .app env.io .swap .writeCreate m).grows
  closes := fun ref m => (@untouched_targetClose σ κ .app env.io ⟨.swap, ref⟩ m).grows
  usable := fun _ => ⟨trivial, trivial⟩

/-- The stages of the package can be set up. -/
def StagesReady (env : Env σ κ) (info : FwInfo) (k : κ) : Prop :=
  ∃ algo, fwGetAlgoContext env.tables info = some algo ∧
    (fwAlgoInit algo (⟨(), k, info, []⟩ : Machine Unit κ)).1 = true

theorem stagesReady_iff {env : Env σ κ} {info : FwInfo} {algo : AlgoContext κ}
    (halgo : fwGetAlgoContext env.tables info = some algo) (m : Machine σ κ) :
    StagesReady env info m.mem ↔ (fwAlgoInit algo m).1 = true := by
  have hsame : (fwAlgoInit algo m).1 =
      (fwAlgoInit algo (⟨(), m.mem, info, []⟩ : Machine Unit κ)).1 :=
    (fwAlgoInit_mem algo (show m.mem = (⟨(), m.mem, info, []⟩ : Machine Unit κ).mem from rfl)).1
  rw [hsame]
  refine ⟨fun ⟨algo', halgo', hinit⟩ => ?_, fun hinit => ⟨algo, halgo, hinit⟩⟩
  obtain rfl := Option.some.inj (halgo.symm.trans halgo')
  exact hinit

section Update

variable {env : Env σ κ} {src dst : Handle} {dstSize : Nat} {m : Machine σ κ}

theorem streamRelease_touches (info : FwInfo) (algo : AlgoContext κ) :
    Touched dst.target m (streamRelease env dst dstSize src info algo m).2 := by
  have hR := grows_admits env
  have hdeinit (ok : Bool) : Within Grows (do
      fwAlgoDeinit algo
      pure ok : Prog (Machine σ κ) Bool) :=
    (on_fwAlgoDeinit hR.toAdmitsOn algo).bind fun _ => .pure _
  have hrest (erased : Bool) : Within Grows (if erased then do
      if ← eraseWithFeed env.io dst (u32Sub dstSize srcReadPos) srcReadPos then
        let r ← fwStreamProcess env.toPlatform info src algo
          (.write ⟨dst, 0, info.rawSize.toNat⟩)
        fwAlgoDeinit algo
        pure r.1
      else
        fwAlgoDeinit algo
        pure false
    else do
      fwAlgoDeinit algo
      pure false : Prog (Machine σ κ) Bool) := by
    refine .ite ((hR.erases _ _ _ trivial).bind fun _ => .ite ?_ (hdeinit false)) (hdeinit false)
    exact (on_fwStreamProcess info src algo hR.body trivial
      (.write ⟨dst, 0, info.rawSize.toNat⟩) trivial).bind fun r => hdeinit r.1
  have herased : Touched dst.target m (eraseWithFeed env.io dst 0 info.rawSize.toNat m).2 :=
    ⟨_, rfl, _, List.mem_singleton_self _, beq_self_eq_true _⟩
  exact herased.grow (hrest _ _)

def sealAndVerify (env : Env σ κ) (dst : Handle) (dstSize : Nat) (info : FwInfo) :
    Prog (Machine σ κ) Bool := do
  if ← fwInfoWrite env dst dstSize info true then destPartVerify env dst dstSize else pure false

def releaseBody (env : Env σ κ) (dst : Handle) (dstSize : Nat) (src : Handle) (info : FwInfo)
    (algo : AlgoContext κ) : Prog (Machine σ κ) Bool :=
  if env.build.usingHpatchlite && algo.cmprs.cmprsId == algoCmprsHpatchlite then
    hpatchRelease env dst src info algo
  else streamRelease env dst dstSize src info algo

def finishUpdate (env : Env σ κ) (dst : Handle) (dstSize : Nat) (info : FwInfo)
    (released : Bool) : Prog (Machine σ κ) Bool := do
  let ok ← if released then sealAndVerify env dst dstSize info else pure false
  emit (.updated dst.target ok)
  pure ok

theorem fwUpdate_ready {algo : AlgoContext κ} {m₁ : Machine σ κ}
    (halgo : fwGetAlgoContext env.tables m.fwInfo = some algo)
    (hinit : fwAlgoInit algo m = (true, m₁)) :
    fwUpdate env dst dstSize src m =
      (releaseBody env dst dstSize src m.fwInfo algo >>= finishUpdate env dst dstSize m.fwInfo)
        m₁ := by
  have hrelease : fwRelease env dst dstSize src m.fwInfo m =
      (releaseBody env dst dstSize src m.fwInfo algo >>= fun released =>
        if released then fwInfoWrite env dst dstSize m.fwInfo true else pure false) m₁ := by
    simp only [fwRelease, halgo, run_bind, hinit, if_true, releaseBody]
    split <;> rfl
  simp only [fwUpdate, run_bind, run_gets, hrelease]
  rcases releaseBody env dst dstSize src m.fwInfo algo m₁ with ⟨_ | _, m₂⟩
  · rfl
  · simp only [if_true, finishUpdate, sealAndVerify, run_bind]
    rcases fwInfoWrite env dst dstSize m.fwInfo true m₂ with ⟨_ | _, m₃⟩ <;> rfl

theorem finishUpdate_answer (info : FwInfo) (released : Bool) :
    (finishUpdate env dst dstSize info released m).1 =
      (released && (sealAndVerify env dst dstSize info m).1) := by
  cases released <;> rfl

theorem grows_finishUpdate (info : FwInfo) (released : Bool) :
    Within Grows (finishUpdate env dst dstSize info released) := by
  have hR := grows_admits env
  have hseal : Within Grows (sealAndVerify env dst dstSize info) :=
    (hR.writes _ _ _ trivial).bind fun _ => .ite (on_destPartVerify hR trivial dstSize) (.pure _)
  have hanswer (ok : Bool) : Within Grows (do
      emit (.updated dst.target ok)
      pure ok : Prog (Machine σ κ) Bool) :=
    Within.bind (fun _ => extends_concat rfl trivial) fun _ => .pure ok
  cases released with
  | true => exact hseal.bind hanswer
  | false => exact hanswer false

theorem fwUpdate_touches (hstream : Streamed env m.fwInfo)
    (hready : StagesReady env m.fwInfo m.mem) :
    Touched dst.target m (fwUpdate env dst dstSize src m).2 := by
  have hR := grows_admits env
  obtain ⟨algo, halgo, hinit⟩ := hready
  have hinit : (fwAlgoInit algo m).1 = true :=
    (stagesReady_iff halgo m).mp ⟨algo, halgo, hinit⟩
  have hstart : Grows m (fwAlgoInit algo m).2 := on_fwAlgoInit hR.toAdmitsOn algo m
  rw [fwUpdate_ready halgo (Prod.ext hinit rfl), run_bind, releaseBody,
    if_neg (by rw [hstream algo halgo]; decide)]
  exact .after hstart ((streamRelease_touches m.fwInfo algo).grow (grows_finishUpdate _ _ _))

theorem fwRelease_unready (hno : ¬StagesReady env m.fwInfo m.mem) :
    ∃ m', fwRelease env dst dstSize src m.fwInfo m = (false, m') ∧ m'.dev = m.dev ∧
      ∀ id, Untouched id m m' := by
  rcases halgo : fwGetAlgoContext env.tables m.fwInfo with _ | algo
  · exact ⟨m, by simp only [fwRelease, halgo]; rfl, rfl, fun id => refl_of (Untouched id) m⟩
  have hinit : (fwAlgoInit algo m).1 = false :=
    Bool.eq_false_iff.mpr fun hyes => hno ((stagesReady_iff halgo m).mpr hyes)
  have hdev : (fwAlgoInit algo m).2.dev = m.dev := (fwAlgoInit_mem algo rfl).2.2
  refine ⟨(fwAlgoInit algo m).2, ?_, hdev, fun id =>
    on_fwAlgoInit (untouched_admits env id).toAdmitsOn algo m⟩
  simp only [fwRelease, halgo, run_bind, hinit, Bool.false_eq_true, if_false, run_pure]

/-- Without its stages an update fails, and neither touches nor changes anything. -/
theorem fwUpdate_unready (hno : ¬StagesReady env m.fwInfo m.mem) :
    (fwUpdate env dst dstSize src m).1 = false ∧
      (fwUpdate env dst dstSize src m).2.dev = m.dev ∧
      ∀ id, Untouched id m (fwUpdate env dst dstSize src m).2 := by
  obtain ⟨m', hrun, hdev, hkept⟩ : ∃ m', fwRelease env dst dstSize src m.fwInfo m = (false, m') ∧
    m'.dev = m.dev ∧ ∀ id, Untouched id m m' := fwRelease_unready hno
  simp only [fwUpdate, run_bind, run_gets, hrun, Bool.false_eq_true, if_false]
  exact ⟨rfl, hdev, fun id => trans_of (Untouched id) (hkept id) (untouched_emit rfl m')⟩

end Update

section Release

variable (env : Env σ κ) (srcId : TargetId)

/-- A release from `srcId` gets to the update of `dstId`, in the state `m'`. -/
structure Reaches (dstId : TargetId) (m : Machine σ κ) (src dst : Handle) (dstSize : Nat)
    (m' : Machine σ κ) : Prop where
  accepted : (checkPackage env srcId m).1 = .accepted src
  unsigned : (releaseSignCheck env src (checkPackage env srcId m).2).1 = false
  named : nameToId env.hpatch.cfg.useStorageSwap
    (releaseSignCheck env src (checkPackage env srcId m).2).2.fwInfo.fromPartName = some dstId
  opened : targetOpen env.io dstId .writeCreate
    (releaseSignCheck env src (checkPackage env srcId m).2).2 = ((some dst, some dstSize), m')

variable {env srcId} {dstId : TargetId} {m m' : Machine σ κ} {src dst : Handle} {dstSize : Nat}

theorem Reaches.target (h : Reaches env srcId dstId m src dst dstSize m') :
    dst.target = dstId := by
  have htarget := targetOpen_target env.io dstId .writeCreate
    (releaseSignCheck env src (checkPackage env srcId m).2).2
  rw [h.opened] at htarget
  exact htarget dst rfl

theorem Reaches.run (h : Reaches env srcId dstId m src dst dstSize m') :
    releaseFromPart env srcId true m = closeRelease env srcId
      (if (fwUpdate env dst dstSize src m').1 then .updated src dst else .failed src dst)
      (fwUpdate env dst dstSize src m').2 := by
  have happly : applyPackage env (checkPackage env srcId m).1 (checkPackage env srcId m).2 =
      (if (fwUpdate env dst dstSize src m').1 then .updated src dst else .failed src dst,
        (fwUpdate env dst dstSize src m').2) := by
    simp only [h.accepted, applyPackage, run_bind, h.unsigned, Bool.false_eq_true, if_false,
      run_gets, updateNamed, h.named, h.opened]
    rcases fwUpdate env dst dstSize src m' with ⟨_ | _, m₁⟩ <;> rfl
  rw [releaseFromPart_eq, run_bind, run_bind, happly]

theorem Reaches.answer (h : Reaches env srcId dstId m src dst dstSize m') :
    (releaseFromPart env srcId true m).1 = (fwUpdate env dst dstSize src m').1 := by
  rw [h.run, closeRelease_answer]
  cases (fwUpdate env dst dstSize src m').1 <;> rfl

theorem untouched_closeRelease {id : TargetId} (k : Applied) :
    Within (Untouched id) (closeRelease env srcId k) := by
  have hend (h : Handle) (rst : Bool) : Within (Untouched id) (do
      targetClose env.io h
      answerWith srcId rst : Prog (Machine σ κ) Bool) :=
    (untouched_targetClose env.io h).bind fun _ => (untouched_emit rfl).bind fun _ => .pure _
  rcases k with _ | ⟨src, rst⟩ | ⟨src, dst⟩ | ⟨src, dst⟩
  · exact (untouched_emit rfl).bind fun _ => .pure _
  · exact hend src rst
  · exact (untouched_targetClose env.io dst).bind fun _ => hend src false
  · refine (on_releaseSignCheck (untouched_admits env id) trivial).bind fun _ => ?_
    have hsign : Within (Untouched id) (releaseSignWrite env src) :=
      (Within.gets _).bind fun _ => (untouched_onDev _).bind fun _ =>
        (untouched_emit rfl).bind fun _ => .pure _
    have hclose : Within (Untouched id) (do
        targetClose env.io dst
        targetClose env.io src
        answerWith srcId true : Prog (Machine σ κ) Bool) :=
      (untouched_targetClose env.io dst).bind fun _ => hend src true
    exact .ite (hsign.bind fun _ => hclose) hclose

theorem untouched_checkPackage {id : TargetId} :
    Within (Untouched id) (checkPackage env srcId) := by
  refine (untouched_emit rfl).bind fun _ => (untouched_targetOpen env.io srcId .read).bind
    fun o => ?_
  rcases o with ⟨_ | src, _ | size⟩
  · exact .pure _
  · exact .pure _
  · exact .pure _
  refine (on_fwCheck (untouched_admits env id) trivial size).bind fun _ => .ite ?_ (.pure _)
  exact ((Within.gets _).bind fun _ => .pure _).bind fun _ => .ite (.pure _) (.pure _)

/-- Without getting to its update a release does not touch a target. -/
theorem untouched_of_not_reaches (hswap : dstId ≠ .swap)
    (hno : ∀ src dst dstSize m', ¬Reaches env srcId dstId m src dst dstSize m') :
    Untouched dstId m (releaseFromPart env srcId true m).2 := by
  have hcheck : Untouched dstId m (checkPackage env srcId m).2 := untouched_checkPackage m
  rw [releaseFromPart_eq, run_bind, run_bind]
  refine trans_of (Untouched dstId) (trans_of (Untouched dstId) hcheck ?_)
    (untouched_closeRelease _ _)
  rcases hchecked : (checkPackage env srcId m).1 with _ | src | src
  · exact refl_of (Untouched dstId) _
  · exact refl_of (Untouched dstId) _
  have hsign : Untouched dstId (checkPackage env srcId m).2
      (releaseSignCheck env src (checkPackage env srcId m).2).2 :=
    on_releaseSignCheck (untouched_admits env dstId) trivial _
  simp only [applyPackage, run_bind]
  rcases hsigned : (releaseSignCheck env src (checkPackage env srcId m).2).1 with _ | _
  swap
  · exact hsign
  refine trans_of (Untouched dstId) hsign ?_
  simp only [Bool.false_eq_true, if_false]
  generalize hm₂ : (releaseSignCheck env src (checkPackage env srcId m).2).2 = m₂
  show Untouched dstId m₂ (updateNamed env src m₂.fwInfo m₂).2
  unfold updateNamed
  rcases hnamed : nameToId env.hpatch.cfg.useStorageSwap m₂.fwInfo.fromPartName with _ | id
  · exact refl_of (Untouched dstId) _
  have hopen : Untouched dstId m₂ (targetOpen env.io id .writeCreate m₂).2 :=
    untouched_targetOpen env.io id .writeCreate m₂
  have htarget := targetOpen_target env.io id .writeCreate m₂
  simp only [run_bind]
  rcases hopened : targetOpen env.io id .writeCreate m₂ with ⟨⟨_ | dst, _ | dstSize⟩, m₃⟩
  all_goals rw [hopened] at hopen htarget
  · exact hopen
  · exact hopen
  · exact trans_of (Untouched dstId) hopen (untouched_targetClose env.io dst m₃)
  have hne : id ≠ dstId := by
    rintro rfl
    exact hno src dst dstSize m₃
      ⟨hchecked, hsigned, by rw [hm₂]; exact hnamed, by rw [hm₂]; exact hopened⟩
  have hdst : dst.target ≠ dstId := by rwa [htarget dst rfl]
  have hupdate : Untouched dstId m₃ (fwUpdate env dst dstSize src m₃).2 :=
    on_fwUpdate (untouched_admits env dstId) (untouched_swap env hswap)
      (fun _ => untouched_emit rfl) trivial ⟨trivial, hdst⟩ dstSize m₃
  have hboth := trans_of (Untouched dstId) hopen hupdate
  simp only [run_bind]
  rcases hrun : fwUpdate env dst dstSize src m₃ with ⟨_ | _, m₄⟩
  all_goals rw [hrun] at hboth
  · exact hboth
  · exact hboth

theorem Reaches.before (h : Reaches env srcId dstId m src dst dstSize m') (id : TargetId) :
    Untouched id m m' := by
  have hcheck : Untouched id m (checkPackage env srcId m).2 := untouched_checkPackage m
  have hsign : Untouched id (checkPackage env srcId m).2
      (releaseSignCheck env src (checkPackage env srcId m).2).2 :=
    on_releaseSignCheck (untouched_admits env id) trivial _
  have hopen : Untouched id (releaseSignCheck env src (checkPackage env srcId m).2).2 _ :=
    untouched_targetOpen env.io dstId .writeCreate _
  rw [h.opened] at hopen
  exact trans_of (Untouched id) (trans_of (Untouched id) hcheck hsign) hopen

theorem Reaches.behind (h : Reaches env srcId dstId m src dst dstSize m') (id : TargetId) :
    Untouched id (fwUpdate env dst dstSize src m').2 (releaseFromPart env srcId true m).2 := by
  rw [h.run]
  exact untouched_closeRelease _ _

end Release

/-! ## When APP is kept -/

section App

variable {env : Env σ κ} {m m' : Machine σ κ} {src dst : Handle} {dstSize : Nat}

theorem releaseKeepsApp_of_untouched (h : Untouched .app m (releaseFromPart env .download true m).2) :
    ReleaseKeepsApp env m := by
  obtain ⟨new, hlog, hall⟩ := h
  refine ⟨new, hlog, fun ⟨e, he, htouch⟩ => ?_⟩
  exact absurd (hall e he).symm (by simp [htouch])

theorem releaseKeepsApp_of_touched (h : Touched .app m (releaseFromPart env .download true m).2) :
    ReleaseKeepsApp env m ↔ (releaseFromPart env .download true m).1 = true := by
  obtain ⟨new, hlog, htouch⟩ := h
  rw [ReleaseKeepsApp, traced_iff hlog]
  exact ⟨fun hkeeps => hkeeps htouch, fun hok _ => hok⟩

/-- Without its stages the package leaves APP alone. -/
theorem Reaches.keepsApp_of_unready (h : Reaches env .download .app m src dst dstSize m')
    (hno : ¬StagesReady env m'.fwInfo m'.mem) : ReleaseKeepsApp env m := by
  have hupdate : Untouched .app m' (fwUpdate env dst dstSize src m').2 :=
    (fwUpdate_unready hno).2.2 .app
  exact releaseKeepsApp_of_untouched (trans_of (Untouched .app)
    (trans_of (Untouched .app) (h.before .app) hupdate) (h.behind .app))

/-- A release that gets to APP with a full image keeps APP, or its update succeeds. -/
theorem Reaches.keepsApp_iff (h : Reaches env .download .app m src dst dstSize m')
    (hstream : Streamed env m'.fwInfo) :
    ReleaseKeepsApp env m ↔ (StagesReady env m'.fwInfo m'.mem →
      (fwUpdate env dst dstSize src m').1 = true) := by
  by_cases hready : StagesReady env m'.fwInfo m'.mem
  swap
  · exact iff_of_true (h.keepsApp_of_unready hready) fun hyes => absurd hyes hready
  have htouch : Touched .app m' (fwUpdate env dst dstSize src m').2 :=
    h.target ▸ fwUpdate_touches hstream hready
  have hall := (Touched.after (h.before .app).grows htouch).grow (h.behind .app).grows
  rw [releaseKeepsApp_of_touched hall, h.answer]
  exact ⟨fun hok _ => hok, fun hok => hok hready⟩

end App

end Qboot
