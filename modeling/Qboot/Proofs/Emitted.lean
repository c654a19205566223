import Qboot.Proofs.HandleUse
/-!
# What a release records

The events of the boot thread itself, its jumps, notifications and answers, are
recorded by the thread and by `qbt_fw_update`; whatever is below them records
storage and codec events only, and nothing is ever taken off the record.
-/

namespace Qboot

open Library Prog Machine Loop

variable {σ κ α : Type}

def Event.inner : Event → Bool
  | .releaseStart .. => false
  | .released .. => false
  | .updated .. => false
  | .jumped => false
  | .notified _ => false
  | .reset => false
  | _ => true

theorem Event.inner_of_aside {e : Event} (he : e.aside = true) : e.inner = true := by
  cases e <;> first | rfl | cases he

/-- The record has grown by storage and codec events. -/
def Inner (m m' : Machine σ κ) : Prop :=
  Extends Machine.log (fun e => e.inner = true) m m'

instance : IsPreorder (Machine σ κ) Inner :=
  inferInstanceAs (IsPreorder _ (Extends Machine.log _))

/-! ## What stays within a relation -/

/-- Storage operations with their events, and all that the code does with its memory,
its static header and its record, stay within `R`. -/
structure Admits (io : IoOps σ) (R : Machine σ κ → Machine σ κ → Prop) : Prop where
  opens : ∀ id flags, Within R (targetOpen io id flags)
  closes : ∀ h, Within R (targetClose io h)
  reads : ∀ h off len, Within R (ioRead io h off len)
  writes : ∀ h off data, Within R (ioWrite io h off data)
  erases : ∀ h off len, Within R (eraseWithFeed io h off len)
  sizes : ∀ h, Within R (onDev (io.size h))
  aligns : ∀ h, Within R (onDev (io.getEraseAlign h))
  mem : ∀ {α : Type} (x : Prog κ α), Within R (onMem x)
  info : ∀ h, Within R (setFwInfo h)
  emits : ∀ e, e.inner = true → Within R (emit e)

structure AdmitsEnv (env : Env σ κ) (R : Machine σ κ → Machine σ κ → Prop) : Prop
    extends Admits env.io R where
  mallocs : ∀ size, Within R (onDev (env.hpatch.malloc size))
  signReads : ∀ h info, Within R (onDev (env.parser.signRead h info))
  signWrites : ∀ h info, Within R (onDev (env.parser.signWrite h info))

theorem AdmitsEnv.weaken {env : Env σ κ} {R R' : Machine σ κ → Machine σ κ → Prop}
    (hR : AdmitsEnv env R) (himp : ∀ m m', R m m' → R' m m') : AdmitsEnv env R' where
  opens := fun id flags => (hR.opens id flags).weaken himp
  closes := fun h => (hR.closes h).weaken himp
  reads := fun h off len => (hR.reads h off len).weaken himp
  writes := fun h off data => (hR.writes h off data).weaken himp
  erases := fun h off len => (hR.erases h off len).weaken himp
  sizes := fun h => (hR.sizes h).weaken himp
  aligns := fun h => (hR.aligns h).weaken himp
  mem := fun x => (hR.mem x).weaken himp
  info := fun h => (hR.info h).weaken himp
  emits := fun e he => (hR.emits e he).weaken himp
  mallocs := fun size => (hR.mallocs size).weaken himp
  signReads := fun h info => (hR.signReads h info).weaken himp
  signWrites := fun h info => (hR.signWrites h info).weaken himp

section Code

variable {R : Machine σ κ → Machine σ κ → Prop}

theorem AdmitsEnv.everywhere {env : Env σ κ} (hR : AdmitsEnv env R) :
    AdmitsEnvOn env (fun _ => True) (fun _ => True) R where
  reads := fun h off len _ => hR.reads h off len
  writes := fun h off data _ => hR.writes h off data
  erases := fun h off len _ => hR.erases h off len
  sizes := fun h _ => hR.sizes h
  aligns := fun h _ => hR.aligns h
  mem := hR.mem
  info := hR.info
  emits := fun e he => hR.emits e (Event.inner_of_aside he)
  signReads := fun h info _ => hR.signReads h info
  signWrites := fun h info _ => hR.signWrites h info

theorem AdmitsEnv.swap {env : Env σ κ} (hR : AdmitsEnv env R) :
    AdmitsSwap env.io env.hpatch (fun _ => True) (fun _ => True) R where
  mallocs := hR.mallocs
  opens := hR.opens _ _
  closes := fun _ => hR.closes _
  usable := fun _ => ⟨trivial, trivial⟩

variable [IsPreorder (Machine σ κ) R] {env : Env σ κ} (hR : AdmitsEnv env R) (h : Handle)
include hR

theorem within_releaseSignCheck : Within R (releaseSignCheck env h) :=
  on_releaseSignCheck hR.everywhere trivial

theorem within_releaseSignWrite : Within R (releaseSignWrite env h) :=
  on_releaseSignWrite hR.everywhere trivial

theorem within_fwCrcCheck (addr size : Nat) (crc : UInt32) :
    Within R (fwCrcCheck env h addr size crc) :=
  on_fwCrcCheck hR.everywhere.toAdmitsOn trivial addr size crc

theorem within_appCrcCheck (info : FwInfo) : Within R (appCrcCheck env h info) :=
  on_appCrcCheck hR.everywhere.toAdmitsOn trivial info

theorem within_fwCheck (partLen : Nat) : Within R (fwCheck env h partLen) :=
  on_fwCheck hR.everywhere trivial partLen

theorem within_destPartVerify (partLen : Nat) : Within R (destPartVerify env h partLen) :=
  on_destPartVerify hR.everywhere trivial partLen

theorem within_fwRelease (dstSize : Nat) (src : Handle) (info : FwInfo) :
    Within R (fwRelease env h dstSize src info) :=
  on_fwRelease hR.everywhere.toAdmitsOn hR.swap trivial ⟨trivial, trivial⟩ dstSize info

end Code

/-! ## The record of an update -/

theorem inner_onDev (x : Prog σ α) : Within Inner (onDev x : Prog (Machine σ κ) α) :=
  fun _ => extends_of_eq rfl

theorem inner_onMem (x : Prog κ α) : Within Inner (onMem x : Prog (Machine σ κ) α) :=
  fun _ => extends_of_eq rfl

theorem inner_setFwInfo (h : FwInfo) :
    Within Inner (setFwInfo h : Prog (Machine σ κ) Unit) :=
  fun _ => extends_of_eq rfl

theorem inner_emit {e : Event} (he : e.inner = true) :
    Within Inner (emit e : Prog (Machine σ κ) Unit) :=
  fun _ => extends_concat rfl he

section Storage

variable (io : IoOps σ) (h : Handle)

theorem inner_ioRead (off len : Nat) :
    Within Inner (ioRead io h off len : Prog (Machine σ κ) _) :=
  (inner_onDev _).bind fun _ => (inner_emit rfl).bind fun _ => .pure _

theorem inner_ioWrite (off : Nat) (data : List UInt8) :
    Within Inner (ioWrite io h off data : Prog (Machine σ κ) _) :=
  (inner_onDev _).bind fun _ => (inner_emit rfl).bind fun _ => .pure _

theorem inner_eraseWithFeed (off len : Nat) :
    Within Inner (eraseWithFeed io h off len : Prog (Machine σ κ) _) :=
  (inner_onDev _).bind fun _ => (inner_emit rfl).bind fun _ => .pure _

theorem inner_targetClose :
    Within Inner (targetClose io h : Prog (Machine σ κ) _) :=
  (inner_onDev _).bind fun _ => inner_emit rfl

theorem inner_targetOpen (id : TargetId) (flags : OpenFlags) :
    Within Inner (targetOpen io id flags : Prog (Machine σ κ) _) := by
  unfold targetOpen
  refine (inner_onDev _).bind fun ref => ?_
  rcases ref with _ | ref
  · exact (inner_emit rfl).bind fun _ => .pure _
  · refine (inner_emit rfl).bind fun _ => (inner_onDev _).bind fun size => ?_
    rcases size with _ | size
    · exact (inner_targetClose io _).bind fun _ => .pure _
    · exact .pure _

end Storage

theorem inner_admits (env : Env σ κ) : AdmitsEnv env Inner where
  opens := inner_targetOpen env.io
  closes := inner_targetClose env.io
  reads := inner_ioRead env.io
  writes := inner_ioWrite env.io
  erases := inner_eraseWithFeed env.io
  sizes := fun _ => inner_onDev _
  aligns := fun _ => inner_onDev _
  mem := inner_onMem
  info := inner_setFwInfo
  emits := fun _ => inner_emit
  mallocs := fun _ => inner_onDev _
  signReads := fun _ _ => inner_onDev _
  signWrites := fun _ _ => inner_onDev _

section Update

variable (env : Env σ κ) (h : Handle)

theorem fwUpdate_log (dstSize : Nat) (src : Handle) (m : Machine σ κ) :
    ∃ new, (fwUpdate env h dstSize src m).2.log =
        m.log ++ new ++ [.updated h.target (fwUpdate env h dstSize src m).1] ∧
      ∀ e ∈ new, e.inner = true := by
  have hrelease := within_fwRelease (inner_admits env) h dstSize src m.fwInfo m
  rcases hrun : fwRelease env h dstSize src m.fwInfo m with ⟨_ | _, m₁⟩
  · rw [hrun] at hrelease
    obtain ⟨new, hlog, hnew⟩ := hrelease
    have hlog : m₁.log = m.log ++ new := hlog
    refine ⟨new, ?_, hnew⟩
    simp [fwUpdate, hrun, hlog]
  · rw [hrun] at hrelease
    obtain ⟨new, hlog, hnew⟩ :=
      hrelease.trans (within_destPartVerify (inner_admits env) h dstSize m₁)
    refine ⟨new, ?_, hnew⟩
    simp [fwUpdate, hrun, hlog]

end Update

/-! ## The paths of the boot thread -/

/-- The start or the end of `qbt_release_from_part`. -/
def Event.marksRelease : Event → Bool
  | .releaseStart .. => true
  | .released .. => true
  | _ => false

/-- The record has grown, and by no start or end of a release. -/
def Unmarked (m m' : Machine σ κ) : Prop :=
  Extends Machine.log (fun e => e.marksRelease = false) m m'

instance : IsPreorder (Machine σ κ) Unmarked :=
  inferInstanceAs (IsPreorder _ (Extends Machine.log _))

theorem unmarked_admits (env : Env σ κ) : AdmitsEnv env Unmarked := by
  refine (inner_admits env).weaken fun _ _ hext => Extends.imp hext fun e he => ?_
  cases e <;> first | rfl | cases he

theorem unmarked_onDev (x : Prog σ α) :
    Within Unmarked (onDev x : Prog (Machine σ κ) α) :=
  fun _ => extends_of_eq rfl

theorem unmarked_emit {e : Event} (he : e.marksRelease = false) :
    Within Unmarked (emit e : Prog (Machine σ κ) Unit) :=
  fun _ => extends_concat rfl he

section Paths

variable (env : Env σ κ)

theorem unmarked_fwUpdate (dst : Handle) (dstSize : Nat) (src : Handle) :
    Within Unmarked (fwUpdate env dst dstSize src) := by
  intro m
  obtain ⟨new, hlog, hnew⟩ := fwUpdate_log env dst dstSize src m
  refine ⟨_, hlog.trans (List.append_assoc ..), fun e he => ?_⟩
  rcases List.mem_append.mp he with he | he
  · have hinner := hnew e he
    cases e <;> first | rfl | cases hinner
  · rw [List.mem_singleton.mp he]
    rfl

theorem unmarked_productCode {x : Prog (Machine σ κ) Bool} (hx : Within Unmarked x) :
    Within Unmarked (do if ← productCodeOk env then x else pure false :
      Prog (Machine σ κ) Bool) :=
  ((Within.gets _).bind fun _ => .pure _).bind fun _ => .ite hx (.pure _)

theorem unmarked_updateAndSign (dst : Handle) (dstSize : Nat) (src : Handle) :
    Within Unmarked (updateAndSign env dst dstSize src) := by
  refine (unmarked_fwUpdate _ _ _ _).bind fun _ => .ite ?_ (.pure _)
  refine (within_releaseSignCheck (unmarked_admits env) _).bind fun _ => ?_
  refine .ite ?_ ((Within.pure _).bind fun _ => .pure _)
  exact ((within_releaseSignWrite (unmarked_admits env) _).bind fun _ => .pure _).bind
    fun _ => .pure _

theorem unmarked_releaseOpened (src : Handle) (srcSize : Nat) (checkSign : Bool) :
    Within Unmarked (releaseOpened env src srcSize checkSign) := by
  refine (within_fwCheck (unmarked_admits env) _ _).bind fun _ =>
    .ite (unmarked_productCode env ?_) (.pure _)
  refine Within.bind (.ite (within_releaseSignCheck (unmarked_admits env) _) (.pure _))
    fun _ => .ite (.pure _) ((Within.gets _).bind fun info => ?_)
  rcases nameToId env.hpatch.cfg.useStorageSwap info.fromPartName with _ | dstId
  · exact .pure _
  refine ((unmarked_admits env).opens _ _).bind fun r => ?_
  rcases r with ⟨_ | dst, _ | dstSize⟩
  · exact .pure _
  · exact .pure _
  · exact ((unmarked_admits env).closes _).bind fun _ => .pure _
  · exact (unmarked_updateAndSign _ _ _ _).bind fun _ =>
      ((unmarked_admits env).closes _).bind fun _ => .pure _

theorem unmarked_resumeOpened (src : Handle) (srcSize : Nat) (dst : Handle)
    (dstSize : Nat) : Within Unmarked (resumeOpened env src srcSize dst dstSize) := by
  refine (within_fwCheck (unmarked_admits env) _ _).bind fun _ =>
    .ite (unmarked_productCode env ?_) (.pure _)
  exact (Within.gets _).bind fun _ => .ite (unmarked_fwUpdate _ _ _ _) (.pure _)

theorem unmarked_appResumeFrom (srcId : TargetId) :
    Within Unmarked (appResumeFrom env srcId) := by
  have hclose (src : Handle) : Within Unmarked (do
      targetClose env.io src
      pure false : Prog (Machine σ κ) Bool) :=
    ((unmarked_admits env).closes src).bind fun _ => .pure _
  refine ((unmarked_admits env).opens _ _).bind fun r => ?_
  rcases r with ⟨_ | src, _ | srcSize⟩
  · exact .pure _
  · exact .pure _
  · exact .pure _
  refine ((unmarked_admits env).opens _ _).bind fun r => ?_
  rcases r with ⟨_ | dst, _ | dstSize⟩
  · exact hclose src
  · exact hclose src
  · exact hclose src
  · exact (unmarked_resumeOpened _ _ _ _ _).bind fun _ =>
      ((unmarked_admits env).closes _).bind fun _ =>
        ((unmarked_admits env).closes _).bind fun _ => .pure _

theorem releaseFromPart_log (srcId : TargetId) (checkSign : Bool) (m : Machine σ κ) :
    ∃ new, (releaseFromPart env srcId checkSign m).2.log =
        m.log ++ (.releaseStart srcId checkSign :: new) ++
          [.released srcId checkSign (releaseFromPart env srcId checkSign m).1] ∧
      ∀ e ∈ new, e.marksRelease = false := by
  generalize hstart : (emit (.releaseStart srcId checkSign) m).2 = m₁
  have hlog₁ : m₁.log = m.log ++ [.releaseStart srcId checkSign] := by rw [← hstart]; rfl
  have hopen := (unmarked_admits env).opens srcId .read m₁
  have hend (rst : Bool) {m₂ : Machine σ κ} (h : Unmarked m₁ m₂)
      (hrun : releaseFromPart env srcId checkSign m =
        (rst, (emit (.released srcId checkSign rst) m₂).2)) :
      ∃ new, (releaseFromPart env srcId checkSign m).2.log =
          m.log ++ (.releaseStart srcId checkSign :: new) ++
            [.released srcId checkSign (releaseFromPart env srcId checkSign m).1] ∧
        ∀ e ∈ new, e.marksRelease = false := by
    obtain ⟨new, hlog, hnew⟩ := h
    refine ⟨new, ?_, hnew⟩
    rw [hrun, run_emit, hlog, hlog₁]
    simp
  rcases hrun : targetOpen env.io srcId .read m₁ with ⟨⟨_ | src, _ | size⟩, m₂⟩
  all_goals rw [hrun] at hopen
  · refine hend false hopen ?_
    rw [releaseFromPart, Prog.run_bind, hstart, Prog.run_bind, hrun]
    rfl
  · refine hend false hopen ?_
    rw [releaseFromPart, Prog.run_bind, hstart, Prog.run_bind, hrun]
    rfl
  · refine hend false hopen ?_
    rw [releaseFromPart, Prog.run_bind, hstart, Prog.run_bind, hrun]
    rfl
  · have hbody := unmarked_releaseOpened env src size checkSign m₂
    rcases hrst : releaseOpened env src size checkSign m₂ with ⟨rst, m₃⟩
    rw [hrst] at hbody
    have hclose := (unmarked_admits env).closes src m₃
    refine hend rst ((hopen.trans hbody).trans hclose) ?_
    rw [releaseFromPart, Prog.run_bind, hstart, Prog.run_bind, hrun]
    simp only [Prog.run_bind, hrst]
    rfl

end Paths

end Qboot
