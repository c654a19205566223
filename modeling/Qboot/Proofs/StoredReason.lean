import Qboot.Proofs.BootPath
import Qboot.Proofs.Requests
/-!
# The stored reason while a destination is unverified

A boot interleaves the record of `qbt_thread_entry` with calls into the update
manager.  A reset finds whatever reason is stored at that instant, so it matters
in which order a destination is opened up for writing and success is recorded.
-/

namespace Qboot

open Library Prog Machine Run UpdateMgr

variable {σ κ : Type}

/-! ## Destinations in the record -/

/-- The destination of the next `qbt_fw_update` to end. -/
def nextUpdated : List Event → Option TargetId
  | [] => none
  | .updated dst _ :: _ => some dst
  | _ :: es => nextUpdated es

/-- Every event with the destination of the `qbt_fw_update` that it may belong to. -/
def withDest : List Event → List (Event × Option TargetId)
  | [] => []
  | e :: es => (e, nextUpdated (e :: es)) :: withDest es

theorem withDest_fst (es : List Event) : (withDest es).map Prod.fst = es := by
  induction es with
  | nil => rfl
  | cons e es ih => rw [withDest, List.map_cons, ih]

/-! ## A boot with the update manager -/

/-- The manager, and the destinations that have been erased or written in this boot
and not been accepted by `qbt_dest_part_verify` since. -/
structure BootState where
  mgr : UpdateMgr
  unverified : TargetId → Bool

/-- The boot thread goes on, or somebody calls into the manager. -/
inductive BootLabel where
  | thread (e : Event) (dst : Option TargetId) (tick : UInt32)
  | call (e : HelperEvent)
  deriving DecidableEq

namespace BootState

/-- The erase or write belongs to the release onto the target it is issued to. -/
def touch (id : TargetId) (dst : Option TargetId) (s : BootState) : BootState :=
  if dst = some id then
    { s with unverified := Function.update s.unverified id true }
  else s

def issue (s : BootState) (dst : Option TargetId) (tick : UInt32) : Event → BootState
  | .erased id _ _ _ => s.touch id dst
  | .wrote id _ _ _ => s.touch id dst
  | .updated id true => { s with unverified := Function.update s.unverified id false }
  | .notified success => { s with mgr := s.mgr.notifyUpdateResult success tick }
  | _ => s

def bootStep (helper : Bool) (s : BootState) : BootLabel → BootState
  | .thread e dst tick => s.issue dst tick e
  | .call e => { s with mgr := s.mgr.modeStep helper e }

def reset (waitMs idleMs : UInt32) (reason : UpdReason) : BootState :=
  ⟨statics waitMs idleMs reason, fun _ => false⟩

def allVerified (s : BootState) : Prop := ∀ id, s.unverified id = false

end BootState

open BootState

/-- The part of a label that the boot thread has recorded. -/
def BootLabel.threadPart : BootLabel → Option (Event × Option TargetId)
  | .thread e dst _ => some (e, dst)
  | .call _ => none

/-- A boot up to some instant: the thread has got as far as a prefix of its record,
and it has notified success only after its poll of the manager could return. -/
structure BootRun (env : Env σ κ) (inp : BootInputs σ) (m : Machine σ κ)
    (helper : Bool) (s : BootState) where
  labels : List BootLabel
  managed : inp.updateMgrPoll.isSome = true
  threadRun : Traced m (threadEntry env inp m).2 fun new =>
    labels.filterMap BootLabel.threadPart <+: withDest new
  polled : ∀ front dst tick back,
    labels = front ++ .thread (.notified true) dst tick :: back →
      ∃ before after, front = before ++ after ∧
        pollReturns (run (bootStep helper) s before).mgr = true

/-- While a destination is unverified, no success is stored. -/
def ReasonOpen (s : BootState) : Prop := ¬s.allVerified → ¬s.mgr.asksNothing

/-! ## Successes, requests and destinations in a run -/

/-- The call stores NONE or DONE: a finished download, a result of the boot thread, or
a timeout that hands over to the application. -/
def CallSucceeds (u : UpdateMgr) : HelperEvent → Prop
  | .mgr (.onFinish ok _) => ok = true
  | .mgr (.notify success _) => success = true
  | .mgr (.pollRound now _ appValid recover) =>
      timeoutFires u now ∧ ¬handsNothing u appValid recover
  | _ => False

/-- The step stores NONE or DONE. -/
def StoresSuccess (s : BootState) : BootLabel → Prop
  | .thread (.notified success) _ _ => success = true
  | .thread _ _ _ => False
  | .call e => CallSucceeds s.mgr e

/-- The step asks for an update: a request of the protocol, or a failed result. -/
def BootLabel.asksUpdate : BootLabel → Bool
  | .thread (.notified success) _ _ => !success
  | .call (.mgr (.onRequest _)) => true
  | .call (.mgr (.notify success _)) => !success
  | _ => false

/-- The thread erases or writes the destination of a release. -/
def BootLabel.touchesDest : BootLabel → Bool
  | .thread (.erased id _ _ _) dst _ => dst == some id
  | .thread (.wrote id _ _ _) dst _ => dst == some id
  | _ => false

/-- A success was stored last: by a step, or before the reset, and since then nobody
has asked for an update. -/
def SuccessLast (helper : Bool) (s : BootState) (ls : List BootLabel) : Prop :=
  (s.mgr.asksNothing ∧ ∀ l ∈ ls, l.asksUpdate = false) ∨
    ∃ front l back, ls = front ++ l :: back ∧
      StoresSuccess (run (bootStep helper) s front) l ∧
      ∀ a ∈ back, a.asksUpdate = false

/-- The order that keeps the reason open: before a destination is erased or written
somebody asks for an update, later than any success; and a success comes only while
every destination is verified. -/
structure AskedFirst (helper : Bool) (s : BootState) (ls : List BootLabel) : Prop where
  touches : ∀ front l back, ls = front ++ l :: back → l.touchesDest = true →
    ¬SuccessLast helper s front
  successes : ∀ front l back, ls = front ++ l :: back →
    StoresSuccess (run (bootStep helper) s front) l →
    (run (bootStep helper) s front).allVerified

variable {helper : Bool} {u : UpdateMgr} {s : BootState}

theorem asksNothing_giveUp {appValid recover : Bool}
    {keepWaiting : UpdateMgr → UpdateMgr} {u' : UpdateMgr}
    (hkeep : ∀ v : UpdateMgr, (keepWaiting v).reason = v.reason)
    (hcase : GiveUpCase helper appValid recover keepWaiting u u') :
    u'.asksNothing ↔ ¬handsNothing u appValid recover ∨ u.asksNothing := by
  unfold asksNothing
  cases hcase with
  | appValid hvalid => simp [handsNothing, hvalid]
  | recovered hvalid hprobe hrecover => simp [handsNothing, hprobe, hrecover]
  | refused hvalid hprobe hrecover => simp [hkeep, handsNothing, hvalid, hrecover]
  | probed hvalid hprobe => simp [hkeep, handsNothing, hvalid, hprobe]

theorem asksNothing_pollRound (now tick : UInt32) (appValid recover : Bool) :
    (u.pollRound helper now tick appValid recover).asksNothing ↔
      (timeoutFires u now ∧ ¬handsNothing u appValid recover) ∨ u.asksNothing := by
  have hcase := pollRound_cases helper now tick appValid recover u
  generalize u.pollRound helper now tick appValid recover = u' at hcase
  cases hcase with
  | idle hidle =>
      have hno : ¬timeoutFires u now := by
        rintro ⟨hflag, hfires⟩
        obtain hup | ⟨hwait, hrecv⟩ := hidle
        · rw [hflag] at hup
          cases hup
        · exact hfires.elim hwait hrecv
      simp [hno]
  | waited hflag hstate hover hcase =>
      have hfires : timeoutFires u now := ⟨hflag, .inl ⟨hstate, hover⟩⟩
      have hkeep (v : UpdateMgr) :
          ({ v with waitStart := now } : UpdateMgr).reason = v.reason := rfl
      rw [asksNothing_giveUp hkeep hcase]
      simp [hfires]
  | stalled hflag hstate hover hcase =>
      have hfires : timeoutFires u now := ⟨hflag, .inr ⟨hstate, hover⟩⟩
      rw [asksNothing_giveUp (fun v => by simp) hcase]
      simp [hfires]

theorem asksNothing_modeStep (helper : Bool) (u : UpdateMgr) (e : HelperEvent) :
    (u.modeStep helper e).asksNothing ↔
      CallSucceeds u e ∨ u.asksNothing ∧ (BootLabel.call e).asksUpdate = false := by
  have hkeep {u' : UpdateMgr} (hreason : u'.reason = u.reason) :
      u'.asksNothing ↔ False ∨ u.asksNothing ∧ false = false := by
    unfold asksNothing
    rw [hreason]
    simp
  cases e with
  | downloadBegin opened size erased tick =>
      apply hkeep
      cases helper <;> simp [modeStep, helperStep, reason_downloadBegin]
  | downloadWrite off data ok tick =>
      apply hkeep
      cases helper <;> simp [modeStep, helperStep, reason_downloadWrite]
  | mgr e =>
      cases e with
      | register waitMs idleMs appValid tick => exact hkeep (reason_register ..)
      | onRequest tick =>
          simp [modeStep, mgrStep, onRequest, asksNothing, CallSucceeds, BootLabel.asksUpdate]
      | onStart tick => exact hkeep (by simp [modeStep, mgrStep, onStart])
      | onData tick => exact hkeep (by simp [modeStep, mgrStep])
      | onFinish ok tick =>
          cases ok
          · have hreason : (u.onFinish helper false tick).reason = u.reason := by
              cases helper <;> simp [onFinish]
            have hstands := hkeep hreason
            simpa [modeStep, mgrStep, CallSucceeds, BootLabel.asksUpdate] using hstands
          · simp [modeStep, mgrStep, onFinish, asksNothing, CallSucceeds]
      | onAbort tick => exact hkeep (by simp [modeStep, mgrStep, onAbort])
      | pollEnter tick => exact hkeep (by simp [modeStep, mgrStep, pollEnter])
      | pollRound now tick appValid recover =>
          rw [modeStep, mgrStep, asksNothing_pollRound]
          simp [CallSucceeds, BootLabel.asksUpdate]
      | notify success tick =>
          cases success <;>
            simp [modeStep, mgrStep, notifyUpdateResult, asksNothing, CallSucceeds,
              BootLabel.asksUpdate]

theorem asksNothing_step (helper : Bool) (s : BootState) (l : BootLabel) :
    (s.bootStep helper l).mgr.asksNothing ↔
      StoresSuccess s l ∨ s.mgr.asksNothing ∧ l.asksUpdate = false := by
  have hkeep : s.mgr.asksNothing ↔ False ∨ s.mgr.asksNothing ∧ false = false := by simp
  cases l with
  | call e => exact asksNothing_modeStep helper s.mgr e
  | thread e dst tick =>
      cases e with
      | notified success =>
          cases success <;>
            simp [bootStep, issue, notifyUpdateResult, asksNothing, StoresSuccess,
              BootLabel.asksUpdate]
      | erased id off len ok =>
          simp only [bootStep, issue, touch]
          split <;> exact hkeep
      | wrote id off data ok =>
          simp only [bootStep, issue, touch]
          split <;> exact hkeep
      | updated id ok => cases ok <;> exact hkeep
      | _ => exact hkeep

theorem asksNothing_run (helper : Bool) (s : BootState) (ls : List BootLabel) :
    (run (bootStep helper) s ls).mgr.asksNothing ↔ SuccessLast helper s ls := by
  induction ls using List.reverseRecOn with
  | nil => simp [SuccessLast]
  | append_singleton ls l ih =>
      rw [run_append, run_cons, run_nil, asksNothing_step, ih]
      constructor
      · rintro (hl | ⟨⟨hstart, hls⟩ | ⟨front, a, back, rfl, ha, hback⟩, hl⟩)
        · exact .inr ⟨ls, l, [], rfl, hl, by simp⟩
        · refine .inl ⟨hstart, fun b hb => ?_⟩
          rcases List.mem_append.mp hb with hb | hb
          · exact hls b hb
          · rw [List.mem_singleton.mp hb]
            exact hl
        · refine .inr ⟨front, a, back ++ [l], by simp, ha, fun b hb => ?_⟩
          rcases List.mem_append.mp hb with hb | hb
          · exact hback b hb
          · rw [List.mem_singleton.mp hb]
            exact hl
      · rintro (⟨hstart, hls⟩ | ⟨front, a, back, hsplit, ha, hback⟩)
        · exact .inr ⟨.inl ⟨hstart, fun b hb => hls b (by simp [hb])⟩, hls l (by simp)⟩
        · rcases concat_eq_split hsplit with ⟨rfl, rfl, -⟩ | ⟨rest, rfl, rfl⟩
          · exact .inl ha
          · exact .inr ⟨.inr ⟨front, a, rest, rfl, ha, fun b hb => hback b (by simp [hb])⟩,
              hback l (by simp)⟩

/-! ## One step -/

theorem reasonOpen_touch (hs : ReasonOpen s) (id : TargetId) (dst : Option TargetId) :
    ReasonOpen (s.touch id dst) ↔ ((dst == some id) = true → ¬s.mgr.asksNothing) := by
  unfold touch
  by_cases hdst : dst = some id
  · rw [if_pos hdst, hdst]
    have hopen : ¬BootState.allVerified
        { s with unverified := Function.update s.unverified id true } := by
      intro hall
      simpa using hall id
    exact ⟨fun h _ => h hopen, fun h _ => h (beq_self_eq_true _)⟩
  · rw [if_neg hdst]
    exact ⟨fun _ h => absurd (beq_iff_eq.mp h) hdst, fun _ => hs⟩

structure InOrderAt (s : BootState) (l : BootLabel) : Prop where
  touches : l.touchesDest = true → ¬s.mgr.asksNothing
  successes : StoresSuccess s l → s.allVerified

/-- One step keeps the reason open exactly when it comes in order. -/
theorem reasonOpen_step (helper : Bool) (hs : ReasonOpen s) (l : BootLabel) :
    ReasonOpen (s.bootStep helper l) ↔ InOrderAt s l := by
  have hreason := asksNothing_step helper s l
  -- a step that touches nothing and stores no success
  have hrest (hall : (s.bootStep helper l).allVerified ↔ s.allVerified)
      (htouch : l.touchesDest = false) :
      ReasonOpen (s.bootStep helper l) ↔ InOrderAt s l := by
    unfold ReasonOpen
    rw [hall, hreason]
    constructor
    · intro hopen
      refine ⟨fun h => absurd h (by rw [htouch]; exact Bool.false_ne_true), fun hsucc => ?_⟩
      by_contra hno
      exact hopen hno (.inl hsucc)
    · rintro ⟨-, hsucc⟩ hno (h | ⟨h, -⟩)
      · exact hno (hsucc h)
      · exact hs hno h
  cases l with
  | call e => exact hrest Iff.rfl rfl
  | thread e dst tick =>
      cases e with
      | erased id off len ok =>
          exact (reasonOpen_touch hs id dst).trans ⟨fun h => ⟨h, fun hs => hs.elim⟩, (·.1)⟩
      | wrote id off data ok =>
          exact (reasonOpen_touch hs id dst).trans ⟨fun h => ⟨h, fun hs => hs.elim⟩, (·.1)⟩
      | updated id ok =>
          refine iff_of_true ?_ ⟨fun h => (nomatch h), fun h => h.elim⟩
          cases ok
          · exact hs
          · refine fun hno => hs fun hall => hno fun id' => ?_
            by_cases hid : id' = id
            · simp [bootStep, issue, hid]
            · simpa [bootStep, issue, hid] using hall id'
      | _ => exact hrest Iff.rfl rfl

theorem askedFirst_iff (helper : Bool) (s : BootState) (ls : List BootLabel) :
    Each (bootStep helper) InOrderAt s ls ↔ AskedFirst helper s ls := by
  constructor
  · intro h
    refine ⟨fun front l back hsplit htouch => ?_, fun front l back hsplit =>
      (h front l back hsplit).2⟩
    rw [← asksNothing_run]
    exact (h front l back hsplit).1 htouch
  · rintro ⟨htouches, hsuccesses⟩ front l back hsplit
    refine ⟨fun htouch => ?_, hsuccesses front l back hsplit⟩
    rw [asksNothing_run]
    exact htouches front l back hsplit htouch

/-! ## What the thread records -/

section Record

variable (env : Env σ κ) (inp : BootInputs σ) (m : Machine σ κ)

/-- Without the factory key, the thread of a boot with the manager touches nothing, or
notifies success first. -/
theorem threadEntry_notifies (hmanaged : inp.updateMgrPoll.isSome = true)
    (hkey : (inp.usingFactoryKey && inp.factoryKeyPressed) = false) :
    ∃ new, (threadEntry env inp m).2.log = m.log ++ new ∧
      ((∃ rest, new = .notified true :: rest) ∨
        ∀ e ∈ new, ∀ id, e.touches id = false) := by
  obtain ⟨poll, hpoll⟩ := Option.isSome_iff_exists.mp hmanaged
  have hshell (wait : Bool) : ∃ new,
      (unlessShell inp wait (emit .reset) m).2.log = m.log ++ new ∧
        ∀ e ∈ new, ∀ id, e.touches id = false := by
    unfold unlessShell
    split
    · exact ⟨[], by simp, by simp⟩
    · exact ⟨[.reset], rfl, fun e he id => by rw [List.mem_singleton.mp he]; rfl⟩
  unfold threadEntry
  split
  · obtain ⟨new, hlog, hnew⟩ := hshell false
    exact ⟨new, hlog, .inr hnew⟩
  rw [if_neg (by rw [hkey]; exact Bool.false_ne_true), bootMain]
  unfold unlessShell
  split
  · exact ⟨[], by simp, .inr (by simp)⟩
  · rw [hpoll]
    simp only [Prog.run_bind, run_onDev, run_emit]
    generalize hm : ({ m with dev := (poll m.dev).2,
                              log := m.log ++ [.notified true] } : Machine σ κ) = m₁
    obtain ⟨body, hbody, -⟩ := releaseFromPart_log env .download true m₁
    obtain ⟨rest, hrest, -⟩ := bootRelease_log env inp m₁
    refine ⟨.notified true :: (.releaseStart .download true :: (body ++
      [.released .download true (releaseFromPart env .download true m₁).1]) ++
        .jumped :: rest), ?_, .inl ⟨_, rfl⟩⟩
    rw [hrest, hbody, ← hm]
    simp

end Record

/-- A destination is touched only behind the thread's notification of success, which
comes when the poll has returned. -/
def TouchesAfterPoll (helper : Bool) (s : BootState) (ls : List BootLabel) : Prop :=
  ∀ front l back, ls = front ++ l :: back → l.touchesDest = true →
    ∃ polled waited dst tick rest,
      front = polled ++ waited ++ .thread (.notified true) dst tick :: rest ∧
        pollReturns (run (bootStep helper) s polled).mgr = true

theorem touches_of_touchesDest {l : BootLabel} (h : l.touchesDest = true) :
    ∃ e dst, l.threadPart = some (e, dst) ∧ ∃ id, e.touches id = true := by
  cases l with
  | call e => cases h
  | thread e dst tick =>
      cases e with
      | erased id off len ok => exact ⟨_, dst, rfl, id, beq_self_eq_true id⟩
      | wrote id off data ok => exact ⟨_, dst, rfl, id, beq_self_eq_true id⟩
      | _ => cases h

theorem touchesAfterPoll {env : Env σ κ} {inp : BootInputs σ} {m : Machine σ κ}
    (r : BootRun env inp m helper s)
    (hkey : (inp.usingFactoryKey && inp.factoryKeyPressed) = false) :
    TouchesAfterPoll helper s r.labels := by
  intro front l back hsplit htouch
  obtain ⟨e, dst, hpart, id, he⟩ := touches_of_touchesDest htouch
  obtain ⟨new, hlog, hnew⟩ := threadEntry_notifies env inp m r.managed hkey
  have hprefix := (traced_iff hlog).mp r.threadRun
  have hparts : front.filterMap BootLabel.threadPart ++ [(e, dst)] <+: withDest new := by
    refine List.IsPrefix.trans ?_ hprefix
    rw [hsplit, List.filterMap_append, List.filterMap_cons, hpart]
    exact ⟨back.filterMap BootLabel.threadPart, by simp⟩
  have hmem : e ∈ new := by
    rw [← withDest_fst new]
    exact List.mem_map.mpr ⟨(e, dst), hparts.subset (by simp), rfl⟩
  rcases hnew with ⟨rest, rfl⟩ | hnone
  swap
  · exact absurd he (by rw [hnone e hmem id]; exact Bool.false_ne_true)
  -- the first thing that the thread records is the notification
  have hhead : ∃ d, (.notified true, d) ∈ front.filterMap BootLabel.threadPart := by
    cases hfront : front.filterMap BootLabel.threadPart with
    | nil =>
        rw [hfront, List.nil_append, withDest, List.cons_prefix_cons] at hparts
        obtain rfl : e = .notified true := congrArg Prod.fst hparts.1
        cases he
    | cons a parts =>
        rw [hfront, List.cons_append, withDest, List.cons_prefix_cons] at hparts
        exact ⟨_, by rw [hparts.1]; exact List.mem_cons_self⟩
  obtain ⟨d, hd⟩ := hhead
  obtain ⟨a, ha, hanote⟩ := List.mem_filterMap.mp hd
  obtain ⟨before, after, rfl⟩ := List.append_of_mem ha
  obtain ⟨tick, rfl⟩ : ∃ tick, a = .thread (.notified true) d tick := by
    cases a with
    | call e => cases hanote
    | thread e' dst' tick =>
        cases hanote
        exact ⟨tick, rfl⟩
  obtain ⟨polled, waited, rfl, hpolled⟩ := r.polled before d tick (after ++ l :: back)
    (by rw [hsplit]; simp)
  exact ⟨polled, waited, d, tick, after, rfl, hpolled⟩

/-- Nobody asks for an update behind the thread's notification of success. -/
def NotAskedAgain (ls : List BootLabel) : Prop :=
  ∀ front dst tick back, ls = front ++ .thread (.notified true) dst tick :: back →
    ∀ l ∈ back, l.asksUpdate = false

theorem allVerified_step (hs : s.allVerified) {l : BootLabel} (hl : l.touchesDest = false) :
    (s.bootStep helper l).allVerified := by
  cases l with
  | call e => exact hs
  | thread e dst tick =>
      cases e with
      | erased id off len ok =>
          have hdst : dst ≠ some id := beq_eq_false_iff_ne.mp hl
          simpa only [bootStep, issue, touch, if_neg hdst] using hs
      | wrote id off data ok =>
          have hdst : dst ≠ some id := beq_eq_false_iff_ne.mp hl
          simpa only [bootStep, issue, touch, if_neg hdst] using hs
      | updated id ok =>
          cases ok
          · exact hs
          · intro id'
            by_cases hid : id' = id
            · simp [bootStep, issue, hid]
            · simpa [bootStep, issue, hid] using hs id'
      | _ => exact hs

theorem reasonOpen_untouched {ls : List BootLabel} (hs : s.allVerified)
    (hls : ∀ l ∈ ls, l.touchesDest = false) : Always (bootStep helper) ReasonOpen s ls := by
  intro front back hsplit hno
  have heach : Each (bootStep helper) (fun _ l => l.touchesDest = false) s front := by
    intro before l after hfront
    exact hls l (by rw [hsplit, hfront]; simp)
  have hall : allVerified (run (bootStep helper) s front) :=
    heach.inv_last (I := allVerified) (fun _ _ h hl => allVerified_step h hl) hs
  exact absurd hall hno

theorem askedFirst_untouched {ls : List BootLabel} (hasked : AskedFirst helper s ls)
    (hpolled : TouchesAfterPoll helper s ls) (hquiet : NotAskedAgain ls) :
    ∀ l ∈ ls, l.touchesDest = false := by
  intro l hl
  by_contra htouch
  rw [Bool.not_eq_false] at htouch
  obtain ⟨front, back, hsplit⟩ := List.append_of_mem hl
  obtain ⟨polled, waited, dst, tick, rest, hfront, -⟩ := hpolled front l back hsplit htouch
  refine hasked.touches front l back hsplit htouch
    (.inr ⟨polled ++ waited, _, rest, hfront, rfl, fun a ha => ?_⟩)
  refine hquiet (polled ++ waited) dst tick (rest ++ l :: back) ?_ a
    (List.mem_append_left _ ha)
  rw [hsplit, hfront, List.append_assoc, List.cons_append]

/-- In a boot, no success is ever stored while a destination is unverified, exactly
when somebody asks for an update between the last success and each erase or write of a
destination, and successes come while every destination is verified.  The releases of
the thread come behind its own notification of success, after the poll has returned;
unless somebody else asks for the update again behind that, it is exactly when nothing
is erased or written at all. -/
theorem reasonOpen_run {env : Env σ κ} {inp : BootInputs σ} {m : Machine σ κ}
    {waitMs idleMs : UInt32} {reason : UpdReason}
    (r : BootRun env inp m helper (.reset waitMs idleMs reason)) :
    (Always (bootStep helper) ReasonOpen (.reset waitMs idleMs reason) r.labels ↔
      AskedFirst helper (.reset waitMs idleMs reason) r.labels) ∧
    ((inp.usingFactoryKey && inp.factoryKeyPressed) = false →
      TouchesAfterPoll helper (.reset waitMs idleMs reason) r.labels ∧
      (NotAskedAgain r.labels →
        (Always (bootStep helper) ReasonOpen (.reset waitMs idleMs reason) r.labels ↔
          ∀ l ∈ r.labels, l.touchesDest = false))) := by
  have hstart : ReasonOpen (.reset waitMs idleMs reason) :=
    fun hno => absurd (fun _ => rfl) hno
  have hstep (s : BootState) (l : BootLabel) (_ : True) (hs : ReasonOpen s) :=
    reasonOpen_step helper hs l
  have hiff : Always (bootStep helper) ReasonOpen (.reset waitMs idleMs reason) r.labels ↔
      AskedFirst helper (.reset waitMs idleMs reason) r.labels :=
    (always_iff_each hstep (fun _ _ _ _ _ => trivial) trivial hstart r.labels).trans
      (askedFirst_iff helper _ _)
  refine ⟨hiff, fun hkey => ⟨touchesAfterPoll r hkey, fun hquiet => ⟨fun h => ?_, ?_⟩⟩⟩
  · exact askedFirst_untouched (hiff.mp h) (touchesAfterPoll r hkey) hquiet
  · exact reasonOpen_untouched fun _ => rfl

/-! ## An update that is reset while APP is written -/

/-- A boot that polls the update manager. -/
def polledBoot : BootInputs FlashDev := { plainBoot with updateMgrPoll := some (pure ()) }

/-- A download that finishes, and what the boot thread then does up to its first
erase of APP. -/
def finishedDownload (issued : List (Event × Option TargetId)) : List BootLabel :=
  .call (.mgr (.register 5000 30000 false 0)) :: .call (.mgr (.onStart 1)) ::
    .call (.mgr (.onFinish true 2)) :: issued.map fun e => .thread e.1 e.2 3

theorem threadPart_finishedDownload (issued : List (Event × Option TargetId)) :
    (finishedDownload issued).filterMap BootLabel.threadPart = issued := by
  have hparts : BootLabel.threadPart ∘
      (fun e : Event × Option TargetId => BootLabel.thread e.1 e.2 3) = some := by
    funext e
    rfl
  rw [finishedDownload, List.filterMap_cons, List.filterMap_cons, List.filterMap_cons,
    List.filterMap_map, hparts]
  exact List.filterMap_some

theorem traced_finishedDownload (m m' : Machine σ κ) (hlog : m.log = []) (n : Nat) :
    Traced m m' fun new =>
      (finishedDownload ((withDest m'.log).take n)).filterMap BootLabel.threadPart <+:
        withDest new := by
  refine ⟨m'.log, by rw [hlog, List.nil_append], ?_⟩
  rw [threadPart_finishedDownload]
  exact List.take_prefix ..

theorem finishedDownload_polled (issued : List (Event × Option TargetId))
    (reason : UpdReason) (front : List BootLabel) (e : Event) (dst : Option TargetId)
    (tick : UInt32) (back : List BootLabel)
    (hsplit : finishedDownload issued = front ++ .thread e dst tick :: back) :
    ∃ before after, front = before ++ after ∧
      pollReturns (run (bootStep false) (.reset 5000 30000 reason) before).mgr = true := by
  rcases front with _ | ⟨a, _ | ⟨b, _ | ⟨c, rest⟩⟩⟩ <;>
    simp only [finishedDownload, List.nil_append, List.cons_append,
      List.cons.injEq, reduceCtorEq, false_and, and_false] at hsplit
  obtain ⟨rfl, rfl, rfl, -⟩ := hsplit
  exact ⟨[_, _, _], rest, rfl, ready_readyFlag ..⟩

def issuedBefore : List (Event × Option TargetId) :=
  (withDest (threadEntry plainEnv.toEnv polledBoot (eightByteMachine 1024)).2.log).take 12

def finishedBoot : BootRun plainEnv.toEnv polledBoot (eightByteMachine 1024) false
    (.reset 5000 30000 .req) where
  labels := finishedDownload issuedBefore
  managed := rfl
  threadRun := traced_finishedDownload _ _ rfl 12
  polled := fun front => finishedDownload_polled issuedBefore .req front _

/-- The device is reset while APP is erased, with DONE stored. -/
theorem finishedBoot_recordsEarly :
    ¬∀ r : BootRun plainEnv.toEnv polledBoot (eightByteMachine 1024) false
        (.reset 5000 30000 .req),
      Always (bootStep false) ReasonOpen (.reset 5000 30000 .req) r.labels := by
  intro h
  have hlast : ReasonOpen (run (bootStep false) (.reset 5000 30000 .req)
      (finishedDownload issuedBefore)) := (h finishedBoot).last
  have hrun : (run (bootStep false) (.reset 5000 30000 .req)
        (finishedDownload issuedBefore)).unverified .app = true ∧
      (run (bootStep false) (.reset 5000 30000 .req)
        (finishedDownload issuedBefore)).mgr.reason = .done := by
    rw [issuedBefore, plainEnv_eq_eager]
    decide +kernel
  refine hlast (fun hall => ?_) (.inr hrun.2)
  rw [hall .app] at hrun
  cases hrun.1

end Qboot
