import Qboot.Library.Run
import Qboot.Model.Update
/-!
# Download sessions

The download handle and the two session callbacks over runs of the update
manager: when a handle is stored only while a session receives, and when every
`enter_download` is paired with a `leave_download`.
-/

namespace Qboot

open Library.Run UpdateMgr

variable {u : UpdateMgr}

/-! ## The stored handle -/

/-- A stored download handle is open, and a session is receiving. -/
def HandleLive (u : UpdateMgr) : Prop :=
  ∀ ref, u.dlHandle = some ref → ref ∈ u.openHandles ∧ u.state = .recv

theorem handleLive_none (h : u.dlHandle = none) : HandleLive u := by
  intro ref href
  rw [h] at href
  cases href

theorem handleLive_outside {u' : UpdateMgr} (hstate : u'.state ≠ .recv)
    (hhandle : u'.dlHandle = u.dlHandle) : HandleLive u' ↔ u.dlHandle = none := by
  constructor
  · intro h
    cases href : u.dlHandle with
    | none => rfl
    | some ref => exact absurd (h ref (hhandle.trans href)).2 hstate
  · intro h
    exact handleLive_none (hhandle.trans h)

theorem HandleLive.congr {u' : UpdateMgr} (h : HandleLive u)
    (hhandle : u'.dlHandle = u.dlHandle)
    (hopen : u'.openHandles = u.openHandles) (hstate : u'.state = u.state) :
    HandleLive u' := by
  intro ref href
  rw [hopen, hstate]
  exact h ref (hhandle ▸ href)

def idleFires (u : UpdateMgr) (now : UInt32) : Prop :=
  u.readyFlag = false ∧ u.state = .recv ∧ u.idleOver now = true

def handsNothing (u : UpdateMgr) (appValid recover : Bool) : Prop :=
  appValid = false ∧ (u.recoverProbeUsed = true ∨ recover = false)

/-- An event that leaves RECV without closing comes while no handle is stored, and
no size query fails behind a successful open. -/
def KeepsHandle (u : UpdateMgr) : HelperEvent → Prop
  | .mgr (.register _ _ appValid _) =>
      u.dlHandle = none ∨ u.asksNothing ∧ appValid = true
  | .mgr (.onRequest _) => u.dlHandle = none
  | .mgr (.onAbort _) => u.dlHandle = none
  | .mgr (.notify success _) => success = true ∨ u.dlHandle = none
  | .mgr (.pollRound now _ appValid recover) =>
      u.dlHandle = none ∨
        ¬(idleFires u now ∧ handsNothing u appValid recover)
  | .downloadBegin opened size _ _ => opened = none ∨ size ≠ none
  | _ => True

theorem handleLive_register (waitMs idleMs : UInt32) (appValid : Bool)
    (tick : UInt32) :
    HandleLive (u.register true waitMs idleMs appValid tick) ↔
      u.dlHandle = none ∨ u.asksNothing ∧ appValid = true := by
  have hcase := register_cases true waitMs idleMs appValid tick u
  generalize u.register true waitMs idleMs appValid tick = u' at hcase
  cases hcase with
  | asked hreason =>
      rw [handleLive_outside (u := u) (by simp [onRequest]) (by simp [onRequest])]
      simp [asksNothing, hreason]
  | resumed hask hreason =>
      rw [handleLive_outside (u := u) (by simp) (by simp)]
      simp [hreason]
  | appInvalid hreason hvalid =>
      rw [handleLive_outside (u := u) (by simp) (by simp)]
      simp [hvalid]
  | appValid hreason hvalid =>
      exact iff_of_true (handleLive_none (by simp)) (.inr ⟨hreason, hvalid⟩)

theorem handleLive_pollRound (h : HandleLive u) (now tick : UInt32)
    (appValid recover : Bool) :
    HandleLive (u.pollRound true now tick appValid recover) ↔
      u.dlHandle = none ∨
        ¬(idleFires u now ∧ handsNothing u appValid recover) := by
  have hcase := pollRound_cases true now tick appValid recover u
  generalize u.pollRound true now tick appValid recover = u' at hcase
  cases hcase with
  | idle hidle =>
      refine iff_of_true h (.inr ?_)
      rintro ⟨⟨hflag, hstate, hover⟩, -⟩
      obtain hup | ⟨-, hno⟩ := hidle
      · rw [hflag] at hup
        cases hup
      · exact hno ⟨hstate, hover⟩
  | waited hflag hstate hover hcase =>
      -- nothing is stored in the wait window
      have hnone : u.dlHandle = none := by
        cases href : u.dlHandle with
        | none => rfl
        | some ref =>
            have hrecv := (h ref href).2
            rw [hstate] at hrecv
            cases hrecv
      refine iff_of_true (handleLive_none ?_) (.inl hnone)
      cases hcase <;> simp [hnone]
  | stalled hflag hstate hover hcase =>
      have hfires : idleFires u now := ⟨hflag, hstate, hover⟩
      cases hcase with
      | appValid hvalid =>
          refine iff_of_true (handleLive_none (by simp)) (.inr ?_)
          rintro ⟨-, hno, -⟩
          rw [hvalid] at hno
          cases hno
      | recovered hvalid hprobe hrecover =>
          refine iff_of_true (handleLive_none (by simp)) (.inr ?_)
          rintro ⟨-, -, hno | hno⟩
          · rw [hprobe] at hno
            cases hno
          · rw [hrecover] at hno
            cases hno
      | refused hvalid hprobe hrecover =>
          rw [handleLive_outside (u := u) (by simp) (by simp)]
          simp [hfires, handsNothing, hvalid, hrecover]
      | probed hvalid hprobe =>
          rw [handleLive_outside (u := u) (by simp) (by simp)]
          simp [hfires, handsNothing, hvalid, hprobe]

/-- Nothing is open but the stored handle. -/
def OnlyOpen (u : UpdateMgr) : Prop := u.openHandles = u.dlHandle.toList

theorem OnlyOpen.cleanup (h : OnlyOpen u) : u.downloadCleanup.openHandles = [] := by
  unfold OnlyOpen at h
  unfold downloadCleanup
  cases href : u.dlHandle with
  | none => simpa [href] using h
  | some ref => simp [h, href]

theorem OnlyOpen.setDownloadOk (h : OnlyOpen u) (ok : Bool) :
    (u.setDownloadOk ok).openHandles = [] :=
  OnlyOpen.cleanup (u := { u with dlOk := ok }) h

theorem onlyOpen_empty (hhandle : u.dlHandle = none) (hopen : u.openHandles = []) :
    OnlyOpen u := by
  rw [OnlyOpen, hhandle, hopen]
  rfl

theorem OnlyOpen.congr {u' : UpdateMgr} (h : OnlyOpen u)
    (hhandle : u'.dlHandle = u.dlHandle) (hopen : u'.openHandles = u.openHandles) :
    OnlyOpen u' := by
  rw [OnlyOpen, hhandle, hopen]
  exact h

theorem OnlyOpen.ready (h : OnlyOpen u) : OnlyOpen (u.ready true) := by
  refine onlyOpen_empty (by simp) ?_
  exact OnlyOpen.cleanup (u := { u with readyFlag := true, state := .ready }) h

theorem handleLive_begin (h : OnlyOpen u) (opened size : Option Nat) (erased : Bool)
    (tick : UInt32) :
    HandleLive (u.downloadBegin opened size erased tick).2 ↔
      opened = none ∨ size ≠ none := by
  have hclean : (u.downloadCleanup.setDownloadOk false).openHandles = [] :=
    (onlyOpen_empty (by simp) h.cleanup).setDownloadOk false
  cases opened with
  | none =>
      rw [downloadBegin_unopened]
      exact iff_of_true (handleLive_none (by simp)) (.inl rfl)
  | some ref =>
      cases size with
      | none =>
          rw [downloadBegin_unsized]
          refine iff_of_false (fun hlive => ?_) (by simp)
          -- the handle that was closed again stays stored
          have hstale := (hlive ref (by simp)).1
          simp [hclean] at hstale
      | some n =>
          refine iff_of_true ?_ (.inr (by simp))
          cases erased with
          | false =>
              rw [downloadBegin_unerased]
              generalize u.downloading ref n false = v
              exact handleLive_none v.downloadCleanup_dlHandle
          | true =>
              rw [downloadBegin_begun]
              intro ref' href
              have hsame : ref = ref' := by simpa [onStart] using href
              exact ⟨by simp [onStart, hsame], by simp [onStart]⟩

theorem onlyOpen_giveUp (h : OnlyOpen u) {appValid recover : Bool}
    {keepWaiting : UpdateMgr → UpdateMgr} {u' : UpdateMgr}
    (hkeep : ∀ v : UpdateMgr, OnlyOpen v → OnlyOpen (keepWaiting v))
    (hcase : GiveUpCase true appValid recover keepWaiting u u') : OnlyOpen u' := by
  cases hcase with
  | appValid => exact OnlyOpen.ready (u := (u.call _).setReason _) h
  | recovered => exact OnlyOpen.ready (u := ((u.call _).probe _).setReason _) h
  | refused => exact hkeep _ (h.congr rfl rfl)
  | probed => exact hkeep _ (h.congr rfl rfl)

theorem onlyOpen_mgrStep (h : OnlyOpen u) (e : MgrEvent) :
    OnlyOpen (u.mgrStep true e) := by
  cases e with
  | register waitMs idleMs appValid tick =>
      have hcase := register_cases true waitMs idleMs appValid tick u
      show OnlyOpen (u.register true waitMs idleMs appValid tick)
      generalize u.register true waitMs idleMs appValid tick = u' at hcase
      cases hcase with
      | asked => exact h.congr (by simp [onRequest]) (by simp [onRequest])
      | resumed => exact h.congr (by simp) (by simp)
      | appInvalid => exact h.congr (by simp) (by simp)
      | appValid => exact OnlyOpen.ready (u := (u.setUp _ _).call _) h
  | onRequest tick => exact h.congr rfl rfl
  | onStart tick => exact h.congr rfl rfl
  | onData tick => exact h.congr (by simp [mgrStep]) (by simp [mgrStep])
  | onFinish ok tick =>
      have hclosed : OnlyOpen ((u.call .leaveDownload).setDownloadOk ok) :=
        onlyOpen_empty (by simp) (OnlyOpen.setDownloadOk (u := u.call _) h ok)
      cases ok with
      | true => exact OnlyOpen.ready (u := UpdateMgr.setReason _ _) hclosed
      | false =>
          exact hclosed.congr (by simp [mgrStep, onFinish]) (by simp [mgrStep, onFinish])
  | onAbort tick => exact h.congr rfl rfl
  | pollEnter tick => exact h.congr rfl rfl
  | pollRound now tick appValid recover =>
      have hcase := pollRound_cases true now tick appValid recover u
      show OnlyOpen (u.pollRound true now tick appValid recover)
      generalize u.pollRound true now tick appValid recover = u' at hcase
      cases hcase with
      | idle => exact h
      | waited hflag hstate hover hcase =>
          refine onlyOpen_giveUp h (fun v hv => ?_) hcase
          exact hv.congr rfl rfl
      | stalled hflag hstate hover hcase =>
          exact onlyOpen_giveUp h (fun v hv => hv.congr (by simp) (by simp)) hcase
  | notify success tick => cases success <;> exact h.congr rfl rfl

theorem onlyOpen_step (h : OnlyOpen u) {e : HelperEvent} (he : KeepsHandle u e) :
    OnlyOpen (u.helperStep e) := by
  cases e with
  | mgr e => exact onlyOpen_mgrStep h e
  | downloadBegin opened size erased tick =>
      have hclean : (u.downloadCleanup.setDownloadOk false).openHandles = [] :=
        (onlyOpen_empty (by simp) h.cleanup).setDownloadOk false
      show OnlyOpen (u.downloadBegin opened size erased tick).2
      cases opened with
      | none =>
          rw [downloadBegin_unopened]
          exact onlyOpen_empty (by simp) hclean
      | some ref =>
          cases size with
          | none => simp [KeepsHandle] at he
          | some n =>
              have hsole : OnlyOpen (u.downloading ref n erased) := by
                simp [OnlyOpen, hclean]
              cases erased with
              | true =>
                  rw [downloadBegin_begun]
                  exact hsole.congr (by simp [onStart]) (by simp [onStart])
              | false =>
                  rw [downloadBegin_unerased]
                  generalize u.downloading ref n false = v at hsole ⊢
                  exact onlyOpen_empty v.downloadCleanup_dlHandle hsole.cleanup
  | downloadWrite off data ok tick =>
      show OnlyOpen (u.downloadWrite off data ok tick).2
      unfold downloadWrite
      cases href : u.dlHandle with
      | none => exact h
      | some ref =>
          cases ok with
          | true => exact h.congr (by simp) (by simp)
          | false =>
              have hfin : OnlyOpen ((u.call (.wrote off data false)).onFinish true
                  false tick) :=
                onlyOpen_mgrStep (u := u.call _) h (.onFinish false tick)
              exact onlyOpen_empty (by simp) hfin.cleanup

theorem handleLive_step (hopen : OnlyOpen u) (h : HandleLive u) (e : HelperEvent) :
    HandleLive (u.helperStep e) ↔ KeepsHandle u e := by
  cases e with
  | mgr e =>
      cases e with
      | register waitMs idleMs appValid tick => exact handleLive_register ..
      | onRequest tick =>
          exact handleLive_outside (by simp [helperStep, mgrStep, onRequest]) rfl
      | onStart tick =>
          refine iff_of_true ?_ trivial
          intro ref href
          exact ⟨(h ref href).1, rfl⟩
      | onData tick =>
          exact iff_of_true (h.congr (by simp [helperStep, mgrStep])
            (by simp [helperStep, mgrStep]) (by simp [helperStep, mgrStep])) trivial
      | onFinish ok tick =>
          refine iff_of_true (handleLive_none ?_) trivial
          cases ok <;> simp [helperStep, mgrStep, onFinish]
      | onAbort tick =>
          exact handleLive_outside (by simp [helperStep, mgrStep, onAbort]) rfl
      | pollEnter tick => exact iff_of_true (h.congr rfl rfl rfl) trivial
      | pollRound now tick appValid recover => exact handleLive_pollRound h ..
      | notify success tick =>
          cases success with
          | true => exact iff_of_true (h.congr rfl rfl rfl) (.inl rfl)
          | false =>
              refine (handleLive_outside (u := u) ?_ ?_).trans ?_
              · simp [helperStep, mgrStep, notifyUpdateResult]
              · simp [helperStep, mgrStep, notifyUpdateResult]
              · exact ⟨.inr, fun hno => hno.resolve_left Bool.false_ne_true⟩
  | downloadBegin opened size erased tick => exact handleLive_begin hopen ..
  | downloadWrite off data ok tick =>
      refine iff_of_true ?_ trivial
      show HandleLive (u.downloadWrite off data ok tick).2
      unfold downloadWrite
      cases href : u.dlHandle with
      | none => exact h
      | some ref =>
          cases ok with
          | true => exact h.congr (by simp) (by simp) (by simp)
          | false => exact handleLive_none (by simp)

/-- A write to the download target is issued in a receiving session. -/
def WritesInSession (u : UpdateMgr) (e : HelperEvent) : Prop :=
  ∀ off data ok, .wrote off data ok ∈ (u.helperStep e).calls.drop u.calls.length →
    (∃ tick, e = .downloadWrite off data ok tick) → u.state = .recv

theorem HandleLive.writes (h : HandleLive u) (e : HelperEvent) :
    WritesInSession u e := by
  rintro off data ok hwrote ⟨tick, rfl⟩
  cases href : u.dlHandle with
  | none => simp [helperStep, downloadWrite, href] at hwrote
  | some ref => exact (h ref href).2

theorem onlyOpen_register (hhandle : u.dlHandle = none) (hopen : u.openHandles = [])
    (waitMs idleMs : UInt32) (appValid : Bool) (tick : UInt32) :
    OnlyOpen (u.register true waitMs idleMs appValid tick) :=
  onlyOpen_mgrStep (onlyOpen_empty hhandle hopen)
    (.register waitMs idleMs appValid tick)

/-- From the registration after a reset on, a stored handle is open and its session
receives in every state of a run exactly when every event keeps it so; then no
write reaches the download target outside a session. -/
theorem handleLive_run (waitMs₀ idleMs₀ waitMs idleMs : UInt32) (reason : UpdReason)
    (appValid : Bool) (tick : UInt32) (es : List HelperEvent) :
    (Always helperStep HandleLive ((statics waitMs₀ idleMs₀ reason).register true
          waitMs idleMs appValid tick) es ↔
        Each helperStep KeepsHandle ((statics waitMs₀ idleMs₀ reason).register true
          waitMs idleMs appValid tick) es) ∧
      (Each helperStep KeepsHandle ((statics waitMs₀ idleMs₀ reason).register true
          waitMs idleMs appValid tick) es →
        Each helperStep WritesInSession ((statics waitMs₀ idleMs₀ reason).register
          true waitMs idleMs appValid tick) es) := by
  have hopen := onlyOpen_register (u := statics waitMs₀ idleMs₀ reason) rfl rfl
    waitMs idleMs appValid tick
  have hlive : HandleLive ((statics waitMs₀ idleMs₀ reason).register true waitMs
      idleMs appValid tick) := (handleLive_register ..).mpr (.inl rfl)
  have hinv (u : UpdateMgr) (e : HelperEvent) (hI : OnlyOpen u) (_ : HandleLive u)
      (hC : KeepsHandle u e) : OnlyOpen (u.helperStep e) := onlyOpen_step hI hC
  have hiff := always_iff_each (fun _ e hI hP => handleLive_step hI hP e) hinv
    hopen hlive es
  refine ⟨hiff, fun hkeeps front e back hsplit => ?_⟩
  exact (hiff.mpr hkeeps front (e :: back) hsplit).writes e

/-- Aborting a session leaves its handle stored in the wait window. -/
theorem abortedSession_stored :
    ¬Always helperStep HandleLive
      ((statics 5000 30000 .req).register true 5000 30000 false 0)
      [.downloadBegin (some 1) (some 4096) true 10, .mgr (.onAbort 20)] := by
  intro h
  have hlast := (h.last 1 (by decide)).2
  revert hlast
  decide

/-! ## Session callbacks -/

/-- The session callbacks: `true` enters, `false` leaves. -/
def MgrCall.mark : MgrCall → Option Bool
  | .enterDownload => some true
  | .leaveDownload => some false
  | _ => none

def sessionMarks (calls : List MgrCall) : List Bool := calls.filterMap MgrCall.mark

/-- The marks alternate, and the first one enters. -/
def Alternates (marks : List Bool) : Prop :=
  ∀ i (h : i < marks.length), marks[i] = decide (i % 2 = 0)

theorem alternates_nil : Alternates [] := fun _ h => absurd h (Nat.not_lt_zero _)

theorem alternates_concat {marks : List Bool} {b : Bool} :
    Alternates (marks ++ [b]) ↔
      Alternates marks ∧ b = decide (marks.length % 2 = 0) := by
  constructor
  · intro h
    constructor
    · intro i hi
      rw [← h i (by simp; omega), List.getElem_append_left hi]
    · rw [← h marks.length (by simp)]
      simp
  · rintro ⟨h, rfl⟩ i hi
    by_cases hlt : i < marks.length
    · rw [List.getElem_append_left hlt]
      exact h i hlt
    · obtain rfl : i = marks.length := by
        simp at hi
        omega
      simp

theorem Alternates.counts {marks : List Bool} (h : Alternates marks) :
    marks.count true = marks.count false + marks.length % 2 := by
  induction marks using List.reverseRecOn with
  | nil => rfl
  | append_singleton marks b ih =>
      obtain ⟨hmarks, rfl⟩ := alternates_concat.mp h
      have hcounts := ih hmarks
      rw [List.count_append, List.count_append, List.length_append]
      by_cases heven : marks.length % 2 = 0
      · simp only [heven, decide_true, List.count_singleton, List.length_singleton]
        simp
        omega
      · simp only [heven, decide_false, List.count_singleton, List.length_singleton]
        simp
        omega

/-- The session callbacks alternate, and outside RECV all are paired. -/
structure Paired (u : UpdateMgr) : Prop where
  alternate : Alternates (sessionMarks u.calls)
  matched : u.state ≠ .recv →
    (sessionMarks u.calls).count true = (sessionMarks u.calls).count false

/-- A session starts outside RECV and ends in it, and only by the two handlers that
call `leave_download`. -/
def PairsSession (u : UpdateMgr) : MgrEvent → Prop
  | .onStart _ => u.state ≠ .recv
  | .onFinish _ _ => u.state = .recv
  | .onAbort _ => u.state = .recv
  | .register .. => u.state ≠ .recv
  | .onRequest _ => u.state ≠ .recv
  | .notify success _ => success = true ∨ u.state ≠ .recv
  | .pollRound now _ _ _ => ¬idleFires u now
  | _ => True

def InSession (u : UpdateMgr) : Prop :=
  u.state = .recv → (sessionMarks u.calls).length % 2 = 1

@[simp] theorem sessionMarks_append (a b : List MgrCall) :
    sessionMarks (a ++ b) = sessionMarks a ++ sessionMarks b :=
  List.filterMap_append

@[simp] theorem sessionMarks_nil : sessionMarks [] = [] := rfl

@[simp] theorem sessionMarks_cons (c : MgrCall) (l : List MgrCall) :
    sessionMarks (c :: l) = c.mark.toList ++ sessionMarks l := by
  cases c <;> rfl

@[simp] theorem sessionMarks_closing (u : UpdateMgr) :
    sessionMarks u.closing = [] := by
  unfold closing
  cases u.dlHandle <;> rfl

@[simp] theorem sessionMarks_closed (u : UpdateMgr) (helper : Bool) :
    sessionMarks (if helper then u.closing else []) = [] := by
  cases helper <;> simp

theorem Paired.parity (h : Paired u) (hin : InSession u) :
    u.state = .recv ↔ (sessionMarks u.calls).length % 2 = 1 := by
  constructor
  · exact hin
  · intro hodd
    by_contra hstate
    have hcounts := h.alternate.counts
    have hmatched := h.matched hstate
    omega

section Transitions

variable {u' : UpdateMgr}

theorem Paired.stay (h : Paired u)
    (hmarks : sessionMarks u'.calls = sessionMarks u.calls)
    (hstate : u'.state = u.state) : Paired u' := by
  refine ⟨?_, ?_⟩
  · rw [hmarks]
    exact h.alternate
  · rw [hmarks, hstate]
    exact h.matched

theorem Paired.outside (h : Paired u) (hin : InSession u)
    (hmarks : sessionMarks u'.calls = sessionMarks u.calls)
    (hstate : u'.state ≠ .recv) : Paired u' ↔ u.state ≠ .recv := by
  constructor
  · intro h' hrecv
    have hcounts := h.alternate.counts
    have hodd := hin hrecv
    have hmatched := h'.matched hstate
    rw [hmarks] at hmatched
    omega
  · intro hout
    refine ⟨?_, fun _ => ?_⟩
    · rw [hmarks]
      exact h.alternate
    · rw [hmarks]
      exact h.matched hout

theorem Paired.enter (h : Paired u) (hin : InSession u)
    (hmarks : sessionMarks u'.calls = sessionMarks u.calls ++ [true])
    (hstate : u'.state = .recv) : Paired u' ↔ u.state ≠ .recv := by
  have hparity := h.parity hin
  constructor
  · intro h' hrecv
    have halt := h'.alternate
    rw [hmarks, alternates_concat] at halt
    have heven : (sessionMarks u.calls).length % 2 = 0 := of_decide_eq_true halt.2.symm
    have hodd := hparity.mp hrecv
    omega
  · intro hout
    refine ⟨?_, fun hno => absurd hstate hno⟩
    rw [hmarks, alternates_concat]
    refine ⟨h.alternate, (decide_eq_true ?_).symm⟩
    have hnot := mt hparity.mpr hout
    omega

theorem Paired.leave (h : Paired u) (hin : InSession u)
    (hmarks : sessionMarks u'.calls = sessionMarks u.calls ++ [false]) :
    Paired u' ↔ u.state = .recv := by
  have hparity := h.parity hin
  constructor
  · intro h'
    have halt := h'.alternate
    rw [hmarks, alternates_concat] at halt
    have hodd : ¬(sessionMarks u.calls).length % 2 = 0 :=
      of_decide_eq_false halt.2.symm
    exact hparity.mpr (by omega)
  · intro hrecv
    have hodd := hparity.mp hrecv
    refine ⟨?_, fun _ => ?_⟩
    · rw [hmarks, alternates_concat]
      exact ⟨h.alternate, (decide_eq_false (by omega)).symm⟩
    · have hcounts := h.alternate.counts
      rw [hmarks, List.count_append, List.count_append]
      simp
      omega

end Transitions

theorem sessionMarks_giveUp {helper appValid recover : Bool}
    {keepWaiting : UpdateMgr → UpdateMgr} {u' : UpdateMgr}
    (hkeep : ∀ v : UpdateMgr, (keepWaiting v).calls = v.calls ∧
      (v.state = u.state → (keepWaiting v).state = .wait))
    (hcase : GiveUpCase helper appValid recover keepWaiting u u') :
    sessionMarks u'.calls = sessionMarks u.calls ∧ u'.state ≠ .recv := by
  cases hcase with
  | appValid => exact ⟨by simp [MgrCall.mark], by simp⟩
  | recovered => exact ⟨by simp [MgrCall.mark], by simp⟩
  | refused =>
      obtain ⟨hcalls, hstate⟩ := hkeep ((u.call (.isAppValid false)).probe false)
      rw [hcalls, hstate rfl]
      exact ⟨by simp [MgrCall.mark], by simp⟩
  | probed =>
      obtain ⟨hcalls, hstate⟩ := hkeep (u.call (.isAppValid false))
      rw [hcalls, hstate rfl]
      exact ⟨by simp [MgrCall.mark], by simp⟩

theorem sessionMarks_pollRound (helper : Bool) (u : UpdateMgr) (now tick : UInt32)
    (appValid recover : Bool) :
    sessionMarks (u.pollRound helper now tick appValid recover).calls =
        sessionMarks u.calls ∧
      (idleFires u now →
        (u.pollRound helper now tick appValid recover).state ≠ .recv) ∧
      (¬idleFires u now →
        ((u.pollRound helper now tick appValid recover).state = .recv ↔
          u.state = .recv)) := by
  have hcase := pollRound_cases helper now tick appValid recover u
  generalize u.pollRound helper now tick appValid recover = u' at hcase
  cases hcase with
  | idle hidle =>
      refine ⟨rfl, fun hfires => ?_, fun _ => Iff.rfl⟩
      obtain ⟨hflag, hstate, hover⟩ := hfires
      obtain hup | ⟨-, hno⟩ := hidle
      · rw [hflag] at hup
        cases hup
      · exact absurd ⟨hstate, hover⟩ hno
  | waited hflag hstate hover hcase =>
      have hkeep (v : UpdateMgr) : ({ v with waitStart := now } : UpdateMgr).calls =
          v.calls ∧ (v.state = u.state → v.state = .wait) :=
        ⟨rfl, fun hv => hv.trans hstate⟩
      obtain ⟨hmarks, hout⟩ := sessionMarks_giveUp hkeep hcase
      exact ⟨hmarks, fun _ => hout, fun _ => by simp [hout, hstate]⟩
  | stalled hflag hstate hover hcase =>
      obtain ⟨hmarks, hout⟩ :=
        sessionMarks_giveUp (fun v => ⟨by simp, fun _ => by simp⟩) hcase
      exact ⟨hmarks, fun _ => hout, fun hno => absurd ⟨hflag, hstate, hover⟩ hno⟩

theorem sessionMarks_register (helper : Bool) (u : UpdateMgr)
    (waitMs idleMs : UInt32) (appValid : Bool) (tick : UInt32) :
    sessionMarks (u.register helper waitMs idleMs appValid tick).calls =
        sessionMarks u.calls ∧
      (u.register helper waitMs idleMs appValid tick).state ≠ .recv := by
  have hcase := register_cases helper waitMs idleMs appValid tick u
  generalize u.register helper waitMs idleMs appValid tick = u' at hcase
  cases hcase with
  | asked => exact ⟨by simp [onRequest, MgrCall.mark], by simp [onRequest]⟩
  | resumed => exact ⟨by simp [MgrCall.mark], by simp⟩
  | appInvalid => exact ⟨by simp [MgrCall.mark], by simp⟩
  | appValid => exact ⟨by simp [MgrCall.mark], by simp⟩

theorem sessionMarks_onFinish (helper ok : Bool) (u : UpdateMgr) (tick : UInt32) :
    sessionMarks (u.onFinish helper ok tick).calls =
        sessionMarks u.calls ++ [false] ∧
      (u.onFinish helper ok tick).state ≠ .recv := by
  cases ok <;> cases helper <;>
    exact ⟨by simp [onFinish, MgrCall.mark], by simp [onFinish]⟩

theorem paired_step {helper : Bool} (hin : InSession u) (h : Paired u)
    (e : MgrEvent) : Paired (u.mgrStep helper e) ↔ PairsSession u e := by
  cases e with
  | register waitMs idleMs appValid tick =>
      obtain ⟨hmarks, hstate⟩ := sessionMarks_register helper u waitMs idleMs
        appValid tick
      exact h.outside hin hmarks hstate
  | onRequest tick =>
      exact h.outside hin (by simp [mgrStep, onRequest, MgrCall.mark])
        (by simp [mgrStep, onRequest])
  | onStart tick =>
      exact h.enter hin (by simp [mgrStep, onStart, MgrCall.mark])
        (by simp [mgrStep, onStart])
  | onData tick =>
      exact iff_of_true (h.stay (by simp [mgrStep]) (by simp [mgrStep])) trivial
  | onFinish ok tick => exact h.leave hin (sessionMarks_onFinish helper ok u tick).1
  | onAbort tick =>
      exact h.leave hin (by simp [mgrStep, onAbort, MgrCall.mark])
  | pollEnter tick => exact iff_of_true (h.stay rfl rfl) trivial
  | pollRound now tick appValid recover =>
      obtain ⟨hmarks, hfired, hkept⟩ :=
        sessionMarks_pollRound helper u now tick appValid recover
      by_cases hfires : idleFires u now
      · refine (h.outside hin hmarks (hfired hfires)).trans ?_
        simp [PairsSession, hfires, hfires.2.1]
      · refine iff_of_true ?_ hfires
        refine ⟨?_, fun hout => ?_⟩
        · show Alternates (sessionMarks (u.pollRound ..).calls)
          rw [hmarks]
          exact h.alternate
        · show (sessionMarks (u.pollRound ..).calls).count true =
            (sessionMarks (u.pollRound ..).calls).count false
          rw [hmarks]
          exact h.matched (mt (hkept hfires).mpr hout)
  | notify success tick =>
      cases success with
      | true =>
          refine iff_of_true (h.stay ?_ rfl) (.inl rfl)
          simp [mgrStep, notifyUpdateResult, MgrCall.mark]
      | false =>
          refine (h.outside hin ?_ ?_).trans ?_
          · simp [mgrStep, notifyUpdateResult, MgrCall.mark]
          · simp [mgrStep, notifyUpdateResult]
          · exact ⟨.inr, fun hout => hout.resolve_left Bool.false_ne_true⟩

theorem inSession_step {helper : Bool} (hin : InSession u) (h : Paired u)
    {e : MgrEvent} (he : PairsSession u e) : InSession (u.mgrStep helper e) := by
  intro hrecv
  cases e with
  | register waitMs idleMs appValid tick =>
      exact absurd hrecv (sessionMarks_register helper u waitMs idleMs appValid tick).2
  | onRequest tick => simp [mgrStep, onRequest] at hrecv
  | onStart tick =>
      have hout : u.state ≠ .recv := he
      have hodd := mt (h.parity hin).mpr hout
      simp [mgrStep, onStart, MgrCall.mark]
      omega
  | onData tick =>
      have hrecv' : u.state = .recv := by simpa [mgrStep] using hrecv
      simpa [mgrStep] using hin hrecv'
  | onFinish ok tick =>
      exact absurd hrecv (sessionMarks_onFinish helper ok u tick).2
  | onAbort tick => simp [mgrStep, onAbort] at hrecv
  | pollEnter tick => exact hin hrecv
  | pollRound now tick appValid recover =>
      obtain ⟨hmarks, -, hkept⟩ :=
        sessionMarks_pollRound helper u now tick appValid recover
      have hrecv' := (hkept he).mp hrecv
      show (sessionMarks (u.pollRound ..).calls).length % 2 = 1
      rw [hmarks]
      exact hin hrecv'
  | notify success tick =>
      cases success with
      | true =>
          have hodd := hin hrecv
          simpa [mgrStep, notifyUpdateResult, MgrCall.mark] using hodd
      | false => simp [mgrStep, notifyUpdateResult] at hrecv

/-- From the registration after a reset on, the session callbacks pair up in every
state of a run exactly when sessions start outside RECV and end in it by
`on_finish` or `on_abort`. -/
theorem paired_run (helper : Bool) (waitMs₀ idleMs₀ waitMs idleMs : UInt32)
    (reason : UpdReason) (appValid : Bool) (tick : UInt32) (es : List MgrEvent) :
    Always (mgrStep helper) Paired ((statics waitMs₀ idleMs₀ reason).register helper
        waitMs idleMs appValid tick) es ↔
      Each (mgrStep helper) PairsSession ((statics waitMs₀ idleMs₀ reason).register
        helper waitMs idleMs appValid tick) es := by
  have hinv (u : UpdateMgr) (e : MgrEvent) (hin : InSession u) (h : Paired u)
      (he : PairsSession u e) : InSession (u.mgrStep helper e) :=
    inSession_step hin h he
  obtain ⟨hmarks, hstate⟩ := sessionMarks_register helper
    (statics waitMs₀ idleMs₀ reason) waitMs idleMs appValid tick
  have hnone : sessionMarks (statics waitMs₀ idleMs₀ reason).calls = [] := rfl
  rw [hnone] at hmarks
  refine always_iff_each (fun _ e hin h => paired_step hin h e) hinv
    (fun hrecv => absurd hrecv hstate) ⟨?_, fun _ => ?_⟩ es
  · rw [hmarks]
    exact alternates_nil
  · rw [hmarks]
    rfl

/-- An idle timeout ends a session without `leave_download`. -/
theorem stalledSession_unpaired :
    ¬Always (mgrStep false) Paired
      ((statics 5000 30000 .req).register false 5000 30000 false 0)
      [.onStart 10, .pollRound 30010 30010 true false] := by
  intro h
  have hlast := h.last.matched (by decide)
  revert hlast
  decide

end Qboot
