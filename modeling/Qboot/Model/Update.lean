import Qboot.Model.Types
/-!
# The update manager

`qboot_update.c`: the receive workflow that the boot thread polls, the event
handlers that a protocol calls, and the download helper.  What the callbacks
answer, the storage results and the ticks come in with each event.  Progress
counters and log output are left out.
-/

namespace Qboot

/-! ## State -/

/-- `qbt_upd_state_t` -/
inductive UpdState where
  | idle
  | wait
  | recv
  | done
  | error
  | ready
  deriving DecidableEq, Repr

/-- `qbt_update_reason_t`, and any other stored value. -/
inductive UpdReason where
  | none
  | req
  | inProgress
  | done
  | other (value : Nat)
  deriving DecidableEq, Repr

/-- A call that the manager makes: an update callback, or an operation on the
download target. -/
inductive MgrCall where
  | isAppValid (ok : Bool)
  | getReason
  | setReason (reason : UpdReason)
  | enterDownload
  | leaveDownload
  | onError
  | onReadyToApp
  | tryRecover (ok : Bool)
  | opened (ok : Bool)
  | closed (ref : Nat)
  | signCleared
  | erased (ok : Bool)
  | wrote (off : Nat) (data : List UInt8) (ok : Bool)
  deriving DecidableEq, Repr

/-- `qbt_update_mgr_ctx_t` and `qbt_update_download_ctx_t`, with what they act
on: the stored reason, the open handles, and the calls made so far. -/
structure UpdateMgr where
  state : UpdState
  waitStart : UInt32
  downloadLast : UInt32
  waitMs : UInt32
  idleMs : UInt32
  readyFlag : Bool
  recoverProbeUsed : Bool
  dlHandle : Option Nat
  dlSize : Nat
  dlOk : Bool
  openHandles : List Nat
  reason : UpdReason
  calls : List MgrCall
  deriving DecidableEq, Repr

namespace UpdateMgr

/-- The static contexts after a reset, with the reason that was stored. -/
def statics (waitMs idleMs : UInt32) (reason : UpdReason) : UpdateMgr where
  state := .idle
  waitStart := 0
  downloadLast := 0
  waitMs := waitMs
  idleMs := idleMs
  readyFlag := false
  recoverProbeUsed := false
  dlHandle := none
  dlSize := 0
  dlOk := false
  openHandles := []
  reason := reason
  calls := []

def call (c : MgrCall) (u : UpdateMgr) : UpdateMgr :=
  { u with calls := u.calls ++ [c] }

/-- `set_reason` -/
def setReason (reason : UpdReason) (u : UpdateMgr) : UpdateMgr :=
  { u.call (.setReason reason) with reason := reason }

/-! ## Download handle -/

/-- `qbt_update_mgr_download_cleanup` -/
def downloadCleanup (u : UpdateMgr) : UpdateMgr :=
  match u.dlHandle with
  | none => u
  | some ref =>
      { u.call (.closed ref) with
        openHandles := u.openHandles.erase ref
        dlHandle := none }

/-- `qbt_update_mgr_set_download_ok` -/
def setDownloadOk (ok : Bool) (u : UpdateMgr) : UpdateMgr :=
  { u with dlOk := ok }.downloadCleanup

/-! ## Transitions -/

/-- `qbt_update_mgr_set_state`, where `rt_tick_get` answers `tick` -/
def setState (tick : UInt32) (state : UpdState) (u : UpdateMgr) : UpdateMgr :=
  match state with
  | .wait => { u with state := .wait, waitStart := tick }
  | .recv => { u with state := .recv, downloadLast := tick }
  | _ => { u with state := state }

/-- Call `try_recover`, which closes the gate for further probes. -/
def probe (recover : Bool) (u : UpdateMgr) : UpdateMgr :=
  { u with recoverProbeUsed := true }.call (.tryRecover recover)

/-- `qbt_update_mgr_try_recover_once`, where `try_recover` answers `recover` -/
def tryRecoverOnce (recover : Bool) (u : UpdateMgr) : Bool × UpdateMgr :=
  if u.recoverProbeUsed then (false, u) else (recover, u.probe recover)

/-- `qbt_update_mgr_ready`; the handle is cleaned up in helper mode only. -/
def ready (helper : Bool) (u : UpdateMgr) : UpdateMgr :=
  let u := { u with readyFlag := true, state := .ready }
  let u := if helper then u.downloadCleanup else u
  u.call .onReadyToApp

/-- `qbt_update_mgr_on_request` -/
def onRequest (tick : UInt32) (u : UpdateMgr) : UpdateMgr :=
  (u.setReason .req).setState tick .wait

/-- `qbt_update_mgr_on_start` -/
def onStart (tick : UInt32) (u : UpdateMgr) : UpdateMgr :=
  ({ u with recoverProbeUsed := false }.call .enterDownload).setState tick .recv

/-- `qbt_update_mgr_on_data` -/
def onData (tick : UInt32) (u : UpdateMgr) : UpdateMgr :=
  if u.state = .recv then { u with downloadLast := tick } else u

/-- `qbt_update_mgr_on_finish` -/
def onFinish (helper ok : Bool) (tick : UInt32) (u : UpdateMgr) : UpdateMgr :=
  let u := u.call .leaveDownload
  let u := if helper then u.setDownloadOk ok else u
  if ok then (u.setReason .done).ready helper
  else ({ u with state := .error }.call .onError).setState tick .wait

/-- `qbt_update_mgr_on_abort` -/
def onAbort (tick : UInt32) (u : UpdateMgr) : UpdateMgr :=
  (u.call .leaveDownload).setState tick .wait

/-! ## Polling -/

/-- The wait window is over at `now`. -/
def waitOver (now : UInt32) (u : UpdateMgr) : Bool :=
  0 < u.waitMs && u.waitMs ≤ now - u.waitStart

/-- The idle timeout has expired at `now`. -/
def idleOver (now : UInt32) (u : UpdateMgr) : Bool :=
  0 < u.idleMs && u.idleMs ≤ now - u.downloadLast

/-- What both timeouts do: hand over to a valid or recoverable application, or
go on waiting. -/
def giveUp (helper appValid recover : Bool) (keepWaiting : UpdateMgr → UpdateMgr)
    (u : UpdateMgr) : UpdateMgr :=
  let u := u.call (.isAppValid appValid)
  if appValid then (u.setReason .none).ready helper
  else
    let (recovered, u) := u.tryRecoverOnce recover
    if recovered then (u.setReason .none).ready helper else keepWaiting u

/-- Before the loop of `qbt_update_mgr_poll` -/
def pollEnter (tick : UInt32) (u : UpdateMgr) : UpdateMgr :=
  { u with waitStart := tick }

/-- One iteration of `qbt_update_mgr_poll`, with the sampled tick `now` and the
later one `tick`. -/
def pollRound (helper : Bool) (now tick : UInt32) (appValid recover : Bool)
    (u : UpdateMgr) : UpdateMgr :=
  if u.readyFlag then u
  else if u.state = .wait then
    if u.waitOver now then
      u.giveUp helper appValid recover fun u => { u with waitStart := now }
    else u
  else if u.state = .recv then
    if u.idleOver now then u.giveUp helper appValid recover (setState tick .wait)
    else u
  else u

/-- `qbt_update_mgr_poll` returns to the boot thread. -/
def pollReturns (u : UpdateMgr) : Bool := u.readyFlag

/-! ## Boot thread -/

/-- `qboot_notify_update_result` -/
def notifyUpdateResult (success : Bool) (tick : UInt32) (u : UpdateMgr) :
    UpdateMgr :=
  if success then u.setReason .done
  else (u.setReason .inProgress).setState tick .wait

/-- What `qbt_update_mgr_register` sets up before it looks at the reason. -/
def setUp (waitMs idleMs : UInt32) (u : UpdateMgr) : UpdateMgr :=
  { u with
    readyFlag := false
    recoverProbeUsed := false
    waitMs := waitMs
    idleMs := idleMs }.call .getReason

/-- `qbt_update_mgr_register` -/
def register (helper : Bool) (waitMs idleMs : UInt32) (appValid : Bool)
    (tick : UInt32) (u : UpdateMgr) : UpdateMgr :=
  let v := u.setUp waitMs idleMs
  match u.reason with
  | .inProgress => v.setState tick .wait
  | .none | .done =>
      let v := v.call (.isAppValid appValid)
      if appValid then v.ready helper else v.setState tick .wait
  | .req => v.onRequest tick
  | .other _ => v.setState tick .wait

/-! ## Download helper -/

/-- `qbt_update_mgr_download_begin`, where the storage answers `opened`, `size`
and `erased`.  When only the size query fails, `qbt_target_open` closes the
handle and leaves it stored. -/
def downloadBegin (opened size : Option Nat) (erased : Bool) (tick : UInt32)
    (u : UpdateMgr) : Bool × UpdateMgr :=
  let u := u.downloadCleanup.setDownloadOk false
  match opened with
  | none => (false, u.call (.opened false))
  | some ref =>
      let u := { u.call (.opened true) with dlHandle := some ref }
      match size with
      | none => (false, u.call (.closed ref))
      | some n =>
          let u := { u with dlSize := n, openHandles := ref :: u.openHandles }
          let u := (u.call .signCleared).call (.erased erased)
          if erased then (true, u.onStart tick) else (false, u.downloadCleanup)

/-- `qbt_update_mgr_download_write`, where the storage answers `ok` -/
def downloadWrite (off : Nat) (data : List UInt8) (ok : Bool) (tick : UInt32)
    (u : UpdateMgr) : Bool × UpdateMgr :=
  match u.dlHandle with
  | none => (false, u)
  | some _ =>
      let u := u.call (.wrote off data ok)
      if ok then (true, u.onData tick)
      else (false, (u.onFinish true false tick).downloadCleanup)

/-! ## Fields after an operation -/

section Fields

variable (u : UpdateMgr) (c : MgrCall) (r : UpdReason) (ok : Bool) (tick : UInt32)

@[simp] theorem call_state : (u.call c).state = u.state := rfl
@[simp] theorem call_readyFlag : (u.call c).readyFlag = u.readyFlag := rfl
@[simp] theorem call_reason : (u.call c).reason = u.reason := rfl
@[simp] theorem call_dlHandle : (u.call c).dlHandle = u.dlHandle := rfl
@[simp] theorem call_dlOk : (u.call c).dlOk = u.dlOk := rfl
@[simp] theorem call_openHandles : (u.call c).openHandles = u.openHandles := rfl
@[simp] theorem call_calls : (u.call c).calls = u.calls ++ [c] := rfl
@[simp] theorem call_recoverProbeUsed :
    (u.call c).recoverProbeUsed = u.recoverProbeUsed := rfl

@[simp] theorem setReason_state : (u.setReason r).state = u.state := rfl
@[simp] theorem setReason_readyFlag : (u.setReason r).readyFlag = u.readyFlag := rfl
@[simp] theorem setReason_reason : (u.setReason r).reason = r := rfl
@[simp] theorem setReason_dlHandle : (u.setReason r).dlHandle = u.dlHandle := rfl
@[simp] theorem setReason_dlOk : (u.setReason r).dlOk = u.dlOk := rfl
@[simp] theorem setReason_openHandles :
    (u.setReason r).openHandles = u.openHandles := rfl
@[simp] theorem setReason_calls :
    (u.setReason r).calls = u.calls ++ [.setReason r] := rfl
@[simp] theorem setReason_recoverProbeUsed :
    (u.setReason r).recoverProbeUsed = u.recoverProbeUsed := rfl

@[simp] theorem probe_state : (u.probe ok).state = u.state := rfl
@[simp] theorem probe_readyFlag : (u.probe ok).readyFlag = u.readyFlag := rfl
@[simp] theorem probe_reason : (u.probe ok).reason = u.reason := rfl
@[simp] theorem probe_dlHandle : (u.probe ok).dlHandle = u.dlHandle := rfl
@[simp] theorem probe_dlOk : (u.probe ok).dlOk = u.dlOk := rfl
@[simp] theorem probe_openHandles :
    (u.probe ok).openHandles = u.openHandles := rfl
@[simp] theorem probe_recoverProbeUsed :
    (u.probe ok).recoverProbeUsed = true := rfl
@[simp] theorem probe_calls :
    (u.probe ok).calls = u.calls ++ [.tryRecover ok] := rfl

@[simp] theorem setUp_state (w i : UInt32) : (u.setUp w i).state = u.state := rfl
@[simp] theorem setUp_readyFlag (w i : UInt32) :
    (u.setUp w i).readyFlag = false := rfl
@[simp] theorem setUp_reason (w i : UInt32) :
    (u.setUp w i).reason = u.reason := rfl
@[simp] theorem setUp_dlHandle (w i : UInt32) :
    (u.setUp w i).dlHandle = u.dlHandle := rfl
@[simp] theorem setUp_dlOk (w i : UInt32) : (u.setUp w i).dlOk = u.dlOk := rfl
@[simp] theorem setUp_openHandles (w i : UInt32) :
    (u.setUp w i).openHandles = u.openHandles := rfl
@[simp] theorem setUp_calls (w i : UInt32) :
    (u.setUp w i).calls = u.calls ++ [.getReason] := rfl

/-- `set_state` touches the state and a timestamp. -/
theorem setState_fields (s : UpdState) :
    (u.setState tick s).state = s ∧
    (u.setState tick s).readyFlag = u.readyFlag ∧
    (u.setState tick s).reason = u.reason ∧
    (u.setState tick s).dlHandle = u.dlHandle ∧
    (u.setState tick s).dlOk = u.dlOk ∧
    (u.setState tick s).openHandles = u.openHandles ∧
    (u.setState tick s).calls = u.calls ∧
    (u.setState tick s).recoverProbeUsed = u.recoverProbeUsed := by
  cases s <;> exact ⟨rfl, rfl, rfl, rfl, rfl, rfl, rfl, rfl⟩

@[simp] theorem setState_state (s : UpdState) : (u.setState tick s).state = s :=
  (u.setState_fields tick s).1
@[simp] theorem setState_readyFlag (s : UpdState) :
    (u.setState tick s).readyFlag = u.readyFlag := (u.setState_fields tick s).2.1
@[simp] theorem setState_reason (s : UpdState) :
    (u.setState tick s).reason = u.reason := (u.setState_fields tick s).2.2.1
@[simp] theorem setState_dlHandle (s : UpdState) :
    (u.setState tick s).dlHandle = u.dlHandle := (u.setState_fields tick s).2.2.2.1
@[simp] theorem setState_dlOk (s : UpdState) :
    (u.setState tick s).dlOk = u.dlOk := (u.setState_fields tick s).2.2.2.2.1
@[simp] theorem setState_openHandles (s : UpdState) :
    (u.setState tick s).openHandles = u.openHandles :=
  (u.setState_fields tick s).2.2.2.2.2.1
@[simp] theorem setState_calls (s : UpdState) :
    (u.setState tick s).calls = u.calls := (u.setState_fields tick s).2.2.2.2.2.2.1
@[simp] theorem setState_recoverProbeUsed (s : UpdState) :
    (u.setState tick s).recoverProbeUsed = u.recoverProbeUsed :=
  (u.setState_fields tick s).2.2.2.2.2.2.2

/-- The calls that closing a stored handle makes. -/
def closing : List MgrCall :=
  match u.dlHandle with
  | none => []
  | some ref => [.closed ref]

/-- Cleaning up touches the handle only. -/
theorem downloadCleanup_fields :
    u.downloadCleanup.state = u.state ∧
    u.downloadCleanup.readyFlag = u.readyFlag ∧
    u.downloadCleanup.reason = u.reason ∧
    u.downloadCleanup.dlHandle = none ∧
    u.downloadCleanup.dlOk = u.dlOk ∧
    u.downloadCleanup.calls = u.calls ++ u.closing ∧
    u.downloadCleanup.recoverProbeUsed = u.recoverProbeUsed := by
  unfold downloadCleanup closing
  rcases h : u.dlHandle with _ | ref
  · simp [h]
  · simp

@[simp] theorem downloadCleanup_state : u.downloadCleanup.state = u.state :=
  u.downloadCleanup_fields.1
@[simp] theorem downloadCleanup_readyFlag :
    u.downloadCleanup.readyFlag = u.readyFlag := u.downloadCleanup_fields.2.1
@[simp] theorem downloadCleanup_reason :
    u.downloadCleanup.reason = u.reason := u.downloadCleanup_fields.2.2.1
@[simp] theorem downloadCleanup_dlHandle : u.downloadCleanup.dlHandle = none :=
  u.downloadCleanup_fields.2.2.2.1
@[simp] theorem downloadCleanup_dlOk : u.downloadCleanup.dlOk = u.dlOk :=
  u.downloadCleanup_fields.2.2.2.2.1
@[simp] theorem downloadCleanup_calls :
    u.downloadCleanup.calls = u.calls ++ u.closing :=
  u.downloadCleanup_fields.2.2.2.2.2.1
@[simp] theorem downloadCleanup_recoverProbeUsed :
    u.downloadCleanup.recoverProbeUsed = u.recoverProbeUsed :=
  u.downloadCleanup_fields.2.2.2.2.2.2

@[simp] theorem setDownloadOk_state : (u.setDownloadOk ok).state = u.state := by
  simp [setDownloadOk]
@[simp] theorem setDownloadOk_readyFlag :
    (u.setDownloadOk ok).readyFlag = u.readyFlag := by simp [setDownloadOk]
@[simp] theorem setDownloadOk_reason :
    (u.setDownloadOk ok).reason = u.reason := by simp [setDownloadOk]
@[simp] theorem setDownloadOk_dlHandle : (u.setDownloadOk ok).dlHandle = none := by
  simp [setDownloadOk]
@[simp] theorem setDownloadOk_dlOk : (u.setDownloadOk ok).dlOk = ok := by
  simp [setDownloadOk]
@[simp] theorem setDownloadOk_calls :
    (u.setDownloadOk ok).calls = u.calls ++ u.closing := by
  simp [setDownloadOk, closing]
@[simp] theorem setDownloadOk_recoverProbeUsed :
    (u.setDownloadOk ok).recoverProbeUsed = u.recoverProbeUsed := by
  simp [setDownloadOk]

variable (helper : Bool)

@[simp] theorem ready_state : (u.ready helper).state = .ready := by
  cases helper <;> simp [ready]
@[simp] theorem ready_readyFlag : (u.ready helper).readyFlag = true := by
  cases helper <;> simp [ready]
@[simp] theorem ready_reason : (u.ready helper).reason = u.reason := by
  cases helper <;> simp [ready]
@[simp] theorem ready_dlOk : (u.ready helper).dlOk = u.dlOk := by
  cases helper <;> simp [ready]
@[simp] theorem ready_dlHandle : (u.ready true).dlHandle = none := by
  simp [ready]
@[simp] theorem ready_recoverProbeUsed :
    (u.ready helper).recoverProbeUsed = u.recoverProbeUsed := by
  cases helper <;> simp [ready]
@[simp] theorem ready_calls :
    (u.ready helper).calls =
      u.calls ++ ((if helper then u.closing else []) ++ [.onReadyToApp]) := by
  cases helper <;> simp [ready, closing]

@[simp] theorem onData_state : (u.onData tick).state = u.state := by
  unfold onData
  split <;> rfl
@[simp] theorem onData_readyFlag : (u.onData tick).readyFlag = u.readyFlag := by
  unfold onData
  split <;> rfl
@[simp] theorem onData_reason : (u.onData tick).reason = u.reason := by
  unfold onData
  split <;> rfl
@[simp] theorem onData_dlHandle : (u.onData tick).dlHandle = u.dlHandle := by
  unfold onData
  split <;> rfl
@[simp] theorem onData_dlOk : (u.onData tick).dlOk = u.dlOk := by
  unfold onData
  split <;> rfl
@[simp] theorem onData_openHandles :
    (u.onData tick).openHandles = u.openHandles := by
  unfold onData
  split <;> rfl
@[simp] theorem onData_calls : (u.onData tick).calls = u.calls := by
  unfold onData
  split <;> rfl
@[simp] theorem onData_recoverProbeUsed :
    (u.onData tick).recoverProbeUsed = u.recoverProbeUsed := by
  unfold onData
  split <;> rfl

end Fields

/-! ## Where a download begins -/

section Begin

variable (ref n : Nat) (erased : Bool) (tick : UInt32) (u : UpdateMgr)

/-- The target `ref` of `n` bytes is open for a download, and has been erased or not. -/
def downloading : UpdateMgr :=
  let u := { (u.downloadCleanup.setDownloadOk false).call (.opened true) with
    dlHandle := some ref }
  ({ u with dlSize := n, openHandles := ref :: u.openHandles }.call .signCleared).call
    (.erased erased)

@[simp] theorem downloading_dlHandle : (u.downloading ref n erased).dlHandle = some ref := rfl
@[simp] theorem downloading_dlOk : (u.downloading ref n erased).dlOk = false :=
  setDownloadOk_dlOk _ false
@[simp] theorem downloading_reason : (u.downloading ref n erased).reason = u.reason :=
  (setDownloadOk_reason _ false).trans (downloadCleanup_reason u)
@[simp] theorem downloading_openHandles : (u.downloading ref n erased).openHandles =
    ref :: (u.downloadCleanup.setDownloadOk false).openHandles := rfl

theorem downloadBegin_unopened (size : Option Nat) :
    u.downloadBegin none size erased tick =
      (false, (u.downloadCleanup.setDownloadOk false).call (.opened false)) := rfl

theorem downloadBegin_unsized : u.downloadBegin (some ref) none erased tick =
    (false, { (u.downloadCleanup.setDownloadOk false).call (.opened true) with
      dlHandle := some ref }.call (.closed ref)) := rfl

theorem downloadBegin_unerased : u.downloadBegin (some ref) (some n) false tick =
    (false, (u.downloading ref n false).downloadCleanup) := rfl

theorem downloadBegin_begun : u.downloadBegin (some ref) (some n) true tick =
    (true, (u.downloading ref n true).onStart tick) := rfl

end Begin

/-- What a timeout comes to: the application is handed over to, after one of two
callbacks has agreed, or the manager goes on waiting. -/
inductive GiveUpCase (helper appValid recover : Bool)
    (keepWaiting : UpdateMgr → UpdateMgr) (u : UpdateMgr) : UpdateMgr → Prop where
  | appValid (hvalid : appValid = true) :
      GiveUpCase helper appValid recover keepWaiting u
        (((u.call (.isAppValid true)).setReason .none).ready helper)
  | recovered (hvalid : appValid = false) (hprobe : u.recoverProbeUsed = false)
      (hrecover : recover = true) :
      GiveUpCase helper appValid recover keepWaiting u
        ((((u.call (.isAppValid false)).probe true).setReason .none).ready helper)
  | refused (hvalid : appValid = false) (hprobe : u.recoverProbeUsed = false)
      (hrecover : recover = false) :
      GiveUpCase helper appValid recover keepWaiting u
        (keepWaiting ((u.call (.isAppValid false)).probe false))
  | probed (hvalid : appValid = false) (hprobe : u.recoverProbeUsed = true) :
      GiveUpCase helper appValid recover keepWaiting u
        (keepWaiting (u.call (.isAppValid false)))

theorem giveUp_cases (helper appValid recover : Bool)
    (keepWaiting : UpdateMgr → UpdateMgr) (u : UpdateMgr) :
    GiveUpCase helper appValid recover keepWaiting u
      (u.giveUp helper appValid recover keepWaiting) := by
  unfold giveUp
  cases hvalid : appValid with
  | true => exact .appValid rfl
  | false =>
      cases hprobe : u.recoverProbeUsed with
      | true =>
          simp only [tryRecoverOnce, call_recoverProbeUsed, hprobe]
          exact .probed rfl hprobe
      | false =>
          simp only [tryRecoverOnce, call_recoverProbeUsed, hprobe]
          cases hrecover : recover with
          | true => exact .recovered rfl hprobe rfl
          | false => exact .refused rfl hprobe rfl

/-- What one iteration of the poll loop comes to. -/
inductive PollCase (helper : Bool) (now tick : UInt32) (appValid recover : Bool)
    (u : UpdateMgr) : UpdateMgr → Prop where
  | idle (hidle : u.readyFlag = true ∨
      ¬(u.state = .wait ∧ u.waitOver now = true) ∧
        ¬(u.state = .recv ∧ u.idleOver now = true)) :
      PollCase helper now tick appValid recover u u
  | waited (hflag : u.readyFlag = false) (hstate : u.state = .wait)
      (hover : u.waitOver now = true) {u' : UpdateMgr}
      (hcase : GiveUpCase helper appValid recover
        (fun u => { u with waitStart := now }) u u') :
      PollCase helper now tick appValid recover u u'
  | stalled (hflag : u.readyFlag = false) (hstate : u.state = .recv)
      (hover : u.idleOver now = true) {u' : UpdateMgr}
      (hcase : GiveUpCase helper appValid recover (setState tick .wait) u u') :
      PollCase helper now tick appValid recover u u'

theorem pollRound_cases (helper : Bool) (now tick : UInt32)
    (appValid recover : Bool) (u : UpdateMgr) :
    PollCase helper now tick appValid recover u
      (u.pollRound helper now tick appValid recover) := by
  unfold pollRound
  by_cases hflag : u.readyFlag = true
  · rw [if_pos hflag]
    exact .idle (.inl hflag)
  rw [if_neg hflag]
  have hflag' : u.readyFlag = false := by simpa using hflag
  by_cases hwait : u.state = .wait
  · rw [if_pos hwait]
    by_cases hover : u.waitOver now = true
    · rw [if_pos hover]
      exact .waited hflag' hwait hover (giveUp_cases ..)
    · rw [if_neg hover]
      exact .idle (.inr (by simp [hwait, hover]))
  rw [if_neg hwait]
  by_cases hrecv : u.state = .recv
  · rw [if_pos hrecv]
    by_cases hover : u.idleOver now = true
    · rw [if_pos hover]
      exact .stalled hflag' hrecv hover (giveUp_cases ..)
    · rw [if_neg hover]
      exact .idle (.inr (by simp [hrecv, hover]))
  · rw [if_neg hrecv]
    exact .idle (.inr (by simp [hwait, hrecv]))

/-- The stored reason asks for nothing, so a valid application may be started. -/
def asksNothing (u : UpdateMgr) : Prop := u.reason = .none ∨ u.reason = .done

/-- What registration comes to. -/
inductive RegisterCase (helper : Bool) (waitMs idleMs : UInt32) (appValid : Bool)
    (tick : UInt32) (u : UpdateMgr) : UpdateMgr → Prop where
  | asked (hreason : u.reason = .req) :
      RegisterCase helper waitMs idleMs appValid tick u
        ((u.setUp waitMs idleMs).onRequest tick)
  | resumed (hask : u.reason ≠ .req) (hreason : ¬u.asksNothing) :
      RegisterCase helper waitMs idleMs appValid tick u
        ((u.setUp waitMs idleMs).setState tick .wait)
  | appInvalid (hreason : u.asksNothing) (hvalid : appValid = false) :
      RegisterCase helper waitMs idleMs appValid tick u
        (((u.setUp waitMs idleMs).call (.isAppValid false)).setState tick .wait)
  | appValid (hreason : u.asksNothing) (hvalid : appValid = true) :
      RegisterCase helper waitMs idleMs appValid tick u
        (((u.setUp waitMs idleMs).call (.isAppValid true)).ready helper)

theorem register_cases (helper : Bool) (waitMs idleMs : UInt32) (appValid : Bool)
    (tick : UInt32) (u : UpdateMgr) :
    RegisterCase helper waitMs idleMs appValid tick u
      (u.register helper waitMs idleMs appValid tick) := by
  have hask (h : u.asksNothing) : RegisterCase helper waitMs idleMs appValid tick u
      (if appValid then ((u.setUp waitMs idleMs).call (.isAppValid appValid)).ready helper
        else ((u.setUp waitMs idleMs).call (.isAppValid appValid)).setState tick .wait) := by
    cases hvalid : appValid with
    | true => exact .appValid h rfl
    | false => exact .appInvalid h rfl
  unfold register
  split
  · rename_i hreason
    exact .resumed (by simp [hreason]) (by simp [asksNothing, hreason])
  · rename_i hreason
    exact hask (.inl hreason)
  · rename_i hreason
    exact hask (.inr hreason)
  · rename_i hreason
    exact .asked hreason
  · rename_i hreason
    exact .resumed (by simp [hreason]) (by simp [asksNothing, hreason])

end UpdateMgr

/-! ## Events -/

/-- The calls into the manager, with what their callbacks answer. -/
inductive MgrEvent where
  | register (waitMs idleMs : UInt32) (appValid : Bool) (tick : UInt32)
  | onRequest (tick : UInt32)
  | onStart (tick : UInt32)
  | onData (tick : UInt32)
  | onFinish (ok : Bool) (tick : UInt32)
  | onAbort (tick : UInt32)
  | pollEnter (tick : UInt32)
  | pollRound (now tick : UInt32) (appValid recover : Bool)
  | notify (success : Bool) (tick : UInt32)
  deriving DecidableEq, Repr

/-- The calls of helper mode. -/
inductive HelperEvent where
  | mgr (e : MgrEvent)
  | downloadBegin (opened size : Option Nat) (erased : Bool) (tick : UInt32)
  | downloadWrite (off : Nat) (data : List UInt8) (ok : Bool) (tick : UInt32)
  deriving DecidableEq, Repr

namespace UpdateMgr

def mgrStep (helper : Bool) (u : UpdateMgr) : MgrEvent → UpdateMgr
  | .register waitMs idleMs appValid tick =>
      u.register helper waitMs idleMs appValid tick
  | .onRequest tick => u.onRequest tick
  | .onStart tick => u.onStart tick
  | .onData tick => u.onData tick
  | .onFinish ok tick => u.onFinish helper ok tick
  | .onAbort tick => u.onAbort tick
  | .pollEnter tick => u.pollEnter tick
  | .pollRound now tick appValid recover =>
      u.pollRound helper now tick appValid recover
  | .notify success tick => u.notifyUpdateResult success tick

def helperStep (u : UpdateMgr) : HelperEvent → UpdateMgr
  | .mgr e => u.mgrStep true e
  | .downloadBegin opened size erased tick =>
      (u.downloadBegin opened size erased tick).2
  | .downloadWrite off data ok tick => (u.downloadWrite off data ok tick).2

/-- A step in either mode; the download calls exist in helper mode only. -/
def modeStep (helper : Bool) (u : UpdateMgr) : HelperEvent → UpdateMgr
  | .mgr e => u.mgrStep helper e
  | e => if helper then u.helperStep e else u

end UpdateMgr

end Qboot
