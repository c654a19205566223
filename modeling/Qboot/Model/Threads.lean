import Qboot.Model.Update
import Qboot.Library.Run
/-!
# The polling thread beside the receiving thread

`qbt_update_mgr_poll` runs in the boot thread, the event handlers in the thread
that receives the download, and neither takes a lock.  An iteration of the poll
loop is two steps here, the sample of the tick and the test against it, and
`on_start` and `on_data` are one step for each field that they update.
-/

namespace Qboot

open Library.Run

/-- The update that the receiving thread makes next. -/
inductive RecvPoint where
  | outside
  | startEnter
  | startState
  | startStamp
  | dataStamp
  deriving DecidableEq, Repr

/-- Both threads and the tick, counted without wrapping.  `lastActive` is the
tick of the last step of `on_start` or `on_data`. -/
structure Threads where
  mgr : UpdateMgr
  tick : Nat
  sample : Nat
  testing : Bool
  point : RecvPoint
  lastActive : Option Nat
  deriving DecidableEq, Repr

inductive ThreadStep where
  | tick
  | sample
  | test (appValid recover : Bool)
  | callStart
  | callData
  | recv
  deriving DecidableEq, Repr

namespace Threads

/-- Between two poll iterations, before the receiving thread has done anything. -/
def start (mgr : UpdateMgr) (tick : Nat) : Threads where
  mgr := mgr
  tick := tick
  sample := tick
  testing := false
  point := .outside
  lastActive := none

/-- The tick as the code reads it. -/
def now32 (s : Threads) : UInt32 := UInt32.ofNat s.tick

/-- `now` of the poll loop. -/
def sample32 (s : Threads) : UInt32 := UInt32.ofNat s.sample

/-- A step of the receiving thread that leaves it at `point`. -/
def active (point : RecvPoint) (mgr : UpdateMgr) (s : Threads) : Threads :=
  { s with mgr := mgr, point := point, lastActive := some s.tick }

/-- The next update of the call that the receiving thread is in. -/
def recvStep (s : Threads) : Threads :=
  match s.point with
  | .outside => s
  | .startEnter => s.active .startState (s.mgr.call .enterDownload)
  | .startState => s.active .startStamp { s.mgr with state := .recv }
  | .startStamp => s.active .outside { s.mgr with downloadLast := s.now32 }
  | .dataStamp => s.active .outside { s.mgr with downloadLast := s.now32 }

/-- `now = rt_tick_get()`, where the loop is still running. -/
def sampleStep (s : Threads) : Threads :=
  if s.testing || s.mgr.readyFlag then s
  else { s with sample := s.tick, testing := true }

/-- The rest of the iteration. -/
def testStep (helper appValid recover : Bool) (s : Threads) : Threads :=
  if s.testing then
    { s with
      mgr := s.mgr.pollRound helper s.sample32 s.now32 appValid recover
      testing := false }
  else s

/-- `qbt_update_mgr_on_start` is called. -/
def startStep (s : Threads) : Threads :=
  if s.point = .outside then
    s.active .startEnter { s.mgr with recoverProbeUsed := false }
  else s

/-- `qbt_update_mgr_on_data` is called. -/
def dataStep (s : Threads) : Threads :=
  if s.point = .outside then
    s.active (if s.mgr.state = .recv then .dataStamp else .outside) s.mgr
  else s

/-- One step of either thread or of the clock.  A step that its thread cannot
take does nothing. -/
def step (helper : Bool) (s : Threads) : ThreadStep → Threads
  | .tick => { s with tick := s.tick + 1 }
  | .sample => s.sampleStep
  | .test appValid recover => s.testStep helper appValid recover
  | .callStart => s.startStep
  | .callData => s.dataStep
  | .recv => s.recvStep

variable (helper : Bool) (s : Threads)

/-- An undisturbed `on_start` is the handler of the manager. -/
theorem run_callStart (hout : s.point = .outside) :
    run (step helper) s [.callStart, .recv, .recv, .recv] =
      s.active .outside (s.mgr.onStart s.now32) := by
  simp [step, startStep, recvStep, active, hout, UpdateMgr.onStart,
    UpdateMgr.setState, UpdateMgr.call, now32]

/-- An undisturbed `on_data` is the handler of the manager. -/
theorem run_callData (hout : s.point = .outside) :
    run (step helper) s [.callData, .recv] =
      s.active .outside (s.mgr.onData s.now32) := by
  by_cases hrecv : s.mgr.state = .recv
  · simp [step, dataStep, recvStep, active, hout, UpdateMgr.onData, hrecv, now32]
  · simp [step, dataStep, recvStep, active, hout, UpdateMgr.onData, hrecv]

/-- An undisturbed iteration is the round of the manager, at one tick. -/
theorem run_poll (hidle : s.testing = false) (hflag : s.mgr.readyFlag = false)
    (appValid recover : Bool) :
    run (step helper) s [.sample, .test appValid recover] =
      { s with
        mgr := s.mgr.pollRound helper s.now32 s.now32 appValid recover
        sample := s.tick } := by
  simp [step, sampleStep, testStep, hidle, hflag, sample32, now32]

end Threads

end Qboot
