import Qboot.Model.Threads
import Qboot.Proofs.Sessions
/-!
# The idle timeout against live traffic

When the timeout that ends a download has really seen no traffic for `idle_ms`
ticks, over every interleaving of the polling and the receiving thread.
-/

namespace Qboot

open Library.Run UpdateMgr

variable {helper : Bool} {s : Threads}

/-- The test of a poll iteration is about to take the idle timeout branch. -/
def Threads.timesOut (s : Threads) : Prop :=
  s.testing = true ∧ idleFires s.mgr s.sample32

/-- When the idle timeout is taken, no step of `on_start` or `on_data` lies
within the last `idle_ms` ticks. -/
def QuietTimeout (s : Threads) : ThreadStep → Prop
  | .test _ _ => s.timesOut →
      ∀ r, s.lastActive = some r → r + s.mgr.idleMs.toNat ≤ s.tick
  | _ => True

/-- A test that takes the timeout comes while the receiving thread is outside
`on_start` and `on_data` and neither has run past the tick of the sample, or
while it has been held up inside one of them for `idle_ms` ticks. -/
def SampledLate (s : Threads) : ThreadStep → Prop
  | .test _ _ => s.timesOut → ∀ r, s.lastActive = some r →
      if s.point = .outside then r ≤ s.sample
      else r + s.mgr.idleMs.toNat ≤ s.tick
  | _ => True

/-- Outside the handlers, the timestamp of a download is its last activity. -/
structure Stamped (s : Threads) : Prop where
  sampled : s.sample ≤ s.tick
  stamp : s.point = .outside → s.mgr.state = .recv →
    ∀ r, s.lastActive = some r → s.mgr.downloadLast = UInt32.ofNat r

theorem stamped_start (mgr : UpdateMgr) (tick : Nat) :
    Stamped (Threads.start mgr tick) where
  sampled := Nat.le_refl tick
  stamp := by
    intro _ _ r hr
    simp [Threads.start] at hr

theorem pollRound_recv {u : UpdateMgr} {now tick : UInt32}
    {appValid recover : Bool}
    (h : (u.pollRound helper now tick appValid recover).state = .recv) :
    u.pollRound helper now tick appValid recover = u := by
  have hgiveUp {keepWaiting : UpdateMgr → UpdateMgr} {u' : UpdateMgr}
      (hkeep : ∀ v : UpdateMgr, v.state = u.state → (keepWaiting v).state ≠ .recv)
      (hcase : GiveUpCase helper appValid recover keepWaiting u u') :
      u'.state ≠ .recv := by
    cases hcase with
    | appValid => simp
    | recovered => simp
    | refused => exact hkeep _ rfl
    | probed => exact hkeep _ rfl
  have hcase := pollRound_cases helper now tick appValid recover u
  generalize u.pollRound helper now tick appValid recover = u' at h hcase
  cases hcase with
  | idle => rfl
  | waited hflag hstate hover hcase =>
      refine absurd h (hgiveUp (fun v hv => ?_) hcase)
      show v.state ≠ .recv
      rw [hv, hstate]
      decide
  | stalled hflag hstate hover hcase =>
      exact absurd h (hgiveUp (fun v _ => by simp) hcase)

theorem stamped_active (h : Stamped s) {point : RecvPoint} {mgr : UpdateMgr}
    (hstamp : point = .outside → mgr.state = .recv →
      mgr.downloadLast = s.now32) : Stamped (s.active point mgr) where
  sampled := h.sampled
  stamp := by
    intro hout hrecv r hr
    obtain rfl : s.tick = r := Option.some.inj hr
    exact hstamp hout hrecv

theorem stamped_step (h : Stamped s) (l : ThreadStep) :
    Stamped (s.step helper l) := by
  cases l with
  | tick =>
      exact {
        sampled := Nat.le_succ_of_le h.sampled
        stamp := h.stamp }
  | sample =>
      show Stamped s.sampleStep
      unfold Threads.sampleStep
      split
      · exact h
      · exact ⟨Nat.le_refl _, h.stamp⟩
  | test appValid recover =>
      show Stamped (s.testStep helper appValid recover)
      unfold Threads.testStep
      split
      · refine ⟨h.sampled, fun hout hrecv r hr => ?_⟩
        have hsame := pollRound_recv hrecv
        show (s.mgr.pollRound ..).downloadLast = _
        rw [hsame] at hrecv ⊢
        exact h.stamp hout hrecv r hr
      · exact h
  | callStart =>
      show Stamped s.startStep
      unfold Threads.startStep
      split
      · exact stamped_active h (fun hout => by cases hout)
      · exact h
  | callData =>
      show Stamped s.dataStep
      unfold Threads.dataStep
      split
      · refine stamped_active h (fun hout hrecv => ?_)
        rw [if_pos hrecv] at hout
        cases hout
      · exact h
  | recv =>
      show Stamped s.recvStep
      unfold Threads.recvStep
      split
      · exact h
      · exact stamped_active h (fun hout => by cases hout)
      · exact stamped_active h (fun hout => by cases hout)
      · exact stamped_active h (fun _ _ => rfl)
      · exact stamped_active h (fun _ _ => rfl)

theorem tick_sub_le {earlier later : Nat} (h : earlier ≤ later) :
    (UInt32.ofNat later - UInt32.ofNat earlier).toNat ≤ later - earlier := by
  rw [← UInt32.ofNat_sub h, UInt32.toNat_ofNat']
  exact Nat.mod_le _ _

theorem quietTimeout_of_sampledLate (h : Stamped s) (l : ThreadStep)
    (hlate : SampledLate s l) : QuietTimeout s l := by
  cases l with
  | test appValid recover =>
      intro hfires r hr
      have hcase := hlate hfires r hr
      split at hcase
      next hout =>
        obtain ⟨-, -, hrecv, hover⟩ := hfires
        have hover : s.mgr.idleMs ≤ s.sample32 - s.mgr.downloadLast := by
          simp only [idleOver, Bool.and_eq_true, decide_eq_true_eq] at hover
          exact hover.2
        -- Outside the handlers the stamp is the last activity itself.
        rw [h.stamp hout hrecv r hr] at hover
        have hidle : s.mgr.idleMs.toNat ≤ s.sample - r :=
          (UInt32.le_iff_toNat_le.mp hover).trans (tick_sub_le hcase)
        have := h.sampled
        omega
      next => exact hcase
  | tick => trivial
  | sample => trivial
  | callStart => trivial
  | callData => trivial
  | recv => trivial

/-- A manager with an idle timeout of two ticks, waiting for a download. -/
def shortIdle : UpdateMgr :=
  (UpdateMgr.statics 0 0 .none).register true 3000 2 false 10

def silentSession : List ThreadStep :=
  [.callStart, .recv, .recv, .recv, .tick, .tick, .sample, .test true false]

end Qboot
