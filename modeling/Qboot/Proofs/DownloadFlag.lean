import Qboot.Proofs.Sessions
/-!
# The download flag

The flag by which the helper accepts the download target for release.  It is set
by `on_finish`, whoever calls it; what it vouches for is a property of the history
of the calls, and holds when the session that `on_finish` ends is still live.
-/

namespace Qboot

open Library.Run UpdateMgr

/-! ## Histories -/

def HelperEvent.ofDownload : HelperEvent → Bool
  | .downloadBegin .. => true
  | .downloadWrite .. => true
  | .mgr (.onFinish ..) => true
  | .mgr (.onAbort _) => true
  | .mgr (.pollEnter _) => true
  | .mgr (.pollRound ..) => true
  | _ => false

def HelperEvent.isBegin : HelperEvent → Bool
  | .downloadBegin .. => true
  | _ => false

/-- The event is a `download_begin` that returns `RT_TRUE`. -/
def Begins (u : UpdateMgr) : HelperEvent → Prop
  | .downloadBegin opened size erased tick =>
      (u.downloadBegin opened size erased tick).1 = true
  | _ => False

/-- The event is a failed write, an abort, an `on_finish(RT_FALSE)` or an idle
timeout. -/
def Spoils (u : UpdateMgr) : HelperEvent → Prop
  | .downloadWrite _ _ ok _ => u.dlHandle ≠ none ∧ ok = false
  | .mgr (.onFinish ok _) => ok = false
  | .mgr (.onAbort _) => True
  | .mgr (.pollRound now ..) => idleFires u now
  | _ => False

/-- The event neither begins a session nor spoils one. -/
def Carries (u : UpdateMgr) (e : HelperEvent) : Prop :=
  e.isBegin = false ∧ ¬Spoils u e

variable {u₀ : UpdateMgr}

/-- The last `download_begin` of the history has succeeded, and nothing has spoilt
its session since. -/
def Unspoilt (u₀ : UpdateMgr) (es : List HelperEvent) : Prop :=
  ∃ front e mid, es = front ++ e :: mid ∧ Begins (run helperStep u₀ front) e ∧
    Each helperStep Carries (run helperStep u₀ (front ++ [e])) mid

/-- The history up to the `on_finish(RT_TRUE)` that set the flag is unspoilt, and
the flag has been up since then. -/
def Vouched (u₀ : UpdateMgr) (es : List HelperEvent) : Prop :=
  ∃ front tick back, es = front ++ .mgr (.onFinish true tick) :: back ∧
    Unspoilt u₀ front ∧ (run helperStep u₀ front).dlOk = false ∧
    Always helperStep (fun u => u.dlOk = true)
      (run helperStep u₀ (front ++ [.mgr (.onFinish true tick)])) back

/-- A session receives into an open download target. -/
def Receiving (u : UpdateMgr) : Prop :=
  u.state = .recv ∧ ∃ ref ∈ u.openHandles, u.dlHandle = some ref

/-- A download is reported complete only while its session is receiving, or where
the flag is up already. -/
def FinishesLive (u : UpdateMgr) : HelperEvent → Prop
  | .mgr (.onFinish ok _) => ok = true → u.dlOk = true ∨ Receiving u
  | _ => True

theorem unspoilt_concat {es : List HelperEvent} {e : HelperEvent} :
    Unspoilt u₀ (es ++ [e]) ↔ Begins (run helperStep u₀ es) e ∨
      Unspoilt u₀ es ∧ Carries (run helperStep u₀ es) e := by
  constructor
  · rintro ⟨front, b, mid, hsplit, hbegin, hmid⟩
    obtain ⟨rfl, rfl, rfl⟩ | ⟨rest, rfl, rfl⟩ := concat_eq_split hsplit
    · exact .inl hbegin
    · rw [each_concat, ← run_append] at hmid
      exact .inr ⟨⟨front, b, rest, rfl, hbegin, hmid.1⟩, by simpa using hmid.2⟩
  · rintro (hbegin | ⟨⟨front, b, mid, rfl, hbegin, hmid⟩, hcarries⟩)
    · exact ⟨es, e, [], rfl, hbegin, each_nil⟩
    · refine ⟨front, b, mid ++ [e], by simp, hbegin, ?_⟩
      rw [each_concat, ← run_append]
      exact ⟨hmid, by simpa using hcarries⟩

/-! ## Invariant -/

variable {u : UpdateMgr}

def AtMostStored (u : UpdateMgr) : Prop :=
  u.openHandles = [] ∨ ∃ ref, u.dlHandle = some ref ∧ u.openHandles = [ref]

theorem AtMostStored.cleanup (h : AtMostStored u) :
    u.downloadCleanup.openHandles = [] := by
  unfold downloadCleanup
  rcases h with hnone | ⟨ref, href, hopen⟩
  · cases u.dlHandle <;> simp [hnone]
  · simp [href, hopen]

theorem AtMostStored.congr {u' : UpdateMgr} (h : AtMostStored u)
    (hhandle : u'.dlHandle = u.dlHandle) (hopen : u'.openHandles = u.openHandles) :
    AtMostStored u' := by
  unfold AtMostStored
  rw [hhandle, hopen]
  exact h

theorem not_receiving_of_none (h : u.dlHandle = none) : ¬Receiving u := by
  rintro ⟨-, ref, -, href⟩
  rw [h] at href
  cases href

theorem atMostStored_closed (hopen : u.openHandles = []) : AtMostStored u := .inl hopen

theorem AtMostStored.ready (h : AtMostStored u) :
    (u.ready true).openHandles = [] := by
  exact AtMostStored.cleanup (u := { u with readyFlag := true, state := .ready }) h

theorem AtMostStored.begun (h : AtMostStored u) :
    (u.downloadCleanup.setDownloadOk false).openHandles = [] :=
  AtMostStored.cleanup (u := { u.downloadCleanup with dlOk := false })
    (atMostStored_closed h.cleanup)

theorem AtMostStored.finished (h : AtMostStored u) (ok : Bool) (tick : UInt32) :
    (u.onFinish true ok tick).openHandles = [] := by
  have hclosed : ((u.call .leaveDownload).setDownloadOk ok).openHandles = [] :=
    AtMostStored.cleanup (u := { u.call .leaveDownload with dlOk := ok }) h
  cases ok with
  | true =>
      exact AtMostStored.ready (u := UpdateMgr.setReason _ _)
        (atMostStored_closed hclosed)
  | false => simpa [onFinish] using hclosed

structure Polled (u u' : UpdateMgr) : Prop where
  stored : AtMostStored u → AtMostStored u'
  ok : u'.dlOk = u.dlOk
  receiving : ¬Receiving u'

theorem polled_giveUp {appValid recover : Bool}
    {keepWaiting : UpdateMgr → UpdateMgr} {u' : UpdateMgr}
    (hkeep : ∀ v : UpdateMgr, (keepWaiting v).dlHandle = v.dlHandle ∧
      (keepWaiting v).openHandles = v.openHandles ∧
      (keepWaiting v).dlOk = v.dlOk ∧
      (v.state = u.state → (keepWaiting v).state = .wait))
    (hcase : GiveUpCase true appValid recover keepWaiting u u') : Polled u u' := by
  have hwait {v : UpdateMgr} (hstate : v.state = .wait) : ¬Receiving v := by
    rintro ⟨hrecv, -⟩
    rw [hstate] at hrecv
    cases hrecv
  cases hcase with
  | appValid =>
      refine ⟨fun h => atMostStored_closed ?_, by simp, not_receiving_of_none (by simp)⟩
      exact AtMostStored.ready (u := UpdateMgr.setReason _ (u.call _)) h
  | recovered =>
      refine ⟨fun h => atMostStored_closed ?_, by simp, not_receiving_of_none (by simp)⟩
      exact AtMostStored.ready (u := UpdateMgr.setReason _ ((u.call _).probe _)) h
  | refused =>
      obtain ⟨hhandle, hopen, hok, hstate⟩ :=
        hkeep ((u.call (.isAppValid false)).probe false)
      exact ⟨fun h => AtMostStored.congr (u := u) h hhandle hopen, hok,
        hwait (hstate rfl)⟩
  | probed =>
      obtain ⟨hhandle, hopen, hok, hstate⟩ := hkeep (u.call (.isAppValid false))
      exact ⟨fun h => AtMostStored.congr (u := u) h hhandle hopen, hok,
        hwait (hstate rfl)⟩

theorem polled_pollRound (u : UpdateMgr) (now tick : UInt32)
    (appValid recover : Bool) :
    (u.pollRound true now tick appValid recover = u ∧ ¬idleFires u now) ∨
      (Polled u (u.pollRound true now tick appValid recover) ∧
        (u.state = .recv → idleFires u now)) := by
  have hcase := pollRound_cases true now tick appValid recover u
  generalize u.pollRound true now tick appValid recover = u' at hcase
  cases hcase with
  | idle hidle =>
      refine .inl ⟨rfl, ?_⟩
      rintro ⟨hflag, hstate, hover⟩
      obtain hup | ⟨-, hno⟩ := hidle
      · rw [hflag] at hup
        cases hup
      · exact hno ⟨hstate, hover⟩
  | waited hflag hstate hover hcase =>
      have hkeep (v : UpdateMgr) :
          ({ v with waitStart := now } : UpdateMgr).dlHandle = v.dlHandle ∧
          ({ v with waitStart := now } : UpdateMgr).openHandles = v.openHandles ∧
          ({ v with waitStart := now } : UpdateMgr).dlOk = v.dlOk ∧
          (v.state = u.state → v.state = .wait) :=
        ⟨rfl, rfl, rfl, fun hv => hv.trans hstate⟩
      refine .inr ⟨polled_giveUp hkeep hcase, fun hrecv => ?_⟩
      rw [hstate] at hrecv
      cases hrecv
  | stalled hflag hstate hover hcase =>
      exact .inr ⟨polled_giveUp (fun v => ⟨by simp, by simp, by simp, fun _ => by simp⟩)
        hcase, fun _ => ⟨hflag, hstate, hover⟩⟩

structure DownloadStep (u : UpdateMgr) (e : HelperEvent) (u' : UpdateMgr) :
    Prop where
  stored : AtMostStored u → AtMostStored u'
  receiving : AtMostStored u → Receiving u' →
    Begins u e ∨ Receiving u ∧ Carries u e
  begins : Begins u e → Receiving u'
  carries : Carries u e → u.dlOk = true ∨ Receiving u →
    u'.dlOk = true ∨ Receiving u'
  raised : u.dlOk = false → u'.dlOk = true → ∃ tick, e = .mgr (.onFinish true tick)

theorem downloadStep_same {e : HelperEvent} (hbegin : e.isBegin = false)
    (hspoil : ¬Spoils u e) : DownloadStep u e u where
  stored := id
  receiving := fun _ hrecv => .inr ⟨hrecv, hbegin, hspoil⟩
  begins := by
    intro hb
    cases e with
    | downloadBegin => cases hbegin
    | mgr e => cases hb
    | downloadWrite => cases hb
  carries := fun _ h => h
  raised := fun hlow hup => by rw [hlow] at hup; cases hup

theorem downloadStep_begin (opened size : Option Nat) (erased : Bool)
    (tick : UInt32) :
    DownloadStep u (.downloadBegin opened size erased tick)
      (u.downloadBegin opened size erased tick).2 := by
  have hreceives (hbegin : (u.downloadBegin opened size erased tick).1 = true) :
      Receiving (u.downloadBegin opened size erased tick).2 := by
    rcases opened with _ | ref
    · cases hbegin
    rcases size with _ | n
    · cases hbegin
    rcases erased with _ | _
    · cases hbegin
    · rw [downloadBegin_begun]
      exact ⟨by simp [onStart], ref, by simp [onStart], by simp [onStart]⟩
  refine ⟨fun h => ?_, fun h hrecv => .inl ?_, hreceives, fun hcarries => ?_,
    fun _ hup => ?_⟩
  · have hclean := h.begun
    rcases opened with _ | ref
    · exact atMostStored_closed hclean
    rcases size with _ | n
    · exact atMostStored_closed hclean
    have hsole : AtMostStored (u.downloading ref n erased) :=
      .inr ⟨ref, by simp, by simp [hclean]⟩
    rcases erased with _ | _
    · rw [downloadBegin_unerased]
      generalize u.downloading ref n false = v at hsole ⊢
      exact atMostStored_closed hsole.cleanup
    · rw [downloadBegin_begun]
      exact hsole.congr (by simp [onStart]) (by simp [onStart])
  · have hclean := h.begun
    obtain ⟨-, ref', hmem, href⟩ := hrecv
    show (u.downloadBegin opened size erased tick).1 = true
    rcases opened with _ | ref
    · simp [downloadBegin_unopened] at href
    rcases size with _ | n
    · simp [downloadBegin_unsized, hclean] at hmem
    rcases erased with _ | _
    · simp [downloadBegin_unerased] at href
    · rfl
  · cases hcarries.1
  · rcases opened with _ | ref
    · simp [downloadBegin_unopened] at hup
    rcases size with _ | n
    · simp [downloadBegin_unsized] at hup
    rcases erased with _ | _
    · simp [downloadBegin_unerased] at hup
    · simp [downloadBegin_begun, onStart] at hup

theorem downloadStep_finish (ok : Bool) (tick : UInt32) :
    DownloadStep u (.mgr (.onFinish ok tick)) (u.onFinish true ok tick) := by
  have hnone : (u.onFinish true ok tick).dlHandle = none := by
    cases ok <;> simp [onFinish]
  have hok : (u.onFinish true ok tick).dlOk = ok := by
    cases ok <;> simp [onFinish]
  refine ⟨fun h => atMostStored_closed (h.finished ok tick), fun _ hrecv => ?_,
    fun hbegin => ?_, fun hcarries _ => .inl ?_, fun _ hup => ⟨tick, ?_⟩⟩
  · exact absurd hrecv (not_receiving_of_none hnone)
  · exact absurd hbegin id
  · rw [hok]
    exact (Bool.not_eq_false ok).mp hcarries.2
  · rw [hok] at hup
    rw [hup]

theorem downloadStep_write (off : Nat) (data : List UInt8) (ok : Bool)
    (tick : UInt32) :
    DownloadStep u (.downloadWrite off data ok tick)
      (u.downloadWrite off data ok tick).2 := by
  unfold downloadWrite
  rcases href : u.dlHandle with _ | ref
  · exact downloadStep_same rfl fun hspoils => hspoils.1 href
  · cases ok with
    | true =>
        have hspoils : ¬Spoils u (.downloadWrite off data true tick) := by
          rintro ⟨-, hbad⟩
          cases hbad
        refine ⟨fun h => h.congr (by simp) (by simp), fun _ hrecv => ?_,
          fun hbegin => absurd hbegin id, fun _ h => ?_, fun hlow hup => ?_⟩
        · exact .inr ⟨by simpa [Receiving] using hrecv, rfl, hspoils⟩
        · simpa [Receiving] using h
        · simp [hlow] at hup
    | false =>
        refine ⟨fun h => atMostStored_closed ?_, fun _ hrecv => ?_,
          fun hbegin => absurd hbegin id, fun hcarries => ?_, fun _ hup => ?_⟩
        · have hfin := AtMostStored.finished (u := u.call (.wrote off data false)) h
            false tick
          exact (atMostStored_closed hfin).cleanup
        · exact absurd hrecv (not_receiving_of_none (by simp))
        · exact absurd ⟨by simp [href], rfl⟩ hcarries.2
        · simp [onFinish] at hup

theorem downloadStep_step {e : HelperEvent} (he : e.ofDownload = true) :
    DownloadStep u e (u.helperStep e) := by
  cases e with
  | downloadBegin opened size erased tick => exact downloadStep_begin ..
  | downloadWrite off data ok tick => exact downloadStep_write ..
  | mgr e =>
      cases e with
      | onFinish ok tick => exact downloadStep_finish ok tick
      | onAbort tick =>
          have hout : ¬Receiving (u.onAbort tick) := by
            rintro ⟨hrecv, -⟩
            simp [onAbort] at hrecv
          exact ⟨fun h => h.congr (by simp [helperStep, mgrStep, onAbort])
              (by simp [helperStep, mgrStep, onAbort]),
            fun _ hrecv => absurd hrecv hout, fun hbegin => absurd hbegin id,
            fun hcarries => absurd trivial hcarries.2,
            fun hlow hup => by simp [helperStep, mgrStep, onAbort, hlow] at hup⟩
      | pollEnter tick =>
          exact ⟨fun h => h.congr rfl rfl, fun _ hrecv => .inr ⟨hrecv, rfl, id⟩,
            fun hbegin => absurd hbegin id, fun _ h => h,
            fun hlow hup => Bool.noConfusion (hlow.symm.trans hup)⟩
      | pollRound now tick appValid recover =>
          show DownloadStep u _ (u.pollRound true now tick appValid recover)
          obtain ⟨hsame, hidle⟩ | ⟨hpolled, hfires⟩ :=
            polled_pollRound u now tick appValid recover
          · rw [hsame]
            exact downloadStep_same rfl hidle
          · refine ⟨hpolled.stored, fun _ hrecv => absurd hrecv hpolled.receiving,
              fun hbegin => absurd hbegin id, fun hcarries h => .inl ?_,
              fun hlow hup => ?_⟩
            · rw [hpolled.ok]
              exact h.resolve_right fun hrecv => hcarries.2 (hfires hrecv.1)
            · rw [hpolled.ok, hlow] at hup
              cases hup
      | register => cases he
      | onRequest => cases he
      | onStart => cases he
      | onData => cases he
      | notify => cases he

/-- A receiving session is unspoilt, and an unspoilt one receives until its flag is
set. -/
structure Followed (u₀ : UpdateMgr) (es : List HelperEvent) : Prop where
  stored : AtMostStored (run helperStep u₀ es)
  receiving : Receiving (run helperStep u₀ es) → Unspoilt u₀ es
  unspoilt : Unspoilt u₀ es →
    (run helperStep u₀ es).dlOk = true ∨ Receiving (run helperStep u₀ es)

theorem Followed.concat {es : List HelperEvent} {e : HelperEvent}
    (h : Followed u₀ es) (he : e.ofDownload = true) : Followed u₀ (es ++ [e]) := by
  have hstep := downloadStep_step (u := run helperStep u₀ es) he
  have hrun : run helperStep u₀ (es ++ [e]) =
      (run helperStep u₀ es).helperStep e := by rw [run_append]; rfl
  refine ⟨?_, fun hrecv => ?_, fun hunspoilt => ?_⟩
  · rw [hrun]
    exact hstep.stored h.stored
  · rw [hrun] at hrecv
    rw [unspoilt_concat]
    exact (hstep.receiving h.stored hrecv).imp_right fun hold =>
      ⟨h.receiving hold.1, hold.2⟩
  · rw [hrun]
    obtain hbegin | ⟨hold, hcarries⟩ := unspoilt_concat.mp hunspoilt
    · exact .inr (hstep.begins hbegin)
    · exact hstep.carries hcarries (h.unspoilt hold)

/-- The flag vouches for its session wherever it is up. -/
def FlagSound (u₀ : UpdateMgr) (es : List HelperEvent) : Prop :=
  ∀ front back, es = front ++ back → (run helperStep u₀ front).dlOk = true →
    Vouched u₀ front

theorem flagSound_concat {es : List HelperEvent} {e : HelperEvent} :
    FlagSound u₀ (es ++ [e]) ↔ FlagSound u₀ es ∧
      ((run helperStep u₀ (es ++ [e])).dlOk = true → Vouched u₀ (es ++ [e])) := by
  constructor
  · intro h
    exact ⟨fun front back hsplit => h front (back ++ [e]) (by rw [hsplit]; simp),
      h (es ++ [e]) [] (List.append_nil _).symm⟩
  · rintro ⟨h, hlast⟩ front back hsplit
    rcases List.eq_nil_or_concat back with rfl | ⟨rest, last, rfl⟩
    · rw [List.append_nil] at hsplit
      rw [← hsplit]
      exact hlast
    · rw [List.concat_eq_append, ← List.append_assoc] at hsplit
      exact h front rest (List.append_inj' hsplit rfl).1

theorem vouched_concat {es : List HelperEvent} {e : HelperEvent}
    (hfollowed : Followed u₀ es) (hsound : FlagSound u₀ es)
    (he : e.ofDownload = true) :
    ((run helperStep u₀ (es ++ [e])).dlOk = true → Vouched u₀ (es ++ [e])) ↔
      FinishesLive (run helperStep u₀ es) e := by
  have hstep := downloadStep_step (u := run helperStep u₀ es) he
  have hrun : run helperStep u₀ (es ++ [e]) =
      (run helperStep u₀ es).helperStep e := by rw [run_append]; rfl
  constructor
  · intro h
    cases e with
    | downloadBegin => trivial
    | downloadWrite => trivial
    | mgr e =>
        cases e with
        | onFinish ok tick =>
            rintro rfl
            rw [or_iff_not_imp_left, Bool.not_eq_true]
            intro hlow
            have hup : (run helperStep u₀
                (es ++ [.mgr (.onFinish true tick)])).dlOk = true := by
              rw [hrun]
              simp [helperStep, mgrStep, onFinish]
            obtain ⟨front, tick', back, hsplit, hunspoilt, -, hkept⟩ := h hup
            obtain ⟨rfl, -, -⟩ | ⟨rest, rfl, rfl⟩ := concat_eq_split hsplit
            · exact (hfollowed.unspoilt hunspoilt).resolve_left (by simp [hlow])
            · -- the flag was up before the event
              have hlast := (always_concat.mp hkept).1.last
              rw [← run_append, List.append_assoc] at hlast
              rw [List.singleton_append, hlow] at hlast
              cases hlast
        | _ => trivial
  · intro hlive hup
    by_cases hlow : (run helperStep u₀ es).dlOk = true
    · obtain ⟨front, tick, back, rfl, hunspoilt, hdown, hkept⟩ :=
        hsound es [] (List.append_nil es).symm hlow
      refine ⟨front, tick, back ++ [e], by simp, hunspoilt, hdown, ?_⟩
      rw [always_concat]
      refine ⟨hkept, ?_⟩
      rw [hrun] at hup
      simpa using hup
    · rw [Bool.not_eq_true] at hlow
      rw [hrun] at hup
      obtain ⟨tick, rfl⟩ := hstep.raised hlow hup
      have hrecv := (hlive rfl).resolve_left (by simp [hlow])
      refine ⟨es, tick, [], rfl, hfollowed.receiving hrecv, hlow, ?_⟩
      rw [always_nil, hrun]
      exact hup

/-- From the registration after a reset on, the download flag vouches for its session
in every state of a run exactly when every download is reported complete while its
session is receiving, or while the flag is up already. -/
theorem flagSound_run (waitMs₀ idleMs₀ waitMs idleMs : UInt32) (reason : UpdReason)
    (appValid : Bool) (tick : UInt32) (es : List HelperEvent)
    (hes : ∀ e ∈ es, e.ofDownload = true) :
    FlagSound ((statics waitMs₀ idleMs₀ reason).register true waitMs idleMs
        appValid tick) es ↔
      Each helperStep FinishesLive ((statics waitMs₀ idleMs₀ reason).register true
        waitMs idleMs appValid tick) es := by
  have hopen := onlyOpen_register (u := statics waitMs₀ idleMs₀ reason) rfl rfl
    waitMs idleMs appValid tick
  have hnone : ((statics waitMs₀ idleMs₀ reason).register true waitMs idleMs
      appValid tick).dlHandle = none := by
    have hcase := register_cases true waitMs idleMs appValid tick
      (statics waitMs₀ idleMs₀ reason)
    generalize (statics waitMs₀ idleMs₀ reason).register true waitMs idleMs
      appValid tick = u' at hcase
    cases hcase <;> simp [onRequest, statics]
  have hdown : ((statics waitMs₀ idleMs₀ reason).register true waitMs idleMs
      appValid tick).dlOk = false := by
    have hcase := register_cases true waitMs idleMs appValid tick
      (statics waitMs₀ idleMs₀ reason)
    generalize (statics waitMs₀ idleMs₀ reason).register true waitMs idleMs
      appValid tick = u' at hcase
    cases hcase <;> simp [onRequest, statics]
  generalize (statics waitMs₀ idleMs₀ reason).register true waitMs idleMs
    appValid tick = u₀ at hopen hnone hdown ⊢
  have hfollowed : Followed u₀ es ∧
      (FlagSound u₀ es ↔ Each helperStep FinishesLive u₀ es) := by
    induction es using List.reverseRecOn with
    | nil =>
        refine ⟨⟨?_, fun hrecv => ?_, ?_⟩, fun _ => each_nil, fun _ => ?_⟩
        · rw [OnlyOpen, hnone] at hopen
          exact atMostStored_closed hopen
        · exact absurd hrecv (not_receiving_of_none hnone)
        · rintro ⟨front, e, mid, hsplit, -⟩
          simp at hsplit
        · intro front back hsplit hup
          obtain ⟨rfl, -⟩ := List.append_eq_nil_iff.mp hsplit.symm
          rw [run_nil, hdown] at hup
          cases hup
    | append_singleton es e ih =>
        obtain ⟨hfollowed, hiff⟩ := ih fun a ha => hes a (by simp [ha])
        have he := hes e (by simp)
        refine ⟨hfollowed.concat he, ?_⟩
        rw [flagSound_concat, each_concat, ← hiff]
        exact and_congr_right fun hsound => vouched_concat hfollowed hsound he
  exact hfollowed.2

/-- A download of two writes, reported complete while it is received. -/
theorem twoWrites_flagSound :
    FlagSound ((statics 5000 30000 .req).register true 5000 30000 false 0)
      [.downloadBegin (some 1) (some 4096) true 10, .downloadWrite 0 [1, 2] true 20,
        .downloadWrite 2 [3] true 30, .mgr (.onFinish true 40)] := by
  refine (flagSound_run 5000 30000 5000 30000 .req false 0 _ (by decide)).mpr ?_
  simp only [each_cons, each_nil, and_true, FinishesLive, true_and]
  refine fun _ => .inr ⟨by decide, 1, by decide, by decide⟩

def failedWrite : List HelperEvent :=
  [.downloadBegin (some 1) (some 4096) true 10, .downloadWrite 0 [1, 2] false 20]

/-- A late report of completion after a failed write sets the flag. -/
theorem lateFinish_unsound :
    ¬FlagSound ((statics 5000 30000 .req).register true 5000 30000 false 0)
      (failedWrite ++ [.mgr (.onFinish true 40)]) := by
  intro h
  obtain ⟨front, tick, back, hsplit, hunspoilt, -⟩ :=
    h (failedWrite ++ [.mgr (.onFinish true 40)]) [] (by simp) (by decide)
  obtain ⟨rfl, -, -⟩ | ⟨rest, -, hrest⟩ := concat_eq_split hsplit
  · have hwrite : Unspoilt _ ([.downloadBegin (some 1) (some 4096) true 10] ++
        [.downloadWrite 0 [1, 2] false 20]) := hunspoilt
    obtain hbegin | ⟨-, -, hspoils⟩ := unspoilt_concat.mp hwrite
    · exact hbegin
    · exact hspoils ⟨by decide, rfl⟩
  · have hmem : HelperEvent.mgr (.onFinish true tick) ∈ failedWrite := by
      rw [hrest]
      simp
    simp [failedWrite] at hmem

end Qboot
