import Qboot.Proofs.Sessions
/-!
# The update request across boots

The stored reason survives a reset.  A request that one boot has read is gone for
the next one exactly when something has replaced it before the reset: registration
itself writes the request back.
-/

namespace Qboot

open Library.Run UpdateMgr

/-- What happens to the device over its boots: calls into the manager, resets, and
writes of the reason by the application or the shell. -/
inductive DeviceEvent where
  | call (e : HelperEvent)
  | reset
  | store (reason : UpdReason)
  deriving DecidableEq, Repr

/-- `waitMs₀` and `idleMs₀` are the configured defaults of the static context. -/
def deviceStep (helper : Bool) (waitMs₀ idleMs₀ : UInt32) (u : UpdateMgr) :
    DeviceEvent → UpdateMgr
  | .call e => u.modeStep helper e
  | .reset => statics waitMs₀ idleMs₀ u.reason
  | .store reason => { u with reason := reason }

def DeviceEvent.requests : DeviceEvent → Bool
  | .call (.mgr (.onRequest _)) => true
  | .store .req => true
  | _ => false

def DeviceEvent.isRegister : DeviceEvent → Bool
  | .call (.mgr (.register ..)) => true
  | _ => false

def timeoutFires (u : UpdateMgr) (now : UInt32) : Prop :=
  u.readyFlag = false ∧
    (u.state = .wait ∧ u.waitOver now = true ∨
      u.state = .recv ∧ u.idleOver now = true)

/-- The event replaces the stored reason by another one: a finished download, the
result of the boot thread, a timeout that hands over to the application, or a write
from outside. -/
def Consumes (u : UpdateMgr) : DeviceEvent → Prop
  | .call (.mgr (.onFinish ok _)) => ok = true
  | .call (.mgr (.notify ..)) => True
  | .call (.mgr (.pollRound now _ appValid recover)) =>
      timeoutFires u now ∧ ¬handsNothing u appValid recover
  | .store _ => True
  | _ => False

variable {helper : Bool} {waitMs₀ idleMs₀ : UInt32} {u : UpdateMgr}

theorem reason_giveUp {appValid recover : Bool}
    {keepWaiting : UpdateMgr → UpdateMgr} {u' : UpdateMgr}
    (hkeep : ∀ v : UpdateMgr, (keepWaiting v).reason = v.reason)
    (hcase : GiveUpCase helper appValid recover keepWaiting u u') :
    u'.reason = .req ↔ u.reason = .req ∧ handsNothing u appValid recover := by
  cases hcase with
  | appValid hvalid => simp [handsNothing, hvalid]
  | recovered hvalid hprobe hrecover => simp [handsNothing, hprobe, hrecover]
  | refused hvalid hprobe hrecover => simp [hkeep, handsNothing, hvalid, hrecover]
  | probed hvalid hprobe => simp [hkeep, handsNothing, hvalid, hprobe]

theorem reason_pollRound (now tick : UInt32) (appValid recover : Bool) :
    (u.pollRound helper now tick appValid recover).reason = .req ↔
      u.reason = .req ∧
        ¬(timeoutFires u now ∧ ¬handsNothing u appValid recover) := by
  have hcase := pollRound_cases helper now tick appValid recover u
  generalize u.pollRound helper now tick appValid recover = u' at hcase
  cases hcase with
  | idle hidle =>
      have hno : ¬timeoutFires u now := by
        rintro ⟨hflag, hfires⟩
        obtain hup | ⟨hwait, hrecv⟩ := hidle
        · rw [hflag] at hup
          cases hup
        · exact hfires.elim hwait hrecv
      simp [hno]
  | waited hflag hstate hover hcase =>
      have hfires : timeoutFires u now := ⟨hflag, .inl ⟨hstate, hover⟩⟩
      have hkeep (v : UpdateMgr) :
          ({ v with waitStart := now } : UpdateMgr).reason = v.reason := rfl
      rw [reason_giveUp hkeep hcase]
      simp [hfires]
  | stalled hflag hstate hover hcase =>
      have hfires : timeoutFires u now := ⟨hflag, .inr ⟨hstate, hover⟩⟩
      rw [reason_giveUp (fun v => by simp) hcase]
      simp [hfires]

theorem reason_register (waitMs idleMs : UInt32) (appValid : Bool) (tick : UInt32) :
    (u.register helper waitMs idleMs appValid tick).reason = u.reason := by
  have hcase := register_cases helper waitMs idleMs appValid tick u
  generalize u.register helper waitMs idleMs appValid tick = u' at hcase
  cases hcase with
  | asked hreason => simp [onRequest, hreason]
  | resumed => simp
  | appInvalid => simp
  | appValid => simp

theorem reason_downloadBegin (opened size : Option Nat) (erased : Bool)
    (tick : UInt32) :
    (u.downloadBegin opened size erased tick).2.reason = u.reason := by
  rcases opened with _ | ref
  · simp [downloadBegin_unopened]
  rcases size with _ | n
  · simp [downloadBegin_unsized]
  cases erased with
  | false => simp [downloadBegin_unerased]
  | true => simp [downloadBegin_begun, onStart]

theorem reason_downloadWrite (off : Nat) (data : List UInt8) (ok : Bool)
    (tick : UInt32) :
    (u.downloadWrite off data ok tick).2.reason = u.reason := by
  unfold downloadWrite
  rcases u.dlHandle with _ | ref
  · rfl
  · cases ok <;> simp [onFinish]

/-- The request stands after a step that does not write it exactly when it stood
before and the step does not replace it. -/
theorem reason_step {l : DeviceEvent} (hl : l.requests = false) :
    (deviceStep helper waitMs₀ idleMs₀ u l).reason = .req ↔
      u.reason = .req ∧ ¬Consumes u l := by
  cases l with
  | reset => simp [deviceStep, statics, Consumes]
  | store reason =>
      refine iff_of_false (fun hreq => ?_) (fun h => h.2 trivial)
      obtain rfl : reason = .req := hreq
      cases hl
  | call e =>
      cases e with
      | downloadBegin opened size erased tick =>
          cases helper <;>
            simp [deviceStep, modeStep, helperStep, Consumes, reason_downloadBegin]
      | downloadWrite off data ok tick =>
          cases helper <;>
            simp [deviceStep, modeStep, helperStep, Consumes, reason_downloadWrite]
      | mgr e =>
          cases e with
          | register waitMs idleMs appValid tick =>
              simp [deviceStep, modeStep, mgrStep, Consumes, reason_register]
          | onRequest tick => cases hl
          | onStart tick => simp [deviceStep, modeStep, mgrStep, onStart, Consumes]
          | onData tick => simp [deviceStep, modeStep, mgrStep, Consumes]
          | onFinish ok tick =>
              cases ok <;> cases helper <;>
                simp [deviceStep, modeStep, mgrStep, onFinish, Consumes]
          | onAbort tick => simp [deviceStep, modeStep, mgrStep, onAbort, Consumes]
          | pollEnter tick =>
              simp [deviceStep, modeStep, mgrStep, pollEnter, Consumes]
          | pollRound now tick appValid recover => exact reason_pollRound ..
          | notify success tick =>
              cases success <;>
                simp [deviceStep, modeStep, mgrStep, notifyUpdateResult, Consumes]

/-- Some step replaces the stored reason. -/
def Consumed (helper : Bool) (waitMs₀ idleMs₀ : UInt32) (u : UpdateMgr)
    (ls : List DeviceEvent) : Prop :=
  ∃ front l back, ls = front ++ l :: back ∧
    Consumes (run (deviceStep helper waitMs₀ idleMs₀) u front) l

theorem consumed_cons {l : DeviceEvent} {ls : List DeviceEvent} :
    Consumed helper waitMs₀ idleMs₀ u (l :: ls) ↔ Consumes u l ∨
      Consumed helper waitMs₀ idleMs₀ (deviceStep helper waitMs₀ idleMs₀ u l) ls := by
  constructor
  · rintro ⟨front, a, back, hsplit, ha⟩
    cases front with
    | nil =>
        obtain ⟨rfl, -⟩ := List.cons_eq_cons.mp hsplit
        exact .inl ha
    | cons b front =>
        obtain ⟨rfl, hrest⟩ := List.cons_eq_cons.mp hsplit
        exact .inr ⟨front, a, back, hrest, ha⟩
  · rintro (ha | ⟨front, a, back, rfl, ha⟩)
    · exact ⟨[], l, ls, rfl, ha⟩
    · exact ⟨l :: front, a, back, rfl, ha⟩

/-- Over steps that do not write it, a request stands until it is replaced. -/
theorem reason_run {ls : List DeviceEvent} (hls : ∀ l ∈ ls, l.requests = false) :
    (run (deviceStep helper waitMs₀ idleMs₀) u ls).reason = .req ↔
      u.reason = .req ∧ ¬Consumed helper waitMs₀ idleMs₀ u ls := by
  induction ls generalizing u with
  | nil =>
      have hnone : ¬Consumed helper waitMs₀ idleMs₀ u [] := by
        rintro ⟨front, l, back, hsplit, -⟩
        simp at hsplit
      simp [hnone]
  | cons l ls ih =>
      rw [run_cons, ih fun a ha => hls a (List.mem_cons_of_mem l ha),
        reason_step (hls l List.mem_cons_self), consumed_cons, not_or, and_assoc]

/-- A registration reads a request that one of an earlier boot has read already and
that nobody has written in between. -/
def Stale (helper : Bool) (waitMs₀ idleMs₀ : UInt32) (u : UpdateMgr)
    (ls : List DeviceEvent) : Prop :=
  ∃ front reg mid reg' back, ls = front ++ reg :: (mid ++ reg' :: back) ∧
    reg.isRegister = true ∧ reg'.isRegister = true ∧
    (run (deviceStep helper waitMs₀ idleMs₀) u front).reason = .req ∧
    .reset ∈ mid ∧ (∀ l ∈ mid, l.requests = false) ∧
    (run (deviceStep helper waitMs₀ idleMs₀) u (front ++ reg :: mid)).reason = .req

/-- Between a registration that reads a request and the next one behind a reset, some
step replaces the reason, unless the request is made anew. -/
def RequestsConsumed (helper : Bool) (waitMs₀ idleMs₀ : UInt32) (u : UpdateMgr)
    (ls : List DeviceEvent) : Prop :=
  ∀ front reg boot next reg' back,
    ls = front ++ reg :: (boot ++ .reset :: (next ++ reg' :: back)) →
    reg.isRegister = true → reg'.isRegister = true →
    (run (deviceStep helper waitMs₀ idleMs₀) u front).reason = .req →
    (∀ l ∈ boot, l ≠ .reset) → (∀ l ∈ next, l.isRegister = false) →
    (∀ l ∈ boot ++ .reset :: next, l.requests = false) →
    Consumed helper waitMs₀ idleMs₀
      (run (deviceStep helper waitMs₀ idleMs₀) u (front ++ [reg])) (boot ++ .reset :: next)

theorem requests_of_isRegister {l : DeviceEvent} (h : l.isRegister = true) :
    l.requests = false ∧ ¬Consumes u l := by
  cases l with
  | reset => cases h
  | store => cases h
  | call e =>
      cases e with
      | downloadBegin => cases h
      | downloadWrite => cases h
      | mgr e => cases e <;> first | exact ⟨rfl, id⟩ | cases h

theorem reason_registered {front mid : List DeviceEvent} {reg : DeviceEvent}
    (hreg : reg.isRegister = true)
    (hread : (run (deviceStep helper waitMs₀ idleMs₀) u front).reason = .req)
    (hmid : ∀ l ∈ mid, l.requests = false) :
    (run (deviceStep helper waitMs₀ idleMs₀) u (front ++ reg :: mid)).reason = .req ↔
      ¬Consumed helper waitMs₀ idleMs₀
        (run (deviceStep helper waitMs₀ idleMs₀) u (front ++ [reg])) mid := by
  obtain ⟨hquiet, hkeeps⟩ := requests_of_isRegister
    (u := run (deviceStep helper waitMs₀ idleMs₀) u front) hreg
  have hafter : (run (deviceStep helper waitMs₀ idleMs₀) u (front ++ [reg])).reason = .req := by
    rw [run_append]
    exact (reason_step hquiet).mpr ⟨hread, hkeeps⟩
  rw [← List.singleton_append, ← List.append_assoc, run_append, reason_run hmid]
  exact and_iff_right hafter

theorem Consumed.append {ls : List DeviceEvent} (h : Consumed helper waitMs₀ idleMs₀ u ls)
    (more : List DeviceEvent) : Consumed helper waitMs₀ idleMs₀ u (ls ++ more) := by
  obtain ⟨front, l, back, rfl, hl⟩ := h
  exact ⟨front, l, back ++ more, by simp, hl⟩

theorem split_at_first (p : DeviceEvent → Prop) [DecidablePred p] {ls : List DeviceEvent}
    {a : DeviceEvent} (ha : a ∈ ls) (hp : p a) :
    ∃ before b after, ls = before ++ b :: after ∧ p b ∧ ∀ l ∈ before, ¬p l := by
  induction ls with
  | nil => cases ha
  | cons l ls ih =>
      by_cases hl : p l
      · exact ⟨[], l, ls, rfl, hl, by simp⟩
      · have hmem : a ∈ ls := (List.mem_cons.mp ha).resolve_left fun heq => hl (heq ▸ hp)
        obtain ⟨before, b, after, rfl, hb, hbefore⟩ := ih hmem
        refine ⟨l :: before, b, after, rfl, hb, fun c hc => ?_⟩
        rcases List.mem_cons.mp hc with rfl | hc
        · exact hl
        · exact hbefore c hc

/-- No registration reads a request again that one of an earlier boot has read, exactly
when between the two some step replaces the reason. -/
theorem notStale_iff (helper : Bool) (waitMs₀ idleMs₀ : UInt32) (u : UpdateMgr)
    (ls : List DeviceEvent) :
    ¬Stale helper waitMs₀ idleMs₀ u ls ↔ RequestsConsumed helper waitMs₀ idleMs₀ u ls := by
  constructor
  · intro h front reg boot next reg' back hsplit hreg hreg' hread _ _ hquiet
    by_contra hstands
    exact h ⟨front, reg, boot ++ .reset :: next, reg', back, by rw [hsplit]; simp, hreg, hreg',
      hread, by simp, hquiet, (reason_registered hreg hread hquiet).mpr hstands⟩
  · rintro h ⟨front, reg, mid, reg', back, rfl, hreg, hreg', hread, hreset, hquiet, hstands⟩
    obtain ⟨boot, _, rest, rfl, rfl, hboot⟩ := split_at_first (· = .reset) hreset rfl
    -- the first registration behind the reset
    obtain ⟨next, first, after, hrest, hfirst, hnext⟩ :=
      split_at_first (·.isRegister = true)
        (show reg' ∈ rest ++ [reg'] from List.mem_append_right _ (List.mem_singleton_self _))
        hreg'
    have hprefix : ∃ more, rest = next ++ more := by
      rcases List.eq_nil_or_concat after with rfl | ⟨more, last, rfl⟩
      · exact ⟨[], by rw [List.append_nil]; exact (List.append_inj' hrest rfl).1⟩
      · refine ⟨first :: more, ?_⟩
        have hsplit : rest ++ [reg'] = (next ++ first :: more) ++ [last] := by
          simpa using hrest
        exact (List.append_inj' hsplit rfl).1
    obtain ⟨more, rfl⟩ := hprefix
    have hconsumed := h front reg boot next first (after ++ back)
      (by
        have hback : next ++ more ++ reg' :: back = next ++ first :: (after ++ back) := by
          rw [← List.singleton_append (l := back), ← List.append_assoc, hrest]
          simp
        simpa using hback) hreg hfirst hread hboot
      (fun l hl => by simpa using hnext l hl)
      fun l hl => hquiet l (by simp at hl ⊢; tauto)
    refine (reason_registered hreg hread hquiet).mp hstands ?_
    have hmore := hconsumed.append more
    simpa using hmore

/-- A boot that reads the request and is reset while it waits leaves it standing for
the next one. -/
theorem waitingBoot_stale :
    Stale false 5000 30000 (statics 5000 30000 .req)
      [.call (.mgr (.register 5000 30000 false 0)), .reset,
        .call (.mgr (.register 5000 30000 false 0))] := by
  have hstands : (run (deviceStep false 5000 30000) (statics 5000 30000 .req)
      [.call (.mgr (.register 5000 30000 false 0)), .reset]).reason = .req := by decide
  exact ⟨[], _, [.reset], _, [], rfl, rfl, rfl, rfl, List.mem_singleton_self _,
    List.forall_mem_singleton.mpr rfl, hstands⟩

end Qboot
