import Qboot.Library.Trace
import Qboot.Model.Device
import Qboot.Proofs.StreamSteps
/-!
# The checking pass over stable storage

Storage that holds bytes: reading returns them, and only erasing and writing
change them.  Over such storage the checking pass leaves every target as it is
and takes the CRC of the stream that it decodes.
-/

namespace Qboot

open Library Bytes Prog Machine Loop

variable {σ κ α : Type}

/-! ## Stable storage -/

/-- An environment with the bytes that its storage holds: a read that succeeds
returns them, and reading leaves them alone. -/
structure ReadableEnv (σ κ : Type) extends Env σ κ where
  content : σ → TargetId → Nat → UInt8
  read_data : ∀ h off len s b, (io.read h off len s).1 = some b →
    b = readCells (content s h.target) off len
  read_keeps : ∀ h off len s, content (io.read h off len s).2 = content s

/-- Only erasing, writing and an open that truncates change the bytes. -/
structure StableEnv (σ κ : Type) extends ReadableEnv σ κ where
  open_keeps : ∀ id flags s, flags ≠ .writeCreateTrunc →
    content (io.openTarget id flags s).2 = content s
  close_keeps : ∀ h s, content (io.close h s).2 = content s
  size_keeps : ∀ h s, content (io.size h s).2 = content s

def regionStable (backend : TargetId → Backend) (env : Env FlashDev κ) :
    StableEnv FlashDev κ where
  toEnv := { env with io := regionIo backend, parser := regionParser backend }
  content := fun d id => (d.region id).cells
  read_data := by
    intro h off len d b hread
    simp only [regionIo] at hread
    split at hread
    · exact (Option.some.inj hread).symm
    · cases hread
  read_keeps := fun _ _ _ _ => rfl
  open_keeps := fun _ _ _ _ => rfl
  close_keeps := fun _ _ => rfl
  size_keeps := fun _ _ => rfl

/-- An erase, a write or a sign write, to whichever target. -/
def Event.destructive : Event → Bool
  | .erased .. => true
  | .wrote .. => true
  | .signWritten .. => true
  | _ => false

section Quiet

variable (env : StableEnv σ κ)

/-- Every target holds what it held, and nothing destructive was issued. -/
def Quiet (m m' : Machine σ κ) : Prop :=
  env.content m'.dev = env.content m.dev ∧
    Extends Machine.log (fun e => e.destructive = false) m m'

instance : IsPreorder (Machine σ κ) (Quiet env) where
  refl m := ⟨rfl, refl_of (Extends Machine.log _) m⟩
  trans _ _ _ h h' := ⟨h'.1.trans h.1, h.2.trans h'.2⟩

variable {env}

theorem Quiet.trans {m m' m'' : Machine σ κ} (h : Quiet env m m')
    (h' : Quiet env m' m'') : Quiet env m m'' :=
  trans_of (Quiet env) h h'

theorem quiet_onDev {x : Prog σ α} (h : ∀ s, env.content (x s).2 = env.content s) :
    Within (Quiet env) (onDev x) :=
  fun m => ⟨h m.dev, extends_of_eq rfl⟩

theorem quiet_onMem (x : Prog κ α) : Within (Quiet env) (onMem x) :=
  fun _ => ⟨rfl, extends_of_eq rfl⟩

theorem quiet_setFwInfo (h : FwInfo) : Within (Quiet env) (setFwInfo h) :=
  fun _ => ⟨rfl, extends_of_eq rfl⟩

theorem quiet_emit {e : Event} (he : e.destructive = false) :
    Within (Quiet env) (emit e) :=
  fun _ => ⟨rfl, extends_concat rfl he⟩

theorem quiet_ioRead (h : Handle) (off len : Nat) :
    Within (Quiet env) (ioRead env.io h off len) :=
  (quiet_onDev (env.read_keeps h off len)).bind fun _ =>
    (quiet_emit rfl).bind fun _ => .pure _

theorem quiet_targetClose (h : Handle) :
    Within (Quiet env) (targetClose env.io h) :=
  (quiet_onDev (env.close_keeps h)).bind fun _ => quiet_emit rfl

theorem quiet_open (id : TargetId) (flags : OpenFlags)
    (hflags : flags ≠ .writeCreateTrunc) :
    Within (Quiet env) (onDev (env.io.openTarget id flags)) :=
  quiet_onDev fun s => env.open_keeps id flags s hflags

theorem quiet_targetOpen (id : TargetId) (flags : OpenFlags)
    (hflags : flags ≠ .writeCreateTrunc) :
    Within (Quiet env) (targetOpen env.io id flags) := by
  refine (quiet_open id flags hflags).bind fun ref => ?_
  rcases ref with _ | ref
  · exact (quiet_emit rfl).bind fun _ => .pure _
  refine (quiet_emit rfl).bind fun _ =>
    (quiet_onDev (env.size_keeps _)).bind fun size => ?_
  rcases size with _ | size
  · exact (quiet_targetClose _).bind fun _ => .pure _
  · exact .pure _

theorem quiet_stageInit (stage : Stage) (init : Option (Prog κ RtErr)) :
    Within (Quiet env) (stageInit stage init) := by
  unfold stageInit
  rcases init with _ | init
  · exact .pure _
  · exact (quiet_onMem _).bind fun _ => (quiet_emit rfl).bind fun _ => .pure _

theorem quiet_stageDeinit (stage : Stage) (deinit : Option (Prog κ Unit)) :
    Within (Quiet env) (stageDeinit stage deinit) := by
  unfold stageDeinit
  rcases deinit with _ | deinit
  · exact .pure _
  · exact (quiet_onMem _).bind fun _ => quiet_emit rfl

theorem quiet_fwAlgoInit (algo : AlgoContext κ) :
    Within (Quiet env) (fwAlgoInit algo) := by
  refine (quiet_stageInit _ _).bind fun _ => .ite ?_ (.pure _)
  refine (quiet_stageInit _ _).bind fun _ => .ite (.pure _) ?_
  exact (quiet_stageDeinit _ _).bind fun _ => .pure _

theorem quiet_fwAlgoDeinit (algo : AlgoContext κ) :
    Within (Quiet env) (fwAlgoDeinit algo) :=
  (quiet_stageDeinit _ _).bind fun _ => quiet_stageDeinit _ _

theorem quiet_fwPkgRead (src : Handle) (off : Nat) (win : CmprsBuf) (len : Nat)
    (algo : AlgoContext κ) :
    Within (Quiet env) (fwPkgRead env.toPlatform src off win len algo) := by
  refine (quiet_ioRead _ _ _).bind fun cipher => ?_
  rcases cipher with _ | cipher
  · exact .pure _
  · exact (quiet_onMem _).bind fun _ => (quiet_emit rfl).bind fun _ => .pure _

end Quiet

theorem silent_fwPkgRead (pl : Platform σ) (src : Handle) (off : Nat)
    (win : CmprsBuf) (len : Nat) (algo : AlgoContext κ) :
    Within (Extends Machine.log fun e => acceptedBytes [e] = [])
      (fwPkgRead pl src off win len algo) := by
  refine Within.bind (fun m => extends_concat rfl rfl) fun cipher => ?_
  rcases cipher with _ | cipher
  · exact .pure _
  refine Within.bind (fun m => extends_of_eq rfl) fun r => ?_
  exact Within.bind (fun m => extends_concat rfl rfl) fun _ => .pure _

theorem acceptedBytes_eq_nil {es : List Event}
    (h : ∀ e ∈ es, acceptedBytes [e] = []) : acceptedBytes es = [] := by
  induction es with
  | nil => rfl
  | cons e es ih =>
      rw [← List.singleton_append, acceptedBytes_append, h e List.mem_cons_self,
        ih fun e' he' => h e' (List.mem_cons_of_mem e he')]
      rfl

/-! ## The inner loop -/

section Pass

variable {env : StableEnv σ κ} {algo : AlgoContext κ} {m₀ : Machine σ κ}
  {acc₀ : UInt32}

def CrcOf (lib : CrcLib) (acc₀ : UInt32) (pc : ProcCtx) (len : Nat)
    (new : List Event) : Prop :=
  pc = .crc (lib.cycCal acc₀ (acceptedBytes new)) ∧ (acceptedBytes new).length = len

theorem CrcOf.neutral {lib : CrcLib} {pc : ProcCtx} {len : Nat}
    {new more : List Event} (h : CrcOf lib acc₀ pc len new)
    (hmore : acceptedBytes more = []) : CrcOf lib acc₀ pc len (new ++ more) := by
  unfold CrcOf
  rw [acceptedBytes_append, hmore, List.append_nil]
  exact h

theorem CrcOf.accept {lib : CrcLib} {acc : UInt32} {len : Nat} {new : List Event}
    (h : CrcOf lib acc₀ (.crc acc) len new) (out : List UInt8) (k : Nat) :
    CrcOf lib acc₀ (.crc (lib.cycCal acc out)) (len + out.length)
      (new ++ [.accepted out k]) := by
  obtain ⟨hacc, hlen⟩ := h
  obtain rfl : acc = lib.cycCal acc₀ (acceptedBytes new) := ProcCtx.crc.inj hacc
  have hout : acceptedBytes [.accepted out k] = out := by simp [acceptedBytes]
  refine ⟨?_, ?_⟩
  · rw [acceptedBytes_append, hout, lib.cycCal_append]
  · rw [acceptedBytes_append, hout, List.length_append, hlen]

/-- The invariant of `qbt_decompress_with_consumer` in the checking pass, which
entered it with `pos` bytes produced. -/
structure CheckRound (env : StableEnv σ κ) (m₀ : Machine σ κ) (acc₀ : UInt32)
    (pos total : Nat) (d : DecState) (m : Machine σ κ) : Prop where
  quiet : Quiet env m₀ m
  traced : Traced m₀ m (CrcOf env.crc acc₀ d.ctx (pos + d.produced))
  budget : pos + d.produced + d.remainingOut = total

variable {pos total : Nat}

theorem checkRound_step (algo : AlgoContext κ) (ctx : StreamCtx) (d : DecState)
    (m : Machine σ κ) (hI : CheckRound env m₀ acc₀ pos total d m) :
    Ends (CheckRound env m₀ acc₀ pos total) DecState.work
      (fun r => CheckRound env m₀ acc₀ pos total r.2) d.work
      (decompressRound env.toPlatform algo ctx d m) := by
  by_cases hend : d.remainingOut = 0 ∨ d.Waits ctx
  · rw [round_end hend]
    exact hI
  obtain ⟨rst, step, out, k, hcall⟩ := exists_answers algo ctx d m.mem
  have hquiet : Quiet env m₀ (m.afterCall ctx d k) :=
    hI.quiet.trans ⟨rfl, extends_concat rfl rfl⟩
  have htraced : Traced m₀ (m.afterCall ctx d k)
      (CrcOf env.crc acc₀ d.ctx (pos + d.produced)) :=
    hI.traced.concat rfl fun new hnew => hnew.neutral rfl
  by_cases hstop : (d.called env.build step out.1).Stops rst step
  · rw [round_stop hend hcall hstop]
    exact ⟨hquiet, htraced, hI.budget⟩
  obtain ⟨rfl, hcons, hprod, hprog⟩ := not_stops_iff.mp hstop
  obtain ⟨acc, hpc⟩ : ∃ acc, d.ctx = .crc acc := by
    obtain ⟨new, -, hcrc⟩ := hI.traced
    exact ⟨_, hcrc.1⟩
  rw [round_crc hend hcall hstop hpc]
  have hlen : (out.1.take step.produced).length = step.produced := by
    rw [List.length_take, out.2]
    exact Nat.min_eq_left hprod
  have hcap : d.curCap ≤ d.remainingOut := Nat.min_le_left _ _
  have hwin : (d.called env.build step out.1).win.len = d.win.len := by
    unfold DecState.called
    split <;> rfl
  have hbudget := hI.budget
  refine ⟨⟨hquiet.trans ⟨rfl, extends_concat rfl rfl⟩, ?_, ?_⟩, ?_⟩
  · refine htraced.concat rfl fun new hnew => ?_
    rw [hpc] at hnew
    have hacc := hnew.accept (out.1.take step.produced) step.consumed
    rw [hlen, Nat.add_assoc] at hacc
    exact hacc
  · show pos + (d.produced + step.produced) + (d.remainingOut - step.produced) = total
    omega
  · simp only [DecState.advance, DecState.work, CmprsBuf.len_consume, hwin]
    show d.remainingOut - step.produced + (d.win.len - step.consumed) <
      d.remainingOut + d.win.len
    omega

/-! ## The outer loop -/

variable {h : FwInfo}

/-- The invariant of `qbt_fw_stream_process` in the checking pass. -/
structure CheckLoop (env : StableEnv σ κ) (m₀ : Machine σ κ) (acc₀ : UInt32)
    (h : FwInfo) (st : StreamLoop) (m : Machine σ κ) : Prop where
  quiet : Quiet env m₀ m
  traced : Traced m₀ m (CrcOf env.crc acc₀ st.ctx st.rawPos)
  bound : st.rawPos ≤ h.rawSize.toNat

/-- How the checking pass ends: storage is as it was, and after success the CRC
of the whole image has been taken. -/
def CheckEnd (env : StableEnv σ κ) (m₀ : Machine σ κ) (acc₀ : UInt32) (h : FwInfo)
    (r : Option (Bool × ProcCtx)) (m : Machine σ κ) : Prop :=
  Quiet env m₀ m ∧ ∃ ok pc, r = some (ok, pc) ∧
    (ok = true → Traced m₀ m (CrcOf env.crc acc₀ pc h.rawSize.toNat))

theorem checkLoop_decode (st : StreamLoop) (m : Machine σ κ)
    (hI : CheckLoop env m₀ acc₀ h st m) :
    Ends (CheckLoop env m₀ acc₀ h) (StreamLoop.left h) (CheckEnd env m₀ acc₀ h)
      (st.left h) (streamDecode env.toPlatform h algo st m) := by
  have hctx : st.ctx.setRawPos st.rawPos = st.ctx := by
    obtain ⟨new, -, hcrc, -⟩ := hI.traced
    rw [hcrc]
    rfl
  have hbound := hI.bound
  have hstart : CheckRound env m₀ acc₀ st.rawPos h.rawSize.toNat
      ⟨st.win, (streamCtx h st).rawRemaining, 0, 0, .zero, st.ctx⟩ m := by
    refine ⟨hI.quiet, hI.traced, ?_⟩
    show st.rawPos + 0 + (h.rawSize.toNat - st.rawPos) = h.rawSize.toNat
    omega
  obtain ⟨⟨rst, d⟩, m', hrun, hR⟩ := iterate_rule
    (checkRound_step algo (streamCtx h st)) hstart (Nat.lt_succ_self _)
  have hdec : decompressWithConsumer env.toPlatform algo (streamCtx h st) st.win
      (st.ctx.setRawPos st.rawPos) m = (some (rst, d), m') := by
    rw [hctx]
    exact hrun
  have hbudget : st.rawPos + d.produced + d.remainingOut = h.rawSize.toNat :=
    hR.budget
  rw [streamDecode_eq hdec]
  by_cases hfail : rst = .error ∨ d.produced = 0
  · rw [if_pos hfail]
    exact ⟨hR.quiet, false, d.ctx, rfl, by simp⟩
  rw [if_neg hfail]
  push Not at hfail
  refine ⟨⟨hR.quiet, hR.traced, ?_⟩, ?_⟩
  · show st.rawPos + d.produced ≤ h.rawSize.toNat
    omega
  · have hpos := hfail.2
    simp only [StreamLoop.left]
    omega

theorem checkLoop_step (h : FwInfo) (src : Handle) (algo : AlgoContext κ)
    (st : StreamLoop) (m : Machine σ κ) (hI : CheckLoop env m₀ acc₀ h st m) :
    Ends (CheckLoop env m₀ acc₀ h) (StreamLoop.left h) (CheckEnd env m₀ acc₀ h)
      (st.left h) (streamRound env.toPlatform h src algo st m) := by
  by_cases hdone : h.rawSize.toNat ≤ st.rawPos
  · rw [stream_finish hdone]
    have heq : st.rawPos = h.rawSize.toNat := Nat.le_antisymm hI.bound hdone
    refine ⟨hI.quiet, true, st.ctx, rfl, fun _ => ?_⟩
    rw [← heq]
    exact hI.traced
  by_cases hfetch : 0 < remainLen h st.srcPos
  · rw [stream_fetch hdone hfetch]
    generalize nextRead h st = n
    generalize hm : m.record [.filled st.win.len n] = m₁
    have hquiet : Quiet env m₀ m₁ := by
      rw [← hm]
      exact hI.quiet.trans ⟨rfl, extends_concat rfl rfl⟩
    have htraced : Traced m₀ m₁ (CrcOf env.crc acc₀ st.ctx st.rawPos) := by
      rw [← hm]
      exact hI.traced.concat rfl fun new hnew => hnew.neutral rfl
    have hread : Quiet env m₁ _ :=
      quiet_fwPkgRead src st.srcPos st.win n algo m₁
    have hsilent := silent_fwPkgRead env.toPlatform src st.srcPos st.win n algo m₁
    rcases hpkg : fwPkgRead env.toPlatform src st.srcPos st.win n algo m₁
      with ⟨_ | win, m₂⟩
    · rw [hpkg] at hread
      exact ⟨hquiet.trans hread, false, st.ctx, rfl, by simp⟩
    · rw [hpkg] at hread hsilent
      obtain ⟨more, hlog, hmore⟩ := hsilent
      have hnone : acceptedBytes more = [] := acceptedBytes_eq_nil hmore
      have hI' : CheckLoop env m₀ acc₀ h
          { st with srcPos := st.srcPos + n, win := win } m₂ :=
        ⟨hquiet.trans hread, htraced.concat hlog fun new hnew => hnew.neutral hnone,
          hI.bound⟩
      have hleft : StreamLoop.left h st =
          StreamLoop.left h { st with srcPos := st.srcPos + n, win := win } :=
        left_congr rfl
      rw [hleft]
      exact checkLoop_decode _ m₂ hI'
  · by_cases hend : remainLen h st.srcPos < 0 ∨ st.win.len = 0
    · rw [stream_exhausted hdone hfetch hend]
      exact ⟨hI.quiet, false, st.ctx, rfl, by simp⟩
    · rw [stream_drain hdone hfetch hend]
      exact checkLoop_decode st m hI

theorem streamProcess_check (env : StableEnv σ κ) (h : FwInfo) (src : Handle)
    (algo : AlgoContext κ) (acc₀ : UInt32) (m : Machine σ κ) :
    ∃ r m', streamProcess env.toPlatform h src algo (.crc acc₀) m = (r, m') ∧
      CheckEnd env m acc₀ h r m' := by
  have hstart : CheckLoop env m acc₀ h ⟨srcReadPos, 0, .empty, .crc acc₀⟩ m := by
    refine ⟨refl_of (Quiet env) m, ⟨[], by simp, ?_, rfl⟩, Nat.zero_le _⟩
    show ProcCtx.crc acc₀ = .crc (env.crc.cycCal acc₀ [])
    rw [env.crc.cycCal_nil]
  obtain ⟨r, m', hrun, hend⟩ := iterate_rule
    (checkLoop_step h src algo) hstart (Nat.lt_succ_self _)
  refine ⟨r, m', ?_, hend⟩
  rw [streamProcess, Prog.run_bind]
  have hfuel : StreamLoop.left h ⟨srcReadPos, 0, .empty, .crc acc₀⟩ + 1 =
      h.rawSize.toNat + 1 := rfl
  rw [← hfuel, hrun]
  rfl

end Pass

end Qboot
