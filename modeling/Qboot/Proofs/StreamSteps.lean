import Qboot.Model.Stream
import Qboot.Proofs.Record
/-!
# Single rounds of the stream loops

What one round of `qbt_decompress_with_consumer` and one round of
`qbt_fw_stream_process` do, as equations.  Proofs about the loops go through
these and do not unfold the rounds.
-/

namespace Qboot

open Library Bytes Machine Loop

variable {σ κ : Type}

/-! ## The inner loop -/

section Inner

variable {pl : Platform σ} {algo : AlgoContext κ} {ctx : StreamCtx}
  {d : DecState} {m : Machine σ κ} {rst : RtErr} {step : StreamStatus}
  {out : Block d.curCap} {k : κ}

def DecState.work (d : DecState) : Nat := d.remainingOut + d.win.len

def Machine.afterCall (m : Machine σ κ) (ctx : StreamCtx) (d : DecState) (k : κ) :
    Machine σ κ :=
  { m with
    mem := k
    log := m.log ++ [.decompress d.win.bytes d.curCap (d.callCtx ctx)] }

/-- The call that round `d` makes on memory `k₀` answers as given. -/
def Answers (algo : AlgoContext κ) (ctx : StreamCtx) (d : DecState) (k₀ : κ)
    (rst : RtErr) (step : StreamStatus) (out : Block d.curCap) (k : κ) : Prop :=
  algo.cmprs.decompress d.win.bytes d.curCap d.step (d.callCtx ctx) k₀ =
    ((rst, step, out), k)

theorem exists_answers (algo : AlgoContext κ) (ctx : StreamCtx) (d : DecState)
    (k₀ : κ) : ∃ rst step out k, Answers algo ctx d k₀ rst step out k :=
  ⟨_, _, _, _, rfl⟩

theorem round_end (hend : d.remainingOut = 0 ∨ d.Waits ctx) :
    decompressRound pl algo ctx d m = (.done (.eok, d), m) := by
  rw [decompressRound, if_pos hend]
  rfl

theorem round_stop (hgo : ¬(d.remainingOut = 0 ∨ d.Waits ctx))
    (hcall : Answers algo ctx d m.mem rst step out k)
    (hstop : (d.called pl.build step out.1).Stops rst step) :
    decompressRound pl algo ctx d m =
      (.done (rst, d.called pl.build step out.1), m.afterCall ctx d k) := by
  unfold Answers at hcall
  rw [decompressRound, if_neg hgo]
  simp only [Prog.run_bind, run_emit, run_onMem, hcall]
  exact congrFun (if_pos hstop) _

theorem round_offer (hgo : ¬(d.remainingOut = 0 ∨ d.Waits ctx))
    (hcall : Answers algo ctx d m.mem rst step out k)
    (hrun : ¬(d.called pl.build step out.1).Stops rst step) :
    decompressRound pl algo ctx d m =
      (do
        let c ← consumer pl d.ctx (out.1.take step.produced)
        if c.1 ≠ .eok then
          pure (.done (c.1, { d.called pl.build step out.1 with ctx := c.2 }))
        else
          emit (.accepted (out.1.take step.produced) step.consumed)
          pure (.again ((d.called pl.build step out.1).advance c.2)) :
        Prog (Machine σ κ) (Next DecState (RtErr × DecState)))
        (m.afterCall ctx d k) := by
  unfold Answers at hcall
  rw [decompressRound, if_neg hgo]
  simp only [Prog.run_bind, run_emit, run_onMem, hcall]
  exact congrFun (if_neg hrun) _

theorem round_crc (hgo : ¬(d.remainingOut = 0 ∨ d.Waits ctx))
    (hcall : Answers algo ctx d m.mem rst step out k)
    (hrun : ¬(d.called pl.build step out.1).Stops rst step)
    {acc : UInt32} (hpc : d.ctx = .crc acc) :
    decompressRound pl algo ctx d m =
      (.again ((d.called pl.build step out.1).advance
          (.crc (pl.crc.cycCal acc (out.1.take step.produced)))),
        (m.afterCall ctx d k).record
          [.accepted (out.1.take step.produced) step.consumed]) := by
  rw [round_offer hgo hcall hrun, hpc]
  rfl

theorem round_write_ok (hgo : ¬(d.remainingOut = 0 ∨ d.Waits ctx))
    (hcall : Answers algo ctx d m.mem rst step out k)
    (hrun : ¬(d.called pl.build step out.1).Stops rst step)
    {st : StreamState} (hpc : d.ctx = .write st) {dev : σ}
    (hwrite : pl.io.write st.dst st.rawPos (out.1.take step.produced) m.dev =
      (true, dev)) :
    decompressRound pl algo ctx d m =
      (.again ((d.called pl.build step out.1).advance
          (.write { st with
            rawPos := st.rawPos + (out.1.take step.produced).length })),
        { (m.afterCall ctx d k).record
            [.wrote st.dst.target st.rawPos (out.1.take step.produced) true,
              .accepted (out.1.take step.produced) step.consumed] with
          dev := dev }) := by
  have hwrite' : pl.io.write st.dst st.rawPos (out.1.take step.produced)
      (m.afterCall ctx d k).dev = (true, dev) := hwrite
  rw [round_offer hgo hcall hrun, hpc]
  simp [consumer, run_ioWrite, hwrite', Machine.record]

theorem round_write_fail (hgo : ¬(d.remainingOut = 0 ∨ d.Waits ctx))
    (hcall : Answers algo ctx d m.mem rst step out k)
    (hrun : ¬(d.called pl.build step out.1).Stops rst step)
    {st : StreamState} (hpc : d.ctx = .write st) {dev : σ}
    (hwrite : pl.io.write st.dst st.rawPos (out.1.take step.produced) m.dev =
      (false, dev)) :
    decompressRound pl algo ctx d m =
      (.done (.error, d.called pl.build step out.1),
        { (m.afterCall ctx d k).record
            [.wrote st.dst.target st.rawPos (out.1.take step.produced) false] with
          dev := dev }) := by
  have hwrite' : pl.io.write st.dst st.rawPos (out.1.take step.produced)
      (m.afterCall ctx d k).dev = (false, dev) := hwrite
  rw [round_offer hgo hcall hrun, hpc]
  simp [consumer, run_ioWrite, hwrite', Machine.record, DecState.called, hpc]

/-- What a round can come to, whatever the handler and the storage answer.  Only
handler calls, writes and accepted outputs are recorded. -/
inductive RoundCase (pl : Platform σ) (algo : AlgoContext κ) (ctx : StreamCtx)
    (d : DecState) (m : Machine σ κ) :
    Next DecState (RtErr × DecState) × Machine σ κ → Prop where
  | ended (hend : d.remainingOut = 0 ∨ d.Waits ctx) :
      RoundCase pl algo ctx d m (.done (.eok, d), m)
  | stopped {rst : RtErr} {step : StreamStatus} {out : Block d.curCap} {k : κ}
      (hgo : ¬(d.remainingOut = 0 ∨ d.Waits ctx))
      (hcall : Answers algo ctx d m.mem rst step out k)
      (hstop : (d.called pl.build step out.1).Stops rst step) :
      RoundCase pl algo ctx d m
        (.done (rst, d.called pl.build step out.1), m.afterCall ctx d k)
  | accepted {step : StreamStatus} {out : Block d.curCap} {k : κ}
      (hgo : ¬(d.remainingOut = 0 ∨ d.Waits ctx))
      (hcall : Answers algo ctx d m.mem .eok step out k)
      (hrun : ¬(d.called pl.build step out.1).Stops .eok step)
      (pc : ProcCtx) (dev : σ) (written : List Event)
      (hwritten : ∀ p r, Event.filled p r ∉ written) :
      RoundCase pl algo ctx d m
        (.again ((d.called pl.build step out.1).advance pc),
          { (m.afterCall ctx d k).record (written ++
              [.accepted (out.1.take step.produced) step.consumed]) with
            dev := dev })
  | refused {step : StreamStatus} {out : Block d.curCap} {k : κ}
      (hgo : ¬(d.remainingOut = 0 ∨ d.Waits ctx))
      (hcall : Answers algo ctx d m.mem .eok step out k)
      (hrun : ¬(d.called pl.build step out.1).Stops .eok step)
      (dev : σ) (written : List Event)
      (hwritten : ∀ p r, Event.filled p r ∉ written) :
      RoundCase pl algo ctx d m
        (.done (.error, d.called pl.build step out.1),
          { (m.afterCall ctx d k).record written with dev := dev })

theorem not_stops_iff {b : Build} :
    ¬(d.called b step out.1).Stops rst step ↔
      rst = .eok ∧ step.consumed ≤ d.win.len ∧ step.produced ≤ d.curCap ∧
        0 < step.consumed + step.produced := by
  have hlen : (d.called b step out.1).win.len = d.win.len := by
    unfold DecState.called
    split <;> rfl
  have hcap : (d.called b step out.1).curCap = d.curCap := rfl
  rw [DecState.Stops, hlen, hcap]
  constructor
  · intro h
    push Not at h
    obtain ⟨hrst, hcons, hprod, hprog⟩ := h
    refine ⟨hrst, hcons, hprod, ?_⟩
    by_cases hzero : step.consumed = 0
    · have := hprog hzero
      omega
    · omega
  · rintro ⟨rfl, hcons, hprod, hprog⟩
    push Not
    exact ⟨rfl, hcons, hprod, by omega⟩

theorem called_of_separate {b : Build} (hsep : b.usingCompression = true) :
    d.called b step out.1 = { d with step := step } := by
  simp [DecState.called, hsep]

theorem round_cases (pl : Platform σ) (algo : AlgoContext κ) (ctx : StreamCtx)
    (d : DecState) (m : Machine σ κ) :
    RoundCase pl algo ctx d m (decompressRound pl algo ctx d m) := by
  by_cases hgo : d.remainingOut = 0 ∨ d.Waits ctx
  · rw [round_end hgo]
    exact .ended hgo
  obtain ⟨rst, step, out, k, hcall⟩ := exists_answers algo ctx d m.mem
  by_cases hstop : (d.called pl.build step out.1).Stops rst step
  · rw [round_stop hgo hcall hstop]
    exact .stopped hgo hcall hstop
  obtain ⟨rfl, -⟩ := not_stops_iff.mp hstop
  rcases hpc : d.ctx with acc | st
  · rw [round_crc hgo hcall hstop hpc]
    exact .accepted hgo hcall hstop _ m.dev [] (by simp)
  · rcases hwrite : pl.io.write st.dst st.rawPos (out.1.take step.produced) m.dev
      with ⟨_ | _, dev⟩
    · rw [round_write_fail hgo hcall hstop hpc hwrite]
      exact .refused hgo hcall hstop dev _ (by simp)
    · rw [round_write_ok hgo hcall hstop hpc hwrite]
      exact .accepted hgo hcall hstop _ dev
        [.wrote st.dst.target st.rawPos (out.1.take step.produced) true] (by simp)

end Inner

/-! ## The outer loop -/

section Outer

variable {pl : Platform σ} {algo : AlgoContext κ} {h : FwInfo} {src : Handle}
  {m : Machine σ κ}

def StreamLoop.left (h : FwInfo) (st : StreamLoop) : Nat :=
  h.rawSize.toNat - st.rawPos

theorem left_congr {st st' : StreamLoop} (hpos : st.rawPos = st'.rawPos) :
    st.left h = st'.left h := by
  rw [StreamLoop.left, hpos]
  rfl

theorem remainLen_eq {r : Nat} (hr : r ≤ h.pkgSize.toNat) :
    remainLen h (srcReadPos + r) = i32 (h.pkgSize.toNat - r) := by
  have hlt : h.pkgSize.toNat < 2 ^ 32 := h.pkgSize.toNat_lt
  rw [remainLen, u32, u32, srcReadPos]
  congr 1
  omega

theorem fwPkgRead_fail {win : CmprsBuf} {pos len : Nat} {dev : σ}
    (hread : pl.io.read src pos len m.dev = (none, dev)) :
    fwPkgRead pl src pos win len algo m =
      (none, { m.record [.read src.target pos len none] with dev := dev }) := by
  simp [fwPkgRead, run_ioRead, hread, Machine.record]

theorem fwPkgRead_read {win win' : CmprsBuf} {pos len : Nat} {dev : σ}
    {cipher plain : Block len} {r : RtErr} {k : κ}
    (hwin : (if pl.build.usingCompression then win else win.clobber cipher.1) =
      win')
    (hread : pl.io.read src pos len m.dev = (some cipher, dev))
    (hplain : algo.crypt.decrypt (readCells win'.cells win'.len len) cipher m.mem =
      ((r, plain), k)) :
    fwPkgRead pl src pos win len algo m =
      (if r = .eok then some (win'.fill plain.1) else none,
        { m.record [.read src.target pos len (some cipher.1), .decrypted plain.1] with
          dev := dev
          mem := k }) := by
  subst hwin
  simp [fwPkgRead, run_ioRead, hread, hplain, Machine.record]

theorem stream_finish {st : StreamLoop} (hdone : h.rawSize.toNat ≤ st.rawPos) :
    streamRound pl h src algo st m = (.done (some (true, st.ctx)), m) := by
  rw [streamRound, if_pos hdone]
  rfl

theorem stream_exhausted {st : StreamLoop} (hgo : ¬h.rawSize.toNat ≤ st.rawPos)
    (hfetch : ¬0 < remainLen h st.srcPos)
    (hend : remainLen h st.srcPos < 0 ∨ st.win.len = 0) :
    streamRound pl h src algo st m = (.done (some (false, st.ctx)), m) := by
  rw [streamRound, if_neg hgo]
  simp only [if_neg hfetch, if_pos hend]
  rfl

theorem stream_drain {st : StreamLoop} (hgo : ¬h.rawSize.toNat ≤ st.rawPos)
    (hfetch : ¬0 < remainLen h st.srcPos)
    (hend : ¬(remainLen h st.srcPos < 0 ∨ st.win.len = 0)) :
    streamRound pl h src algo st m = streamDecode pl h algo st m := by
  rw [streamRound, if_neg hgo]
  simp only [if_neg hfetch, if_neg hend]

def nextRead (h : FwInfo) (st : StreamLoop) : Nat :=
  min cmprsReadSize (remainLen h st.srcPos).toNat

theorem nextRead_within {st : StreamLoop} (hstart : srcReadPos ≤ st.srcPos)
    (hbound : st.srcPos ≤ srcReadPos + h.pkgSize.toNat) (hfetch : 0 < remainLen h st.srcPos) :
    st.srcPos + nextRead h st ≤ srcReadPos + h.pkgSize.toNat := by
  obtain ⟨r, hpos⟩ := Nat.exists_eq_add_of_le hstart
  have hr : r ≤ h.pkgSize.toNat := by omega
  have hlt : h.pkgSize.toNat < 2 ^ 32 := h.pkgSize.toNat_lt
  rw [hpos, remainLen_eq hr, i32] at hfetch
  rw [nextRead, hpos, remainLen_eq hr, i32]
  split at hfetch <;> omega

theorem stream_fetch {st : StreamLoop} (hgo : ¬h.rawSize.toNat ≤ st.rawPos)
    (hfetch : 0 < remainLen h st.srcPos) :
    streamRound pl h src algo st m =
      match fwPkgRead pl src st.srcPos st.win (nextRead h st) algo
        (m.record [.filled st.win.len (nextRead h st)]) with
      | (none, m') => (.done (some (false, st.ctx)), m')
      | (some win, m') => streamDecode pl h algo
          { st with srcPos := st.srcPos + nextRead h st, win := win } m' := by
  rw [streamRound, if_neg hgo]
  simp only [if_pos hfetch, Prog.run_bind, run_emit, nextRead, Machine.record]
  rcases fwPkgRead pl src st.srcPos st.win _ algo _ with ⟨_ | win, m'⟩ <;> rfl

/-- The stream context that the outer loop hands to the inner one. -/
def streamCtx (h : FwInfo) (st : StreamLoop) : StreamCtx :=
  { total := h.pkgSize.toNat
    consumed := st.srcPos - srcReadPos - st.win.len
    rawRemaining := h.rawSize.toNat - st.rawPos
    purpose := st.ctx.purpose }

theorem streamDecode_eq {st : StreamLoop} {rst : RtErr} {d : DecState}
    {m' : Machine σ κ}
    (hdec : decompressWithConsumer pl algo (streamCtx h st) st.win
      (st.ctx.setRawPos st.rawPos) m = (some (rst, d), m')) :
    streamDecode pl h algo st m =
      if rst = .error ∨ d.produced = 0 then (.done (some (false, d.ctx)), m')
      else (.again { st with
        win := d.win, rawPos := st.rawPos + d.produced, ctx := d.ctx }, m') := by
  unfold streamCtx at hdec
  rw [streamDecode]
  simp only [Prog.run_bind, hdec]
  split <;> rfl

end Outer

end Qboot
