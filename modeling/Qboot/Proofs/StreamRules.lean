import Qboot.Proofs.StreamSteps
/-!
# Rules for the stream loops

Invariant rules for `qbt_decompress_with_consumer` and `qbt_fw_stream_process`
that hold for any storage: what has to be shown is only how a codec's answers
change its memory and the buffered input.
-/

namespace Qboot

open Library Bytes Machine Loop

variable {σ κ : Type}

/-! ## The inner loop -/

/-- No read into the input buffer is recorded. -/
def NoFilled (es : List Event) : Prop := ∀ p r, Event.filled p r ∉ es

theorem NoFilled.append {a b : List Event} (ha : NoFilled a) (hb : NoFilled b) :
    NoFilled (a ++ b) := by
  intro p r hmem
  rcases List.mem_append.mp hmem with hmem | hmem
  · exact ha p r hmem
  · exact hb p r hmem

/-- The counters of the inner loop add up. -/
structure Counts (ctx : StreamCtx) (inLen : Nat) (d : DecState) : Prop where
  input : d.consumed + d.win.len = inLen
  output : d.produced + d.remainingOut = ctx.rawRemaining

section Inner

variable {pl : Platform σ} {algo : AlgoContext κ} {ctx : StreamCtx}
  {inLen : Nat} {d : DecState}

theorem Counts.called {out : List UInt8} {step : StreamStatus} {b : Build}
    (h : Counts ctx inLen d) : Counts ctx inLen (d.called b step out) := by
  have hlen : (d.called b step out).win.len = d.win.len := by
    unfold DecState.called
    split <;> rfl
  exact ⟨by rw [hlen]; exact h.input, h.output⟩

theorem Counts.advance (h : Counts ctx inLen d) {pc : ProcCtx}
    (hcons : d.step.consumed ≤ d.win.len) (hprod : d.step.produced ≤ d.curCap) :
    Counts ctx inLen (d.advance pc) := by
  have hinput := h.input
  have houtput := h.output
  have hcap : d.curCap ≤ d.remainingOut := Nat.min_le_left _ _
  constructor
  · simp only [DecState.advance, CmprsBuf.len_consume]
    omega
  · simp only [DecState.advance]
    omega

def DecState.next (b : Build) (d : DecState) (step : StreamStatus)
    (out : List UInt8) (pc : ProcCtx) : DecState :=
  (d.called b step out).advance pc

/-- The inner loop ends for every handler and storage.  An invariant `J` of its
state and of the codec memory gives `E` where it ends without a failure. -/
theorem decompress_rule (pl : Platform σ) (algo : AlgoContext κ) (ctx : StreamCtx)
    (win : CmprsBuf) (pc : ProcCtx) (m : Machine σ κ)
    {J : DecState → κ → Prop} {E : DecState → κ → Prop}
    (hstart : J ⟨win, ctx.rawRemaining, 0, 0, .zero, pc⟩ m.mem)
    (hend : ∀ d k, Counts ctx win.len d → J d k →
      d.remainingOut = 0 ∨ d.Waits ctx → E d k)
    (hstop : ∀ d k₀ rst step out k, Counts ctx win.len d → J d k₀ →
      ¬(d.remainingOut = 0 ∨ d.Waits ctx) →
      Answers algo ctx d k₀ rst step out k → rst ≠ .error →
      (d.called pl.build step out.1).Stops rst step →
      E (d.called pl.build step out.1) k)
    (hgo : ∀ d k₀ step out k pc, Counts ctx win.len d → J d k₀ →
      ¬(d.remainingOut = 0 ∨ d.Waits ctx) →
      Answers algo ctx d k₀ .eok step out k → step.consumed ≤ d.win.len →
      step.produced ≤ d.curCap → J (d.next pl.build step out.1 pc) k) :
    ∃ rst d m', decompressWithConsumer pl algo ctx win pc m = (some (rst, d), m') ∧
      Traced m m' NoFilled ∧
      (rst ≠ .error → Counts ctx win.len d ∧ E d m'.mem) := by
  let I : DecState → Machine σ κ → Prop := fun d m' =>
    Traced m m' NoFilled ∧ Counts ctx win.len d ∧ J d m'.mem
  let Q : RtErr × DecState → Machine σ κ → Prop := fun r m' =>
    Traced m m' NoFilled ∧
      (r.1 ≠ .error → Counts ctx win.len r.2 ∧ E r.2 m'.mem)
  have hcall (d : DecState) (m' : Machine σ κ) (k : κ)
      (h : Traced m m' NoFilled) : Traced m (m'.afterCall ctx d k) NoFilled :=
    h.concat rfl fun new hnew => hnew.append (by simp [NoFilled])
  have hround : ∀ d m', I d m' → Ends I DecState.work Q d.work
      (decompressRound pl algo ctx d m') := by
    rintro d m' ⟨hlog, hcounts, hJ⟩
    have hcase := round_cases pl algo ctx d m'
    generalize decompressRound pl algo ctx d m' = r at hcase
    cases hcase with
    | ended hover => exact ⟨hlog, fun _ => ⟨hcounts, hend d _ hcounts hJ hover⟩⟩
    | stopped hmore hans hstops =>
        exact ⟨hcall d m' _ hlog, fun hrst => ⟨hcounts.called,
          hstop d _ _ _ _ _ hcounts hJ hmore hans hrst hstops⟩⟩
    | accepted hmore hans hruns pc dev written hwritten =>
        rename_i step out k
        obtain ⟨-, hcons, hprod, hprog⟩ := not_stops_iff.mp hruns
        have hlen : (d.called pl.build step out.1).win.len = d.win.len := by
          unfold DecState.called
          split <;> rfl
        have hcap : d.curCap ≤ d.remainingOut := Nat.min_le_left _ _
        refine ⟨⟨?_, ?_, hgo d _ step out k pc hcounts hJ hmore hans hcons hprod⟩, ?_⟩
        · exact (hcall d m' k hlog).concat rfl fun new hnew =>
            hnew.append (NoFilled.append hwritten (by simp [NoFilled]))
        · exact hcounts.called.advance (by rw [hlen]; exact hcons) hprod
        · simp only [DecState.advance, DecState.work, CmprsBuf.len_consume, hlen]
          show d.remainingOut - step.produced + (d.win.len - step.consumed) <
            d.remainingOut + d.win.len
          omega
    | refused hmore hans hruns dev written hwritten =>
        exact ⟨(hcall d m' _ hlog).concat rfl fun new hnew => hnew.append hwritten,
          fun hne => absurd rfl hne⟩
  obtain ⟨⟨rst, d⟩, m', hrun, hQ⟩ := iterate_rule hround
    (show I _ m from ⟨⟨[], by simp, by simp [NoFilled]⟩,
      ⟨by simp, by simp⟩, hstart⟩) (Nat.lt_succ_self _)
  exact ⟨rst, d, m', hrun, hQ⟩

theorem decompress_ends (pl : Platform σ) (algo : AlgoContext κ) (ctx : StreamCtx)
    (win : CmprsBuf) (pc : ProcCtx) (m : Machine σ κ) :
    ∃ r m', decompressWithConsumer pl algo ctx win pc m = (some r, m') := by
  obtain ⟨rst, d, m', hrun, -⟩ := decompress_rule pl algo ctx win pc m
    (J := fun _ _ => True) (E := fun _ _ => True) trivial (fun _ _ _ _ _ => trivial)
    (fun _ _ _ _ _ _ _ _ _ _ _ _ => trivial) (fun _ _ _ _ _ _ _ _ _ _ _ _ => trivial)
  exact ⟨(rst, d), m', hrun⟩

end Inner

/-! ## The outer loop -/

section Outer

variable {pl : Platform σ} {algo : AlgoContext κ} {h : FwInfo} {src : Handle}

theorem streamDecode_again {st st' : StreamLoop} {m m' : Machine σ κ}
    (hagain : streamDecode pl h algo st m = (.again st', m')) : st.rawPos < st'.rawPos := by
  obtain ⟨⟨rst, d⟩, m'', hrun⟩ := decompress_ends pl algo (streamCtx h st) st.win
    (st.ctx.setRawPos st.rawPos) m
  rw [streamDecode_eq hrun] at hagain
  split at hagain
  · cases hagain
  · rename_i hgo
    push Not at hgo
    obtain ⟨hst, -⟩ := Prod.mk.inj hagain
    rw [← Next.again.inj hst]
    exact Nat.lt_add_of_pos_right (Nat.pos_of_ne_zero hgo.2)

theorem streamRound_again {st st' : StreamLoop} {m m' : Machine σ κ}
    (hagain : streamRound pl h src algo st m = (.again st', m')) :
    StreamLoop.left h st' < StreamLoop.left h st := by
  by_cases hdone : h.rawSize.toNat ≤ st.rawPos
  · rw [stream_finish hdone] at hagain
    cases hagain
  have hless : st.rawPos < st'.rawPos → StreamLoop.left h st' < StreamLoop.left h st := by
    simp only [StreamLoop.left]
    omega
  by_cases hfetch : 0 < remainLen h st.srcPos
  · rw [stream_fetch hdone hfetch] at hagain
    rcases hread : fwPkgRead pl src st.srcPos st.win (nextRead h st) algo
      (m.record [.filled st.win.len (nextRead h st)]) with ⟨_ | win, m₁⟩
    · rw [hread] at hagain
      cases hagain
    · rw [hread] at hagain
      have hmore := streamDecode_again hagain
      exact hless hmore
  · by_cases hend : remainLen h st.srcPos < 0 ∨ st.win.len = 0
    · rw [stream_exhausted hdone hfetch hend] at hagain
      cases hagain
    · rw [stream_drain hdone hfetch hend] at hagain
      exact hless (streamDecode_again hagain)

/-- A pass ends for every handler and storage. -/
theorem streamProcess_ends (pl : Platform σ) (h : FwInfo) (src : Handle)
    (algo : AlgoContext κ) (pc : ProcCtx) (m : Machine σ κ) :
    ∃ r m', iterate (streamRound pl h src algo) (h.rawSize.toNat + 1)
      ⟨srcReadPos, 0, .empty, pc⟩ m = (some r, m') :=
  iterate_isSome (I := fun _ _ => True) (fun _ _ _ _ _ hagain =>
    ⟨trivial, streamRound_again hagain⟩) trivial (Nat.lt_succ_self _)

theorem nextRead_le (h : FwInfo) (st : StreamLoop) :
    nextRead h st ≤ cmprsReadSize := Nat.min_le_left _ _

def StreamLoop.fetched (st : StreamLoop) : Nat := st.srcPos - srcReadPos

theorem fetch_iff {st : StreamLoop} (hstart : srcReadPos ≤ st.srcPos)
    (hbound : st.fetched ≤ h.pkgSize.toNat) :
    0 < remainLen h st.srcPos ↔ st.fetched < h.pkgSize.toNat ∧
      h.pkgSize.toNat - st.fetched < 2 ^ 31 := by
  have hlt : h.pkgSize.toNat < 2 ^ 32 := h.pkgSize.toNat_lt
  rw [show st.srcPos = srcReadPos + st.fetched by unfold StreamLoop.fetched; omega,
    remainLen_eq hbound, i32]
  split <;> omega

theorem nextRead_eq {st : StreamLoop} (hstart : srcReadPos ≤ st.srcPos)
    (hbound : st.fetched ≤ h.pkgSize.toNat)
    (hshort : h.pkgSize.toNat - st.fetched < 2 ^ 31) :
    nextRead h st = min cmprsReadSize (h.pkgSize.toNat - st.fetched) := by
  rw [nextRead, show st.srcPos = srcReadPos + st.fetched by
    unfold StreamLoop.fetched; omega, remainLen_eq hbound, i32, if_pos hshort,
    Int.toNat_natCast]

end Outer

end Qboot
