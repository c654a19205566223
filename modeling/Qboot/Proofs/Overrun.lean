import Qboot.Proofs.StreamRules
import Qboot.Proofs.WritePass
/-!
# Handlers that report too much

A handler that fails, or that reports more than it was given, ends the round of
`qbt_decompress_with_consumer` it is called in.  The pass is refused for it as long
as that round has delivered nothing before.
-/

namespace Qboot

open Library Bytes Machine Loop

variable {σ κ : Type}

/-! ## The handler calls of a run -/

section Calls

variable (pl : Platform σ) (h : FwInfo) (src : Handle) (algo : AlgoContext κ)
  (pc : ProcCtx) (m : Machine σ κ)

abbrev StreamHead (st : StreamLoop) (m₁ : Machine σ κ) : Prop :=
  Visits (streamRound pl h src algo) ⟨srcReadPos, 0, .empty, pc⟩ m st m₁

/-- The run comes to decompress what `st` has buffered, with or without reading more
before. -/
inductive Decoding : StreamLoop → Machine σ κ → Prop where
  | drained {st : StreamLoop} {m₁ : Machine σ κ} (hhead : StreamHead pl h src algo pc m st m₁)
      (hgo : ¬h.rawSize.toNat ≤ st.rawPos) (hfetch : ¬0 < remainLen h st.srcPos)
      (hend : ¬(remainLen h st.srcPos < 0 ∨ st.win.len = 0)) : Decoding st m₁
  | fetched {st : StreamLoop} {m₁ m₂ : Machine σ κ} {win : CmprsBuf}
      (hhead : StreamHead pl h src algo pc m st m₁)
      (hgo : ¬h.rawSize.toNat ≤ st.rawPos) (hfetch : 0 < remainLen h st.srcPos)
      (hread : fwPkgRead pl src st.srcPos st.win (nextRead h st) algo
        (m₁.record [.filled st.win.len (nextRead h st)]) = (some win, m₂)) :
      Decoding { st with srcPos := st.srcPos + nextRead h st, win := win } m₂

def StreamLoop.decStart (h : FwInfo) (st : StreamLoop) : DecState :=
  ⟨st.win, (streamCtx h st).rawRemaining, 0, 0, .zero, st.ctx.setRawPos st.rawPos⟩

/-- The run calls the handler in state `d` of the inner loop that it enters from `st`. -/
def Calls (st : StreamLoop) (d : DecState) (m₁ : Machine σ κ) : Prop :=
  (∃ m₀, Decoding pl h src algo pc m st m₀ ∧
    Visits (decompressRound pl algo (streamCtx h st)) (st.decStart h) m₀ d m₁) ∧
  ¬(d.remainingOut = 0 ∨ d.Waits (streamCtx h st))

end Calls

/-- Success reported for more input or output than there was room for. -/
def Overreports (d : DecState) (rst : RtErr) (step : StreamStatus) : Prop :=
  rst = .eok ∧ (d.win.len < step.consumed ∨ d.curCap < step.produced)

/-- The answers that should end a pass: a failure, or an over-report. -/
def Violates (d : DecState) (rst : RtErr) (step : StreamStatus) : Prop :=
  rst = .error ∨ Overreports d rst step

section Rejects

variable {pl : Platform σ} {h : FwInfo} {src : Handle} {algo : AlgoContext κ}
  {pc : ProcCtx} {m : Machine σ κ}

theorem Decoding.round {st : StreamLoop} {m₁ : Machine σ κ}
    (hdec : Decoding pl h src algo pc m st m₁) :
    ∃ st₀ m₀, StreamHead pl h src algo pc m st₀ m₀ ∧
      streamRound pl h src algo st₀ m₀ = streamDecode pl h algo st m₁ := by
  cases hdec with
  | drained hhead hgo hfetch hend => exact ⟨st, m₁, hhead, stream_drain hgo hfetch hend⟩
  | fetched hhead hgo hfetch hread =>
      refine ⟨_, _, hhead, ?_⟩
      rw [stream_fetch hgo hfetch, hread]

/-- A call with a violating answer is the last of its round. -/
theorem violation_stops {d : DecState} {rst : RtErr} {step : StreamStatus}
    {out : Block d.curCap} (b : Build) (hviol : Violates d rst step) :
    (d.called b step out.1).Stops rst step := by
  by_contra hgo
  obtain ⟨hrst, hcons, hprod, -⟩ := not_stops_iff.mp hgo
  rcases hviol with hfail | ⟨-, hcons' | hprod'⟩
  · rw [hrst] at hfail
    cases hfail
  · omega
  · omega

theorem violation_result {st : StreamLoop} {d : DecState} {m₀ m₁ : Machine σ κ}
    {rst : RtErr} {step : StreamStatus} {out : Block d.curCap} {k : κ}
    (hvisit : Visits (decompressRound pl algo (streamCtx h st)) (st.decStart h) m₀ d m₁)
    (hgo : ¬(d.remainingOut = 0 ∨ d.Waits (streamCtx h st)))
    (hans : Answers algo (streamCtx h st) d m₁.mem rst step out k)
    (hviol : Violates d rst step) :
    decompressWithConsumer pl algo (streamCtx h st) st.win (st.ctx.setRawPos st.rawPos) m₀ =
      (some (rst, d.called pl.build step out.1), m₁.afterCall (streamCtx h st) d k) := by
  obtain ⟨⟨r, d'⟩, m', hrun⟩ := decompress_ends pl algo (streamCtx h st) st.win
    (st.ctx.setRawPos st.rawPos) m₀
  have hlast : decompressRound pl algo (streamCtx h st) d m₁ = _ :=
    round_stop hgo hans (violation_stops pl.build hviol)
  obtain ⟨hres, hend⟩ := hvisit.result hlast hrun
  rw [hrun, hres, hend]

/-- A run in which over-reports come before any output of their round answers RT_FALSE
as soon as one call fails or over-reports. -/
theorem streamProcess_rejects
    (hfresh : ∀ st d m₁, Calls pl h src algo pc m st d m₁ → ∀ rst step out k,
      Answers algo (streamCtx h st) d m₁.mem rst step out k →
      Overreports d rst step → d.produced = 0)
    {st : StreamLoop} {d : DecState} {m₁ : Machine σ κ}
    (hcall : Calls pl h src algo pc m st d m₁) {rst : RtErr} {step : StreamStatus}
    {out : Block d.curCap} {k : κ}
    (hans : Answers algo (streamCtx h st) d m₁.mem rst step out k)
    (hviol : Violates d rst step) :
    (fwStreamProcess pl h src algo pc m).1.1 = false := by
  obtain ⟨⟨m₀, hdec, hvisit⟩, hgo⟩ := id hcall
  have hresult := violation_result hvisit hgo hans hviol
  obtain ⟨st₀, m₀', hhead, hround⟩ := hdec.round
  have hrefused : rst = .error ∨ (d.called pl.build step out.1).produced = 0 :=
    hviol.imp_right (hfresh st d m₁ hcall rst step out k hans)
  rw [streamDecode_eq hresult, if_pos hrefused] at hround
  obtain ⟨r, m', hrun⟩ := streamProcess_ends pl h src algo pc m
  obtain ⟨rfl, -⟩ := hhead.result hround hrun
  rw [fwStreamProcess, Prog.run_bind, streamProcess, Prog.run_bind, hrun]
  rfl

end Rejects

/-! ## Two handlers -/

/-- A handler that reports one byte more than it was given as consumed. -/
def greedyOps : CmprsOps Nat where
  cmprsId := algoCmprsGzip
  init := none
  decompress := fun inp outLen step _ =>
    pure (.eok, { step with consumed := inp.length + 1, produced := 1 },
      Block.ofList outLen [])
  deinit := none

/-- A handler that hands on single bytes, but reports five bytes as consumed in its
second call. -/
def slippingOps : CmprsOps Nat where
  cmprsId := algoCmprsGzip
  init := none
  decompress := fun inp outLen step _ calls =>
    if calls = 1 then
      ((.eok, { step with consumed := 5, produced := 0 }, Block.ofList outLen []), calls + 1)
    else
      ((.eok, { step with consumed := 1, produced := 1 }, Block.ofList outLen (inp.take 1)),
        calls + 1)
  deinit := none

abbrev threeBytePass (ops : CmprsOps Nat) : (Bool × ProcCtx) × Machine FlashDev Nat :=
  fwStreamProcess gzipPlatform threeBytes ⟨.download, 0⟩
    ⟨noneCryptOps gzipPlatform.build, ops⟩ (.crc 0xFFFFFFFF)
    (steadyMachine (fun _ => ⟨128, 4, fun _ => 0xFF⟩) 0)

theorem greedy_rejected : (threeBytePass greedyOps).1.1 = false := by
  refine streamProcess_rejects ?_ ⟨⟨_, .fetched .start (by decide) (by decide) rfl, .start⟩,
    by decide⟩ rfl (.inr ⟨rfl, .inl (by decide)⟩)
  rintro st d m₁ ⟨⟨m₀, -, hvisit⟩, -⟩ rst step out k - -
  cases hvisit with
  | start => rfl
  | @round d₀ _ s₀ _ hbefore hbody =>
      -- every call ends its round, so none follows another in it
      exfalso
      by_cases hend : d₀.remainingOut = 0 ∨ d₀.Waits (streamCtx threeBytes st)
      · rw [round_end hend] at hbody
        cases hbody
      · have hmore : Overreports d₀ .eok
            ⟨d₀.win.bytes.length + 1, 1, d₀.step.remainingIn⟩ :=
          ⟨rfl, .inl (by simp)⟩
        rw [round_stop hend rfl (violation_stops _ (.inr hmore))] at hbody
        cases hbody

theorem slipping_accepted :
    (∃ st d m₁ rst step out k,
      Calls gzipPlatform threeBytes ⟨.download, 0⟩
        ⟨noneCryptOps gzipPlatform.build, slippingOps⟩ (.crc 0xFFFFFFFF)
        (steadyMachine (fun _ => ⟨128, 4, fun _ => 0xFF⟩) 0) st d m₁ ∧
      Answers ⟨noneCryptOps gzipPlatform.build, slippingOps⟩ (streamCtx threeBytes st) d m₁.mem
        rst step out k ∧
      Violates d rst step) ∧
    (threeBytePass slippingOps).1.1 = true := by
  refine ⟨⟨_, _, _, .eok, ⟨5, 0, 0⟩, _, 2, ⟨⟨_, .fetched .start (by decide) (by decide) rfl,
    .round .start rfl⟩, by decide⟩, rfl, .inr ⟨rfl, .inl (by decide)⟩⟩, by decide +kernel⟩

end Qboot
