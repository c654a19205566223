import Qboot.Model.Codecs
import Qboot.Proofs.StreamRules
import Qboot.Proofs.WriteProgress
/-!
# Plain packages in both builds

A package without encryption and compression, in the build that copies between
separate buffers and in the one that shares a single buffer.  The second does
not clip a window to the image, and that is all that tells the two apart.
-/

namespace Qboot

open Library Bytes Machine Loop

variable {σ κ : Type}

def noneContext (b : Build) : AlgoContext κ := ⟨noneCryptOps b, noneCmprsOps b⟩

variable {b : Build} {io : IoOps σ} {crc : CrcLib} {h : FwInfo} {src : Handle}
  {m : Machine σ κ} {ctx : StreamCtx} {win : CmprsBuf} {pc : ProcCtx}

/-! ## One window -/

/-- The bytes of a full window that NONE passes on at once. -/
def passedOn (b : Build) (len cap : Nat) : Nat :=
  if b.usingCompression then min len cap else len

theorem passedOn_le (b : Build) (len cap : Nat) : passedOn b len cap ≤ len := by
  unfold passedOn
  split
  · exact Nat.min_le_left len cap
  · exact le_rfl

theorem passedOn_of_le {len cap : Nat} (h : len ≤ cap) : passedOn b len cap = len := by
  unfold passedOn
  split
  · exact Nat.min_eq_left h
  · rfl

theorem len_called (b : Build) (d : DecState) (step : StreamStatus) (out : List UInt8) :
    (d.called b step out).win.len = d.win.len := by
  unfold DecState.called
  split <;> rfl

theorem none_call {d : DecState} (hlen : 0 < d.win.len) (k : κ) :
    Answers (noneContext b) ctx d k .eok
      ⟨passedOn b d.win.len d.curCap, passedOn b d.win.len d.curCap, d.step.remainingIn⟩
      (Block.ofList d.curCap d.win.bytes) k := by
  have hne : ¬d.win.bytes.length = 0 := by
    rw [CmprsBuf.length_bytes]
    exact hlen.ne'
  unfold Answers noneContext noneCmprsOps noneDecompress
  dsimp only
  rw [if_neg hne, CmprsBuf.length_bytes]
  rfl

theorem none_call_empty {d : DecState} (hlen : d.win.len = 0) (k : κ) :
    Answers (noneContext b) ctx d k .enospc d.step (Block.ofList d.curCap d.win.bytes)
      k := by
  have hzero : d.win.bytes.length = 0 := by rw [CmprsBuf.length_bytes, hlen]
  unfold Answers noneContext noneCmprsOps noneDecompress
  dsimp only
  rw [if_pos hzero]
  rfl

/-- The machine after an empty buffer has ended the inner loop, `k` bytes after its
start: NONE is called once more only at the end of the package. -/
def drained (ctx : StreamCtx) (k : Nat) (m : Machine σ κ) : Machine σ κ :=
  if ctx.rawRemaining - k = 0 ∨ ctx.consumed + k < ctx.total then m
  else m.record [.decompress [] (min (ctx.rawRemaining - k) bufSize)
    { ctx with rawRemaining := ctx.rawRemaining - k, consumed := ctx.consumed + k }]

theorem none_last (b : Build) (io : IoOps σ) (crc : CrcLib) (m : Machine σ κ)
    (d : DecState) {k : Nat} (hraw : d.remainingOut = ctx.rawRemaining - k)
    (hcons : d.consumed = k) (hend : d.remainingOut = 0 ∨ d.win.len = 0) :
    ∃ rst d', decompressRound ⟨b, io, crc⟩ (noneContext b) ctx d m =
        (.done (rst, d'), drained ctx k m) ∧
      rst ≠ .error ∧ d'.win.len = d.win.len ∧ d'.produced = d.produced ∧
      d'.ctx = d.ctx := by
  by_cases hover : d.remainingOut = 0 ∨ d.Waits ctx
  · have hsame : drained ctx k m = m := by
      refine if_pos (hover.imp (fun hzero => ?_) fun hwaits => ?_)
      · rw [← hraw, hzero]
      · rw [← hcons]
        exact hwaits.2
    rw [hsame]
    exact ⟨.eok, d, round_end hover, nofun, rfl, rfl, rfl⟩
  · have hzero : d.win.len = 0 := by
      obtain hzero | hzero := hend
      · exact absurd (.inl hzero) hover
      · exact hzero
    have hmore : drained ctx k m = m.afterCall ctx d m.mem := by
      have hgo : ¬(ctx.rawRemaining - k = 0 ∨ ctx.consumed + k < ctx.total) := by
        rintro (hout | hcons')
        · exact hover (.inl (hraw.trans hout))
        · exact hover (.inr ⟨hzero, by rw [hcons]; exact hcons'⟩)
      rw [drained, if_neg hgo, Machine.afterCall, CmprsBuf.bytes_of_len_eq_zero hzero,
        DecState.curCap, DecState.callCtx, hraw, hcons]
      rfl
    have hcall : Answers (noneContext b) ctx d m.mem .enospc d.step
        (Block.ofList d.curCap d.win.bytes) m.mem := none_call_empty hzero m.mem
    rw [hmore]
    exact ⟨.enospc, _, round_stop hover hcall (.inl nofun), nofun, len_called _ _ _ _,
      rfl, rfl⟩

section Consumed

variable {pl : Platform σ} {algo : AlgoContext κ} {d : DecState} {step : StreamStatus}
  {out : Block d.curCap} {k : κ} {c : RtErr × ProcCtx} {m' : Machine σ κ}
  (hgo : ¬(d.remainingOut = 0 ∨ d.Waits ctx))
  (hcall : Answers algo ctx d m.mem .eok step out k)
  (hrun : ¬(d.called pl.build step out.1).Stops .eok step)
  (hc : consumer pl d.ctx (out.1.take step.produced) (m.afterCall ctx d k) = (c, m'))

include hgo hcall hrun hc

theorem round_refused (hfail : c.1 ≠ .eok) :
    decompressRound pl algo ctx d m =
      (.done (c.1, { d.called pl.build step out.1 with ctx := c.2 }), m') := by
  rw [round_offer hgo hcall hrun, Prog.run_bind, hc, Prog.run_ite, if_pos hfail]
  rfl

theorem round_taken (hok : c.1 = .eok) :
    decompressRound pl algo ctx d m =
      (.again ((d.called pl.build step out.1).advance c.2),
        m'.record [.accepted (out.1.take step.produced) step.consumed]) := by
  rw [round_offer hgo hcall hrun, Prog.run_bind, hc, Prog.run_ite,
    if_neg (not_not.mpr hok)]
  rfl

end Consumed

def atStart (ctx : StreamCtx) (win : CmprsBuf) (pc : ProcCtx) : DecState :=
  ⟨win, ctx.rawRemaining, 0, 0, .zero, pc⟩

def offered (ctx : StreamCtx) (data : List UInt8) (m : Machine σ κ) : Machine σ κ :=
  m.record [.decompress data (min ctx.rawRemaining bufSize) ctx]

section Window

variable {k : Nat} (hraw : 0 < ctx.rawRemaining) (hlen : 0 < win.len)
  (hk : passedOn b win.len (min ctx.rawRemaining bufSize) = k)

include hraw hlen hk

theorem window_stopped (hover : min ctx.rawRemaining bufSize < k) :
    ∃ d, decompressWithConsumer ⟨b, io, crc⟩ (noneContext b) ctx win pc m =
        (some (.eok, d), offered ctx win.bytes m) ∧ d.produced = 0 := by
  have hgo : ¬((atStart ctx win pc).remainingOut = 0 ∨ (atStart ctx win pc).Waits ctx) := by
    rintro (hzero | hwaits)
    · exact hraw.ne' hzero
    · exact hlen.ne' hwaits.1
  have hcall : Answers (noneContext b) ctx (atStart ctx win pc) m.mem .eok ⟨k, k, 0⟩
      (Block.ofList (atStart ctx win pc).curCap win.bytes) m.mem := by
    rw [← hk]
    exact none_call hlen m.mem
  exact ⟨_, iterate_done (round_stop hgo hcall (.inr (.inr (.inl hover)))), rfl⟩

theorem window_handed (hfit : k ≤ min ctx.rawRemaining bufSize)
    (hend : ctx.rawRemaining - k = 0 ∨ win.len - k = 0)
    {c : RtErr × ProcCtx} {m' : Machine σ κ}
    (hc : consumer ⟨b, io, crc⟩ pc (win.bytes.take k) (offered ctx win.bytes m) = (c, m')) :
    (c.1 ≠ .eok → ∃ d, decompressWithConsumer ⟨b, io, crc⟩ (noneContext b) ctx win pc m =
        (some (c.1, d), m') ∧ d.produced = 0 ∧ d.ctx = c.2) ∧
      (c.1 = .eok → ∃ rst d,
        decompressWithConsumer ⟨b, io, crc⟩ (noneContext b) ctx win pc m =
          (some (rst, d), drained ctx k (m'.record [.accepted (win.bytes.take k) k])) ∧
        rst ≠ .error ∧ d.produced = k ∧ d.win.len = win.len - k ∧ d.ctx = c.2) := by
  have hgo : ¬((atStart ctx win pc).remainingOut = 0 ∨ (atStart ctx win pc).Waits ctx) := by
    rintro (hzero | hwaits)
    · exact hraw.ne' hzero
    · exact hlen.ne' hwaits.1
  have hpos : 0 < k := by
    rw [← hk]
    unfold passedOn bufSize
    split <;> omega
  have hkle : k ≤ win.len := by
    rw [← hk]
    exact passedOn_le b win.len _
  have hcall : Answers (noneContext b) ctx (atStart ctx win pc) m.mem .eok ⟨k, k, 0⟩
      (Block.ofList (atStart ctx win pc).curCap win.bytes) m.mem := by
    rw [← hk]
    exact none_call hlen m.mem
  have hrun : ¬((atStart ctx win pc).called b ⟨k, k, 0⟩
      (Block.ofList (atStart ctx win pc).curCap win.bytes).1).Stops .eok ⟨k, k, 0⟩ :=
    not_stops_iff.mpr ⟨rfl, hkle, hfit, Nat.add_pos_left hpos k⟩
  have htake : (Block.ofList (atStart ctx win pc).curCap win.bytes).1.take k =
      win.bytes.take k :=
    Block.take_ofList_le hfit (by rw [CmprsBuf.length_bytes]; exact hkle)
  have hc' : consumer ⟨b, io, crc⟩ (atStart ctx win pc).ctx
      ((Block.ofList (atStart ctx win pc).curCap win.bytes).1.take k)
      (m.afterCall ctx (atStart ctx win pc) m.mem) = (c, m') := by
    rw [htake]
    exact hc
  constructor
  · intro hfail
    exact ⟨_, iterate_done (round_refused hgo hcall hrun hc' hfail), rfl, rfl⟩
  · intro hok
    have hfirst : decompressRound ⟨b, io, crc⟩ (noneContext b) ctx (atStart ctx win pc) m =
        (.again (((atStart ctx win pc).called b ⟨k, k, 0⟩
          (Block.ofList (atStart ctx win pc).curCap win.bytes).1).advance c.2),
          m'.record [.accepted (win.bytes.take k) k]) := by
      rw [← htake]
      exact round_taken hgo hcall hrun hc' hok
    have hleft : (((atStart ctx win pc).called b ⟨k, k, 0⟩
        (Block.ofList (atStart ctx win pc).curCap win.bytes).1).advance c.2).win.len =
        win.len - k := by
      show ((atStart ctx win pc).called b _ _).win.len - k = _
      rw [len_called]
      rfl
    obtain ⟨rst, d, hlast, hrst, hlen', hprod, hctx⟩ := none_last b io crc
      (m'.record [.accepted (win.bytes.take k) k])
      (((atStart ctx win pc).called b ⟨k, k, 0⟩
        (Block.ofList (atStart ctx win pc).curCap win.bytes).1).advance c.2)
      rfl (Nat.zero_add k) (hend.imp_right hleft.trans)
    have hfuel : ∃ n, ctx.rawRemaining + win.len + 1 = n + 1 + 1 :=
      ⟨ctx.rawRemaining + win.len - 1, by omega⟩
    obtain ⟨n, hn⟩ := hfuel
    refine ⟨rst, d, ?_, hrst, ?_, hlen'.trans hleft, hctx⟩
    · rw [decompressWithConsumer, hn]
      exact (iterate_again hfirst).trans (iterate_done hlast)
    · exact hprod.trans (Nat.zero_add k)

end Window

/-! ## One round -/

section Round

variable {st : StreamLoop} {dev : σ}

def windowCtx (h : FwInfo) (st : StreamLoop) (n : Nat) : StreamCtx :=
  { total := h.pkgSize.toNat
    consumed := st.srcPos + n - srcReadPos - n
    rawRemaining := h.rawSize.toNat - st.rawPos
    purpose := st.ctx.purpose }

def windowRead (src : Handle) (st : StreamLoop) {n : Nat} (data : Block n) (dev : σ)
    (m : Machine σ κ) : Machine σ κ :=
  { m.record [.filled 0 n, .read src.target st.srcPos n (some data.1), .decrypted data.1] with
    dev := dev }

variable (hwin : st.win.len = 0) (hgo : ¬h.rawSize.toNat ≤ st.rawPos)
  (hfetch : 0 < remainLen h st.srcPos)

include hwin

theorem plain_dry (hfetch : ¬0 < remainLen h st.srcPos) (hgo : ¬h.rawSize.toNat ≤ st.rawPos) :
    streamRound ⟨b, io, crc⟩ h src (noneContext b) st m =
      (.done (some (false, st.ctx)), m) :=
  stream_exhausted hgo hfetch (.inr hwin)

include hgo hfetch

theorem plain_unread
    (hread : io.read src st.srcPos (nextRead h st) m.dev = (none, dev)) :
    streamRound ⟨b, io, crc⟩ h src (noneContext b) st m =
      (.done (some (false, st.ctx)),
        { m.record [.filled 0 (nextRead h st),
          .read src.target st.srcPos (nextRead h st) none] with dev := dev }) := by
  have hpkg : fwPkgRead ⟨b, io, crc⟩ src st.srcPos st.win (nextRead h st) (noneContext b)
      (m.record [.filled st.win.len (nextRead h st)]) = _ := fwPkgRead_fail hread
  rw [stream_fetch hgo hfetch, hpkg, hwin]
  simp only [Machine.record, List.append_assoc, List.cons_append, List.nil_append]

theorem plain_read {data : Block (nextRead h st)}
    (hread : io.read src st.srcPos (nextRead h st) m.dev = (some data, dev)) :
    ∃ w : CmprsBuf, w.len = nextRead h st ∧ w.bytes = data.1 ∧
      streamRound ⟨b, io, crc⟩ h src (noneContext b) st m =
        streamDecode ⟨b, io, crc⟩ h (noneContext b)
          { st with srcPos := st.srcPos + nextRead h st, win := w }
          (windowRead src st data dev m) := by
  generalize hwin' : (if b.usingCompression = true then st.win
    else st.win.clobber data.1) = win'
  have hlen : win'.len = 0 := by
    rw [← hwin', ← hwin]
    split <;> rfl
  have hplain : (noneContext b).crypt.decrypt
      (readCells win'.cells win'.len (nextRead h st)) data m.mem = ((.eok, data), m.mem) := by
    show ((RtErr.eok, if b.usingCompression = true then data else _), m.mem) = _
    split
    · rfl
    · next hshared =>
        -- the shared buffer holds what the read has stored at its start
        have hcells : readCells win'.cells win'.len (nextRead h st) = data := by
          rw [if_neg hshared] at hwin'
          apply Subtype.ext
          rw [hlen, ← hwin']
          have hsame := readCells_overwrite_same st.win.cells 0 data.1
          rwa [data.2] at hsame
        rw [hcells]
  have hpkg : fwPkgRead ⟨b, io, crc⟩ src st.srcPos st.win (nextRead h st) (noneContext b)
      (m.record [.filled st.win.len (nextRead h st)]) = _ :=
    fwPkgRead_read hwin' hread hplain
  refine ⟨win'.fill data.1, ?_, ?_, ?_⟩
  · rw [CmprsBuf.len_fill, hlen, data.2, Nat.zero_add]
  · rw [CmprsBuf.bytes_fill, CmprsBuf.bytes_of_len_eq_zero hlen, List.nil_append]
  · rw [stream_fetch hgo hfetch, hpkg, if_pos rfl, hwin]
    simp only [windowRead, Machine.record, List.append_assoc, List.cons_append,
      List.nil_append]

end Round

section Decode

variable {k : Nat}

theorem decode_stopped {st : StreamLoop} (hgo : ¬h.rawSize.toNat ≤ st.rawPos)
    (hlen : 0 < st.win.len)
    (hk : passedOn b st.win.len (min (h.rawSize.toNat - st.rawPos) bufSize) = k)
    (hover : min (h.rawSize.toNat - st.rawPos) bufSize < k) :
    ∃ pc m', streamDecode ⟨b, io, crc⟩ h (noneContext b) st m =
      (.done (some (false, pc)), m') := by
  have hraw : 0 < (streamCtx h st).rawRemaining := Nat.sub_pos_of_lt (not_le.mp hgo)
  have hstop : ∃ d, decompressWithConsumer ⟨b, io, crc⟩ (noneContext b) (streamCtx h st)
      st.win (st.ctx.setRawPos st.rawPos) m = (some (.eok, d), _) ∧ d.produced = 0 :=
    window_stopped hraw hlen hk hover
  obtain ⟨d, hdec, hprod⟩ := hstop
  rw [streamDecode_eq hdec, if_pos (.inr hprod)]
  exact ⟨d.ctx, _, rfl⟩

theorem decode_handed (st : StreamLoop) (hgo : ¬h.rawSize.toNat ≤ st.rawPos)
    (hlen : 0 < st.win.len)
    (hk : passedOn b st.win.len (min (h.rawSize.toNat - st.rawPos) bufSize) = k)
    (hfit : k ≤ min (h.rawSize.toNat - st.rawPos) bufSize)
    (hend : h.rawSize.toNat - st.rawPos - k = 0 ∨ st.win.len - k = 0)
    {c : RtErr × ProcCtx} {m' : Machine σ κ}
    (hc : consumer ⟨b, io, crc⟩ (st.ctx.setRawPos st.rawPos) (st.win.bytes.take k)
      (offered (streamCtx h st) st.win.bytes m) = (c, m')) :
    (c.1 ≠ .eok → streamDecode ⟨b, io, crc⟩ h (noneContext b) st m =
        (.done (some (false, c.2)), m')) ∧
      (c.1 = .eok → ∃ w : CmprsBuf, w.len = st.win.len - k ∧
        streamDecode ⟨b, io, crc⟩ h (noneContext b) st m =
          (.again { st with win := w, rawPos := st.rawPos + k, ctx := c.2 },
            drained (streamCtx h st) k (m'.record [.accepted (st.win.bytes.take k) k]))) := by
  have hraw : 0 < (streamCtx h st).rawRemaining := Nat.sub_pos_of_lt (not_le.mp hgo)
  have hpos : 0 < k := by
    rw [← hk]
    unfold passedOn bufSize
    split <;> omega
  obtain ⟨hfails, htakes⟩ := window_handed hraw hlen hk hfit hend hc
  constructor
  · intro hfail
    obtain ⟨d, hdec, hprod, hctx⟩ := hfails hfail
    rw [streamDecode_eq hdec, if_pos (.inr hprod), hctx]
  · intro hok
    obtain ⟨rst, d, hdec, hrst, hprod, hleft, hctx⟩ := htakes hok
    have hmore : ¬(rst = .error ∨ d.produced = 0) := by
      rintro (herr | hzero)
      · exact hrst herr
      · exact hpos.ne' (hprod.symm.trans hzero)
    refine ⟨d.win, hleft, ?_⟩
    rw [streamDecode_eq hdec, if_neg hmore, hprod, hctx]

end Decode

/-! ## Windows that fit -/

/-- The head of a round: image and body have come equally far, by whole windows up to
the end of the body. -/
structure AtWindow (h : FwInfo) (st : StreamLoop) : Prop where
  empty : st.win.len = 0
  pos : st.srcPos = srcReadPos + st.rawPos
  le : st.rawPos ≤ h.pkgSize.toNat
  whole : bufSize ∣ st.rawPos ∨ st.rawPos = h.pkgSize.toNat
  small : h.pkgSize.toNat < 2 ^ 31 ∨ st.rawPos = 0

theorem atWindow_start (h : FwInfo) (pc : ProcCtx) :
    AtWindow h ⟨srcReadPos, 0, .empty, pc⟩ where
  empty := rfl
  pos := rfl
  le := Nat.zero_le _
  whole := .inl (Nat.dvd_zero _)
  small := .inr rfl

variable {st : StreamLoop}

theorem AtWindow.fetched (hat : AtWindow h st) : st.fetched = st.rawPos := by
  rw [StreamLoop.fetched, hat.pos, Nat.add_sub_cancel_left]

theorem AtWindow.fetch_iff (hat : AtWindow h st) :
    0 < remainLen h st.srcPos ↔
      st.rawPos < h.pkgSize.toNat ∧ h.pkgSize.toNat < 2 ^ 31 := by
  have hstart : srcReadPos ≤ st.srcPos := by rw [hat.pos]; exact Nat.le_add_right _ _
  have hbound : st.fetched ≤ h.pkgSize.toNat := by rw [hat.fetched]; exact hat.le
  rw [Qboot.fetch_iff hstart hbound, hat.fetched]
  obtain hsmall | hzero := hat.small
  · omega
  · rw [hzero, Nat.sub_zero]

theorem AtWindow.nextRead (hat : AtWindow h st) (hfetch : 0 < remainLen h st.srcPos) :
    nextRead h st = min bufSize (h.pkgSize.toNat - st.rawPos) := by
  have hstart : srcReadPos ≤ st.srcPos := by rw [hat.pos]; exact Nat.le_add_right _ _
  have hbound : st.fetched ≤ h.pkgSize.toNat := by rw [hat.fetched]; exact hat.le
  have hshort := ((Qboot.fetch_iff hstart hbound).mp hfetch).2
  rw [nextRead_eq hstart hbound hshort, hat.fetched]
  rfl

theorem AtWindow.nextRead_pos (hat : AtWindow h st) (hfetch : 0 < remainLen h st.srcPos) :
    0 < Qboot.nextRead h st := by
  have hread := hat.nextRead hfetch
  have hmore := (hat.fetch_iff.mp hfetch).1
  unfold bufSize at hread
  omega

theorem AtWindow.next (hat : AtWindow h st) (hfetch : 0 < remainLen h st.srcPos)
    {w : CmprsBuf} (hw : w.len = 0) (pc : ProcCtx) :
    AtWindow h ⟨st.srcPos + Qboot.nextRead h st, st.rawPos + Qboot.nextRead h st, w, pc⟩ := by
  have hread := hat.nextRead hfetch
  obtain ⟨hmore, hsmall⟩ := hat.fetch_iff.mp hfetch
  constructor
  · exact hw
  · show st.srcPos + _ = srcReadPos + (st.rawPos + _)
    rw [hat.pos, Nat.add_assoc]
  · show st.rawPos + _ ≤ _
    omega
  · show bufSize ∣ st.rawPos + _ ∨ st.rawPos + _ = _
    obtain hwhole | hend := hat.whole
    · by_cases hfull : bufSize ≤ h.pkgSize.toNat - st.rawPos
      · left
        rw [hread, Nat.min_eq_left hfull]
        exact Nat.dvd_add hwhole (Nat.dvd_refl bufSize)
      · right
        omega
    · omega
  · exact .inl hsmall

/-- The windows of the package fit what is left of the image. -/
def WindowsFit (h : FwInfo) : Prop :=
  h.pkgSize.toNat ≤ h.rawSize.toNat ∨ 2 ^ 31 ≤ h.pkgSize.toNat ∨ bufSize ∣ h.rawSize.toNat

theorem AtWindow.fits (hat : AtWindow h st) (hcond : WindowsFit h)
    (hgo : ¬h.rawSize.toNat ≤ st.rawPos) (hfetch : 0 < remainLen h st.srcPos) :
    Qboot.nextRead h st ≤ min (h.rawSize.toNat - st.rawPos) bufSize := by
  have hread := hat.nextRead hfetch
  obtain ⟨hmore, hsmall⟩ := hat.fetch_iff.mp hfetch
  obtain hle | hlarge | hraw := hcond
  · omega
  · omega
  · have hwhole : bufSize ∣ st.rawPos := hat.whole.resolve_right hmore.ne
    have hstep : bufSize ≤ h.rawSize.toNat - st.rawPos :=
      Nat.le_of_dvd (by omega) (Nat.dvd_sub hraw hwhole)
    omega

theorem plain_whole (b : Build) (io : IoOps σ) (crc : CrcLib) (src : Handle)
    (hat : AtWindow h st) (hgo : ¬h.rawSize.toNat ≤ st.rawPos)
    (hfetch : 0 < remainLen h st.srcPos)
    (hfits : nextRead h st ≤ min (h.rawSize.toNat - st.rawPos) bufSize)
    {data : Block (nextRead h st)} {dev : σ}
    (hread : io.read src st.srcPos (nextRead h st) m.dev = (some data, dev))
    {c : RtErr × ProcCtx} {m' : Machine σ κ}
    (hc : consumer ⟨b, io, crc⟩ (st.ctx.setRawPos st.rawPos) data.1
      (offered (windowCtx h st (nextRead h st)) data.1 (windowRead src st data dev m)) =
        (c, m')) :
    (c.1 ≠ .eok → streamRound ⟨b, io, crc⟩ h src (noneContext b) st m =
        (.done (some (false, c.2)), m')) ∧
      (c.1 = .eok → ∃ w : CmprsBuf, w.len = 0 ∧
        streamRound ⟨b, io, crc⟩ h src (noneContext b) st m =
          (.again ⟨st.srcPos + nextRead h st, st.rawPos + nextRead h st, w, c.2⟩,
            drained (windowCtx h st (nextRead h st)) (nextRead h st)
              (m'.record [.accepted data.1 (nextRead h st)]))) := by
  have hpos := hat.nextRead_pos hfetch
  obtain ⟨w, hw, hbytes, hround⟩ := plain_read (b := b) hat.empty hgo hfetch hread
  have hk : passedOn b w.len (min (h.rawSize.toNat - st.rawPos) bufSize) = nextRead h st := by
    rw [hw]
    exact passedOn_of_le hfits
  have htake : w.bytes.take (nextRead h st) = data.1 := by
    rw [hbytes]
    exact List.take_of_length_le data.2.le
  have hctx : streamCtx h { st with srcPos := st.srcPos + nextRead h st, win := w } =
      windowCtx h st (nextRead h st) := by
    simp only [streamCtx, windowCtx, hw]
  have hc' : consumer ⟨b, io, crc⟩ (st.ctx.setRawPos st.rawPos)
      (w.bytes.take (nextRead h st))
      (offered (streamCtx h { st with srcPos := st.srcPos + nextRead h st, win := w })
        w.bytes (windowRead src st data dev m)) = (c, m') := by
    rw [htake, hctx, hbytes]
    exact hc
  have hend : w.len - nextRead h st = 0 := by rw [hw, Nat.sub_self]
  have hlen : 0 < w.len := by
    rw [hw]
    exact hpos
  obtain ⟨hfails, htakes⟩ := decode_handed
    { st with srcPos := st.srcPos + nextRead h st, win := w } hgo hlen hk hfits (.inr hend)
    hc'
  rw [hround]
  refine ⟨hfails, fun hok => ?_⟩
  obtain ⟨w', hw', hagain⟩ := htakes hok
  rw [hctx, htake] at hagain
  exact ⟨w', hw'.trans hend, hagain⟩

/-- The same machine, and loop variables that differ in an empty buffer only. -/
def BufferTwins (h : FwInfo) (st st' : StreamLoop) (m m' : Machine σ κ) : Prop :=
  AtWindow h st ∧ (∃ w : CmprsBuf, w.len = 0 ∧ st' = { st with win := w }) ∧ m = m'

theorem AtWindow.other (hat : AtWindow h st) {w : CmprsBuf} (hw : w.len = 0) :
    AtWindow h { st with win := w } :=
  ⟨hw, hat.pos, hat.le, hat.whole, hat.small⟩

theorem plain_twins (b b' : Build) (io : IoOps σ) (crc : CrcLib) (h : FwInfo) (src : Handle)
    (hcond : WindowsFit h) {st st' : StreamLoop} {m m' : Machine σ κ}
    (htwins : BufferTwins h st st' m m') :
    Abreast (BufferTwins h) (fun r r' m m' => r = r' ∧ m = m')
      (streamRound ⟨b, io, crc⟩ h src (noneContext b) st m)
      (streamRound ⟨b', io, crc⟩ h src (noneContext b') st' m') := by
  obtain ⟨hat, ⟨w₀, hw₀, rfl⟩, rfl⟩ := htwins
  have hat' := hat.other hw₀
  by_cases hgo : h.rawSize.toNat ≤ st.rawPos
  · have hright : streamRound ⟨b', io, crc⟩ h src (noneContext b') { st with win := w₀ } m =
        (.done (some (true, st.ctx)), m) := stream_finish hgo
    rw [stream_finish hgo, hright]
    exact .done ⟨rfl, rfl⟩
  by_cases hfetch : 0 < remainLen h st.srcPos
  · rcases hread : io.read src st.srcPos (nextRead h st) m.dev with ⟨_ | data, dev⟩
    · have hright : streamRound ⟨b', io, crc⟩ h src (noneContext b')
          { st with win := w₀ } m = _ := plain_unread hat'.empty hgo hfetch hread
      rw [plain_unread hat.empty hgo hfetch hread, hright]
      exact .done ⟨rfl, rfl⟩
    rcases hc : consumer ⟨b, io, crc⟩ (st.ctx.setRawPos st.rawPos) data.1
      (offered (windowCtx h st (nextRead h st)) data.1 (windowRead src st data dev m))
      with ⟨c, m'⟩
    have hc' : consumer ⟨b', io, crc⟩ (st.ctx.setRawPos st.rawPos) data.1
        (offered (windowCtx h st (nextRead h st)) data.1 (windowRead src st data dev m)) =
          (c, m') := hc
    have hfits := hat.fits hcond hgo hfetch
    obtain ⟨hfails, htakes⟩ := plain_whole b io crc src hat hgo hfetch hfits hread hc
    obtain ⟨hfails', htakes'⟩ := plain_whole b' io crc src hat' hgo hfetch hfits hread hc'
    by_cases hok : c.1 = .eok
    · obtain ⟨w, hw, hleft⟩ := htakes hok
      obtain ⟨w', hw', hright⟩ := htakes' hok
      rw [hleft, hright]
      exact .again ⟨hat.next hfetch hw c.2, ⟨w', hw', rfl⟩, rfl⟩
    · rw [hfails hok, hfails' hok]
      exact .done ⟨rfl, rfl⟩
  · have hright : streamRound ⟨b', io, crc⟩ h src (noneContext b') { st with win := w₀ } m =
        (.done (some (false, st.ctx)), m) := plain_dry hat'.empty hfetch hgo
    rw [plain_dry hat.empty hfetch hgo, hright]
    exact .done ⟨rfl, rfl⟩

/-- Both builds run alike where the windows fit. -/
theorem plain_same (b b' : Build) (io : IoOps σ) (crc : CrcLib) (h : FwInfo) (src : Handle)
    (pc : ProcCtx) (m : Machine σ κ) (hcond : WindowsFit h) :
    fwStreamProcess ⟨b, io, crc⟩ h src (noneContext b) pc m =
      fwStreamProcess ⟨b', io, crc⟩ h src (noneContext b') pc m := by
  have hstart : BufferTwins h ⟨srcReadPos, 0, .empty, pc⟩ ⟨srcReadPos, 0, .empty, pc⟩ m m :=
    ⟨atWindow_start h pc, ⟨.empty, rfl, rfl⟩, rfl⟩
  have hrounds : iterate (streamRound ⟨b, io, crc⟩ h src (noneContext b))
      (h.rawSize.toNat + 1) ⟨srcReadPos, 0, .empty, pc⟩ m =
      iterate (streamRound ⟨b', io, crc⟩ h src (noneContext b'))
        (h.rawSize.toNat + 1) ⟨srcReadPos, 0, .empty, pc⟩ m := by
    obtain ⟨r, r', m₁, m₂, hleft, hright, rfl, rfl⟩ | ⟨m₁, m₂, hleft, -⟩ :=
      iterate_abreast (fun _ _ _ _ => plain_twins b b' io crc h src hcond)
        (h.rawSize.toNat + 1) hstart
    · rw [hleft, hright]
    · obtain ⟨r, m₃, hends⟩ := streamProcess_ends ⟨b, io, crc⟩ h src (noneContext b) pc m
      rw [hleft] at hends
      exact nomatch congrArg Prod.fst hends
  simp only [fwStreamProcess, streamProcess, Prog.run_bind, hrounds]

/-! ## A window that does not fit -/

theorem fwStreamProcess_ok {pl : Platform σ} {algo : AlgoContext κ} {I : StreamLoop → Prop}
    {ok : Bool} (hround : ∀ st, I st → Prog.Yields
      (Leads I fun r => ∃ pc, r = some (ok, pc)) (streamRound pl h src algo st))
    (hstart : I ⟨srcReadPos, 0, .empty, pc⟩) (m : Machine σ κ) :
    (fwStreamProcess pl h src algo pc m).1.1 = ok := by
  obtain ⟨r, m', hrun⟩ := streamProcess_ends pl h src algo pc m
  have hyields := yields_iterate hround (h.rawSize.toNat + 1) _ hstart m
  rw [hrun] at hyields
  obtain ⟨pc', rfl⟩ := hyields r rfl
  simp [fwStreamProcess, streamProcess, hrun]

section Clipped

variable (hcond : ¬WindowsFit h)

include hcond

theorem lengths_of_not_fit : h.rawSize.toNat < h.pkgSize.toNat ∧
    h.pkgSize.toNat < 2 ^ 31 ∧ ¬bufSize ∣ h.rawSize.toNat := by
  unfold WindowsFit at hcond
  push Not at hcond
  exact hcond

/-- The shared buffer never finishes the image: its last window overruns it. -/
theorem shared_fails (hb : b.usingCompression = false) (io : IoOps σ) (crc : CrcLib)
    (src : Handle) (pc : ProcCtx) (m : Machine σ κ) :
    (fwStreamProcess ⟨b, io, crc⟩ h src (noneContext b) pc m).1.1 = false := by
  obtain ⟨hlt, hsmall, hwhole⟩ := lengths_of_not_fit hcond
  have hpassed (len cap : Nat) : passedOn b len cap = len := by
    rw [passedOn, hb]
    rfl
  refine fwStreamProcess_ok (I := fun st => AtWindow h st ∧ bufSize ∣ st.rawPos ∧
    st.rawPos < h.rawSize.toNat) ?_ ?_ m
  · rintro st ⟨hat, hdvd, hpos⟩ m
    have hgo : ¬h.rawSize.toNat ≤ st.rawPos := not_le.mpr hpos
    have hfetch : 0 < remainLen h st.srcPos := hat.fetch_iff.mpr ⟨hpos.trans hlt, hsmall⟩
    have hn := hat.nextRead hfetch
    rcases hread : io.read src st.srcPos (nextRead h st) m.dev with ⟨_ | data, dev⟩
    · rw [plain_unread hat.empty hgo hfetch hread]
      exact ⟨st.ctx, rfl⟩
    by_cases hfits : nextRead h st ≤ min (h.rawSize.toNat - st.rawPos) bufSize
    · rcases hc : consumer ⟨b, io, crc⟩ (st.ctx.setRawPos st.rawPos) data.1
        (offered (windowCtx h st (nextRead h st)) data.1 (windowRead src st data dev m))
        with ⟨c, m'⟩
      obtain ⟨hfails, htakes⟩ := plain_whole b io crc src hat hgo hfetch hfits hread hc
      by_cases hok : c.1 = .eok
      · obtain ⟨w, hw, hagain⟩ := htakes hok
        rw [hagain]
        -- a window inside the image is a full one
        have hfull : nextRead h st = bufSize := by omega
        have hnext : bufSize ∣ st.rawPos + nextRead h st := by
          rw [hfull]
          exact Nat.dvd_add hdvd (Nat.dvd_refl bufSize)
        have hle : st.rawPos + nextRead h st ≤ h.rawSize.toNat := by omega
        have hne : st.rawPos + nextRead h st ≠ h.rawSize.toNat := by
          intro hend
          rw [hend] at hnext
          exact hwhole hnext
        exact ⟨hat.next hfetch hw c.2, hnext, lt_of_le_of_ne hle hne⟩
      · rw [hfails hok]
        exact ⟨c.2, rfl⟩
    · obtain ⟨w, hw, -, hdecode⟩ := plain_read (b := b) hat.empty hgo hfetch hread
      have hlen : 0 < w.len := by
        rw [hw]
        exact hat.nextRead_pos hfetch
      have hstop : ∃ pc m', streamDecode ⟨b, io, crc⟩ h (noneContext b)
          { st with srcPos := st.srcPos + nextRead h st, win := w }
          (windowRead src st data dev m) = (.done (some (false, pc)), m') := by
        refine decode_stopped hgo hlen (hpassed _ _) ?_
        rw [hw]
        exact not_le.mp hfits
      obtain ⟨pc', m', hstop⟩ := hstop
      rw [hdecode, hstop]
      exact ⟨pc', rfl⟩
  · refine ⟨atWindow_start h pc, Nat.dvd_zero _, Nat.pos_of_ne_zero ?_⟩
    intro hzero
    rw [hzero] at hwhole
    exact hwhole (Nat.dvd_zero _)

/-- Storage that answers every read and accepts every write. -/
structure NeverFails (io : IoOps σ) : Prop where
  read : ∀ h off len dev, (io.read h off len dev).1.isSome
  write : ∀ h off data dev, (io.write h off data dev).1 = true

omit hcond in
theorem consumer_ok {io : IoOps σ} (hio : NeverFails io) (b : Build) (crc : CrcLib)
    (pc : ProcCtx) (data : List UInt8)
    (m : Machine σ κ) : (consumer ⟨b, io, crc⟩ pc data m).1.1 = .eok := by
  cases pc with
  | crc acc => rfl
  | write s =>
      have hwrite := hio.write s.dst s.rawPos data m.dev
      rw [consumer, Prog.run_bind, run_ioWrite]
      simp only [hwrite, if_true]
      rfl

theorem separate_succeeds (hb : b.usingCompression = true) {io : IoOps σ}
    (hio : NeverFails io) (crc : CrcLib) (src : Handle) (pc : ProcCtx) (m : Machine σ κ) :
    (fwStreamProcess ⟨b, io, crc⟩ h src (noneContext b) pc m).1.1 = true := by
  obtain ⟨hlt, hsmall, -⟩ := lengths_of_not_fit hcond
  have hpassed (len cap : Nat) : passedOn b len cap = min len cap := by
    rw [passedOn, hb]
    rfl
  refine fwStreamProcess_ok (I := fun st => st.rawPos = h.rawSize.toNat ∨
    AtWindow h st ∧ st.rawPos < h.rawSize.toNat) ?_ ?_ m
  · rintro st hI m
    by_cases hgo : h.rawSize.toNat ≤ st.rawPos
    · rw [stream_finish hgo]
      exact ⟨st.ctx, rfl⟩
    obtain ⟨hat, hpos⟩ := hI.resolve_left fun hend => hgo hend.ge
    have hfetch : 0 < remainLen h st.srcPos := hat.fetch_iff.mpr ⟨hpos.trans hlt, hsmall⟩
    have hn := hat.nextRead hfetch
    have hsome := hio.read src st.srcPos (nextRead h st) m.dev
    rcases hread : io.read src st.srcPos (nextRead h st) m.dev with ⟨_ | data, dev⟩
    · rw [hread] at hsome
      exact nomatch hsome
    by_cases hfits : nextRead h st ≤ min (h.rawSize.toNat - st.rawPos) bufSize
    · rcases hc : consumer ⟨b, io, crc⟩ (st.ctx.setRawPos st.rawPos) data.1
        (offered (windowCtx h st (nextRead h st)) data.1 (windowRead src st data dev m))
        with ⟨c, m'⟩
      have hok : c.1 = .eok := by
        have haccept := consumer_ok hio b crc (st.ctx.setRawPos st.rawPos) data.1
          (offered (windowCtx h st (nextRead h st)) data.1 (windowRead src st data dev m))
        rwa [hc] at haccept
      obtain ⟨w, hw, hagain⟩ :=
        (plain_whole b io crc src hat hgo hfetch hfits hread hc).2 hok
      rw [hagain]
      have hle : st.rawPos + nextRead h st ≤ h.rawSize.toNat := by omega
      exact (Nat.eq_or_lt_of_le hle).imp_right fun hmore =>
        ⟨hat.next hfetch hw c.2, hmore⟩
    · obtain ⟨w, hw, -, hdecode⟩ := plain_read (b := b) hat.empty hgo hfetch hread
      have hlen : 0 < w.len := by
        rw [hw]
        exact hat.nextRead_pos hfetch
      -- the capacity is what is left of the image
      have hcap : min (h.rawSize.toNat - st.rawPos) bufSize =
          h.rawSize.toNat - st.rawPos := by omega
      have hk : passedOn b w.len (min (h.rawSize.toNat - st.rawPos) bufSize) =
          h.rawSize.toNat - st.rawPos := by
        have hless := not_le.mp hfits
        rw [hcap] at hless
        rw [hpassed, hw, hcap]
        exact Nat.min_eq_right hless.le
      rcases hc : consumer ⟨b, io, crc⟩ (st.ctx.setRawPos st.rawPos)
        (w.bytes.take (h.rawSize.toNat - st.rawPos))
        (offered (streamCtx h { st with srcPos := st.srcPos + nextRead h st, win := w })
          w.bytes (windowRead src st data dev m)) with ⟨c, m'⟩
      have hok : c.1 = .eok := by
        have haccept := consumer_ok hio b crc (st.ctx.setRawPos st.rawPos)
          (w.bytes.take (h.rawSize.toNat - st.rawPos))
          (offered (streamCtx h { st with srcPos := st.srcPos + nextRead h st, win := w })
            w.bytes (windowRead src st data dev m))
        rwa [hc] at haccept
      obtain ⟨w', -, hagain⟩ :=
        (decode_handed { st with srcPos := st.srcPos + nextRead h st, win := w }
          hgo hlen hk hcap.ge (.inl (Nat.sub_self _)) hc).2 hok
      rw [hdecode, hagain]
      left
      show st.rawPos + (h.rawSize.toNat - st.rawPos) = h.rawSize.toNat
      omega
  · by_cases hzero : h.rawSize.toNat = 0
    · exact .inl hzero.symm
    · exact .inr ⟨atWindow_start h pc, Nat.pos_of_ne_zero hzero⟩

end Clipped

/-! ## The two builds -/

/-- The bytes that were handed to the consumer, in order; a refused write is recorded
by the write alone. -/
def consumerBytes (es : List Event) : List UInt8 :=
  es.flatMap fun
    | .accepted out _ => out
    | .wrote _ _ data false => data
    | _ => []

/-- For every body, every storage and every context of the purpose, the builds `b` and
`b'` answer the same and hand the consumer the same bytes. -/
def SameDelivery (b b' : Build) (h : FwInfo) (purpose : StreamPurpose) : Prop :=
  ∀ (σ κ : Type) (io : IoOps σ) (crc : CrcLib) (src : Handle) (pc : ProcCtx)
    (m : Machine σ κ), pc.purpose = purpose →
    (fwStreamProcess ⟨b, io, crc⟩ h src (noneContext b) pc m).1 =
        (fwStreamProcess ⟨b', io, crc⟩ h src (noneContext b') pc m).1 ∧
      consumerBytes (fwStreamProcess ⟨b, io, crc⟩ h src (noneContext b) pc m).2.log =
        consumerBytes (fwStreamProcess ⟨b', io, crc⟩ h src (noneContext b') pc m).2.log

theorem calmIo_neverFails : NeverFails calmIo where
  read _ _ _ _ := rfl
  write _ _ _ _ := rfl

theorem not_sameDelivery {b b' : Build} (hb : b.usingCompression = true)
    (hb' : b'.usingCompression = false) {h : FwInfo} (hcond : ¬WindowsFit h)
    (purpose : StreamPurpose) : ¬SameDelivery b b' h purpose := by
  intro hsame
  have hdiffer (pc : ProcCtx) (hpc : pc.purpose = purpose) : False := by
    have hresult := (hsame Unit Unit calmIo crc32Lib ⟨.download, 0⟩ pc calmMachine hpc).1
    have htrue := separate_succeeds hcond hb calmIo_neverFails crc32Lib ⟨.download, 0⟩ pc
      calmMachine
    have hfalse := shared_fails hcond hb' calmIo crc32Lib ⟨.download, 0⟩ pc calmMachine
    rw [hresult, hfalse] at htrue
    exact nomatch htrue
  cases purpose with
  | crc => exact hdiffer (.crc 0xFFFFFFFF) rfl
  | write => exact hdiffer (.write ⟨⟨.app, 0⟩, 0, h.rawSize.toNat⟩) rfl

/-- With separate buffers and with a shared one a plain package is delivered alike,
exactly if its windows fit its image. -/
theorem sameDelivery_iff (b b' : Build) (hb : b.usingCompression = true)
    (hb' : b'.usingCompression = false) (h : FwInfo) (purpose : StreamPurpose) :
    SameDelivery b b' h purpose ↔ WindowsFit h := by
  constructor
  · intro hsame
    by_contra hcond
    exact not_sameDelivery hb hb' hcond purpose hsame
  · intro hcond σ κ io crc src pc m _
    rw [plain_same b b' io crc h src pc m hcond]
    exact ⟨rfl, rfl⟩

def gzipBuild : Build := ⟨false, true, false, false, false⟩
def bareBuild : Build := ⟨false, false, false, false, false⟩

def twoBytes (rawSize : UInt32) : FwInfo := { emptyImage with pkgSize := 2, rawSize := rawSize }

theorem sameDelivery_iff_twoBytes :
    SameDelivery gzipBuild bareBuild (twoBytes 2) .write ↔ WindowsFit (twoBytes 2) :=
  sameDelivery_iff gzipBuild bareBuild rfl rfl (twoBytes 2) .write

/-- An image of one byte in a package of two is delivered by the build with separate
buffers only. -/
theorem shortImage_differs : ¬SameDelivery gzipBuild bareBuild (twoBytes 1) .write := by
  refine not_sameDelivery rfl rfl ?_ .write
  rintro (hle | hlarge | hdvd)
  · exact absurd hle (by decide)
  · exact absurd hlarge (by decide)
  · exact absurd hdvd (by decide)

end Qboot
