import Qboot.Proofs.StreamRules
/-!
# What a package unpacks to

The write pass over ideal storage, which serves the body and takes every write,
decides what the write pass over any storage of that kind delivers.  Both runs
keep abreast, round by round.
-/

namespace Qboot

open Library Bytes Machine Loop

variable {σ κ : Type}

/-! ## Ideal storage -/

/-- Storage that serves a body behind a header and takes every write. -/
def bodyIo (body : List UInt8) : IoOps Unit where
  openTarget _ _ := pure (some 0)
  close _ := pure ()
  read _ off len := pure (readSlice body (off - srcReadPos) len)
  erase _ _ _ := pure true
  write _ _ _ := pure true
  size _ := pure (some body.length)
  getEraseAlign _ := pure none

/-- While the storage state is in `Ok out`, `src` serves the body, and `dst` takes what
comes behind `out` and fits the image. -/
structure Receives (io : IoOps σ) (src : Handle) (body : List UInt8) (dst : Handle)
    (size : Nat) (Ok : List UInt8 → σ → Prop) : Prop where
  read : ∀ out dev off len, Ok out dev → 0 < len → len ≤ cmprsReadSize →
    off + len < 2 ^ 32 →
    ∃ dev', io.read src (srcReadPos + off) len dev = (readSlice body off len, dev') ∧
      Ok out dev'
  write : ∀ out dev data, Ok out dev → data.length ≤ bufSize →
    out.length + data.length ≤ size →
    ∃ dev', io.write dst out.length data dev = (true, dev') ∧ Ok (out ++ data) dev'

variable {io : IoOps σ} {b : Build} {crc : CrcLib} {algo : AlgoContext κ} {h : FwInfo}
  {src dst : Handle} {body : List UInt8} {Ok : List UInt8 → σ → Prop}
  {m : Machine σ κ} {i : Machine Unit κ} {ctx : StreamCtx}

/-! ## The inner loop -/

/-- The storage has taken what the ideal run has delivered, `start` bytes of it before
this loop. -/
structure Delivering (Ok : List UInt8 → σ → Prop) (dst : Handle) (size start : Nat)
    (d : DecState) (m : Machine σ κ) (i : Machine Unit κ) : Prop where
  mem : m.mem = i.mem
  dev : Ok (acceptedBytes i.log) m.dev
  ctx : d.ctx = .write ⟨dst, (acceptedBytes i.log).length, size⟩
  room : (acceptedBytes i.log).length + d.remainingOut ≤ size
  count : (acceptedBytes i.log).length = start + d.produced

theorem delivering_round {size start : Nat} (hio : Receives io src body dst size Ok)
    {d : DecState} (hd : Delivering Ok dst size start d m i) :
    Abreast (fun d d' m i => d = d' ∧ Delivering Ok dst size start d m i)
      (fun r r' m i => r = r' ∧ Delivering Ok dst size start r.2 m i)
      (decompressRound ⟨b, io, crc⟩ algo ctx d m)
      (decompressRound ⟨b, bodyIo body, crc⟩ algo ctx d i) := by
  by_cases hgo : d.remainingOut = 0 ∨ d.Waits ctx
  · rw [round_end hgo, round_end hgo]
    exact .done ⟨rfl, hd⟩
  obtain ⟨rst, step, out, k, hcall⟩ := exists_answers algo ctx d m.mem
  have hcall' : Answers algo ctx d i.mem rst step out k := hd.mem ▸ hcall
  have hquiet (es : List Event) (hes : acceptedBytes es = []) :
      acceptedBytes (i.log ++ es) = acceptedBytes i.log := by
    rw [acceptedBytes_append, hes, List.append_nil]
  by_cases hstop : (d.called b step out.1).Stops rst step
  · rw [round_stop hgo hcall hstop, round_stop hgo hcall' hstop]
    have hlog : acceptedBytes (i.afterCall ctx d k).log = acceptedBytes i.log :=
      hquiet [.decompress d.win.bytes d.curCap (d.callCtx ctx)] rfl
    refine .done ⟨rfl, rfl, ?_, ?_, ?_, ?_⟩
    · rw [hlog]
      exact hd.dev
    · rw [hlog]
      exact hd.ctx
    · rw [hlog]
      exact hd.room
    · rw [hlog]
      exact hd.count
  obtain ⟨rfl, -, hprod, -⟩ := not_stops_iff.mp hstop
  have hlen : (out.1.take step.produced).length = step.produced := by
    rw [List.length_take, out.2, Nat.min_eq_left hprod]
  have hcap : d.curCap ≤ d.remainingOut := Nat.min_le_left _ _
  obtain ⟨dev', hwrite, hok'⟩ := hio.write _ m.dev (out.1.take step.produced) hd.dev
    (by rw [hlen]; exact hprod.trans (Nat.min_le_right _ _))
    (by rw [hlen]; exact (Nat.add_le_add_left (hprod.trans hcap) _).trans hd.room)
  have hideal : (bodyIo body).write dst (acceptedBytes i.log).length
      (out.1.take step.produced) i.dev = (true, i.dev) := rfl
  rw [round_write_ok hgo hcall hstop hd.ctx hwrite,
    round_write_ok hgo hcall' hstop hd.ctx hideal]
  have hlog : acceptedBytes (i.log ++ [.decompress d.win.bytes d.curCap (d.callCtx ctx)] ++
      [.wrote dst.target (acceptedBytes i.log).length (out.1.take step.produced) true,
        .accepted (out.1.take step.produced) step.consumed]) =
      acceptedBytes i.log ++ out.1.take step.produced := by
    rw [acceptedBytes_append, hquiet _ rfl]
    simp [acceptedBytes]
  refine .again ⟨rfl, rfl, ?_, ?_, ?_, ?_⟩
  · simp only [Machine.afterCall, Machine.record, hlog]
    exact hok'
  · simp only [Machine.afterCall, Machine.record, hlog, List.length_append]
    rfl
  · simp only [Machine.afterCall, Machine.record, hlog, List.length_append, hlen]
    have hroom := hd.room
    show _ + (d.remainingOut - step.produced) ≤ size
    omega
  · simp only [Machine.afterCall, Machine.record, hlog, List.length_append, hlen]
    rw [hd.count]
    exact Nat.add_assoc _ _ _

theorem delivering_inner {size : Nat} (hio : Receives io src body dst size Ok)
    {win : CmprsBuf} {pc : ProcCtx} {start : Nat}
    (hd : Delivering Ok dst size start ⟨win, ctx.rawRemaining, 0, 0, .zero, pc⟩ m i) :
    ∃ rst d m' i',
      decompressWithConsumer ⟨b, io, crc⟩ algo ctx win pc m = (some (rst, d), m') ∧
      decompressWithConsumer ⟨b, bodyIo body, crc⟩ algo ctx win pc i =
        (some (rst, d), i') ∧
      Delivering Ok dst size start d m' i' := by
  have hround (d d' : DecState) (m : Machine σ κ) (i : Machine Unit κ)
      (hI : d = d' ∧ Delivering Ok dst size start d m i) :
      Abreast (fun d d' m i => d = d' ∧ Delivering Ok dst size start d m i)
        (fun r r' m i => r = r' ∧ Delivering Ok dst size start r.2 m i)
        (decompressRound ⟨b, io, crc⟩ algo ctx d m)
        (decompressRound ⟨b, bodyIo body, crc⟩ algo ctx d' i) := by
    obtain ⟨rfl, hd⟩ := hI
    exact delivering_round hio hd
  obtain ⟨⟨rst, d⟩, r', m', i', hleft, hright, rfl, hend⟩ | ⟨m', i', hspent, -⟩ :=
    iterate_abreast hround (ctx.rawRemaining + win.len + 1) ⟨rfl, hd⟩
  · exact ⟨rst, d, m', i', hleft, hright, hend⟩
  · obtain ⟨r, m'', hends⟩ := decompress_ends ⟨b, io, crc⟩ algo ctx win pc m
    unfold decompressWithConsumer at hends
    rw [hspent] at hends
    exact nomatch congrArg Prod.fst hends

/-! ## The outer loop -/

structure Unpacking (Ok : List UInt8 → σ → Prop) (dst : Handle) (h : FwInfo)
    (st : StreamLoop) (m : Machine σ κ) (i : Machine Unit κ) : Prop where
  mem : m.mem = i.mem
  dev : Ok (acceptedBytes i.log) m.dev
  ctx : ∃ p, st.ctx = .write ⟨dst, p, h.rawSize.toNat⟩
  pos : (acceptedBytes i.log).length = st.rawPos
  bound : st.rawPos ≤ h.rawSize.toNat
  start : srcReadPos ≤ st.srcPos
  le : st.fetched ≤ h.pkgSize.toNat

/-- What a pass leaves: the same answer, and an image of the right length if it is
positive. -/
structure Unpacked (Ok : List UInt8 → σ → Prop) (h : FwInfo)
    (r r' : Option (Bool × ProcCtx)) (m : Machine σ κ) (i : Machine Unit κ) : Prop where
  eq : r = r'
  mem : m.mem = i.mem
  dev : Ok (acceptedBytes i.log) m.dev
  whole : ∀ pc, r = some (true, pc) → (acceptedBytes i.log).length = h.rawSize.toNat

theorem unpacking_decode (hio : Receives io src body dst h.rawSize.toNat Ok)
    {st : StreamLoop} (hst : Unpacking Ok dst h st m i) :
    Abreast (fun st st' m i => st = st' ∧ Unpacking Ok dst h st m i) (Unpacked Ok h)
      (streamDecode ⟨b, io, crc⟩ h algo st m)
      (streamDecode ⟨b, bodyIo body, crc⟩ h algo st i) := by
  obtain ⟨p, hctx⟩ := hst.ctx
  have hstart : Delivering Ok dst h.rawSize.toNat st.rawPos
      ⟨st.win, (streamCtx h st).rawRemaining, 0, 0, .zero, st.ctx.setRawPos st.rawPos⟩
      m i := by
    refine ⟨hst.mem, hst.dev, ?_, ?_, hst.pos⟩
    · rw [hctx, hst.pos]
      rfl
    · have hbound := hst.bound
      rw [hst.pos]
      show st.rawPos + (h.rawSize.toNat - st.rawPos) ≤ _
      omega
  obtain ⟨rst, d, m', i', hleft, hright, hd⟩ := delivering_inner hio hstart
  rw [streamDecode_eq hleft, streamDecode_eq hright]
  by_cases hfail : rst = .error ∨ d.produced = 0
  · rw [if_pos hfail, if_pos hfail]
    exact .done ⟨rfl, hd.mem, hd.dev, nofun⟩
  · rw [if_neg hfail, if_neg hfail]
    refine .again ⟨rfl, hd.mem, hd.dev, ⟨_, hd.ctx⟩, hd.count, ?_, hst.start, hst.le⟩
    have hroom := hd.room
    have hcount := hd.count
    show st.rawPos + d.produced ≤ _
    omega

theorem unpacking_round (hio : Receives io src body dst h.rawSize.toNat Ok)
    {st : StreamLoop} (hst : Unpacking Ok dst h st m i) :
    Abreast (fun st st' m i => st = st' ∧ Unpacking Ok dst h st m i) (Unpacked Ok h)
      (streamRound ⟨b, io, crc⟩ h src algo st m)
      (streamRound ⟨b, bodyIo body, crc⟩ h src algo st i) := by
  by_cases hgo : h.rawSize.toNat ≤ st.rawPos
  · rw [stream_finish hgo, stream_finish hgo]
    exact .done ⟨rfl, hst.mem, hst.dev, fun _ _ =>
      hst.pos.trans (le_antisymm hst.bound hgo)⟩
  by_cases hfetch : 0 < remainLen h st.srcPos
  · obtain ⟨hmore, hshort⟩ := (fetch_iff hst.start hst.le).mp hfetch
    have hn := nextRead_eq hst.start hst.le hshort
    have hpos : 0 < nextRead h st := by
      unfold cmprsReadSize at hn
      omega
    have hle : st.fetched + nextRead h st ≤ h.pkgSize.toNat := by omega
    obtain ⟨dev', hread, hok'⟩ := hio.read _ m.dev st.fetched (nextRead h st) hst.dev hpos
      (nextRead_le h st) (hle.trans_lt h.pkgSize.toNat_lt)
    rw [show srcReadPos + st.fetched = st.srcPos from Nat.add_sub_cancel' hst.start] at hread
    have hideal : (bodyIo body).read src st.srcPos (nextRead h st) i.dev =
        (readSlice body st.fetched (nextRead h st), i.dev) := rfl
    rw [stream_fetch hgo hfetch, stream_fetch hgo hfetch]
    cases hbody : readSlice body st.fetched (nextRead h st) with
    | none =>
        rw [hbody] at hread hideal
        have hleft : fwPkgRead ⟨b, io, crc⟩ src st.srcPos st.win (nextRead h st) algo
            (m.record [.filled st.win.len (nextRead h st)]) = _ := fwPkgRead_fail hread
        have hright : fwPkgRead ⟨b, bodyIo body, crc⟩ src st.srcPos st.win (nextRead h st)
            algo (i.record [.filled st.win.len (nextRead h st)]) = _ := fwPkgRead_fail hideal
        have hlog : acceptedBytes (i.log ++ [.filled st.win.len (nextRead h st)] ++
            [.read src.target st.srcPos (nextRead h st) none]) = acceptedBytes i.log := by
          simp [acceptedBytes]
        rw [hleft, hright]
        exact .done ⟨rfl, hst.mem, hlog ▸ hok', nofun⟩
    | some cipher =>
        rw [hbody] at hread hideal
        generalize hwin : (if b.usingCompression = true then st.win
          else st.win.clobber cipher.1) = win
        rcases hplain : algo.crypt.decrypt (readCells win.cells win.len (nextRead h st))
          cipher m.mem with ⟨⟨r, plain⟩, k⟩
        have hplain' : algo.crypt.decrypt (readCells win.cells win.len (nextRead h st))
            cipher i.mem = ((r, plain), k) := hst.mem ▸ hplain
        have hleft : fwPkgRead ⟨b, io, crc⟩ src st.srcPos st.win (nextRead h st) algo
            (m.record [.filled st.win.len (nextRead h st)]) = _ :=
          fwPkgRead_read hwin hread hplain
        have hright : fwPkgRead ⟨b, bodyIo body, crc⟩ src st.srcPos st.win (nextRead h st)
            algo (i.record [.filled st.win.len (nextRead h st)]) = _ :=
          fwPkgRead_read hwin hideal hplain'
        have hlog : acceptedBytes (i.log ++ [.filled st.win.len (nextRead h st)] ++
            [.read src.target st.srcPos (nextRead h st) (some cipher.1),
              .decrypted plain.1]) =
              acceptedBytes i.log := by
          simp [acceptedBytes]
        rw [hleft, hright]
        by_cases hr : r = .eok
        · rw [if_pos hr]
          refine unpacking_decode hio ⟨rfl, ?_, hst.ctx, ?_, hst.bound, ?_, ?_⟩
          · exact hlog ▸ hok'
          · exact (congrArg List.length hlog).trans hst.pos
          · exact hst.start.trans (Nat.le_add_right _ _)
          · have hstart := hst.start
            unfold StreamLoop.fetched at hle ⊢
            show st.srcPos + nextRead h st - srcReadPos ≤ _
            omega
        · rw [if_neg hr]
          exact .done ⟨rfl, rfl, hlog ▸ hok', nofun⟩
  by_cases hend : remainLen h st.srcPos < 0 ∨ st.win.len = 0
  · rw [stream_exhausted hgo hfetch hend, stream_exhausted hgo hfetch hend]
    exact .done ⟨rfl, hst.mem, hst.dev, nofun⟩
  · rw [stream_drain hgo hfetch hend, stream_drain hgo hfetch hend]
    exact unpacking_decode hio hst

/-! ## The pass -/

/-- What the write pass over ideal storage delivers of a body, from the codec memory `k`. -/
def unpack (b : Build) (crc : CrcLib) (algo : AlgoContext κ) (h : FwInfo) (src dst : Handle)
    (body : List UInt8) (k : κ) : Option (List UInt8) :=
  let r := fwStreamProcess ⟨b, bodyIo body, crc⟩ h src algo
    (.write ⟨dst, 0, h.rawSize.toNat⟩) ⟨(), k, h, []⟩
  if r.1.1 then some (acceptedBytes r.2.log) else none

/-- The write pass over storage that receives the image answers as over ideal storage,
and the storage has taken what that delivers. -/
theorem fwStreamProcess_receives (b : Build) (crc : CrcLib) (algo : AlgoContext κ)
    (hio : Receives io src body dst h.rawSize.toNat Ok) (hok : Ok [] m.dev) :
    ∃ ok pc m' out,
      fwStreamProcess ⟨b, io, crc⟩ h src algo (.write ⟨dst, 0, h.rawSize.toNat⟩) m =
        ((ok, pc), m') ∧
      Ok out m'.dev ∧
      unpack b crc algo h src dst body m.mem = (if ok then some out else none) ∧
      (ok = true → out.length = h.rawSize.toNat) := by
  have hround (st st' : StreamLoop) (m : Machine σ κ) (i : Machine Unit κ)
      (hI : st = st' ∧ Unpacking Ok dst h st m i) :
      Abreast (fun st st' m i => st = st' ∧ Unpacking Ok dst h st m i) (Unpacked Ok h)
        (streamRound ⟨b, io, crc⟩ h src algo st m)
        (streamRound ⟨b, bodyIo body, crc⟩ h src algo st' i) := by
    obtain ⟨rfl, hst⟩ := hI
    exact unpacking_round hio hst
  have hstart : Unpacking Ok dst h ⟨srcReadPos, 0, .empty, .write ⟨dst, 0, h.rawSize.toNat⟩⟩
      m (⟨(), m.mem, h, []⟩ : Machine Unit κ) :=
    ⟨rfl, hok, ⟨0, rfl⟩, rfl, Nat.zero_le _, le_rfl, Nat.zero_le _⟩
  obtain ⟨r, r', m', i', hleft, hright, hend⟩ | ⟨m', i', hspent, -⟩ :=
    iterate_abreast hround (h.rawSize.toNat + 1) ⟨rfl, hstart⟩
  · obtain rfl := hend.eq
    have hreal : fwStreamProcess ⟨b, io, crc⟩ h src algo
        (.write ⟨dst, 0, h.rawSize.toNat⟩) m =
        (r.getD (false, .write ⟨dst, 0, h.rawSize.toNat⟩), m') := by
      simp only [fwStreamProcess, streamProcess, Prog.run_bind, hleft, Prog.run_pure,
        Option.join_some]
    have hideal : fwStreamProcess ⟨b, bodyIo body, crc⟩ h src algo
        (.write ⟨dst, 0, h.rawSize.toNat⟩) (⟨(), m.mem, h, []⟩ : Machine Unit κ) =
        (r.getD (false, .write ⟨dst, 0, h.rawSize.toNat⟩), i') := by
      simp only [fwStreamProcess, streamProcess, Prog.run_bind, hright, Prog.run_pure,
        Option.join_some]
    refine ⟨(r.getD (false, .write ⟨dst, 0, h.rawSize.toNat⟩)).1, _, m',
      acceptedBytes i'.log, hreal, hend.dev, ?_, fun hok' => ?_⟩
    · rw [unpack, hideal]
    · rcases r with _ | ⟨ok, pc⟩
      · exact absurd hok' Bool.false_ne_true
      · obtain rfl : ok = true := hok'
        exact hend.whole pc rfl
  · obtain ⟨r, m'', hends⟩ := streamProcess_ends ⟨b, io, crc⟩ h src algo
      (.write ⟨dst, 0, h.rawSize.toNat⟩) m
    rw [hspent] at hends
    exact absurd (congrArg Prod.fst hends) (by simp)

end Qboot
