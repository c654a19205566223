import Qboot.Library.Simulation
import Qboot.Proofs.BodyDecryption
import Qboot.Proofs.CodecLookup
import Qboot.Proofs.FileUpdate
import Qboot.Proofs.WritePass
/-!
# The checking pass against the write pass

The package is decoded twice, once to check the CRC of the image and once to write
it.  For stages that make nothing of the purpose of a pass, the checking pass over any
storage keeps abreast of the write pass over ideal storage: it ends with the same
answer, and with the CRC of what that pass delivers.
-/

namespace Qboot

open Library Bytes Machine Loop

variable {σ κ κ' : Type}

/-- From memories related by `K`, the two pairs of stages answer alike, whatever the
purposes of the passes. -/
structure StagesAgree (K : κ → κ' → Prop) (algo : AlgoContext κ) (algo' : AlgoContext κ') :
    Prop where
  decrypt : ∀ {len : Nat} (old inp : Block len),
    Mirrors K (algo.crypt.decrypt old inp) (algo'.crypt.decrypt old inp) fun _ => K
  decompress : ∀ (inp : List UInt8) (outLen : Nat) (step : StreamStatus) (ctx : StreamCtx)
    (purpose : StreamPurpose),
    Mirrors K (algo.cmprs.decompress inp outLen step ctx)
      (algo'.cmprs.decompress inp outLen step { ctx with purpose := purpose }) fun _ => K

/-- While the storage state is in `Ok`, `src` serves the body behind the header. -/
structure Feeds (io : IoOps σ) (src : Handle) (body : List UInt8) (Ok : σ → Prop) :
    Prop where
  read : ∀ dev off len, Ok dev → 0 < len → len ≤ cmprsReadSize → off + len < 2 ^ 32 →
    ∃ dev', io.read src (srcReadPos + off) len dev = (readSlice body off len, dev') ∧ Ok dev'

variable {K : κ → κ' → Prop} {io : IoOps σ} {b : Build} {crc : CrcLib}
  {algo : AlgoContext κ} {algo' : AlgoContext κ'} {h : FwInfo} {src dst : Handle}
  {body : List UInt8} {Ok : σ → Prop} {m : Machine σ κ} {i : Machine Unit κ'}
  {ctx : StreamCtx}

theorem acceptedBytes_quiet {log es : List Event} (hes : acceptedBytes es = []) :
    acceptedBytes (log ++ es) = acceptedBytes log := by
  rw [acceptedBytes_append, hes, List.append_nil]

/-! ## The inner loop -/

def StreamCtx.forWrite (ctx : StreamCtx) : StreamCtx := { ctx with purpose := .write }

def DecState.forWrite (dst : Handle) (pos size : Nat) (d : DecState) : DecState :=
  { d with ctx := .write ⟨dst, pos, size⟩ }

/-- The checking run has taken the CRC of what the ideal run has delivered, `start` bytes
of it before this loop, and their variables are otherwise the same. -/
structure Checking (K : κ → κ' → Prop) (crc : CrcLib) (Ok : σ → Prop) (dst : Handle)
    (size start : Nat) (d d' : DecState) (m : Machine σ κ) (i : Machine Unit κ') : Prop where
  mem : K m.mem i.mem
  dev : Ok m.dev
  same : d' = d.forWrite dst (acceptedBytes i.log).length size
  acc : d.ctx = .crc (crc.cycCal 0xFFFFFFFF (acceptedBytes i.log))
  count : (acceptedBytes i.log).length = start + d.produced
  room : start + d.produced + d.remainingOut ≤ size

theorem checking_round {size start : Nat} (hstages : StagesAgree K algo algo')
    {d d' : DecState} (hd : Checking K crc Ok dst size start d d' m i) :
    Abreast (Checking K crc Ok dst size start)
      (fun r r' m i => r.1 = r'.1 ∧ Checking K crc Ok dst size start r.2 r'.2 m i)
      (decompressRound ⟨b, io, crc⟩ algo ctx d m)
      (decompressRound ⟨b, bodyIo body, crc⟩ algo' ctx.forWrite d' i) := by
  obtain ⟨hmem, hdev, rfl, hacc, hcount, hroom⟩ := hd
  generalize hpos : (acceptedBytes i.log).length = pos at hcount
  by_cases hgo : d.remainingOut = 0 ∨ d.Waits ctx
  · have hgo' : (d.forWrite dst pos size).remainingOut = 0 ∨
        (d.forWrite dst pos size).Waits ctx.forWrite := hgo
    rw [round_end hgo, round_end hgo']
    exact .done ⟨rfl, hmem, hdev, by rw [hpos], hacc, hpos.trans hcount, hroom⟩
  have hgo' : ¬((d.forWrite dst pos size).remainingOut = 0 ∨
      (d.forWrite dst pos size).Waits ctx.forWrite) := hgo
  obtain ⟨rst, step, out, k, hcall⟩ := exists_answers algo ctx d m.mem
  obtain ⟨k', hcall', hk⟩ : ∃ k', Answers algo' ctx.forWrite (d.forWrite dst pos size) i.mem
      rst step out k' ∧ K k k' := by
    obtain ⟨hanswer, hk⟩ := hstages.decompress d.win.bytes d.curCap d.step (d.callCtx ctx)
      .write m.mem i.mem hmem
    unfold Answers at hcall
    rw [hcall] at hanswer hk
    exact ⟨_, Prod.ext hanswer.symm rfl, hk⟩
  have hquiet : acceptedBytes (i.afterCall ctx.forWrite (d.forWrite dst pos size) k').log =
      acceptedBytes i.log := acceptedBytes_quiet rfl
  by_cases hstop : (d.called b step out.1).Stops rst step
  · have hstop' : ((d.forWrite dst pos size).called b step out.1).Stops rst step := hstop
    rw [round_stop hgo hcall hstop, round_stop hgo' hcall' hstop']
    refine .done ⟨rfl, hk, hdev, ?_, ?_, ?_, hroom⟩
    · rw [hquiet, hpos]
      rfl
    · rw [hquiet]
      exact hacc
    · rw [hquiet, hpos]
      exact hcount
  have hrun' : ¬((d.forWrite dst pos size).called b step out.1).Stops rst step := hstop
  obtain ⟨rfl, -, hprod, -⟩ := not_stops_iff.mp hstop
  have hlen : (out.1.take step.produced).length = step.produced := by
    rw [List.length_take, out.2, Nat.min_eq_left hprod]
  have hcap : d.curCap ≤ d.remainingOut := Nat.min_le_left _ _
  have hwrite : (bodyIo body).write dst pos (out.1.take step.produced) i.dev =
      (true, i.dev) := rfl
  rw [round_crc hgo hcall hstop hacc, round_write_ok hgo' hcall' hrun' rfl hwrite]
  have hlog : acceptedBytes ((i.afterCall ctx.forWrite (d.forWrite dst pos size) k').log ++
      [.wrote dst.target pos (out.1.take step.produced) true,
        .accepted (out.1.take step.produced) step.consumed]) =
      acceptedBytes i.log ++ out.1.take step.produced := by
    rw [acceptedBytes_append, hquiet]
    simp [acceptedBytes]
  refine .again ⟨hk, hdev, ?_, ?_, ?_, ?_⟩
  · simp only [Machine.record, hlog, List.length_append, hpos]
    rfl
  · simp only [Machine.record, hlog, crc.cycCal_append]
    rfl
  · calc _ = (acceptedBytes i.log ++ out.1.take step.produced).length :=
          congrArg List.length hlog
      _ = start + d.produced + step.produced := by
        rw [List.length_append, hlen, hpos, hcount]
      _ = _ := Nat.add_assoc _ _ _
  · show start + (d.produced + step.produced) + (d.remainingOut - step.produced) ≤ size
    omega

theorem checking_inner {size start : Nat} (hstages : StagesAgree K algo algo')
    {win : CmprsBuf} {pc pc' : ProcCtx}
    (hd : Checking K crc Ok dst size start ⟨win, ctx.rawRemaining, 0, 0, .zero, pc⟩
      ⟨win, ctx.rawRemaining, 0, 0, .zero, pc'⟩ m i) :
    ∃ rst d d' m' i',
      decompressWithConsumer ⟨b, io, crc⟩ algo ctx win pc m = (some (rst, d), m') ∧
      decompressWithConsumer ⟨b, bodyIo body, crc⟩ algo' ctx.forWrite win pc' i =
        (some (rst, d'), i') ∧
      Checking K crc Ok dst size start d d' m' i' := by
  obtain ⟨⟨rst, d⟩, ⟨rst', d'⟩, m', i', hleft, hright, hrst, hend⟩ | ⟨m', i', hspent, -⟩ :=
    iterate_abreast (fun _ _ _ _ => checking_round hstages)
      (ctx.rawRemaining + win.len + 1) hd
  · obtain rfl : rst = rst' := hrst
    exact ⟨rst, d, d', m', i', hleft, hright, hend⟩
  · obtain ⟨r, m'', hends⟩ := decompress_ends ⟨b, io, crc⟩ algo ctx win pc m
    unfold decompressWithConsumer at hends
    rw [hspent] at hends
    exact absurd (congrArg Prod.fst hends) (by simp)

def StreamLoop.forWrite (dst : Handle) (pos size : Nat) (st : StreamLoop) : StreamLoop :=
  { st with ctx := .write ⟨dst, pos, size⟩ }

/-! ## The outer loop -/

structure CheckingBody (K : κ → κ' → Prop) (crc : CrcLib) (Ok : σ → Prop) (dst : Handle)
    (h : FwInfo) (st st' : StreamLoop) (m : Machine σ κ) (i : Machine Unit κ') : Prop where
  mem : K m.mem i.mem
  dev : Ok m.dev
  same : ∃ pos, st' = st.forWrite dst pos h.rawSize.toNat
  acc : st.ctx = .crc (crc.cycCal 0xFFFFFFFF (acceptedBytes i.log))
  pos : (acceptedBytes i.log).length = st.rawPos
  bound : st.rawPos ≤ h.rawSize.toNat
  start : srcReadPos ≤ st.srcPos
  le : st.fetched ≤ h.pkgSize.toNat

/-- What the passes leave: the same answer, and the CRC of the image if it is positive. -/
structure CheckedBody (crc : CrcLib) (Ok : σ → Prop) (r r' : Option (Bool × ProcCtx))
    (m : Machine σ κ) (i : Machine Unit κ') : Prop where
  dev : Ok m.dev
  eq : r.map Prod.fst = r'.map Prod.fst
  acc : ∀ pc, r = some (true, pc) →
    pc = .crc (crc.cycCal 0xFFFFFFFF (acceptedBytes i.log))

theorem checkingBody_decode (hstages : StagesAgree K algo algo') {st st' : StreamLoop}
    (hst : CheckingBody K crc Ok dst h st st' m i) :
    Abreast (CheckingBody K crc Ok dst h) (CheckedBody crc Ok)
      (streamDecode ⟨b, io, crc⟩ h algo st m)
      (streamDecode ⟨b, bodyIo body, crc⟩ h algo' st' i) := by
  obtain ⟨hmem, hdev, ⟨pos, rfl⟩, hacc, hpos, hbound, hstart, hle⟩ := hst
  have hinner : Checking K crc Ok dst h.rawSize.toNat st.rawPos
      ⟨st.win, (streamCtx h st).rawRemaining, 0, 0, .zero, st.ctx.setRawPos st.rawPos⟩
      ⟨st.win, (streamCtx h st).rawRemaining, 0, 0, .zero,
        .write ⟨dst, st.rawPos, h.rawSize.toNat⟩⟩ m i := by
    refine ⟨hmem, hdev, ?_, ?_, hpos, ?_⟩
    · rw [hpos]
      rfl
    · rw [hacc]
      rfl
    · show st.rawPos + 0 + (h.rawSize.toNat - st.rawPos) ≤ h.rawSize.toNat
      omega
  obtain ⟨rst, d, d', m', i', hleft, hright, hd⟩ := checking_inner hstages hinner
  have hright' : decompressWithConsumer ⟨b, bodyIo body, crc⟩ algo'
      (streamCtx h (st.forWrite dst pos h.rawSize.toNat)) st.win
      ((st.forWrite dst pos h.rawSize.toNat).ctx.setRawPos st.rawPos) i =
        (some (rst, d'), i') := hright
  rw [streamDecode_eq hleft, streamDecode_eq hright']
  obtain ⟨hmem, hdev, rfl, hacc, hcount, hroom⟩ := hd
  by_cases hfail : rst = .error ∨ d.produced = 0
  · have hfail' : rst = .error ∨
        (d.forWrite dst (acceptedBytes i'.log).length h.rawSize.toNat).produced = 0 := hfail
    rw [if_pos hfail, if_pos hfail']
    exact .done ⟨hdev, rfl, by simp⟩
  · have hgo' : ¬(rst = .error ∨
        (d.forWrite dst (acceptedBytes i'.log).length h.rawSize.toNat).produced = 0) := hfail
    rw [if_neg hfail, if_neg hgo']
    refine .again ⟨hmem, hdev, ⟨_, rfl⟩, hacc, hcount, ?_, hstart, hle⟩
    show st.rawPos + d.produced ≤ _
    omega

theorem checkingBody_round (hio : Feeds io src body Ok) (hstages : StagesAgree K algo algo')
    {st st' : StreamLoop} (hst : CheckingBody K crc Ok dst h st st' m i) :
    Abreast (CheckingBody K crc Ok dst h) (CheckedBody crc Ok)
      (streamRound ⟨b, io, crc⟩ h src algo st m)
      (streamRound ⟨b, bodyIo body, crc⟩ h src algo' st' i) := by
  have hbody := hst
  obtain ⟨hmem, hdev, ⟨pos, rfl⟩, hacc, hpos, hbound, hstart, hle⟩ := hst
  by_cases hgo : h.rawSize.toNat ≤ st.rawPos
  · have hgo' : h.rawSize.toNat ≤ (st.forWrite dst pos h.rawSize.toNat).rawPos := hgo
    rw [stream_finish hgo, stream_finish hgo']
    refine .done ⟨hdev, rfl, fun pc hpc => ?_⟩
    rw [← hacc]
    exact (Prod.mk.inj (Option.some.inj hpc)).2.symm
  have hgo' : ¬h.rawSize.toNat ≤ (st.forWrite dst pos h.rawSize.toNat).rawPos := hgo
  by_cases hfetch : 0 < remainLen h st.srcPos
  · obtain ⟨hmore, hshort⟩ := (fetch_iff hstart hle).mp hfetch
    have hfetch' : 0 < remainLen h (st.forWrite dst pos h.rawSize.toNat).srcPos := hfetch
    have hn := nextRead_eq hstart hle hshort
    have hsome : 0 < nextRead h st := by
      unfold cmprsReadSize at hn
      omega
    have hend : st.fetched + nextRead h st ≤ h.pkgSize.toNat := by omega
    obtain ⟨dev', hread, hok'⟩ := hio.read m.dev st.fetched (nextRead h st) hdev hsome
      (nextRead_le h st) (hend.trans_lt h.pkgSize.toNat_lt)
    rw [show srcReadPos + st.fetched = st.srcPos from Nat.add_sub_cancel' hstart] at hread
    have hideal : (bodyIo body).read src st.srcPos (nextRead h st) i.dev =
        (readSlice body st.fetched (nextRead h st), i.dev) := rfl
    rw [stream_fetch hgo hfetch, stream_fetch hgo' hfetch']
    cases hslice : readSlice body st.fetched (nextRead h st) with
    | none =>
        rw [hslice] at hread hideal
        have hleft : fwPkgRead ⟨b, io, crc⟩ src st.srcPos st.win (nextRead h st) algo
            (m.record [.filled st.win.len (nextRead h st)]) = _ := fwPkgRead_fail hread
        have hright : fwPkgRead ⟨b, bodyIo body, crc⟩ src
            (st.forWrite dst pos h.rawSize.toNat).srcPos
            (st.forWrite dst pos h.rawSize.toNat).win
            (nextRead h (st.forWrite dst pos h.rawSize.toNat)) algo'
            (i.record [.filled (st.forWrite dst pos h.rawSize.toNat).win.len
              (nextRead h (st.forWrite dst pos h.rawSize.toNat))]) = _ :=
          fwPkgRead_fail hideal
        rw [hleft, hright]
        exact .done ⟨hok', rfl, by simp⟩
    | some cipher =>
        rw [hslice] at hread hideal
        generalize hwin : (if b.usingCompression = true then st.win
          else st.win.clobber cipher.1) = win
        rcases hplain : algo.crypt.decrypt (readCells win.cells win.len (nextRead h st))
          cipher m.mem with ⟨⟨r, plain⟩, k⟩
        obtain ⟨k', hplain', hk⟩ : ∃ k', algo'.crypt.decrypt
            (readCells win.cells win.len (nextRead h st)) cipher i.mem =
              ((r, plain), k') ∧ K k k' := by
          obtain ⟨hanswer, hk⟩ := hstages.decrypt
            (readCells win.cells win.len (nextRead h st)) cipher m.mem i.mem hmem
          rw [hplain] at hanswer hk
          exact ⟨_, Prod.ext hanswer.symm rfl, hk⟩
        have hleft : fwPkgRead ⟨b, io, crc⟩ src st.srcPos st.win (nextRead h st) algo
            (m.record [.filled st.win.len (nextRead h st)]) = _ :=
          fwPkgRead_read hwin hread hplain
        have hright : fwPkgRead ⟨b, bodyIo body, crc⟩ src
            (st.forWrite dst pos h.rawSize.toNat).srcPos
            (st.forWrite dst pos h.rawSize.toNat).win
            (nextRead h (st.forWrite dst pos h.rawSize.toNat)) algo'
            (i.record [.filled (st.forWrite dst pos h.rawSize.toNat).win.len
              (nextRead h (st.forWrite dst pos h.rawSize.toNat))]) = _ :=
          fwPkgRead_read hwin hideal hplain'
        have hlog : acceptedBytes (i.log ++ [.filled st.win.len (nextRead h st)] ++
            [.read src.target st.srcPos (nextRead h st) (some cipher.1),
              .decrypted plain.1]) =
              acceptedBytes i.log := by
          rw [acceptedBytes_quiet rfl, acceptedBytes_quiet rfl]
        rw [hleft, hright]
        by_cases hr : r = .eok
        · rw [if_pos hr]
          refine checkingBody_decode hstages ⟨hk, hok', ⟨pos, rfl⟩, ?_, ?_, hbound, ?_, ?_⟩
          · exact hacc.trans (congrArg (fun out => ProcCtx.crc (crc.cycCal _ out)) hlog.symm)
          · exact (congrArg List.length hlog).trans hpos
          · exact hstart.trans (Nat.le_add_right _ _)
          · unfold StreamLoop.fetched at hend ⊢
            show st.srcPos + nextRead h st - srcReadPos ≤ _
            omega
        · rw [if_neg hr]
          exact .done ⟨hok', rfl, by simp⟩
  have hfetch' : ¬0 < remainLen h (st.forWrite dst pos h.rawSize.toNat).srcPos := hfetch
  by_cases hend : remainLen h st.srcPos < 0 ∨ st.win.len = 0
  · have hend' : remainLen h (st.forWrite dst pos h.rawSize.toNat).srcPos < 0 ∨
        (st.forWrite dst pos h.rawSize.toNat).win.len = 0 := hend
    rw [stream_exhausted hgo hfetch hend, stream_exhausted hgo' hfetch' hend']
    exact .done ⟨hdev, rfl, by simp⟩
  · have hend' : ¬(remainLen h (st.forWrite dst pos h.rawSize.toNat).srcPos < 0 ∨
        (st.forWrite dst pos h.rawSize.toNat).win.len = 0) := hend
    rw [stream_drain hgo hfetch hend, stream_drain hgo' hfetch' hend']
    exact checkingBody_decode hstages hbody

/-! ## The pass -/

/-- The checking pass over storage that serves a body answers as the write pass over ideal
storage, and after success it has taken the CRC of what that pass delivers. -/
theorem fwStreamProcess_checks (b : Build) (crc : CrcLib) (dst : Handle)
    (hio : Feeds io src body Ok) (hstages : StagesAgree K algo algo') {k' : κ'}
    (hmem : K m.mem k') (hok : Ok m.dev) :
    ∃ ok pc m' out,
      fwStreamProcess ⟨b, io, crc⟩ h src algo (.crc 0xFFFFFFFF) m = ((ok, pc), m') ∧
      Ok m'.dev ∧
      unpack b crc algo' h src dst body k' = (if ok then some out else none) ∧
      (ok = true → pc = .crc (crc.cycCal 0xFFFFFFFF out)) := by
  have hstart : CheckingBody K crc Ok dst h ⟨srcReadPos, 0, .empty, .crc 0xFFFFFFFF⟩
      ⟨srcReadPos, 0, .empty, .write ⟨dst, 0, h.rawSize.toNat⟩⟩ m
      (⟨(), k', h, []⟩ : Machine Unit κ') := by
    refine ⟨hmem, hok, ⟨0, rfl⟩, ?_, rfl, Nat.zero_le _, le_rfl, Nat.zero_le _⟩
    exact congrArg ProcCtx.crc (crc.cycCal_nil _).symm
  obtain ⟨r, r', m', i', hleft, hright, hend⟩ | ⟨m', i', hspent, -⟩ :=
    iterate_abreast (fun _ _ _ _ => checkingBody_round (b := b) hio hstages)
      (h.rawSize.toNat + 1) hstart
  · have hcheck : fwStreamProcess ⟨b, io, crc⟩ h src algo (.crc 0xFFFFFFFF) m =
        (r.getD (false, .crc 0xFFFFFFFF), m') := by
      simp only [fwStreamProcess, streamProcess, Prog.run_bind, hleft, Prog.run_pure,
        Option.join_some]
    have hideal : fwStreamProcess ⟨b, bodyIo body, crc⟩ h src algo'
        (.write ⟨dst, 0, h.rawSize.toNat⟩) (⟨(), k', h, []⟩ : Machine Unit κ') =
        (r'.getD (false, .write ⟨dst, 0, h.rawSize.toNat⟩), i') := by
      simp only [fwStreamProcess, streamProcess, Prog.run_bind, hright, Prog.run_pure,
        Option.join_some]
    have hanswer : (r.getD (false, .crc 0xFFFFFFFF)).1 =
        (r'.getD (false, .write ⟨dst, 0, h.rawSize.toNat⟩)).1 := by
      have heq := hend.eq
      rcases r with _ | ⟨ok, pc⟩ <;> rcases r' with _ | ⟨ok', pc'⟩ <;> simp_all
    refine ⟨(r.getD (false, .crc 0xFFFFFFFF)).1, _, m', acceptedBytes i'.log, hcheck,
      hend.dev, ?_, fun hok' => ?_⟩
    · rw [unpack, hideal, hanswer]
    · rcases r with _ | ⟨ok, pc⟩
      · exact absurd hok' Bool.false_ne_true
      · obtain rfl : ok = true := hok'
        exact hend.acc pc rfl
  · obtain ⟨r, m'', hends⟩ := streamProcess_ends ⟨b, io, crc⟩ h src algo (.crc 0xFFFFFFFF) m
    rw [hspent] at hends
    exact absurd (congrArg Prod.fst hends) (by simp)

/-! ## The built-in stages -/

variable {Z Q A : Type} {v : Vendor Z Q A} {c : Crypto} {d : Decoder}

structure SameUsed (c : Crypto) (d : Decoder) (k k' : CodecMem Z Q A) : Prop where
  aes : c = .aes → k.aes = k'.aes
  quicklz : d = .codec .quicklz → k.quicklz = k'.quicklz

theorem SameUsed.aes_run {k k' : CodecMem Z Q A} (hk : SameUsed .aes d k k') {α : Type}
    (x : Prog A α) :
    (onAes x k).1 = (onAes x k').1 ∧ SameUsed .aes d (onAes x k).2 (onAes x k').2 := by
  have hrun : x k.aes = x k'.aes := congrArg x (hk.aes rfl)
  refine ⟨?_, fun _ => ?_, hk.quicklz⟩
  · show (x k.aes).1 = (x k'.aes).1
    rw [hrun]
  · show (x k.aes).2 = (x k'.aes).2
    rw [hrun]

theorem SameUsed.quicklz_run {k k' : CodecMem Z Q A}
    (hk : SameUsed c (.codec .quicklz) k k') {α : Type} (x : Prog Q α) :
    (onQuicklz x k).1 = (onQuicklz x k').1 ∧
      SameUsed c (.codec .quicklz) (onQuicklz x k).2 (onQuicklz x k').2 := by
  have hrun : x k.quicklz = x k'.quicklz := congrArg x (hk.quicklz rfl)
  refine ⟨?_, hk.aes, fun _ => ?_⟩
  · show (x k.quicklz).1 = (x k'.quicklz).1
    rw [hrun]
  · show (x k.quicklz).2 = (x k'.quicklz).2
    rw [hrun]

theorem noneDecompress_const (b : Build) (inp : List UInt8) (outLen : Nat)
    (step : StreamStatus) :
    ∃ r, ∀ ctx (k : κ), noneDecompress b inp outLen step ctx k = (r, k) := by
  unfold noneDecompress
  dsimp only
  split <;> exact ⟨_, fun _ _ => rfl⟩

theorem fastlzDecompress_const (flz : Fastlz) (inp : List UInt8) (outLen : Nat)
    (step : StreamStatus) :
    ∃ r, ∀ ctx (k : κ), fastlzDecompress flz inp outLen step ctx k = (r, k) := by
  unfold fastlzDecompress blockDecompress
  dsimp only
  split
  · exact ⟨_, fun _ _ => rfl⟩
  split
  · exact ⟨_, fun _ _ => rfl⟩
  split
  · exact ⟨_, fun _ _ => rfl⟩
  simp only [Prog.run_bind, Prog.run_pure]
  split <;> exact ⟨_, fun _ _ => rfl⟩

/-- Of the built-in stages only GZIP looks at the purpose of a pass. -/
theorem stages_agree (b : Build) (v : Vendor Z Q A) (c : Crypto) (hd : d ≠ .codec .gzip) :
    StagesAgree (SameUsed c d) ⟨c.ops b v, d.ops b v⟩ ⟨c.ops b v, d.ops b v⟩ where
  decrypt old inp k k' hk := by
    cases c with
    | none => exact ⟨rfl, hk⟩
    | aes => exact hk.aes_run _
  decompress inp outLen step ctx purpose := by
    rcases d with (_ | _ | _ | _) | _
    · obtain ⟨r, hr⟩ := noneDecompress_const (κ := CodecMem Z Q A) b inp outLen step
      exact .const (hr ctx) (hr { ctx with purpose := purpose })
    · exact absurd rfl hd
    · exact fun k k' hk => hk.quicklz_run _
    · obtain ⟨r, hr⟩ := fastlzDecompress_const (κ := CodecMem Z Q A) v.fastlz inp outLen step
      exact .const (hr ctx) (hr { ctx with purpose := purpose })
    · exact .const (fun _ => rfl) fun _ => rfl

theorem fwAlgoInit_used (b : Build) (v : Vendor Z Q A) (c : Crypto) (d : Decoder)
    {τ : Type} (m : Machine σ (CodecMem Z Q A)) (i : Machine τ (CodecMem Z Q A)) :
    (fwAlgoInit ⟨c.ops b v, d.ops b v⟩ m).1 = true ∧
      (fwAlgoInit ⟨c.ops b v, d.ops b v⟩ i).1 = true ∧
      SameUsed c d (fwAlgoInit ⟨c.ops b v, d.ops b v⟩ m).2.mem
        (fwAlgoInit ⟨c.ops b v, d.ops b v⟩ i).2.mem := by
  cases c <;> rcases d with (_ | _ | _ | _) | _ <;>
    exact ⟨rfl, rfl, ⟨by rintro ⟨⟩ <;> rfl, by rintro ⟨⟩ <;> rfl⟩⟩

theorem findCrypto_some {b : Build} {id : Nat} {ops : CryptoOps (CodecMem Z Q A)}
    (h : findCrypto (startupTables b v) id = some ops) : ∃ c : Crypto, ops = c.ops b v := by
  unfold findCrypto at h
  split at h
  · simp at h
  simp only [startupTables] at h
  split at h
  · exact ⟨.none, (Option.some.inj h).symm⟩
  · split at h
    · exact ⟨.aes, (Option.some.inj h).symm⟩
    · simp at h
  · simp at h

theorem findCmprs_some {b : Build} {a : Nat} {ops : CmprsOps (CodecMem Z Q A)}
    (h : findCmprs (startupTables b v) (a &&& algoCmprsMask) = some ops) :
    ∃ d : Decoder, ops = d.ops b v ∧ a &&& algoCmprsMask = (d.ops b v).cmprsId := by
  unfold findCmprs at h
  generalize hidx : cmprsIdToIndex (a &&& algoCmprsMask) = idx at h
  split at h
  · simp at h
  next hlt =>
  have hfield : a &&& algoCmprsMask = idx <<< 8 := by
    rw [← cmprsField_shift, ← cmprsIdToIndex_eq (by rw [hidx]; exact not_le.mp hlt), hidx]
  simp only [startupTables] at h
  split at h
  · exact ⟨.codec .none, (Option.some.inj h).symm, hfield⟩
  · split at h
    · exact ⟨.codec .gzip, (Option.some.inj h).symm, hfield⟩
    · simp at h
  · split at h
    · exact ⟨.codec .quicklz, (Option.some.inj h).symm, hfield⟩
    · simp at h
  · split at h
    · exact ⟨.codec .fastlz, (Option.some.inj h).symm, hfield⟩
    · simp at h
  · split at h
    · exact ⟨.hpatchlite, (Option.some.inj h).symm, hfield⟩
    · simp at h
  · simp at h

theorem fwGetAlgoContext_startup {info : FwInfo} {algo : AlgoContext (CodecMem Z Q A)}
    {b : Build} (h : fwGetAlgoContext (startupTables b v) info = some algo) :
    ∃ (c : Crypto) (d : Decoder), algo = ⟨c.ops b v, d.ops b v⟩ ∧
      info.algo.toNat &&& algoCmprsMask = (d.ops b v).cmprsId := by
  obtain ⟨hcrypt, hcmprs⟩ := fwGetAlgoContext_some.mp h
  obtain ⟨c, hc⟩ := findCrypto_some hcrypt
  obtain ⟨d, hd, hfield⟩ := findCmprs_some hcmprs
  refine ⟨c, d, ?_, hfield⟩
  cases algo
  rw [← hc, ← hd]

theorem appCrcCheck_feeds {env : Env σ (CodecMem Z Q A)} {src : Handle}
    {body : List UInt8} {Ok : σ → Prop} {m : Machine σ (CodecMem Z Q A)} {info : FwInfo}
    (htables : env.tables = startupTables env.build v)
    (hgzip : info.algo.toNat &&& algoCmprsMask ≠ algoCmprsGzip)
    (hio : Feeds env.io src body Ok) (hok : Ok m.dev) (dst : Handle)
    (k : CodecMem Z Q A) :
    ∃ ok m', appCrcCheck env src info m = (ok, m') ∧ Ok m'.dev ∧
      (ok = true ↔ ∃ image, imageOf env info src dst body k = some image ∧
        env.crc.whole image = info.rawCrc) := by
  unfold appCrcCheck imageOf
  cases halgo : fwGetAlgoContext env.tables info with
  | none => exact ⟨false, m, rfl, hok, by simp⟩
  | some algo =>
      obtain ⟨c, d, rfl, hfield⟩ := fwGetAlgoContext_startup (htables ▸ halgo)
      have hd : d ≠ .codec .gzip := by
        rintro rfl
        exact hgzip hfield
      obtain ⟨hinit, hideal, hused⟩ := fwAlgoInit_used env.build v c d m
        (⟨(), k, info, []⟩ : Machine Unit (CodecMem Z Q A))
      have hdev : Ok (fwAlgoInit ⟨c.ops env.build v, d.ops env.build v⟩ m).2.dev := by
        rw [(fwAlgoInit_mem (i := m) _ rfl).2.2]
        exact hok
      obtain ⟨ok, pc, m', out, hpass, hok', hout, hcrc⟩ := fwStreamProcess_checks
        (h := info) env.build env.crc dst hio (stages_agree env.build v c hd) hused hdev
      have hend : Ok (fwAlgoDeinit ⟨c.ops env.build v, d.ops env.build v⟩ m').2.dev := by
        rw [fwAlgoDeinit_dev]
        exact hok'
      simp only [Prog.run_bind, hinit, hideal, if_true, hpass, hout, Prog.run_pure]
      refine ⟨_, _, rfl, hend, ?_⟩
      cases ok with
      | false => simp
      | true =>
          rw [hcrc rfl]
          simp [ProcCtx.crcIs, CrcLib.whole]

/-- A package that is not compressed with GZIP passes the application check exactly if it
decodes to an image with the announced CRC; neither the memory that earlier passes left
nor the destination matters. -/
theorem appCrcCheck_iff_image {env : Env σ (CodecMem Z Q A)} {src : Handle}
    {body : List UInt8} {Ok : σ → Prop} {m : Machine σ (CodecMem Z Q A)} {info : FwInfo}
    (htables : env.tables = startupTables env.build v)
    (hgzip : info.algo.toNat &&& algoCmprsMask ≠ algoCmprsGzip)
    (hio : Feeds env.io src body Ok) (hok : Ok m.dev) (dst : Handle)
    (k : CodecMem Z Q A) :
    (appCrcCheck env src info m).1 = true ↔
      ∃ image, imageOf env info src dst body k = some image ∧
        env.crc.whole image = info.rawCrc := by
  obtain ⟨ok, m', hcheck, -, hiff⟩ := appCrcCheck_feeds htables hgzip hio hok dst k
  rw [hcheck]
  exact hiff

theorem feeds_bodyIo (src : Handle) (body : List UInt8) :
    Feeds (bodyIo body) src body fun _ => True where
  read _ off len _ _ _ _ := by
    refine ⟨(), ?_, trivial⟩
    show (readSlice body (srcReadPos + off - srcReadPos) len, ()) = _
    rw [Nat.add_sub_cancel_left]

def bodyEnv (body : List UInt8) : Env Unit (CodecMem Unit Unit Unit) where
  build := ⟨true, true, true, true, false⟩
  io := bodyIo body
  crc := crc32Lib
  parser :=
    { signRead := fun _ _ => pure none
      signWrite := fun _ _ => pure true
      signClear := fun _ _ => pure true }
  tables := startupTables ⟨true, true, true, true, false⟩ flipVendor
  hpatch :=
    { cfg := ⟨false, 0, 4096, 4096, none⟩
      malloc := fun n d => (n != 0, d)
      malloc_zero := granted_zero
      hpiPatch := .done false }
  productCode := none
  usingAppCheck := true

theorem appCrcCheck_iff_image_threeBytes :
    (appCrcCheck (bodyEnv [1, 2, 3]) ⟨.download, 0⟩ threeBytes
        ⟨(), ⟨⟨(), 0, []⟩, (), ()⟩, threeBytes, []⟩).1 = true ↔
      ∃ image, imageOf (bodyEnv [1, 2, 3]) threeBytes ⟨.download, 0⟩ ⟨.app, 0⟩ [1, 2, 3]
          ⟨⟨(), 7, [9]⟩, (), ()⟩ = some image ∧
        (bodyEnv [1, 2, 3]).crc.whole image = threeBytes.rawCrc := by
  apply appCrcCheck_iff_image (v := flipVendor) rfl
  · decide
  · exact feeds_bodyIo _ _
  · trivial

end Qboot
