import Qboot.Library.Trace
import Qboot.Model.Device
import Qboot.Proofs.StreamSteps
/-!
# Accounts of the write pass

The stream loops never lose count: the body is read and decrypted piece by piece,
at every point the buffered input is the decrypted body behind the bytes accounted
as consumed, and the output position is the number of bytes written.  Nothing is
assumed of the handlers, of the storage, or of the header.
-/

namespace Qboot

open Library Bytes Machine Loop Trace

variable {σ κ : Type}

/-! ## What a record says -/

/-- A write goes to `dst`, starts where the writes before it ended, and stays
within the image. -/
def WriteInOrder (dst : TargetId) (rawSize : Nat) (before : List Event) :
    Event → Prop
  | .wrote id off data _ =>
      id = dst ∧ off = (writtenBytes before).length ∧
        off + data.length ≤ rawSize
  | _ => True

/-- A handler is called on the decrypted body from the consumed bytes on. -/
def SeesRest (before : List Event) : Event → Prop
  | .decompress inp _ ctx =>
      ctx.consumed = consumedCount before ∧
        inp = (decryptedBytes before).drop (consumedCount before)
  | _ => True

/-- An event that is no call into a codec. -/
def Event.outsideCodec : Event → Bool
  | .decrypted _ => false
  | .decompress _ _ _ => false
  | _ => true

/-- The codec memory goes from `k₀` to `k` over the calls of a record. -/
inductive CodecRun (algo : AlgoContext κ) (k₀ : κ) : List Event → κ → Prop where
  | start : CodecRun algo k₀ [] k₀
  | other {log : List Event} {k : κ} {e : Event} (h : CodecRun algo k₀ log k)
      (he : e.outsideCodec = true) : CodecRun algo k₀ (log ++ [e]) k
  | decrypt {log : List Event} {k : κ} (h : CodecRun algo k₀ log k) {len : Nat}
      (old cipher : Block len) :
      CodecRun algo k₀ (log ++ [.decrypted (algo.crypt.decrypt old cipher k).1.2.1])
        (algo.crypt.decrypt old cipher k).2
  | decompress {log : List Event} {k : κ} (h : CodecRun algo k₀ log k)
      (inp : List UInt8) (outLen : Nat) (step : StreamStatus) (ctx : StreamCtx) :
      CodecRun algo k₀ (log ++ [.decompress inp outLen ctx])
        (algo.cmprs.decompress inp outLen step ctx k).2

/-- A read is of target `src` behind the part of the body that has been decrypted, and
stays within the body; what is decrypted is what was just read; and what is accepted is
the output of the call before it, within the counts that the call reported. -/
def FedInOrder (src : TargetId) (pkgSize : Nat) (algo : AlgoContext κ) (k₀ : κ)
    (before : List Event) : Event → Prop
  | .read id off len _ =>
      id = src ∧ off = srcReadPos + (decryptedBytes before).length ∧
        off + len ≤ srcReadPos + pkgSize
  | .decrypted plain =>
      ∃ (front : List Event) (off len : Nat) (old cipher : Block len) (k : κ),
        before = front ++ [.read src off len (some cipher.1)] ∧
          CodecRun algo k₀ before k ∧
          plain = (algo.crypt.decrypt old cipher k).1.2.1
  | .accepted out consumed =>
      ∃ front inp outLen step ctx dst off k,
        before = front ++ [.decompress inp outLen ctx, .wrote dst off out true] ∧
          CodecRun algo k₀ front k ∧
          let r := (algo.cmprs.decompress inp outLen step ctx k).1
          r.1 = .eok ∧ r.2.1.consumed = consumed ∧ consumed ≤ inp.length ∧
            r.2.1.produced ≤ outLen ∧ out = r.2.2.1.take r.2.1.produced
  | _ => True

def NoFailedWrite (log : List Event) : Prop :=
  ∀ id off data, Event.wrote id off data false ∉ log

/-! ## Balance -/

/-- The two targets of a pass, its codec, and the codec memory it starts with. -/
structure PassSetup (κ : Type) where
  src : TargetId
  dst : TargetId
  pkgSize : Nat
  rawSize : Nat
  algo : AlgoContext κ
  mem : κ

/-- A record in which every read, every write and every handler call is in order. -/
structure InOrder (p : PassSetup κ) (new : List Event) : Prop where
  feeds : Along (FedInOrder p.src p.pkgSize p.algo p.mem) new
  writes : Along (WriteInOrder p.dst p.rawSize) new
  calls : Along SeesRest new

/-- The record agrees with the buffer, the output position and the codec memory. -/
structure Balanced (p : PassSetup κ) (win : CmprsBuf) (rawPos : Nat) (k : κ)
    (new : List Event) : Prop extends InOrder p new where
  codec : CodecRun p.algo p.mem new k
  bytes : win.bytes = (decryptedBytes new).drop (consumedCount new)
  total : consumedCount new + win.len = (decryptedBytes new).length
  written : (writtenBytes new).length = rawPos
  accepted : acceptedBytes new = writtenBytes new
  noFailure : NoFailedWrite new

variable {p : PassSetup κ} {rawPos : Nat} {win : CmprsBuf} {k : κ}
  {new : List Event}

theorem balanced_nil : Balanced p .empty 0 p.mem [] where
  feeds := along_nil
  codec := .start
  writes := along_nil
  calls := along_nil
  bytes := rfl
  total := rfl
  written := rfl
  accepted := rfl
  noFailure := by simp [NoFailedWrite]

theorem Balanced.neutral (hb : Balanced p win rawPos k new) {e : Event} {k' : κ}
    (hfeed : FedInOrder p.src p.pkgSize p.algo p.mem new e)
    (hwrite : WriteInOrder p.dst p.rawSize new e) (hcall : SeesRest new e)
    (hcodec : CodecRun p.algo p.mem (new ++ [e]) k')
    (hdec : decryptedBytes [e] = []) (hwritten : writtenBytes [e] = [])
    (hacc : acceptedBytes [e] = []) (hcons : consumedCount [e] = 0)
    (hok : NoFailedWrite [e]) :
    Balanced p win rawPos k' (new ++ [e]) where
  feeds := along_concat hb.feeds hfeed
  codec := hcodec
  writes := along_concat hb.writes hwrite
  calls := along_concat hb.calls hcall
  bytes := by simpa [hdec, hcons] using hb.bytes
  total := by simpa [hdec, hcons] using hb.total
  written := by simpa [hwritten] using hb.written
  accepted := by simpa [hacc, hwritten] using hb.accepted
  noFailure := by
    intro id off data hmem
    rcases List.mem_append.mp hmem with hmem | hmem
    · exact hb.noFailure id off data hmem
    · exact hok id off data hmem

theorem Balanced.call (hb : Balanced p win rawPos k new)
    {ctx : StreamCtx} (hctx : ctx.consumed = consumedCount new) (outLen : Nat)
    (step : StreamStatus) :
    Balanced p win rawPos (p.algo.cmprs.decompress win.bytes outLen step ctx k).2
      (new ++ [.decompress win.bytes outLen ctx]) :=
  hb.neutral trivial trivial ⟨hctx, hb.bytes⟩ (hb.codec.decompress _ _ _ _) rfl rfl rfl rfl
    (by simp [NoFailedWrite])

theorem Balanced.readEvent (hb : Balanced p win rawPos k new) {off : Nat}
    (hoff : off = srcReadPos + (decryptedBytes new).length) {len : Nat}
    (hlen : off + len ≤ srcReadPos + p.pkgSize) (data : Option (List UInt8)) :
    Balanced p win rawPos k (new ++ [.read p.src off len data]) :=
  hb.neutral ⟨rfl, hoff, hlen⟩ trivial trivial (hb.codec.other rfl) rfl rfl rfl rfl
    (by simp [NoFailedWrite])

theorem Balanced.fill (hb : Balanced p win rawPos k new) {front : List Event}
    {off len : Nat} (old cipher : Block len)
    (hread : new = front ++ [.read p.src off len (some cipher.1)]) :
    Balanced p (win.fill (p.algo.crypt.decrypt old cipher k).1.2.1) rawPos
      (p.algo.crypt.decrypt old cipher k).2
      (new ++ [.decrypted (p.algo.crypt.decrypt old cipher k).1.2.1]) where
  feeds := along_concat hb.feeds ⟨front, off, len, old, cipher, k, hread, hb.codec, rfl⟩
  codec := hb.codec.decrypt old cipher
  writes := along_concat hb.writes trivial
  calls := along_concat hb.calls trivial
  bytes := by
    have hle : consumedCount new ≤ (decryptedBytes new).length := by
      rw [← hb.total]
      omega
    have hcons : consumedCount [Event.decrypted (p.algo.crypt.decrypt old cipher k).1.2.1] = 0 := rfl
    rw [CmprsBuf.bytes_fill, hb.bytes, decryptedBytes_append,
      consumedCount_append, hcons, Nat.add_zero, decryptedBytes_singleton,
      List.drop_append_of_le_length hle]
  total := by
    have h := hb.total
    have hcons : consumedCount [Event.decrypted (p.algo.crypt.decrypt old cipher k).1.2.1] = 0 := rfl
    rw [decryptedBytes_append, consumedCount_append, List.length_append, hcons,
      decryptedBytes_singleton, CmprsBuf.len_fill]
    omega
  written := by
    have h := hb.written
    simpa [writtenBytes] using h
  accepted := by
    have h := hb.accepted
    simpa [acceptedBytes, writtenBytes] using h
  noFailure := by
    intro id off data hmem
    have hmem' : Event.wrote id off data false ∈ new := by simpa using hmem
    exact hb.noFailure id off data hmem'

theorem Balanced.write (hb : Balanced p win rawPos k new)
    {data : List UInt8} (hfit : rawPos + data.length ≤ p.rawSize) (ok : Bool) :
    InOrder p (new ++ [.wrote p.dst rawPos data ok]) where
  feeds := along_concat hb.feeds trivial
  writes := along_concat hb.writes ⟨rfl, hb.written.symm, hfit⟩
  calls := along_concat hb.calls trivial

theorem Balanced.accept (hb : Balanced p win rawPos k new)
    {out : List UInt8} {n : Nat} (hfit : rawPos + out.length ≤ p.rawSize)
    (hn : n ≤ win.len) (hout : FedInOrder p.src p.pkgSize p.algo p.mem
      (new ++ [.wrote p.dst rawPos out true]) (.accepted out n)) :
    Balanced p (win.consume n) (rawPos + out.length) k
      (new ++ [.wrote p.dst rawPos out true] ++ [.accepted out n]) where
  feeds := along_concat (hb.write hfit true).feeds hout
  codec := (hb.codec.other rfl).other rfl
  writes := along_concat (hb.write hfit true).writes trivial
  calls := along_concat (hb.write hfit true).calls trivial
  bytes := by
    rw [CmprsBuf.bytes_consume hn, hb.bytes, List.drop_drop]
    simp [decryptedBytes, consumedCount]
  total := by
    have h := hb.total
    have hdec : decryptedBytes
        [.wrote p.dst rawPos out true, .accepted out n] = [] := rfl
    have hcons : consumedCount
        [.wrote p.dst rawPos out true, .accepted out n] = n := by
      simp [consumedCount]
    rw [List.append_assoc, List.singleton_append, decryptedBytes_append,
      consumedCount_append, hdec, hcons, List.append_nil, CmprsBuf.len_consume]
    omega
  written := by
    have h := hb.written
    simpa [writtenBytes] using h
  accepted := by
    have h := hb.accepted
    simpa [acceptedBytes, writtenBytes] using h
  noFailure := by
    intro id off data hmem
    have hmem' : Event.wrote id off data false ∈ new := by simpa using hmem
    exact hb.noFailure id off data hmem'

/-! ## The inner loop -/

/-- The invariant of `qbt_decompress_with_consumer` in the write pass. -/
structure WriteRound (p : PassSetup κ) (m₀ : Machine σ κ) (st : StreamState)
    (ctx : StreamCtx) (inLen : Nat) (d : DecState) (m : Machine σ κ) :
    Prop where
  traced : Traced m₀ m fun new =>
    Balanced p d.win (st.rawPos + d.produced) m.mem new ∧
      ctx.consumed + d.consumed = consumedCount new
  target : st.dst.target = p.dst
  input : d.consumed + d.win.len = inLen
  budget : st.rawPos + d.produced + d.remainingOut = p.rawSize
  state : d.ctx = .write { st with rawPos := st.rawPos + d.produced }

def WriteRoundEnd (p : PassSetup κ) (m₀ : Machine σ κ) (st : StreamState)
    (ctx : StreamCtx) (inLen : Nat) (r : RtErr × DecState) (m : Machine σ κ) :
    Prop :=
  Traced m₀ m (InOrder p) ∧ (r.1 ≠ .error → WriteRound p m₀ st ctx inLen r.2 m)

variable {pl : Platform σ} {m₀ : Machine σ κ} {st : StreamState} {ctx : StreamCtx}
  {inLen : Nat}

theorem WriteRound.inOrder {d : DecState} {m : Machine σ κ}
    (hI : WriteRound p m₀ st ctx inLen d m) : Traced m₀ m (InOrder p) :=
  hI.traced.imp fun _ h => h.1.toInOrder

theorem writeRound_step (hsep : pl.build.usingCompression = true)
    (d : DecState) (m : Machine σ κ) (hI : WriteRound p m₀ st ctx inLen d m) :
    Ends (WriteRound p m₀ st ctx inLen) DecState.work
      (WriteRoundEnd p m₀ st ctx inLen) d.work
      (decompressRound pl p.algo ctx d m) := by
  by_cases hend : d.remainingOut = 0 ∨ d.Waits ctx
  · rw [round_end hend]
    exact ⟨hI.inOrder, fun _ => hI⟩
  obtain ⟨rst, step, out, k, hcall⟩ := exists_answers p.algo ctx d m.mem
  have hmem : (p.algo.cmprs.decompress d.win.bytes d.curCap d.step (d.callCtx ctx)
      m.mem).2 = k := by
    rw [hcall]
  have hbal : Traced m₀ (m.afterCall ctx d k) fun new =>
      Balanced p d.win (st.rawPos + d.produced) k new ∧
        ctx.consumed + d.consumed = consumedCount new ∧
        ∃ front, new = front ++ [.decompress d.win.bytes d.curCap (d.callCtx ctx)] ∧
          CodecRun p.algo p.mem front m.mem :=
    hI.traced.concat rfl fun new hnew => by
      have hcount : (d.callCtx ctx).consumed = consumedCount new := hnew.2
      have hb := hnew.1.call hcount d.curCap d.step
      rw [hmem] at hb
      exact ⟨hb, by simpa [consumedCount] using hnew.2, new, rfl, hnew.1.codec⟩
  by_cases hstop : (d.called pl.build step out.1).Stops rst step
  · rw [round_stop hend hcall hstop, called_of_separate hsep]
    have hI' : WriteRound p m₀ st ctx inLen { d with step := step }
        (m.afterCall ctx d k) :=
      ⟨hbal.imp fun new hnew => ⟨hnew.1, hnew.2.1⟩, hI.target, hI.input, hI.budget,
        hI.state⟩
    exact ⟨hI'.inOrder, fun _ => hI'⟩
  obtain ⟨rfl, hcons, hprod, hprog⟩ := not_stops_iff.mp hstop
  have hlen : (out.1.take step.produced).length = step.produced := by
    rw [List.length_take, out.2]
    exact Nat.min_eq_left hprod
  have hcap : d.curCap ≤ d.remainingOut := Nat.min_le_left _ _
  have hfit : st.rawPos + d.produced + (out.1.take step.produced).length ≤
      p.rawSize := by
    have hbudget := hI.budget
    omega
  rcases hwrite : pl.io.write st.dst (st.rawPos + d.produced)
    (out.1.take step.produced) m.dev with ⟨_ | _, dev⟩
  · rw [round_write_fail hend hcall hstop hI.state hwrite]
    refine ⟨hbal.concat rfl fun new hnew => ?_, fun hne => absurd rfl hne⟩
    show InOrder p (new ++ [.wrote st.dst.target _ _ false])
    rw [hI.target]
    exact hnew.1.write hfit false
  · rw [round_write_ok hend hcall hstop hI.state hwrite,
      called_of_separate hsep]
    refine ⟨⟨hbal.concat rfl fun new hnew => ?_, hI.target, ?_, ?_, ?_⟩, ?_⟩
    · obtain ⟨hb, hcount, front, hfront, hcodec⟩ := hnew
      have hans : FedInOrder p.src p.pkgSize p.algo p.mem (new ++
          [.wrote p.dst (st.rawPos + d.produced) (out.1.take step.produced) true])
          (.accepted (out.1.take step.produced) step.consumed) := by
        refine ⟨front, d.win.bytes, d.curCap, d.step, d.callCtx ctx, p.dst,
          st.rawPos + d.produced, m.mem, ?_, hcodec, ?_⟩
        · rw [hfront, List.append_assoc]
          rfl
        · rw [hcall]
          exact ⟨rfl, rfl, by rw [CmprsBuf.length_bytes]; exact hcons, hprod, rfl⟩
      have hacc := hb.accept hfit hcons hans
      rw [List.append_assoc, hlen, Nat.add_assoc] at hacc
      rw [← hI.target] at hacc
      refine ⟨hacc, ?_⟩
      simp only [DecState.advance, consumedCount_append]
      rw [← hcount]
      simp [consumedCount, Nat.add_assoc]
    · have hinput := hI.input
      simp only [DecState.advance, CmprsBuf.len_consume]
      omega
    · have hbudget := hI.budget
      simp only [DecState.advance]
      omega
    · simp only [DecState.advance, hlen, Nat.add_assoc]
    · simp only [DecState.advance, DecState.work, CmprsBuf.len_consume]
      omega

theorem writeRound_run (pl : Platform σ)
    (hsep : pl.build.usingCompression = true) {m : Machine σ κ}
    (hI : WriteRound p m₀ st ctx win.len
      ⟨win, ctx.rawRemaining, 0, 0, .zero, .write st⟩ m) :
    ∃ r m', decompressWithConsumer pl p.algo ctx win (.write st) m = (some r, m') ∧
      WriteRoundEnd p m₀ st ctx win.len r m' :=
  iterate_rule (writeRound_step hsep) hI (Nat.lt_succ_self _)

/-! ## The outer loop -/

variable {h : FwInfo} {src dst : Handle} {algo : AlgoContext κ}

def passSetup (src dst : Handle) (h : FwInfo) (algo : AlgoContext κ)
    (m₀ : Machine σ κ) : PassSetup κ :=
  ⟨src.target, dst.target, h.pkgSize.toNat, h.rawSize.toNat, algo, m₀.mem⟩

structure WriteLoop (m₀ : Machine σ κ) (src dst : Handle) (h : FwInfo)
    (algo : AlgoContext κ) (st : StreamLoop) (m : Machine σ κ) : Prop where
  traced : Traced m₀ m fun new =>
    Balanced (passSetup src dst h algo m₀) st.win st.rawPos m.mem new ∧
      st.srcPos = srcReadPos + (decryptedBytes new).length
  bound : st.rawPos ≤ h.rawSize.toNat
  within : st.srcPos ≤ srcReadPos + h.pkgSize.toNat
  state : ∃ pos size, st.ctx = .write ⟨dst, pos, size⟩

theorem WriteLoop.filled {sl : StreamLoop} {m : Machine σ κ}
    (hI : WriteLoop m₀ src dst h algo sl m) (n : Nat) :
    Traced m₀ (m.record [.filled sl.win.len n]) fun new =>
      Balanced (passSetup src dst h algo m₀) sl.win sl.rawPos m.mem new ∧
        sl.srcPos = srcReadPos + (decryptedBytes new).length :=
  hI.traced.concat rfl fun new hnew =>
    ⟨hnew.1.neutral trivial trivial trivial (hnew.1.codec.other rfl) rfl rfl rfl rfl
      (by simp [NoFailedWrite]), by simpa [decryptedBytes] using hnew.2⟩

/-- How the write pass ends: with an answer and a record in order, and after
success the whole image has been written. -/
def WriteLoopEnd (m₀ : Machine σ κ) (src dst : Handle) (h : FwInfo)
    (algo : AlgoContext κ) (r : Option (Bool × ProcCtx)) (m : Machine σ κ) : Prop :=
  ∃ ok pc, r = some (ok, pc) ∧
    Traced m₀ m (InOrder (passSetup src dst h algo m₀)) ∧
    (ok = true → ∃ win, Traced m₀ m
      (Balanced (passSetup src dst h algo m₀) win h.rawSize.toNat m.mem))

theorem writeLoop_decode (hsep : pl.build.usingCompression = true)
    (sl : StreamLoop) (m : Machine σ κ) (hgo : ¬h.rawSize.toNat ≤ sl.rawPos)
    (hI : WriteLoop m₀ src dst h algo sl m) :
    Ends (WriteLoop m₀ src dst h algo) (StreamLoop.left h)
      (WriteLoopEnd m₀ src dst h algo) (sl.left h) (streamDecode pl h algo sl m) := by
  obtain ⟨pos, size, hpc⟩ := hI.state
  have hread : srcReadPos + sl.win.len ≤ sl.srcPos := by
    obtain ⟨new, -, hbal, hpos⟩ := hI.traced
    have htotal := hbal.total
    omega
  have hstart : WriteRound (passSetup src dst h algo m₀) m₀ ⟨dst, sl.rawPos, size⟩
      (streamCtx h sl) sl.win.len
      ⟨sl.win, (streamCtx h sl).rawRemaining, 0, 0, .zero,
        .write ⟨dst, sl.rawPos, size⟩⟩ m := by
    refine ⟨hI.traced.imp fun new hnew => ⟨hnew.1, ?_⟩, rfl, ?_, ?_, rfl⟩
    · have htotal := hnew.1.total
      have hpos := hnew.2
      simp only [streamCtx]
      omega
    · simp
    · have hbound := hI.bound
      simp only [streamCtx, passSetup]
      omega
  obtain ⟨⟨rst, d⟩, m', hrun, hend⟩ := writeRound_run pl hsep hstart
  have hrun' : decompressWithConsumer pl algo (streamCtx h sl) sl.win
      (sl.ctx.setRawPos sl.rawPos) m = (some (rst, d), m') := by
    rw [hpc]
    exact hrun
  rw [streamDecode_eq hrun']
  by_cases hfail : rst = .error ∨ d.produced = 0
  · rw [if_pos hfail]
    exact ⟨false, d.ctx, rfl, hend.1, by simp⟩
  rw [if_neg hfail]
  push Not at hfail
  obtain ⟨hrst, hprod⟩ := hfail
  have hR := hend.2 hrst
  have hbudget : sl.rawPos + d.produced + d.remainingOut = h.rawSize.toNat :=
    hR.budget
  refine ⟨⟨hR.traced.imp fun new hnew => ⟨hnew.1, ?_⟩, ?_, hI.within, ?_⟩, ?_⟩
  · show sl.srcPos = srcReadPos + (decryptedBytes new).length
    have htotal : consumedCount new + d.win.len = (decryptedBytes new).length :=
      hnew.1.total
    have hcount : sl.srcPos - srcReadPos - sl.win.len + d.consumed =
        consumedCount new := hnew.2
    have hinput : d.consumed + d.win.len = sl.win.len := hR.input
    omega
  · show sl.rawPos + d.produced ≤ h.rawSize.toNat
    omega
  · exact ⟨_, _, hR.state⟩
  · simp only [StreamLoop.left]
    omega

def WriteFetched (m₀ : Machine σ κ) (src dst : Handle) (h : FwInfo)
    (algo : AlgoContext κ) (sl : StreamLoop) (n : Nat) :
    Option CmprsBuf × Machine σ κ → Prop
  | (none, m') => Traced m₀ m' (InOrder (passSetup src dst h algo m₀))
  | (some win, m') =>
      WriteLoop m₀ src dst h algo { sl with srcPos := sl.srcPos + n, win := win } m'

theorem writeLoop_fetch (hsep : pl.build.usingCompression = true)
    (sl : StreamLoop) (m : Machine σ κ) (n : Nat)
    (hn : sl.srcPos + n ≤ srcReadPos + h.pkgSize.toNat)
    (hI : WriteLoop m₀ src dst h algo sl m) :
    WriteFetched m₀ src dst h algo sl n
      (fwPkgRead pl src sl.srcPos sl.win n algo (m.record [.filled sl.win.len n])) := by
  rcases hread : pl.io.read src sl.srcPos n m.dev with ⟨_ | cipher, dev⟩
  · have hread' : pl.io.read src sl.srcPos n
        (m.record [.filled sl.win.len n]).dev = (none, dev) := hread
    rw [fwPkgRead_fail hread']
    exact (hI.filled n).concat rfl fun new hnew =>
      (hnew.1.readEvent hnew.2 hn none).toInOrder
  have hread' : pl.io.read src sl.srcPos n
      (m.record [.filled sl.win.len n]).dev = (some cipher, dev) := hread
  generalize hold : readCells sl.win.cells sl.win.len n = old
  rcases hplain : algo.crypt.decrypt old cipher m.mem with ⟨⟨r, plain⟩, k⟩
  have hplain' : algo.crypt.decrypt (readCells sl.win.cells sl.win.len n) cipher
      (m.record [.filled sl.win.len n]).mem = ((r, plain), k) := by
    rw [hold]
    exact hplain
  have hfill (new : List Event)
      (hnew : Balanced (passSetup src dst h algo m₀) sl.win sl.rawPos m.mem new ∧
        sl.srcPos = srcReadPos + (decryptedBytes new).length) :
      Balanced (passSetup src dst h algo m₀) (sl.win.fill plain.1) sl.rawPos k
        (new ++ [.read src.target sl.srcPos n (some cipher.1), .decrypted plain.1]) := by
    have hb := (hnew.1.readEvent hnew.2 hn (some cipher.1)).fill old cipher rfl
    rw [show (passSetup src dst h algo m₀).algo.crypt.decrypt old cipher m.mem =
      ((r, plain), k) from hplain, List.append_assoc] at hb
    exact hb
  rw [fwPkgRead_read (if_pos hsep) hread' hplain']
  by_cases hr : r = .eok
  · rw [if_pos hr]
    refine ⟨(hI.filled n).concat rfl fun new hnew => ⟨hfill new hnew, ?_⟩,
      hI.bound, hn, hI.state⟩
    have hdec : decryptedBytes
        [.read src.target sl.srcPos n (some cipher.1), .decrypted plain.1] = plain.1 := by
      simp [decryptedBytes]
    rw [decryptedBytes_append, List.length_append, hdec, plain.2, hnew.2,
      Nat.add_assoc]
  · rw [if_neg hr]
    exact (hI.filled n).concat rfl fun new hnew => (hfill new hnew).toInOrder

theorem writeLoop_step (src dst : Handle) (algo : AlgoContext κ)
    (hsep : pl.build.usingCompression = true)
    (sl : StreamLoop) (m : Machine σ κ) (hI : WriteLoop m₀ src dst h algo sl m) :
    Ends (WriteLoop m₀ src dst h algo) (StreamLoop.left h)
      (WriteLoopEnd m₀ src dst h algo) (sl.left h)
      (streamRound pl h src algo sl m) := by
  have hin : Traced m₀ m (InOrder (passSetup src dst h algo m₀)) :=
    hI.traced.imp fun new hnew => hnew.1.toInOrder
  by_cases hgo : h.rawSize.toNat ≤ sl.rawPos
  · rw [stream_finish hgo]
    have hpos : sl.rawPos = h.rawSize.toNat := Nat.le_antisymm hI.bound hgo
    exact ⟨true, sl.ctx, rfl, hin,
      fun _ => ⟨sl.win, hI.traced.imp fun new hnew => hpos ▸ hnew.1⟩⟩
  by_cases hfetch : 0 < remainLen h sl.srcPos
  · rw [stream_fetch hgo hfetch]
    have hstart : srcReadPos ≤ sl.srcPos := by
      obtain ⟨new, -, -, hpos⟩ := hI.traced
      omega
    have hread := writeLoop_fetch hsep sl m (nextRead h sl)
      (nextRead_within hstart hI.within hfetch) hI
    generalize nextRead h sl = n at hread ⊢
    rcases hfetched : fwPkgRead pl src sl.srcPos sl.win n algo
      (m.record [.filled sl.win.len n]) with ⟨_ | win, m'⟩
    · rw [hfetched] at hread
      exact ⟨false, sl.ctx, rfl, hread, by simp⟩
    · rw [hfetched] at hread
      have hleft : StreamLoop.left h
          { sl with srcPos := sl.srcPos + n, win := win } = sl.left h :=
        left_congr rfl
      rw [← hleft]
      exact writeLoop_decode hsep _ m' hgo hread
  by_cases hend : remainLen h sl.srcPos < 0 ∨ sl.win.len = 0
  · rw [stream_exhausted hgo hfetch hend]
    exact ⟨false, sl.ctx, rfl, hin, by simp⟩
  · rw [stream_drain hgo hfetch hend]
    exact writeLoop_decode hsep sl m hgo hI

/-! ## The write pass -/

/-- The write pass of `qbt_fw_stream_process` ends for every handler, header,
body and storage.  It reads and decrypts the body from its start, piece behind piece
and not past its end; its writes follow one another from offset 0 and stay within the
image, every handler call is on the decrypted body from the consumed bytes on, and
success means that exactly the image has been written, as the concatenation of the
accepted outputs. -/
theorem streamProcess_write_accounts (pl : Platform σ)
    (hsep : pl.build.usingCompression = true) (h : FwInfo) (src dst : Handle)
    (algo : AlgoContext κ) (m : Machine σ κ) :
    ∃ ok pc m' new,
      streamProcess pl h src algo (.write ⟨dst, 0, h.rawSize.toNat⟩) m =
        (some (ok, pc), m') ∧
      m'.log = m.log ++ new ∧
      Along (FedInOrder src.target h.pkgSize.toNat algo m.mem) new ∧
      Along (WriteInOrder dst.target h.rawSize.toNat) new ∧
      Along SeesRest new ∧
      (ok = true → NoFailedWrite new ∧
        (writtenBytes new).length = h.rawSize.toNat ∧
        writtenBytes new = acceptedBytes new) := by
  have hI : WriteLoop m src dst h algo
      ⟨srcReadPos, 0, .empty, .write ⟨dst, 0, h.rawSize.toNat⟩⟩ m :=
    ⟨⟨[], by simp, balanced_nil, rfl⟩, Nat.zero_le _, Nat.le_add_right _ _, ⟨_, _, rfl⟩⟩
  obtain ⟨r, m', hrun, ok, pc, rfl, hin, hsucc⟩ := iterate_rule
    (fun sl m => writeLoop_step src dst algo hsep sl m) hI (Nat.lt_succ_self _)
  have hresult : streamProcess pl h src algo (.write ⟨dst, 0, h.rawSize.toNat⟩) m =
      (some (ok, pc), m') := by
    simp only [StreamLoop.left, Nat.sub_zero] at hrun
    rw [streamProcess, Prog.run_bind, hrun]
    rfl
  cases ok with
  | false =>
      obtain ⟨new, hlog, hin⟩ := hin
      exact ⟨false, pc, m', new, hresult, hlog, hin.feeds, hin.writes, hin.calls, by simp⟩
  | true =>
      obtain ⟨win, new, hlog, hbal⟩ := hsucc rfl
      exact ⟨true, pc, m', new, hresult, hlog, hbal.feeds, hbal.writes, hbal.calls,
        fun _ => ⟨hbal.noFailure, hbal.written, hbal.accepted.symm⟩⟩

def threeBytes : FwInfo :=
  { FwInfo.ofBytes (Block.ofList srcReadPos []) with rawSize := 3, pkgSize := 3 }

def gzipPlatform : Platform FlashDev where
  build := ⟨false, true, false, false, false⟩
  io := regionIo fun _ => .fal
  crc := crc32Lib

theorem threeBytes_accounts :
    ∃ ok pc m' new,
      streamProcess gzipPlatform threeBytes ⟨.download, 0⟩
          ⟨noneCryptOps gzipPlatform.build, noneCmprsOps gzipPlatform.build⟩
          (.write ⟨⟨.app, 0⟩, 0, threeBytes.rawSize.toNat⟩)
          (steadyMachine (fun _ => ⟨128, 4, fun _ => 0xFF⟩) ()) =
        (some (ok, pc), m') ∧
      m'.log = [] ++ new ∧
      Along (FedInOrder .download threeBytes.pkgSize.toNat
        ⟨noneCryptOps gzipPlatform.build, noneCmprsOps gzipPlatform.build⟩ ()) new ∧
      Along (WriteInOrder .app threeBytes.rawSize.toNat) new ∧
      Along SeesRest new ∧
      (ok = true → NoFailedWrite new ∧
        (writtenBytes new).length = threeBytes.rawSize.toNat ∧
        writtenBytes new = acceptedBytes new) :=
  streamProcess_write_accounts gzipPlatform (by decide) threeBytes _ _ _ _

end Qboot
