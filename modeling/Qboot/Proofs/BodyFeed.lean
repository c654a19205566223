import Mathlib.Data.List.Induction
import Qboot.Library.Trace
import Qboot.Model.Boot
import Qboot.Proofs.PatchFrame
import Qboot.Proofs.StreamRules
/-!
# What the decoders are fed

The bytes that a compression stage or the patcher is handed, against the pieces of
the package body that storage returned.  The streaming engine decrypts every piece in
order; the patch path hands its pieces on as they are.
-/

namespace Qboot

open Library Bytes Machine Loop Trace

variable {σ κ Z Q A : Type}

/-! ## Decryption of pieces -/

theorem length_piece (p : List UInt8) : p.length = p.length := rfl

/-- The crypto stage on one piece, with its chaining value. -/
def Crypto.apply (v : Vendor Z Q A) : Crypto → A → List UInt8 → List UInt8 × A
  | .none, a, p => (p, a)
  | .aes, a, p =>
      ((v.aes.cryptCbc a ⟨p, length_piece p⟩).1.1, (v.aes.cryptCbc a ⟨p, length_piece p⟩).2)

def Crypto.applyAll (v : Vendor Z Q A) (c : Crypto) :
    A → List (List UInt8) → List UInt8 × A
  | a, [] => ([], a)
  | a, p :: ps =>
      ((c.apply v a p).1 ++ (applyAll v c (c.apply v a p).2 ps).1,
        (applyAll v c (c.apply v a p).2 ps).2)

/-- The body that is made of `pieces`, decrypted from the initial chaining value. -/
def Crypto.decryptBody (v : Vendor Z Q A) (c : Crypto) (pieces : List (List UInt8)) :
    List UInt8 :=
  (c.applyAll v v.aes.init pieces).1

theorem Crypto.length_apply (v : Vendor Z Q A) (c : Crypto) (a : A) (p : List UInt8) :
    (c.apply v a p).1.length = p.length := by
  cases c with
  | none => rfl
  | aes => exact (v.aes.cryptCbc a ⟨p, rfl⟩).1.2

theorem Crypto.applyAll_concat (v : Vendor Z Q A) (c : Crypto) (p : List UInt8)
    (ps : List (List UInt8)) (a : A) :
    c.applyAll v a (ps ++ [p]) =
      ((c.applyAll v a ps).1 ++ (c.apply v (c.applyAll v a ps).2 p).1,
        (c.apply v (c.applyAll v a ps).2 p).2) := by
  induction ps generalizing a with
  | nil => simp [applyAll]
  | cons q ps ih => simp only [List.cons_append, applyAll, ih, List.append_assoc]

theorem Crypto.applyAll_none (v : Vendor Z Q A) (ps : List (List UInt8)) (a : A) :
    (Crypto.none.applyAll v a ps).1 = ps.flatten := by
  induction ps generalizing a with
  | nil => rfl
  | cons p ps ih =>
      rw [applyAll, List.flatten_cons, ih]
      rfl

/-! ## Recorded reads -/

/-- A read that storage answered with `bytes`. -/
structure PieceRead where
  src : Handle
  off : Nat
  bytes : List UInt8
  deriving DecidableEq

def answeredRead (h : Handle) (off : Nat) {len : Nat} : Option (Block len) → List PieceRead
  | none => []
  | some b => [⟨h, off, b.1⟩]

/-- An environment whose storage remembers what it answered to reads. -/
structure RecordingEnv (σ κ : Type) extends Env σ κ where
  reads : σ → List PieceRead
  read_adds : ∀ h off len s,
    reads (io.read h off len s).2 = reads s ++ answeredRead h off (io.read h off len s).1
  erase_keeps : ∀ h off len s, reads (io.erase h off len s).2 = reads s
  write_keeps : ∀ h off data s, reads (io.write h off data s).2 = reads s

/-- An operation of the storage beside the memory of reads. -/
def besideReads {α : Type} (x : Prog σ α) : Prog (σ × List PieceRead) α :=
  Prog.zoom Prod.fst (fun d s => (d, s.2)) x

def Env.recording (env : Env σ κ) : RecordingEnv (σ × List PieceRead) κ where
  build := env.build
  io :=
    { openTarget := fun id flags => besideReads (env.io.openTarget id flags)
      close := fun h => besideReads (env.io.close h)
      read := fun h off len s =>
        ((env.io.read h off len s.1).1, (env.io.read h off len s.1).2,
          s.2 ++ answeredRead h off (env.io.read h off len s.1).1)
      erase := fun h off len => besideReads (env.io.erase h off len)
      write := fun h off data => besideReads (env.io.write h off data)
      size := fun h => besideReads (env.io.size h)
      getEraseAlign := fun h => besideReads (env.io.getEraseAlign h) }
  crc := env.crc
  parser :=
    { signRead := fun h info => besideReads (env.parser.signRead h info)
      signWrite := fun h info => besideReads (env.parser.signWrite h info)
      signClear := fun h info => besideReads (env.parser.signClear h info) }
  tables := env.tables
  hpatch :=
    { cfg := env.hpatch.cfg
      malloc := fun n => besideReads (env.hpatch.malloc n)
      malloc_zero := fun s => env.hpatch.malloc_zero s.1
      hpiPatch := env.hpatch.hpiPatch }
  productCode := env.productCode
  usingAppCheck := env.usingAppCheck
  reads := Prod.snd
  read_adds := fun _ _ _ _ => rfl
  erase_keeps := fun _ _ _ _ => rfl
  write_keeps := fun _ _ _ _ => rfl

/-- The reads that return `pieces`, one after the other, from `pos` on. -/
def readsOf (src : Handle) : Nat → List (List UInt8) → List PieceRead
  | _, [] => []
  | pos, p :: ps => ⟨src, pos, p⟩ :: readsOf src (pos + p.length) ps

theorem readsOf_concat (src : Handle) (p : List UInt8) (ps : List (List UInt8)) (pos : Nat) :
    readsOf src pos (ps ++ [p]) =
      readsOf src pos ps ++ [⟨src, pos + ps.flatten.length, p⟩] := by
  induction ps generalizing pos with
  | nil => simp [readsOf]
  | cons q ps ih => simp [readsOf, ih, Nat.add_assoc]

/-! ## Feeding the decoder -/

/-- A handler is called on the decrypted bytes that have not been consumed. -/
def HandsRest (before : List Event) : Event → Prop
  | .decompress inp _ _ => inp = (decryptedBytes before).drop (consumedCount before)
  | _ => True

/-- A record in which `bytes` have been decrypted and handed on in order. -/
structure Hands (bytes : List UInt8) (new : List Event) : Prop where
  all : decryptedBytes new = bytes
  calls : Along HandsRest new

/-- The buffer holds what has not been consumed. -/
structure HandsFrom (bytes : List UInt8) (win : CmprsBuf) (new : List Event) : Prop
    extends Hands bytes new where
  rest : win.bytes = bytes.drop (consumedCount new)
  total : consumedCount new + win.len = bytes.length

section Record

variable {bytes : List UInt8} {win : CmprsBuf} {new : List Event}

/-- Events that no decoder sees and nothing counts. -/
def Event.unseen : Event → Bool
  | .decrypted _ => false
  | .decompress .. => false
  | .accepted .. => false
  | _ => true

theorem unseen_counts {es : List Event} (h : ∀ e ∈ es, e.unseen = true) :
    decryptedBytes es = [] ∧ consumedCount es = 0 := by
  induction es with
  | nil => exact ⟨rfl, rfl⟩
  | cons e es ih =>
      obtain ⟨hdec, hcons⟩ := ih fun e' he' => h e' (List.mem_cons_of_mem e he')
      have he := h e List.mem_cons_self
      have hsplit : e :: es = [e] ++ es := rfl
      rw [hsplit, decryptedBytes_append, consumedCount_append, hdec, hcons]
      cases e <;> first | exact ⟨rfl, rfl⟩ | cases he

theorem Hands.unseen (h : Hands bytes new) {es : List Event}
    (hes : ∀ e ∈ es, e.unseen = true) : Hands bytes (new ++ es) := by
  induction es using List.reverseRecOn with
  | nil => rwa [List.append_nil]
  | append_singleton es e ih =>
      have hhead := ih fun e' he' => hes e' (List.mem_append_left _ he')
      have he := hes e (List.mem_append_right _ (List.mem_singleton_self e))
      have hnone : decryptedBytes [e] = [] := by
        cases e <;> first | rfl | cases he
      rw [← List.append_assoc]
      refine ⟨by rw [decryptedBytes_append, hhead.all, hnone, List.append_nil],
        along_concat hhead.calls ?_⟩
      cases e <;> trivial

theorem HandsFrom.unseen (h : HandsFrom bytes win new) {es : List Event}
    (hes : ∀ e ∈ es, e.unseen = true) : HandsFrom bytes win (new ++ es) := by
  have hzero : consumedCount (new ++ es) = consumedCount new := by
    rw [consumedCount_append, (unseen_counts hes).2, Nat.add_zero]
  exact ⟨h.toHands.unseen hes, by rw [hzero]; exact h.rest, by rw [hzero]; exact h.total⟩

theorem HandsFrom.call (h : HandsFrom bytes win new) (outLen : Nat) (ctx : StreamCtx) :
    HandsFrom bytes win (new ++ [.decompress win.bytes outLen ctx]) where
  all := by
    rw [decryptedBytes_append, h.all]
    exact List.append_nil bytes
  calls := along_concat h.calls (by rw [HandsRest, h.all]; exact h.rest)
  rest := by
    rw [consumedCount_append]
    exact h.rest
  total := by
    rw [consumedCount_append]
    exact h.total

theorem HandsFrom.accept {win' : CmprsBuf} (h : HandsFrom bytes win new) (out : List UInt8)
    {k : Nat} (hk : k ≤ win.len) (hbytes : win'.bytes = win.bytes.drop k) :
    HandsFrom bytes win' (new ++ [.accepted out k]) := by
  have hcount : consumedCount (new ++ [.accepted out k]) = consumedCount new + k := by
    rw [consumedCount_append]
    simp [consumedCount]
  have hlen : win'.len = win.len - k := by
    rw [← win'.length_bytes, hbytes, List.length_drop, win.length_bytes]
  have htotal := h.total
  refine ⟨⟨?_, along_concat h.calls trivial⟩, ?_, ?_⟩
  · rw [decryptedBytes_append, h.all]
    exact List.append_nil bytes
  · rw [hcount, hbytes, h.rest, List.drop_drop]
  · rw [hcount, hlen]
    omega

theorem HandsFrom.fill {win' : CmprsBuf} (h : HandsFrom bytes win new) (plain : List UInt8)
    (hbytes : win'.bytes = win.bytes ++ plain) :
    HandsFrom (bytes ++ plain) win' (new ++ [.decrypted plain]) := by
  have hcount : consumedCount (new ++ [.decrypted plain]) = consumedCount new := by
    rw [consumedCount_append]
    rfl
  have hlen : win'.len = win.len + plain.length := by
    rw [← win'.length_bytes, hbytes, List.length_append, win.length_bytes]
  have htotal := h.total
  refine ⟨⟨?_, along_concat h.calls trivial⟩, ?_, ?_⟩
  · rw [decryptedBytes_append, h.all, decryptedBytes_singleton]
  · rw [hcount, hbytes, h.rest, List.drop_append_of_le_length (by omega)]
  · rw [hcount, hlen, List.length_append]
    omega

theorem HandsFrom.congr {win' : CmprsBuf} (h : HandsFrom bytes win new)
    (hbytes : win'.bytes = win.bytes) : HandsFrom bytes win' new := by
  have hlen : win'.len = win.len := by
    rw [← win'.length_bytes, hbytes, win.length_bytes]
  exact ⟨h.toHands, by rw [hbytes]; exact h.rest, by rw [hlen]; exact h.total⟩

end Record

/-! ## The stages -/

/-- The handler takes all of its input, or waits for some. -/
def TakesAll (ops : CmprsOps κ) : Prop :=
  ∀ inp outLen step ctx k,
    ((ops.decompress inp outLen step ctx k).1.1 = .eok →
      (ops.decompress inp outLen step ctx k).1.2.1.consumed = inp.length) ∧
    ((ops.decompress inp outLen step ctx k).1.1 = .enospc → inp = [])

/-- The stages of `algo` decrypt with `c` and leave the chaining value to it.  In a
build without separate buffers the decoder takes all of its input. -/
structure Stages (b : Build) (v : Vendor Z Q A) (c : Crypto)
    (algo : AlgoContext (CodecMem Z Q A)) : Prop where
  decrypts : ∀ {len : Nat} (old inp : Block len) k,
    b.usingCompression = true ∨ old = inp →
    ∃ plain : Block len, ∃ k', algo.crypt.decrypt old inp k = ((.eok, plain), k') ∧
      plain.1 = (c.apply v k.aes inp.1).1 ∧ k'.aes = (c.apply v k.aes inp.1).2
  keeps : ∀ inp outLen step ctx k,
    (algo.cmprs.decompress inp outLen step ctx k).2.aes = k.aes
  shared : b.usingCompression = true ∨ TakesAll algo.cmprs

section Pass

variable (env : RecordingEnv σ (CodecMem Z Q A)) (v : Vendor Z Q A) (c : Crypto)
  (src : Handle) (a : A) (m₀ : Machine σ (CodecMem Z Q A))

/-- Since `m₀` the pieces of the body have been read in order, and what has been handed
to the decoder is their decryption. -/
def Fed (m : Machine σ (CodecMem Z Q A)) : Prop :=
  ∃ pieces, env.reads m.dev = env.reads m₀.dev ++ readsOf src srcReadPos pieces ∧
    Traced m₀ m (Hands (c.applyAll v a pieces).1)

/-- The loop invariant: what has been decrypted and not consumed is in the buffer. -/
structure Feeding (pieces : List (List UInt8)) (win : CmprsBuf)
    (m : Machine σ (CodecMem Z Q A)) : Prop where
  reads : env.reads m.dev = env.reads m₀.dev ++ readsOf src srcReadPos pieces
  chain : m.mem.aes = (c.applyAll v a pieces).2
  traced : Traced m₀ m (HandsFrom (c.applyAll v a pieces).1 win)

variable {env v c src a m₀} {algo : AlgoContext (CodecMem Z Q A)}
  {pieces : List (List UInt8)}

theorem Feeding.fed {win : CmprsBuf} {m : Machine σ (CodecMem Z Q A)}
    (h : Feeding env v c src a m₀ pieces win m) : Fed env v c src a m₀ m :=
  ⟨pieces, h.reads, h.traced.imp fun _ hnew => hnew.toHands⟩

/-- The inner loop is fed, and in a build without separate buffers its window is
empty behind an output. -/
def FeedRound (env : RecordingEnv σ (CodecMem Z Q A)) (v : Vendor Z Q A) (c : Crypto)
    (src : Handle) (a : A) (m₀ : Machine σ (CodecMem Z Q A)) (pieces : List (List UInt8))
    (d : DecState) (m : Machine σ (CodecMem Z Q A)) : Prop :=
  Feeding env v c src a m₀ pieces d.win m ∧
    (env.build.usingCompression = true ∨ d.produced = 0 ∨ d.win.len = 0)

def FeedRoundEnd (env : RecordingEnv σ (CodecMem Z Q A)) (v : Vendor Z Q A) (c : Crypto)
    (src : Handle) (a : A) (m₀ : Machine σ (CodecMem Z Q A)) (pieces : List (List UInt8))
    (r : RtErr × DecState) (m : Machine σ (CodecMem Z Q A)) : Prop :=
  Fed env v c src a m₀ m ∧ (r.1 ≠ .error → r.2.produced ≠ 0 →
    Feeding env v c src a m₀ pieces r.2.win m ∧
      (env.build.usingCompression = true ∨ r.2.win.len = 0))

theorem FeedRound.roundEnd {rst : RtErr} {d : DecState} {m : Machine σ (CodecMem Z Q A)}
    (h : FeedRound env v c src a m₀ pieces d m) :
    FeedRoundEnd env v c src a m₀ pieces (rst, d) m :=
  ⟨h.1.fed, fun _ hprod => ⟨h.1, h.2.imp_right fun hz => hz.resolve_left hprod⟩⟩

theorem Feeding.call (hs : Stages env.build v c algo) {ctx : StreamCtx} {d : DecState}
    {m : Machine σ (CodecMem Z Q A)} {rst : RtErr} {step : StreamStatus}
    {out : Block d.curCap} {k : CodecMem Z Q A} (hcall : Answers algo ctx d m.mem rst step out k)
    (h : Feeding env v c src a m₀ pieces d.win m) :
    Feeding env v c src a m₀ pieces d.win (m.afterCall ctx d k) := by
  have hkeep := hs.keeps d.win.bytes d.curCap d.step (d.callCtx ctx) m.mem
  unfold Answers at hcall
  rw [hcall] at hkeep
  exact ⟨h.reads, hkeep.trans h.chain, h.traced.concat rfl fun new hnew => hnew.call _ _⟩

theorem bytes_advance (hs : Stages env.build v c algo) {ctx : StreamCtx} {d : DecState}
    {k₀ : CodecMem Z Q A} {step : StreamStatus} {out : Block d.curCap} {k : CodecMem Z Q A}
    (hcall : Answers algo ctx d k₀ .eok step out k) (hcons : step.consumed ≤ d.win.len)
    (pc : ProcCtx) :
    ((d.called env.build step out.1).advance pc).win.bytes = d.win.bytes.drop step.consumed ∧
      (env.build.usingCompression = true ∨
        ((d.called env.build step out.1).advance pc).win.len = 0) := by
  by_cases hsep : env.build.usingCompression = true
  · rw [called_of_separate hsep]
    exact ⟨CmprsBuf.bytes_consume hcons, .inl hsep⟩
  have htakes := (hs.shared.resolve_left hsep) d.win.bytes d.curCap d.step (d.callCtx ctx) k₀
  unfold Answers at hcall
  rw [hcall] at htakes
  have hall : step.consumed = d.win.len := (htakes.1 rfl).trans d.win.length_bytes
  have hlen : ((d.called env.build step out.1).advance pc).win.len = 0 := by
    have hwin : (d.called env.build step out.1).win.len = d.win.len := by
      unfold DecState.called
      split <;> rfl
    show (d.called env.build step out.1).win.len - step.consumed = 0
    omega
  refine ⟨?_, .inr hlen⟩
  rw [CmprsBuf.bytes_of_len_eq_zero hlen, hall, List.drop_of_length_le]
  exact d.win.length_bytes.le

theorem feedRound_step (hs : Stages env.build v c algo) (ctx : StreamCtx) (d : DecState)
    (m : Machine σ (CodecMem Z Q A)) (hI : FeedRound env v c src a m₀ pieces d m) :
    Ends (FeedRound env v c src a m₀ pieces) DecState.work
      (FeedRoundEnd env v c src a m₀ pieces) d.work
      (decompressRound env.toPlatform algo ctx d m) := by
  by_cases hend : d.remainingOut = 0 ∨ d.Waits ctx
  · rw [round_end hend]
    exact hI.roundEnd
  obtain ⟨rst, step, out, k, hcall⟩ := exists_answers algo ctx d m.mem
  have hfed := hI.1.call hs hcall
  by_cases hstop : (d.called env.build step out.1).Stops rst step
  · rw [round_stop hend hcall hstop]
    refine ⟨hfed.fed, fun _ hprod => ?_⟩
    by_cases hsep : env.build.usingCompression = true
    · rw [called_of_separate hsep]
      exact ⟨hfed, .inl hsep⟩
    · -- behind an output the shared buffer is empty, so nothing is lost under it
      have hzero : d.win.len = 0 := (hI.2.resolve_left hsep).resolve_left hprod
      have hlen : (d.called env.build step out.1).win.len = 0 := by
        unfold DecState.called
        split <;> exact hzero
      refine ⟨⟨hfed.reads, hfed.chain, hfed.traced.imp fun new hnew => hnew.congr ?_⟩,
        .inr hlen⟩
      rw [CmprsBuf.bytes_of_len_eq_zero hlen, CmprsBuf.bytes_of_len_eq_zero hzero]
  obtain ⟨rfl, hcons, hprod, hprog⟩ := not_stops_iff.mp hstop
  have hwork (pc : ProcCtx) :
      ((d.called env.build step out.1).advance pc).work < d.work := by
    have hcap : d.curCap ≤ d.remainingOut := Nat.min_le_left _ _
    have hwin : (d.called env.build step out.1).win.len = d.win.len := by
      unfold DecState.called
      split <;> rfl
    simp only [DecState.advance, DecState.work, CmprsBuf.len_consume, hwin]
    show d.remainingOut - step.produced + (d.win.len - step.consumed) <
      d.remainingOut + d.win.len
    omega
  rcases hpc : d.ctx with acc | st
  · rw [round_crc hend hcall hstop hpc]
    obtain ⟨hbytes, hshare⟩ := bytes_advance hs hcall hcons
      (.crc (env.crc.cycCal acc (out.1.take step.produced)))
    refine ⟨⟨⟨hfed.reads, hfed.chain, ?_⟩, hshare.imp_right .inr⟩, hwork _⟩
    exact hfed.traced.concat rfl fun new hnew => hnew.accept _ hcons hbytes
  have hkeep := env.write_keeps st.dst st.rawPos (out.1.take step.produced) m.dev
  rcases hwrite : env.io.write st.dst st.rawPos (out.1.take step.produced) m.dev
    with ⟨_ | _, dev⟩
  · rw [hwrite] at hkeep
    rw [round_write_fail hend hcall hstop hpc hwrite]
    refine ⟨⟨pieces, hkeep.trans hfed.reads, ?_⟩, fun hne => absurd rfl hne⟩
    exact hfed.traced.concat rfl fun new hnew => hnew.toHands.unseen (by simp [Event.unseen])
  · rw [hwrite] at hkeep
    rw [round_write_ok hend hcall hstop hpc hwrite]
    obtain ⟨hbytes, hshare⟩ := bytes_advance hs hcall hcons (.write { st with
      rawPos := st.rawPos + (out.1.take step.produced).length })
    refine ⟨⟨⟨hkeep.trans hfed.reads, hfed.chain, ?_⟩, hshare.imp_right .inr⟩, hwork _⟩
    refine hfed.traced.concat rfl fun new hnew => ?_
    have hunseen : ∀ e ∈ [Event.wrote st.dst.target st.rawPos (out.1.take step.produced)
        true], e.unseen = true := by
      simp [Event.unseen]
    have hwrote := hnew.unseen hunseen
    have hacc := hwrote.accept (out.1.take step.produced) hcons hbytes
    rwa [List.append_assoc] at hacc

/-! ## The outer loop -/

variable {h : FwInfo}

/-- The outer loop has read the body up to its position. -/
def FeedLoop (env : RecordingEnv σ (CodecMem Z Q A)) (v : Vendor Z Q A) (c : Crypto)
    (src : Handle) (a : A) (m₀ : Machine σ (CodecMem Z Q A)) (st : StreamLoop)
    (m : Machine σ (CodecMem Z Q A)) : Prop :=
  ∃ pieces, Feeding env v c src a m₀ pieces st.win m ∧
    (env.build.usingCompression = true ∨ st.win.len = 0) ∧
    st.srcPos = srcReadPos + pieces.flatten.length

theorem feedLoop_decode (hs : Stages env.build v c algo) (st : StreamLoop)
    (m : Machine σ (CodecMem Z Q A)) (hgo : ¬h.rawSize.toNat ≤ st.rawPos)
    (hfeed : Feeding env v c src a m₀ pieces st.win m)
    (hpos : st.srcPos = srcReadPos + pieces.flatten.length) :
    Ends (FeedLoop env v c src a m₀) (StreamLoop.left h)
      (fun _ => Fed env v c src a m₀) (st.left h)
      (streamDecode env.toPlatform h algo st m) := by
  have hstart : FeedRound env v c src a m₀ pieces
      ⟨st.win, (streamCtx h st).rawRemaining, 0, 0, .zero, st.ctx.setRawPos st.rawPos⟩ m :=
    ⟨hfeed, .inr (.inl rfl)⟩
  obtain ⟨⟨rst, d⟩, m', hrun, hend⟩ := iterate_rule (feedRound_step hs (streamCtx h st))
    hstart (Nat.lt_succ_self _)
  have hdec : decompressWithConsumer env.toPlatform algo (streamCtx h st) st.win
      (st.ctx.setRawPos st.rawPos) m = (some (rst, d), m') := hrun
  rw [streamDecode_eq hdec]
  by_cases hfail : rst = .error ∨ d.produced = 0
  · rw [if_pos hfail]
    exact hend.1
  rw [if_neg hfail]
  push Not at hfail
  obtain ⟨hfeed', hshare'⟩ := hend.2 hfail.1 hfail.2
  refine ⟨⟨pieces, hfeed', hshare', hpos⟩, ?_⟩
  have hprod := hfail.2
  simp only [StreamLoop.left]
  omega

/-- What a fetch of `n` bytes leaves: one more decrypted piece in the buffer, or what
has been handed on so far. -/
def FeedFetched (env : RecordingEnv σ (CodecMem Z Q A)) (v : Vendor Z Q A) (c : Crypto)
    (src : Handle) (a : A) (m₀ : Machine σ (CodecMem Z Q A)) (pieces : List (List UInt8))
    (n : Nat) : Option CmprsBuf × Machine σ (CodecMem Z Q A) → Prop
  | (none, m) => Fed env v c src a m₀ m
  | (some win, m) => ∃ piece, piece.length = n ∧
      Feeding env v c src a m₀ (pieces ++ [piece]) win m

theorem feeding_fetch (hs : Stages env.build v c algo) {win : CmprsBuf}
    {m : Machine σ (CodecMem Z Q A)} (n : Nat)
    (hfeed : Feeding env v c src a m₀ pieces win m)
    (hshare : env.build.usingCompression = true ∨ win.len = 0) :
    FeedFetched env v c src a m₀ pieces n
      (fwPkgRead env.toPlatform src (srcReadPos + pieces.flatten.length) win n algo
        (m.record [.filled win.len n])) := by
  generalize hpos : srcReadPos + pieces.flatten.length = pos
  have hadds := env.read_adds src pos n m.dev
  rcases hio : env.io.read src pos n m.dev with ⟨_ | cipher, dev⟩
  · have hio' : env.io.read src pos n (m.record [.filled win.len n]).dev = (none, dev) := hio
    rw [hio] at hadds
    have hkeep : env.reads dev = env.reads m.dev := hadds.trans (List.append_nil _)
    rw [fwPkgRead_fail hio']
    exact ⟨pieces, hkeep.trans hfeed.reads, hfeed.traced.concat (List.append_assoc ..)
      fun new hnew => hnew.toHands.unseen (by simp [Event.unseen])⟩
  rw [hio] at hadds
  generalize hbuf : (if env.build.usingCompression = true then win
    else win.clobber cipher.1) = buf
  have hbytes : buf.bytes = win.bytes ∧
      (env.build.usingCompression = true ∨ readCells buf.cells buf.len n = cipher) := by
    by_cases hsep : env.build.usingCompression = true
    · rw [if_pos hsep] at hbuf
      exact ⟨by rw [hbuf], .inl hsep⟩
    · rw [if_neg hsep] at hbuf
      have hzero := hshare.resolve_left hsep
      have hlen : buf.len = 0 := by rw [← hbuf]; exact hzero
      refine ⟨?_, .inr ?_⟩
      · rw [CmprsBuf.bytes_of_len_eq_zero hlen, CmprsBuf.bytes_of_len_eq_zero hzero]
      · -- the ciphertext was read to where the plaintext belongs
        have hsame := readCells_overwrite_same win.cells 0 cipher.1
        apply Subtype.ext
        rw [hlen, ← hbuf]
        rwa [cipher.2] at hsame
  obtain ⟨plain, k, hdec, hplain, hk⟩ := hs.decrypts (readCells buf.cells buf.len n) cipher
    m.mem hbytes.2
  have hio' : env.io.read src pos n (m.record [.filled win.len n]).dev = (some cipher, dev) :=
    hio
  have hdec' : algo.crypt.decrypt (readCells buf.cells buf.len n) cipher
      (m.record [.filled win.len n]).mem = ((.eok, plain), k) := hdec
  rw [fwPkgRead_read hbuf hio' hdec', if_pos rfl]
  rw [hfeed.chain] at hplain hk
  have happly := c.applyAll_concat v cipher.1 pieces a
  refine ⟨cipher.1, cipher.2, ?_, ?_, ?_⟩
  · rw [readsOf_concat, ← List.append_assoc, ← hfeed.reads, hpos]
    exact hadds
  · rw [happly]
    exact hk
  · rw [happly, ← hplain]
    have hfilled : Traced m₀ (m.record [.filled win.len n])
        (HandsFrom (c.applyAll v a pieces).1 win) :=
      hfeed.traced.concat rfl fun new hnew => hnew.unseen (by simp [Event.unseen])
    refine hfilled.concat rfl fun new hnew => ?_
    have hunseen : ∀ e ∈ [Event.read src.target pos n (some cipher.1)], e.unseen = true := by
      simp [Event.unseen]
    have hplus : (buf.fill plain.1).bytes = win.bytes ++ plain.1 := by
      rw [CmprsBuf.bytes_fill, hbytes.1]
    have hfill := (hnew.unseen hunseen).fill plain.1 hplus
    rwa [List.append_assoc] at hfill

theorem feedLoop_step (hs : Stages env.build v c algo) (st : StreamLoop)
    (m : Machine σ (CodecMem Z Q A)) (hI : FeedLoop env v c src a m₀ st m) :
    Ends (FeedLoop env v c src a m₀) (StreamLoop.left h)
      (fun _ => Fed env v c src a m₀) (st.left h)
      (streamRound env.toPlatform h src algo st m) := by
  obtain ⟨pieces, hfeed, hshare, hpos⟩ := hI
  by_cases hgo : h.rawSize.toNat ≤ st.rawPos
  · rw [stream_finish hgo]
    exact hfeed.fed
  by_cases hfetch : 0 < remainLen h st.srcPos
  · rw [stream_fetch hgo hfetch]
    generalize nextRead h st = n
    have hfetched := feeding_fetch hs n hfeed hshare
    rw [← hpos] at hfetched
    rcases hread : fwPkgRead env.toPlatform src st.srcPos st.win n algo
      (m.record [.filled st.win.len n]) with ⟨_ | win, m'⟩
    · rw [hread] at hfetched
      exact hfetched
    · rw [hread] at hfetched
      obtain ⟨piece, hlen, hfeed'⟩ := hfetched
      have hleft : StreamLoop.left h { st with srcPos := st.srcPos + n, win := win } =
          StreamLoop.left h st := left_congr rfl
      rw [← hleft]
      refine feedLoop_decode hs _ m' hgo hfeed' ?_
      rw [hpos, List.flatten_append, List.length_append, List.flatten_singleton, hlen,
        Nat.add_assoc]
  by_cases hend : remainLen h st.srcPos < 0 ∨ st.win.len = 0
  · rw [stream_exhausted hgo hfetch hend]
    exact hfeed.fed
  · rw [stream_drain hgo hfetch hend]
    exact feedLoop_decode hs st m hgo hfeed hpos

theorem streamProcess_fed (hs : Stages env.build v c algo) (pc : ProcCtx)
    {m : Machine σ (CodecMem Z Q A)} (hfeed : Feeding env v c src a m₀ [] .empty m) :
    Fed env v c src a m₀ (fwStreamProcess env.toPlatform h src algo pc m).2 := by
  have hstart : FeedLoop env v c src a m₀ ⟨srcReadPos, 0, .empty, pc⟩ m :=
    ⟨[], hfeed, .inr rfl, rfl⟩
  obtain ⟨r, m', hrun, hend⟩ := iterate_rule (feedLoop_step hs) hstart (Nat.lt_succ_self _)
  have hrun : iterate (streamRound env.toPlatform h src algo) (h.rawSize.toNat + 1)
      ⟨srcReadPos, 0, .empty, pc⟩ m = (some r, m') := hrun
  rw [fwStreamProcess, Prog.run_bind, streamProcess, Prog.run_bind, hrun]
  exact hend

end Pass

/-! ## The registered stages -/

inductive Decoder where
  | codec (c : Codec)
  | hpatchlite
  deriving DecidableEq

def Decoder.enabled (b : Build) : Decoder → Bool
  | .codec c => c.enabled b
  | .hpatchlite => b.usingHpatchlite

def Decoder.ops (b : Build) (v : Vendor Z Q A) : Decoder → CmprsOps (CodecMem Z Q A)
  | .codec c => c.ops b v
  | .hpatchlite => hpatchliteCmprsOps

theorem decoder_keeps (b : Build) (v : Vendor Z Q A) (d : Decoder) (inp : List UInt8)
    (outLen : Nat) (step : StreamStatus) (ctx : StreamCtx) (k : CodecMem Z Q A) :
    (((d.ops b v).decompress inp outLen step ctx) k).2.aes = k.aes := by
  rcases d with (_ | _ | _ | _) | _
  · unfold Decoder.ops Codec.ops noneCmprsOps noneDecompress
    dsimp only
    split <;> rfl
  · rfl
  · rfl
  · show (blockDecompress inp outLen step _ k).2.aes = k.aes
    unfold blockDecompress
    dsimp only
    repeat' split
    all_goals rfl
  · rfl

theorem stages_registered {b : Build} (v : Vendor Z Q A) {c : Crypto} {d : Decoder}
    (hc : c.enabled b = true) (hd : d.enabled b = true) :
    Stages b v c ⟨c.ops b v, d.ops b v⟩ where
  decrypts := by
    rintro len old ⟨inp, rfl⟩ k hold
    cases c with
    | none =>
        have hplain : (if b.usingCompression then (⟨inp, rfl⟩ : Block inp.length) else old) =
            ⟨inp, rfl⟩ := by
          split
          · rfl
          · rename_i hsep
            exact hold.resolve_left hsep
        refine ⟨⟨inp, rfl⟩, k, ?_, rfl, rfl⟩
        show ((RtErr.eok, if b.usingCompression then (⟨inp, rfl⟩ : Block inp.length) else old),
          k) = _
        rw [hplain]
    | aes => exact ⟨_, _, rfl, rfl, rfl⟩
  keeps := decoder_keeps b v d
  shared := by
    by_cases hsep : b.usingCompression = true
    · exact .inl hsep
    refine .inr fun inp outLen step ctx k => ?_
    obtain ⟨⟨⟨haes, hgzip⟩, hqlz⟩, hflz⟩ : ((b.usingAes = false ∧ b.usingGzip = false) ∧
        b.usingQuicklz = false) ∧ b.usingFastlz = false := by
      simpa [Build.usingCompression] using hsep
    rcases d with (_ | _ | _ | _) | _
    · rcases inp with _ | ⟨x, inp⟩
      · exact ⟨nofun, fun _ => rfl⟩
      · exact ⟨fun _ => if_neg hsep, nofun⟩
    · exact absurd (hgzip.symm.trans hd) Bool.false_ne_true
    · exact absurd (hqlz.symm.trans hd) Bool.false_ne_true
    · exact absurd (hflz.symm.trans hd) Bool.false_ne_true
    · exact ⟨nofun, nofun⟩

end Qboot
