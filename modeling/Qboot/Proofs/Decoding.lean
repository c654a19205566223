import Qboot.Proofs.Unpack
/-!
# What the stream engine makes of an encoded body

The engine reads the body in pieces of 4096 bytes, and its decoder sees them through a
buffer.  A pair of stages that undoes an encoding step by step makes the image of it,
however the frames of the encoding lie across the pieces.
-/

namespace Qboot

open Library Bytes Machine Loop

variable {κ : Type}

/-! ## Stages that undo an encoding -/

/-- The answer of a decompress handler that turns the front of its input into the front
of what is left of the image. -/
structure HandlesFront (b : Build) (cmprs : CmprsOps κ)
    (Clear Left : κ → List UInt8 → List UInt8 → Prop) (k : κ) (w r o : List UInt8)
    (step : StreamStatus) (ctx : StreamCtx) (w₁ w₂ o₁ o₂ : List UInt8)
    (step' : StreamStatus) {cap : Nat} (out : Block cap) (k' : κ) : Prop where
  answer : cmprs.decompress w cap step ctx k = ((.eok, step', out), k')
  input : w = w₁ ++ w₂
  output : o = o₁ ++ o₂
  consumed : step'.consumed = w₁.length
  produced : step'.produced = o₁.length
  some : 0 < o₁.length
  fits : o₁.length ≤ cap
  delivered : out.1.take o₁.length = o₁
  left : Left k' (w₂ ++ r) o₂
  clear : ∀ c p, Clear k c p → Clear k' c p
  whole : b.usingCompression = false → w₂ = []

/-- Stages over a body whose decryption `Clear` describes, and whose decoding `Left`: from
the memory `k`, the bytes `b` become `o`.  Between two fetches the decoder leaves at most
`slack` bytes in the buffer, and it gets on with more than that. -/
structure Undoes (b : Build) (algo : AlgoContext κ)
    (Clear Left : κ → List UInt8 → List UInt8 → Prop) (slack : Nat) : Prop where
  slack_lt : slack < cmprsReadSize
  apart : b.usingCompression = false → slack = 0
  clear_length : ∀ {k c p}, Clear k c p → p.length = c.length
  left_nil : ∀ {k o}, Left k [] o → o = []
  decrypt : ∀ {k x y p}, Clear k (x ++ y) p → x.length = cmprsReadSize ∨ y = [] →
    ∀ {n : Nat} (old inp : Block n), inp.1 = x →
      (b.usingCompression = false → old.1 = inp.1) →
    ∃ plain k', algo.crypt.decrypt old inp k = ((.eok, plain), k') ∧
      (∃ q, p = plain.1 ++ q ∧ Clear k' y q) ∧ ∀ w o, Left k w o → Left k' w o
  decompress : ∀ {k w r o}, Left k (w ++ r) o → o ≠ [] → w ≠ [] →
    w.length ≤ slack + cmprsReadSize → ∀ cap step ctx, cap = min o.length bufSize →
    (∃ w₁ w₂ o₁ o₂ step' k', ∃ out : Block cap,
      HandlesFront b algo.cmprs Clear Left k w r o step ctx w₁ w₂ o₁ o₂ step' out k') ∨
    (b.usingCompression = true ∧ w.length ≤ slack ∧ r ≠ [] ∧ ∃ step', ∃ out : Block cap,
      algo.cmprs.decompress w cap step ctx k = ((.enospc, step', out), k))

variable {b : Build} {crc : CrcLib} {algo : AlgoContext κ} {h : FwInfo} {src dst : Handle}
  {Clear Left : κ → List UInt8 → List UInt8 → Prop} {slack : Nat}
  {body image : List UInt8} {ctx : StreamCtx} {m : Machine Unit κ}

/-! ## The inner loop -/

/-- What is left in the buffer and of the body becomes what is left of the image.  The
decoder gets on, or has got on already. -/
structure Undoing (Clear Left : κ → List UInt8 → List UInt8 → Prop) (slack : Nat)
    (image cipher plain : List UInt8) (ctx : StreamCtx) (start fetched : Nat)
    (d : DecState) (m : Machine Unit κ) : Prop where
  clear : Clear m.mem cipher plain
  left : ∃ o, Left m.mem (d.win.bytes ++ plain) o ∧ acceptedBytes m.log ++ o = image ∧
    o.length = d.remainingOut
  writes : ∃ st, d.ctx = .write st
  room : d.win.len ≤ slack + cmprsReadSize
  count : (acceptedBytes m.log).length = start + d.produced
  input : ctx.consumed + d.consumed + d.win.len = fetched
  ready : d.produced = 0 → d.remainingOut ≠ 0 ∧ d.win.len ≠ 0 ∧
    (slack < d.win.len ∨ plain = [])

/-- The inner loop has got on, and needs more input or none. -/
structure UndoneSome (Clear Left : κ → List UInt8 → List UInt8 → Prop) (slack : Nat)
    (image cipher plain : List UInt8) (start fetched : Nat) (r : RtErr × DecState)
    (m : Machine Unit κ) : Prop where
  clear : Clear m.mem cipher plain
  left : ∃ o, Left m.mem (r.2.win.bytes ++ plain) o ∧ acceptedBytes m.log ++ o = image
  writes : ∃ st, r.2.ctx = .write st
  count : (acceptedBytes m.log).length = start + r.2.produced
  answer : r.1 ≠ .error
  progress : r.2.produced ≠ 0
  inside : r.2.win.len ≤ fetched
  short : r.2.win.len ≤ slack ∨ acceptedBytes m.log = image

theorem bytes_afterFront {d : DecState} {step : StreamStatus} {w₁ w₂ : List UInt8}
    (out : List UInt8) (pc : ProcCtx) (hwin : d.win.bytes = w₁ ++ w₂) (hcons : step.consumed = w₁.length)
    (hwhole : b.usingCompression = false → w₂ = []) :
    ((d.called b step out).advance pc).win.bytes = w₂ := by
  have hlen : d.win.len = w₁.length + w₂.length := by
    rw [← CmprsBuf.length_bytes, hwin, List.length_append]
  cases hsep : b.usingCompression with
  | true =>
      have hcalled : d.called b step out = { d with step := step } := by
        simp [DecState.called, hsep]
      rw [hcalled]
      show (d.win.consume step.consumed).bytes = w₂
      rw [CmprsBuf.bytes_consume (by omega), hwin, hcons, List.drop_left]
  | false =>
      obtain rfl := hwhole hsep
      apply CmprsBuf.bytes_of_len_eq_zero
      have hcalled : (d.called b step out).win.len = d.win.len := by
        unfold DecState.called
        split <;> rfl
      show (d.called b step out).win.len - step.consumed = 0
      rw [hcalled, hlen, hcons, List.length_nil]
      omega

theorem undoing_round (hundo : Undoes b algo Clear Left slack) {cipher plain : List UInt8}
    {start fetched : Nat} (hrest : ctx.total ≤ fetched → plain = []) (d : DecState)
    (m : Machine Unit κ)
    (hd : Undoing Clear Left slack image cipher plain ctx start fetched d m) :
    Ends (Undoing Clear Left slack image cipher plain ctx start fetched) DecState.work
      (UndoneSome Clear Left slack image cipher plain start fetched) d.work
      (decompressRound ⟨b, bodyIo body, crc⟩ algo ctx d m) := by
  obtain ⟨hclear, ⟨o, hleft, himage, hremain⟩, ⟨st, hctx⟩, hroom, hcount, hinput, hready⟩ := hd
  by_cases hgo : d.remainingOut = 0 ∨ d.Waits ctx
  · rw [round_end hgo]
    refine ⟨hclear, ⟨o, hleft, himage⟩, ⟨st, hctx⟩, hcount, by simp, ?_, ?_, ?_⟩
    · intro hzero
      obtain ⟨hmore, hlen, -⟩ := hready hzero
      exact hgo.elim hmore fun hwaits => hlen hwaits.1
    · show d.win.len ≤ fetched
      omega
    · rcases hgo with hall | hwaits
      · have hnil : o = [] := List.eq_nil_of_length_eq_zero (hremain.trans hall)
        rw [← himage, hnil, List.append_nil]
        exact .inr rfl
      · have hlen : d.win.len = 0 := hwaits.1
        exact .inl (hlen.trans_le (Nat.zero_le _))
  obtain ⟨hmore, hnot⟩ := not_or.mp hgo
  have ho : o ≠ [] := by
    rintro rfl
    exact hmore hremain.symm
  have hw : d.win.bytes ≠ [] := by
    intro hnil
    have hlen : d.win.len = 0 := by
      rw [← CmprsBuf.length_bytes, hnil]
      rfl
    have hend : ctx.total ≤ fetched := by
      by_contra hlt
      exact hnot ⟨hlen, by omega⟩
    rw [hnil, hrest hend] at hleft
    exact ho (hundo.left_nil hleft)
  have hcap : d.curCap = min o.length bufSize := by
    rw [hremain]
    rfl
  have hcase := hundo.decompress hleft ho hw (by rwa [CmprsBuf.length_bytes]) d.curCap d.step
    (d.callCtx ctx) hcap
  rcases hcase with ⟨w₁, w₂, o₁, o₂, step', k', out, hfront⟩ |
    ⟨hsep, hshort, hmorebody, step', out, hanswer⟩
  · have hcall : Answers algo ctx d m.mem .eok step' out k' := hfront.answer
    have hwlen : d.win.len = w₁.length + w₂.length := by
      rw [← CmprsBuf.length_bytes, hfront.input, List.length_append]
    have hcons : step'.consumed = w₁.length := hfront.consumed
    have hprod : step'.produced = o₁.length := hfront.produced
    have hfits : o₁.length ≤ d.curCap := hfront.fits
    have hsome : 0 < o₁.length := hfront.some
    have hruns : ¬(d.called b step' out.1).Stops .eok step' :=
      not_stops_iff.mpr ⟨rfl, by omega, by omega, by omega⟩
    have hwrite : (bodyIo body).write st.dst st.rawPos (out.1.take step'.produced) m.dev =
        (true, m.dev) := rfl
    have htake : out.1.take step'.produced = o₁ := by
      rw [hprod]
      exact hfront.delivered
    rw [round_write_ok hgo hcall hruns hctx hwrite, htake]
    generalize hpc : ProcCtx.write { st with rawPos := st.rawPos + o₁.length } = pc
    have hwin := bytes_afterFront (b := b) out.1 pc hfront.input hcons hfront.whole
    have hlen : ((d.called b step' out.1).advance pc).win.len = w₂.length := by
      rw [← CmprsBuf.length_bytes, hwin]
    have hlog : acceptedBytes (((m.afterCall ctx d k').record
        [.wrote st.dst.target st.rawPos o₁ true, .accepted o₁ step'.consumed]).log) =
        acceptedBytes m.log ++ o₁ := by
      show acceptedBytes ((m.log ++ [_]) ++ [_, _]) = _
      rw [acceptedBytes_append, acceptedBytes_append]
      simp [acceptedBytes]
    have hleftLen : o.length = o₁.length + o₂.length := by
      rw [hfront.output, List.length_append]
    refine ⟨⟨hfront.clear _ _ hclear, ⟨o₂, ?_, ?_, ?_⟩, ⟨_, hpc.symm⟩, ?_, ?_, ?_, ?_⟩, ?_⟩
    · rw [hwin]
      exact hfront.left
    · rw [hlog, List.append_assoc, ← hfront.output]
      exact himage
    · show o₂.length = d.remainingOut - step'.produced
      omega
    · rw [hlen]
      omega
    · show (acceptedBytes _).length = start + (d.produced + step'.produced)
      rw [hlog, List.length_append, hcount, hprod]
      omega
    · rw [hlen]
      show ctx.consumed + (d.consumed + step'.consumed) + w₂.length = fetched
      omega
    · intro hzero
      have hnone : d.produced + step'.produced = 0 := hzero
      omega
    · show (d.remainingOut - step'.produced) +
        ((d.called b step' out.1).advance pc).win.len < d.remainingOut + d.win.len
      rw [hlen]
      omega
  · have hcall : Answers algo ctx d m.mem .enospc step' out m.mem := hanswer
    have hstops : (d.called b step' out.1).Stops .enospc step' := .inl (by simp)
    rw [round_stop hgo hcall hstops, called_of_separate hsep]
    have hlog : acceptedBytes (m.afterCall ctx d m.mem).log = acceptedBytes m.log := by
      show acceptedBytes (m.log ++ [_]) = _
      rw [acceptedBytes_append]
      exact List.append_nil _
    rw [CmprsBuf.length_bytes] at hshort
    refine ⟨hclear, ⟨o, hleft, ?_⟩, ⟨st, hctx⟩, ?_, by simp, ?_, ?_, .inl hshort⟩
    · rw [hlog]
      exact himage
    · rw [hlog]
      exact hcount
    · intro hzero
      obtain ⟨-, -, hlong | hnone⟩ := hready hzero
      · exact absurd hshort (not_le.mpr hlong)
      · exact hmorebody hnone
    · show d.win.len ≤ fetched
      omega

/-! ## The outer loop -/

structure UndoneBody (Clear Left : κ → List UInt8 → List UInt8 → Prop) (slack : Nat)
    (body image : List UInt8) (st : StreamLoop) (m : Machine Unit κ) : Prop where
  start : srcReadPos ≤ st.srcPos
  le : st.fetched ≤ body.length
  inside : st.win.len ≤ st.fetched
  left : ∃ plain o, Clear m.mem (body.drop st.fetched) plain ∧
    Left m.mem (st.win.bytes ++ plain) o ∧ acceptedBytes m.log ++ o = image
  writes : ∃ s, st.ctx = .write s
  count : (acceptedBytes m.log).length = st.rawPos
  short : st.win.len ≤ slack ∨ acceptedBytes m.log = image

def UndoneAll (image : List UInt8) (r : Option (Bool × ProcCtx)) (m : Machine Unit κ) : Prop :=
  (∃ pc, r = some (true, pc)) ∧ acceptedBytes m.log = image

theorem fwPkgRead_undoes (hundo : Undoes b algo Clear Left slack) {win : CmprsBuf}
    {fetched n : Nat} {plain : List UInt8} (hshort : win.len ≤ slack)
    (hend : fetched + n ≤ body.length)
    (hpiece : n = cmprsReadSize ∨ fetched + n = body.length)
    (hclear : Clear m.mem (body.drop fetched) plain) :
    ∃ win' q m', fwPkgRead ⟨b, bodyIo body, crc⟩ src (srcReadPos + fetched) win n algo m =
        (some win', m') ∧
      win'.len = win.len + n ∧ win'.bytes ++ q = win.bytes ++ plain ∧
      Clear m'.mem (body.drop (fetched + n)) q ∧ (∀ w o, Left m.mem w o → Left m'.mem w o) ∧
      acceptedBytes m'.log = acceptedBytes m.log := by
  obtain ⟨cipher, hslice, hbytes⟩ := readSlice_of_le hend
  have hread : (bodyIo body).read src (srcReadPos + fetched) n m.dev =
      (some cipher, m.dev) := by
    show (readSlice body (srcReadPos + fetched - srcReadPos) n, m.dev) = _
    rw [Nat.add_sub_cancel_left, hslice]
  generalize hwin : (if b.usingCompression = true then win
    else win.clobber cipher.1) = win'
  have hlen : win'.len = win.len := by
    rw [← hwin]
    split <;> rfl
  have hempty (hsep : b.usingCompression = false) : win.len = 0 := by
    have hslack := hundo.apart hsep
    omega
  have hsame : win'.bytes = win.bytes := by
    cases hsep : b.usingCompression with
    | true =>
        rw [hsep, if_pos rfl] at hwin
        rw [hwin]
    | false =>
        rw [CmprsBuf.bytes_of_len_eq_zero (hempty hsep),
          CmprsBuf.bytes_of_len_eq_zero (hlen.trans (hempty hsep))]
  -- with one buffer, the handler finds the piece where it is to leave its output
  have hold : b.usingCompression = false →
      (readCells win'.cells win'.len n).1 = cipher.1 := by
    intro hsep
    rw [hlen, hempty hsep, ← hwin, hsep, if_neg Bool.false_ne_true]
    have hover := readCells_overwrite_same win.cells 0 cipher.1
    rwa [cipher.2] at hover
  have hsplit : body.drop fetched = cipher.1 ++ body.drop (fetched + n) := by
    rw [hbytes, ← slice_to_end body (fetched + n), ← slice_to_end body fetched,
      slice_append_slice body (Nat.le_add_right _ _) hend]
  rw [hsplit] at hclear
  have hfull : cipher.1.length = cmprsReadSize ∨ body.drop (fetched + n) = [] := by
    rw [cipher.2]
    exact hpiece.imp id fun hall => List.drop_of_length_le hall.ge
  obtain ⟨piece, k', hplain, ⟨q, rfl, hclear'⟩, hkeep⟩ := hundo.decrypt hclear hfull
    (readCells win'.cells win'.len n) cipher rfl hold
  have hrun : fwPkgRead ⟨b, bodyIo body, crc⟩ src (srcReadPos + fetched) win n algo m = _ :=
    fwPkgRead_read hwin hread hplain
  rw [if_pos rfl] at hrun
  refine ⟨_, q, _, hrun, ?_, ?_, hclear', hkeep, ?_⟩
  · rw [CmprsBuf.len_fill, piece.2, hlen]
  · rw [CmprsBuf.bytes_fill, hsame, List.append_assoc]
  · show acceptedBytes (m.log ++ [_, _]) = _
    rw [acceptedBytes_append]
    exact List.append_nil _

section Pass

variable (hundo : Undoes b algo Clear Left slack) (hpkg : h.pkgSize.toNat = body.length)
  (hraw : h.rawSize.toNat = image.length) (hsmall : body.length < 2 ^ 31)

include hundo hpkg hraw

theorem undoneBody_decode {st : StreamLoop} {plain o : List UInt8}
    (hstart : srcReadPos ≤ st.srcPos) (hle : st.fetched ≤ body.length)
    (hinside : st.win.len ≤ st.fetched) (hclear : Clear m.mem (body.drop st.fetched) plain)
    (hleft : Left m.mem (st.win.bytes ++ plain) o) (himage : acceptedBytes m.log ++ o = image)
    (hwrites : ∃ s, st.ctx = .write s) (hcount : (acceptedBytes m.log).length = st.rawPos)
    (hroom : st.win.len ≤ slack + cmprsReadSize) (hmore : o ≠ []) (hsome : st.win.len ≠ 0)
    (hready : slack < st.win.len ∨ plain = []) :
    Ends (UndoneBody Clear Left slack body image) (StreamLoop.left h) (UndoneAll image)
      (StreamLoop.left h st) (streamDecode ⟨b, bodyIo body, crc⟩ h algo st m) := by
  have htotal : image.length = st.rawPos + o.length := by
    rw [← himage, List.length_append, hcount]
  have hremain : (streamCtx h st).rawRemaining = o.length := by
    show h.rawSize.toNat - st.rawPos = _
    omega
  have hpos : 0 < o.length := List.length_pos_iff.mpr hmore
  have hrest : (streamCtx h st).total ≤ st.fetched → plain = [] := by
    intro hend
    have hall : body.drop st.fetched = [] :=
      List.drop_of_length_le (hpkg ▸ hend)
    rw [hall] at hclear
    exact List.eq_nil_of_length_eq_zero (hundo.clear_length hclear)
  obtain ⟨s, hs⟩ := hwrites
  have hbegin : Undoing Clear Left slack image (body.drop st.fetched) plain (streamCtx h st)
      st.rawPos st.fetched ⟨st.win, (streamCtx h st).rawRemaining, 0, 0, .zero,
        st.ctx.setRawPos st.rawPos⟩ m := by
    refine ⟨hclear, ⟨o, hleft, himage, hremain.symm⟩, ?_, hroom, hcount, ?_, ?_⟩
    · rw [hs]
      exact ⟨_, rfl⟩
    · show st.srcPos - srcReadPos - st.win.len + 0 + st.win.len = st.fetched
      unfold StreamLoop.fetched at hinside ⊢
      omega
    · intro _
      have hbudget : (streamCtx h st).rawRemaining ≠ 0 := by omega
      exact ⟨hbudget, hsome, hready⟩
  obtain ⟨⟨rst, d⟩, m', hdec, hend⟩ : ∃ r m',
      decompressWithConsumer ⟨b, bodyIo body, crc⟩ algo (streamCtx h st) st.win
        (st.ctx.setRawPos st.rawPos) m = (some r, m') ∧ UndoneSome Clear Left slack image
          (body.drop st.fetched) plain st.rawPos st.fetched r m' :=
    iterate_rule (undoing_round hundo hrest) hbegin (Nat.lt_succ_self _)
  obtain ⟨hclear', ⟨o', hleft', himage'⟩, hwrites', hcount', hanswer, hprogress, hinside',
    hshort⟩ := hend
  have hgo : ¬(rst = .error ∨ d.produced = 0) := not_or.mpr ⟨hanswer, hprogress⟩
  rw [streamDecode_eq hdec, if_neg hgo]
  refine ⟨⟨hstart, hle, hinside', ⟨plain, o', hclear', hleft', himage'⟩, hwrites', hcount',
    hshort⟩, ?_⟩
  show h.rawSize.toNat - (st.rawPos + d.produced) < h.rawSize.toNat - st.rawPos
  have hpositive : d.produced ≠ 0 := hprogress
  omega

include hsmall

theorem undoneBody_round (st : StreamLoop) (m : Machine Unit κ)
    (hst : UndoneBody Clear Left slack body image st m) :
    Ends (UndoneBody Clear Left slack body image) (StreamLoop.left h) (UndoneAll image)
      (StreamLoop.left h st) (streamRound ⟨b, bodyIo body, crc⟩ h src algo st m) := by
  obtain ⟨hstart, hle, hinside, ⟨plain, o, hclear, hleft, himage⟩, ⟨s, hs⟩, hcount, hshort⟩ := hst
  have htotal : image.length = st.rawPos + o.length := by
    rw [← himage, List.length_append, hcount]
  by_cases hdone : h.rawSize.toNat ≤ st.rawPos
  · rw [stream_finish hdone]
    have hnil : o = [] := List.eq_nil_of_length_eq_zero (by omega)
    refine ⟨⟨_, rfl⟩, ?_⟩
    rw [← himage, hnil, List.append_nil]
  have hmore : o ≠ [] := by
    rintro rfl
    rw [List.length_nil] at htotal
    omega
  have hshort : st.win.len ≤ slack := by
    refine hshort.resolve_right fun hall => hmore ?_
    rw [hall] at himage
    exact List.append_right_eq_self.mp himage
  have hpkgLe : st.fetched ≤ h.pkgSize.toNat := hpkg ▸ hle
  by_cases hfetch : 0 < remainLen h st.srcPos
  · obtain ⟨hless, hint⟩ := (fetch_iff hstart hpkgLe).mp hfetch
    have hn := nextRead_eq hstart hpkgLe hint
    rw [hpkg] at hn hless
    rw [stream_fetch hdone hfetch]
    have hsrc : st.srcPos = srcReadPos + st.fetched := by
      unfold StreamLoop.fetched
      omega
    generalize nextRead h st = n at hn ⊢
    have hbuf : cmprsReadSize = 4096 := rfl
    have hend : st.fetched + n ≤ body.length := by omega
    have hpiece : n = cmprsReadSize ∨ st.fetched + n = body.length := by omega
    rw [hsrc]
    have hquiet : acceptedBytes (m.record [.filled st.win.len n]).log = acceptedBytes m.log := by
      show acceptedBytes (m.log ++ [_]) = _
      rw [acceptedBytes_append]
      exact List.append_nil _
    have hclear₁ : Clear (m.record [.filled st.win.len n]).mem (body.drop st.fetched) plain :=
      hclear
    obtain ⟨win, q, m', hread, hlen, hbytes, hclear', hkeep, hlog⟩ :=
      fwPkgRead_undoes hundo hshort hend hpiece hclear₁
    rw [hread]
    dsimp only
    -- the loop state that is decoded: the same image left, more input
    generalize hst' : ({ st with srcPos := srcReadPos + st.fetched + n, win := win } :
      StreamLoop) = st'
    have hpos' : st'.srcPos = srcReadPos + (st.fetched + n) := by
      rw [← hst', ← Nat.add_assoc]
    have hwin' : st'.win = win := by rw [← hst']
    have hfetched' : st'.fetched = st.fetched + n := by
      unfold StreamLoop.fetched
      rw [hpos', Nat.add_sub_cancel_left]
      rfl
    have hraw' : st'.rawPos = st.rawPos := by rw [← hst']
    have hctx' : st'.ctx = .write s := by rw [← hst', ← hs]
    rw [← left_congr hraw']
    apply undoneBody_decode hundo hpkg hraw
    · rw [hpos']
      exact Nat.le_add_right _ _
    · rw [hfetched']
      exact hend
    · rw [hfetched', hwin', hlen]
      omega
    · rw [hfetched']
      exact hclear'
    · rw [hwin', hbytes]
      exact hkeep _ _ hleft
    · rw [hlog, hquiet]
      exact himage
    · exact ⟨s, hctx'⟩
    · rw [hlog, hquiet, hraw']
      exact hcount
    · rw [hwin', hlen]
      omega
    · exact hmore
    · rw [hwin', hlen]
      omega
    · rw [hwin', hlen]
      rcases hpiece with hfull | hall
      · have hslack := hundo.slack_lt
        refine .inl ?_
        omega
      · have hnone : body.drop (st.fetched + n) = [] := List.drop_of_length_le hall.ge
        rw [hnone] at hclear'
        exact .inr (List.eq_nil_of_length_eq_zero (hundo.clear_length hclear'))
  · -- the whole body has been read
    have hall : st.fetched = body.length := by
      by_contra hne
      exact hfetch ((fetch_iff hstart hpkgLe).mpr ⟨by omega, by omega⟩)
    have hnone : body.drop st.fetched = [] := List.drop_of_length_le hall.ge
    rw [hnone] at hclear
    have hplain : plain = [] := List.eq_nil_of_length_eq_zero (hundo.clear_length hclear)
    have hsome : st.win.len ≠ 0 := by
      intro hzero
      rw [hplain, CmprsBuf.bytes_of_len_eq_zero hzero] at hleft
      exact hmore (hundo.left_nil hleft)
    have hremain : ¬(remainLen h st.srcPos < 0 ∨ st.win.len = 0) := by
      rw [show st.srcPos = srcReadPos + st.fetched by unfold StreamLoop.fetched; omega,
        remainLen_eq hpkgLe, hpkg, hall, Nat.sub_self]
      exact not_or.mpr ⟨by decide, hsome⟩
    rw [stream_drain hdone hfetch hremain]
    rw [← hnone] at hclear
    exact undoneBody_decode hundo hpkg hraw hstart hle hinside hclear hleft himage ⟨s, hs⟩
      hcount (hshort.trans (Nat.le_add_right _ _)) hmore hsome (.inr hplain)

/-- Stages that undo an encoding unpack it, from any memory that they start with. -/
theorem unpack_undoes {k : κ} {stream : List UInt8} (hclear : Clear k body stream)
    (hleft : Left k stream image) :
    unpack b crc algo h src dst body k = some image := by
  have hstart : UndoneBody Clear Left slack body image
      ⟨srcReadPos, 0, .empty, .write ⟨dst, 0, h.rawSize.toNat⟩⟩
      (⟨(), k, h, []⟩ : Machine Unit κ) := by
    refine ⟨le_rfl, Nat.zero_le _, Nat.zero_le _, ⟨stream, image, hclear, hleft, rfl⟩,
      ⟨_, rfl⟩, rfl, .inl (Nat.zero_le _)⟩
  obtain ⟨r, m', hrun, ⟨pc, rfl⟩, himage⟩ : ∃ r m',
      iterate (streamRound ⟨b, bodyIo body, crc⟩ h src algo) (h.rawSize.toNat + 1)
        ⟨srcReadPos, 0, .empty, .write ⟨dst, 0, h.rawSize.toNat⟩⟩
        (⟨(), k, h, []⟩ : Machine Unit κ) = (some r, m') ∧ UndoneAll image r m' :=
    iterate_rule (undoneBody_round hundo hpkg hraw hsmall) hstart (Nat.lt_succ_self _)
  have hpass : fwStreamProcess ⟨b, bodyIo body, crc⟩ h src algo
      (.write ⟨dst, 0, h.rawSize.toNat⟩) (⟨(), k, h, []⟩ : Machine Unit κ) =
      ((true, pc), m') := by
    simp only [fwStreamProcess, streamProcess, Prog.run_bind, hrun]
    rfl
  rw [unpack, hpass]
  exact congrArg some himage

end Pass

end Qboot
