import Qboot.Proofs.TwoBoots
import Qboot.Proofs.Validation
/-!
# Two boots along the code

From the codecs up to `qbt_fw_update`, what the interrupted and the undisturbed boot
do side by side.  They may differ in what the destination held, and behind the end
of the package.
-/

namespace Qboot

open Library Bytes Flash Prog Machine Loop

variable {κ α : Type}

/-- Both boots run `x` side by side, and what was known of the second one stays. -/
abbrev Stays (dst : TargetId) (r R : TargetId → Region) (c : Prop) (info : FwInfo)
    (T : Nat → Prop) (x : Prog (Machine FlashDev κ) α) : Prop :=
  Follows dst r R (Has dst R c info T) x fun _ m => Has dst R c info T m

variable {backend : TargetId → Backend} {env : Env FlashDev κ} {dst : TargetId}
  {r R : TargetId → Region} {c : Prop} {info : FwInfo} {T : Nat → Prop}

/-! ## Codec stages -/

theorem stays_pure (a : α) :
    Stays dst r R c info T (pure a : Prog (Machine FlashDev κ) α) :=
  .pure fun _ h => h

theorem stays_stageInit (stage : Stage) (init : Option (Prog κ RtErr)) :
    Stays dst r R c info T (stageInit stage init) := by
  unfold stageInit
  rcases init with _ | init
  · exact stays_pure _
  · exact (follows_onMem _).bind fun _ => (follows_emit rfl).bind fun _ => stays_pure _

theorem stays_stageDeinit (stage : Stage) (deinit : Option (Prog κ Unit)) :
    Stays dst r R c info T (stageDeinit stage deinit) := by
  unfold stageDeinit
  rcases deinit with _ | deinit
  · exact stays_pure _
  · exact (follows_onMem _).bind fun _ => follows_emit rfl

theorem stays_fwAlgoInit (algo : AlgoContext κ) :
    Stays dst r R c info T (fwAlgoInit algo) := by
  refine (stays_stageInit _ _).bind fun _ => .ite (fun _ => ?_) fun _ => stays_pure _
  refine (stays_stageInit _ _).bind fun _ => .ite (fun _ => stays_pure _) fun _ => ?_
  exact (stays_stageDeinit _ _).bind fun _ => stays_pure _

theorem stays_fwAlgoDeinit (algo : AlgoContext κ) :
    Stays dst r R c info T (fwAlgoDeinit algo) :=
  (stays_stageDeinit _ _).bind fun _ => stays_stageDeinit _ _

/-! ## The stream -/

def ProcCtx.Onto (dst : TargetId) : ProcCtx → Prop
  | .crc _ => True
  | .write st => st.dst.target = dst

theorem follows_consumer (pc : ProcCtx) (buf : List UInt8) :
    Follows dst r R (Has dst R (pc.Onto dst) info T)
      (consumer (regionEnv backend env).toPlatform pc buf : Prog (Machine FlashDev κ) _)
      fun res => Has dst R (res.2.Onto dst) info T := by
  cases pc with
  | crc acc => exact .pure fun m hm => hm
  | write st =>
      refine (follows_ioWrite fun hpc => hpc).bind fun ok =>
        .ite (fun _ => .pure fun m hm => hm.1) fun _ => .pure fun m hm => hm.1

def DecOnto (dst : TargetId) (R : TargetId → Region) (info : FwInfo) (T : Nat → Prop)
    (d : DecState) : Machine FlashDev κ → Prop :=
  Has dst R (d.ctx.Onto dst) info T

theorem follows_decompressRound (algo : AlgoContext κ) (ctx : StreamCtx) (d : DecState) :
    Follows dst r R (DecOnto dst R info T d)
      (decompressRound (regionEnv backend env).toPlatform algo ctx d)
      (OfNext (DecOnto dst R info T) fun p => DecOnto dst R info T p.2) := by
  refine .ite (fun _ => .pure fun m hm => hm) fun _ => (follows_emit rfl).bind fun _ =>
    (follows_onMem _).bind fun res => .ite (fun _ => .pure fun m hm => hm) fun _ => ?_
  refine (follows_consumer _ _).bind fun c => .ite (fun _ => .pure fun m hm => hm) fun _ => ?_
  exact (follows_emit rfl).bind fun _ => .pure fun m hm => hm

theorem follows_decompressWithConsumer (algo : AlgoContext κ) (ctx : StreamCtx)
    (win : CmprsBuf) (pc : ProcCtx) :
    Follows dst r R (Has dst R (pc.Onto dst) info T)
      (decompressWithConsumer (regionEnv backend env).toPlatform algo ctx win pc)
      (OfOption (Has dst R True info T) fun p => DecOnto dst R info T p.2) :=
  .iterate (fun _ _ hm => hm.imp fun _ => trivial) (follows_decompressRound algo ctx)
    _ ⟨win, ctx.rawRemaining, 0, 0, .zero, pc⟩

/-! ## Reading the package -/

section Package

variable {src : Handle} {n : Nat}

/-- The source is not the destination, and its first `n` bytes agree. -/
structure SamePackage (src : Handle) (dst : TargetId) (r R : TargetId → Region)
    (n : Nat) : Prop where
  ne : src.target ≠ dst
  same : ∀ a, a < n → (r src.target).cells a = (R src.target).cells a

theorem follows_readPackage (hpkg : SamePackage src dst r R n) {off len : Nat}
    (hc : c → off + len ≤ n) :
    Follows dst r R (Has dst R c info T)
      (ioRead (regionIo backend) src off len : Prog (Machine FlashDev κ) _) fun b m =>
        Has dst R (c ∧ ∀ bytes, b = some bytes →
          bytes = (R src.target).read off len) info T m := by
  refine follows_ioRead (fun m m' hA hm a _ hhi => ?_) fun m m' hA hm b more hbytes => ?_
  · obtain ⟨hr, hR⟩ := hA.others src.target hpkg.ne
    rw [hr, hR]
    have hend := hc hm.cond
    exact hpkg.same a (by omega)
  · rw [(hA.others src.target hpkg.ne).2] at hbytes
    have hlater : Has dst R c info T { m' with log := m'.log ++ more } := hm.grow rfl rfl
    exact hlater.imp fun h => ⟨h, hbytes⟩

theorem stays_fwPkgRead (hpkg : SamePackage src dst r R n) {off len : Nat}
    (hc : c → off + len ≤ n) (win : CmprsBuf) (algo : AlgoContext κ) :
    Stays dst r R c info T
      (fwPkgRead (regionEnv backend env).toPlatform src off win len algo) := by
  refine (follows_readPackage hpkg hc).bind fun cipher => ?_
  rcases cipher with _ | cipher
  · exact .pure fun m hm => hm.imp fun h => h.1
  · refine ((follows_onMem _).pre fun m hm => hm.imp fun h => h.1).bind fun plain => ?_
    exact (follows_emit rfl).bind fun _ => stays_pure _

theorem remainLen_toNat {h : FwInfo} {pos : Nat} (hlo : srcReadPos ≤ pos)
    (hhi : pos ≤ srcReadPos + h.pkgSize.toNat) (hsmall : h.pkgSize.toNat < 2 ^ 31) :
    (remainLen h pos).toNat = srcReadPos + h.pkgSize.toNat - pos := by
  have hpos : pos = srcReadPos + (pos - srcReadPos) := by omega
  rw [hpos, remainLen_eq (by omega), i32, if_pos (by omega), Int.toNat_natCast]
  omega

def StreamOnto (h : FwInfo) (dst : TargetId) (R : TargetId → Region) (info : FwInfo)
    (T : Nat → Prop) (st : StreamLoop) : Machine FlashDev κ → Prop :=
  Has dst R ((srcReadPos ≤ st.srcPos ∧ st.srcPos ≤ srcReadPos + h.pkgSize.toNat) ∧
    st.ctx.Onto dst) info T

variable {h : FwInfo}

theorem follows_streamDecode (algo : AlgoContext κ) (st : StreamLoop) :
    Follows dst r R (StreamOnto h dst R info T st)
      (streamDecode (regionEnv backend env).toPlatform h algo st)
      (OfNext (StreamOnto h dst R info T) fun _ => Has dst R True info T) := by
  have honto (pc : ProcCtx) (pos : Nat) : pc.Onto dst → (pc.setRawPos pos).Onto dst := by
    intro hpc
    cases pc <;> exact hpc
  refine Lockstep.bind (Q := fun res m => OfOption (Has dst R True info T)
      (fun p => DecOnto dst R info T p.2) res m ∧
        (srcReadPos ≤ st.srcPos ∧ st.srcPos ≤ srcReadPos + h.pkgSize.toNat))
    (((follows_decompressWithConsumer algo _ st.win (st.ctx.setRawPos st.rawPos)).frame
      fun _ hpos => hpos).pre fun m hm =>
        ⟨hm.imp fun hst => honto _ _ hst.2, hm.cond.1⟩) fun res => ?_
  rcases res with _ | ⟨rst, d⟩
  · exact .pure fun m hm => hm.1
  · exact .ite (fun _ => .pure fun m hm => hm.1.imp fun _ => trivial) fun _ =>
      .pure fun m hm => hm.1.imp fun hd => ⟨hm.2, hd⟩

theorem follows_streamRound (hpkg : SamePackage src dst r R n)
    (hn : srcReadPos + h.pkgSize.toNat ≤ n) (hsmall : h.pkgSize.toNat < 2 ^ 31)
    (algo : AlgoContext κ) (st : StreamLoop) :
    Follows dst r R (StreamOnto h dst R info T st)
      (streamRound (regionEnv backend env).toPlatform h src algo st)
      (OfNext (StreamOnto h dst R info T) fun _ => Has dst R True info T) := by
  have hend : Follows dst r R (StreamOnto h dst R info T st)
      (pure (.done (some (false, st.ctx))) : Prog (Machine FlashDev κ) _)
      (OfNext (StreamOnto h dst R info T) fun _ => Has dst R True info T) :=
    .pure fun m hm => hm.imp fun _ => trivial
  refine .ite (fun _ => .pure fun m hm => hm.imp fun _ => trivial) fun _ => ?_
  refine .ite (fun _ => ?_) fun _ => .ite (fun _ => hend) fun _ => follows_streamDecode algo st
  generalize hlen : min cmprsReadSize (remainLen h st.srcPos).toNat = len
  have hread (hpos : srcReadPos ≤ st.srcPos ∧ st.srcPos ≤ srcReadPos + h.pkgSize.toNat) :
      st.srcPos + len ≤ srcReadPos + h.pkgSize.toNat := by
    rw [← hlen, remainLen_toNat hpos.1 hpos.2 hsmall]
    omega
  refine (follows_emit rfl).bind fun _ =>
    (stays_fwPkgRead hpkg (fun hst => (hread hst.1).trans hn) _ _).bind fun res => ?_
  rcases res with _ | win
  · exact hend
  · refine (follows_streamDecode algo _).pre fun m hm => hm.imp fun hst => ⟨⟨?_, ?_⟩, hst.2⟩
    · exact Nat.le_add_right_of_le hst.1.1
    · exact hread hst.1

theorem follows_fwStreamProcess (hpkg : SamePackage src dst r R n)
    (hn : srcReadPos + h.pkgSize.toNat ≤ n) (hsmall : h.pkgSize.toNat < 2 ^ 31)
    (algo : AlgoContext κ) (pc : ProcCtx) (hpc : c → pc.Onto dst) :
    Stays dst r R c info T
      (fwStreamProcess (regionEnv backend env).toPlatform h src algo pc) := by
  have hspent (st : StreamLoop) (m : Machine FlashDev κ)
      (hm : StreamOnto h dst R info T st m) : Has dst R True info T m :=
    hm.imp fun _ => trivial
  have hround (st : StreamLoop) : Follows dst r R (StreamOnto h dst R info T st)
      (streamRound (regionEnv backend env).toPlatform h src algo st)
      (OfNext (StreamOnto h dst R info T) fun _ => Has dst R True info T) :=
    follows_streamRound hpkg hn hsmall algo st
  have hloop := Lockstep.iterate hspent hround (h.rawSize.toNat + 1) ⟨srcReadPos, 0, .empty, pc⟩
  have hstart (m : Machine FlashDev κ) (hm : Has dst R c info T m) :
      StreamOnto h dst R info T ⟨srcReadPos, 0, .empty, pc⟩ m ∧ c :=
    ⟨hm.imp fun hc => ⟨⟨Nat.le_refl _, Nat.le_add_right _ _⟩, hpc hc⟩, hm.cond⟩
  have hend (res : Option (Option (Bool × ProcCtx))) (m : Machine FlashDev κ)
      (hm : OfOption (Has dst R True info T) (fun _ => Has dst R True info T) res m ∧ c) :
      Has dst R c info T m := by
    rcases res with _ | res <;> exact hm.1.imp fun _ => hm.2
  have hprocess := ((hloop.frame fun _ hc => hc).pre hstart).post hend
  exact (hprocess.bind fun _ => stays_pure _).bind fun _ => stays_pure _

end Package

/-! ## Checking -/

/-- Both boots read the same in the first `n` bytes behind `h`. -/
def Readable (backend : TargetId → Backend) (dst : TargetId) (r R : TargetId → Region)
    (info : FwInfo) (T : Nat → Prop) (h : Handle) (n : Nat) : Prop :=
  ∀ (κ : Type) (c : Prop) (off len : Nat), (c → off + len ≤ n) →
    Stays dst r R c info T (ioRead (regionIo backend) h off len : Prog (Machine FlashDev κ) _)

def CrcAt (size : Nat) (dst : TargetId) (R : TargetId → Region) (c : Prop) (info : FwInfo)
    (T : Nat → Prop) (p : Nat × UInt32) : Machine FlashDev κ → Prop :=
  Has dst R (c ∧ p.1 ≤ size ∧ (p.1 = 0 ∨ p.1 = size ∨ size < 2 ^ 31)) info T

theorem follows_crcCheckRound {h : Handle} {addr size n : Nat}
    (hread : Readable backend dst r R info T h n) (hn : addr + size ≤ n)
    (haddr : addr ≤ 2 ^ 31) (hsize : size < 2 ^ 32) (p : Nat × UInt32) :
    Follows dst r R (CrcAt size dst R c info T p)
      (crcCheckRound (regionEnv backend env) h addr size p)
      (OfNext (CrcAt size dst R c info T) fun _ => Has dst R c info T) := by
  refine .ite (fun _ => .pure fun m hm => hm.imp fun h => h.1) fun hgo => ?_
  dsimp only
  generalize hlen : sizeT (min bufSize (i32 (size - p.1))) = len
  have hspec (hp : p.1 ≤ size ∧ (p.1 = 0 ∨ p.1 = size ∨ size < 2 ^ 31)) :
      u32 (addr + p.1) + len ≤ n ∧ u32 (p.1 + len) ≤ size ∧
        (u32 (p.1 + len) = size ∨ size < 2 ^ 31) := by
    have hfirst : p.1 = 0 ∨ size < 2 ^ 31 := hp.2.imp_right fun h => h.resolve_left (by omega)
    obtain ⟨hpos, hle, hlast⟩ := crcReadLen_spec (by omega) hsize hfirst hlen
    have hat : u32 (addr + p.1) = addr + p.1 := Nat.mod_eq_of_lt (by omega)
    have hnext : u32 (p.1 + len) = p.1 + len := Nat.mod_eq_of_lt (by omega)
    rw [hat, hnext]
    exact ⟨by omega, hle, hlast⟩
  have hround : Stays dst r R _ info T _ :=
    hread κ (c ∧ p.1 ≤ size ∧ (p.1 = 0 ∨ p.1 = size ∨ size < 2 ^ 31)) (u32 (addr + p.1)) len
      fun hp => (hspec hp.2).1
  refine hround.bind fun res => ?_
  rcases res with _ | data
  · exact .pure fun m hm => hm.imp fun h => h.1
  · exact .pure fun m hm => hm.imp fun h => ⟨h.1, (hspec h.2).2.1, .inr (hspec h.2).2.2⟩

theorem stays_fwCrcCheck {h : Handle} {addr size n : Nat}
    (hread : Readable backend dst r R info T h n) (hn : addr + size ≤ n)
    (haddr : addr ≤ 2 ^ 31) (hsize : size < 2 ^ 32) (crc : UInt32) :
    Stays dst r R c info T (fwCrcCheck (regionEnv backend env) h addr size crc) := by
  have hspent (p : Nat × UInt32) (m : Machine FlashDev κ)
      (hm : CrcAt size dst R c info T p m) : Has dst R c info T m := hm.imp fun h => h.1
  have hround (p : Nat × UInt32) : Follows dst r R (CrcAt size dst R c info T p)
      (crcCheckRound (regionEnv backend env) h addr size p)
      (OfNext (CrcAt size dst R c info T) fun _ => Has dst R c info T) :=
    follows_crcCheckRound hread hn haddr hsize p
  have hloop := Lockstep.iterate hspent hround (size + 1) (0, 0xFFFFFFFF)
  have hstart (m : Machine FlashDev κ) (hm : Has dst R c info T m) :
      CrcAt size dst R c info T (0, 0xFFFFFFFF) m :=
    hm.imp fun hc => ⟨hc, Nat.zero_le _, .inl rfl⟩
  have hend (res : Option (Option UInt32)) (m : Machine FlashDev κ)
      (hm : OfOption (Has dst R c info T) (fun _ => Has dst R c info T) res m) :
      Has dst R c info T m := by
    rcases res with _ | res <;> exact hm
  exact ((hloop.pre hstart).post hend).bind fun _ => stays_pure _

section Checks

variable {src : Handle} {n : Nat}

theorem SamePackage.readable (hpkg : SamePackage src dst r R n) :
    Readable backend dst r R info T src n := by
  intro κ c off len hc
  exact (follows_readPackage hpkg hc).post fun b m hm => hm.imp fun h => h.1

theorem follows_headerRead (hpkg : SamePackage src dst r R n) (hn : srcReadPos ≤ n)
    (partLen : Nat) :
    Follows dst r R (Has dst R c info T) (fwInfoRead (regionEnv backend env) src partLen false)
      fun ok => Has dst R c (if ok then headerOf (R src.target).cells else info) T := by
  refine .ite (fun hno => absurd hno.1 Bool.false_ne_true) fun _ => ?_
  refine (follows_readPackage hpkg fun _ => hn).bind fun res => ?_
  rcases res with _ | bytes
  · exact .pure fun m hm => hm.imp fun h => h.1
  · refine (follows_setFwInfo _).bind fun _ => .pure fun m hm => ?_
    have hbytes : bytes = readCells (R src.target).cells 0 srcReadPos := hm.cond.2 bytes rfl
    refine ⟨hm.cond.1, ?_, hm.done⟩
    rw [hm.info, hbytes]
    rfl

theorem stays_appCrcCheck {h : FwInfo} (hpkg : SamePackage src dst r R n)
    (hn : srcReadPos + h.pkgSize.toNat ≤ n) (hsmall : h.pkgSize.toNat < 2 ^ 31) :
    Stays dst r R c info T (appCrcCheck (regionEnv backend env) src h) := by
  unfold appCrcCheck
  rcases fwGetAlgoContext (regionEnv backend env).tables h with _ | algo
  · exact stays_pure _
  refine (stays_fwAlgoInit _).bind fun _ => .ite (fun _ => ?_) fun _ => stays_pure _
  refine (follows_fwStreamProcess hpkg hn hsmall algo (.crc 0xFFFFFFFF) fun _ => trivial).bind fun res => ?_
  exact (stays_fwAlgoDeinit _).bind fun _ => stays_pure _

theorem follows_fwCheck (hpkg : SamePackage src dst r R n)
    (hn : srcReadPos + (headerOf (R src.target).cells).pkgSize.toNat ≤ n)
    (hsmall : (headerOf (R src.target).cells).pkgSize.toNat < 2 ^ 31) (partLen : Nat) :
    Follows dst r R (Has dst R c info T) (fwCheck (regionEnv backend env) src partLen)
      fun ok m => ok = true → Has dst R c (headerOf (R src.target).cells) T m := by
  refine (follows_headerRead hpkg (by omega) partLen).bind fun ok =>
    .ite (fun hok => ?_) fun _ => .pure fun m hm hno => nomatch hno
  rw [if_pos hok]
  refine follows_info.bind fun i => ?_
  have hidles := idles_admits backend env
  refine follows_assume (c := i = headerOf (R src.target).cells) ?_ (fun m hm => hm.cond.2)
    fun hi => ?_
  · refine .ite (.pure _) ((within_fwCrcCheck hidles _ _ _ _).bind fun _ => ?_)
    exact .ite (.ite (within_appCrcCheck hidles _ _) (.pure _)) (.pure _)
  subst hi
  refine .ite (fun _ => .pure fun m hm hno => nomatch hno) fun _ => ?_
  refine (stays_fwCrcCheck hpkg.readable hn (by decide) (by omega) _).bind fun ok =>
    .ite (fun _ => ?_) fun _ => .pure fun m hm hno => nomatch hno
  refine .ite (fun _ => ?_) fun _ => .pure fun m hm _ => hm.imp fun h => h.1
  exact (stays_appCrcCheck hpkg hn hsmall).post fun _ m hm _ => hm.imp fun h => h.1

end Checks

/-! ## Releasing -/

section Release

variable {src : Handle} {n : Nat} {h : Handle}

theorem fwInfoWrite_tail (env : Env FlashDev κ) (h : Handle) (partLen : Nat) (hi : FwInfo) :
    fwInfoWrite env h partLen hi true =
      ioWrite env.io h (u32Sub partLen srcReadPos) hi.toBytes := by
  simp only [fwInfoWrite, if_true]

def keepHeader : Option (Block srcReadPos) → Prog (Machine FlashDev κ) Bool
  | none => pure false
  | some bytes => do
      setFwInfo (.ofBytes bytes)
      pure true

theorem fwInfoRead_tail (env : Env FlashDev κ) (h : Handle) (partLen : Nat) :
    fwInfoRead env h partLen true = if partLen < srcReadPos then pure false
      else ioRead env.io h (u32Sub partLen srcReadPos) srcReadPos >>= keepHeader := by
  simp only [fwInfoRead, true_and, if_true]
  congr 2

theorem follows_streamRelease (hpkg : SamePackage src dst r R n) (hi : FwInfo)
    (hn : srcReadPos + hi.pkgSize.toNat ≤ n) (hsmall : hi.pkgSize.toNat < 2 ^ 31)
    (htarget : h.target = dst) (dstSize : Nat) (algo : AlgoContext κ) :
    Follows dst r R (Has dst R c info T)
      (streamRelease (regionEnv backend env) h dstSize src hi algo) fun ok m =>
        ok = true → Has dst R c info
          (fun a => T a ∨ Covers (R dst).unit 0 hi.rawSize.toNat a) m := by
  have hfail {T' : Nat → Prop} : Follows dst r R (Has dst R c info T') (do
      fwAlgoDeinit algo
      pure false : Prog (Machine FlashDev κ) Bool) fun ok m =>
        ok = true → Has dst R c info
          (fun a => T a ∨ Covers (R dst).unit 0 hi.rawSize.toNat a) m :=
    (stays_fwAlgoDeinit algo).bind fun _ => .pure fun m hm hno => nomatch hno
  refine (follows_erase fun _ => htarget).bind fun ok => .ite (fun hok => ?_) fun _ =>
    hfail.pre fun m hm => hm.1
  have hstart (m : Machine FlashDev κ) (hm : Has dst R c info T m ∧ (ok = true →
      ∀ a, Covers (R dst).unit 0 hi.rawSize.toNat a → touched (R dst).unit dst m.log a)) :
      Has dst R c info (fun a => T a ∨ Covers (R dst).unit 0 hi.rawSize.toNat a) m :=
    ⟨hm.1.cond, hm.1.info, fun a ha => ha.elim (hm.1.done a) (hm.2 hok a)⟩
  refine ((follows_erase fun _ => htarget).pre hstart).bind fun ok' =>
    .ite (fun _ => ?_) fun _ => hfail.pre fun m hm => hm.1
  refine ((follows_fwStreamProcess hpkg hn hsmall algo (.write ⟨h, 0, hi.rawSize.toNat⟩)
    fun _ => htarget).pre fun m hm => hm.1).bind fun res => ?_
  exact (stays_fwAlgoDeinit algo).bind fun _ => .pure fun m hm _ => hm

/-- The code hands the release of this package to the patcher. -/
def patches (env : Env FlashDev κ) (hi : FwInfo) : Bool :=
  match fwGetAlgoContext env.tables hi with
  | none => false
  | some algo => env.build.usingHpatchlite && algo.cmprs.cmprsId == algoCmprsHpatchlite

/-- What a released package has touched: the image range and the tail header. -/
def Placed (unit tail : Nat) (hi : FwInfo) (a : Nat) : Prop :=
  Covers unit 0 hi.rawSize.toNat a ∨ tail ≤ a ∧ a < tail + srcReadPos

/-- The tail of the destination holds the header. -/
def TailIs (dst : TargetId) (tail : Nat) (hi : FwInfo) (m : Machine FlashDev κ) : Prop :=
  ((m.dev.region dst).read tail srcReadPos).1 = hi.toBytes

theorem follows_fwRelease (hpkg : SamePackage src dst r R n) (hi : FwInfo)
    (hn : srcReadPos + hi.pkgSize.toNat ≤ n) (hsmall : hi.pkgSize.toNat < 2 ^ 31)
    (htarget : h.target = dst) (hfull : patches env hi = false) (dstSize : Nat) :
    Follows dst r R (Has dst R c info T)
      (fwRelease (regionEnv backend env) h dstSize src hi) fun ok m => ok = true →
        Has dst R c info (fun a => T a ∨ Placed (R dst).unit (u32Sub dstSize srcReadPos) hi a) m ∧
          TailIs dst (u32Sub dstSize srcReadPos) hi m := by
  unfold fwRelease
  unfold patches at hfull
  have htables : (regionEnv backend env).tables = env.tables := rfl
  rcases halgo : fwGetAlgoContext env.tables hi with _ | algo
  · rw [htables, halgo]
    exact .pure fun m hm hno => nomatch hno
  rw [halgo] at hfull
  rw [htables, halgo]
  refine (stays_fwAlgoInit algo).bind fun ok => .ite (fun _ => ?_) fun _ =>
    .pure fun m hm hno => nomatch hno
  have hstream : ((regionEnv backend env).build.usingHpatchlite &&
      algo.cmprs.cmprsId == algoCmprsHpatchlite) = false := hfull
  simp only [hstream, Bool.false_eq_true, if_false]
  refine (follows_streamRelease hpkg hi hn hsmall htarget dstSize algo).bind fun ok =>
    .ite (fun hok => ?_) fun _ => .pure fun m hm hno => nomatch hno
  rw [fwInfoWrite_tail]
  generalize u32Sub dstSize srcReadPos = tail
  refine ((follows_ioWrite fun _ => htarget).pre fun m hm => hm hok).post fun ok m hm hok => ?_
  obtain ⟨htail, hread⟩ := hm.2 hok
  rw [hi.length_toBytes] at htail hread
  refine ⟨⟨hm.1.cond, hm.1.info, fun a ha => ?_⟩, hread⟩
  rcases ha with ha | ha | ⟨hlo, hhi⟩
  · exact hm.1.done a (.inl ha)
  · exact hm.1.done a (.inr ha)
  · exact htail a hlo hhi

theorem readable_of_touched (htarget : h.target = dst) {lim : Nat}
    (hT : ∀ a, a < lim → T a) : Readable backend dst r R info T h lim := by
  intro κ c off len hc
  refine follows_ioRead (fun m m' hA hm a _ hhi => ?_) fun m m' hA hm b more hbytes =>
    hm.grow rfl rfl
  have hend := hc hm.cond
  rw [htarget]
  exact hA.same a (hm.done a (hT a (by omega)))

theorem follows_tailRead (htarget : h.target = dst) {hi : FwInfo} {partLen : Nat}
    (hT : ∀ a, u32Sub partLen srcReadPos ≤ a → a < u32Sub partLen srcReadPos + srcReadPos →
      T a) :
    Follows dst r R
      (fun m => Has dst R c info T m ∧ TailIs dst (u32Sub partLen srcReadPos) hi m)
      (fwInfoRead (regionEnv backend env) h partLen true) fun ok m =>
        ok = true → Has dst R c hi T m := by
  rw [fwInfoRead_tail]
  generalize u32Sub partLen srcReadPos = tail at hT ⊢
  refine .ite (fun _ => .pure fun m hm hno => nomatch hno) fun _ => ?_
  refine Lockstep.bind (Q := fun b => Has dst R (c ∧ ∀ bytes, b = some bytes →
    bytes.1 = hi.toBytes) info T) (follows_ioRead (fun m m' hA hm a hlo hhi => ?_)
      fun m m' hA hm b more hbytes => ?_) fun b => ?_
  · rw [htarget]
    exact hA.same a (hm.1.done a (hT a hlo hhi))
  · have hlater : Has dst R c info T { m' with log := m'.log ++ more } := hm.1.grow rfl rfl
    refine hlater.imp fun hcond => ⟨hcond, fun bytes hb => ?_⟩
    rw [hbytes bytes hb, htarget]
    exact hm.2
  · rcases b with _ | bytes
    · exact .pure fun m hm hno => nomatch hno
    · refine (follows_setFwInfo _).bind fun _ => .pure fun m hm _ => ⟨hm.cond.1, ?_, hm.done⟩
      have hround : FwInfo.ofBytes bytes = hi := by
        rw [← hi.ofBytes_toBytes]
        congr 1
        exact Subtype.ext (hm.cond.2 bytes rfl)
      rw [hm.info, hround]

theorem follows_destPartVerify (htarget : h.target = dst) {hi : FwInfo} {partLen : Nat}
    (hT : ∀ a, u32Sub partLen srcReadPos ≤ a → a < u32Sub partLen srcReadPos + srcReadPos →
      T a) (himage : ∀ a, a < hi.rawSize.toNat → T a) :
    Follows dst r R
      (fun m => Has dst R c info T m ∧ TailIs dst (u32Sub partLen srcReadPos) hi m)
      (destPartVerify (regionEnv backend env) h partLen) fun ok m =>
        ok = true → Has dst R c hi T m := by
  refine (follows_tailRead htarget hT).bind fun ok =>
    .ite (fun hok => ?_) fun _ => .pure fun m hm hno => nomatch hno
  have hidles := idles_admits backend env
  refine (follows_info.pre fun m hm => hm hok).bind fun i => ?_
  refine follows_assume (c := i = hi) ?_ (fun m hm => hm.cond.2) fun hi' => ?_
  · exact .ite (.pure _) (.ite (within_fwCrcCheck hidles _ _ _ _) (.pure _))
  subst hi'
  refine .ite (fun _ => .pure fun m hm hno => nomatch hno) fun _ => .ite (fun _ => ?_) fun _ =>
    .pure fun m hm _ => hm.imp fun hc => hc.1
  have hread : Readable backend dst r R i T h i.rawSize.toNat :=
    readable_of_touched htarget himage
  refine (stays_fwCrcCheck hread (Nat.le_of_eq (Nat.zero_add _)) (by decide)
    i.rawSize.toNat_lt _).post fun _ m hm _ => hm.imp fun hc => hc.1

/-- Updating the destination: an update that succeeds leaves the package's header in
the static one. -/
theorem follows_fwUpdate (hpkg : SamePackage src dst r R n)
    (hn : srcReadPos + info.pkgSize.toNat ≤ n) (hsmall : info.pkgSize.toNat < 2 ^ 31)
    (htarget : h.target = dst) (hunit : 0 < (R dst).unit) (hfull : patches env info = false)
    (dstSize : Nat) :
    Follows dst r R (Has dst R c info T) (fwUpdate (regionEnv backend env) h dstSize src)
      fun ok m => ok = true → Has dst R c info T m := by
  have hidles := idles_admits backend env
  refine follows_info.bind fun i => ?_
  refine follows_assume (c := i = info) ?_ (fun m hm => hm.cond.2) fun hi => ?_
  · refine (within_fwRelease hidles h dstSize src i).bind fun released => ?_
    have hanswer (ok : Bool) : Within Idles (do
        emit (.updated h.target ok)
        pure ok : Prog (Machine FlashDev κ) Bool) :=
      (idles_emit _).bind fun _ => .pure _
    exact .ite ((within_destPartVerify hidles h dstSize).bind hanswer) (hanswer false)
  subst hi
  refine (follows_fwRelease hpkg i hn hsmall htarget hfull dstSize).bind fun released => ?_
  have hplaced (a : Nat) (ha : a < i.rawSize.toNat) :
      Covers (R dst).unit 0 i.rawSize.toNat a := by
    refine ⟨by omega, ?_, ?_⟩
    · simp [down]
    · exact (ha.trans_le (Nat.le_add_left _ _)).trans_le (le_up hunit)
  have hanswer (ok : Bool) : Follows dst r R
      (fun m => ok = true → Has dst R (c ∧ i = i) i
        (fun a => T a ∨ Placed (R dst).unit (u32Sub dstSize srcReadPos) i a) m)
      (do
        emit (.updated h.target ok)
        pure ok : Prog (Machine FlashDev κ) Bool) fun ok m =>
          ok = true → Has dst R c i T m := by
    refine Lockstep.bind (Q := fun _ m => ok = true → Has dst R c i T m)
      (follows_record rfl fun m hm hok => ?_) fun _ => .pure fun m hm => hm
    have hdone := hm hok
    refine Has.grow (m := m) ⟨hdone.cond.1, hdone.info, fun a ha => ?_⟩ rfl rfl
    exact hdone.done a (.inl ha)
  refine .ite (fun hrel => ?_) fun _ => (hanswer false).pre fun m hm hno =>
    absurd hno Bool.false_ne_true
  refine ((follows_destPartVerify htarget (fun a hlo hhi => .inr (.inr ⟨hlo, hhi⟩))
    fun a ha => .inr (.inl (hplaced a ha))).pre fun m hm => hm hrel).bind hanswer

end Release

end Qboot
