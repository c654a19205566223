import Qboot.Model.Shell
import Qboot.Proofs.CheckPass
import Qboot.Proofs.CoherentFiles
import Qboot.Proofs.Emitted
/-!
# Only validated packages reach storage

What `qbt_fw_check` has established of the source when it accepts it, and that
releasing, resuming and cloning issue no erase and no write before that.
-/

namespace Qboot

open Library Bytes Prog Machine Loop

variable {σ κ α : Type}

/-! ## Validated packages -/

def headerOf (cells : Nat → UInt8) : FwInfo := .ofBytes (readCells cells 0 srcReadPos)

/-- The header CRC is taken of the first 92 bytes of the package. -/
theorem bodyBytes_headerOf (cells : Nat → UInt8) :
    (headerOf cells).bodyBytes = (readCells cells 0 92).1 := by
  rw [headerOf, FwInfo.bodyBytes_ofBytes, show srcReadPos = 92 + 4 from rfl,
    readCells_append, List.take_left' (readCells cells 0 92).2]

/-- Target `id`, holding `cells`, decodes to `out`: the checking pass of the
streaming engine succeeds on it and accepts these bytes. -/
def DecodesTo (env : StableEnv σ κ) (id : TargetId) (cells : Nat → UInt8)
    (out : List UInt8) : Prop :=
  ∃ ref algo m pc m' new, env.content m.dev id = cells ∧
    fwGetAlgoContext env.tables (headerOf cells) = some algo ∧
    fwStreamProcess env.toPlatform (headerOf cells) ⟨id, ref⟩ algo
      (.crc 0xFFFFFFFF) m = ((true, pc), m') ∧
    m'.log = m.log ++ new ∧ acceptedBytes new = out

/-- The package in target `id`, which holds `cells`, is the one its header and its
checksums describe. -/
structure Validated (env : StableEnv σ κ) (id : TargetId) (cells : Nat → UInt8) :
    Prop where
  magic : strEq (headerOf cells).toBytes (ascii "RBL") = true
  header : env.crc.cal (readCells cells 0 92).1 = (headerOf cells).hdrCrc
  body : env.crc.whole
    (readCells cells srcReadPos (headerOf cells).pkgSize.toNat).1 =
      (headerOf cells).pkgCrc
  image : (headerOf cells).verifyCrc = true →
    (headerOf cells).algo.toNat &&& algoCmprsMask ≠ algoCmprsHpatchlite →
    ∃ out, DecodesTo env id cells out ∧
      out.length = (headerOf cells).rawSize.toNat ∧
      env.crc.whole out = (headerOf cells).rawCrc

/-! ## The checks -/

section Checks

variable {env : StableEnv σ κ}

theorem quiet_fwInfoRead (h : Handle) (partLen : Nat) (fromTail : Bool) :
    Within (Quiet env) (fwInfoRead env.toEnv h partLen fromTail) := by
  refine .ite (.pure _) ((quiet_ioRead _ _ _).bind fun r => ?_)
  rcases r with _ | bytes
  · exact .pure _
  · exact (quiet_setFwInfo _).bind fun _ => .pure _

theorem fwInfoRead_head (env : StableEnv σ κ) (h : Handle) (partLen : Nat) (m : Machine σ κ)
    (hok : (fwInfoRead env.toEnv h partLen false m).1 = true) :
    (fwInfoRead env.toEnv h partLen false m).2.fwInfo =
      headerOf (env.content m.dev h.target) := by
  have hdata := env.read_data h 0 srcReadPos m.dev
  rcases hread : env.io.read h 0 srcReadPos m.dev with ⟨_ | bytes, dev⟩
  · simp [fwInfoRead, run_ioRead, hread] at hok
  · rw [hread] at hdata
    simp [fwInfoRead, run_ioRead, hread, headerOf, hdata bytes rfl]

/-- The length that a round of `qbt_fw_crc_check` reads at position `pos`: a
buffer or the rest, and all of a region from 2^31 bytes on. -/
theorem crcReadLen_spec {pos size : Nat} (hpos : pos < size) (hsize : size < 2 ^ 32)
    (hfirst : pos = 0 ∨ size < 2 ^ 31) {n : Nat}
    (hn : sizeT (min bufSize (i32 (size - pos))) = n) :
    0 < n ∧ pos + n ≤ size ∧ (pos + n = size ∨ size < 2 ^ 31) := by
  unfold i32 sizeT bufSize at hn
  split at hn <;> omega

/-- The accumulator of `qbt_fw_crc_check` covers the bytes before the position. -/
structure CrcSoFar (env : StableEnv σ κ) (m₀ : Machine σ κ) (h : Handle)
    (addr size : Nat) (c : Nat × UInt32) (m : Machine σ κ) : Prop where
  quiet : Quiet env m₀ m
  bound : c.1 ≤ size
  first : c.1 = 0 ∨ c.1 = size ∨ size < 2 ^ 31
  acc : c.2 = env.crc.cycCal 0xFFFFFFFF
    (readCells (env.content m₀.dev h.target) addr c.1).1

theorem crcCheckRound_step {m₀ : Machine σ κ} {h : Handle} {addr size : Nat}
    (haddr : addr ≤ 2 ^ 31) (hsize : size < 2 ^ 32) (c : Nat × UInt32)
    (m : Machine σ κ) (hI : CrcSoFar env m₀ h addr size c m) :
    Ends (CrcSoFar env m₀ h addr size) (fun c => size - c.1)
      (fun r m' => Quiet env m₀ m' ∧ ∀ acc, r = some acc →
        acc = env.crc.cycCal 0xFFFFFFFF
          (readCells (env.content m₀.dev h.target) addr size).1)
      (size - c.1) (crcCheckRound env.toEnv h addr size c m) := by
  obtain ⟨pos, acc⟩ := c
  have hbound : pos ≤ size := hI.bound
  have hfirst : pos = 0 ∨ pos = size ∨ size < 2 ^ 31 := hI.first
  have hacc : acc = env.crc.cycCal 0xFFFFFFFF
    (readCells (env.content m₀.dev h.target) addr pos).1 := hI.acc
  unfold crcCheckRound
  by_cases hdone : size ≤ pos
  · obtain rfl : pos = size := Nat.le_antisymm hbound hdone
    rw [if_pos hdone]
    refine ⟨hI.quiet, fun acc' hacc' => ?_⟩
    rw [← Option.some.inj hacc']
    exact hacc
  rw [if_neg hdone]
  generalize hlen : sizeT (min bufSize (i32 (size - pos))) = n
  have hfirst : pos = 0 ∨ size < 2 ^ 31 :=
    hfirst.imp_right fun h => h.resolve_left (by omega)
  obtain ⟨hn, hle, hlast⟩ := crcReadLen_spec (by omega) hsize hfirst hlen
  have hat : u32 (addr + pos) = addr + pos := Nat.mod_eq_of_lt (by omega)
  have hnext : u32 (pos + n) = pos + n := Nat.mod_eq_of_lt (by omega)
  simp only [hat, hnext, Prog.run_bind]
  have hquiet : Quiet env m₀ (ioRead env.io h (addr + pos) n m).2 :=
    hI.quiet.trans (quiet_ioRead h (addr + pos) n m)
  have hdata := env.read_data h (addr + pos) n m.dev
  rw [hI.quiet.1] at hdata
  rw [run_ioRead] at hquiet ⊢
  rcases hread : env.io.read h (addr + pos) n m.dev with ⟨_ | data, dev⟩
  · rw [hread] at hquiet
    exact ⟨hquiet, by simp⟩
  · rw [hread] at hquiet hdata
    refine ⟨⟨hquiet, hle, .inr hlast, ?_⟩, ?_⟩
    · show env.crc.cycCal acc data.1 = _
      rw [hacc, hdata data rfl, readCells_append, env.crc.cycCal_append]
    · show size - (pos + n) < size - pos
      omega

/-- A region whose check succeeds has the expected CRC. -/
theorem fwCrcCheck_spec (env : StableEnv σ κ) (h : Handle) {addr size : Nat} (haddr : addr ≤ 2 ^ 31)
    (hsize : size < 2 ^ 32) (crc : UInt32) (m : Machine σ κ) :
    Quiet env m (fwCrcCheck env.toEnv h addr size crc m).2 ∧
      ((fwCrcCheck env.toEnv h addr size crc m).1 = true →
        env.crc.whole (readCells (env.content m.dev h.target) addr size).1 = crc) := by
  have hstart : CrcSoFar env m h addr size (0, 0xFFFFFFFF) m :=
    ⟨refl_of (Quiet env) m, Nat.zero_le _, .inl rfl, (env.crc.cycCal_nil _).symm⟩
  obtain ⟨r, m', hrun, hquiet, hacc⟩ := iterate_rule
    (crcCheckRound_step haddr hsize) hstart (Nat.lt_succ_self _)
  have hrun : iterate (crcCheckRound env.toEnv h addr size) (size + 1)
      (0, 0xFFFFFFFF) m = (some r, m') := hrun
  simp only [fwCrcCheck, Prog.run_bind, hrun, Prog.run_pure]
  refine ⟨hquiet, fun hok => ?_⟩
  rcases r with _ | acc
  · simp at hok
  · have heq : acc ^^^ 0xFFFFFFFF = crc := by simpa using hok
    rw [CrcLib.whole, ← hacc acc rfl, heq]

theorem quiet_appCrcCheck (env : StableEnv σ κ) (h : Handle) (info : FwInfo) :
    Within (Quiet env) (appCrcCheck env.toEnv h info) := by
  unfold appCrcCheck
  rcases fwGetAlgoContext env.tables info with _ | algo
  · exact .pure _
  refine (quiet_fwAlgoInit _).bind fun _ => .ite ?_ (.pure _)
  refine Within.bind (fun m => ?_) fun _ => (quiet_fwAlgoDeinit _).bind fun _ => .pure _
  obtain ⟨r, m', hrun, hquiet, -⟩ := streamProcess_check env info h algo 0xFFFFFFFF m
  rw [fwStreamProcess, Prog.run_bind, hrun]
  exact hquiet

theorem quiet_fwCheck (env : StableEnv σ κ) (h : Handle) (partLen : Nat) :
    Within (Quiet env) (fwCheck env.toEnv h partLen) := by
  refine (quiet_fwInfoRead h partLen false).bind fun _ => .ite ?_ (.pure _)
  refine (Within.gets _).bind fun info => .ite (.pure _) ?_
  refine Within.bind (fun m => (fwCrcCheck_spec env h (by decide) info.pkgSize.toNat_lt
    info.pkgCrc m).1) fun _ => .ite ?_ (.pure _)
  exact .ite (quiet_appCrcCheck env h info) (.pure _)

theorem appCrcCheck_spec (env : StableEnv σ κ) (h : Handle) (m : Machine σ κ) :
    Quiet env m (appCrcCheck env.toEnv h (headerOf (env.content m.dev h.target)) m).2 ∧
      ((appCrcCheck env.toEnv h (headerOf (env.content m.dev h.target)) m).1 = true →
        ∃ out, DecodesTo env h.target (env.content m.dev h.target) out ∧
          out.length = (headerOf (env.content m.dev h.target)).rawSize.toNat ∧
          env.crc.whole out = (headerOf (env.content m.dev h.target)).rawCrc) := by
  generalize hcells : env.content m.dev h.target = cells
  unfold appCrcCheck
  rcases halgo : fwGetAlgoContext env.tables (headerOf cells) with _ | algo
  · exact ⟨refl_of (Quiet env) m, by simp⟩
  have hinit : Quiet env m (fwAlgoInit algo m).2 := quiet_fwAlgoInit algo m
  rcases hrun : fwAlgoInit algo m with ⟨_ | _, m₁⟩
  · rw [hrun] at hinit
    simp only [Prog.run_bind, hrun]
    exact ⟨hinit, by simp⟩
  rw [hrun] at hinit
  obtain ⟨r, m₂, hpass, hquiet, ok, pc, rfl, hcrc⟩ := streamProcess_check env
    (headerOf cells) h algo 0xFFFFFFFF m₁
  have hstream : fwStreamProcess env.toPlatform (headerOf cells) h algo
      (.crc 0xFFFFFFFF) m₁ = ((ok, pc), m₂) := by
    rw [fwStreamProcess, Prog.run_bind, hpass]
    rfl
  have hdeinit : Quiet env m₂ (fwAlgoDeinit algo m₂).2 := quiet_fwAlgoDeinit algo m₂
  simp only [Prog.run_bind, hrun, ↓reduceIte, hstream, Prog.run_pure]
  refine ⟨(hinit.trans hquiet).trans hdeinit, fun hok => ?_⟩
  obtain ⟨rfl, hend⟩ : ok = true ∧ pc.crcIs (headerOf cells).rawCrc = true := by
    simpa using hok
  obtain ⟨new, hlog, rfl, hlen⟩ := hcrc rfl
  refine ⟨acceptedBytes new, ⟨h.ref, algo, m₁, _, m₂, new, ?_, halgo, hstream, hlog,
    rfl⟩, hlen, ?_⟩
  · rw [hinit.1, hcells]
  · simpa [ProcCtx.crcIs, CrcLib.whole] using hend

/-- A package that `qbt_fw_check` accepts is validated, and checking it changes
nothing. -/
theorem fwCheck_spec (happ : env.usingAppCheck = true) (h : Handle) (partLen : Nat)
    (m : Machine σ κ) :
    Quiet env m (fwCheck env.toEnv h partLen m).2 ∧
      ((fwCheck env.toEnv h partLen m).1 = true →
        Validated env h.target (env.content m.dev h.target)) := by
  have hread : Quiet env m (fwInfoRead env.toEnv h partLen false m).2 :=
    quiet_fwInfoRead h partLen false m
  have hhead := fwInfoRead_head env h partLen m
  rcases hrun : fwInfoRead env.toEnv h partLen false m with ⟨_ | _, m₁⟩
  · rw [hrun] at hread
    simp only [fwCheck, Prog.run_bind, hrun]
    exact ⟨hread, by simp⟩
  rw [hrun] at hread hhead
  have hhead : m₁.fwInfo = headerOf (env.content m.dev h.target) := hhead rfl
  generalize hcells : env.content m.dev h.target = cells at hhead
  have hcells₁ : env.content m₁.dev h.target = cells := by rw [hread.1, hcells]
  simp only [fwCheck, Prog.run_bind, hrun, ↓reduceIte, Prog.run_gets, hhead]
  by_cases hinfo : fwInfoCheck env.crc (headerOf cells) = true
  swap
  · rw [Bool.not_eq_true] at hinfo
    simp only [hinfo, Bool.not_false, ↓reduceIte, Prog.run_pure]
    exact ⟨hread, by simp⟩
  obtain ⟨hmagic, hheader⟩ : strEq (headerOf cells).toBytes (ascii "RBL") = true ∧
      env.crc.cal (headerOf cells).bodyBytes = (headerOf cells).hdrCrc := by
    simpa [fwInfoCheck] using hinfo
  simp only [hinfo, Bool.not_true, Bool.false_eq_true, ↓reduceIte]
  have hbody := fwCrcCheck_spec env h (show srcReadPos ≤ 2 ^ 31 by decide)
    (headerOf cells).pkgSize.toNat_lt (headerOf cells).pkgCrc m₁
  rw [hcells₁] at hbody
  rcases hcrc : fwCrcCheck env.toEnv h srcReadPos (headerOf cells).pkgSize.toNat
    (headerOf cells).pkgCrc m₁ with ⟨_ | _, m₂⟩
  · rw [hcrc] at hbody
    simp only [Prog.run_bind, hcrc, Bool.false_eq_true, ↓reduceIte, Prog.run_pure]
    exact ⟨hread.trans hbody.1, by simp⟩
  rw [hcrc] at hbody
  have hquiet : Quiet env m m₂ := hread.trans hbody.1
  rw [bodyBytes_headerOf] at hheader
  simp only [Prog.run_bind, hcrc, ↓reduceIte, happ, Bool.true_and]
  split
  · rename_i himage
    have happCrc := appCrcCheck_spec env h m₂
    rw [hquiet.1, hcells] at happCrc
    refine ⟨hquiet.trans happCrc.1, fun hok => ?_⟩
    exact ⟨hmagic, hheader, hbody.2 rfl, fun _ _ => happCrc.2 hok⟩
  · rename_i himage
    refine ⟨hquiet, fun _ => ⟨hmagic, hheader, hbody.2 rfl, fun hverify hcodec => ?_⟩⟩
    exact absurd (by simpa [hverify] using hcodec) himage

end Checks

/-! ## Guarded runs -/

/-- Nothing destructive has been recorded unless `V` holds. -/
def Guarded (V : Prop) (m m' : Machine σ κ) : Prop :=
  Extends Machine.log (fun e => e.destructive = true → V) m m'

section Guard

variable {env : StableEnv σ κ} {β : Type} {V : Prop} {m m' m'' : Machine σ κ}

theorem Guarded.trans (h : Guarded V m m') (h' : Guarded V m' m'') :
    Guarded V m m'' :=
  Extends.trans h h'

theorem guarded_of_quiet (h : Quiet env m m') : Guarded V m m' :=
  h.2.imp fun _ he htouch => absurd (he.symm.trans htouch) Bool.false_ne_true

/-- A path that starts with a check is guarded by what the check establishes. -/
theorem guarded_fwCheck (happ : env.usingAppCheck = true) (src : Handle) (len : Nat)
    {x : Prog (Machine σ κ) Bool}
    (hx : Within Unmarked (do if ← fwCheck env.toEnv src len then x else pure false :
      Prog (Machine σ κ) Bool)) (m : Machine σ κ) :
    Guarded (Validated env src.target (env.content m.dev src.target)) m
      ((do if ← fwCheck env.toEnv src len then x else pure false :
        Prog (Machine σ κ) Bool) m).2 := by
  obtain ⟨hquiet, hvalid⟩ := fwCheck_spec happ src len m
  have hgrows := hx m
  rcases hrun : fwCheck env.toEnv src len m with ⟨_ | _, m₁⟩
  · rw [hrun] at hquiet
    simp only [Prog.run_bind, hrun]
    exact guarded_of_quiet hquiet
  · rw [hrun] at hvalid
    exact Extends.imp hgrows fun _ _ _ => hvalid rfl

theorem guarded_bind {W : (TargetId → Nat → UInt8) → Prop}
    {x : Prog (Machine σ κ) α} {f : α → Prog (Machine σ κ) β}
    (hx : Quiet env m (x m).2)
    (hf : ∀ m', Guarded (W (env.content m'.dev)) m' (f (x m).1 m').2) :
    Guarded (W (env.content m.dev)) m ((x >>= f) m).2 := by
  have hguard := hf (x m).2
  rw [hx.1] at hguard
  exact (guarded_of_quiet hx).trans hguard

theorem guarded_then {x : Prog (Machine σ κ) α} {f : α → Prog (Machine σ κ) β}
    (hx : Guarded V m (x m).2) (hf : ∀ a, Within (Quiet env) (f a)) :
    Guarded V m ((x >>= f) m).2 :=
  hx.trans (guarded_of_quiet (hf _ _))

end Guard

/-! ## The entry points -/

section Entries

variable {env : StableEnv σ κ}

theorem unmarked_cloneOpened (env : Env σ κ) (dst src : Handle) (srcSize : Nat) :
    Within Unmarked (cloneOpened env dst src srcSize) := by
  refine (within_fwCheck (unmarked_admits env) _ _).bind fun _ => .ite ?_ (.pure _)
  refine (Within.gets _).bind fun info => ?_
  refine ((unmarked_admits env).erases _ _ _).bind fun _ =>
    .ite ?_ (.pure _)
  refine Within.bind (within_iterate (fun pos => ?_) _ _) fun _ => .pure _
  refine .ite (.pure _) (((unmarked_admits env).reads _ _ _).bind fun r => ?_)
  rcases r with _ | data
  · exact .pure _
  · exact ((unmarked_admits env).writes _ _ _).bind fun _ =>
      .ite (.pure _) (.pure _)

/-- What is done with an open source, over whatever its target then holds, is
guarded by what the target held before it was opened. -/
theorem guarded_opened {id : TargetId} {x : Handle → Nat → Prog (Machine σ κ) α}
    {y : Prog (Machine σ κ) α}
    (hx : ∀ src size m, src.target = id →
      Guarded (Validated env id (env.content m.dev id)) m (x src size m).2)
    (hy : Within (Quiet env) y) (m : Machine σ κ) :
    Guarded (Validated env id (env.content m.dev id)) m
      ((do
        match ← targetOpen env.io id .read with
        | (some src, some srcSize) => x src srcSize
        | _ => y : Prog (Machine σ κ) α) m).2 := by
  have hopen : Quiet env m (targetOpen env.io id .read m).2 := quiet_targetOpen id .read nofun m
  have htarget := targetOpen_target env.io id .read m
  rcases hrun : targetOpen env.io id .read m with ⟨⟨_ | src, _ | size⟩, m₁⟩
  all_goals
    rw [hrun] at hopen htarget
    simp only [Prog.run_bind, hrun]
  · exact guarded_of_quiet (hopen.trans (hy m₁))
  · exact guarded_of_quiet (hopen.trans (hy m₁))
  · exact guarded_of_quiet (hopen.trans (hy m₁))
  · have hguard := hx src size m₁ (htarget src rfl)
    rw [hopen.1] at hguard
    exact (guarded_of_quiet hopen).trans hguard

theorem guarded_releaseFromPart (happ : env.usingAppCheck = true) (srcId : TargetId)
    (checkSign : Bool) (m : Machine σ κ) :
    Guarded (Validated env srcId (env.content m.dev srcId)) m
      (releaseFromPart env.toEnv srcId checkSign m).2 := by
  have hend (rst : Bool) : Within (Quiet env) (do
      emit (.released srcId checkSign rst)
      pure rst : Prog (Machine σ κ) Bool) :=
    (quiet_emit rfl).bind fun _ => .pure _
  have hstart : Quiet env m (emit (.releaseStart srcId checkSign) m).2 :=
    quiet_emit rfl m
  refine (guarded_of_quiet hstart).trans
    (guarded_opened ?_ ((Within.pure _).bind hend) _)
  rintro src size m₁ rfl
  exact guarded_then (guarded_fwCheck happ src size
    (unmarked_releaseOpened env.toEnv src size checkSign) m₁) fun _ =>
    (quiet_targetClose _).bind fun _ => (Within.pure _).bind hend

theorem guarded_appResumeFrom (happ : env.usingAppCheck = true) (srcId : TargetId)
    (m : Machine σ κ) :
    Guarded (Validated env srcId (env.content m.dev srcId)) m
      (appResumeFrom env.toEnv srcId m).2 := by
  refine guarded_opened ?_ (.pure _) m
  rintro src size m₁ rfl
  refine guarded_bind (W := fun c => Validated env src.target (c src.target))
    (quiet_targetOpen .app .writeCreate nofun m₁) fun m₂ => ?_
  generalize (targetOpen env.io .app .writeCreate m₁).1 = r
  have hclose : Within (Quiet env) (do
      targetClose env.io src
      pure false : Prog (Machine σ κ) Bool) :=
    (quiet_targetClose _).bind fun _ => .pure _
  rcases r with ⟨_ | dst, _ | dstSize⟩
  · exact guarded_of_quiet (hclose m₂)
  · exact guarded_of_quiet (hclose m₂)
  · exact guarded_of_quiet (hclose m₂)
  · exact guarded_then (guarded_fwCheck happ src size
      (unmarked_resumeOpened env.toEnv src size dst dstSize) m₂) fun _ =>
      (quiet_targetClose _).bind fun _ => (quiet_targetClose _).bind fun _ => .pure _

theorem guarded_shellClone (happ : env.usingAppCheck = true) (src dst : List UInt8)
    (m : Machine σ κ) :
    Guarded (∃ srcId, argToId env.toEnv src = some srcId ∧
        Validated env srcId (env.content m.dev srcId)) m
      (shellClone env.toEnv src dst m).2 := by
  unfold shellClone
  rcases argToId env.toEnv dst with _ | dstId
  · exact guarded_of_quiet (refl_of (Quiet env) m)
  rcases argToId env.toEnv src with _ | srcId
  · refine guarded_of_quiet (Within.bind (quiet_open dstId .writeCreate nofun) ?_ m)
    rintro (_ | ref)
    · exact quiet_emit rfl
    · exact (quiet_emit rfl).bind fun _ => quiet_targetClose _
  have hclone (dst : Handle) (m : Machine σ κ) :
      Guarded (Validated env srcId (env.content m.dev srcId)) m
        ((do
          match ← targetOpen env.io srcId .read with
          | (some srcHandle, some srcSize) =>
              let _ ← cloneOpened env.toEnv dst srcHandle srcSize
              targetClose env.io srcHandle
              targetClose env.io dst
          | _ => targetClose env.io dst : Prog (Machine σ κ) Unit) m).2 := by
    refine guarded_opened ?_ (quiet_targetClose _) m
    rintro srcHandle srcSize m₁ rfl
    exact guarded_then (guarded_fwCheck happ srcHandle srcSize
      (unmarked_cloneOpened env.toEnv dst srcHandle srcSize) m₁) fun _ =>
      (quiet_targetClose _).bind fun _ => quiet_targetClose _
  suffices h : Guarded (Validated env srcId (env.content m.dev srcId)) m _ from
    Extends.imp h fun _ he htouch => ⟨srcId, rfl, he htouch⟩
  refine guarded_bind (W := fun c => Validated env srcId (c srcId))
    (quiet_open dstId .writeCreate nofun m) fun m₁ => ?_
  generalize (onDev (env.io.openTarget dstId .writeCreate) m).1 = r
  rcases r with _ | ref
  · have hquiet : Quiet env m₁ (emit (.opened dstId false) m₁).2 := quiet_emit rfl m₁
    exact guarded_of_quiet hquiet
  · exact guarded_bind (W := fun c => Validated env srcId (c srcId))
      (quiet_emit rfl m₁) fun m₂ => hclone ⟨dstId, ref⟩ m₂

/-- Releasing, resuming and cloning issue no erase and no write, to any target,
unless the source holds a validated package. -/
theorem destructive_validated (env : StableEnv σ κ) (happ : env.usingAppCheck = true)
    (m : Machine σ κ) :
    (∀ srcId checkSign,
      Guarded (Validated env srcId (env.content m.dev srcId)) m
        (releaseFromPart env.toEnv srcId checkSign m).2) ∧
    (∀ srcId,
      Guarded (Validated env srcId (env.content m.dev srcId)) m
        (appResumeFrom env.toEnv srcId m).2) ∧
    (∀ src dst,
      Guarded (∃ srcId, argToId env.toEnv src = some srcId ∧
          Validated env srcId (env.content m.dev srcId)) m
        (shellClone env.toEnv src dst m).2) :=
  ⟨fun srcId checkSign => guarded_releaseFromPart happ srcId checkSign m,
    fun srcId => guarded_appResumeFrom happ srcId m,
    fun src dst => guarded_shellClone happ src dst m⟩

end Entries

def plainBuild : Build := ⟨false, false, false, false, false⟩

def plainEnv : StableEnv FlashDev Unit :=
  regionStable (fun _ => .fal)
    { build := plainBuild
      io := regionIo fun _ => .fal
      crc := crc32Lib
      parser := regionParser fun _ => .fal
      tables :=
        { cmprs := fun i => if i = 0 then some (noneCmprsOps plainBuild) else none
          crypt := fun i => if i = 0 then some (noneCryptOps plainBuild) else none }
      hpatch :=
        { cfg := ⟨false, 0, 4096, 4096, none⟩
          malloc := fun n d => (n != 0, d)
          malloc_zero := granted_zero
          hpiPatch := .done false }
      productCode := none
      usingAppCheck := true }

def erasedMachine : Machine FlashDev Unit :=
  steadyMachine (fun _ => ⟨1024, 4, fun _ => Flash.erasedByte⟩) ()

def fileEnv : StableEnv FsStorage Unit :=
  filesStable
    { plainEnv.toEnv with
      io := coherentIo plainFiles
      parser := coherentParser
      hpatch :=
        { cfg := plainFiles
          malloc := fun n d => (n != 0, d)
          malloc_zero := granted_zero
          hpiPatch := .done false } }

/-- A download of two bytes, before anything has been opened. -/
def fileMachine : Machine FsStorage Unit where
  dev := ⟨.start twoFiles 4 100, FsDev.coherent_start twoFiles 4 100⟩
  mem := ()
  fwInfo := .ofBytes (Block.ofList srcReadPos [])
  log := []

theorem erased_guarded :
    Guarded (Validated plainEnv .download fun _ => Flash.erasedByte) erasedMachine
        (releaseFromPart plainEnv.toEnv .download true erasedMachine).2 ∧
      Guarded (Validated fileEnv .download fun a => [1, 2].getD a 0) fileMachine
        (releaseFromPart fileEnv.toEnv .download true fileMachine).2 :=
  ⟨(destructive_validated plainEnv rfl erasedMachine).1 .download true,
    (destructive_validated fileEnv rfl fileMachine).1 .download true⟩

end Qboot
