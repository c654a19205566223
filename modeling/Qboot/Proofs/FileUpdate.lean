import Qboot.Proofs.FileSteps
import Qboot.Proofs.HandleUse
/-!
# Updating a file-backed destination

`qbt_fw_update` on the filesystem backend.  The size of the destination is asked
for before the erase truncates the file, and the header is placed by it; what
the file holds afterwards decides both verifications.
-/

namespace Qboot

open Library Bytes Posix Machine Prog

variable {κ : Type}

def fsEnv (env : Env FsDev κ) : Env FsDev κ :=
  { env with
    io := fsIo env.hpatch.cfg
    parser := fsParser }

variable {env : Env FsDev κ} {src dst : Handle} {info : FwInfo} {m : Machine FsDev κ}

/-! ## The stages -/

theorem stageInit_mem {σ τ : Type} (stage : Stage) (init : Option (Prog κ RtErr))
    {m : Machine σ κ} {i : Machine τ κ} (hmem : m.mem = i.mem) :
    (stageInit stage init m).1 = (stageInit stage init i).1 ∧
      (stageInit stage init m).2.mem = (stageInit stage init i).2.mem ∧
      (stageInit stage init m).2.dev = m.dev := by
  rcases init with _ | init
  · exact ⟨rfl, hmem, rfl⟩
  · have hrun : init m.mem = init i.mem := congrArg init hmem
    refine ⟨?_, congrArg Prod.snd hrun, rfl⟩
    show decide ((init m.mem).1 = .eok) = decide ((init i.mem).1 = .eok)
    rw [hrun]

theorem stageDeinit_mem {σ τ : Type} (stage : Stage) (deinit : Option (Prog κ Unit))
    {m : Machine σ κ} {i : Machine τ κ} (hmem : m.mem = i.mem) :
    (stageDeinit stage deinit m).2.mem = (stageDeinit stage deinit i).2.mem ∧
      (stageDeinit stage deinit m).2.dev = m.dev := by
  rcases deinit with _ | deinit
  · exact ⟨hmem, rfl⟩
  · exact ⟨congrArg (fun k => (deinit k).2) hmem, rfl⟩

theorem fwAlgoInit_mem {σ τ : Type} (algo : AlgoContext κ) {m : Machine σ κ}
    {i : Machine τ κ} (hmem : m.mem = i.mem) :
    (fwAlgoInit algo m).1 = (fwAlgoInit algo i).1 ∧
      (fwAlgoInit algo m).2.mem = (fwAlgoInit algo i).2.mem ∧
      (fwAlgoInit algo m).2.dev = m.dev := by
  obtain ⟨hcrypt, hmem₁, hdev₁⟩ := stageInit_mem .crypt algo.crypt.init hmem
  unfold fwAlgoInit
  simp only [Prog.run_bind, hcrypt]
  cases (stageInit .crypt algo.crypt.init i).1 with
  | false => exact ⟨rfl, hmem₁, hdev₁⟩
  | true =>
      obtain ⟨hcmprs, hmem₂, hdev₂⟩ := stageInit_mem .cmprs algo.cmprs.init hmem₁
      simp only [if_true, Prog.run_bind, hcmprs]
      cases (stageInit .cmprs algo.cmprs.init (stageInit .crypt algo.crypt.init i).2).1 with
      | true => exact ⟨rfl, hmem₂, hdev₂.trans hdev₁⟩
      | false =>
          obtain ⟨hmem₃, hdev₃⟩ := stageDeinit_mem .crypt algo.crypt.deinit hmem₂
          exact ⟨rfl, hmem₃, hdev₃.trans (hdev₂.trans hdev₁)⟩

theorem fwAlgoDeinit_dev {σ : Type} (algo : AlgoContext κ) (m : Machine σ κ) :
    (fwAlgoDeinit algo m).2.dev = m.dev := by
  have hcmprs := (stageDeinit_mem (m := m) .cmprs algo.cmprs.deinit rfl).2
  exact (stageDeinit_mem .crypt algo.crypt.deinit rfl).2.trans hcmprs

/-! ## Storage that receives the image -/

/-- The table is as in `d₀`, the source still holds `a`, and the destination `b`. -/
structure FsDev.Holding (d₀ : FsDev) (src dst : TargetId) (a b : List UInt8) (d : FsDev) :
    Prop extends KeepsTable d₀ d where
  source : d.bytes src = a
  dest : d.sys.file (.target dst) = some b

theorem KeepsTable.refl (d : FsDev) : KeepsTable d d := ⟨rfl, .refl d.sys⟩

theorem KeepsTable.trans {d d' d'' : FsDev} (h : KeepsTable d d') (h' : KeepsTable d' d'') :
    KeepsTable d d'' :=
  ⟨h'.slots.trans h.slots, h.sys.trans h'.sys⟩

namespace FsDev

variable {d₀ d d' : FsDev} {a b c : List UInt8} {s t : TargetId}

theorem Holding.bytes (h : Holding d₀ s t a b d) : d.bytes t = b := by
  rw [FsDev.bytes, FileSys.content, h.dest]
  rfl

theorem Holding.keeps (h : Holding d₀ s t a b d) (hkeeps : d.Keeps d') :
    Holding d₀ s t a b d' where
  toKeepsTable := h.toKeepsTable.trans hkeeps.toKeepsTable
  source := (hkeeps.bytes s).trans h.source
  dest := by rw [hkeeps.file, h.dest]

theorem Holding.stores (h : Holding d₀ s t a b d) (hne : s ≠ t) (hstores : d.Stores t c d') :
    Holding d₀ s t a c d' where
  toKeepsTable := h.toKeepsTable.trans hstores.toKeepsTable
  source := (hstores.other hne).trans h.source
  dest := by rw [hstores.file, Function.update_self]

end FsDev

section Files

variable {d₀ : FsDev} {a c₀ : List UInt8} {size : Nat}
  (hsrc : d₀.OpenOn src.target false) (hdst : d₀.OpenOn dst.target true)
  (hne : src.target ≠ dst.target) (hoff : 2 ^ 33 ≤ d₀.sys.offMax)

include hsrc hdst hne hoff

theorem receives_files (cfg : HpatchConfig) (hsize : size < 2 ^ 32) :
    Receives (fsIo cfg) src (a.drop srcReadPos) dst size fun out d =>
      FsDev.Holding d₀ src.target dst.target a (writeAt c₀ 0 out) d where
  read out d off len hok hpos hlen hend := by
    have hmax : d.sys.offMax = d₀.sys.offMax := hok.sys.offMax
    have hin : srcReadPos + off ≤ d.sys.offMax := by
      unfold srcReadPos
      omega
    obtain ⟨d', hread, hkeeps⟩ := fsRead_open (hsrc.kept hok.toKeepsTable) hin hpos
      (by unfold cmprsReadSize at hlen; omega)
    refine ⟨d', ?_, hok.keeps hkeeps⟩
    show fsRead src (srcReadPos + off) len d = _
    rw [hread, hok.source, readSlice_drop a srcReadPos off hpos]
  write out d data hok hlen hfit := by
    have hmax : d.sys.offMax = d₀.sys.offMax := hok.sys.offMax
    have hin : out.length + data.length ≤ d.sys.offMax := by omega
    obtain ⟨d', hwrite, hstores⟩ := fsWrite_open (hdst.kept hok.toKeepsTable) hin
      (by unfold bufSize at hlen; omega)
    rw [hok.bytes, writeAt_append] at hstores
    exact ⟨d', hwrite, hok.stores hne hstores⟩

end Files

theorem serving_files {d₀ : FsDev} {h : Handle} {writable : Bool} (cfg : HpatchConfig)
    (hopen : d₀.OpenOn h.target writable) (hoff : 2 ^ 33 ≤ d₀.sys.offMax) :
    Serving (fsIo cfg) h (d₀.bytes h.target) d₀.Keeps where
  read d off len hok hpos hlen hend := by
    have hmax : d.sys.offMax = d₀.sys.offMax := hok.sys.offMax
    have hin : off ≤ d.sys.offMax := by omega
    obtain ⟨d', hread, hkeeps⟩ := fsRead_open (hopen.kept hok.toKeepsTable) hin hpos hlen
    refine ⟨d', ?_, hok.toKeepsTable.trans hkeeps.toKeepsTable, hkeeps.file.trans hok.file⟩
    show fsRead h off len d = _
    rw [hread, hok.bytes]
  refuse d off len hok hlen := by
    obtain ⟨d', hread, hkeeps⟩ : ∃ d', fsRead h off len d = (none, d') ∧ d.Keeps d' :=
      fsRead_refuses (hopen.kept hok.toKeepsTable) hlen
    exact ⟨d', hread, hok.toKeepsTable.trans hkeeps.toKeepsTable,
      hkeeps.file.trans hok.file⟩

/-! ## The release -/

/-- The image of a package: what its stages, set up from the codec memory `k`, deliver of
the body. -/
def imageOf {σ : Type} (env : Env σ κ) (info : FwInfo) (src dst : Handle)
    (body : List UInt8) (k : κ) : Option (List UInt8) :=
  match fwGetAlgoContext env.tables info with
  | none => none
  | some algo =>
      let r := fwAlgoInit algo (⟨(), k, info, []⟩ : Machine Unit κ)
      if r.1 then unpack env.build env.crc algo info src dst body r.2.mem else none

theorem imageOf_eq {σ τ : Type} {env : Env τ κ} {algo : AlgoContext κ}
    (halgo : fwGetAlgoContext env.tables info = some algo) (body : List UInt8)
    (m : Machine σ κ) :
    imageOf env info src dst body m.mem =
      if (fwAlgoInit algo m).1 then
        unpack env.build env.crc algo info src dst body (fwAlgoInit algo m).2.mem
      else none := by
  obtain ⟨hinit, hmem, -⟩ := fwAlgoInit_mem algo
    (show m.mem = (⟨(), m.mem, info, []⟩ : Machine Unit κ).mem from rfl)
  rw [imageOf, halgo, hinit, hmem]

def erasedFile (cfg : HpatchConfig) (id : TargetId) (old : List UInt8) : List UInt8 :=
  resize old ((fixedSize cfg id).getD 0)

/-- What a release leaves of a file: the image at its start, and the header where the size
sampled before the erase puts it. -/
def fileAfter (cfg : HpatchConfig) (id : TargetId) (old : List UInt8) (size : Nat)
    (info : FwInfo) (image : List UInt8) : List UInt8 :=
  writeAt (writeAt (erasedFile cfg id old) 0 image) (u32Sub size srcReadPos) info.toBytes

theorem erasedFile_twice (cfg : HpatchConfig) (id : TargetId) (old : List UInt8) :
    erasedFile cfg id (erasedFile cfg id old) = erasedFile cfg id old := by
  unfold erasedFile
  generalize (fixedSize cfg id).getD 0 = len
  have hlen : (resize old len).length = len := length_resize old len
  generalize resize old len = content at hlen
  rw [resize, List.take_of_length_le hlen.le, hlen, Nat.sub_self, List.replicate_zero,
    List.append_nil]

section Release

variable (hsrc : m.dev.OpenOn src.target false) (hdst : m.dev.OpenOn dst.target true)
  (hne : src.target ≠ dst.target) (hoff : 2 ^ 33 ≤ m.dev.sys.offMax)

include hsrc hdst hne hoff

variable (info) in
theorem streamRelease_files (env : Env FsDev κ) (algo : AlgoContext κ) (size : Nat) :
    ∃ ok m' out, streamRelease (fsEnv env) dst size src info algo m = (ok, m') ∧
      unpack env.build env.crc algo info src dst ((m.dev.bytes src.target).drop srcReadPos)
        m.mem = (if ok then some out else none) ∧
      (ok = true → out.length = info.rawSize.toNat) ∧
      FsDev.Holding m.dev src.target dst.target (m.dev.bytes src.target)
        (writeAt (erasedFile env.hpatch.cfg dst.target (m.dev.bytes dst.target)) 0 out)
        m'.dev := by
  generalize hsource : m.dev.bytes src.target = a
  generalize herased : erasedFile env.hpatch.cfg dst.target (m.dev.bytes dst.target) = c
  obtain ⟨d₁, herase₁, hstores₁⟩ :=
    fsErase_open hdst env.hpatch.cfg 0 info.rawSize.toNat
  obtain ⟨d₂, herase₂, hstores₂⟩ := fsErase_open
    (hdst.kept hstores₁.toKeepsTable) env.hpatch.cfg (u32Sub size srcReadPos) srcReadPos
  have hheld₁ : FsDev.Holding m.dev src.target dst.target a c d₁ :=
    ⟨hstores₁.toKeepsTable, (hstores₁.other hne).trans hsource, by
      rw [hstores₁.file, Function.update_self, ← herased]
      rfl⟩
  have hheld₂ : FsDev.Holding m.dev src.target dst.target a c d₂ := by
    have htwice : c = resize (d₁.bytes dst.target)
        ((fixedSize env.hpatch.cfg dst.target).getD 0) := by
      rw [hheld₁.bytes, ← herased]
      exact (erasedFile_twice _ _ _).symm
    rw [htwice]
    exact hheld₁.stores hne hstores₂
  have hio : Receives (fsIo env.hpatch.cfg) src (a.drop srcReadPos) dst info.rawSize.toNat
      fun out d => FsDev.Holding m.dev src.target dst.target a (writeAt c 0 out) d :=
    receives_files hsrc hdst hne hoff env.hpatch.cfg info.rawSize.toNat_lt
  obtain ⟨m₁, hrun₁, hmem₁, hdev₁⟩ : ∃ m₁ : Machine FsDev κ,
      eraseWithFeed (fsIo env.hpatch.cfg) dst 0 info.rawSize.toNat m = (true, m₁) ∧
        m₁.mem = m.mem ∧ m₁.dev = d₁ := by
    have hrun : eraseWithFeed (fsIo env.hpatch.cfg) dst 0 info.rawSize.toNat m = _ :=
      run_eraseWithFeed ..
    rw [show (fsIo env.hpatch.cfg).erase dst 0 info.rawSize.toNat m.dev = (true, d₁) from
      herase₁] at hrun
    exact ⟨_, hrun, rfl, rfl⟩
  obtain ⟨m₂, hrun₂, hmem₂, hdev₂⟩ : ∃ m₂ : Machine FsDev κ,
      eraseWithFeed (fsIo env.hpatch.cfg) dst (u32Sub size srcReadPos) srcReadPos m₁ =
        (true, m₂) ∧ m₂.mem = m.mem ∧ m₂.dev = d₂ := by
    have hrun : eraseWithFeed (fsIo env.hpatch.cfg) dst (u32Sub size srcReadPos) srcReadPos
        m₁ = _ := run_eraseWithFeed ..
    rw [hdev₁, show (fsIo env.hpatch.cfg).erase dst (u32Sub size srcReadPos) srcReadPos d₁ =
      (true, d₂) from herase₂] at hrun
    exact ⟨_, hrun, hmem₁, rfl⟩
  have hstart : FsDev.Holding m.dev src.target dst.target a (writeAt c 0 []) m₂.dev := by
    rw [writeAt_nil, hdev₂]
    exact hheld₂
  obtain ⟨ok, pc, m₃, out, hrun₃, hheld₃, hunpack, hlen⟩ :=
    fwStreamProcess_receives env.build env.crc algo hio hstart
  refine ⟨ok, (fwAlgoDeinit algo m₃).2, out, ?_, ?_, hlen, ?_⟩
  · have hrun₃' : fwStreamProcess (fsEnv env).toPlatform info src algo
        (.write ⟨dst, 0, info.rawSize.toNat⟩) m₂ = ((ok, pc), m₃) := hrun₃
    have hrun₁' : eraseWithFeed (fsEnv env).io dst 0 info.rawSize.toNat m = (true, m₁) :=
      hrun₁
    have hrun₂' : eraseWithFeed (fsEnv env).io dst (u32Sub size srcReadPos) srcReadPos m₁ =
        (true, m₂) := hrun₂
    simp only [streamRelease, Prog.run_bind, hrun₁', hrun₂', hrun₃', if_true, Prog.run_pure]
  · rw [← hmem₂]
    exact hunpack
  · rw [fwAlgoDeinit_dev]
    exact hheld₃

theorem fwRelease_files (env : Env FsDev κ) (hstream : Streamed env info) (size : Nat) :
    ∃ ok m', fwRelease (fsEnv env) dst size src info m = (ok, m') ∧
      KeepsTable m.dev m'.dev ∧
      (ok = true ↔ ∃ image, imageOf env info src dst
        ((m.dev.bytes src.target).drop srcReadPos) m.mem = some image) ∧
      ∀ image, imageOf env info src dst ((m.dev.bytes src.target).drop srcReadPos) m.mem =
        some image →
        image.length = info.rawSize.toNat ∧
        m'.dev.sys.file (.target dst.target) = some
          (fileAfter env.hpatch.cfg dst.target (m.dev.bytes dst.target) size info image) := by
  rcases halgo : fwGetAlgoContext env.tables info with _ | algo
  · have hnone (body : List UInt8) : imageOf env info src dst body m.mem = none := by
      rw [imageOf, halgo]
    have hrun : fwRelease (fsEnv env) dst size src info m = (false, m) := by
      rw [fwRelease, show fwGetAlgoContext (fsEnv env).tables info = none from halgo]
      rfl
    refine ⟨false, m, hrun, .refl m.dev, iff_of_false Bool.false_ne_true ?_, ?_⟩ <;>
      simp [hnone]
  have hpatch : ((fsEnv env).build.usingHpatchlite &&
      algo.cmprs.cmprsId == algoCmprsHpatchlite) = false := hstream algo halgo
  have hdev : (fwAlgoInit algo m).2.dev = m.dev := (fwAlgoInit_mem algo rfl).2.2
  rw [fwRelease, show fwGetAlgoContext (fsEnv env).tables info = some algo from halgo,
    imageOf_eq halgo]
  rcases hinit : fwAlgoInit algo m with ⟨_ | _, m₁⟩
  · rw [hinit] at hdev
    simp only [Prog.run_bind, hinit, Bool.false_eq_true, if_false]
    refine ⟨false, m₁, rfl, ?_, iff_of_false Bool.false_ne_true (by simp), nofun⟩
    rw [show m₁.dev = m.dev from hdev]
    exact .refl m.dev
  · rw [hinit] at hdev
    have hdev₁ : m₁.dev = m.dev := hdev
    rw [← hdev₁] at hsrc hdst hoff
    obtain ⟨ok, m₂, out, hrun, hunpack, hlen, hheld⟩ :=
      streamRelease_files info hsrc hdst hne hoff env algo size
    rw [hdev₁] at hunpack hheld
    simp only [Prog.run_bind, hinit, if_true, hpatch, Bool.false_eq_true, if_false, hrun,
      hunpack]
    rcases ok with _ | _
    · refine ⟨false, m₂, rfl, hheld.toKeepsTable, iff_of_false Bool.false_ne_true ?_, nofun⟩
      simp
    · have hwrite : u32Sub size srcReadPos + info.toBytes.length ≤ m₂.dev.sys.offMax := by
        have hmax : m₂.dev.sys.offMax = m.dev.sys.offMax := hheld.sys.offMax
        rw [hdev₁] at hoff
        rw [hmax, info.length_toBytes]
        unfold u32Sub u32 srcReadPos
        omega
      rw [hdev₁] at hdst
      obtain ⟨d₃, hrun₃, hstores₃⟩ := fsWrite_open (hdst.kept hheld.toKeepsTable) hwrite (by
        rw [info.length_toBytes]
        decide)
      have hkeeps : KeepsTable m.dev d₃ := hheld.toKeepsTable.trans hstores₃.toKeepsTable
      obtain ⟨m₃, hrun₃', hdev₃⟩ : ∃ m₃,
          fwInfoWrite (fsEnv env) dst size info true m₂ = (true, m₃) ∧ m₃.dev = d₃ := by
        have hwrote : fwInfoWrite (fsEnv env) dst size info true m₂ = _ := run_ioWrite ..
        rw [show (fsEnv env).io.write = fsWrite from rfl, if_pos rfl, hrun₃] at hwrote
        exact ⟨_, hwrote, rfl⟩
      refine ⟨true, m₃, hrun₃', hdev₃ ▸ hkeeps, iff_of_true rfl ⟨out, rfl⟩, ?_⟩
      intro image himage
      obtain rfl : out = image := Option.some.inj himage
      refine ⟨hlen rfl, ?_⟩
      rw [hdev₃, hstores₃.file, Function.update_self, hheld.bytes]
      rfl

end Release

end Qboot
