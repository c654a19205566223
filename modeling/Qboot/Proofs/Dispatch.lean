import Qboot.Model.Files
import Qboot.Model.Store
import Qboot.Proofs.Descriptors
import Qboot.Proofs.FileRelease
import Qboot.Proofs.Mirroring
/-!
# The mux only dispatches

The mux keeps the backend's handle of every target in a slot that a close leaves behind.
A run through the slots is the run in which every call goes straight to the backend of
its target.
-/

namespace Qboot

open Library Bytes Machine Loop Prog

variable {σ κ : Type}

def ownHandle (h : Handle) : Handle := ⟨h.target, 0⟩

/-- Every call goes to the backend of its target. -/
def directIo (backends : StoreBackend → IoOps σ) (descs : TargetId → StoreDesc) : IoOps σ where
  openTarget := fun id => (backends (descs id).backend).openTarget id
  close := fun h => (backends (descs h.target).backend).close (ownHandle h)
  read := fun h => (backends (descs h.target).backend).read (ownHandle h)
  erase := fun h => (backends (descs h.target).backend).erase (ownHandle h)
  write := fun h => (backends (descs h.target).backend).write (ownHandle h)
  size := fun h => (backends (descs h.target).backend).size (ownHandle h)
  getEraseAlign := fun h => (backends (descs h.target).backend).getEraseAlign (ownHandle h)

def directParser (parsers : StoreBackend → HeaderParserOps σ) (descs : TargetId → StoreDesc) :
    HeaderParserOps σ where
  signRead := fun h => (parsers (descs h.target).backend).signRead (ownHandle h)
  signWrite := fun h => (parsers (descs h.target).backend).signWrite (ownHandle h)
  signClear := fun h => (parsers (descs h.target).backend).signClear (ownHandle h)

/-- The mux over the backends; the allocator works on the storage behind it. -/
def muxStorage (backends : StoreBackend → IoOps σ) (parsers : StoreBackend → HeaderParserOps σ)
    (descs : TargetId → StoreDesc) (malloc : Nat → Prog σ Bool)
    (hmalloc : ∀ s, (malloc 0 s).1 = false) : Storage (MuxDev σ) where
  io := muxIo backends descs
  parser := muxParser parsers
  malloc := fun n => onBackend (malloc n)
  malloc_zero := fun d => hmalloc d.dev

/-- The slots of the targets that have been opened hold their backends' handles; the other
slots may hold anything. -/
structure Slotted (descs : TargetId → StoreDesc) (V : TargetId → Prop) (s : σ)
    (d : MuxDev σ) : Prop where
  dev : d.dev = s
  slots : ∀ id, V id → d.slots id = some ⟨(descs id).backend, ⟨id, 0⟩⟩

/-- A backend hands out its one handle. -/
def OneHandleEach (io : IoOps σ) : Prop :=
  ∀ id flags, Yields (fun ref => ∀ r, ref = some r → r = 0) (io.openTarget id flags)

section Mux

variable {descs : TargetId → StoreDesc} {V : TargetId → Prop} {backends : StoreBackend → IoOps σ}
  {parsers : StoreBackend → HeaderParserOps σ}

theorem mirrors_onBackend {α : Type} (x : Prog σ α) :
    Mirrors (Slotted descs V) x (onBackend x) fun _ => Slotted descs V := by
  intro s d hslotted
  obtain rfl := hslotted.dev
  exact ⟨rfl, rfl, hslotted.slots⟩

theorem mirrors_viaSlot {α : Type} {h : Handle} (hopened : Opened V h) (refused : α)
    (call : StoreBackend → Handle → Prog σ α) :
    Mirrors (Slotted descs V) (call (descs h.target).backend (ownHandle h))
      (viaSlot h refused call) fun _ => Slotted descs V := by
  intro s d hslotted
  have hslot := hslotted.slots h.target hopened
  simp only [viaSlot, run_bind, run_gets, hslot]
  exact mirrors_onBackend _ s d hslotted

theorem mirrors_muxOpen (hone : ∀ b, OneHandleEach (backends b)) (id : TargetId)
    (flags : OpenFlags) :
    Mirrors (Slotted descs V) ((backends (descs id).backend).openTarget id flags)
      (muxOpen backends descs id flags)
      fun ref => Slotted descs fun id' => V id' ∨ ref.isSome ∧ id' = id := by
  intro s d hslotted
  obtain ⟨hanswer, hkept⟩ :=
    mirrors_onBackend ((backends (descs id).backend).openTarget id flags) s d hslotted
  have hzero := hone (descs id).backend id flags s
  simp only [muxOpen, run_bind]
  rw [← hanswer]
  rcases href : ((backends (descs id).backend).openTarget id flags s).1 with _ | ref
  · refine ⟨rfl, hkept.dev, fun id' hid' => hkept.slots id' ?_⟩
    exact hid'.resolve_right fun hnew => absurd hnew.1 (by simp)
  · obtain rfl : ref = 0 := hzero ref href
    refine ⟨rfl, hkept.dev, fun id' hid' => ?_⟩
    by_cases hid : id' = id
    · rw [hid]
      exact Function.update_self _ _ _
    · have hopened : V id' := hid'.resolve_right fun hnew => hid hnew.2
      exact (Function.update_of_ne hid _ _).trans (hkept.slots id' hopened)

theorem mirrorsStorage_mux {env : Env σ κ} (hio : env.io = directIo backends descs)
    (hparser : env.parser = directParser parsers descs)
    (hone : ∀ b, OneHandleEach (backends b)) :
    MirrorsStorage env (muxStorage backends parsers descs env.hpatch.malloc
      env.hpatch.malloc_zero) (Slotted descs) where
  mono hmore hslotted := ⟨hslotted.dev, fun id hid => hslotted.slots id (hmore id hid)⟩
  opens V id flags := by
    rw [hio]
    exact mirrors_muxOpen hone id flags
  closes hopened := by
    rw [hio]
    exact mirrors_viaSlot hopened () fun b => (backends b).close
  reads hopened off len := by
    rw [hio]
    exact mirrors_viaSlot hopened none fun b h => (backends b).read h off len
  erases hopened off len := by
    rw [hio]
    exact mirrors_viaSlot hopened false fun b h => (backends b).erase h off len
  writes hopened off data := by
    rw [hio]
    exact mirrors_viaSlot hopened false fun b h => (backends b).write h off data
  sizes hopened := by
    rw [hio]
    exact mirrors_viaSlot hopened none fun b => (backends b).size
  aligns hopened := by
    rw [hio]
    exact mirrors_viaSlot hopened none fun b => (backends b).getEraseAlign
  mallocs _ size := mirrors_onBackend _
  signReads hopened info := by
    rw [hparser]
    exact mirrors_viaSlot hopened none fun b h => (parsers b).signRead h info
  signWrites hopened info := by
    rw [hparser]
    exact mirrors_viaSlot hopened false fun b h => (parsers b).signWrite h info

/-- A boot through the mux, with whatever earlier opens have left in its slots, is the boot
in which every call goes straight to the backend of its target. -/
theorem threadEntry_mux {env : Env σ κ} (hio : env.io = directIo backends descs)
    (hparser : env.parser = directParser parsers descs)
    (hone : ∀ b, OneHandleEach (backends b)) (inp : BootInputs σ)
    (poll : Option (Prog (MuxDev σ) Unit))
    (hpoll : MirrorsPoll (Slotted descs) inp.updateMgrPoll poll) (m : Machine σ κ)
    (slots : TargetId → Option MuxHandle) :
    Twin (fun s d => d.dev = s) Eq (threadEntry env inp m).2
      (threadEntry (env.over (muxStorage backends parsers descs env.hpatch.malloc
        env.hpatch.malloc_zero)) (inp.over poll) ⟨⟨m.dev, slots⟩, m.mem, m.fwInfo, m.log⟩).2 := by
  obtain ⟨-, hend⟩ := mirrors_threadEntry (V := fun _ => False)
    (mirrorsStorage_mux hio hparser hone) inp hpoll m
    ⟨⟨m.dev, slots⟩, m.mem, m.fwInfo, m.log⟩
    ⟨⟨rfl, fun _ hid => absurd hid not_false⟩, rfl, rfl, rfl⟩
  exact { hend with dev := hend.dev.dev }

end Mux

/-! ## A file system beside a flash -/

section Mixed

variable {τ : Type}

def IoOps.zoom (io : IoOps τ) (get : σ → τ) (set : τ → σ → σ) : IoOps σ where
  openTarget := fun id flags => Prog.zoom get set (io.openTarget id flags)
  close := fun h => Prog.zoom get set (io.close h)
  read := fun h off len => Prog.zoom get set (io.read h off len)
  erase := fun h off len => Prog.zoom get set (io.erase h off len)
  write := fun h off data => Prog.zoom get set (io.write h off data)
  size := fun h => Prog.zoom get set (io.size h)
  getEraseAlign := fun h => Prog.zoom get set (io.getEraseAlign h)

def HeaderParserOps.zoom (parser : HeaderParserOps τ) (get : σ → τ) (set : τ → σ → σ) :
    HeaderParserOps σ where
  signRead := fun h info => Prog.zoom get set (parser.signRead h info)
  signWrite := fun h info => Prog.zoom get set (parser.signWrite h info)
  signClear := fun h info => Prog.zoom get set (parser.signClear h info)

theorem OneHandleEach.zoom {io : IoOps τ} (h : OneHandleEach io) (get : σ → τ)
    (set : τ → σ → σ) : OneHandleEach (io.zoom get set) :=
  fun id flags s => h id flags (get s)

end Mixed

theorem oneHandleEach_regionIo (backend : TargetId → Backend) :
    OneHandleEach (regionIo backend) := by
  intro id flags d r href
  by_cases hzero : (d.region id).size = 0
  · rw [show ((regionIo backend).openTarget id flags d).1 = none from if_pos hzero] at href
    exact absurd href (by simp)
  · rw [show ((regionIo backend).openTarget id flags d).1 = some 0 from if_neg hzero] at href
    exact (Option.some_inj.mp href).symm

theorem oneHandleEach_fsIo (cfg : HpatchConfig) : OneHandleEach (fsIo cfg) := by
  intro id flags d r href
  have hopen : (fsOpen id flags d).1 = some r := href
  rcases fsOpen_cases id flags d with hnone | ⟨fd, d', hsome, -⟩
  · rw [hnone] at hopen
    exact absurd hopen (by simp)
  · rw [hsome] at hopen
    exact (Option.some_inj.mp hopen).symm

/-- Flash regions and files side by side; FAL and CUSTOM targets are regions. -/
abbrev MixedDev := FlashDev × FsDev

def mixedIo (cfg : HpatchConfig) : StoreBackend → IoOps MixedDev
  | .fal => (regionIo fun _ => .fal).zoom Prod.fst fun d m => (d, m.2)
  | .fs => (fsIo cfg).zoom Prod.snd fun d m => (m.1, d)
  | .custom => (regionIo fun _ => .custom).zoom Prod.fst fun d m => (d, m.2)

def mixedParser : StoreBackend → HeaderParserOps MixedDev
  | .fal => (regionParser fun _ => .fal).zoom Prod.fst fun d m => (d, m.2)
  | .fs => fsParser.zoom Prod.snd fun d m => (m.1, d)
  | .custom => (regionParser fun _ => .custom).zoom Prod.fst fun d m => (d, m.2)

theorem oneHandleEach_mixed (cfg : HpatchConfig) (b : StoreBackend) :
    OneHandleEach (mixedIo cfg b) := by
  cases b with
  | fal | custom => exact (oneHandleEach_regionIo _).zoom _ _
  | fs => exact (oneHandleEach_fsIo cfg).zoom _ _

def mixedDescs : TargetId → StoreDesc
  | .download => ⟨0, 0, .fs⟩
  | _ => ⟨0, 0, .fal⟩

def mixedEnv : Env MixedDev (CodecMem Unit Unit Unit) where
  build := startupFileEnv.build
  io := directIo (mixedIo startupFileEnv.hpatch.cfg) mixedDescs
  crc := startupFileEnv.crc
  parser := directParser mixedParser mixedDescs
  tables := startupFileEnv.tables
  hpatch :=
    { cfg := startupFileEnv.hpatch.cfg
      malloc := fun n d => (n != 0, d)
      malloc_zero := granted_zero
      hpiPatch := .done false }
  productCode := none
  usingAppCheck := true

def mixedMachine : Machine MixedDev (CodecMem Unit Unit Unit) where
  dev := ((eightByteMachine 1024).dev, startupIdle.dev)
  mem := startupIdle.mem
  fwInfo := startupIdle.fwInfo
  log := []

def mixedBoot : BootInputs MixedDev := { plainBoot with updateMgrPoll := none }

/-- Slots that earlier opens have left behind. -/
def staleSlots : TargetId → Option MuxHandle := fun _ => some ⟨.custom, ⟨.factory, 0⟩⟩

theorem threadEntry_mux_mixed :
    Twin (fun s d => d.dev = s) Eq (threadEntry mixedEnv mixedBoot mixedMachine).2
      (threadEntry (mixedEnv.over (muxStorage (mixedIo startupFileEnv.hpatch.cfg) mixedParser
        mixedDescs mixedEnv.hpatch.malloc mixedEnv.hpatch.malloc_zero)) (mixedBoot.over none)
        ⟨⟨mixedMachine.dev, staleSlots⟩, mixedMachine.mem, mixedMachine.fwInfo,
          mixedMachine.log⟩).2 :=
  threadEntry_mux rfl rfl (oneHandleEach_mixed _) mixedBoot none trivial mixedMachine staleSlots

end Qboot
