import Qboot.Library.Run
import Qboot.Model.Device
import Qboot.Proofs.PatchFrame
/-!
# The patch as a stream

`_do_read_patch` over successive calls whose reads may fail at any time, with
other callbacks in between.  The pieces make up a prefix of the patch, and a
call that succeeds delivers all that it was asked for and that is left.
-/

namespace Qboot

open Library Bytes Machine Run

variable {σ κ : Type}

/-! ## Successive calls -/

/-- A callback on some machine: a request of patch bytes, or new data. -/
inductive PatchAccess (σ κ : Type) where
  | patch (m : Machine σ κ) (size : Nat)
  | new (m : Machine σ κ) (data : List UInt8)

structure PatchFeed where
  inst : HpatchInst
  delivered : List UInt8

/-- A read that succeeds delivers the bytes of the patch file, which `cells` are. -/
def ReadsFrom (io : IoOps σ) (part : Handle) (cells : Nat → UInt8) (d : σ) : Prop :=
  ∀ off len data, (io.read part off len d).1 = some data →
    data.1 = (readCells cells off len).1

/-- The patch file is intact whenever it is read. -/
def PatchAccess.Intact (io : IoOps σ) (part : Handle) (cells : Nat → UInt8) :
    PatchAccess σ κ → Prop
  | .patch m _ => ReadsFrom io part cells m.dev
  | .new _ _ => True

def HpatchInst.opened (inst : HpatchInst) (part : Handle) (offset len : Nat) :
    HpatchInst :=
  { inst with
    patchFileOffset := offset
    patchFileLen := len
    patchReadPos := 0
    patchPart := part }

variable (io : IoOps σ) (cfg : HpatchConfig)

def feedStep (s : PatchFeed) : PatchAccess σ κ → PatchFeed
  | .patch m size =>
      let r := (doReadPatch io s.inst size m).1
      ⟨r.2, s.delivered ++ r.1.data⟩
  | .new m data =>
      match (doWriteNew io cfg s.inst data m).1 with
      | none => s
      | some inst => { s with inst := inst }

/-- The bytes that a request of `size` gets when its read succeeds. -/
def PatchFeed.share (s : PatchFeed) (len size : Nat) : Nat :=
  min size (len - s.delivered.length)

/-- A request fails only when the read of its share of the patch fails.  Then it
reports size zero and the position stays; otherwise it reports and delivers the
share, which is nothing for a nonzero request exactly at the end. -/
def AnswersRight (part : Handle) (offset len : Nat) (s : PatchFeed) :
    PatchAccess σ κ → Prop
  | .patch m size =>
      let r := (doReadPatch io s.inst size m).1
      (r.1.ok = false ↔ 0 < s.share len size ∧
          (io.read part (offset + s.delivered.length) (s.share len size) m.dev).1 = none) ∧
        (r.1.ok = false → r.1.size = 0 ∧ r.1.data = [] ∧
          r.2.patchReadPos = s.inst.patchReadPos) ∧
        (r.1.ok = true → r.1.size = s.share len size ∧ r.1.data.length = r.1.size ∧
          r.2.patchReadPos = s.inst.patchReadPos + r.1.size) ∧
        (0 < size → (r.1.ok = true ∧ r.1.size = 0 ↔ s.delivered.length = len))
  | .new _ _ => True

/-! ## The invariant -/

structure Streaming (part : Handle) (cells : Nat → UInt8) (offset len : Nat)
    (s : PatchFeed) : Prop where
  offset_eq : s.inst.patchFileOffset = offset
  length_eq : s.inst.patchFileLen = len
  part_eq : s.inst.patchPart = part
  position : s.inst.patchReadPos = s.delivered.length
  within : s.delivered.length ≤ len
  bytes : s.delivered = (readCells cells offset s.delivered.length).1

variable {io cfg} {part : Handle} {cells : Nat → UInt8} {offset len : Nat}
  {s : PatchFeed} {m : Machine σ κ}

theorem streaming_opened (inst : HpatchInst) :
    Streaming part cells offset len ⟨inst.opened part offset len, []⟩ where
  offset_eq := rfl
  length_eq := rfl
  part_eq := rfl
  position := rfl
  within := Nat.zero_le len
  bytes := rfl

theorem doReadPatch_nothing (h : Streaming part cells offset len s) {size : Nat}
    (hshare : s.share len size = 0) :
    (doReadPatch io s.inst size m).1 = (⟨true, 0, []⟩, s.inst) := by
  unfold doReadPatch
  split
  · rfl
  · have hrest : min size (s.inst.patchFileLen - s.inst.patchReadPos).toNat = 0 := by
      rw [← hshare, h.length_eq, h.position, PatchFeed.share]
      omega
    dsimp only
    rw [hrest, if_pos rfl]
    rfl

theorem doReadPatch_share (h : Streaming part cells offset len s) {size : Nat}
    (hshare : 0 < s.share len size) :
    (doReadPatch io s.inst size m).1 =
      match (io.read part (offset + s.delivered.length) (s.share len size) m.dev).1 with
      | none => (⟨false, 0, []⟩, s.inst)
      | some data => (⟨true, s.share len size, data.1⟩,
          { s.inst with patchReadPos := s.inst.patchReadPos + s.share len size }) := by
  have hopen : ¬s.inst.patchFileLen ≤ s.inst.patchReadPos := by
    rw [PatchFeed.share] at hshare
    rw [h.length_eq, h.position]
    omega
  have hrest : min size (s.inst.patchFileLen - s.inst.patchReadPos).toNat =
      s.share len size := by
    rw [h.length_eq, h.position, PatchFeed.share]
    omega
  unfold doReadPatch
  rw [if_neg hopen, hrest]
  dsimp only
  rw [if_neg (Nat.ne_of_gt hshare), Prog.run_bind, run_ioRead, h.part_eq, h.offset_eq,
    h.position]
  cases (io.read part (offset + s.delivered.length) (s.share len size) m.dev).1 with
  | none => rfl
  | some data => rfl

theorem streaming_step (h : Streaming part cells offset len s) {a : PatchAccess σ κ}
    (ha : a.Intact io part cells) :
    Streaming part cells offset len (feedStep io cfg s a) := by
  cases a with
  | new m data =>
      have hkept := keepsFiles_doWriteNew io cfg s.inst data m
      simp only [feedStep]
      cases hnew : (doWriteNew io cfg s.inst data m).1 with
      | none => exact h
      | some inst =>
          have hsame : SameFiles s.inst inst := hkept inst hnew
          exact
            { offset_eq := hsame.patchFileOffset.trans h.offset_eq
              length_eq := hsame.patchFileLen.trans h.length_eq
              part_eq := hsame.patchPart.trans h.part_eq
              position := hsame.patchReadPos.trans h.position
              within := h.within
              bytes := h.bytes }
  | patch m size =>
      rcases Nat.eq_zero_or_pos (s.share len size) with hshare | hshare
      · rw [feedStep, doReadPatch_nothing h hshare, List.append_nil]
        exact h
      cases hread : (io.read part (offset + s.delivered.length) (s.share len size)
          m.dev).1 with
      | none =>
          rw [feedStep, doReadPatch_share h hshare, hread, List.append_nil]
          exact h
      | some data =>
          have hdata := ha _ _ _ hread
          have hlen : (s.delivered ++ data.1).length =
              s.delivered.length + s.share len size := by
            rw [List.length_append, data.2]
          rw [feedStep, doReadPatch_share h hshare, hread]
          exact
            { offset_eq := h.offset_eq
              length_eq := h.length_eq
              part_eq := h.part_eq
              position := by rw [hlen, ← h.position]
              within := by
                have hwithin := h.within
                rw [hlen, PatchFeed.share]
                omega
              bytes := by
                rw [hlen, readCells_append, ← h.bytes, ← hdata] }

theorem answersRight_of_streaming (h : Streaming part cells offset len s)
    (a : PatchAccess σ κ) : AnswersRight io part offset len s a := by
  cases a with
  | new m data => exact trivial
  | patch m size =>
      have hwithin := h.within
      rcases Nat.eq_zero_or_pos (s.share len size) with hshare | hshare
      · have hend : 0 < size → s.delivered.length = len := by
          rw [PatchFeed.share] at hshare
          omega
        simpa [AnswersRight, doReadPatch_nothing h hshare, hshare] using hend
      have hmore : s.delivered.length ≠ len := by
        rw [PatchFeed.share] at hshare
        omega
      have hn : s.share len size ≠ 0 := Nat.ne_of_gt hshare
      simp only [AnswersRight, doReadPatch_share h hshare]
      cases hread : (io.read part (offset + s.delivered.length) (s.share len size)
          m.dev).1 with
      | none => simp [hshare, hmore]
      | some data => simp [hmore, hn, data.2]

/-! ## The run -/

/-- From the start of the patch the pieces delivered make up a prefix of its
bytes, as long as the position says, and every request answers as it must. -/
theorem patchPieces_prefix (io : IoOps σ) (cfg : HpatchConfig) (part : Handle)
    (cells : Nat → UInt8) (offset len : Nat) (inst : HpatchInst)
    (accesses : List (PatchAccess σ κ))
    (hintact : ∀ a ∈ accesses, a.Intact io part cells) :
    (run (feedStep io cfg) ⟨inst.opened part offset len, []⟩ accesses).delivered <+:
        (readCells cells offset len).1 ∧
      (run (feedStep io cfg) ⟨inst.opened part offset len, []⟩
          accesses).inst.patchReadPos =
        (run (feedStep io cfg) ⟨inst.opened part offset len, []⟩
          accesses).delivered.length ∧
      Each (feedStep io cfg) (AnswersRight io part offset len)
        ⟨inst.opened part offset len, []⟩ accesses := by
  have hstart : Streaming part cells offset len ⟨inst.opened part offset len, []⟩ :=
    streaming_opened inst
  have hkept : Each (feedStep io cfg)
      (fun _ (a : PatchAccess σ κ) => a.Intact io part cells)
      ⟨inst.opened part offset len, []⟩ accesses := by
    intro front a back hsplit
    exact hintact a (by simp [hsplit])
  have hlast : Streaming part cells offset len
      (run (feedStep io cfg) ⟨inst.opened part offset len, []⟩ accesses) :=
    hkept.inv_last (fun s a h ha => streaming_step h ha) hstart
  refine ⟨?_, hlast.position, ?_⟩
  · generalize run (feedStep io cfg) ⟨inst.opened part offset len, []⟩ accesses = s at hlast
    refine ⟨(readCells cells (offset + s.delivered.length)
      (len - s.delivered.length)).1, ?_⟩
    conv_lhs => enter [1]; rw [hlast.bytes]
    rw [← readCells_append, Nat.add_sub_cancel' hlast.within]
  · exact hkept.imp_inv (fun s a h _ => answersRight_of_streaming h a)
      (fun s a h ha => streaming_step h ha) hstart

/-! ## Regions -/

theorem readsFrom_region (backend : TargetId → Backend) (part : Handle) (d : FlashDev) :
    ReadsFrom (regionIo backend) part (d.region part.target).cells d := by
  intro off len data hread
  simp only [regionIo] at hread
  split at hread
  · cases hread
    rfl
  · cases hread

def countingFlash (power : Power) : FlashDev :=
  ⟨fun _ => ⟨64, 8, fun a => a.toUInt8⟩, power, fun _ => 0⟩

def countingMachine (power : Power) : Machine FlashDev Unit where
  dev := countingFlash power
  mem := ()
  fwInfo := .ofBytes (Block.ofList srcReadPos [])
  log := []

/-- Four bytes, a read that fails, a write, the two bytes that are left, the end. -/
def sixByteAccesses : List (PatchAccess FlashDev Unit) :=
  [.patch (countingMachine .steady) 4, .patch (countingMachine .off) 4,
    .new (countingMachine .steady) [7], .patch (countingMachine .steady) 4,
    .patch (countingMachine .steady) 1]

def idleInst : HpatchInst where
  patchFileOffset := 0
  patchFileLen := 0
  patchReadPos := 0
  newerFileLen := 0
  newerWritePos := 0
  patchPart := ⟨.download, 0⟩
  oldPart := ⟨.app, 0⟩
  swap := .ram
  ramBuf := []
  writePos := 0
  capacity := 8
  committedLen := 0
  sectorSize := 8
  erasedEnd := 0

def sixByteRun : PatchFeed :=
  run (feedStep (regionIo fun _ => .fal) ⟨false, 0, 8, 8, none⟩)
    ⟨idleInst.opened ⟨.download, 0⟩ 10 6, []⟩ sixByteAccesses

theorem sixBytes_prefix :
    sixByteRun.delivered = [10, 11, 12, 13, 14, 15] ∧
      sixByteRun.delivered <+: (readCells (fun a => a.toUInt8) 10 6).1 ∧
      Each (feedStep (regionIo fun _ => .fal) ⟨false, 0, 8, 8, none⟩)
        (AnswersRight (regionIo fun _ => .fal) ⟨.download, 0⟩ 10 6)
        ⟨idleInst.opened ⟨.download, 0⟩ 10 6, []⟩ sixByteAccesses := by
  have hintact : ∀ a ∈ sixByteAccesses,
      a.Intact (regionIo fun _ => .fal) ⟨.download, 0⟩ (fun a => a.toUInt8) := by
    intro a ha
    simp only [sixByteAccesses, List.mem_cons, List.not_mem_nil, or_false] at ha
    rcases ha with rfl | rfl | rfl | rfl | rfl
    · exact readsFrom_region _ _ _
    · exact readsFrom_region _ _ _
    · exact trivial
    · exact readsFrom_region _ _ _
    · exact readsFrom_region _ _ _
  have h := patchPieces_prefix (regionIo fun _ => .fal) ⟨false, 0, 8, 8, none⟩
    ⟨.download, 0⟩ (fun a => a.toUInt8) 10 6 idleInst sixByteAccesses hintact
  exact ⟨by decide, h.1, h.2.2⟩

end Qboot
