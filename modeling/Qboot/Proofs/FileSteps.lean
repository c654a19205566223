import Qboot.Proofs.Descriptors
import Qboot.Proofs.FileVerify
import Qboot.Proofs.Unpack
/-!
# Single operations on file-backed targets

What reads, writes, truncations, closes and opens do to the contents, through the
open handle of a target.
-/

namespace Qboot

open Library Bytes Posix FileSys

/-- The handle of the target is open, on its file. -/
def FsDev.OpenOn (d : FsDev) (id : TargetId) (writable : Bool) : Prop :=
  ∃ fd serial, d.slots id = some fd ∧
    d.sys.desc fd = some ⟨.target id, writable, serial⟩ ∧ fd < d.sys.openMax

/-- The table is kept, and the file of `id` is left with `bytes` and the others alone. -/
structure FsDev.Stores (d : FsDev) (id : TargetId) (bytes : List UInt8) (d' : FsDev) : Prop
    extends KeepsTable d d' where
  file : d'.sys.file = Function.update d.sys.file (.target id) (some bytes)

structure FsDev.Keeps (d d' : FsDev) : Prop extends KeepsTable d d' where
  file : d'.sys.file = d.sys.file

variable {d d' : FsDev} {id id' : TargetId} {writable : Bool}

theorem FsDev.OpenOn.kept (h : d.OpenOn id writable) (hkeeps : KeepsTable d d') :
    d'.OpenOn id writable := by
  obtain ⟨fd, serial, hslot, hdesc, hfd⟩ := h
  refine ⟨fd, serial, ?_, ?_, ?_⟩
  · rw [hkeeps.slots, hslot]
  · rw [hkeeps.sys.desc, hdesc]
  · rw [hkeeps.sys.openMax]
    exact hfd

theorem FsDev.Keeps.bytes (h : d.Keeps d') (id : TargetId) : d'.bytes id = d.bytes id := by
  rw [FsDev.bytes, FsDev.bytes, content, content, h.file]

theorem FsDev.Stores.other {bytes : List UInt8} (h : d.Stores id bytes d') (hne : id' ≠ id) :
    d'.bytes id' = d.bytes id' := by
  have hpath : FsPath.target id' ≠ .target id := fun heq => hne (FsPath.target.inj heq)
  rw [FsDev.bytes, FsDev.bytes, content, content, h.file, Function.update_of_ne hpath]

section Access

variable {h : Handle} (hopen : d.OpenOn h.target writable)

include hopen

theorem fsRead_open {off len : Nat} (hoff : off ≤ d.sys.offMax) (hpos : 0 < len)
    (hlen : len < 2 ^ 31) :
    ∃ d', fsRead h off len d = (readSlice (d.bytes h.target) off len, d') ∧ d.Keeps d' := by
  obtain ⟨fd, serial, hslot, hdesc, -⟩ := hopen
  have hkeeps := keepsTable_read h off len d
  unfold fsRead at hkeeps ⊢
  simp only [hslot, seek, hdesc, Option.isSome_some, hoff, and_self, if_true, FileSys.read,
    Function.update_self] at hkeeps ⊢
  refine ⟨_, Prod.ext ?_ rfl, hkeeps, rfl⟩
  rw [readSlice_eq_take _ off hpos]
  by_cases hbytes : (((d.bytes h.target).drop off).take len).length = len
  · rw [dif_pos hbytes]
    exact dif_pos ⟨hbytes, hlen⟩
  · rw [dif_neg hbytes]
    exact dif_neg fun hboth => hbytes hboth.1

theorem fsRead_refuses {off len : Nat} (hlen : 2 ^ 31 ≤ len) :
    ∃ d', fsRead h off len d = (none, d') ∧ d.Keeps d' := by
  obtain ⟨fd, serial, hslot, hdesc, -⟩ := hopen
  have hkeeps := keepsTable_read h off len d
  unfold fsRead at hkeeps ⊢
  simp only [hslot, seek, hdesc, Option.isSome_some, true_and] at hkeeps ⊢
  by_cases hoff : off ≤ d.sys.offMax
  · simp only [hoff, if_true, FileSys.read, hdesc] at hkeeps ⊢
    refine ⟨_, Prod.ext (dif_neg fun hboth => ?_) rfl, hkeeps, rfl⟩
    exact absurd hboth.2 (not_lt.mpr hlen)
  · simp only [hoff, if_false] at hkeeps ⊢
    exact ⟨_, rfl, hkeeps, rfl⟩

theorem fsSize_open (cfg : HpatchConfig)
    (hlen : fixedSize cfg h.target = none →
      (d.bytes h.target).length ≤ d.sys.offMax) :
    fsSize cfg h d =
      (some (u32 ((fixedSize cfg h.target).getD (d.bytes h.target).length)), d) := by
  obtain ⟨fd, serial, hslot, hdesc, -⟩ := hopen
  unfold fsSize
  cases hfixed : fixedSize cfg h.target with
  | some size => rfl
  | none =>
      have hlength : d.sys.fileLength fd = some (d.bytes h.target).length := by
        simp only [fileLength, hdesc]
        exact if_pos (hlen hfixed)
      simp only [hslot, hlength]
      rfl

end Access

section Change

variable {h : Handle} (hopen : d.OpenOn h.target true)

include hopen

theorem fsErase_open (cfg : HpatchConfig) (off len : Nat) :
    ∃ d', fsErase cfg h off len d = (true, d') ∧
      d.Stores h.target (resize (d.bytes h.target) ((fixedSize cfg h.target).getD 0)) d' := by
  obtain ⟨fd, serial, hslot, hdesc, -⟩ := hopen
  have hkeeps : KeepsTable d (fsErase cfg h off len d).2 := keepsTable_erase h off len d
  unfold fsErase at hkeeps ⊢
  simp only [hslot, ftruncate, hdesc, if_true] at hkeeps ⊢
  exact ⟨_, rfl, hkeeps, rfl⟩

theorem fsWrite_open {off : Nat} {data : List UInt8}
    (hoff : off + data.length ≤ d.sys.offMax) (hlen : data.length < 2 ^ 31) :
    ∃ d', fsWrite h off data d = (true, d') ∧
      d.Stores h.target (writeAt (d.bytes h.target) off data) d' := by
  obtain ⟨fd, serial, hslot, hdesc, -⟩ := hopen
  have hkeeps := keepsTable_write h off data d
  have hseek : off ≤ d.sys.offMax := (Nat.le_add_right _ _).trans hoff
  unfold fsWrite at hkeeps ⊢
  simp only [hslot, seek, hdesc, Option.isSome_some, hseek, and_self, if_true,
    FileSys.write, Function.update_self, hoff, hlen, decide_true, Bool.and_self]
    at hkeeps ⊢
  exact ⟨_, rfl, hkeeps, rfl⟩

end Change

theorem fsReopen {h : Handle} (hopen : d.OpenOn h.target writable)
    (hfile : (d.sys.file (.target h.target)).isSome) :
    ∃ d', fsOpen h.target .read (fsClose h d).2 = (some 0, d') ∧
      d'.OpenOn h.target false ∧ d'.sys.file = d.sys.file ∧
      d'.sys.offMax = d.sys.offMax := by
  obtain ⟨fd, serial, hslot, hdesc, hfd⟩ := hopen
  generalize hsys : d.sys.close fd = sys
  have hclosed : (fsClose h d).2 = ⟨sys, Function.update d.slots h.target none⟩ := by
    simp only [fsClose, hslot, hsys]
  have hshape : sys = { d.sys with
      desc := Function.update d.sys.desc fd none
      closed := d.sys.closed ++ [serial] } := by
    rw [← hsys, FileSys.close, hdesc]
  have hfree : sys.freeFd.isSome := by
    have hlt : fd < sys.openMax := by
      rw [hshape]
      exact hfd
    have hnone : sys.desc fd = none := by
      rw [hshape]
      exact Function.update_self ..
    exact freeFd_isSome hlt hnone
  obtain ⟨fd', hfd'⟩ := Option.isSome_iff_exists.mp hfree
  obtain ⟨bytes, hbytes⟩ := Option.isSome_iff_exists.mp hfile
  have hfiles : sys.file = d.sys.file := by rw [hshape]
  have hexists : ¬((sys.file (.target h.target)).isNone && !false) = true := by
    rw [hfiles, hbytes]
    simp
  rw [hclosed, fsOpen]
  simp only [openFile, OpenFlags.writable, OpenFlags.create, OpenFlags.trunc, hfd']
  rw [if_neg hexists]
  refine ⟨_, rfl, ⟨fd', sys.opens, ?_, ?_, ?_⟩, ?_, ?_⟩
  · exact Function.update_self ..
  · exact Function.update_self ..
  · show fd' < sys.openMax
    exact freeFd_lt hfd'
  · show Function.update sys.file _ _ = d.sys.file
    rw [content, hfiles, hbytes]
    exact Function.update_eq_self_iff.mpr hbytes.symm
  · show sys.offMax = d.sys.offMax
    rw [hshape]

end Qboot
