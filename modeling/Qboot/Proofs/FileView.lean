import Qboot.Library.FreeFds
import Qboot.Proofs.PackageCheck
/-!
# Files and the handles on them

What the update paths see of file-backed storage: the contents, which targets are
open and for writing, and how many descriptors are left.
-/

namespace Qboot

open Library Bytes Posix FileSys Machine Prog

/-- The contents, and for every open target whether it may be written. -/
structure FileView where
  file : FsPath → Option (List UInt8)
  held : TargetId → Option Bool
  free : Nat

namespace FileView

def bytes (v : FileView) (id : TargetId) : List UInt8 := (v.file (.target id)).getD []

def opened (v : FileView) (id : TargetId) (writable : Bool) : FileView where
  file := Function.update v.file (.target id) (some (v.bytes id))
  held := Function.update v.held id (some writable)
  free := v.free - 1

def withFile (v : FileView) (file : FsPath → Option (List UInt8)) : FileView :=
  { v with file := file }

def closed (v : FileView) (id : TargetId) : FileView :=
  { v with
    held := Function.update v.held id none
    free := v.free + 1 }

def idle (file : FsPath → Option (List UInt8)) (free : Nat) : FileView where
  file := file
  held := fun _ => none
  free := free

variable (v : FileView) (id : TargetId) (writable : Bool)

theorem bytes_of_file {v : FileView} {id : TargetId} {content : List UInt8}
    (h : v.file (.target id) = some content) : v.bytes id = content := by
  rw [bytes, h]
  rfl

theorem length_bytes_le {v : FileView} {n : Nat}
    (h : ∀ id content, v.file (.target id) = some content → content.length ≤ n)
    (id : TargetId) : (v.bytes id).length ≤ n := by
  cases hid : v.file (.target id) with
  | none =>
      rw [bytes, hid]
      exact Nat.zero_le n
  | some content =>
      rw [bytes_of_file hid]
      exact h id content hid

@[simp] theorem file_withFile (file : FsPath → Option (List UInt8)) :
    (v.withFile file).file = file := rfl

@[simp] theorem held_opened : (v.opened id writable).held id = some writable :=
  Function.update_self ..

theorem held_opened_of_ne {id' : TargetId} (hne : id' ≠ id) :
    (v.opened id writable).held id' = v.held id' :=
  Function.update_of_ne hne ..

@[simp] theorem bytes_opened : (v.opened id writable).bytes id = v.bytes id := by
  show (Function.update v.file (.target id) (some (v.bytes id)) (.target id)).getD [] = _
  rw [Function.update_self]
  rfl

@[simp] theorem held_closed : (v.closed id).held id = none := Function.update_self ..

theorem held_closed_of_ne {id' : TargetId} (hne : id' ≠ id) :
    (v.closed id).held id' = v.held id' :=
  Function.update_of_ne hne ..

theorem closed_opened (hid : v.held id = none) (hfree : 0 < v.free)
    (file : FsPath → Option (List UInt8)) :
    ((v.opened id writable).withFile file).closed id = v.withFile file := by
  have hheld : Function.update (Function.update v.held id (some writable)) id none = v.held := by
    rw [Function.update_idem]
    exact Function.update_eq_self_iff.mpr hid.symm
  have hcount : v.free - 1 + 1 = v.free := Nat.sub_add_cancel hfree
  show (⟨file, Function.update (Function.update v.held id (some writable)) id none,
    v.free - 1 + 1⟩ : FileView) = ⟨file, v.held, v.free⟩
  rw [hheld, hcount]

theorem file_opened {content : List UInt8} (hfile : v.file (.target id) = some content) :
    (v.opened id writable).file = v.file := by
  show Function.update v.file _ _ = v.file
  rw [bytes, hfile]
  exact Function.update_eq_self_iff.mpr hfile.symm

end FileView

/-- The device is in a state that the view describes. -/
structure FsDev.Shows (d : FsDev) (offMax : Nat) (v : FileView) : Prop where
  file : d.sys.file = v.file
  unheld : ∀ id, v.held id = none → d.slots id = none
  held : ∀ id writable, v.held id = some writable → d.OpenOn id writable
  free : d.sys.freeFds.card = v.free
  offMax : d.sys.offMax = offMax

variable {d d' : FsDev} {offMax : Nat} {v : FileView} {id : TargetId} {κ : Type}

namespace FsDev

theorem Shows.bytes (h : d.Shows offMax v) (id : TargetId) : d.bytes id = v.bytes id := by
  rw [FsDev.bytes, content, h.file, FileView.bytes]

theorem Shows.same (h : d.Shows offMax v) (hslots : d'.slots = d.slots)
    (hdesc : d'.sys.desc = d.sys.desc) (hopenMax : d'.sys.openMax = d.sys.openMax)
    (hoffMax : d'.sys.offMax = d.sys.offMax) :
    d'.Shows offMax (v.withFile d'.sys.file) where
  file := rfl
  unheld id hid := by
    rw [hslots]
    exact h.unheld id hid
  held id writable hid := by
    obtain ⟨fd, serial, hslot, hfd, hlt⟩ := h.held id writable hid
    exact ⟨fd, serial, by rw [hslots, hslot], by rw [hdesc, hfd], hopenMax ▸ hlt⟩
  free := by
    rw [freeFds, hopenMax, hdesc]
    exact h.free
  offMax := hoffMax.trans h.offMax

theorem Shows.kept (h : d.Shows offMax v) (hkeeps : KeepsTable d d') :
    d'.Shows offMax (v.withFile d'.sys.file) :=
  h.same hkeeps.slots hkeeps.sys.desc hkeeps.sys.openMax hkeeps.sys.offMax

theorem Shows.keeps (h : d.Shows offMax v) (hkeeps : d.Keeps d') : d'.Shows offMax v := by
  have hkept := h.kept hkeeps.toKeepsTable
  rw [hkeeps.file, h.file] at hkept
  exact hkept

end FsDev

/-! ## Opening and closing -/

section Open

variable {flags : OpenFlags}

theorem fsOpen_shows (h : d.Shows offMax v) (hid : v.held id = none) (hfree : 0 < v.free)
    (hthere : (v.file (.target id)).isSome ∨ flags.create = true) (htrunc : flags.trunc = false) :
    ∃ d', fsOpen id flags d = (some 0, d') ∧ d'.Shows offMax (v.opened id flags.writable) := by
  have hfile : (d.sys.file (.target id)).isSome ∨ flags.create = true := by
    rw [h.file]
    exact hthere
  obtain ⟨fd, sys, hopen, hopens⟩ := openFile_free (.target id) flags.writable flags.trunc
    (h.free ▸ hfree) hfile
  rw [fsOpen, hopen]
  refine ⟨_, rfl, ?_, fun id' hid' => ?_, fun id' writable hid' => ?_, ?_, ?_⟩
  · show sys.file = _
    rw [hopens.file, htrunc, if_neg Bool.false_ne_true, content, h.file]
    rfl
  · have hne : id' ≠ id := by
      rintro rfl
      simp at hid'
    rw [v.held_opened_of_ne _ _ hne] at hid'
    show Function.update d.slots id _ id' = none
    rw [Function.update_of_ne hne]
    exact h.unheld id' hid'
  · by_cases hne : id' = id
    · subst hne
      rw [FileView.held_opened] at hid'
      obtain rfl : flags.writable = writable := Option.some.inj hid'
      refine ⟨fd, d.sys.opens, Function.update_self .., ?_, hopens.openMax ▸ hopens.lt⟩
      rw [hopens.desc, Function.update_self]
    · rw [v.held_opened_of_ne _ _ hne] at hid'
      obtain ⟨fd', serial, hslot, hdesc, hfd'⟩ := h.held id' writable hid'
      have hother : fd' ≠ fd := by
        rintro rfl
        rw [hopens.free] at hdesc
        simp at hdesc
      refine ⟨fd', serial, ?_, ?_, hopens.openMax ▸ hfd'⟩
      · show Function.update d.slots id _ id' = _
        rw [Function.update_of_ne hne, hslot]
      · rw [hopens.desc, Function.update_of_ne hother, hdesc]
  · rw [hopens.card_freeFds, h.free]
    rfl
  · exact hopens.offMax.trans h.offMax

theorem fsClose_shows {handle : Handle} {writable : Bool} (h : d.Shows offMax v)
    (hid : v.held handle.target = some writable) :
    (fsClose handle d).2.Shows offMax (v.closed handle.target) := by
  obtain ⟨fd, serial, hslot, hdesc, hlt⟩ := h.held _ _ hid
  have hclosed : (fsClose handle d).2 = ⟨d.sys.close fd,
      Function.update d.slots handle.target none⟩ := by
    simp only [fsClose, hslot]
  have hcard := card_freeFds_close hdesc hlt
  rw [close_open hdesc] at hclosed hcard
  rw [hclosed]
  refine ⟨h.file, fun id' hid' => ?_, fun id' writable' hid' => ?_, ?_, h.offMax⟩
  · show Function.update d.slots handle.target none id' = none
    by_cases hne : id' = handle.target
    · rw [hne, Function.update_self]
    · rw [v.held_closed_of_ne _ hne] at hid'
      rw [Function.update_of_ne hne]
      exact h.unheld id' hid'
  · have hne : id' ≠ handle.target := by
      rintro rfl
      simp at hid'
    rw [v.held_closed_of_ne _ hne] at hid'
    obtain ⟨fd', serial', hslot', hdesc', hlt'⟩ := h.held id' writable' hid'
    have hother : fd' ≠ fd := by
      rintro rfl
      have hsame := Option.some.inj (hdesc'.symm.trans hdesc)
      exact hne (FsPath.target.inj (congrArg Descriptor.path hsame))
    refine ⟨fd', serial', ?_, ?_, hlt'⟩
    · show Function.update d.slots handle.target none id' = _
      rw [Function.update_of_ne hne, hslot']
    · show Function.update d.sys.desc fd none fd' = _
      rw [Function.update_of_ne hother, hdesc']
  · rw [hcard, h.free]
    rfl

end Open

/-! ## The release sign -/

section Sign

theorem signFile_shows (writable : Bool) {create : Bool} (trunc : Bool) (h : d.Shows offMax v)
    (hfree : 0 < v.free) (hthere : (v.file .sign).isSome ∨ create = true) :
    ∃ fd sys, d.sys.openFile .sign writable create trunc = (some fd, sys) ∧
      FsDev.Shows ⟨sys.close fd, d.slots⟩ offMax (v.withFile
        (Function.update v.file .sign
          (some (if trunc then [] else (v.file .sign).getD [])))) := by
  rw [← h.file] at hthere
  obtain ⟨fd, sys, hopen, hopens⟩ :=
    openFile_free .sign writable trunc (h.free ▸ hfree) hthere
  refine ⟨fd, sys, hopen, ?_⟩
  have hdesc : sys.desc fd = some ⟨.sign, writable, d.sys.opens⟩ := by
    rw [hopens.desc, Function.update_self]
  have hback : Function.update sys.desc fd none = d.sys.desc := by
    rw [hopens.desc, Function.update_idem]
    exact Function.update_eq_self_iff.mpr hopens.free.symm
  have hfile : sys.file = Function.update v.file .sign
      (some (if trunc then [] else (v.file .sign).getD [])) := by
    rw [hopens.file, content, h.file]
  rw [close_open hdesc, ← hfile]
  have hsame : FsDev.Shows ⟨{ sys with
      desc := Function.update sys.desc fd none
      closed := sys.closed ++ [d.sys.opens] }, d.slots⟩ offMax (v.withFile sys.file) :=
    h.same rfl hback hopens.openMax hopens.offMax
  exact hsame

variable (handle : Handle) (info : FwInfo)

theorem fsSignRead_shows (h : d.Shows offMax v) (hfree : 0 < v.free) :
    ∃ d', fsSignRead handle info d = (some (v.file .sign).isSome, d') ∧ d'.Shows offMax v := by
  cases hsign : v.file .sign with
  | none =>
      refine ⟨d, ?_, h⟩
      have hmissing : ((d.sys.file .sign).isNone && !false) = true := by
        rw [h.file, hsign]
        rfl
      rw [fsSignRead, openFile, if_pos hmissing]
      rfl
  | some content =>
      have hthere : (v.file .sign).isSome ∨ false = true := .inl (hsign ▸ rfl)
      obtain ⟨fd, sys, hopen, hshows⟩ := signFile_shows false false h hfree hthere
      rw [fsSignRead, hopen]
      refine ⟨_, rfl, ?_⟩
      rw [if_neg Bool.false_ne_true, hsign, Function.update_eq_self_iff.mpr hsign.symm] at hshows
      exact hshows

theorem fsSignWrite_shows (h : d.Shows offMax v) (hfree : 0 < v.free) :
    ∃ d', fsSignWrite handle info d = (true, d') ∧
      d'.Shows offMax (v.withFile (Function.update v.file .sign (some []))) := by
  obtain ⟨fd, sys, hopen, hshows⟩ := signFile_shows true true h hfree (.inr rfl)
  rw [fsSignWrite, hopen]
  exact ⟨_, rfl, hshows⟩

end Sign

end Qboot
