import Mathlib.Data.Finset.Card
import Mathlib.Data.Finset.Range
import Qboot.Library.Posix
/-!
# Free descriptors

The descriptors that are free, as a finite set: an open takes one of them, and a close
gives it back.
-/

namespace Library.Posix

namespace FileSys

variable {P : Type} [DecidableEq P]

/-- The free descriptors. -/
def freeFds (s : FileSys P) : Finset Nat :=
  (Finset.range s.openMax).filter fun fd => (s.desc fd).isNone

section Free

variable {s s' : FileSys P} {fd : Nat}

omit [DecidableEq P] in
theorem mem_freeFds : fd ∈ s.freeFds ↔ fd < s.openMax ∧ s.desc fd = none := by
  rw [freeFds, Finset.mem_filter, Finset.mem_range, Option.isNone_iff_eq_none]

omit [DecidableEq P] in
/-- A descriptor that is taken is free no longer. -/
theorem freeFds_taken {d : Descriptor P}
    (hdesc : s'.desc = Function.update s.desc fd (some d)) (hmax : s'.openMax = s.openMax) :
    s'.freeFds = s.freeFds.erase fd := by
  ext fd'
  rw [Finset.mem_erase, mem_freeFds, mem_freeFds, hdesc, hmax]
  by_cases hfd : fd' = fd
  · subst hfd
    simp
  · rw [Function.update_of_ne hfd]
    exact ⟨fun h => ⟨hfd, h⟩, fun h => h.2⟩

omit [DecidableEq P] in
/-- A descriptor that is given back is free again. -/
theorem freeFds_released (hfd : fd < s.openMax)
    (hdesc : s'.desc = Function.update s.desc fd none) (hmax : s'.openMax = s.openMax) :
    s'.freeFds = insert fd s.freeFds := by
  ext fd'
  rw [Finset.mem_insert, mem_freeFds, mem_freeFds, hdesc, hmax]
  by_cases heq : fd' = fd
  · subst heq
    simp [hfd]
  · rw [Function.update_of_ne heq]
    exact ⟨.inr, fun h => h.resolve_left heq⟩

/-- What a successful open of a free descriptor does. -/
structure OpensFile (s : FileSys P) (path : P) (writable trunc : Bool) (fd : Nat)
    (s' : FileSys P) : Prop where
  free : s.desc fd = none
  lt : fd < s.openMax
  file : s'.file = Function.update s.file path (some (if trunc then [] else s.content path))
  desc : s'.desc = Function.update s.desc fd (some ⟨path, writable, s.opens⟩)
  openMax : s'.openMax = s.openMax
  offMax : s'.offMax = s.offMax

/-- An open that finds its file, or may create it, takes a free descriptor. -/
theorem openFile_free (path : P) (writable : Bool) {create : Bool} (trunc : Bool)
    (hfree : 0 < s.freeFds.card) (hthere : (s.file path).isSome ∨ create = true) :
    ∃ fd s', s.openFile path writable create trunc = (some fd, s') ∧
      OpensFile s path writable trunc fd s' := by
  obtain ⟨free, hmem⟩ := Finset.card_pos.mp hfree
  obtain ⟨hlt, hnone⟩ := mem_freeFds.mp hmem
  obtain ⟨fd, hfd⟩ := Option.isSome_iff_exists.mp (freeFd_isSome hlt hnone)
  have hgo : ¬((s.file path).isNone && !create) = true := by
    rcases hthere with hsome | rfl
    · rw [Option.isNone_eq_false_iff.mpr hsome]
      simp
    · simp
  rw [openFile, if_neg hgo, hfd]
  exact ⟨fd, _, rfl, freeFd_none hfd, freeFd_lt hfd, rfl, rfl, rfl, rfl⟩

theorem OpensFile.card_freeFds {path : P} {writable trunc : Bool}
    (h : OpensFile s path writable trunc fd s') : s'.freeFds.card = s.freeFds.card - 1 := by
  rw [freeFds_taken h.desc h.openMax,
    Finset.card_erase_of_mem (mem_freeFds.mpr ⟨h.lt, h.free⟩)]

omit [DecidableEq P] in
theorem close_open {d : Descriptor P} (hdesc : s.desc fd = some d) :
    s.close fd = { s with
      desc := Function.update s.desc fd none
      closed := s.closed ++ [d.serial] } := by
  rw [close, hdesc]

omit [DecidableEq P] in
theorem card_freeFds_close {d : Descriptor P} (hdesc : s.desc fd = some d)
    (hfd : fd < s.openMax) : (s.close fd).freeFds.card = s.freeFds.card + 1 := by
  have htaken : fd ∉ s.freeFds := by
    rw [mem_freeFds, hdesc]
    simp
  have hreleased : (s.close fd).freeFds = insert fd s.freeFds := by
    rw [close_open hdesc]
    exact freeFds_released hfd rfl rfl
  rw [hreleased, Finset.card_insert_of_notMem htaken]

end Free

end FileSys

end Library.Posix
