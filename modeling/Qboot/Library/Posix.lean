import Mathlib.Tactic.Common
/-!
# Files and descriptors

The part of a POSIX file system that works on regular files: descriptors with a
position, reads and writes through them, truncation and removal.  Every
successful open gets a serial number, and closing records it, so that a run
tells which of its opens were closed.
-/

namespace Library.Posix

/-! ## Contents -/

/-- The content after `data` is written at `pos`; a gap reads as zeros. -/
def writeAt (content : List UInt8) (pos : Nat) (data : List UInt8) : List UInt8 :=
  if data = [] then content
  else content.take pos ++ List.replicate (pos - content.length) 0 ++ data ++
    content.drop (pos + data.length)

/-- The content cut or filled up with zeros. -/
def resize (content : List UInt8) (len : Nat) : List UInt8 :=
  content.take len ++ List.replicate (len - content.length) 0

theorem length_writeAt (content : List UInt8) (pos : Nat) {data : List UInt8}
    (h : data ≠ []) :
    (writeAt content pos data).length = max content.length (pos + data.length) := by
  rw [writeAt, if_neg h]
  simp only [List.length_append, List.length_take, List.length_replicate, List.length_drop]
  omega

theorem writeAt_nil (content : List UInt8) (pos : Nat) : writeAt content pos [] = content :=
  if_pos rfl

/-- Writes that follow one another are one write. -/
theorem writeAt_append (content data more : List UInt8) :
    writeAt (writeAt content 0 data) data.length more = writeAt content 0 (data ++ more) := by
  by_cases hmore : more = []
  · rw [hmore, writeAt_nil, List.append_nil]
  by_cases hdata : data = []
  · rw [hdata, writeAt_nil, List.nil_append, List.length_nil]
  have hfirst : writeAt content 0 data = data ++ content.drop data.length := by
    simp [writeAt, hdata]
  have hboth : writeAt content 0 (data ++ more) =
      data ++ more ++ content.drop (data.length + more.length) := by
    simp [writeAt, hdata]
  have hgap : data.length - (data ++ content.drop data.length).length = 0 := by
    rw [List.length_append]
    omega
  rw [hfirst, hboth, writeAt, if_neg hmore, hgap, List.take_left, List.replicate_zero,
    List.append_nil, List.drop_append, List.drop_eq_nil_of_le (Nat.le_add_right _ _),
    List.nil_append, Nat.add_sub_cancel_left, List.drop_drop]

/-- What stands before the position of a write stays. -/
theorem take_writeAt {content data : List UInt8} {pos k : Nat} (hpos : k ≤ pos)
    (hk : k ≤ content.length) : (writeAt content pos data).take k = content.take k := by
  unfold writeAt
  split
  · rfl
  · rw [List.append_assoc, List.append_assoc, List.take_append_of_le_length, List.take_take,
      Nat.min_eq_left hpos]
    rw [List.length_take]
    omega

/-- What has been written stands where it was written. -/
theorem slice_writeAt {content data : List UInt8} {pos : Nat} (hdata : data ≠ []) :
    ((writeAt content pos data).take (pos + data.length)).drop pos = data := by
  have hfront : (content.take pos ++ List.replicate (pos - content.length) 0).length =
      pos := by
    rw [List.length_append, List.length_take, List.length_replicate]
    omega
  have hboth : (content.take pos ++ List.replicate (pos - content.length) 0 ++ data).length =
      pos + data.length := by
    rw [List.length_append, hfront]
  rw [writeAt, if_neg hdata, List.take_left' hboth, List.drop_left' hfront]

theorem writeAt_of_le {content data : List UInt8} {pos : Nat} (hpos : pos ≤ content.length) :
    writeAt content pos data = content.take pos ++ data ++ content.drop (pos + data.length) := by
  unfold writeAt
  split
  · next h => rw [h, List.append_nil, List.length_nil, Nat.add_zero, List.take_append_drop]
  · rw [Nat.sub_eq_zero_of_le hpos, List.replicate_zero, List.append_nil]

/-- What stands where after a write. -/
theorem getD_writeAt (content data : List UInt8) (pos a : Nat) :
    (writeAt content pos data).getD a 0 =
      if pos ≤ a ∧ a < pos + data.length then data.getD (a - pos) 0 else content.getD a 0 := by
  by_cases hdata : data = []
  · rw [hdata, writeAt_nil, if_neg]
    simp only [List.length_nil]
    omega
  have hfront : (content.take pos ++ List.replicate (pos - content.length) 0).length =
      pos := by
    rw [List.length_append, List.length_take, List.length_replicate]
    omega
  simp only [List.getD_eq_getElem?_getD]
  rw [writeAt, if_neg hdata, List.append_assoc]
  by_cases hlow : a < pos
  · rw [if_neg (by omega), List.getElem?_append_left (by omega)]
    by_cases hin : a < content.length
    · rw [List.getElem?_append_left (by rw [List.length_take]; omega),
        List.getElem?_take_of_lt hlow]
    · rw [List.getElem?_append_right (by rw [List.length_take]; omega),
        List.getElem?_eq_none (Nat.le_of_not_lt hin), List.getElem?_replicate]
      split <;> rfl
  rw [List.getElem?_append_right (by omega), hfront]
  by_cases hin : a < pos + data.length
  · rw [if_pos ⟨by omega, hin⟩, List.getElem?_append_left (by omega)]
  · rw [if_neg (by omega), List.getElem?_append_right (by omega), List.getElem?_drop]
    congr 2
    omega

/-- A write keeps the front of a content exactly if it repeats what stands there. -/
theorem prefix_writeAt_iff (front rest data : List UInt8) (pos : Nat) :
    front <+: writeAt (front ++ rest) pos data ↔
      (front.drop pos).take data.length <+: data := by
  by_cases hpos : front.length ≤ pos
  · have hfront : (writeAt (front ++ rest) pos data).take front.length = front := by
      rw [take_writeAt hpos (by rw [List.length_append]; omega), List.take_left]
    rw [List.drop_of_length_le hpos, List.take_nil]
    exact iff_of_true (List.prefix_iff_eq_take.mpr hfront.symm) List.nil_prefix
  have hle : pos ≤ front.length := Nat.le_of_not_le hpos
  have hwrite : writeAt (front ++ rest) pos data =
      front.take pos ++ (data ++ ((front.drop pos).drop data.length ++
        rest.drop (data.length - (front.length - pos)))) := by
    rw [writeAt_of_le (by rw [List.length_append]; omega), List.take_append_of_le_length hle,
      List.append_assoc, List.drop_append, List.drop_drop]
    congr 4
    omega
  have hsplit : front <+: writeAt (front ++ rest) pos data ↔
      front.drop pos <+: data ++ ((front.drop pos).drop data.length ++
        rest.drop (data.length - (front.length - pos))) := by
    rw [hwrite]
    nth_rewrite 1 [← List.take_append_drop pos front]
    exact List.prefix_append_right_inj _
  rw [hsplit]
  generalize front.drop pos = tail
  constructor
  · intro h
    have htake := (List.take_prefix data.length tail).trans h
    exact List.prefix_of_prefix_length_le htake (List.prefix_append _ _)
      (List.length_take_le _ _)
  · intro h
    rcases Nat.le_total tail.length data.length with hle | hle
    · rw [List.take_of_length_le hle] at h
      exact h.trans (List.prefix_append _ _)
    · have hwhole : tail.take data.length = data :=
        h.eq_of_length (List.length_take_of_le hle)
      nth_rewrite 1 [← List.take_append_drop data.length tail]
      rw [hwhole, List.prefix_append_right_inj]
      exact List.prefix_append _ _

@[simp] theorem resize_zero (content : List UInt8) : resize content 0 = [] := by
  simp [resize]

@[simp] theorem length_resize (content : List UInt8) (len : Nat) :
    (resize content len).length = len := by
  simp [resize]
  omega

/-! ## Descriptors -/

variable {P : Type}

/-- An open file description. -/
structure Descriptor (P : Type) where
  path : P
  writable : Bool
  serial : Nat
  deriving DecidableEq

/-- The files, and the descriptors of a process.  `offMax` is the largest `off_t`. -/
structure FileSys (P : Type) where
  file : P → Option (List UInt8)
  desc : Nat → Option (Descriptor P)
  pos : Nat → Nat
  openMax : Nat
  offMax : Nat
  opens : Nat
  closed : List Nat

namespace FileSys

variable [DecidableEq P]

/-- What the file holds; a missing one holds nothing. -/
def content (s : FileSys P) (path : P) : List UInt8 := (s.file path).getD []

/-- The lowest free descriptor. -/
def freeFd (s : FileSys P) : Option Nat :=
  (List.range s.openMax).find? fun fd => (s.desc fd).isNone

/-- `open` with the mode `O_RDONLY` or `O_RDWR`, and the flags `O_CREAT` and `O_TRUNC`. -/
def openFile (s : FileSys P) (path : P) (writable create trunc : Bool) :
    Option Nat × FileSys P :=
  if (s.file path).isNone && !create then (none, s)
  else
    match s.freeFd with
    | none => (none, s)
    | some fd =>
        (some fd, { s with
          file := Function.update s.file path
            (some (if trunc then [] else s.content path))
          desc := Function.update s.desc fd (some ⟨path, writable, s.opens⟩)
          pos := Function.update s.pos fd 0
          opens := s.opens + 1 })

/-- `close` -/
def close (s : FileSys P) (fd : Nat) : FileSys P :=
  match s.desc fd with
  | none => s
  | some d =>
      { s with
        desc := Function.update s.desc fd none
        closed := s.closed ++ [d.serial] }

/-- `lseek` with `SEEK_SET` -/
def seek (s : FileSys P) (fd off : Nat) : Bool × FileSys P :=
  if (s.desc fd).isSome ∧ off ≤ s.offMax then
    (true, { s with pos := Function.update s.pos fd off })
  else (false, s)

/-- `read`: the bytes from the position on, as many as there are. -/
def read (s : FileSys P) (fd len : Nat) : Option (List UInt8) × FileSys P :=
  match s.desc fd with
  | none => (none, s)
  | some d =>
      let bytes := ((s.content d.path).drop (s.pos fd)).take len
      (some bytes, { s with pos := Function.update s.pos fd (s.pos fd + bytes.length) })

/-- `write` of all the data. -/
def write (s : FileSys P) (fd : Nat) (data : List UInt8) : Bool × FileSys P :=
  match s.desc fd with
  | none => (false, s)
  | some d =>
      if d.writable ∧ s.pos fd + data.length ≤ s.offMax then
        (true, { s with
          file := Function.update s.file d.path
            (some (writeAt (s.content d.path) (s.pos fd) data))
          pos := Function.update s.pos fd (s.pos fd + data.length) })
      else (false, s)

/-- `ftruncate` -/
def ftruncate (s : FileSys P) (fd len : Nat) : Bool × FileSys P :=
  match s.desc fd with
  | none => (false, s)
  | some d =>
      if d.writable then
        (true, { s with
          file := Function.update s.file d.path (some (resize (s.content d.path) len)) })
      else (false, s)

/-- `unlink` -/
def unlink (s : FileSys P) (path : P) : FileSys P :=
  { s with file := Function.update s.file path none }

/-- The length of the file behind a descriptor, as `lseek` with `SEEK_END` answers. -/
def fileLength (s : FileSys P) (fd : Nat) : Option Nat :=
  match s.desc fd with
  | none => none
  | some d =>
      if (s.content d.path).length ≤ s.offMax then some (s.content d.path).length else none

/-! ## What an operation leaves alone -/

/-- The descriptors are the same, none was opened or closed, and the limits are as they
were. -/
structure SameDescs (s s' : FileSys P) : Prop where
  desc : s'.desc = s.desc
  opens : s'.opens = s.opens
  closed : s'.closed = s.closed
  openMax : s'.openMax = s.openMax
  offMax : s'.offMax = s.offMax

namespace SameDescs

variable {s s' s'' : FileSys P}

omit [DecidableEq P] in
theorem refl (s : FileSys P) : SameDescs s s := ⟨rfl, rfl, rfl, rfl, rfl⟩

omit [DecidableEq P] in
theorem trans (h : SameDescs s s') (h' : SameDescs s' s'') : SameDescs s s'' where
  desc := h'.desc.trans h.desc
  opens := h'.opens.trans h.opens
  closed := h'.closed.trans h.closed
  openMax := h'.openMax.trans h.openMax
  offMax := h'.offMax.trans h.offMax

end SameDescs

variable (s : FileSys P) (fd : Nat)

omit [DecidableEq P] in
theorem sameDescs_seek (off : Nat) : SameDescs s (s.seek fd off).2 := by
  unfold seek
  split <;> exact ⟨rfl, rfl, rfl, rfl, rfl⟩

omit [DecidableEq P] in
theorem sameDescs_read (len : Nat) : SameDescs s (s.read fd len).2 := by
  unfold read
  split <;> exact ⟨rfl, rfl, rfl, rfl, rfl⟩

theorem sameDescs_write (data : List UInt8) : SameDescs s (s.write fd data).2 := by
  unfold write
  split
  · exact .refl s
  · split <;> exact ⟨rfl, rfl, rfl, rfl, rfl⟩

theorem sameDescs_ftruncate (len : Nat) : SameDescs s (s.ftruncate fd len).2 := by
  unfold ftruncate
  split
  · exact .refl s
  · split <;> exact ⟨rfl, rfl, rfl, rfl, rfl⟩

omit [DecidableEq P] in
theorem freeFd_none {s : FileSys P} {fd : Nat} (h : s.freeFd = some fd) :
    s.desc fd = none := by
  have hfree := List.find?_some h
  simpa using hfree

omit [DecidableEq P] in
theorem freeFd_isSome {s : FileSys P} {fd : Nat} (hfd : fd < s.openMax)
    (hfree : s.desc fd = none) : s.freeFd.isSome := by
  rw [freeFd, List.find?_isSome]
  exact ⟨fd, List.mem_range.mpr hfd, by rw [hfree]; rfl⟩

omit [DecidableEq P] in
theorem freeFd_lt {s : FileSys P} {fd : Nat} (h : s.freeFd = some fd) : fd < s.openMax :=
  List.mem_range.mp (List.mem_of_find?_eq_some h)

/-- What `open` answers and does: a new description in a free descriptor, or nothing. -/
theorem openFile_cases (path : P) (writable create trunc : Bool) :
    s.openFile path writable create trunc = (none, s) ∨
      ∃ fd s', s.openFile path writable create trunc = (some fd, s') ∧
        s.desc fd = none ∧
        s'.desc = Function.update s.desc fd (some ⟨path, writable, s.opens⟩) ∧
        s'.opens = s.opens + 1 ∧ s'.closed = s.closed := by
  unfold openFile
  split
  · exact .inl rfl
  · cases hfree : s.freeFd with
    | none => exact .inl rfl
    | some fd => exact .inr ⟨fd, _, rfl, freeFd_none hfree, rfl, rfl, rfl⟩

end FileSys

end Library.Posix
