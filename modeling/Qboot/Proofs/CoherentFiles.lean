import Qboot.Proofs.CheckPass
import Qboot.Proofs.Descriptors
/-!
# Files as stable storage

Over file-backed targets every entry of the descriptor table leads to the file of
its target, whatever has been opened, closed and accessed.  On the devices for which
this holds a read returns the bytes of its target's file, and only erasing, writing
and an open that truncates change them.
-/

namespace Qboot

open Library Bytes Posix FileSys

/-! ## The invariant of the table -/

/-- Every entry of the table leads to an open descriptor of its target's file. -/
def FsDev.Coherent (d : FsDev) : Prop :=
  ∀ id fd, d.slots id = some fd → d.LeadsTo id fd

/-- A file-backed device with a table in order. -/
abbrev FsStorage := { d : FsDev // d.Coherent }

variable {d d' : FsDev}

namespace FsDev

theorem coherent_start (file : FsPath → Option (List UInt8)) (openMax offMax : Nat) :
    (start file openMax offMax).Coherent :=
  fun _ _ hslot => nomatch hslot

theorem Coherent.kept (h : d.Coherent) (hkeeps : KeepsTable d d') : d'.Coherent := by
  intro id fd hslot
  rw [hkeeps.slots] at hslot
  obtain ⟨-, e, hdesc, hpath⟩ := h id fd hslot
  exact ⟨by rw [hkeeps.slots, hslot], e, by rw [hkeeps.sys.desc, hdesc], hpath⟩

theorem Coherent.opened {id : TargetId} {fd : Nat} (h : d.Coherent)
    (hopens : Opens id fd d d') : d'.Coherent := by
  obtain ⟨writable, hdesc'⟩ := hopens.desc
  intro id' fd' hslot
  refine ⟨hslot, ?_⟩
  rw [hopens.slots] at hslot
  rw [hdesc']
  by_cases hid : id' = id
  · rw [hid, Function.update_self] at hslot
    obtain rfl := Option.some.inj hslot
    exact ⟨_, Function.update_self .., by rw [hid]⟩
  · rw [Function.update_of_ne hid] at hslot
    obtain ⟨-, e, hdesc, hpath⟩ := h id' fd' hslot
    -- the new descriptor was free, the other one was not
    have hfd : fd' ≠ fd := by
      rintro rfl
      rw [hopens.free] at hdesc
      exact nomatch hdesc
    exact ⟨e, by rw [Function.update_of_ne hfd, hdesc], hpath⟩

theorem Coherent.closed (h : d.Coherent) (hdl : Handle) : (fsClose hdl d).2.Coherent := by
  intro id fd hslot
  refine ⟨hslot, ?_⟩
  have hslot : Function.update d.slots hdl.target none id = some fd := hslot
  have hid : id ≠ hdl.target := by
    rintro rfl
    rw [Function.update_self] at hslot
    exact nomatch hslot
  rw [Function.update_of_ne hid] at hslot
  obtain ⟨-, e, hdesc, hpath⟩ := h id fd hslot
  cases hold : d.slots hdl.target with
  | none =>
      refine ⟨e, ?_, hpath⟩
      simpa only [fsClose, hold] using hdesc
  | some fd₀ =>
      obtain ⟨-, e₀, hdesc₀, hpath₀⟩ := h hdl.target fd₀ hold
      have hfd : fd ≠ fd₀ := by
        rintro rfl
        rw [hdesc] at hdesc₀
        obtain rfl := Option.some.inj hdesc₀
        exact hid (FsPath.target.inj (hpath.symm.trans hpath₀))
      refine ⟨e, ?_, hpath⟩
      simpa only [fsClose, hold, FileSys.close, hdesc₀, Function.update_of_ne hfd] using hdesc

theorem Coherent.marker (h : d.Coherent) {fd : Nat} {writable create trunc : Bool}
    {sys : FileSys FsPath}
    (hopen : d.sys.openFile .sign writable create trunc = (some fd, sys)) :
    { d with sys := sys.close fd }.Coherent := by
  obtain hnone | ⟨fd', sys', hopen', hfree, hdesc, -⟩ :=
    openFile_cases d.sys .sign writable create trunc
  · rw [hnone] at hopen
    exact nomatch hopen
  rw [hopen'] at hopen
  obtain ⟨hfd, rfl⟩ := Prod.mk.inj hopen
  obtain rfl := Option.some.inj hfd
  intro id fd hslot
  obtain ⟨-, e, he, hpath⟩ := h id fd hslot
  have hne : fd ≠ fd' := by
    rintro rfl
    rw [hfree] at he
    exact nomatch he
  refine ⟨hslot, e, ?_, hpath⟩
  simp only [FileSys.close, hdesc, Function.update_self, Function.update_of_ne hne, he]

end FsDev

theorem coherent_fsOpen (id : TargetId) (flags : OpenFlags) (h : d.Coherent) :
    (fsOpen id flags d).2.Coherent := by
  obtain hstay | ⟨fd, d', hopen, hopens⟩ := fsOpen_cases id flags d
  · rw [hstay]
    exact h
  · rw [hopen]
    exact h.opened hopens

theorem fsSize_same (cfg : HpatchConfig) (h : Handle) (d : FsDev) : (fsSize cfg h d).2 = d := by
  unfold fsSize
  split
  · rfl
  · split <;> rfl

theorem coherent_fsSize (cfg : HpatchConfig) (hdl : Handle) (h : d.Coherent) :
    (fsSize cfg hdl d).2.Coherent := by
  rw [fsSize_same]
  exact h

theorem coherent_fsSignRead (hdl : Handle) (info : FwInfo) (h : d.Coherent) :
    (fsSignRead hdl info d).2.Coherent := by
  unfold fsSignRead
  split
  · next hopen =>
    obtain hnone | ⟨fd, sys, hopen', -⟩ := openFile_cases d.sys .sign false false false
    · rw [hnone] at hopen
      obtain ⟨-, rfl⟩ := Prod.mk.inj hopen
      exact h
    · rw [hopen'] at hopen
      exact nomatch hopen
  · next hopen => exact h.marker hopen

theorem coherent_fsSignWrite (hdl : Handle) (info : FwInfo) (h : d.Coherent) :
    (fsSignWrite hdl info d).2.Coherent := by
  unfold fsSignWrite
  split
  · next hopen =>
    obtain hnone | ⟨fd, sys, hopen', -⟩ := openFile_cases d.sys .sign true true true
    · rw [hnone] at hopen
      obtain ⟨-, rfl⟩ := Prod.mk.inj hopen
      exact h
    · rw [hopen'] at hopen
      exact nomatch hopen
  · next hopen => exact h.marker hopen

/-- The operations of the backend, on devices with a table in order. -/
def coherentIo (cfg : HpatchConfig) : IoOps FsStorage where
  openTarget := fun id flags => (fsOpen id flags).restrict fun _ => coherent_fsOpen id flags
  close := fun h => (fsClose h).restrict fun _ hd => hd.closed h
  read := fun h off len => (fsRead h off len).restrict fun d hd =>
    hd.kept (keepsTable_read h off len d)
  erase := fun h off len => (fsErase cfg h off len).restrict fun d hd =>
    hd.kept (keepsTable_erase h off len d)
  write := fun h off data => (fsWrite h off data).restrict fun d hd =>
    hd.kept (keepsTable_write h off data d)
  size := fun h => (fsSize cfg h).restrict fun _ => coherent_fsSize cfg h
  getEraseAlign := fun _ d => (none, d)

/-- The marker file, on devices with a table in order. -/
def coherentParser : HeaderParserOps FsStorage where
  signRead := fun h info => (fsSignRead h info).restrict fun _ => coherent_fsSignRead h info
  signWrite := fun h info => (fsSignWrite h info).restrict fun _ => coherent_fsSignWrite h info
  signClear := fun h info => (fsSignClear h info).restrict fun _ hd => hd

/-! ## The bytes of the files -/

def FsDev.cells (d : FsDev) (id : TargetId) : Nat → UInt8 := fun a => (d.bytes id).getD a 0

theorem cells_congr (h : d'.sys.file = d.sys.file) : d'.cells = d.cells := by
  funext id a
  rw [FsDev.cells, FsDev.cells, FsDev.bytes, FsDev.bytes, content, content, h]

theorem readCells_getD {l : List UInt8} {off len : Nat}
    (h : ((l.drop off).take len).length = len) :
    (readCells (fun a => l.getD a 0) off len).1 = (l.drop off).take len := by
  apply List.ext_getElem
  · rw [h, (readCells _ off len).2]
  · intro i hi _
    rw [(readCells _ off len).2] at hi
    rw [List.length_take, List.length_drop] at h
    simp only [readCells, List.getElem_map, List.getElem_range, List.getElem_take,
      List.getElem_drop]
    exact List.getD_eq_getElem _ _ (by omega)

theorem file_readVia (sys : FileSys FsPath) (fd off len : Nat) :
    (readVia sys fd off len).2.file = sys.file := by
  unfold readVia FileSys.seek
  split
  · next heq =>
    split at heq
    · exact nomatch heq
    · obtain ⟨-, rfl⟩ := Prod.mk.inj heq
      rfl
  · next heq =>
    split at heq
    · obtain ⟨-, rfl⟩ := Prod.mk.inj heq
      unfold FileSys.read
      split <;> rfl
    · exact nomatch heq

theorem file_fsRead (h : Handle) (off len : Nat) (d : FsDev) :
    (fsRead h off len d).2.sys.file = d.sys.file := by
  cases hslot : d.slots h.target with
  | none => simp only [fsRead, hslot]
  | some fd =>
      have hread : (fsRead h off len d).2 = _ := (fsRead_via hslot off len).2
      rw [hread]
      exact file_readVia d.sys fd off len

theorem readVia_content {sys : FileSys FsPath} {fd off len : Nat}
    {e : Descriptor FsPath} (hdesc : sys.desc fd = some e) {bytes : List UInt8}
    (hread : (readVia sys fd off len).1 = some bytes) :
    bytes = ((sys.content e.path).drop off).take len := by
  unfold readVia FileSys.seek at hread
  split at hread
  · exact nomatch hread
  · next heq =>
    split at heq
    · obtain ⟨-, rfl⟩ := Prod.mk.inj heq
      simp only [FileSys.read, hdesc, Function.update_self] at hread
      exact (Option.some.inj hread).symm
    · exact nomatch heq

theorem fsRead_cells (hd : d.Coherent) (h : Handle) {off len : Nat} {b : Block len}
    (hread : (fsRead h off len d).1 = some b) : b = readCells (d.cells h.target) off len := by
  cases hslot : d.slots h.target with
  | none =>
      simp only [fsRead, hslot] at hread
      cases hread
  | some fd =>
      obtain ⟨-, e, hdesc, hpath⟩ := hd h.target fd hslot
      have hvia : (fsRead h off len d).1.map Subtype.val = _ := (fsRead_via hslot off len).1
      rw [hread, Option.map_some] at hvia
      have hbytes := readVia_content hdesc (Option.filter_eq_some_iff.mp hvia.symm).1
      rw [hpath] at hbytes
      have hbytes : b.1 = ((d.bytes h.target).drop off).take len := hbytes
      have hlen : (((d.bytes h.target).drop off).take len).length = len := by
        rw [← hbytes, b.2]
      exact Subtype.ext (hbytes.trans (readCells_getD hlen).symm)

theorem cells_fsOpen (id : TargetId) {flags : OpenFlags} (hflags : flags ≠ .writeCreateTrunc)
    (d : FsDev) : (fsOpen id flags d).2.cells = d.cells := by
  have htrunc : flags.trunc = false := by
    cases flags with
    | writeCreateTrunc => exact absurd rfl hflags
    | read => rfl
    | write => rfl
    | writeCreate => rfl
  have hcontent (path : FsPath) : (fsOpen id flags d).2.sys.content path =
      d.sys.content path := by
    unfold fsOpen FileSys.openFile
    rw [htrunc]
    split
    · next heq =>
      split at heq
      · obtain ⟨-, rfl⟩ := Prod.mk.inj heq
        rfl
      · split at heq
        · obtain ⟨-, rfl⟩ := Prod.mk.inj heq
          rfl
        · exact nomatch heq
    · next heq =>
      split at heq
      · exact nomatch heq
      · split at heq
        · exact nomatch heq
        · obtain ⟨-, rfl⟩ := Prod.mk.inj heq
          show (Function.update d.sys.file (.target id) _ path).getD [] = _
          by_cases hpath : path = .target id
          · rw [hpath, Function.update_self]
            rfl
          · rw [Function.update_of_ne hpath]
            rfl
  funext id' a
  rw [FsDev.cells, FsDev.cells, FsDev.bytes, FsDev.bytes, hcontent]

theorem file_fsClose (h : Handle) (d : FsDev) :
    (fsClose h d).2.sys.file = d.sys.file := by
  unfold fsClose
  dsimp only
  split
  · rfl
  · unfold FileSys.close
    split <;> rfl

/-! ## The bytes after an access -/

theorem content_other {sys sys' : FileSys FsPath} {path path' : FsPath}
    {bytes : Option (List UInt8)} (h : sys'.file = Function.update sys.file path' bytes)
    (hpath : path ≠ path') : sys'.content path = sys.content path := by
  rw [content, content, h, Function.update_of_ne hpath]

theorem content_stored {sys sys' : FileSys FsPath} {path : FsPath} {bytes : List UInt8}
    (h : sys'.file = Function.update sys.file path (some bytes)) :
    sys'.content path = bytes := by
  rw [content, h, Function.update_self]
  rfl

/-- What a write through an open descriptor does. -/
theorem writeVia_open {sys : FileSys FsPath} {fd : Nat} {e : Descriptor FsPath}
    (hdesc : sys.desc fd = some e) (off : Nat) (data : List UInt8) :
    writeVia sys fd off data =
      if e.writable = true ∧ off + data.length ≤ sys.offMax then
        (true, { sys with
          file := Function.update sys.file e.path
            (some (writeAt (sys.content e.path) off data))
          pos := Function.update (Function.update sys.pos fd off) fd (off + data.length) })
      else (false, if off ≤ sys.offMax then { sys with pos := Function.update sys.pos fd off }
        else sys) := by
  by_cases hoff : off ≤ sys.offMax
  · have hseek : sys.seek fd off = (true, { sys with pos := Function.update sys.pos fd off }) :=
      if_pos ⟨by rw [hdesc]; rfl, hoff⟩
    simp only [writeVia, hseek, FileSys.write, hdesc, Function.update_self, if_pos hoff]
    rfl
  · have hseek : sys.seek fd off = (false, sys) := if_neg fun h => hoff h.2
    have hlong : ¬(e.writable = true ∧ off + data.length ≤ sys.offMax) := by omega
    simp only [writeVia, hseek, if_neg hlong, if_neg hoff]

theorem content_writeVia {sys : FileSys FsPath} {fd : Nat} {e : Descriptor FsPath}
    (hdesc : sys.desc fd = some e) (off : Nat) (data : List UInt8) {path : FsPath}
    (hpath : path ≠ e.path) : (writeVia sys fd off data).2.content path = sys.content path := by
  rw [writeVia_open hdesc]
  split
  · exact content_other rfl hpath
  · split <;> rfl

theorem content_writeVia_done {sys : FileSys FsPath} {fd off : Nat} {data : List UInt8}
    {e : Descriptor FsPath} (hdesc : sys.desc fd = some e)
    (hdone : (writeVia sys fd off data).1 = true) :
    (writeVia sys fd off data).2.content e.path = writeAt (sys.content e.path) off data := by
  rw [writeVia_open hdesc] at hdone ⊢
  by_cases hfits : e.writable = true ∧ off + data.length ≤ sys.offMax
  · rw [if_pos hfits]
    exact content_stored rfl
  · rw [if_neg hfits] at hdone
    cases hdone

theorem content_ftruncate {sys : FileSys FsPath} {fd : Nat} {e : Descriptor FsPath}
    (hdesc : sys.desc fd = some e) (len : Nat) {path : FsPath} (hpath : path ≠ e.path) :
    (sys.ftruncate fd len).2.content path = sys.content path := by
  simp only [FileSys.ftruncate, hdesc]
  split
  · exact content_other rfl hpath
  · rfl

section Cells

variable (hd : d.Coherent) (h : Handle) {id : TargetId}
include hd

theorem cells_fsWrite_other (hid : id ≠ h.target) (off : Nat) (data : List UInt8) :
    (fsWrite h off data d).2.cells id = d.cells id := by
  cases hslot : d.slots h.target with
  | none => simp only [fsWrite, hslot]
  | some fd =>
      obtain ⟨-, e, hdesc, hpath⟩ := hd h.target fd hslot
      have hwrite : (fsWrite h off data d).2 = _ := (fsWrite_via hslot off data).2
      have hother : FsPath.target id ≠ e.path := by
        rw [hpath]
        exact fun heq => hid (FsPath.target.inj heq)
      funext a
      rw [FsDev.cells, FsDev.bytes, hwrite, content_writeVia hdesc off data hother]
      rfl

theorem cells_fsWrite {off : Nat} {data : List UInt8} (hdone : (fsWrite h off data d).1 = true) :
    (fsWrite h off data d).2.cells h.target = overwrite (d.cells h.target) off data := by
  cases hslot : d.slots h.target with
  | none =>
      simp only [fsWrite, hslot] at hdone
      cases hdone
  | some fd =>
      obtain ⟨-, e, hdesc, hpath⟩ := hd h.target fd hslot
      obtain ⟨hanswer, hwrite⟩ : (fsWrite h off data d).1 = _ ∧ (fsWrite h off data d).2 = _ :=
        fsWrite_via hslot off data
      rw [hanswer, Bool.and_eq_true] at hdone
      have hcontent := content_writeVia_done hdesc hdone.1
      rw [hpath] at hcontent
      funext a
      rw [FsDev.cells, FsDev.bytes, hwrite, hcontent, getD_writeAt]
      rfl

theorem cells_fsErase_other (hid : id ≠ h.target) (cfg : HpatchConfig) (off len : Nat) :
    (fsErase cfg h off len d).2.cells id = d.cells id := by
  cases hslot : d.slots h.target with
  | none => simp only [fsErase, hslot]
  | some fd =>
      obtain ⟨-, e, hdesc, hpath⟩ := hd h.target fd hslot
      have herase : (fsErase cfg h off len d).2 = _ := (fsErase_via hslot off len).2
      have hother : FsPath.target id ≠ e.path := by
        rw [hpath]
        exact fun heq => hid (FsPath.target.inj heq)
      funext a
      rw [FsDev.cells, FsDev.bytes, herase, content_ftruncate hdesc _ hother]
      rfl

end Cells

/-- The marker file is no target. -/
theorem content_openFile_sign (sys : FileSys FsPath) (writable create trunc : Bool)
    (id : TargetId) : (sys.openFile .sign writable create trunc).2.content (.target id) =
      sys.content (.target id) := by
  unfold FileSys.openFile
  split
  · rfl
  · split
    · rfl
    · exact content_other rfl (by simp)

theorem content_close (sys : FileSys FsPath) (fd : Nat) (path : FsPath) :
    (sys.close fd).content path = sys.content path := by
  unfold FileSys.close
  split <;> rfl

theorem cells_fsSignRead (h : Handle) (info : FwInfo) (d : FsDev) :
    (fsSignRead h info d).2.cells = d.cells := by
  have hopen := content_openFile_sign d.sys false false false
  funext id a
  rw [FsDev.cells, FsDev.cells, FsDev.bytes, FsDev.bytes, ← hopen id, fsSignRead]
  split <;> rename_i heq <;> rw [heq]
  rw [content_close]

theorem cells_fsSignWrite (h : Handle) (info : FwInfo) (d : FsDev) :
    (fsSignWrite h info d).2.cells = d.cells := by
  have hopen := content_openFile_sign d.sys true true true
  funext id a
  rw [FsDev.cells, FsDev.cells, FsDev.bytes, FsDev.bytes, ← hopen id, fsSignWrite]
  split <;> rename_i heq <;> rw [heq]
  rw [content_close]

/-- File-backed targets hold the bytes of their files. -/
def filesStable {κ : Type} (env : Env FsStorage κ) : StableEnv FsStorage κ where
  toEnv := { env with io := coherentIo env.hpatch.cfg, parser := coherentParser }
  content := fun d => d.1.cells
  read_data := fun h _ _ d _ hread => fsRead_cells d.2 h hread
  read_keeps := fun h off len d => cells_congr (file_fsRead h off len d.1)
  open_keeps := fun id _ d hflags => cells_fsOpen id hflags d.1
  close_keeps := fun h d => cells_congr (file_fsClose h d.1)
  size_keeps := fun h d => congrArg FsDev.cells (fsSize_same env.hpatch.cfg h d.1)

end Qboot
