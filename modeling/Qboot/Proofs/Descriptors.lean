import Qboot.Library.Run
import Qboot.Model.Files
/-!
# Descriptors behind the handles

Over any sequence of opens, closes and accesses of file-backed targets: all
descriptors are closed, and every access through an open handle reaches its
file, exactly as long as no target is opened while it is open.
-/

namespace Qboot

open Library Posix Run FileSys

/-! ## Runs -/

inductive FsCall where
  | openTarget (id : TargetId) (flags : OpenFlags)
  | close (id : TargetId)
  | read (id : TargetId) (off len : Nat)
  | write (id : TargetId) (off : Nat) (data : List UInt8)
  | erase (id : TargetId) (off len : Nat)

/-- The backend, and for each target the number of its handles that are open. -/
structure FsRun where
  dev : FsDev
  live : TargetId → Nat

def fsHandle (id : TargetId) : Handle := ⟨id, 0⟩

variable (cfg : HpatchConfig)

def FsRun.step (s : FsRun) : FsCall → FsRun
  | .openTarget id flags =>
      { dev := (fsOpen id flags s.dev).2
        live := if (fsOpen id flags s.dev).1.isSome then
          Function.update s.live id (s.live id + 1) else s.live }
  | .close id =>
      { dev := (fsClose (fsHandle id) s.dev).2
        live := Function.update s.live id (s.live id - 1) }
  | .read id off len => { s with dev := (fsRead (fsHandle id) off len s.dev).2 }
  | .write id off data => { s with dev := (fsWrite (fsHandle id) off data s.dev).2 }
  | .erase id off len => { s with dev := (fsErase cfg (fsHandle id) off len s.dev).2 }

def FsRun.start (file : FsPath → Option (List UInt8)) (openMax offMax : Nat) : FsRun :=
  ⟨FsDev.start file openMax offMax, fun _ => 0⟩

/-- A close is that of a handle which is open. -/
def ClosesOpen (s : FsRun) : FsCall → Prop
  | .close id => 0 < s.live id
  | _ => True

/-- A successful open is of a target that has no open handle. -/
def NoOverlap (s : FsRun) : FsCall → Prop
  | .openTarget id flags => (fsOpen id flags s.dev).1.isSome → s.live id = 0
  | _ => True

def readVia (sys : FileSys FsPath) (fd off len : Nat) :
    Option (List UInt8) × FileSys FsPath :=
  match sys.seek fd off with
  | (false, sys) => (none, sys)
  | (true, sys) => sys.read fd len

def writeVia (sys : FileSys FsPath) (fd off : Nat) (data : List UInt8) :
    Bool × FileSys FsPath :=
  match sys.seek fd off with
  | (false, sys) => (false, sys)
  | (true, sys) => sys.write fd data

/-- `fd` is an open descriptor of the target's file, which its table entry leads to. -/
def FsDev.LeadsTo (d : FsDev) (id : TargetId) (fd : Nat) : Prop :=
  d.slots id = some fd ∧ ∃ e, d.sys.desc fd = some e ∧ e.path = .target id

/-- An access through an open handle is one through an open descriptor of the
target's file: what it answers and what it changes are those of `read`, `write` and
`ftruncate` on that descriptor.  The answers of `read` and `write` are compared with
the length as `int`. -/
def ReachesFile (cfg : HpatchConfig) (s : FsRun) : FsCall → Prop
  | .read id off len => 0 < s.live id → ∃ fd, s.dev.LeadsTo id fd ∧
      (fsRead (fsHandle id) off len s.dev).1.map Subtype.val =
        (readVia s.dev.sys fd off len).1.filter
          (fun bytes => bytes.length = len ∧ len < 2 ^ 31) ∧
      (fsRead (fsHandle id) off len s.dev).2 =
        { s.dev with sys := (readVia s.dev.sys fd off len).2 }
  | .write id off data => 0 < s.live id → ∃ fd, s.dev.LeadsTo id fd ∧
      (fsWrite (fsHandle id) off data s.dev).1 =
        ((writeVia s.dev.sys fd off data).1 && data.length < 2 ^ 31) ∧
      (fsWrite (fsHandle id) off data s.dev).2 =
        { s.dev with sys := (writeVia s.dev.sys fd off data).2 }
  | .erase id off len => 0 < s.live id → ∃ fd, s.dev.LeadsTo id fd ∧
      (fsErase cfg (fsHandle id) off len s.dev).1 =
        (s.dev.sys.ftruncate fd ((fixedSize cfg id).getD 0)).1 ∧
      (fsErase cfg (fsHandle id) off len s.dev).2 =
        { s.dev with sys := (s.dev.sys.ftruncate fd ((fixedSize cfg id).getD 0)).2 }
  | _ => True

/-- Every descriptor that was obtained has been closed once. -/
def ClosedOnce (s : FsRun) : Prop :=
  ∀ k < s.dev.sys.opens, s.dev.sys.closed.count k = 1

/-! ## Without overlap -/

/-- The open with the serial number `k` is held by the handle of some target. -/
def HeldBy (d : FsDev) (k : Nat) (id : TargetId) : Prop :=
  ∃ fd e, d.slots id = some fd ∧ d.sys.desc fd = some e ∧ e.path = .target id ∧
    e.serial = k

/-- Each target has at most one open handle, whose descriptor stands in the
table; every open is either closed once or held. -/
structure OneHandle (s : FsRun) : Prop where
  live_le : ∀ id, s.live id ≤ 1
  slot_none : ∀ id, s.live id = 0 → s.dev.slots id = none
  slot_open : ∀ id, s.live id = 1 → ∃ k, HeldBy s.dev k id ∧ s.dev.sys.closed.count k = 0
  held_lt : ∀ k id, HeldBy s.dev k id → k < s.dev.sys.opens
  held_inj : ∀ k id id', HeldBy s.dev k id → HeldBy s.dev k id' → id = id'
  closed_lt : ∀ k ∈ s.dev.sys.closed, k < s.dev.sys.opens
  accounted : ∀ k < s.dev.sys.opens, s.dev.sys.closed.count k = 1 ∨ ∃ id, HeldBy s.dev k id

theorem oneHandle_start (file : FsPath → Option (List UInt8)) (openMax offMax : Nat) :
    OneHandle (FsRun.start file openMax offMax) where
  live_le _ := Nat.zero_le 1
  slot_none _ _ := rfl
  slot_open _ h := nomatch h
  held_lt _ _ := by
    rintro ⟨_, _, hslot, _⟩
    exact nomatch hslot
  held_inj _ _ _ := by
    rintro ⟨_, _, hslot, _⟩
    exact nomatch hslot
  closed_lt _ h := nomatch h
  accounted _ h := nomatch h

variable {cfg} {s : FsRun}

/-- An operation that leaves the descriptors and the table alone. -/
theorem OneHandle.same (h : OneHandle s) {d : FsDev} (hslots : d.slots = s.dev.slots)
    (hsys : SameDescs s.dev.sys d.sys) : OneHandle { s with dev := d } := by
  have hheld (k : Nat) (id : TargetId) : HeldBy d k id ↔ HeldBy s.dev k id := by
    unfold HeldBy
    rw [hslots, hsys.desc]
  exact
    { live_le := h.live_le
      slot_none := fun id hid => by rw [hslots]; exact h.slot_none id hid
      slot_open := fun id hid => by
        obtain ⟨k, hk, hcount⟩ := h.slot_open id hid
        exact ⟨k, (hheld k id).mpr hk, by rw [hsys.closed]; exact hcount⟩
      held_lt := fun k id hk => by
        rw [hsys.opens]
        exact h.held_lt k id ((hheld k id).mp hk)
      held_inj := fun k id id' hk hk' =>
        h.held_inj k id id' ((hheld k id).mp hk) ((hheld k id').mp hk')
      closed_lt := by rw [hsys.closed, hsys.opens]; exact h.closed_lt
      accounted := fun k hk => by
        rw [hsys.opens] at hk
        rw [hsys.closed]
        exact (h.accounted k hk).imp_right fun ⟨id, hid⟩ => ⟨id, (hheld k id).mpr hid⟩ }

/-- What an open has done when it succeeds: a new description behind the entry. -/
structure Opens (id : TargetId) (fd : Nat) (d d' : FsDev) : Prop where
  free : d.sys.desc fd = none
  slots : d'.slots = Function.update d.slots id (some fd)
  desc : ∃ writable, d'.sys.desc =
    Function.update d.sys.desc fd (some ⟨.target id, writable, d.sys.opens⟩)
  opens : d'.sys.opens = d.sys.opens + 1
  closed : d'.sys.closed = d.sys.closed

theorem fsOpen_cases (id : TargetId) (flags : OpenFlags) (d : FsDev) :
    fsOpen id flags d = (none, d) ∨
      ∃ fd d', fsOpen id flags d = (some 0, d') ∧ Opens id fd d d' := by
  unfold fsOpen
  obtain hopen | ⟨fd, sys, hopen, hfree, hdesc, hopens, hclosed⟩ :=
    openFile_cases d.sys (.target id) flags.writable flags.create flags.trunc
  · rw [hopen]
    exact .inl rfl
  · rw [hopen]
    exact .inr ⟨fd, _, rfl, hfree, rfl, ⟨_, hdesc⟩, hopens, hclosed⟩

theorem step_open_cases (cfg : HpatchConfig) (id : TargetId) (flags : OpenFlags) :
    s.step cfg (.openTarget id flags) = s ∨
      ((fsOpen id flags s.dev).1.isSome ∧ ∃ fd d', Opens id fd s.dev d' ∧
        s.step cfg (.openTarget id flags) = ⟨d', Function.update s.live id (s.live id + 1)⟩) := by
  obtain hopen | ⟨fd, d', hopen, hopens⟩ := fsOpen_cases id flags s.dev
  · left
    rw [FsRun.step, hopen]
    rfl
  · right
    refine ⟨by rw [hopen]; rfl, fd, d', hopens, ?_⟩
    rw [FsRun.step, hopen]
    rfl

theorem HeldBy.of_open {id id' : TargetId} {fd k : Nat} {d d' : FsDev}
    (h : Opens id fd d d') (hne : id' ≠ id) (hheld : HeldBy d k id') : HeldBy d' k id' := by
  obtain ⟨fd', e, hslot, hdesc, hpath, hserial⟩ := hheld
  obtain ⟨writable, hdesc'⟩ := h.desc
  have hfd : fd' ≠ fd := by
    rintro rfl
    rw [h.free] at hdesc
    exact nomatch hdesc
  refine ⟨fd', e, ?_, ?_, hpath, hserial⟩
  · rw [h.slots, Function.update_of_ne hne, hslot]
  · rw [hdesc', Function.update_of_ne hfd, hdesc]

theorem Opens.held {id : TargetId} {fd : Nat} {d d' : FsDev} (h : Opens id fd d d') :
    HeldBy d' d.sys.opens id := by
  obtain ⟨writable, hdesc⟩ := h.desc
  refine ⟨fd, ⟨.target id, writable, d.sys.opens⟩, ?_, ?_, rfl, rfl⟩
  · rw [h.slots, Function.update_self]
  · rw [hdesc, Function.update_self]

theorem HeldBy.cases_open {id id' : TargetId} {fd k : Nat} {d d' : FsDev}
    (h : Opens id fd d d') (hheld : HeldBy d' k id') :
    (id' = id ∧ k = d.sys.opens) ∨ (id' ≠ id ∧ HeldBy d k id') := by
  obtain ⟨fd', e, hslot, hdesc, hpath, hserial⟩ := hheld
  obtain ⟨writable, hdesc'⟩ := h.desc
  by_cases hid : id' = id
  · left
    rw [hid, h.slots, Function.update_self] at hslot
    obtain rfl : fd = fd' := Option.some.inj hslot
    rw [hdesc', Function.update_self] at hdesc
    obtain rfl := Option.some.inj hdesc
    exact ⟨hid, hserial.symm⟩
  · right
    rw [h.slots, Function.update_of_ne hid] at hslot
    have hfd : fd' ≠ fd := by
      rintro rfl
      rw [hdesc', Function.update_self] at hdesc
      obtain rfl := Option.some.inj hdesc
      exact hid (FsPath.target.inj hpath).symm
    rw [hdesc', Function.update_of_ne hfd] at hdesc
    exact ⟨hid, fd', e, hslot, hdesc, hpath, hserial⟩

theorem oneHandle_open (h : OneHandle s) (id : TargetId) (flags : OpenFlags)
    (hover : NoOverlap s (.openTarget id flags)) :
    OneHandle (s.step cfg (.openTarget id flags)) := by
  obtain hstay | ⟨hsome, fd, d', hopens, hstep⟩ := step_open_cases cfg id flags
  · rw [hstay]
    exact h
  have hlive : s.live id = 0 := hover hsome
  have hempty : s.dev.slots id = none := h.slot_none id hlive
  have hfresh : s.dev.sys.closed.count s.dev.sys.opens = 0 := by
    rw [List.count_eq_zero]
    intro hmem
    exact absurd (h.closed_lt _ hmem) (Nat.lt_irrefl _)
  rw [hstep]
  constructor
  · intro id'
    dsimp only
    by_cases hid : id' = id
    · rw [hid, Function.update_self, hlive]
    · rw [Function.update_of_ne hid]
      exact h.live_le id'
  · intro id' hzero
    dsimp only at hzero ⊢
    by_cases hid : id' = id
    · rw [hid, Function.update_self] at hzero
      exact nomatch hzero
    · rw [Function.update_of_ne hid] at hzero
      rw [hopens.slots, Function.update_of_ne hid]
      exact h.slot_none id' hzero
  · intro id' hone
    dsimp only at hone ⊢
    rw [hopens.closed]
    by_cases hid : id' = id
    · rw [hid]
      exact ⟨s.dev.sys.opens, hopens.held, hfresh⟩
    · rw [Function.update_of_ne hid] at hone
      obtain ⟨k, hk, hcount⟩ := h.slot_open id' hone
      exact ⟨k, hk.of_open hopens hid, hcount⟩
  · intro k id' hk
    dsimp only at hk ⊢
    rw [hopens.opens]
    obtain ⟨-, rfl⟩ | ⟨-, hold⟩ := hk.cases_open hopens
    · exact Nat.lt_succ_self _
    · exact Nat.lt_succ_of_lt (h.held_lt k id' hold)
  · intro k id₁ id₂ hk₁ hk₂
    dsimp only at hk₁ hk₂
    obtain ⟨rfl, rfl⟩ | ⟨-, hold₁⟩ := hk₁.cases_open hopens
    · obtain ⟨rfl, -⟩ | ⟨-, hold₂⟩ := hk₂.cases_open hopens
      · rfl
      · exact absurd (h.held_lt _ _ hold₂) (Nat.lt_irrefl _)
    · obtain ⟨-, rfl⟩ | ⟨-, hold₂⟩ := hk₂.cases_open hopens
      · exact absurd (h.held_lt _ _ hold₁) (Nat.lt_irrefl _)
      · exact h.held_inj k id₁ id₂ hold₁ hold₂
  · intro k hk
    dsimp only at hk ⊢
    rw [hopens.closed] at hk
    rw [hopens.opens]
    exact Nat.lt_succ_of_lt (h.closed_lt k hk)
  · intro k hk
    dsimp only at hk ⊢
    rw [hopens.opens] at hk
    rw [hopens.closed]
    obtain hlt | rfl := Nat.lt_succ_iff_lt_or_eq.mp hk
    · refine (h.accounted k hlt).imp_right fun ⟨id', hheld⟩ => ⟨id', ?_⟩
      refine hheld.of_open hopens ?_
      rintro rfl
      obtain ⟨fd', _, hslot, _⟩ := hheld
      rw [hempty] at hslot
      exact nomatch hslot
    · exact .inr ⟨id, hopens.held⟩

structure Closes (id : TargetId) (fd k : Nat) (d d' : FsDev) : Prop where
  slot : d.slots id = some fd
  path : ∃ e, d.sys.desc fd = some e ∧ e.path = .target id ∧ e.serial = k
  slots : d'.slots = Function.update d.slots id none
  desc : d'.sys.desc = Function.update d.sys.desc fd none
  opens : d'.sys.opens = d.sys.opens
  closed : d'.sys.closed = d.sys.closed ++ [k]

theorem fsClose_held {id : TargetId} {k : Nat} {d : FsDev} (h : HeldBy d k id) :
    ∃ fd, Closes id fd k d (fsClose (fsHandle id) d).2 := by
  obtain ⟨fd, e, hslot, hdesc, hpath, rfl⟩ := h
  refine ⟨fd, hslot, ⟨e, hdesc, hpath, rfl⟩, rfl, ?_, ?_, ?_⟩
  · simp only [fsClose, fsHandle, hslot, FileSys.close, hdesc]
  · simp only [fsClose, fsHandle, hslot, FileSys.close, hdesc]
  · simp only [fsClose, fsHandle, hslot, FileSys.close, hdesc]

theorem heldBy_close {id id' : TargetId} {fd k k' : Nat} {d d' : FsDev}
    (h : Closes id fd k d d') : HeldBy d' k' id' ↔ id' ≠ id ∧ HeldBy d k' id' := by
  obtain ⟨e, hdesc, hpath, -⟩ := h.path
  constructor
  · rintro ⟨fd', e', hslot', hdesc', hpath', hserial'⟩
    have hid : id' ≠ id := by
      rintro rfl
      rw [h.slots, Function.update_self] at hslot'
      exact nomatch hslot'
    have hfd : fd' ≠ fd := by
      rintro rfl
      rw [h.desc, Function.update_self] at hdesc'
      exact nomatch hdesc'
    rw [h.slots, Function.update_of_ne hid] at hslot'
    rw [h.desc, Function.update_of_ne hfd] at hdesc'
    exact ⟨hid, fd', e', hslot', hdesc', hpath', hserial'⟩
  · rintro ⟨hid, fd', e', hslot', hdesc', hpath', hserial'⟩
    have hfd : fd' ≠ fd := by
      rintro rfl
      rw [hdesc] at hdesc'
      obtain rfl := Option.some.inj hdesc'
      exact hid (FsPath.target.inj (hpath'.symm.trans hpath))
    refine ⟨fd', e', ?_, ?_, hpath', hserial'⟩
    · rw [h.slots, Function.update_of_ne hid, hslot']
    · rw [h.desc, Function.update_of_ne hfd, hdesc']

theorem oneHandle_close (h : OneHandle s) (id : TargetId) (hopen : 0 < s.live id) :
    OneHandle (s.step cfg (.close id)) := by
  have hone : s.live id = 1 := le_antisymm (h.live_le id) hopen
  obtain ⟨k, hheld, hcount⟩ := h.slot_open id hone
  obtain ⟨fd, hclose⟩ := fsClose_held hheld
  have hstep : s.step cfg (.close id) =
      ⟨(fsClose (fsHandle id) s.dev).2, Function.update s.live id 0⟩ := by
    rw [FsRun.step, hone]
  generalize (fsClose (fsHandle id) s.dev).2 = d' at hclose hstep
  rw [hstep]
  have hcounts (k' : Nat) (hne : k' ≠ k) :
      d'.sys.closed.count k' = s.dev.sys.closed.count k' := by
    rw [hclose.closed, List.count_append, List.count_singleton]
    simp [Ne.symm hne]
  constructor
  · intro id'
    dsimp only
    by_cases hid : id' = id
    · rw [hid, Function.update_self]
      exact Nat.zero_le 1
    · rw [Function.update_of_ne hid]
      exact h.live_le id'
  · intro id' hzero
    dsimp only at hzero ⊢
    rw [hclose.slots]
    by_cases hid : id' = id
    · rw [hid, Function.update_self]
    · rw [Function.update_of_ne hid] at hzero ⊢
      exact h.slot_none id' hzero
  · intro id' hlive
    dsimp only at hlive ⊢
    have hid : id' ≠ id := by
      rintro rfl
      rw [Function.update_self] at hlive
      exact nomatch hlive
    rw [Function.update_of_ne hid] at hlive
    obtain ⟨k', hk', hcount'⟩ := h.slot_open id' hlive
    have hne : k' ≠ k := by
      rintro rfl
      exact hid (h.held_inj k' id' id hk' hheld)
    exact ⟨k', (heldBy_close hclose).mpr ⟨hid, hk'⟩, (hcounts k' hne).trans hcount'⟩
  · intro k' id' hk'
    dsimp only at hk' ⊢
    rw [hclose.opens]
    exact h.held_lt k' id' ((heldBy_close hclose).mp hk').2
  · intro k' id₁ id₂ hk₁ hk₂
    exact h.held_inj k' id₁ id₂ ((heldBy_close hclose).mp hk₁).2
      ((heldBy_close hclose).mp hk₂).2
  · intro k' hk'
    dsimp only at hk' ⊢
    rw [hclose.closed] at hk'
    rw [hclose.opens]
    obtain hold | rfl : k' ∈ s.dev.sys.closed ∨ k' = k := by simpa using hk'
    · exact h.closed_lt k' hold
    · exact h.held_lt k' id hheld
  · intro k' hk'
    dsimp only at hk' ⊢
    rw [hclose.opens] at hk'
    by_cases hne : k' = k
    · left
      rw [hne, hclose.closed, List.count_append, hcount, List.count_singleton_self]
    · rw [hcounts k' hne]
      refine (h.accounted k' hk').imp_right fun ⟨id', hid'⟩ => ⟨id', ?_⟩
      refine (heldBy_close hclose).mpr ⟨?_, hid'⟩
      rintro rfl
      -- the closed target held nothing else
      obtain ⟨fd₁, e₁, hslot₁, hdesc₁, -, hserial₁⟩ := hid'
      obtain ⟨fd₂, e₂, hslot₂, hdesc₂, -, hserial₂⟩ := hheld
      rw [hslot₁] at hslot₂
      obtain rfl := Option.some.inj hslot₂
      rw [hdesc₁] at hdesc₂
      obtain rfl := Option.some.inj hdesc₂
      exact hne (hserial₁.symm.trans hserial₂)

structure KeepsTable (d d' : FsDev) : Prop where
  slots : d'.slots = d.slots
  sys : SameDescs d.sys d'.sys

theorem keepsTable_read (h : Handle) (off len : Nat) (d : FsDev) :
    KeepsTable d (fsRead h off len d).2 := by
  unfold fsRead
  cases hslot : d.slots h.target with
  | none => exact ⟨rfl, .refl d.sys⟩
  | some fd =>
      have hseek := sameDescs_seek d.sys fd off
      dsimp only
      cases hres : d.sys.seek fd off with
      | mk ok sys =>
          rw [hres] at hseek
          cases ok with
          | false => exact ⟨rfl, hseek⟩
          | true =>
              have hread := sameDescs_read sys fd len
              dsimp only
              cases hbytes : sys.read fd len with
              | mk bytes sys' =>
                  rw [hbytes] at hread
                  cases bytes with
                  | none => exact ⟨rfl, hseek.trans hread⟩
                  | some bytes => exact ⟨rfl, hseek.trans hread⟩

theorem keepsTable_write (h : Handle) (off : Nat) (data : List UInt8) (d : FsDev) :
    KeepsTable d (fsWrite h off data d).2 := by
  unfold fsWrite
  cases hslot : d.slots h.target with
  | none => exact ⟨rfl, .refl d.sys⟩
  | some fd =>
      have hseek := sameDescs_seek d.sys fd off
      dsimp only
      cases hres : d.sys.seek fd off with
      | mk ok sys =>
          rw [hres] at hseek
          cases ok with
          | false => exact ⟨rfl, hseek⟩
          | true => exact ⟨rfl, hseek.trans (sameDescs_write sys fd data)⟩

theorem keepsTable_erase (h : Handle) (off len : Nat) (d : FsDev) :
    KeepsTable d (fsErase cfg h off len d).2 := by
  unfold fsErase
  cases hslot : d.slots h.target with
  | none => exact ⟨rfl, .refl d.sys⟩
  | some fd => exact ⟨rfl, sameDescs_ftruncate d.sys fd _⟩

theorem step_cases (cfg : HpatchConfig) (s : FsRun) (c : FsCall) :
    (∃ id flags, c = .openTarget id flags) ∨ (∃ id, c = .close id) ∨
      ∃ d, s.step cfg c = { s with dev := d } ∧ KeepsTable s.dev d := by
  cases c with
  | openTarget id flags => exact .inl ⟨id, flags, rfl⟩
  | close id => exact .inr (.inl ⟨id, rfl⟩)
  | read id off len => exact .inr (.inr ⟨_, rfl, keepsTable_read _ _ _ _⟩)
  | write id off data => exact .inr (.inr ⟨_, rfl, keepsTable_write _ _ _ _⟩)
  | erase id off len => exact .inr (.inr ⟨_, rfl, keepsTable_erase _ _ _ _⟩)

theorem oneHandle_step (cfg : HpatchConfig) (h : OneHandle s) (c : FsCall) (hclose : ClosesOpen s c)
    (hover : NoOverlap s c) : OneHandle (s.step cfg c) := by
  obtain ⟨id, flags, rfl⟩ | ⟨id, rfl⟩ | ⟨d, hstep, hkeeps⟩ := step_cases cfg s c
  · exact oneHandle_open h id flags hover
  · exact oneHandle_close h id hclose
  · rw [hstep]
    exact h.same hkeeps.slots hkeeps.sys

section Access

variable {id : TargetId} {fd : Nat} {d : FsDev}

theorem fsRead_via (hslot : d.slots id = some fd) (off len : Nat) :
    (fsRead (fsHandle id) off len d).1.map Subtype.val =
        (readVia d.sys fd off len).1.filter
          (fun bytes => bytes.length = len ∧ len < 2 ^ 31) ∧
      (fsRead (fsHandle id) off len d).2 =
        { d with sys := (readVia d.sys fd off len).2 } := by
  have hslot : d.slots (fsHandle id).target = some fd := hslot
  simp only [fsRead, readVia, hslot]
  rcases d.sys.seek fd off with ⟨_ | _, sys⟩
  · exact ⟨rfl, rfl⟩
  dsimp only
  rcases sys.read fd len with ⟨_ | bytes, sys'⟩
  · exact ⟨rfl, rfl⟩
  · refine ⟨?_, rfl⟩
    by_cases hlen : bytes.length = len ∧ len < 2 ^ 31
    · simp only [dif_pos hlen, Option.filter, decide_eq_true hlen]
      rfl
    · simp only [dif_neg hlen, Option.filter, decide_eq_false hlen]
      rfl

theorem fsWrite_via (hslot : d.slots id = some fd) (off : Nat) (data : List UInt8) :
    (fsWrite (fsHandle id) off data d).1 =
        ((writeVia d.sys fd off data).1 && data.length < 2 ^ 31) ∧
      (fsWrite (fsHandle id) off data d).2 =
        { d with sys := (writeVia d.sys fd off data).2 } := by
  have hslot : d.slots (fsHandle id).target = some fd := hslot
  simp only [fsWrite, writeVia, hslot]
  rcases d.sys.seek fd off with ⟨_ | _, sys⟩
  · exact ⟨rfl, rfl⟩
  · exact ⟨rfl, rfl⟩

theorem fsErase_via (hslot : d.slots id = some fd) (off len : Nat) :
    (fsErase cfg (fsHandle id) off len d).1 =
        (d.sys.ftruncate fd ((fixedSize cfg id).getD 0)).1 ∧
      (fsErase cfg (fsHandle id) off len d).2 =
        { d with sys := (d.sys.ftruncate fd ((fixedSize cfg id).getD 0)).2 } := by
  have hslot : d.slots (fsHandle id).target = some fd := hslot
  simp only [fsErase, hslot]
  exact ⟨rfl, rfl⟩

end Access

theorem OneHandle.leads (h : OneHandle s) {id : TargetId} (hlive : 0 < s.live id) :
    ∃ fd, s.dev.LeadsTo id fd := by
  have hone : s.live id = 1 := le_antisymm (h.live_le id) hlive
  obtain ⟨_, ⟨fd, e, hslot, hdesc, hpath, _⟩, _⟩ := h.slot_open id hone
  exact ⟨fd, hslot, e, hdesc, hpath⟩

theorem OneHandle.reaches (h : OneHandle s) (c : FsCall) : ReachesFile cfg s c := by
  cases c with
  | openTarget id flags => exact trivial
  | close id => exact trivial
  | read id off len =>
      intro hlive
      obtain ⟨fd, hleads⟩ := h.leads hlive
      exact ⟨fd, hleads, fsRead_via hleads.1 off len⟩
  | write id off data =>
      intro hlive
      obtain ⟨fd, hleads⟩ := h.leads hlive
      exact ⟨fd, hleads, fsWrite_via hleads.1 off data⟩
  | erase id off len =>
      intro hlive
      obtain ⟨fd, hleads⟩ := h.leads hlive
      exact ⟨fd, hleads, fsErase_via hleads.1 off len⟩

theorem OneHandle.closedOnce (h : OneHandle s) (hend : ∀ id, s.live id = 0) :
    ClosedOnce s := by
  intro k hk
  obtain hclosed | ⟨id, fd, _, hslot, _⟩ := h.accounted k hk
  · exact hclosed
  · rw [h.slot_none id (hend id)] at hslot
    exact nomatch hslot

/-! ## With an overlap -/

/-- The open with the serial number `k` is not closed and no table entry leads to it. -/
structure Lost (d : FsDev) (k : Nat) : Prop where
  lt : k < d.sys.opens
  count : d.sys.closed.count k = 0
  behind : ∀ id fd e, d.slots id = some fd → d.sys.desc fd = some e → e.serial ≠ k

theorem Lost.same {k : Nat} {d d' : FsDev} (h : Lost d k) (hkeeps : KeepsTable d d') :
    Lost d' k where
  lt := by rw [hkeeps.sys.opens]; exact h.lt
  count := by rw [hkeeps.sys.closed]; exact h.count
  behind := by rw [hkeeps.slots, hkeeps.sys.desc]; exact h.behind

theorem Lost.opened {id : TargetId} {fd k : Nat} {d d' : FsDev} (h : Lost d k)
    (hopens : Opens id fd d d') : Lost d' k where
  lt := by rw [hopens.opens]; exact Nat.lt_succ_of_lt h.lt
  count := by rw [hopens.closed]; exact h.count
  behind := by
    intro id' fd' e hslot hdesc
    obtain ⟨writable, hdesc'⟩ := hopens.desc
    rw [hdesc'] at hdesc
    by_cases hfd : fd' = fd
    · rw [hfd, Function.update_self] at hdesc
      obtain rfl := Option.some.inj hdesc
      exact h.lt.ne'
    · rw [Function.update_of_ne hfd] at hdesc
      have hid : id' ≠ id := by
        rintro rfl
        rw [hopens.slots, Function.update_self] at hslot
        exact hfd (Option.some.inj hslot).symm
      rw [hopens.slots, Function.update_of_ne hid] at hslot
      exact h.behind id' fd' e hslot hdesc

theorem Lost.closed {k : Nat} {d : FsDev} (h : Lost d k) (id : TargetId) :
    Lost (fsClose (fsHandle id) d).2 k := by
  have hbehind (sys : FileSys FsPath)
      (hdesc : ∀ fd e, sys.desc fd = some e → d.sys.desc fd = some e)
      (id' : TargetId) (fd : Nat) (e : Descriptor FsPath)
      (hslot : Function.update d.slots id none id' = some fd)
      (he : sys.desc fd = some e) : e.serial ≠ k := by
    by_cases hid : id' = id
    · rw [hid, Function.update_self] at hslot
      exact nomatch hslot
    · rw [Function.update_of_ne hid] at hslot
      exact h.behind id' fd e hslot (hdesc fd e he)
  cases hslot : d.slots id with
  | none =>
      simp only [fsClose, fsHandle, hslot]
      exact ⟨h.lt, h.count, hbehind d.sys fun _ _ he => he⟩
  | some fd =>
      cases hdesc : d.sys.desc fd with
      | none =>
          simp only [fsClose, fsHandle, hslot, FileSys.close, hdesc]
          exact ⟨h.lt, h.count, hbehind d.sys fun _ _ he => he⟩
      | some e =>
          have hne : e.serial ≠ k := h.behind id fd e hslot hdesc
          simp only [fsClose, fsHandle, hslot, FileSys.close, hdesc]
          refine ⟨h.lt, ?_, hbehind _ fun fd' e' he' => ?_⟩
          · rw [List.count_append, h.count, List.count_singleton]
            simp [hne]
          · dsimp only at he'
            by_cases hfd : fd' = fd
            · rw [hfd, Function.update_self] at he'
              exact nomatch he'
            · rwa [Function.update_of_ne hfd] at he'

theorem Lost.step {k : Nat} (h : Lost s.dev k) (c : FsCall) : Lost (s.step cfg c).dev k := by
  obtain ⟨id, flags, rfl⟩ | ⟨id, rfl⟩ | ⟨d, hstep, hkeeps⟩ := step_cases cfg s c
  · obtain hstay | ⟨-, fd, d', hopens, hstep⟩ := step_open_cases cfg id flags
    · rw [hstay]
      exact h
    · rw [hstep]
      exact h.opened hopens
  · exact h.closed id
  · rw [hstep]
    exact h.same hkeeps

theorem Lost.run {k : Nat} (h : Lost s.dev k) (calls : List FsCall) :
    Lost (run (FsRun.step cfg) s calls).dev k := by
  induction calls generalizing s with
  | nil => exact h
  | cons c calls ih => exact ih (h.step c)

theorem lost_of_overlap (cfg : HpatchConfig) (h : OneHandle s) (c : FsCall) (hover : ¬ NoOverlap s c) :
    ∃ k, Lost (s.step cfg c).dev k := by
  cases c with
  | openTarget id flags =>
      obtain ⟨hsome, hlive⟩ : (fsOpen id flags s.dev).1.isSome ∧ s.live id ≠ 0 := by
        simpa [NoOverlap] using hover
      have hone : s.live id = 1 := le_antisymm (h.live_le id) (Nat.pos_of_ne_zero hlive)
      obtain ⟨k, hheld, hcount⟩ := h.slot_open id hone
      have hlt := h.held_lt k id hheld
      refine ⟨k, ?_⟩
      obtain hstay | ⟨-, fd, d', hopens, hstep⟩ :=
        step_open_cases cfg id flags
      · obtain hfail | ⟨fd, d', hopen, hopens⟩ := fsOpen_cases id flags s.dev
        · rw [hfail] at hsome
          exact nomatch hsome
        · have hmore : (s.step cfg (.openTarget id flags)).dev.sys.opens =
              s.dev.sys.opens + 1 := by
            rw [FsRun.step, hopen]
            exact hopens.opens
          rw [hstay] at hmore
          exact absurd hmore (Nat.ne_of_lt (Nat.lt_succ_self _))
      rw [hstep]
      constructor
      · rw [hopens.opens]
        exact Nat.lt_succ_of_lt hlt
      · rw [hopens.closed]
        exact hcount
      · intro id' fd' e hslot hdesc hserial
        dsimp only at hslot hdesc
        obtain ⟨writable, hdesc'⟩ := hopens.desc
        rw [hdesc'] at hdesc
        by_cases hfd : fd' = fd
        · rw [hfd, Function.update_self] at hdesc
          obtain rfl := Option.some.inj hdesc
          exact hlt.ne' hserial
        · rw [Function.update_of_ne hfd] at hdesc
          have hid : id' ≠ id := by
            rintro rfl
            rw [hopens.slots, Function.update_self] at hslot
            exact hfd (Option.some.inj hslot).symm
          rw [hopens.slots, Function.update_of_ne hid] at hslot
          -- the entry of another target leads to that target's own open
          have hlive' : s.live id' = 1 := by
            refine le_antisymm (h.live_le id') (Nat.pos_of_ne_zero fun hzero => ?_)
            rw [h.slot_none id' hzero] at hslot
            exact nomatch hslot
          obtain ⟨k', ⟨fd₁, e₁, hslot₁, hdesc₁, hpath₁, -⟩, -⟩ := h.slot_open id' hlive'
          rw [hslot] at hslot₁
          obtain rfl := Option.some.inj hslot₁
          rw [hdesc] at hdesc₁
          obtain rfl := Option.some.inj hdesc₁
          exact hid (h.held_inj k id' id ⟨fd', e, hslot, hdesc, hpath₁, hserial⟩ hheld)
  | close id => exact absurd trivial hover
  | read id off len => exact absurd trivial hover
  | write id off data => exact absurd trivial hover
  | erase id off len => exact absurd trivial hover

theorem run_lost (h : OneHandle s) (calls : List FsCall)
    (hclose : Each (FsRun.step cfg) ClosesOpen s calls)
    (hover : ¬ Each (FsRun.step cfg) NoOverlap s calls) :
    ∃ k, Lost (run (FsRun.step cfg) s calls).dev k := by
  induction calls generalizing s with
  | nil => exact absurd each_nil hover
  | cons c calls ih =>
      rw [each_cons] at hclose hover
      by_cases hfirst : NoOverlap s c
      · have hrest : ¬ Each (FsRun.step cfg) NoOverlap (s.step cfg c) calls :=
          fun hrest => hover ⟨hfirst, hrest⟩
        exact ih (oneHandle_step cfg h c hclose.1 hfirst) hclose.2 hrest
      · obtain ⟨k, hlost⟩ := lost_of_overlap cfg h c hfirst
        exact ⟨k, hlost.run calls⟩

theorem Lost.not_closedOnce {k : Nat} (h : Lost s.dev k) : ¬ ClosedOnce s := by
  intro hclosed
  have hone := hclosed k h.lt
  rw [h.count] at hone
  exact nomatch hone

theorem run_oneHandle (h : OneHandle s) (calls : List FsCall)
    (hclose : Each (FsRun.step cfg) ClosesOpen s calls)
    (hover : Each (FsRun.step cfg) NoOverlap s calls) :
    Each (FsRun.step cfg) (ReachesFile cfg) s calls ∧
      OneHandle (run (FsRun.step cfg) s calls) := by
  induction calls generalizing s with
  | nil => exact ⟨each_nil, h⟩
  | cons c calls ih =>
      rw [each_cons] at hclose hover ⊢
      have hnext := oneHandle_step cfg h c hclose.1 hover.1
      obtain ⟨hreach, hlast⟩ := ih hnext hclose.2 hover.2
      exact ⟨⟨h.reaches c, hreach⟩, hlast⟩

/-- Where every successful open is closed once, all descriptors are closed once and
every access reaches its file, exactly if no target is opened while it is open. -/
theorem descriptors_iff (cfg : HpatchConfig) (file : FsPath → Option (List UInt8))
    (openMax offMax : Nat) (calls : List FsCall)
    (hclose : Each (FsRun.step cfg) ClosesOpen (FsRun.start file openMax offMax) calls)
    (hend : ∀ id, (run (FsRun.step cfg) (FsRun.start file openMax offMax) calls).live id = 0) :
    (ClosedOnce (run (FsRun.step cfg) (FsRun.start file openMax offMax) calls) ∧
        Each (FsRun.step cfg) (ReachesFile cfg) (FsRun.start file openMax offMax) calls) ↔
      Each (FsRun.step cfg) NoOverlap (FsRun.start file openMax offMax) calls := by
  have hstart := oneHandle_start file openMax offMax
  constructor
  · rintro ⟨hclosed, -⟩
    by_contra hover
    obtain ⟨k, hlost⟩ := run_lost hstart calls hclose hover
    exact hlost.not_closedOnce hclosed
  · intro hover
    obtain ⟨hreach, hlast⟩ := run_oneHandle hstart calls hclose hover
    exact ⟨hlast.closedOnce hend, hreach⟩

/-- Two targets with a file each; the area of the patch is in RAM. -/
def twoFiles : FsPath → Option (List UInt8)
  | .target .download => some [1, 2]
  | .target .factory => some [3]
  | _ => none

def plainFiles : HpatchConfig := ⟨false, 0, 0, 0, none⟩

def copyCalls : List FsCall :=
  [.openTarget .factory .read, .openTarget .download .writeCreate, .erase .download 0 1,
    .read .factory 0 1, .write .download 0 [3], .close .factory, .close .download]

theorem descriptors_iff_copy :
    (ClosedOnce (run (FsRun.step plainFiles) (FsRun.start twoFiles 4 100) copyCalls) ∧
        Each (FsRun.step plainFiles) (ReachesFile plainFiles)
          (FsRun.start twoFiles 4 100) copyCalls) ↔
      Each (FsRun.step plainFiles) NoOverlap (FsRun.start twoFiles 4 100) copyCalls := by
  refine descriptors_iff plainFiles twoFiles 4 100 copyCalls ?_ ?_
  · simp only [copyCalls, each_cons]
    exact ⟨trivial, trivial, trivial, trivial, trivial, Nat.one_pos, Nat.one_pos, each_nil⟩
  · intro id
    cases id <;> rfl

/-- The package is probed while its target is being written. -/
def probeCalls : List FsCall :=
  [.openTarget .download .writeCreate, .openTarget .download .read, .close .download,
    .write .download 0 [3], .close .download]

/-- The first descriptor stays open, and the write has none to go to. -/
theorem probe_leaks :
    Each (FsRun.step plainFiles) ClosesOpen (FsRun.start twoFiles 4 100) probeCalls ∧
      (∀ id, (run (FsRun.step plainFiles) (FsRun.start twoFiles 4 100) probeCalls).live id
        = 0) ∧
      ¬ ClosedOnce (run (FsRun.step plainFiles) (FsRun.start twoFiles 4 100) probeCalls) ∧
      ¬ Each (FsRun.step plainFiles) (ReachesFile plainFiles)
        (FsRun.start twoFiles 4 100) probeCalls := by
  refine ⟨?_, ?_, ?_, ?_⟩
  · simp only [probeCalls, each_cons]
    exact ⟨trivial, trivial, Nat.two_pos, trivial, Nat.one_pos, each_nil⟩
  · intro id
    cases id <;> rfl
  · intro hclosed
    have hfirst := hclosed 0 (by decide)
    exact absurd hfirst (by decide)
  · intro hreach
    have hwrite := hreach (probeCalls.take 3) (.write .download 0 [3]) [.close .download] rfl
    obtain ⟨fd, ⟨hslot, _⟩, _⟩ := hwrite Nat.one_pos
    exact nomatch hslot

end Qboot
