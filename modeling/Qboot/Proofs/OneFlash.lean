import Qboot.Library.FlashPart
import Qboot.Model.Store
import Qboot.Proofs.BootPath
import Qboot.Proofs.Mirroring
/-!
# Targets in one flash

Where the targets lie apart in one flash, each on erase units of its own, the CUSTOM
backend serves them like regions that are separate devices, also when the power is cut,
and the boot thread never changes a cell that belongs to no target.
-/

namespace Qboot

open Library Bytes Flash Machine

variable {κ : Type}

/-! ## The places of the targets -/

/-- Targets that the CUSTOM backend keeps in one flash of 32-bit addresses: each is made
of whole erase units, and no two overlap. -/
structure Layout where
  descs : TargetId → StoreDesc
  align : Nat
  custom : ∀ id, (descs id).backend = .custom
  align_pos : 0 < align
  addr_dvd : ∀ id, align ∣ (descs id).flashAddr
  len_dvd : ∀ id, align ∣ (descs id).flashLen
  fits : ∀ id, (descs id).flashAddr + (descs id).flashLen ≤ 2 ^ 32
  apart : ∀ {id id'}, id ≠ id' →
    (descs id).flashAddr + (descs id).flashLen ≤ (descs id').flashAddr ∨
      (descs id').flashAddr + (descs id').flashLen ≤ (descs id).flashAddr

namespace Layout

variable (L : Layout)

def addr (id : TargetId) : Nat := (L.descs id).flashAddr

def len (id : TargetId) : Nat := (L.descs id).flashLen

def Holds (id : TargetId) (x : Nat) : Prop := L.addr id ≤ x ∧ x < L.addr id + L.len id

theorem holds_add {id : TargetId} {a : Nat} : L.Holds id (L.addr id + a) ↔ a < L.len id := by
  rw [Holds]
  omega

theorem holds_unique {id id' : TargetId} {x : Nat} (h : L.Holds id x) (h' : L.Holds id' x) :
    id = id' := by
  by_contra hne
  have happart := L.apart hne
  unfold Holds addr len at h h'
  omega

/-- The flash as separate regions; a cut leaves in `t` what it leaves in the flash there. -/
def regions (t : TargetId) (d : SharedFlash) : FlashDev where
  region := fun id => ⟨L.len id, L.align, fun a => d.medium.cells (L.addr id + a)⟩
  power := d.power
  torn := fun a => d.torn (L.addr t + a)

/-- The CUSTOM backend over the flash, with an allocator that grants `grant`. -/
def storage (grant : Nat → Bool) (hgrant : grant 0 = false) : Storage SharedFlash where
  io := customIo SharedFlash.hooks L.descs L.align
  parser := customParser SharedFlash.hooks L.descs
  malloc := fun n => pure (grant n)
  malloc_zero := fun _ => hgrant

end Layout

/-- The regions are what the flash holds at the places of the targets, unless a cut hit
another target than `t`; outside of all places the flash still holds `cells`. -/
structure Laid (L : Layout) (cells : Nat → UInt8) (t : TargetId) (e : FlashDev)
    (d : SharedFlash) : Prop where
  size : ∀ id, (e.region id).size = L.len id
  unit : ∀ id, (e.region id).unit = L.align
  medium : d.medium.unit = L.align
  power : e.power = d.power
  torn : ∀ a, e.torn a = d.torn (L.addr t + a)
  same : (d.power = .off → ∀ id, L.Holds id d.lost → id = t) →
    ∀ id a, a < L.len id → (e.region id).cells a = d.medium.cells (L.addr id + a)
  other : ∀ x, (∀ id, ¬L.Holds id x) → d.medium.cells x = cells x

theorem Layout.laid_regions (L : Layout) (t : TargetId) {d : SharedFlash}
    (hunit : d.medium.unit = L.align) : Laid L d.medium.cells t (L.regions t d) d where
  size _ := rfl
  unit _ := rfl
  medium := hunit
  power := rfl
  torn _ := rfl
  same _ _ _ _ := rfl
  other _ _ := rfl

section Operations

variable {L : Layout} {cells : Nat → UInt8} {t : TargetId} {e : FlashDev} {d : SharedFlash}

/-- An operation on a region, and the same one on its place in the flash. -/
structure SameOp (L : Layout) (id : TargetId) (e : FlashDev) (d : SharedFlash) (op op' : Op)
    (r r' : Region) : Prop where
  inside : ∀ x, Touches L.align op' x → L.Holds id x
  touches : ∀ a, Touches L.align op' (L.addr id + a) ↔ Touches L.align op a
  size : r.size = (e.region id).size
  unit : r.unit = (e.region id).unit
  unit' : r'.unit = d.medium.unit
  outside : ∀ x, ¬Touches L.align op' x → r'.cells x = d.medium.cells x
  same : ∀ a, (e.region id).cells a = d.medium.cells (L.addr id + a) →
    r.cells a = r'.cells (L.addr id + a)

theorem Laid.store {id : TargetId} {r r' : Region} {p : Power} {lost : Nat}
    (h : Laid L cells t e d) (hpower : d.power ≠ .off) (hsize : r.size = L.len id)
    (hunit : r.unit = L.align) (hunit' : r'.unit = L.align)
    (hsame : (p = .off → ∀ id', L.Holds id' lost → id' = t) → ∀ a, a < L.len id →
      (e.region id).cells a = d.medium.cells (L.addr id + a) →
        r.cells a = r'.cells (L.addr id + a))
    (hother : ∀ x, ¬L.Holds id x → r'.cells x = d.medium.cells x) :
    Laid L cells t { e.setRegion id r with power := p }
      { d with medium := r', power := p, lost := lost } where
  size id' := by
    by_cases hid : id' = id
    · rw [hid, ← hsize]
      exact congrArg Region.size (e.setRegion_same id r)
    · rw [← h.size id']
      exact congrArg Region.size (e.setRegion_other r hid)
  unit id' := by
    by_cases hid : id' = id
    · rw [hid, ← hunit]
      exact congrArg Region.unit (e.setRegion_same id r)
    · rw [← h.unit id']
      exact congrArg Region.unit (e.setRegion_other r hid)
  medium := hunit'
  power := rfl
  torn := h.torn
  same hlost id' a ha := by
    have hbefore := h.same (fun hoff => absurd hoff hpower) id' a ha
    by_cases hid : id' = id
    · subst hid
      have hafter := hsame hlost a ha hbefore
      rw [← hafter]
      exact congrArg (fun r => r.cells a) (e.setRegion_same id' r)
    · have hout : ¬L.Holds id (L.addr id' + a) := fun hin =>
        hid (L.holds_unique (L.holds_add.mpr ha) hin)
      have hkept : r'.cells (L.addr id' + a) = (e.region id').cells a := by
        rw [hother _ hout, hbefore]
      show _ = r'.cells (L.addr id' + a)
      rw [hkept]
      exact congrArg (fun r => r.cells a) (e.setRegion_other r hid)
  other x hx := (hother x (hx id)).trans (h.other x hx)

theorem perform_laid {id : TargetId} {op op' : Op} {r r' : Region} {lost : Nat}
    (h : Laid L cells t e d) (hop : SameOp L id e d op op' r r')
    (hlost : ∀ x, Touches L.align op' x → L.Holds id lost) :
    (e.perform id op r).1 = (d.perform lost op' r').1 ∧
      Laid L cells t (e.perform id op r).2 (d.perform lost op' r').2 := by
  have hother (x : Nat) (hx : ¬L.Holds id x) : r'.cells x = d.medium.cells x :=
    hop.outside x fun htouch => hx (hop.inside x htouch)
  have hdone (p : Power) (lost : Nat) (hpower : d.power ≠ .off) :
      Laid L cells t { e.setRegion id r with power := p }
        { d with medium := r', power := p, lost := lost } :=
    h.store hpower (hop.size.trans (h.size id)) (hop.unit.trans (h.unit id))
      (hop.unit'.trans h.medium) (fun _ a _ => hop.same a) hother
  have hpower := h.power
  unfold FlashDev.perform SharedFlash.perform
  cases hd : d.power with
  | steady =>
      rw [hpower, hd]
      have hkept := hdone .steady d.lost (by rw [hd]; exact Power.noConfusion)
      have he : { e.setRegion id r with power := .steady } = e.setRegion id r := by
        rw [← hd, ← hpower]
        rfl
      rw [he] at hkept
      exact ⟨rfl, hkept⟩
  | cutAfter n =>
      rw [hpower, hd]
      have hon : d.power ≠ .off := by rw [hd]; exact Power.noConfusion
      cases n with
      | succ n => exact ⟨rfl, hdone (.cutAfter n) d.lost hon⟩
      | zero =>
          refine ⟨rfl, h.store hon (h.size id) (h.unit id) h.medium ?_ ?_⟩
          · intro hcut a ha hsame
            by_cases htouch : Touches L.align op a
            · have htouch' := (hop.touches a).mpr htouch
              have hid : id = t := hcut rfl id (hlost _ htouch')
              rw [tear_touched ((h.unit id).symm ▸ htouch),
                tear_touched (h.medium.symm ▸ htouch'), h.torn, hid]
            · have htouch' := mt (hop.touches a).mp htouch
              rw [tear_untouched ((h.unit id).symm ▸ htouch),
                tear_untouched (h.medium.symm ▸ htouch'), hsame]
          · intro x hx
            apply tear_untouched
            rw [h.medium]
            exact fun htouch => hx (hop.inside x htouch)
  | off =>
      rw [hpower, hd]
      exact ⟨rfl, h⟩

theorem customRangeCheck_iff {desc : StoreDesc} {size off len : Nat}
    (hsize : size = desc.flashLen) :
    customRangeCheck desc off len = true ↔ Backend.custom.InRange size off len := by
  subst hsize
  have hrange : Backend.custom.InRange desc.flashLen off len ↔
      0 < desc.flashLen ∧ off ≤ desc.flashLen ∧ len ≤ desc.flashLen - off := Iff.rfl
  rw [hrange, customRangeCheck]
  split_ifs with hzero hoff hlen
  · simp [hzero]
  · simp only [false_iff]
    omega
  · simp only [false_iff]
    omega
  · simp only [true_iff]
    omega

theorem u32_place (L : Layout) (id : TargetId) {off len : Nat}
    (hrange : Backend.custom.InRange (L.len id) off len) (hlen : 0 < len) :
    u32 ((L.descs id).flashAddr + off) = L.addr id + off := by
  obtain ⟨-, hoff, hend⟩ : 0 < L.len id ∧ off ≤ L.len id ∧ len ≤ L.len id - off := hrange
  have hfits := L.fits id
  apply Nat.mod_eq_of_lt
  unfold Layout.len at hoff hend
  omega

theorem sameOp_program {id : TargetId} {off : Nat} {data : List UInt8}
    (hrange : Backend.custom.InRange (L.len id) off data.length) :
    SameOp L id e d (.program off data.length) (.program (L.addr id + off) data.length)
      ((e.region id).program off data) (d.medium.program (L.addr id + off) data) where
  inside x htouch := by
    obtain ⟨-, hoff, hend⟩ :
      0 < L.len id ∧ off ≤ L.len id ∧ data.length ≤ L.len id - off := hrange
    rcases htouch with herase | ⟨hlo, hhi⟩
    · exact absurd herase not_false
    · exact ⟨by omega, by omega⟩
  touches a := by
    rw [Touches, Touches]
    simp only [Op.Erases, Op.Programs, false_or]
    omega
  size := rfl
  unit := rfl
  unit' := rfl
  outside x hx := by
    apply if_neg
    exact fun hin => hx (.inr hin)
  same a hsame := (overwrite_add _ _ hsame.symm).symm

theorem sameOp_erase (h : Laid L cells t e d) {id : TargetId} {off len : Nat}
    (hrange : Backend.custom.InRange (L.len id) off len) :
    SameOp L id e d (.erase off len) (.erase (L.addr id + off) len)
      ((e.region id).erase off len) (d.medium.erase (L.addr id + off) len) where
  inside x htouch := by
    obtain ⟨-, hoff, hend⟩ : 0 < L.len id ∧ off ≤ L.len id ∧ len ≤ L.len id - off := hrange
    rcases htouch with ⟨-, hlo, hhi⟩ | hprogram
    · have hstart : L.addr id ≤ down (L.addr id + off) L.align :=
        le_down_of_dvd (Nat.le_add_right _ _) (L.addr_dvd id)
      have hstop : up (L.addr id + off + len) L.align ≤ L.addr id + L.len id :=
        up_le_of_dvd L.align_pos (by omega) (Nat.dvd_add (L.addr_dvd id) (L.len_dvd id))
      exact ⟨hstart.trans hlo, hhi.trans_le hstop⟩
    · exact absurd hprogram not_false
  touches a := by
    rw [Touches, Touches]
    simp only [Op.Erases, Op.Programs, or_false]
    exact covers_add L.align_pos (L.addr_dvd id)
  size := rfl
  unit := rfl
  unit' := rfl
  outside x hx := by
    apply if_neg
    rw [h.medium]
    exact fun hin => hx (.inl hin)
  same a hsame := by
    have hcovers : Covers d.medium.unit (L.addr id + off) len (L.addr id + a) ↔
        Covers (e.region id).unit off len a := by
      rw [h.medium, h.unit]
      exact covers_add L.align_pos (L.addr_dvd id)
    simp only [Region.erase, hcovers, hsame]

theorem sameOp_nothing {id : TargetId} {op op' : Op} {r r' : Region}
    (hop : ∀ a, ¬Touches L.align op a) (hop' : ∀ a, ¬Touches L.align op' a)
    (hr : r = e.region id) (hr' : r' = d.medium) : SameOp L id e d op op' r r' where
  inside x htouch := absurd htouch (hop' x)
  touches a := iff_of_false (hop' _) (hop a)
  size := congrArg Region.size hr
  unit := congrArg Region.unit hr
  unit' := congrArg Region.unit hr'
  outside x _ := by rw [hr']
  same a hsame := by rw [hr, hr', hsame]

end Operations

/-! ## The backends -/

section Backends

variable (L : Layout) (cells : Nat → UInt8) (t : TargetId)

theorem mirrors_customRead (h : Handle) (off len : Nat) :
    Mirrors (Laid L cells t) ((regionIo fun _ => .custom).read h off len)
      (customRead SharedFlash.hooks L.descs h off len) fun _ => Laid L cells t := by
  intro e d hlaid
  have hsize := hlaid.size h.target
  unfold customRead
  by_cases hrange : Backend.custom.InRange (L.len h.target) off len
  · rw [if_pos ((customRangeCheck_iff rfl).mpr hrange)]
    refine ⟨?_, hlaid⟩
    have hregion : Backend.custom.InRange (e.region h.target).size off len := hsize ▸ hrange
    simp only [regionIo, SharedFlash.hooks, hregion, hlaid.power, and_true]
    by_cases hon : d.power ≠ .off
    · rw [if_pos hon, if_pos hon]
      apply congrArg some
      apply Subtype.ext
      apply List.map_congr_left
      intro i hi
      have hilt : i < len := List.mem_range.mp hi
      rw [u32_place L h.target hrange (by omega), Nat.add_assoc]
      obtain ⟨-, hoff, hend⟩ : 0 < L.len h.target ∧ off ≤ L.len h.target ∧
        len ≤ L.len h.target - off := hrange
      exact hlaid.same (fun hoff => absurd hoff hon) _ _ (by omega)
    · rw [if_neg hon, if_neg hon]
  · rw [if_neg fun hcheck => hrange ((customRangeCheck_iff rfl).mp hcheck)]
    have hregion : ¬Backend.custom.InRange (e.region h.target).size off len := hsize ▸ hrange
    simp only [regionIo, hregion, and_false, if_false]
    exact ⟨rfl, hlaid⟩

theorem mirrors_customWrite (h : Handle) (off : Nat) (data : List UInt8) :
    Mirrors (Laid L cells t) ((regionIo fun _ => .custom).write h off data)
      (customWrite SharedFlash.hooks L.descs h off data) fun _ => Laid L cells t := by
  intro e d hlaid
  have hsize := hlaid.size h.target
  unfold customWrite
  by_cases hrange : Backend.custom.InRange (L.len h.target) off data.length
  · have hregion : Backend.custom.InRange (e.region h.target).size off data.length :=
      hsize ▸ hrange
    rw [if_pos ((customRangeCheck_iff rfl).mpr hrange)]
    simp only [regionIo, if_pos hregion]
    rcases data with _ | ⟨b, data⟩
    · exact perform_laid hlaid (sameOp_nothing (not_touches_program _ _)
        (not_touches_program _ _) (Region.program_nothing _ _) (Region.program_nothing _ _))
        fun x htouch => absurd htouch (not_touches_program _ _ x)
    · have hpos : 0 < (b :: data).length := Nat.succ_pos _
      have hop := sameOp_program (e := e) (d := d) hrange
      simp only [SharedFlash.hooks, u32_place L h.target hrange hpos]
      exact perform_laid hlaid hop fun x htouch =>
        hop.inside _ (.inr ⟨le_rfl, Nat.lt_add_of_pos_right hpos⟩)
  · have hregion : ¬Backend.custom.InRange (e.region h.target).size off data.length :=
      hsize ▸ hrange
    rw [if_neg fun hcheck => hrange ((customRangeCheck_iff rfl).mp hcheck)]
    simp only [regionIo, if_neg hregion]
    exact ⟨rfl, hlaid⟩

theorem mirrors_customErase (h : Handle) (off len : Nat) :
    Mirrors (Laid L cells t) ((regionIo fun _ => .custom).erase h off len)
      (customErase SharedFlash.hooks L.descs h off len) fun _ => Laid L cells t := by
  intro e d hlaid
  have hsize := hlaid.size h.target
  unfold customErase
  by_cases hrange : Backend.custom.InRange (L.len h.target) off len
  · have hregion : Backend.custom.InRange (e.region h.target).size off len := hsize ▸ hrange
    rw [if_pos ((customRangeCheck_iff rfl).mpr hrange)]
    simp only [regionIo, if_pos hregion]
    rcases Nat.eq_zero_or_pos len with rfl | hpos
    · exact perform_laid hlaid (sameOp_nothing (not_touches_erase _ _)
        (not_touches_erase _ _) (Region.erase_nothing _ _) (Region.erase_nothing _ _))
        fun x htouch => absurd htouch (not_touches_erase _ _ x)
    · have hop := sameOp_erase hlaid hrange
      simp only [SharedFlash.hooks, u32_place L h.target hrange hpos]
      refine perform_laid hlaid hop fun x htouch => hop.inside _ (.inl ⟨hpos, ?_, ?_⟩)
      · exact down_le _ _
      · exact lt_of_lt_of_le (Nat.lt_add_of_pos_right hpos) (le_up L.align_pos)
  · have hregion : ¬Backend.custom.InRange (e.region h.target).size off len := hsize ▸ hrange
    rw [if_neg fun hcheck => hrange ((customRangeCheck_iff rfl).mp hcheck)]
    simp only [regionIo, if_neg hregion]
    exact ⟨rfl, hlaid⟩

theorem mirrorsStorage_custom {env : Env FlashDev κ} {grant : Nat → Bool}
    (hio : env.io = regionIo fun _ => .custom)
    (hparser : env.parser = regionParser fun _ => .custom)
    (hmalloc : env.hpatch.malloc = fun n => pure (grant n)) (hgrant : grant 0 = false) :
    MirrorsStorage env (L.storage grant hgrant) fun _ => Laid L cells t where
  mono _ h := h
  opens V id flags := by
    intro e d hlaid
    have hsize := hlaid.size id
    have hcustom := L.custom id
    rw [hio]
    simp only [Layout.storage, customIo, regionIo, hcustom, true_and]
    by_cases hzero : (L.descs id).flashLen = 0
    · rw [if_pos (hsize.trans hzero), if_neg (not_not.mpr hzero)]
      exact ⟨rfl, hlaid⟩
    · rw [if_neg (hsize ▸ hzero), if_pos hzero]
      exact ⟨rfl, hlaid⟩
  closes _ := by
    rw [hio]
    exact fun _ _ hlaid => ⟨rfl, hlaid⟩
  reads {V h} _ off len := by
    rw [hio]
    exact mirrors_customRead L cells t h off len
  erases {V h} _ off len := by
    rw [hio]
    exact mirrors_customErase L cells t h off len
  writes {V h} _ off data := by
    rw [hio]
    exact mirrors_customWrite L cells t h off data
  sizes {V h} _ := by
    rw [hio]
    exact fun _ _ hlaid => ⟨congrArg some (hlaid.size h.target), hlaid⟩
  aligns {V h} _ := by
    rw [hio]
    exact fun _ _ hlaid => ⟨congrArg some (hlaid.unit h.target), hlaid⟩
  mallocs V size := by
    rw [hmalloc]
    exact fun _ _ hlaid => ⟨rfl, hlaid⟩
  signReads {V h} _ info := by
    rw [hparser]
    refine (mirrors_customRead L cells t h (signPos info) 4).bind
      (f := fun r => pure (r.map fun bytes => leNat bytes.1 == releaseSignWord))
      fun r => ?_
    rcases r with _ | bytes <;> exact .pure fun _ _ hlaid => hlaid
  signWrites {V h} _ info := by
    rw [hparser]
    exact mirrors_customWrite L cells t h (signPos info) _

end Backends

/-! ## The boot thread -/

section Boot

variable (L : Layout) {env : Env FlashDev κ} {grant : Nat → Bool}

/-- Two runs from the flash `d` and from its parts agree, and outside of the parts the flash
is as it was. -/
structure InParts (d : SharedFlash) (parts : Machine FlashDev κ) (flash : Machine SharedFlash κ) :
    Prop where
  log : flash.log = parts.log
  mem : flash.mem = parts.mem
  fwInfo : flash.fwInfo = parts.fwInfo
  power : flash.dev.power = parts.dev.power
  cells : ∀ id a, a < L.len id →
    flash.dev.medium.cells (L.addr id + a) = (parts.dev.region id).cells a
  outside : ∀ x, (∀ id, ¬L.Holds id x) → flash.dev.medium.cells x = d.medium.cells x

/-- A boot over one flash does what the boot over separate regions does, where a power cut
leaves the same bytes, and changes nothing outside the targets. -/
theorem threadEntry_oneFlash (hio : env.io = regionIo fun _ => .custom)
    (hparser : env.parser = regionParser fun _ => .custom)
    (hmalloc : env.hpatch.malloc = fun n => pure (grant n)) (hgrant : grant 0 = false)
    (inp : BootInputs FlashDev) (poll : Option (Prog SharedFlash Unit))
    (m : Machine SharedFlash κ) (hunit : m.dev.medium.unit = L.align)
    (hpoll : ∀ t, MirrorsPoll (fun _ => Laid L m.dev.medium.cells t) inp.updateMgrPoll poll) :
    ∃ t, InParts L m.dev
      (threadEntry env inp ⟨L.regions t m.dev, m.mem, m.fwInfo, m.log⟩).2
      (threadEntry (env.over (L.storage grant hgrant)) (inp.over poll) m).2 := by
  have hrun (t : TargetId) := mirrors_threadEntry (V := fun _ => False)
    (mirrorsStorage_custom L m.dev.medium.cells t hio hparser hmalloc hgrant) inp (hpoll t)
    ⟨L.regions t m.dev, m.mem, m.fwInfo, m.log⟩ m
    ⟨L.laid_regions t hunit, rfl, rfl, rfl⟩
  generalize (threadEntry (env.over (L.storage grant hgrant)) (inp.over poll) m).2 = flash
    at hrun
  -- The cut hits at most one target, and it is the one whose bytes the regions share.
  obtain ⟨t, ht⟩ : ∃ t, ∀ id, L.Holds id flash.dev.lost → id = t := by
    by_cases hheld : ∃ id, L.Holds id flash.dev.lost
    · obtain ⟨t, ht⟩ := hheld
      exact ⟨t, fun id hid => L.holds_unique hid ht⟩
    · exact ⟨.app, fun id hid => absurd ⟨id, hid⟩ hheld⟩
  obtain ⟨-, hend⟩ := hrun t
  exact ⟨t,
    { log := hend.log.symm
      mem := hend.mem.symm
      fwInfo := hend.fwInfo.symm
      power := hend.dev.power.symm
      cells := fun id a ha => (hend.dev.same (fun _ => ht) id a ha).symm
      outside := hend.dev.other }⟩

end Boot

/-! ## Four targets in one flash -/

def unitOf : TargetId → Nat
  | .app => 0
  | .download => 1
  | .factory => 2
  | .swap => 3

def fourUnits : Layout where
  descs id := ⟨4096 * unitOf id, 4096, .custom⟩
  align := 4096
  custom _ := rfl
  align_pos := by decide
  addr_dvd id := Nat.dvd_mul_right _ _
  len_dvd _ := Nat.dvd_refl _
  fits id := by cases id <;> decide
  apart {id id'} hne := by
    have hunits : unitOf id ≠ unitOf id' := by
      cases id <;> cases id' <;> first | exact absurd rfl hne | decide
    show 4096 * unitOf id + 4096 ≤ 4096 * unitOf id' ∨
      4096 * unitOf id' + 4096 ≤ 4096 * unitOf id
    omega

def fourUnitsEnv : Env FlashDev Unit :=
  { eagerEnv with
    io := regionIo fun _ => .custom
    parser := regionParser fun _ => .custom }

def fourUnitsMachine : Machine SharedFlash Unit where
  dev :=
    { medium := ⟨4 * 4096, 4096, overwrite (fun _ => erasedByte) 4096
        (eightByteHeader.toBytes ++ [1, 2, 3, 4, 5, 6, 7, 8])⟩
      power := .cutAfter 2
      torn := fun _ => 0xA5
      lost := 0 }
  mem := ()
  fwInfo := .ofBytes (Block.ofList srcReadPos [])
  log := []

theorem threadEntry_oneFlash_fourUnits :
    ∃ t, InParts fourUnits fourUnitsMachine.dev
      (threadEntry fourUnitsEnv plainBoot ⟨fourUnits.regions t fourUnitsMachine.dev,
        fourUnitsMachine.mem, fourUnitsMachine.fwInfo, fourUnitsMachine.log⟩).2
      (threadEntry (fourUnitsEnv.over (fourUnits.storage (· != 0) rfl))
        (plainBoot.over none) fourUnitsMachine).2 :=
  threadEntry_oneFlash fourUnits rfl rfl rfl rfl plainBoot none fourUnitsMachine rfl
    fun _ => trivial

end Qboot
