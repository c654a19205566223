import Qboot.Library.InPlace
import Qboot.Proofs.DeviceSteps
/-!
# Commits of an in-place patch

The invariant of `_do_write_new` and `qbt_swap_commit`: the old partition is a
front of new data, erased up to the unit boundary behind the committed length,
and old content beyond; the swap area holds the data not committed yet.  One
lemma for each step of a commit says how the front moves.
-/

namespace Qboot

open Library Bytes Flash InPlace Machine Loop

variable {κ : Type}

/-! ## Set-up -/

/-- The swap area has the capacity, and its own target. -/
def Swap.Serves (cfg : HpatchConfig) (old : Handle) (capacity : Nat) : Swap → Prop
  | .ram => True
  | .flash part size =>
      size = capacity ∧ part.target ≠ old.target ∧ 0 < cfg.ramBufSize

/-- A patch session: the old partition with its erase unit `2 ^ exp`, and the
swap area with its capacity.  Both areas of flash are raw regions: the session
over a swap file is not covered here. -/
structure PatchSetup where
  backend : TargetId → Backend
  cfg : HpatchConfig
  old : Handle
  swap : Swap
  exp : Nat
  size : Nat
  capacity : Nat
  exp_le : exp ≤ 31
  capacity_pos : 0 < capacity
  capacity_lt : capacity < 2 ^ 31
  serves : swap.Serves cfg old capacity

namespace PatchSetup

def unit (U : PatchSetup) : Nat := 2 ^ U.exp

theorem unit_pos (U : PatchSetup) : 0 < U.unit := Nat.two_pow_pos _

theorem unit_le (U : PatchSetup) : U.unit ≤ 2 ^ 31 :=
  Nat.pow_le_pow_right (by omega) U.exp_le

def io (U : PatchSetup) : IoOps FlashDev := regionIo U.backend

end PatchSetup

/-! ## The invariant -/

/-- The record of the old partition: the front has moved to `done` and
`erased`, and every commit ended on a unit boundary. -/
structure OldRecord (U : PatchSetup) (done erased : Nat) (new : List Event) :
    Prop where
  ops : Advanced U.unit (opsOn U.old.target new) done erased
  commits : ∀ len stop, Event.committed len stop ∈ new → stop = up len U.unit

/-- The old partition while `data` overtakes `orig`. -/
structure OldPart (U : PatchSetup) (m₀ : Machine FlashDev κ)
    (orig : Nat → UInt8) (data : List UInt8) (done erased : Nat)
    (m : Machine FlashDev κ) : Prop where
  size : (m.dev.region U.old.target).size = U.size
  unit : (m.dev.region U.old.target).unit = U.unit
  cells : (m.dev.region U.old.target).cells = front orig data done erased
  aligned : U.unit ∣ erased
  le : done ≤ erased
  fits : erased ≤ U.size
  record : Traced m₀ m (OldRecord U done erased)

/-- The swap area in storage: its operations are disciplined, and its cells
behind the first `used` are erased. -/
structure SwapRecord (id : TargetId) (unit off capacity used : Nat)
    (new : List Event) : Prop where
  disciplined : Disciplined unit (opsOn id new)
  fresh : ∀ a, off + used ≤ a → a < off + capacity →
    Flash.fresh unit (opsOn id new) a = true

def SwapHolds (U : PatchSetup) (m₀ : Machine FlashDev κ) (buf : List UInt8)
    (pending : List UInt8) (m : Machine FlashDev κ) : Prop :=
  match U.swap with
  | .ram => buf.take pending.length = pending
  | .flash part _ =>
      let r := m.dev.region part.target
      0 < r.unit ∧ U.cfg.swapOffset + U.capacity ≤ r.size ∧
        (r.read U.cfg.swapOffset pending.length).1 = pending ∧
        Traced m₀ m (SwapRecord part.target r.unit U.cfg.swapOffset U.capacity
          pending.length)

/-- The instance and the device while `data` is written over `orig`. -/
structure Patching (U : PatchSetup) (m₀ : Machine FlashDev κ)
    (orig : Nat → UInt8) (data : List UInt8) (inst : HpatchInst)
    (m : Machine FlashDev κ) : Prop where
  power : m.dev.power = .steady
  swap : inst.swap = U.swap
  oldPart : inst.oldPart = U.old
  sector : inst.sectorSize = U.unit
  capacity : inst.capacity = U.capacity
  erased : inst.erasedEnd = up inst.committedLen U.unit
  total : inst.committedLen + inst.writePos = data.length
  within : inst.writePos ≤ U.capacity
  old : OldPart U m₀ orig data inst.committedLen inst.erasedEnd m
  pending : SwapHolds U m₀ inst.ramBuf (data.drop inst.committedLen) m

/-! ## Frames -/

variable {U : PatchSetup} {m₀ m m' : Machine FlashDev κ} {orig : Nat → UInt8}
  {data : List UInt8} {done erased : Nat} {inst : HpatchInst}

/-- Steps that leave every target but `id` alone, and end no commit. -/
structure OnlyOn (id : TargetId) (m m' : Machine FlashDev κ) : Prop where
  power : m'.dev.power = m.dev.power
  region : ∀ id', id' ≠ id → m'.dev.region id' = m.dev.region id'
  record : Traced m m' fun more =>
    (∀ id', id' ≠ id → opsOn id' more = []) ∧
      ∀ len stop, Event.committed len stop ∉ more

theorem OnlyOn.refl (id : TargetId) (m : Machine FlashDev κ) : OnlyOn id m m where
  power := rfl
  region := fun _ _ => rfl
  record := ⟨[], by simp⟩

theorem OnlyOn.trans {id : TargetId} {m₁ m₂ m₃ : Machine FlashDev κ}
    (h₁ : OnlyOn id m₁ m₂) (h₂ : OnlyOn id m₂ m₃) : OnlyOn id m₁ m₃ where
  power := h₂.power.trans h₁.power
  region := fun id' hne => (h₂.region id' hne).trans (h₁.region id' hne)
  record := by
    obtain ⟨more, hlog, hops, hcommits⟩ := h₂.record
    refine h₁.record.concat hlog fun new hnew => ⟨?_, ?_⟩
    · intro id' hne
      rw [opsOn_append, hnew.1 id' hne, hops id' hne]
      rfl
    · intro len stop hmem
      rcases List.mem_append.mp hmem with hmem | hmem
      · exact hnew.2 len stop hmem
      · exact hcommits len stop hmem

theorem onlyOn_storing (m : Machine FlashDev κ) (id : TargetId) (r : Region)
    {e : Event} (hops : ∀ id', id' ≠ id → opsOn id' [e] = [])
    (hcommit : ∀ len stop, e ≠ .committed len stop) :
    OnlyOn id m (m.storing id r [e]) where
  power := rfl
  region := fun _ hne => m.storing_other r [e] hne
  record := ⟨[e], rfl, hops, fun len stop hmem =>
    hcommit len stop (List.mem_singleton.mp hmem).symm⟩

theorem onlyOn_erased (m : Machine FlashDev κ) (id : TargetId) (r : Region)
    (off len : Nat) : OnlyOn id m (m.storing id r [.erased id off len true]) :=
  onlyOn_storing m id r (fun _ hne => opsOn_erased_other hne.symm off len true)
    (by simp)

theorem onlyOn_wrote (m : Machine FlashDev κ) (id : TargetId) (r : Region)
    (off : Nat) (piece : List UInt8) :
    OnlyOn id m (m.storing id r [.wrote id off piece true]) :=
  onlyOn_storing m id r (fun _ hne => opsOn_wrote_other hne.symm off piece true)
    (by simp)

theorem onlyOn_read (m : Machine FlashDev κ) (id id' : TargetId) (off len : Nat)
    (bytes : Option (List UInt8)) : OnlyOn id m (m.record [.read id' off len bytes]) where
  power := rfl
  region := fun _ _ => rfl
  record := ⟨_, rfl, by simp [opsOn, opOf]⟩

theorem OldPart.frame {id : TargetId} (h : OldPart U m₀ orig data done erased m)
    (honly : OnlyOn id m m') (hne : U.old.target ≠ id) :
    OldPart U m₀ orig data done erased m' where
  size := by rw [honly.region _ hne, h.size]
  unit := by rw [honly.region _ hne, h.unit]
  cells := by rw [honly.region _ hne, h.cells]
  aligned := h.aligned
  le := h.le
  fits := h.fits
  record := by
    obtain ⟨more, hlog, hops, hcommits⟩ := honly.record
    refine h.record.concat hlog fun new hnew => ⟨?_, ?_⟩
    · rw [opsOn_append, hops _ hne, List.append_nil]
      exact hnew.ops
    · intro len stop hmem
      rcases List.mem_append.mp hmem with hmem | hmem
      · exact hnew.commits len stop hmem
      · exact absurd hmem (hcommits len stop)

theorem SwapHolds.frame {buf pending : List UInt8}
    (h : SwapHolds U m₀ buf pending m) (honly : OnlyOn U.old.target m m') :
    SwapHolds U m₀ buf pending m' := by
  have hserves := U.serves
  unfold SwapHolds at h ⊢
  cases hswap : U.swap with
  | ram =>
      rw [hswap] at h
      exact h
  | flash part size =>
      rw [hswap] at h hserves
      obtain ⟨hunit, hsize, hread, hrec⟩ := h
      have hne := hserves.2.1
      obtain ⟨more, hlog, hops, -⟩ := honly.record
      simp only [honly.region part.target hne]
      refine ⟨hunit, hsize, hread, hrec.concat hlog fun new hnew => ?_⟩
      constructor
      · rw [opsOn_append, hops _ hne, List.append_nil]
        exact hnew.disciplined
      · rw [opsOn_append, hops _ hne, List.append_nil]
        exact hnew.fresh

/-! ## The old partition -/

theorem OldPart.range {off len : Nat} (h : OldPart U m₀ orig data done erased m)
    (hpos : 0 < U.size) (hle : off + len ≤ U.size) : Fits m U.old off len := by
  rw [Fits, h.size]
  exact ⟨hpos, hle⟩

theorem OldPart.erase (h : OldPart U m₀ orig data done erased m) {erased' : Nat}
    (hlt : erased < erased') (hdvd : U.unit ∣ erased')
    (hfit : erased' ≤ U.size) :
    OldPart U m₀ orig data done erased'
      (m.storing U.old.target
        ((m.dev.region U.old.target).erase erased (erased' - erased))
        [.erased U.old.target erased (erased' - erased) true]) where
  size := by simp [h.size]
  unit := by simp [h.unit]
  cells := by
    rw [Machine.storing_same]
    exact erase_front (by rw [h.unit]; exact U.unit_pos) h.cells h.le hlt
      (by rw [h.unit]; exact h.aligned) (by rw [h.unit]; exact hdvd)
  aligned := hdvd
  le := by have := h.le; omega
  fits := hfit
  record := h.record.concat rfl fun new hnew => by
    constructor
    · rw [opsOn_append, opsOn_erased_same]
      exact hnew.ops.erase U.unit_pos h.le hlt h.aligned hdvd
    · intro len stop hmem
      exact hnew.commits len stop (by simpa using hmem)

theorem OldPart.program (h : OldPart U m₀ orig data done erased m) {k : Nat}
    (hdata : done + k ≤ data.length) (hk : done + k ≤ erased) :
    OldPart U m₀ orig data (done + k) erased
      (m.storing U.old.target
        ((m.dev.region U.old.target).program done (slice data done (done + k)))
        [.wrote U.old.target done (slice data done (done + k)) true]) where
  size := by simp [h.size]
  unit := by simp [h.unit]
  cells := by
    rw [Machine.storing_same]
    exact program_front h.cells hdata
  aligned := h.aligned
  le := hk
  fits := h.fits
  record := h.record.concat rfl fun new hnew => by
    have hlen : (slice data done (done + k)).length = k := by
      rw [length_slice, Nat.min_eq_left hdata, Nat.add_sub_cancel_left]
    constructor
    · rw [opsOn_append, opsOn_wrote_same, hlen]
      exact hnew.ops.program hk
    · intro len stop hmem
      exact hnew.commits len stop (by simpa using hmem)

/-! ## Erasing ahead of the front -/

private theorem eraseAlignedRange_eq (hsector : inst.sectorSize = U.unit)
    {start stop : Nat} {alignUp : Bool} (hlt : start < stop)
    (hword : stop + U.unit ≤ 2 ^ 32)
    (hstart : (if alignUp then up start U.unit else down start U.unit) ≤
      inst.erasedEnd) :
    eraseAlignedRange U.io inst start stop alignUp m =
      if up stop U.unit ≤ inst.erasedEnd then (some inst, m)
      else
        match eraseWithFeed U.io inst.oldPart inst.erasedEnd
          (up stop U.unit - inst.erasedEnd) m with
        | (true, m') => (some { inst with erasedEnd := up stop U.unit }, m')
        | (false, m') => (none, m') := by
  have hend : rtAlign stop inst.sectorSize = up stop U.unit := by
    rw [hsector]
    exact rtAlign_eq_up U.exp_le hword
  have hbegin : (if alignUp then rtAlign start inst.sectorSize
      else rtAlignDown start inst.sectorSize) =
      if alignUp then up start U.unit else down start U.unit := by
    have hup : rtAlign start U.unit = up start U.unit :=
      rtAlign_eq_up U.exp_le (by unfold PatchSetup.unit at hword; omega)
    have hdown : rtAlignDown start U.unit = down start U.unit :=
      rtAlignDown_eq_down U.exp_le (by omega)
    rw [hsector, hup, hdown]
  rw [eraseAlignedRange, if_neg (by omega)]
  simp only [hbegin, hend]
  by_cases hskip : up stop U.unit ≤ inst.erasedEnd
  · rw [if_pos hskip, if_pos hskip]
    rfl
  · rw [if_neg hskip, if_neg hskip, Nat.max_eq_right hstart, if_pos (by omega),
      Prog.run_bind]
    rcases eraseWithFeed U.io inst.oldPart inst.erasedEnd
      (up stop U.unit - inst.erasedEnd) m with ⟨_ | _, m'⟩ <;> rfl

/-- `qbt_erase_aligned_range` moves the erased end to the unit boundary behind
`stop`, if it is not there yet. -/
theorem eraseAlignedRange_run (h : OldPart U m₀ orig data done inst.erasedEnd m)
    (hpower : m.dev.power = .steady) (hold : inst.oldPart = U.old)
    (hsector : inst.sectorSize = U.unit) (start stop : Nat) (alignUp : Bool)
    (hlt : start < stop) (hword : stop + U.unit ≤ 2 ^ 32)
    (hstart : (if alignUp then up start U.unit else down start U.unit) ≤
      inst.erasedEnd)
    (hfit : up stop U.unit ≤ U.size) :
    ∃ m', eraseAlignedRange U.io inst start stop alignUp m =
        (some { inst with erasedEnd := max inst.erasedEnd (up stop U.unit) }, m') ∧
      OldPart U m₀ orig data done (max inst.erasedEnd (up stop U.unit)) m' ∧
      OnlyOn U.old.target m m' := by
  have hpos : 0 < U.size := by
    have := le_up (x := stop) U.unit_pos
    omega
  rw [eraseAlignedRange_eq hsector hlt hword hstart]
  by_cases hskip : up stop U.unit ≤ inst.erasedEnd
  · rw [if_pos hskip, Nat.max_eq_left hskip]
    exact ⟨m, rfl, h, OnlyOn.refl _ m⟩
  · have hmove : inst.erasedEnd < up stop U.unit := by omega
    have hfits : Fits m U.old inst.erasedEnd (up stop U.unit - inst.erasedEnd) :=
      h.range hpos (by omega)
    rw [if_neg hskip, Nat.max_eq_right hmove.le, hold, PatchSetup.io,
      eraseWithFeed_steady hpower hfits]
    exact ⟨_, rfl, h.erase hmove (dvd_up _ _) hfit, onlyOn_erased m _ _ _ _⟩

theorem eraseAlignedRange_outside (h : OldPart U m₀ orig data done inst.erasedEnd m)
    (hold : inst.oldPart = U.old) (hsector : inst.sectorSize = U.unit)
    (start stop : Nat) (alignUp : Bool) (hlt : start < stop)
    (hword : stop + U.unit ≤ 2 ^ 32)
    (hstart : (if alignUp then up start U.unit else down start U.unit) ≤
      inst.erasedEnd)
    (hout : U.size < up stop U.unit) :
    ∃ off len, eraseAlignedRange U.io inst start stop alignUp m =
      (none, m.record [.erased U.old.target off len false]) := by
  have hfits := h.fits
  have hrange : (m.dev.region U.old.target).size <
      inst.erasedEnd + (up stop U.unit - inst.erasedEnd) := by
    rw [h.size]
    omega
  rw [eraseAlignedRange_eq hsector hlt hword hstart, if_neg (by omega), hold,
    PatchSetup.io, eraseWithFeed_outside (by omega) hrange]
  exact ⟨_, _, rfl⟩

/-! ## Copying to the old partition -/

/-- The copy loop after `i` of `total` bytes. -/
structure Copying (U : PatchSetup) (m₀ m : Machine FlashDev κ)
    (orig : Nat → UInt8) (data : List UInt8) (done erased total : Nat)
    (c : Nat × Nat × Nat) (m' : Machine FlashDev κ) : Prop where
  source : c.1 + c.2.2 = U.cfg.swapOffset + total
  target : c.2.1 + c.2.2 = done + total
  left : c.2.2 ≤ total
  old : OldPart U m₀ orig data c.2.1 erased m'
  only : OnlyOn U.old.target m m'

private theorem copyRound_step {part : Handle} {n : Nat}
    (hserves : (Swap.flash part n).Serves U.cfg U.old U.capacity)
    (hpower : m.dev.power = .steady)
    (hsize : U.cfg.swapOffset + (data.length - done) ≤
      (m.dev.region part.target).size)
    (hread : ((m.dev.region part.target).read U.cfg.swapOffset
      (data.length - done)).1 = data.drop done)
    (hdata : done ≤ data.length) (hroom : data.length ≤ erased)
    (c : Nat × Nat × Nat) (m' : Machine FlashDev κ)
    (hI : Copying U m₀ m orig data done erased (data.length - done) c m') :
    Ends (Copying U m₀ m orig data done erased (data.length - done))
      (fun c => c.2.2)
      (fun b m' => b = true ∧ OldPart U m₀ orig data data.length erased m' ∧
        OnlyOn U.old.target m m') c.2.2
      (copyRound U.io U.cfg.ramBufSize part U.old c m') := by
  obtain ⟨src, dst, left⟩ := c
  obtain ⟨hsrc, hdst, hleft, hold, honly⟩ := hI
  obtain ⟨-, hne, hbuf⟩ := hserves
  have hfit : erased ≤ U.size := hold.fits
  simp only at hsrc hdst hleft hold
  by_cases hzero : left = 0
  · have hall : dst = data.length := by omega
    subst hzero hall
    exact ⟨rfl, hold, honly⟩
  have hpower' : m'.dev.power = .steady := honly.power.trans hpower
  have hregion := honly.region _ hne
  rw [copyRound, if_neg hzero]
  simp only
  -- the chunk is the next piece of the new data
  generalize hchunk : min left U.cfg.ramBufSize = chunk
  have hchunk_pos : 0 < chunk := by omega
  have hchunk_le : chunk ≤ left := by omega
  have hfits : Fits m' part src chunk := by
    rw [Fits, hregion]
    exact ⟨by omega, by omega⟩
  have hpiece : ((m'.dev.region part.target).read src chunk).1 =
      slice data dst (dst + chunk) := by
    have hinner := @readCells_inner (m.dev.region part.target).cells
      U.cfg.swapOffset (data.length - done) (dst - done) chunk (by omega)
    rw [← Region.read, ← Region.read, hread, slice_drop] at hinner
    rw [hregion, show src = U.cfg.swapOffset + (dst - done) by omega, hinner]
    congr 1 <;> omega
  have hlen : (slice data dst (dst + chunk)).length = chunk := by
    rw [length_slice]
    omega
  have hread' : OldPart U m₀ orig data dst erased
      (m'.record [.read part.target src chunk (some (slice data dst (dst + chunk)))]) :=
    hold.frame (onlyOn_read m' part.target part.target src chunk _) hne.symm
  have hwfits : Fits
      (m'.record [.read part.target src chunk (some (slice data dst (dst + chunk)))]) U.old dst
      (slice data dst (dst + chunk)).length := by
    rw [hlen]
    exact hread'.range (by omega) (by omega)
  have hwpower : (m'.record [.read part.target src chunk
      (some (slice data dst (dst + chunk)))]).dev.power = .steady := hpower'
  simp only [Prog.run_bind, PatchSetup.io]
  rw [ioRead_steady hpower' hfits]
  simp only [Prog.run_bind, hpiece]
  rw [ioWrite_steady hwpower hwfits]
  refine ⟨⟨?_, ?_, ?_, ?_, ?_⟩, ?_⟩
  · simp only
    omega
  · simp only
    omega
  · simp only
    omega
  · exact hread'.program (by omega) (by omega)
  · exact (honly.trans (onlyOn_read m' _ _ src chunk _)).trans
      (onlyOn_wrote _ _ _ _ _)
  · simp only
    omega

/-- Both backends copy the bytes not committed yet to the front. -/
theorem copyToOld_run (inst : HpatchInst)
    (h : OldPart U m₀ orig data inst.committedLen erased m)
    (hpower : m.dev.power = .steady) (hold : inst.oldPart = U.old)
    (hswap : inst.swap = U.swap)
    (hpending : SwapHolds U m₀ inst.ramBuf (data.drop inst.committedLen) m)
    (hcap : data.length - inst.committedLen ≤ U.capacity)
    (hdata : inst.committedLen ≤ data.length) (hroom : data.length ≤ erased)
    (hne : data ≠ []) :
    ∃ m', copyToOld U.io U.cfg inst (data.length - inst.committedLen) m =
        (true, m') ∧
      OldPart U m₀ orig data data.length erased m' ∧
      OnlyOn U.old.target m m' := by
  have hserves := U.serves
  have hfit := h.fits
  have hdrop : (data.drop inst.committedLen).length =
      data.length - inst.committedLen := List.length_drop
  have hpos : 0 < data.length := List.length_pos_iff.mpr hne
  unfold copyToOld
  cases hU : U.swap with
  | ram =>
      have hpiece : inst.ramBuf.take (data.length - inst.committedLen) =
          slice data inst.committedLen
            (inst.committedLen + (data.length - inst.committedLen)) := by
        unfold SwapHolds at hpending
        rw [hU, hdrop] at hpending
        rw [hpending, Nat.add_sub_cancel' hdata, slice_to_end]
      have hlen : (slice data inst.committedLen (inst.committedLen +
          (data.length - inst.committedLen))).length =
          data.length - inst.committedLen := by
        rw [length_slice]
        omega
      have hfits : Fits m U.old inst.committedLen (slice data inst.committedLen
          (inst.committedLen + (data.length - inst.committedLen))).length := by
        rw [hlen]
        exact h.range (by omega) (by omega)
      have hprog := h.program (k := data.length - inst.committedLen)
        (by omega) (by omega)
      rw [hswap, hU]
      simp only [hold, hpiece, PatchSetup.io]
      rw [ioWrite_steady hpower hfits]
      refine ⟨_, rfl, ?_, onlyOn_wrote m _ _ _ _⟩
      rwa [Nat.add_sub_cancel' hdata] at hprog ⊢
  | flash part n =>
      rw [hU] at hserves
      unfold SwapHolds at hpending
      rw [hU, hdrop] at hpending
      obtain ⟨-, hsize, hread, -⟩ := hpending
      have hstart : Copying U m₀ m orig data inst.committedLen erased
          (data.length - inst.committedLen)
          (U.cfg.swapOffset, inst.committedLen, data.length - inst.committedLen)
          m := ⟨rfl, rfl, le_refl _, h, OnlyOn.refl _ m⟩
      obtain ⟨b, m', hrun, rfl, hold', honly⟩ := iterate_rule
        (copyRound_step hserves hpower (by omega) hread hdata hroom)
        hstart (Nat.lt_succ_self _)
      rw [hswap, hU]
      simp only [hold, Prog.run_bind]
      rw [hrun]
      exact ⟨m', rfl, hold', honly⟩

/-! ## The end of a commit -/

theorem OldPart.recorded (h : OldPart U m₀ orig data done erased m)
    {es : List Event} (hops : opsOn U.old.target es = [])
    (hcommits : ∀ len stop, Event.committed len stop ∈ es →
      stop = up len U.unit) :
    OldPart U m₀ orig data done erased (m.record es) where
  size := h.size
  unit := h.unit
  cells := h.cells
  aligned := h.aligned
  le := h.le
  fits := h.fits
  record := h.record.concat rfl fun new hnew => by
    constructor
    · rw [opsOn_append, hops, List.append_nil]
      exact hnew.ops
    · intro len stop hmem
      rcases List.mem_append.mp hmem with hmem | hmem
      · exact hnew.commits len stop hmem
      · exact hcommits len stop hmem

theorem SwapHolds.recorded {buf pending : List UInt8} {es : List Event}
    (h : SwapHolds U m₀ buf pending m) (hops : ∀ id, opsOn id es = []) :
    SwapHolds U m₀ buf pending (m.record es) := by
  unfold SwapHolds at h ⊢
  cases hswap : U.swap with
  | ram =>
      rw [hswap] at h
      exact h
  | flash part size =>
      rw [hswap] at h
      obtain ⟨hunit, hsize, hread, hrec⟩ := h
      refine ⟨hunit, hsize, hread, hrec.concat rfl fun new hnew => ?_⟩
      constructor
      · rw [opsOn_append, hops, List.append_nil]
        exact hnew.disciplined
      · rw [opsOn_append, hops, List.append_nil]
        exact hnew.fresh

theorem SwapRecord.erase {id : TargetId} {unit off capacity used : Nat}
    {new : List Event} (h : SwapRecord id unit off capacity used new)
    (hunit : 0 < unit) :
    SwapRecord id unit off capacity 0
      (new ++ [.erased id off capacity true]) where
  disciplined := by
    rw [opsOn_append, opsOn_erased_same]
    exact Trace.along_concat h.disciplined fun a ha => ha.elim
  fresh := by
    intro a hlo hhi
    have hcover : Covers unit off capacity a := by
      refine ⟨by omega, ?_, ?_⟩
      · have := down_le off unit
        omega
      · have := le_up (x := off + capacity) hunit
        omega
    rw [opsOn_append, opsOn_erased_same, fresh_concat]
    exact if_pos hcover

theorem swapReset_run (inst : HpatchInst) {pending : List UInt8} (hpower : m.dev.power = .steady)
    (hswap : inst.swap = U.swap)
    (hpending : SwapHolds U m₀ inst.ramBuf pending m) :
    ∃ m', swapReset U.io U.cfg inst m = (some { inst with writePos := 0 }, m') ∧
      m'.dev.power = .steady ∧
      (∀ done erased, OldPart U m₀ orig data done erased m →
        OldPart U m₀ orig data done erased m') ∧
      SwapHolds U m₀ inst.ramBuf [] m' := by
  have hserves := U.serves
  unfold swapReset
  unfold SwapHolds at hpending ⊢
  rw [hswap]
  cases hU : U.swap with
  | ram => exact ⟨m, rfl, hpower, fun _ _ h => h, rfl⟩
  | flash part n =>
      rw [hU] at hpending hserves
      obtain ⟨rfl, hne, -⟩ := hserves
      obtain ⟨hunit, hsize, -, hrec⟩ := hpending
      have hfits : Fits m part U.cfg.swapOffset U.capacity := by
        have := U.capacity_pos
        exact ⟨by omega, hsize⟩
      simp only [Prog.run_bind, PatchSetup.io]
      rw [eraseWithFeed_steady hpower hfits]
      refine ⟨_, rfl, hpower, ?_, ?_⟩
      · intro done erased h
        exact h.frame (onlyOn_erased m part.target _ _ _) hne.symm
      · refine ⟨by simpa using hunit, by simpa using hsize, rfl,
          hrec.concat rfl fun new hnew => ?_⟩
        simpa using hnew.erase hunit

/-! ## Commits -/

def HpatchInst.committedAll (inst : HpatchInst) (U : PatchSetup)
    (data : List UInt8) : HpatchInst :=
  { inst with
    committedLen := data.length
    erasedEnd := up data.length U.unit
    writePos := 0 }

/-- A commit moves the front to the end of the data written so far. -/
theorem swapCommit_run (hI : Patching U m₀ orig data inst m)
    (hlen : data.length < 2 ^ 31) (hfit : up data.length U.unit ≤ U.size) :
    ∃ m', swapCommit U.io U.cfg inst m = (some (inst.committedAll U data), m') ∧
      Patching U m₀ orig data (inst.committedAll U data) m' := by
  have htotal := hI.total
  have hwithin := hI.within
  have hlast : data.length ≤ up data.length U.unit := le_up U.unit_pos
  by_cases hused : inst.writePos = 0
  · have hsame : inst.committedAll U data = inst := by
      have hdone : data.length = inst.committedLen := by omega
      rw [HpatchInst.committedAll, hdone, ← hI.erased, ← hused]
    rw [swapCommit, if_pos hused, hsame]
    exact ⟨m, rfl, hI⟩
  have hle : inst.committedLen ≤ data.length := by omega
  have hdata : data ≠ [] := by
    rintro rfl
    simp only [List.length_nil] at htotal
    omega
  -- the erased end moves to the unit boundary behind the data
  have hmono : inst.erasedEnd ≤ up data.length U.unit := by
    rw [hI.erased]
    exact up_mono hle
  have hdown : down inst.committedLen U.unit ≤ inst.erasedEnd := by
    have hback := down_le inst.committedLen U.unit
    have hahead := hI.old.le
    omega
  have hword : inst.committedLen + inst.writePos + U.unit ≤ 2 ^ 32 := by
    have hunit := U.unit_le
    omega
  obtain ⟨m₁, herase, hold₁, honly₁⟩ := eraseAlignedRange_run hI.old hI.power
    hI.oldPart hI.sector inst.committedLen (inst.committedLen + inst.writePos)
    false (by omega) hword (by simpa using hdown) (by rwa [htotal])
  rw [htotal, Nat.max_eq_right hmono] at herase hold₁
  -- the pending bytes are copied behind the front
  have hpower₁ := honly₁.power.trans hI.power
  have hpending₁ := hI.pending.frame honly₁
  have hpos : data.length - inst.committedLen = inst.writePos := by omega
  obtain ⟨m₂, hcopy, hold₂, honly₂⟩ := copyToOld_run
    { inst with erasedEnd := up data.length U.unit } hold₁ hpower₁
    hI.oldPart hI.swap hpending₁ (by simp only; omega) hle hlast hdata
  simp only [hpos] at hcopy
  -- the swap area is emptied
  have hold₃ : OldPart U m₀ orig data data.length (up data.length U.unit)
      (m₂.record [.committed data.length (up data.length U.unit)]) := by
    refine hold₂.recorded rfl fun len stop hmem => ?_
    obtain ⟨rfl, rfl⟩ := by simpa using hmem
    rfl
  have hpower₃ : (m₂.record [.committed data.length
      (up data.length U.unit)]).dev.power = .steady := honly₂.power.trans hpower₁
  have hpending₃ : SwapHolds U m₀ inst.ramBuf (data.drop inst.committedLen)
      (m₂.record [.committed data.length (up data.length U.unit)]) :=
    (hpending₁.frame honly₂).recorded fun _ => rfl
  obtain ⟨m₄, hreset, hpower₄, hkeep, hpending₄⟩ := swapReset_run
    { inst with erasedEnd := up data.length U.unit, committedLen := data.length }
    hpower₃ hI.swap hpending₃
  refine ⟨m₄, ?_, hpower₄, hI.swap, hI.oldPart, hI.sector, hI.capacity, rfl,
    rfl, Nat.zero_le _, hkeep _ _ hold₃, ?_⟩
  · have hdone : inst.committedLen + (data.length - inst.committedLen) =
        data.length := by omega
    rw [swapCommit, if_neg hused]
    simp only [Prog.run_bind, htotal, herase, hcopy]
    exact hreset
  · simpa [HpatchInst.committedAll] using hpending₄

theorem swapCommit_outside (hI : Patching U m₀ orig data inst m)
    (hused : inst.writePos ≠ 0) (hlen : data.length < 2 ^ 31)
    (hout : U.size < up data.length U.unit) :
    ∃ m', swapCommit U.io U.cfg inst m = (none, m') := by
  have htotal := hI.total
  have hunit := U.unit_le
  have hdown : down inst.committedLen U.unit ≤ inst.erasedEnd := by
    have hback := down_le inst.committedLen U.unit
    have hahead := hI.old.le
    omega
  obtain ⟨off, len, herase⟩ := eraseAlignedRange_outside hI.old hI.oldPart
    hI.sector inst.committedLen (inst.committedLen + inst.writePos) false
    (by omega) (by omega) (by simpa using hdown) (by rwa [htotal])
  refine ⟨m.record [.erased U.old.target off len false], ?_⟩
  rw [swapCommit, if_neg hused, Prog.run_bind, herase]
  rfl

theorem swapCommit_some {inst' : HpatchInst} (hI : Patching U m₀ orig data inst m)
    (hlen : data.length < 2 ^ 31)
    (hrun : swapCommit U.io U.cfg inst m = (some inst', m')) :
    up data.length U.unit ≤ U.size ∧ inst' = inst.committedAll U data ∧
      Patching U m₀ orig data inst' m' := by
  have htotal := hI.total
  by_cases hfit : up data.length U.unit ≤ U.size
  · obtain ⟨m₁, hcommit, hP⟩ := swapCommit_run hI hlen hfit
    rw [hcommit] at hrun
    cases hrun
    exact ⟨hfit, rfl, hP⟩
  · exfalso
    have hused : inst.writePos ≠ 0 := by
      intro hzero
      have hfits := hI.old.fits
      have herased := hI.erased
      rw [show inst.committedLen = data.length by omega] at herased
      omega
    obtain ⟨m₁, hcommit⟩ := swapCommit_outside hI hused hlen (by omega)
    rw [hcommit] at hrun
    cases hrun

/-! ## Appending to the swap area -/

def HpatchInst.fixed (inst : HpatchInst) : HpatchInst :=
  { inst with ramBuf := [], writePos := 0, committedLen := 0, erasedEnd := 0 }

theorem OldPart.append (h : OldPart U m₀ orig data done erased m)
    (hdone : done ≤ data.length) (more : List UInt8) :
    OldPart U m₀ orig (data ++ more) done erased m where
  size := h.size
  unit := h.unit
  cells := by rw [front_append hdone, h.cells]
  aligned := h.aligned
  le := h.le
  fits := h.fits
  record := h.record

theorem SwapRecord.program {id : TargetId} {unit off capacity used : Nat}
    {new : List Event} (h : SwapRecord id unit off capacity used new)
    {piece : List UInt8} (hfit : used + piece.length ≤ capacity) :
    SwapRecord id unit off capacity (used + piece.length)
      (new ++ [.wrote id (off + used) piece true]) where
  disciplined := by
    rw [opsOn_append, opsOn_wrote_same]
    refine Trace.along_concat h.disciplined fun a ha => ?_
    have ha' : off + used ≤ a ∧ a < off + used + piece.length := ha
    exact h.fresh a ha'.1 (by omega)
  fresh := by
    intro a hlo hhi
    have herases : ¬(Op.program (off + used) piece.length).Erases unit a :=
      fun h => h
    have hprograms : ¬(Op.program (off + used) piece.length).Programs a := by
      intro ha
      have ha' : off + used ≤ a ∧ a < off + used + piece.length := ha
      omega
    rw [opsOn_append, opsOn_wrote_same, fresh_concat, if_neg herases,
      if_neg hprograms]
    exact h.fresh a (by omega) hhi

theorem swapAppend_ram {io : IoOps FlashDev} {cfg : HpatchConfig}
    (hswap : inst.swap = .ram) (piece : List UInt8) (m : Machine FlashDev κ) :
    swapAppend io cfg inst piece m =
      (some { inst with
        ramBuf := inst.ramBuf.take inst.writePos ++ piece
        writePos := inst.writePos + piece.length }, m) := by
  cases inst
  cases hswap
  rfl

theorem swapAppend_flash {io : IoOps FlashDev} {cfg : HpatchConfig}
    {part : Handle} {n : Nat} {piece : List UInt8}
    (hswap : inst.swap = .flash part n)
    (hwrite : ioWrite io part (cfg.swapOffset + inst.writePos) piece m =
      (true, m')) :
    swapAppend io cfg inst piece m =
      (some { inst with writePos := inst.writePos + piece.length }, m') := by
  cases inst
  cases hswap
  simp only [swapAppend, Prog.run_bind, hwrite]
  rfl

/-- Appending to either swap backend adds to the data written. -/
theorem swapAppend_run (hI : Patching U m₀ orig data inst m)
    (piece : List UInt8) (hfit : inst.writePos + piece.length ≤ U.capacity) :
    ∃ inst' m', swapAppend U.io U.cfg inst piece m = (some inst', m') ∧
      Patching U m₀ orig (data ++ piece) inst' m' ∧
      inst'.writePos = inst.writePos + piece.length ∧
      inst'.committedLen = inst.committedLen ∧ inst'.fixed = inst.fixed := by
  have hserves := U.serves
  have htotal := hI.total
  have hpending := hI.pending
  have hdone : inst.committedLen ≤ data.length := by omega
  have hused : (data.drop inst.committedLen).length = inst.writePos := by
    rw [List.length_drop]
    omega
  have hdrop : (data ++ piece).drop inst.committedLen =
      data.drop inst.committedLen ++ piece :=
    List.drop_append_of_le_length hdone
  have htotal' : inst.committedLen + (inst.writePos + piece.length) =
      (data ++ piece).length := by
    rw [List.length_append]
    omega
  unfold SwapHolds at hpending
  cases hU : U.swap with
  | ram =>
      rw [hU, hused] at hpending
      refine ⟨_, m, swapAppend_ram (hI.swap.trans hU) piece m, ⟨hI.power, hI.swap, hI.oldPart, hI.sector, hI.capacity,
        hI.erased, htotal', hfit, hI.old.append hdone piece, ?_⟩, rfl, rfl, rfl⟩
      simp only [SwapHolds, hU, hdrop, hpending]
      exact List.take_length
  | flash part n =>
      rw [hU] at hpending hserves
      obtain ⟨rfl, hne, -⟩ := hserves
      obtain ⟨hunit, hsize, hread, hrec⟩ := hpending
      have hfits : Fits m part (U.cfg.swapOffset + inst.writePos)
          piece.length := by
        have := U.capacity_pos
        exact ⟨by omega, by omega⟩
      refine ⟨_, _, swapAppend_flash (hI.swap.trans hU)
        (ioWrite_steady hI.power hfits), ⟨hI.power, hI.swap, hI.oldPart, hI.sector, hI.capacity,
        hI.erased, htotal', hfit, ?_, ?_⟩, rfl, rfl, rfl⟩
      · exact (hI.old.frame (onlyOn_wrote m part.target _ _ _) hne.symm).append
          hdone piece
      · simp only [SwapHolds, hU, hdrop, List.length_append, hused]
        rw [hused] at hread hrec
        refine ⟨by simpa using hunit, by simpa using hsize, ?_,
          hrec.concat rfl fun new hnew => ?_⟩
        · have hlen : (data.drop inst.committedLen ++ piece).length =
              inst.writePos + piece.length := by
            rw [List.length_append, hused]
          rw [Machine.storing_same, hdrop, hlen]
          exact readCells_overwrite_extend hread
        · rw [Machine.storing_same, Region.unit_program]
          exact hnew.program hfit

/-! ## Writing new data -/

/-- Between two `_do_write_new` calls the swap area is not full, and only full
swap areas have been committed. -/
structure Buffering (U : PatchSetup) (m₀ : Machine FlashDev κ)
    (orig : Nat → UInt8) (data : List UInt8) (inst : HpatchInst)
    (m : Machine FlashDev κ) : Prop
    extends Patching U m₀ orig data inst m where
  room : inst.writePos < U.capacity
  blocks : U.capacity ∣ inst.committedLen

/-- The whole blocks of what was written are committed. -/
theorem Buffering.committedLen_eq (h : Buffering U m₀ orig data inst m) :
    inst.committedLen = U.capacity * (data.length / U.capacity) := by
  obtain ⟨n, hn⟩ := h.blocks
  have hroom := h.room
  have htotal := h.total
  rw [← htotal, hn, Nat.mul_add_div U.capacity_pos,
    Nat.div_eq_of_lt hroom, Nat.add_zero]

/-- The write loop, with `all` the data when it is done. -/
def Writing (U : PatchSetup) (m₀ : Machine FlashDev κ) (orig : Nat → UInt8)
    (all : List UInt8) (fixed : HpatchInst) (c : HpatchInst × List UInt8)
    (m : Machine FlashDev κ) : Prop :=
  ∃ written, written ++ c.2 = all ∧ Buffering U m₀ orig written c.1 m ∧
    c.1.fixed = fixed

private theorem sizeT_sub {a b : Nat} (h : b ≤ a) (ha : a < 2 ^ 31) :
    sizeT ((a : Int) - b) = a - b := by
  rw [sizeT, Int.emod_eq_of_lt (by omega) (by omega)]
  omega

def BlocksFit (U : PatchSetup) (len : Nat) : Prop :=
  up (U.capacity * (len / U.capacity)) U.unit ≤ U.size

/-- What writing answers: success keeps the invariant, and nothing but the end
of the partition makes it fail. -/
def WritingEnd (U : PatchSetup) (m₀ : Machine FlashDev κ) (orig : Nat → UInt8)
    (all : List UInt8) (fixed : HpatchInst) (r : Option HpatchInst)
    (m : Machine FlashDev κ) : Prop :=
  (∀ inst, r = some inst → Buffering U m₀ orig all inst m ∧ inst.fixed = fixed) ∧
    (BlocksFit U all.length → r.isSome)

private theorem writeNewRound_step {all : List UInt8} {fixed : HpatchInst}
    (hlen : all.length < 2 ^ 31)
    (c : HpatchInst × List UInt8) (m : Machine FlashDev κ)
    (hI : Writing U m₀ orig all fixed c m) :
    Ends (Writing U m₀ orig all fixed) (fun c => c.2.length)
      (WritingEnd U m₀ orig all fixed) c.2.length
      (writeNewRound U.io U.cfg c m) := by
  obtain ⟨inst, rest⟩ := c
  obtain ⟨written, hall, hB, hfixed⟩ := hI
  simp only at hall hfixed
  replace hB : Buffering U m₀ orig written inst m := hB
  by_cases hrest : rest = []
  · subst hrest
    rw [List.append_nil] at hall
    subst hall
    refine ⟨?_, fun _ => rfl⟩
    rintro inst' ⟨rfl⟩
    exact ⟨hB, hfixed⟩
  have hroom : inst.writePos < U.capacity := hB.room
  have hrestlen : 0 < rest.length := List.length_pos_iff.mpr hrest
  have hchunk : min rest.length (sizeT (inst.capacity - inst.writePos)) =
      min rest.length (U.capacity - inst.writePos) := by
    rw [hB.capacity, sizeT_sub hroom.le U.capacity_lt]
  rw [writeNewRound, if_neg hrest]
  simp only [hchunk]
  -- the chunk is not empty, because the swap area is not full
  generalize hk : min rest.length (U.capacity - inst.writePos) = k
  have hkpos : 0 < k := by omega
  have hpiece : (rest.take k).length = k := by
    rw [List.length_take]
    omega
  have hsplit : (written ++ rest.take k) ++ rest.drop k = all := by
    rw [List.append_assoc, List.take_append_drop, hall]
  have hle : (written ++ rest.take k).length ≤ all.length := by
    have htotal := congrArg List.length hsplit
    rw [List.length_append] at htotal
    omega
  obtain ⟨inst₁, m₁, happend, hP, hpos, hsame, hfixed₁⟩ :=
    swapAppend_run hB.toPatching (rest.take k) (by omega)
  have hcap := hP.capacity
  have hless : (rest.drop k).length < rest.length := by
    rw [List.length_drop]
    omega
  simp only [if_pos hkpos, Prog.run_bind, happend]
  by_cases hfull : inst₁.capacity ≤ inst₁.writePos
  · obtain ⟨n, hn⟩ := hB.blocks
    have hblock : (written ++ rest.take k).length = U.capacity * (n + 1) := by
      have htotal := hP.total
      rw [Nat.mul_add, Nat.mul_one]
      omega
    by_cases hfit : up (written ++ rest.take k).length U.unit ≤ U.size
    · obtain ⟨m₂, hcommit, hP₂⟩ := swapCommit_run hP (by omega) hfit
      simp only [if_pos hfull, Prog.run_bind, hcommit]
      refine ⟨⟨_, hsplit, ⟨hP₂, U.capacity_pos, ⟨n + 1, hblock⟩⟩, ?_⟩, hless⟩
      rw [← hfixed, ← hfixed₁]
      rfl
    · obtain ⟨m₂, hcommit⟩ := swapCommit_outside hP (by omega) (by omega)
        (by omega)
      simp only [if_pos hfull, Prog.run_bind, hcommit]
      refine ⟨by simp, fun hfits => absurd ?_ hfit⟩
      have hdiv : (written ++ rest.take k).length ≤
          U.capacity * (all.length / U.capacity) := by
        rw [hblock]
        refine Nat.mul_le_mul_left _ ?_
        rw [Nat.le_div_iff_mul_le U.capacity_pos, Nat.mul_comm, ← hblock]
        exact hle
      exact (up_mono hdiv).trans hfits
  · have hroom₁ : inst₁.writePos < U.capacity := by omega
    simp only [if_neg hfull]
    refine ⟨⟨_, hsplit, ⟨hP, hroom₁, ?_⟩, hfixed₁.trans hfixed⟩, hless⟩
    rw [hsame]
    exact hB.blocks

/-- `_do_write_new` adds the chunk to the data written, unless a commit reaches
beyond the partition. -/
theorem doWriteNew_run (hI : Buffering U m₀ orig data inst m)
    (chunk : List UInt8) (hlen : (data ++ chunk).length < 2 ^ 31) :
    ∃ r m', doWriteNew U.io U.cfg inst chunk m = (r, m') ∧
      (∀ inst', r = some inst' → Buffering U m₀ orig (data ++ chunk) inst' m' ∧
        inst'.fixed = { inst.fixed with
          newerWritePos := inst.newerWritePos + chunk.length }) ∧
      (BlocksFit U (data ++ chunk).length → r.isSome) := by
  have hstart : Writing U m₀ orig (data ++ chunk) inst.fixed (inst, chunk) m :=
    ⟨data, rfl, hI, rfl⟩
  obtain ⟨r, m', hrun, hsucc, hfits⟩ := iterate_rule
    (writeNewRound_step hlen) hstart (Nat.lt_succ_self _)
  refine ⟨_, m', by rw [doWriteNew, Prog.run_bind, hrun]; rfl, ?_, ?_⟩
  · intro inst' hinst'
    obtain ⟨inst₁, rfl, rfl⟩ := by simpa using hinst'
    obtain ⟨hB, hfixed⟩ := hsucc inst₁ rfl
    have hnewer : inst₁.newerWritePos = inst.newerWritePos := by
      show inst₁.fixed.newerWritePos = inst.fixed.newerWritePos
      rw [hfixed]
    refine ⟨⟨⟨hB.power, hB.swap, hB.oldPart, hB.sector, hB.capacity, hB.erased,
      hB.total, hB.within, hB.old, hB.pending⟩, hB.room, hB.blocks⟩, ?_⟩
    rw [← hfixed, ← hnewer]
    rfl
  · intro hfit
    simpa using hfits hfit

end Qboot
