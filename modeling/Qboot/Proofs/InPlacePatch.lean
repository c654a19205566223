import Qboot.Proofs.Commit
/-!
# Runs of an in-place patch

The callbacks that the patcher makes, one after another, on a device under
steady power, from the initialisation of the swap area to the tail erase of
`qbt_hpatchlite_release_from_part`.
-/

namespace Qboot

open Library Bytes Flash InPlace Machine Loop

variable {κ : Type}

/-! ## Sequences of callbacks -/

/-- One callback of the patcher, with its arguments. -/
inductive PatchCall where
  | readPatch (size : Nat)
  | readOld (addr size : Nat)
  | writeNew (data : List UInt8)
  deriving DecidableEq, Repr

def PatchCall.written : PatchCall → List UInt8
  | .writeNew data => data
  | _ => []

def written (calls : List PatchCall) : List UInt8 :=
  calls.flatMap PatchCall.written

theorem written_writes (chunks : List (List UInt8)) :
    written (chunks.map .writeNew) = chunks.flatten := by
  induction chunks with
  | nil => rfl
  | cons chunk chunks ih =>
      rw [List.map_cons, written, List.flatMap_cons, List.flatten_cons, ← ih]
      rfl

section Calls

variable {σ : Type} (io : IoOps σ) (cfg : HpatchConfig)

def runCall (call : PatchCall) (inst : HpatchInst) :
    Prog (Machine σ κ) (Option HpatchInst) :=
  match call with
  | .readPatch size => do
      let (answer, inst) ← doReadPatch io inst size
      if answer.ok then pure (some inst) else pure none
  | .readOld addr size => do
      match ← doReadOld io inst addr size with
      | some _ => pure (some inst)
      | none => pure none
  | .writeNew data => doWriteNew io cfg inst data

/-- Make the callbacks in order, up to the first failure. -/
def runCalls : List PatchCall → HpatchInst →
    Prog (Machine σ κ) (Option HpatchInst)
  | [], inst => pure (some inst)
  | call :: calls, inst => do
      match ← runCall io cfg call inst with
      | some inst => runCalls calls inst
      | none => pure none

/-- The patch from the empty swap area to the last commit. -/
def patchSession (inst : HpatchInst) (calls : List PatchCall) :
    Prog (Machine σ κ) (Option HpatchInst) := do
  match ← swapInit io cfg inst with
  | none => pure none
  | some inst =>
      match ← runCalls io cfg calls inst with
      | none => pure none
      | some inst => swapCommit io cfg inst

variable {io cfg} {inst inst' : HpatchInst} {m m' : Machine σ κ}

theorem runCalls_cons {call : PatchCall} {calls : List PatchCall}
    (hrun : runCalls io cfg (call :: calls) inst m = (some inst', m')) :
    ∃ inst₁ m₁, runCall io cfg call inst m = (some inst₁, m₁) ∧
      runCalls io cfg calls inst₁ m₁ = (some inst', m') := by
  rw [runCalls, Prog.run_bind] at hrun
  rcases hcall : runCall io cfg call inst m with ⟨_ | inst₁, m₁⟩
  · rw [hcall] at hrun
    cases hrun
  · rw [hcall] at hrun
    exact ⟨inst₁, m₁, rfl, hrun⟩

end Calls

/-! ## A patch in progress -/

variable {U : PatchSetup} {m₀ m m' : Machine FlashDev κ} {orig : Nat → UInt8}
  {data : List UInt8} {inst inst' : HpatchInst} {newerLen : Int}

/-- The patcher has written `data`, and is between two callbacks. -/
structure PatchRun (U : PatchSetup) (m₀ : Machine FlashDev κ)
    (orig : Nat → UInt8) (newerLen : Int) (data : List UInt8)
    (inst : HpatchInst) (m : Machine FlashDev κ) : Prop
    extends Buffering U m₀ orig data inst m where
  newerPos : inst.newerWritePos = data.length
  newer : inst.newerFileLen = newerLen

theorem PatchRun.recorded (h : PatchRun U m₀ orig newerLen data inst m)
    {es : List Event} (hops : ∀ id, opsOn id es = [])
    (hcommits : ∀ len stop, Event.committed len stop ∉ es) :
    PatchRun U m₀ orig newerLen data inst (m.record es) where
  power := h.power
  swap := h.swap
  oldPart := h.oldPart
  sector := h.sector
  capacity := h.capacity
  erased := h.erased
  total := h.total
  within := h.within
  old := h.old.recorded (hops _) fun len stop hmem =>
    absurd hmem (hcommits len stop)
  pending := h.pending.recorded hops
  room := h.room
  blocks := h.blocks
  newerPos := h.newerPos
  newer := h.newer

theorem ioRead_record (backend : TargetId → Backend) (h : Handle) (off len : Nat)
    (m : Machine FlashDev κ) :
    ∃ r data, ioRead (regionIo backend) h off len m =
      (r, m.record [.read h.target off len data]) :=
  ⟨_, _, rfl⟩

theorem PatchRun.read (h : PatchRun U m₀ orig newerLen data inst m)
    (id : TargetId) (off len : Nat) (bytes : Option (List UInt8)) :
    PatchRun U m₀ orig newerLen data inst (m.record [.read id off len bytes]) :=
  h.recorded (fun _ => rfl) (by simp)

theorem PatchRun.patchRead (h : PatchRun U m₀ orig newerLen data inst m)
    (pos : Nat) :
    PatchRun U m₀ orig newerLen data { inst with patchReadPos := pos } m :=
  ⟨⟨⟨h.power, h.swap, h.oldPart, h.sector, h.capacity, h.erased, h.total,
    h.within, h.old, h.pending⟩, h.room, h.blocks⟩, h.newerPos, h.newer⟩

theorem doReadPatch_run (h : PatchRun U m₀ orig newerLen data inst m)
    (size : Nat) {r : PatchAnswer}
    (hrun : doReadPatch U.io inst size m = ((r, inst'), m')) :
    PatchRun U m₀ orig newerLen data inst' m' := by
  rw [doReadPatch] at hrun
  split at hrun
  · cases hrun
    exact h
  simp only at hrun
  split at hrun
  · cases hrun
    exact h
  obtain ⟨read, bytes, hread⟩ := ioRead_record U.backend inst.patchPart
    (inst.patchFileOffset + inst.patchReadPos)
    (min size (inst.patchFileLen - inst.patchReadPos).toNat) m
  rw [Prog.run_bind, PatchSetup.io, hread] at hrun
  cases read with
  | none =>
      cases hrun
      exact h.read _ _ _ _
  | some block =>
      cases hrun
      exact (h.read _ _ _ _).patchRead _

theorem runCall_run (h : PatchRun U m₀ orig newerLen data inst m)
    (call : PatchCall) (hlen : (data ++ call.written).length < 2 ^ 31)
    (hrun : runCall U.io U.cfg call inst m = (some inst', m')) :
    PatchRun U m₀ orig newerLen (data ++ call.written) inst' m' := by
  cases call with
  | readPatch size =>
      simp only [PatchCall.written, List.append_nil]
      simp only [runCall, Prog.run_bind] at hrun
      rcases hread : doReadPatch U.io inst size m with ⟨⟨⟨_ | _, n, bytes⟩, inst₁⟩, m₁⟩
      · rw [hread] at hrun
        cases hrun
      · rw [hread] at hrun
        cases hrun
        exact doReadPatch_run h size hread
  | readOld addr size =>
      simp only [PatchCall.written, List.append_nil]
      obtain ⟨r, data, hread⟩ := ioRead_record U.backend inst.oldPart addr size m
      simp only [runCall, doReadOld, Prog.run_bind, Prog.run_pure, PatchSetup.io,
        hread] at hrun
      cases r with
      | none => cases hrun
      | some bytes =>
          cases hrun
          exact h.read _ _ _ _
  | writeNew chunk =>
      obtain ⟨r, m₁, hwrite, hsucc, -⟩ := doWriteNew_run h.toBuffering chunk hlen
      have hcall : doWriteNew U.io U.cfg inst chunk m = (some inst', m') := hrun
      rw [hwrite] at hcall
      cases hcall
      obtain ⟨hB, hfixed⟩ := hsucc inst' rfl
      have hpos : inst'.newerWritePos = inst.newerWritePos + chunk.length := by
        show inst'.fixed.newerWritePos = _
        rw [hfixed]
      have hnewer : inst'.newerFileLen = inst.newerFileLen := by
        show inst'.fixed.newerFileLen = _
        rw [hfixed]
        rfl
      refine ⟨hB, ?_, hnewer.trans h.newer⟩
      rw [hpos, h.newerPos, List.length_append]
      rfl

theorem runCalls_run (h : PatchRun U m₀ orig newerLen data inst m)
    (calls : List PatchCall) (hlen : (data ++ written calls).length < 2 ^ 31)
    (hrun : runCalls U.io U.cfg calls inst m = (some inst', m')) :
    PatchRun U m₀ orig newerLen (data ++ written calls) inst' m' := by
  induction calls generalizing inst m data with
  | nil =>
      cases hrun
      simpa [written] using h
  | cons call calls ih =>
      have hsplit : data ++ written (call :: calls) =
          (data ++ call.written) ++ written calls := by
        rw [written, List.flatMap_cons, List.append_assoc]
        rfl
      obtain ⟨inst₁, m₁, hcall, hrest⟩ := runCalls_cons hrun
      rw [hsplit, List.length_append] at hlen
      rw [hsplit]
      have h₁ := runCall_run h call (by omega) hcall
      exact ih h₁ (by rw [List.length_append]; exact hlen) hrest

theorem runCalls_writes_isSome (h : PatchRun U m₀ orig newerLen data inst m)
    (chunks : List (List UInt8)) (hlen : (data ++ chunks.flatten).length < 2 ^ 31)
    (hfits : BlocksFit U (data ++ chunks.flatten).length) :
    ∃ inst' m', runCalls U.io U.cfg (chunks.map .writeNew) inst m =
      (some inst', m') := by
  induction chunks generalizing inst m data with
  | nil => exact ⟨inst, m, rfl⟩
  | cons chunk chunks ih =>
      have hsplit : data ++ (chunk :: chunks).flatten =
          (data ++ chunk) ++ chunks.flatten := by
        rw [List.flatten_cons, List.append_assoc]
      rw [hsplit] at hlen hfits
      have hle : (data ++ chunk).length ≤
          ((data ++ chunk) ++ chunks.flatten).length := by
        have hmore := @List.length_append _ (data ++ chunk) chunks.flatten
        omega
      have hfit : BlocksFit U (data ++ chunk).length := by
        refine le_trans (up_mono ?_) hfits
        exact Nat.mul_le_mul_left _ (Nat.div_le_div_right hle)
      obtain ⟨r, m₁, hwrite, hsucc, hsome⟩ :=
        doWriteNew_run h.toBuffering chunk (by omega)
      obtain ⟨inst₁, rfl⟩ := Option.isSome_iff_exists.mp (hsome hfit)
      have h₁ := runCall_run h (.writeNew chunk)
        (show (data ++ chunk).length < _ by omega) hwrite
      obtain ⟨inst', m', hrest⟩ := ih h₁ hlen hfits
      refine ⟨inst', m', ?_⟩
      have hcall : runCall U.io U.cfg (.writeNew chunk) inst m =
          (some inst₁, m₁) := hwrite
      rw [List.map_cons, runCalls, Prog.run_bind, hcall]
      exact hrest

/-! ## From the start to the tail erase -/

/-- The device that a patch session starts on: steady power, the old partition
with its geometry, and the swap area of the selected backend. -/
structure PatchSetup.Ready (U : PatchSetup) (m : Machine FlashDev κ) : Prop where
  power : m.dev.power = .steady
  size : (m.dev.region U.old.target).size = U.size
  unit : (m.dev.region U.old.target).unit = U.unit
  swap : match U.swap with
    | .ram => U.cfg.useStorageSwap = false ∧ U.cfg.ramBufSize = U.capacity
    | .flash part _ => U.cfg.useStorageSwap = true ∧ part = ⟨.swap, 0⟩ ∧
        0 < (m.dev.region .swap).unit ∧
        (m.dev.region .swap).size = U.cfg.swapOffset + U.capacity

def PatchSetup.oldCells (U : PatchSetup) (m : Machine FlashDev κ) :
    Nat → UInt8 :=
  (m.dev.region U.old.target).cells

def PatchSetup.start (U : PatchSetup) (patchPart : Handle) (patchLen newerLen : Int)
    (patchOff : Nat) : HpatchInst :=
  hpatchStart patchPart U.old patchLen newerLen patchOff U.unit

theorem oldPart_start (hready : U.Ready m) (data : List UInt8) :
    OldPart U m (U.oldCells m) data 0 0 m where
  size := hready.size
  unit := hready.unit
  cells := by rw [front_zero, PatchSetup.oldCells]
  aligned := Nat.dvd_zero _
  le := le_refl _
  fits := Nat.zero_le _
  record := ⟨[], by simp, advanced_nil, by simp⟩

theorem swapInit_run (hready : U.Ready m) (patchPart : Handle)
    (patchLen newerLen : Int) (patchOff : Nat) :
    ∃ inst m', swapInit U.io U.cfg (U.start patchPart patchLen newerLen patchOff) m =
        (some inst, m') ∧ PatchRun U m (U.oldCells m) newerLen [] inst m' := by
  have hswap := hready.swap
  have hserves := U.serves
  have hcap := U.capacity_lt
  have hpos := U.capacity_pos
  unfold swapInit
  cases hU : U.swap with
  | ram =>
      rw [hU] at hswap
      obtain ⟨hstorage, hsize⟩ := hswap
      refine ⟨{ U.start patchPart patchLen newerLen patchOff with
        swap := .ram, capacity := U.cfg.ramBufSize, writePos := 0 }, m, ?_, ?_⟩
      · rw [hstorage]
        rfl
      · refine ⟨⟨⟨hready.power, hU.symm, rfl, rfl, congrArg _ hsize,
          (up_zero _).symm, rfl, Nat.zero_le _, oldPart_start hready [], ?_⟩,
          hpos, Nat.dvd_zero _⟩, rfl, rfl⟩
        rw [SwapHolds, hU]
        rfl
  | flash part n =>
      rw [hU] at hswap hserves
      obtain ⟨hstorage, rfl, hunit, hsize⟩ := hswap
      obtain ⟨rfl, hne, -⟩ := hserves
      have hopen : targetOpen U.io .swap .writeCreate m =
          ((some ⟨.swap, 0⟩, some (m.dev.region .swap).size),
            m.record [.opened .swap true]) :=
        targetOpen_region (by omega) _
      have hlen : (m.dev.region .swap).size - U.cfg.swapOffset = U.capacity := by
        omega
      have hroom : ¬(m.dev.region .swap).size ≤ U.cfg.swapOffset := by omega
      -- the swap area is erased once before it is used
      generalize hm₁ : m.record [.opened .swap true] = m₁ at hopen
      have hpower₁ : m₁.dev.power = .steady := by rw [← hm₁]; exact hready.power
      have hregion : m₁.dev.region .swap = m.dev.region .swap := by rw [← hm₁]; rfl
      have hfits : Fits m₁ ⟨.swap, 0⟩ U.cfg.swapOffset U.capacity := by
        rw [Fits, hregion]
        exact ⟨by omega, by omega⟩
      have hold : OldPart U m (U.oldCells m) [] 0 0 m₁ := by
        rw [← hm₁]
        exact (oldPart_start hready []).recorded rfl (by simp)
      have hrec : Traced m m₁ (SwapRecord .swap (m.dev.region .swap).unit
          U.cfg.swapOffset U.capacity U.capacity) := by
        rw [← hm₁]
        exact ⟨_, rfl, Trace.along_nil, fun a hlo hhi => by omega⟩
      refine ⟨{ U.start patchPart patchLen newerLen patchOff with
        swap := .flash ⟨.swap, 0⟩ U.capacity, capacity := i32 U.capacity
        writePos := 0 }, m₁.storing .swap
          ((m₁.dev.region .swap).erase U.cfg.swapOffset U.capacity)
          [.erased .swap U.cfg.swapOffset U.capacity true], ?_, ?_⟩
      · rw [hstorage]
        simp only [if_true, Prog.run_bind, hopen, if_neg hroom, hlen]
        rw [PatchSetup.io, eraseWithFeed_steady hpower₁ hfits]
        rfl
      · refine ⟨⟨⟨hpower₁, hU.symm, rfl, rfl, if_pos hcap, (up_zero _).symm, rfl,
          Nat.zero_le _, hold.frame (onlyOn_erased _ _ _ _ _) hne.symm, ?_⟩,
          hpos, Nat.dvd_zero _⟩, rfl, rfl⟩
        rw [SwapHolds, hU]
        simp only [Machine.storing_same, hregion, Region.unit_erase,
          Region.size_erase]
        exact ⟨hunit, hsize.ge, rfl,
          hrec.concat rfl fun new hnew => hnew.erase hunit⟩

structure Finished (U : PatchSetup) (m₀ : Machine FlashDev κ)
    (orig : Nat → UInt8) (newerLen : Int) (data : List UInt8)
    (inst : HpatchInst) (m : Machine FlashDev κ) : Prop
    extends Patching U m₀ orig data inst m where
  done : inst.committedLen = data.length
  newer : inst.newerFileLen = newerLen

theorem patchSession_run (hready : U.Ready m) (patchPart : Handle)
    (patchLen newerLen : Int) (patchOff : Nat) (calls : List PatchCall)
    (hlen : (written calls).length < 2 ^ 31)
    (hrun : patchSession U.io U.cfg (U.start patchPart patchLen newerLen patchOff)
      calls m = (some inst, m')) :
    up (written calls).length U.unit ≤ U.size ∧
      Finished U m (U.oldCells m) newerLen (written calls) inst m' := by
  obtain ⟨inst₀, m₁, hinit, hstart⟩ :=
    swapInit_run hready patchPart patchLen newerLen patchOff
  rw [patchSession, Prog.run_bind, hinit] at hrun
  simp only [Prog.run_bind] at hrun
  rcases hcalls : runCalls U.io U.cfg calls inst₀ m₁ with ⟨_ | inst₁, m₂⟩
  · rw [hcalls] at hrun
    cases hrun
  rw [hcalls] at hrun
  have hR := runCalls_run hstart calls hlen hcalls
  rw [List.nil_append] at hR
  obtain ⟨hfit, rfl, hP⟩ := swapCommit_some hR.toPatching hlen hrun
  exact ⟨hfit, hP, rfl, hR.newer⟩

theorem patchSession_isSome (hready : U.Ready m) (patchPart : Handle)
    (patchLen newerLen : Int) (patchOff : Nat) (chunks : List (List UInt8))
    (hlen : chunks.flatten.length < 2 ^ 31)
    (hfit : up chunks.flatten.length U.unit ≤ U.size) :
    ∃ inst m', patchSession U.io U.cfg
      (U.start patchPart patchLen newerLen patchOff) (chunks.map .writeNew) m =
        (some inst, m') := by
  obtain ⟨inst₀, m₁, hinit, hstart⟩ :=
    swapInit_run hready patchPart patchLen newerLen patchOff
  have hblocks : BlocksFit U ([] ++ chunks.flatten).length :=
    (up_mono (Nat.mul_div_le _ _)).trans hfit
  obtain ⟨inst₁, m₂, hcalls⟩ := runCalls_writes_isSome hstart chunks hlen hblocks
  have hwritten : (written (chunks.map .writeNew)).length < 2 ^ 31 := by
    rwa [written_writes]
  have hR := runCalls_run hstart _ hwritten hcalls
  rw [written_writes, List.nil_append] at hR
  obtain ⟨m₃, hcommit, -⟩ := swapCommit_run hR.toPatching hlen hfit
  refine ⟨inst₁.committedAll U chunks.flatten, m₃, ?_⟩
  rw [patchSession, Prog.run_bind, hinit]
  simp only [Prog.run_bind, hcalls]
  exact hcommit

/-- The tail erase reaches the end of the partition, unless the partition is so
long that its length is negative as `int`. -/
theorem hpatchFinish_run (hF : Finished U m₀ orig data.length data inst m)
    (hlen : data.length < 2 ^ 31) (hword : U.size < 2 ^ 32) :
    ∃ b erased m', hpatchFinish U.io inst m = (b, m') ∧
      OldPart U m₀ orig data data.length erased m' ∧
      SwapHolds U m₀ inst.ramBuf [] m' ∧
      (U.unit ∣ U.size → erased =
        if U.size < 2 ^ 31 then U.size else up data.length U.unit) := by
  have hold := hF.old
  have herased := hF.erased
  have hunit := U.unit_le
  have hend := le_up (x := data.length) U.unit_pos
  have hpending : SwapHolds U m₀ inst.ramBuf [] m := by
    have h := hF.pending
    rwa [hF.done, List.drop_length] at h
  rw [hF.done] at herased hold
  have hfit : up data.length U.unit ≤ U.size := herased ▸ hold.fits
  have hsize : (m.dev.region inst.oldPart.target).size = U.size := by
    rw [hF.oldPart, hold.size]
  have hnewer : sizeT inst.newerFileLen = data.length := by
    rw [hF.newer, sizeT, Int.emod_eq_of_lt (by omega) (by omega)]
    exact Int.toNat_natCast _
  have hfinish : hpatchFinish U.io inst m =
      (do
        let erased ← if inst.newerFileLen < i32 U.size then
            eraseAlignedRange U.io inst data.length U.size true
          else pure (some inst)
        match erased with
        | none => pure false
        | some inst => pure ((inst.committedLen : Int) = inst.newerFileLen) :
        Prog (Machine FlashDev κ) Bool) m := by
    rw [← hnewer, ← hsize]
    rfl
  rw [hfinish]
  by_cases htail : data.length < U.size ∧ U.size < 2 ^ 31
  · have hshort : inst.newerFileLen < i32 U.size := by
      rw [hF.newer, i32, if_pos htail.2]
      exact_mod_cast htail.1
    have hstart : (if true then up data.length U.unit
        else down data.length U.unit) ≤ inst.erasedEnd := herased.ge
    rw [if_pos hshort, Prog.run_bind]
    by_cases hdvd : U.unit ∣ U.size
    · have hsizeUp : up U.size U.unit = U.size := up_of_dvd U.unit_pos hdvd
      obtain ⟨m', herase, hold', honly⟩ := eraseAlignedRange_run hold hF.power
        hF.oldPart hF.sector data.length U.size true htail.1 (by omega) hstart
        hsizeUp.le
      rw [herase]
      refine ⟨_, _, m', rfl, hold', hpending.frame honly, fun _ => ?_⟩
      rw [if_pos htail.2, hsizeUp, herased, Nat.max_eq_right hfit]
    · have hout : U.size < up U.size U.unit := by
        refine lt_of_le_of_ne (le_up U.unit_pos) fun heq => hdvd ?_
        rw [heq]
        exact dvd_up _ _
      obtain ⟨off, len, herase⟩ := eraseAlignedRange_outside hold hF.oldPart
        hF.sector data.length U.size true htail.1 (by omega) hstart hout
      rw [herase]
      exact ⟨_, _, _, rfl, hold.recorded rfl (by simp),
        hpending.recorded fun _ => rfl, fun h => absurd h hdvd⟩
  · have hlong : ¬inst.newerFileLen < i32 U.size := by
      rw [hF.newer, i32]
      split <;> omega
    rw [if_neg hlong]
    refine ⟨_, _, m, rfl, hold, hpending, fun _ => ?_⟩
    rw [herased]
    split <;> omega

/-! ## The image and the flash discipline -/

/-- The record of a patch: every commit left the erased end on the unit boundary
behind the committed length, and flash was used with discipline. -/
structure PatchRecord (U : PatchSetup) (swapUnit : Nat) (new : List Event) :
    Prop where
  commits : ∀ len stop, Event.committed len stop ∈ new → stop = up len U.unit
  erases : ∀ a, eraseCount U.unit (opsOn U.old.target new) a ≤ 1
  programs : ∀ a, programCount (opsOn U.old.target new) a ≤ 1
  disciplined : Disciplined U.unit (opsOn U.old.target new)
  swapDisciplined : ∀ part n, U.swap = .flash part n →
    Disciplined swapUnit (opsOn part.target new)

/-- The old partition starts with `data`, was rewritten with discipline, and is
erased behind the data. -/
structure Rewritten (U : PatchSetup) (m₀ : Machine FlashDev κ)
    (data : List UInt8) (m : Machine FlashDev κ) : Prop where
  content : ((m.dev.region U.old.target).read 0 data.length).1 = data
  record : Traced m₀ m (PatchRecord U (m.dev.region .swap).unit)
  tail : U.unit ∣ U.size → ∀ a, data.length ≤ a → a < U.size →
    U.oldCells m a = erasedByte

theorem rewritten_iff {erased : Nat} {buf : List UInt8}
    (hflash : ∀ part n, U.swap = .flash part n → part.target = .swap)
    (hold : OldPart U m₀ orig data data.length erased m)
    (hswap : SwapHolds U m₀ buf [] m) :
    Rewritten U m₀ data m ↔ (U.unit ∣ U.size → ∀ a, data.length ≤ a →
      a < U.size → U.oldCells m a = erasedByte) := by
  refine ⟨Rewritten.tail, fun htail => ⟨read_front hold.cells rfl, ?_, htail⟩⟩
  have hdisciplined : ∀ part n, U.swap = .flash part n → Traced m₀ m fun new =>
      Disciplined (m.dev.region .swap).unit (opsOn part.target new) := by
    intro part n hU
    have hpart := hflash part n hU
    rw [SwapHolds, hU] at hswap
    obtain ⟨-, -, -, hrec⟩ := hswap
    rw [hpart] at hrec ⊢
    exact hrec.imp fun new hnew => hnew.disciplined
  obtain ⟨new, hlog, hrec⟩ := hold.record
  refine ⟨new, hlog, hrec.commits, ?_, ?_, hrec.ops.disciplined, ?_⟩
  · intro a
    rw [hrec.ops.erases a]
    split <;> omega
  · intro a
    rw [hrec.ops.programs a]
    split <;> omega
  · intro part n hU
    obtain ⟨new', hlog', hdisc⟩ := hdisciplined part n hU
    have hsame : new' = new := List.append_cancel_left (hlog'.symm.trans hlog)
    rw [← hsame]
    exact hdisc

/-- A session that only writes succeeds exactly when its data, rounded up to
erase units, fits the partition.  It then rewrites the partition in place with
discipline, and the tail erase leaves nothing behind the data exactly when the
length of the partition is not negative as `int`, or there was nothing left. -/
theorem patchSession_rewrites_iff (U : PatchSetup) {m : Machine FlashDev κ}
    (hready : U.Ready m) (hword : U.size < 2 ^ 32) (patchPart : Handle)
    (patchLen : Int) (patchOff : Nat) (chunks : List (List UInt8))
    (hlen : chunks.flatten.length < 2 ^ 31) :
    ((patchSession U.io U.cfg
        (U.start patchPart patchLen chunks.flatten.length patchOff)
        (chunks.map .writeNew) m).1.isSome ↔
      up chunks.flatten.length U.unit ≤ U.size) ∧
    ∀ inst m₁, patchSession U.io U.cfg
        (U.start patchPart patchLen chunks.flatten.length patchOff)
        (chunks.map .writeNew) m = (some inst, m₁) →
      (Rewritten U m chunks.flatten (hpatchFinish U.io inst m₁).2 ↔
        (U.unit ∣ U.size → U.size < 2 ^ 31 ∨
          ∀ a, up chunks.flatten.length U.unit ≤ a → a < U.size →
            U.oldCells m a = erasedByte)) := by
  have hwritten : (written (chunks.map .writeNew)).length < 2 ^ 31 := by
    rwa [written_writes]
  constructor
  · constructor
    · intro hsome
      obtain ⟨inst, hinst⟩ := Option.isSome_iff_exists.mp hsome
      have hrun := patchSession_run hready patchPart patchLen
        chunks.flatten.length patchOff _ hwritten (Prod.ext hinst rfl)
      rw [written_writes] at hrun
      exact hrun.1
    · intro hfit
      obtain ⟨inst, m', hrun⟩ := patchSession_isSome hready patchPart patchLen
        chunks.flatten.length patchOff chunks hlen hfit
      rw [hrun]
      rfl
  intro inst m₁ hrun
  obtain ⟨hfit, hF⟩ := patchSession_run hready patchPart patchLen _ patchOff _
    hwritten hrun
  rw [written_writes] at hfit hF
  obtain ⟨b, erased, m₂, hfinish, hold, hswap, hend⟩ :=
    hpatchFinish_run hF hlen hword
  have hflash : ∀ part n, U.swap = .flash part n → part.target = .swap := by
    intro part n hU
    have hswap := hready.swap
    rw [hU] at hswap
    exact congrArg Handle.target hswap.2.1
  rw [hfinish, rewritten_iff hflash hold hswap]
  refine forall_congr' fun hdvd => ?_
  have hge := le_up (x := chunks.flatten.length) U.unit_pos
  have herased := hend hdvd
  constructor
  · intro htail
    by_cases hshort : U.size < 2 ^ 31
    · exact .inl hshort
    · refine .inr fun a hlo hhi => ?_
      have hcell := htail a (by omega) hhi
      rw [if_neg hshort] at herased
      rwa [PatchSetup.oldCells, hold.cells, front_of_ge hold.le (by omega)] at hcell
  · intro hcond a hlo hhi
    rw [PatchSetup.oldCells, hold.cells, front, if_neg (by omega)]
    by_cases ha : a < erased
    · rw [if_pos ha]
    · rw [if_neg ha]
      rcases hcond with hshort | hcond
      · rw [if_pos hshort] at herased
        omega
      · refine hcond a ?_ hhi
        split at herased <;> omega

def swapPartition : PatchSetup where
  backend := fun _ => .fal
  cfg := ⟨true, 0, 8, 0, none⟩
  old := ⟨.app, 0⟩
  swap := .flash ⟨.swap, 0⟩ 16
  exp := 2
  size := 64
  capacity := 16
  exp_le := by decide
  capacity_pos := by decide
  capacity_lt := by decide
  serves := ⟨rfl, by decide, by decide⟩

def smallFlash : Machine FlashDev Unit :=
  steadyMachine (fun
    | .swap => ⟨16, 4, fun _ => 0⟩
    | _ => ⟨64, 4, fun a => if a < 20 then 7 else 0xFF⟩) ()

theorem swapPartition_ready : swapPartition.Ready smallFlash :=
  ⟨rfl, rfl, rfl, rfl, rfl, by decide, rfl⟩

theorem swapPartition_rewrites :
    ∃ inst m₁, patchSession swapPartition.io swapPartition.cfg
        (swapPartition.start ⟨.download, 0⟩ 10 5 96)
        (List.map .writeNew [[1, 2], [], [3, 4, 5]]) smallFlash = (some inst, m₁) ∧
      Rewritten swapPartition smallFlash [1, 2, 3, 4, 5]
        (hpatchFinish swapPartition.io inst m₁).2 := by
  obtain ⟨hsome, hiff⟩ := patchSession_rewrites_iff swapPartition
    swapPartition_ready (by decide) ⟨.download, 0⟩ 10 96 [[1, 2], [], [3, 4, 5]]
    (by decide)
  obtain ⟨inst, hinst⟩ := Option.isSome_iff_exists.mp (hsome.mpr (by decide))
  refine ⟨inst, _, Prod.ext hinst rfl, ?_⟩
  exact (hiff inst _ (Prod.ext hinst rfl)).mpr fun _ => .inl (by decide)

/-- A partition of 2 GiB with one-byte erase units, patched through a RAM buffer
of one byte. -/
def longPartition : PatchSetup where
  backend := fun _ => .fal
  cfg := ⟨false, 0, 0, 1, none⟩
  old := ⟨.app, 0⟩
  swap := .ram
  exp := 0
  size := 2 ^ 31
  capacity := 1
  exp_le := by decide
  capacity_pos := by decide
  capacity_lt := by decide
  serves := trivial

/-- The length is negative as `int`, so the tail is not erased at all. -/
theorem longPartition_tail_left :
    let m : Machine FlashDev Unit :=
      steadyMachine (fun _ => ⟨2 ^ 31, 1, fun _ => 0⟩) ()
    longPartition.Ready m ∧ ∃ inst m₁,
      patchSession longPartition.io longPartition.cfg
        (longPartition.start ⟨.download, 0⟩ 10 1 96) [.writeNew [1]] m =
          (some inst, m₁) ∧
      ¬Rewritten longPartition m [1] (hpatchFinish longPartition.io inst m₁).2 := by
  refine ⟨⟨rfl, rfl, rfl, rfl, rfl⟩, _, _, rfl, fun h => ?_⟩
  have hcell := h.tail (one_dvd _) 5 (by decide) (by decide)
  exact absurd hcell (by decide)

/-! ## Old data behind the front -/

/-- When the patcher has written `w` bytes, the old content from `w` on is
unchanged exactly when the erase unit at the end of the committed blocks held
nothing behind `w`. -/
theorem runCalls_keeps_old_iff (U : PatchSetup) {m : Machine FlashDev κ}
    (hready : U.Ready m) (patchPart : Handle) (patchLen newerLen : Int)
    (patchOff : Nat) (calls : List PatchCall)
    (hlen : (written calls).length < 2 ^ 31) {inst inst' : HpatchInst}
    {m₁ m' : Machine FlashDev κ}
    (hinit : swapInit U.io U.cfg (U.start patchPart patchLen newerLen patchOff) m =
      (some inst, m₁))
    (hrun : runCalls U.io U.cfg calls inst m₁ = (some inst', m')) :
    (∀ a, inst'.newerWritePos ≤ a → U.oldCells m' a = U.oldCells m a) ↔
      ∀ a, (written calls).length ≤ a →
        a < up (U.capacity * ((written calls).length / U.capacity)) U.unit →
        U.oldCells m a = erasedByte := by
  obtain ⟨inst₀, m₀, hinit₀, hstart⟩ :=
    swapInit_run hready patchPart patchLen newerLen patchOff
  rw [hinit] at hinit₀
  cases hinit₀
  have hR := runCalls_run hstart calls hlen hrun
  rw [List.nil_append] at hR
  have hdone : inst'.committedLen ≤ (written calls).length := by
    have := hR.total
    omega
  have herased := hR.erased
  rw [hR.toBuffering.committedLen_eq] at herased
  rw [hR.newerPos, ← herased]
  have hcell (a : Nat) (ha : (written calls).length ≤ a) : U.oldCells m' a =
      if a < inst'.erasedEnd then erasedByte else U.oldCells m a := by
    rw [PatchSetup.oldCells, hR.old.cells, front, if_neg (by omega)]
  refine forall_congr' fun a => ?_
  refine forall_congr' fun ha => ?_
  rw [hcell a ha]
  by_cases hin : a < inst'.erasedEnd
  · rw [if_pos hin]
    exact ⟨fun h _ => h.symm, fun h => (h hin).symm⟩
  · rw [if_neg hin]
    exact ⟨fun _ h => absurd h hin, fun _ => rfl⟩

theorem swapPartition_keeps_old :
    ∃ inst m₁ inst' m',
      swapInit swapPartition.io swapPartition.cfg
        (swapPartition.start ⟨.download, 0⟩ 10 40 96) smallFlash =
          (some inst, m₁) ∧
      runCalls swapPartition.io swapPartition.cfg
        [.writeNew (List.replicate 17 1)] inst m₁ = (some inst', m') ∧
      ∀ a, inst'.newerWritePos ≤ a →
        swapPartition.oldCells m' a = swapPartition.oldCells smallFlash a := by
  obtain ⟨inst, m₁, hinit, hstart⟩ :=
    swapInit_run swapPartition_ready ⟨.download, 0⟩ 10 40 96
  obtain ⟨inst', m', hrun⟩ := runCalls_writes_isSome hstart
    [List.replicate 17 1] (by decide) (by unfold BlocksFit; decide)
  refine ⟨inst, m₁, inst', m', hinit, hrun, ?_⟩
  refine (runCalls_keeps_old_iff swapPartition swapPartition_ready
    ⟨.download, 0⟩ 10 40 96 [.writeNew (List.replicate 17 1)] (by decide)
    hinit hrun).mpr fun a hlo hhi => ?_
  -- 17 bytes written, 16 of them committed, and 16 is a unit boundary
  have hlo' : 17 ≤ a := hlo
  have hhi' : a < 16 := hhi
  omega

/-- A buffer that is larger than the erase unit but no multiple of it. -/
def unevenBuffer : PatchSetup where
  backend := fun _ => .fal
  cfg := ⟨false, 0, 0, 5, none⟩
  old := ⟨.app, 0⟩
  swap := .ram
  exp := 2
  size := 64
  capacity := 5
  exp_le := by decide
  capacity_pos := by decide
  capacity_lt := by decide
  serves := trivial

/-- After the first commit of 5 bytes the unit up to byte 8 is erased, while the
patcher may still read the old bytes 5 to 7. -/
theorem unevenBuffer_loses_old :
    let m : Machine FlashDev Unit :=
      steadyMachine (fun _ => ⟨64, 4, fun _ => 0⟩) ()
    unevenBuffer.Ready m ∧ unevenBuffer.unit ≤ unevenBuffer.capacity ∧
      ∃ inst m₁ inst' m',
        swapInit unevenBuffer.io unevenBuffer.cfg
          (unevenBuffer.start ⟨.download, 0⟩ 10 20 96) m = (some inst, m₁) ∧
        runCalls unevenBuffer.io unevenBuffer.cfg [.writeNew [1, 2, 3, 4, 5]]
          inst m₁ = (some inst', m') ∧
        (doReadOld unevenBuffer.io inst' 5 3 m').1 = some [0xFF, 0xFF, 0xFF] ∧
        ¬∀ a, inst'.newerWritePos ≤ a →
          unevenBuffer.oldCells m' a = unevenBuffer.oldCells m a := by
  refine ⟨⟨rfl, rfl, rfl, rfl, rfl⟩, by decide, _, _, _, _, rfl, rfl,
    by decide, fun h => ?_⟩
  exact absurd (h 5 (by decide)) (by decide)

end Qboot
