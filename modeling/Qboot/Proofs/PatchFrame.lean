import Qboot.Model.Hpatch
/-!
# What a patching run leaves alone

The files that `_do_write_new` and the commits work on, and the place in the patch,
are those the instance started with.
-/

namespace Qboot

open Library Bytes Machine Loop

variable {σ κ : Type}

/-- Both instances stand at the same place of the same patch, over the same files. -/
structure SameFiles (inst inst' : HpatchInst) : Prop where
  patchFileOffset : inst'.patchFileOffset = inst.patchFileOffset
  patchFileLen : inst'.patchFileLen = inst.patchFileLen
  patchReadPos : inst'.patchReadPos = inst.patchReadPos
  patchPart : inst'.patchPart = inst.patchPart
  oldPart : inst'.oldPart = inst.oldPart
  swap : inst'.swap = inst.swap

namespace SameFiles

variable {inst inst' inst'' : HpatchInst}

theorem refl (inst : HpatchInst) : SameFiles inst inst := ⟨rfl, rfl, rfl, rfl, rfl, rfl⟩

theorem trans (h : SameFiles inst inst') (h' : SameFiles inst' inst'') :
    SameFiles inst inst'' where
  patchFileOffset := h'.patchFileOffset.trans h.patchFileOffset
  patchFileLen := h'.patchFileLen.trans h.patchFileLen
  patchReadPos := h'.patchReadPos.trans h.patchReadPos
  patchPart := h'.patchPart.trans h.patchPart
  oldPart := h'.oldPart.trans h.oldPart
  swap := h'.swap.trans h.swap

end SameFiles

/-- Only the state of the swap area and what has been committed differ. -/
def SwapOnly (inst inst' : HpatchInst) : Prop :=
  ∃ ramBuf writePos committedLen erasedEnd, inst' =
    { inst with
      ramBuf := ramBuf
      writePos := writePos
      committedLen := committedLen
      erasedEnd := erasedEnd }

namespace SwapOnly

variable {inst inst' inst'' : HpatchInst}

theorem refl (inst : HpatchInst) : SwapOnly inst inst := ⟨_, _, _, _, rfl⟩

theorem trans (h : SwapOnly inst inst') (h' : SwapOnly inst' inst'') :
    SwapOnly inst inst'' := by
  obtain ⟨_, _, _, _, rfl⟩ := h
  obtain ⟨ramBuf, writePos, committedLen, erasedEnd, rfl⟩ := h'
  exact ⟨ramBuf, writePos, committedLen, erasedEnd, rfl⟩

theorem sameFiles (h : SwapOnly inst inst') : SameFiles inst inst' := by
  obtain ⟨_, _, _, _, rfl⟩ := h
  exact ⟨rfl, rfl, rfl, rfl, rfl, rfl⟩

theorem newerWritePos (h : SwapOnly inst inst') :
    inst'.newerWritePos = inst.newerWritePos := by
  obtain ⟨_, _, _, _, rfl⟩ := h
  rfl

theorem newerFileLen (h : SwapOnly inst inst') :
    inst'.newerFileLen = inst.newerFileLen := by
  obtain ⟨_, _, _, _, rfl⟩ := h
  rfl

end SwapOnly

section Steps

open Prog

def KeepsFiles (inst : HpatchInst) (r : Option HpatchInst) : Prop :=
  ∀ inst', r = some inst' → SameFiles inst inst'

/-- If there is an instance, it differs from `inst` in its swap state only. -/
def MovesSwap (inst : HpatchInst) (r : Option HpatchInst) : Prop :=
  ∀ inst', r = some inst' → SwapOnly inst inst'

theorem keepsFiles_some {inst inst' : HpatchInst} (h : SameFiles inst inst') :
    KeepsFiles inst (some inst') :=
  fun _ hsome => Option.some.inj hsome ▸ h

theorem movesSwap_none (inst : HpatchInst) : MovesSwap inst none :=
  fun _ hsome => absurd hsome.symm (Option.some_ne_none _)

theorem movesSwap_some {inst inst' : HpatchInst} (h : SwapOnly inst inst') :
    MovesSwap inst (some inst') :=
  fun _ hsome => Option.some.inj hsome ▸ h

theorem MovesSwap.keepsFiles {inst : HpatchInst} {r : Option HpatchInst}
    (h : MovesSwap inst r) : KeepsFiles inst r :=
  fun inst' hsome => (h inst' hsome).sameFiles

variable (io : IoOps σ) (cfg : HpatchConfig) (inst : HpatchInst)

theorem movesSwap_swapAppend (data : List UInt8) :
    Yields (MovesSwap inst) (swapAppend io cfg inst data : Prog (Machine σ κ) _) := by
  have hmoved : SwapOnly inst { inst with writePos := inst.writePos + data.length } :=
    ⟨_, _, _, _, rfl⟩
  unfold swapAppend
  split
  · exact .pure (movesSwap_some ⟨_, _, _, _, rfl⟩)
  · exact (Yields.any _).bind fun _ _ =>
      .ite (.pure (movesSwap_some hmoved)) (.pure (movesSwap_none inst))

theorem movesSwap_swapReset :
    Yields (MovesSwap inst) (swapReset io cfg inst : Prog (Machine σ κ) _) := by
  have hmoved : SwapOnly inst { inst with writePos := 0 } := ⟨_, _, _, _, rfl⟩
  unfold swapReset
  split
  · exact .pure (movesSwap_some hmoved)
  · exact (Yields.any _).bind fun _ _ =>
      .ite (.pure (movesSwap_some hmoved)) (.pure (movesSwap_none inst))

theorem movesSwap_eraseAlignedRange (start stop : Nat) (up : Bool) :
    Yields (MovesSwap inst)
      (eraseAlignedRange io inst start stop up : Prog (Machine σ κ) _) := by
  have hsame := movesSwap_some (SwapOnly.refl inst)
  refine .ite (.pure hsame) (.ite (.pure hsame) (.ite ?_ (.pure hsame)))
  exact (Yields.any _).bind fun _ _ => .ite
    (.pure (movesSwap_some ⟨_, _, _, _, rfl⟩)) (.pure (movesSwap_none inst))

theorem movesSwap_swapCommit :
    Yields (MovesSwap inst) (swapCommit io cfg inst : Prog (Machine σ κ) _) := by
  refine .ite (.pure (movesSwap_some (.refl inst))) ?_
  refine (movesSwap_eraseAlignedRange io inst _ _ _).bind fun r hr => ?_
  rcases r with _ | mid
  · exact .pure (movesSwap_none inst)
  have hmid : SwapOnly inst { mid with
      committedLen := mid.committedLen + inst.writePos } :=
    (hr mid rfl).trans ⟨_, _, _, _, rfl⟩
  refine (Yields.any _).bind fun _ _ => .ite ?_ (.pure (movesSwap_none inst))
  refine (Yields.any _).bind fun _ _ => (movesSwap_swapReset io cfg _).imp ?_
  intro r hreset last hlast
  exact hmid.trans (hreset last hlast)

theorem movesSwap_writeNewRound {c : HpatchInst × List UInt8} (hc : SwapOnly inst c.1) :
    Yields (Leads (fun c => SwapOnly inst c.1) (MovesSwap inst))
      (writeNewRound io cfg c : Prog (Machine σ κ) _) := by
  refine .ite (.pure (movesSwap_some hc)) ?_
  have happend (chunk : Nat) : Yields (MovesSwap c.1) (if 0 < chunk then
      swapAppend io cfg c.1 (c.2.take chunk) else pure (some c.1) :
        Prog (Machine σ κ) (Option HpatchInst)) :=
    .ite (movesSwap_swapAppend io cfg c.1 _) (.pure (movesSwap_some (.refl c.1)))
  refine (happend _).bind fun r hr => ?_
  rcases r with _ | mid
  · exact .pure (movesSwap_none inst)
  have hmid := hc.trans (hr mid rfl)
  refine .ite ((movesSwap_swapCommit io cfg mid).bind fun r hr => ?_) (.pure hmid)
  rcases r with _ | last
  · exact .pure (movesSwap_none inst)
  · exact .pure (hmid.trans (hr last rfl))

theorem doWriteNew_moves (data : List UInt8) :
    Yields (fun r => ∀ inst', r = some inst' → ∃ mid, SwapOnly inst mid ∧
        inst' = { mid with newerWritePos := mid.newerWritePos + data.length })
      (doWriteNew io cfg inst data : Prog (Machine σ κ) _) := by
  refine (yields_iterate (fun c hc => movesSwap_writeNewRound io cfg inst hc) _ _
    (SwapOnly.refl inst)).bind fun r hr => .pure ?_
  rcases r with _ | _ | mid
  · exact fun inst' hsome => nomatch hsome
  · exact fun inst' hsome => nomatch hsome
  · intro inst' hsome
    exact ⟨mid, hr _ rfl mid rfl, (Option.some.inj hsome).symm⟩

/-! ## The files -/

theorem keepsFiles_swapAppend (data : List UInt8) :
    Yields (KeepsFiles inst) (swapAppend io cfg inst data : Prog (Machine σ κ) _) :=
  (movesSwap_swapAppend io cfg inst data).imp fun _ h => h.keepsFiles

theorem keepsFiles_eraseAlignedRange (start stop : Nat) (up : Bool) :
    Yields (KeepsFiles inst)
      (eraseAlignedRange io inst start stop up : Prog (Machine σ κ) _) :=
  (movesSwap_eraseAlignedRange io inst start stop up).imp fun _ h => h.keepsFiles

theorem keepsFiles_swapCommit :
    Yields (KeepsFiles inst) (swapCommit io cfg inst : Prog (Machine σ κ) _) :=
  (movesSwap_swapCommit io cfg inst).imp fun _ h => h.keepsFiles

theorem keepsFiles_writeNewRound {c : HpatchInst × List UInt8} (hc : SameFiles inst c.1) :
    Yields (Leads (fun c => SameFiles inst c.1) (KeepsFiles inst))
      (writeNewRound io cfg c : Prog (Machine σ κ) _) := by
  refine (movesSwap_writeNewRound io cfg c.1 (SwapOnly.refl c.1)).imp ?_
  intro r hr
  cases r with
  | again c' => exact hc.trans (SwapOnly.sameFiles hr)
  | done last => exact fun inst' hsome => hc.trans (hr inst' hsome).sameFiles

theorem keepsFiles_doWriteNew (data : List UInt8) :
    Yields (KeepsFiles inst) (doWriteNew io cfg inst data : Prog (Machine σ κ) _) := by
  refine (doWriteNew_moves io cfg inst data).imp ?_
  intro r hr inst' hsome
  obtain ⟨mid, hmid, rfl⟩ := hr inst' hsome
  have hkept := hmid.sameFiles
  exact ⟨hkept.patchFileOffset, hkept.patchFileLen, hkept.patchReadPos,
    hkept.patchPart, hkept.oldPart, hkept.swap⟩

end Steps

end Qboot
