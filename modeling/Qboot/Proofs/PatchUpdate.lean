import Qboot.Proofs.RegionInstall
import Qboot.Proofs.StagePairing
/-!
# Updating with a patch

What an update makes of a patch.  Whether the patch applies is up to the vendor's library;
behind it the update goes on as with a full image.
-/

namespace Qboot

open Library Prog Machine

variable {σ κ : Type}

/-! ## The record in pieces -/

theorem Untouched.middle {id : TargetId} {m₀ m₁ m₂ m₃ : Machine σ κ} (h : Untouched id m₀ m₃)
    (hfirst : Grows m₀ m₁) (hmid : Grows m₁ m₂) (hlast : Grows m₂ m₃) : Untouched id m₁ m₂ := by
  obtain ⟨x, hx, -⟩ := hfirst
  obtain ⟨y, hy, -⟩ := hmid
  obtain ⟨z, hz, -⟩ := hlast
  obtain ⟨w, hw, hall⟩ := h
  have hsplit : w = x ++ y ++ z := by
    refine @List.append_cancel_left _ m₀.log _ _ ?_
    rw [← hw, hz, hy, hx]
    simp only [List.append_assoc]
  refine ⟨y, hy, fun e he => hall e ?_⟩
  rw [hsplit]
  exact List.mem_append_left z (List.mem_append_right x he)

theorem releaseKeepsApp_of_failed {env : Env σ κ} {m : Machine σ κ}
    (hgrows : Grows m (releaseFromPart env .download true m).2)
    (hfail : (releaseFromPart env .download true m).1 = false) :
    ReleaseKeepsApp env m ↔ Untouched .app m (releaseFromPart env .download true m).2 := by
  refine ⟨fun hkeeps => ?_, releaseKeepsApp_of_untouched⟩
  obtain ⟨new, hlog, -⟩ := hgrows
  rw [ReleaseKeepsApp, traced_iff hlog, hfail] at hkeeps
  refine ⟨new, hlog, fun e he => Bool.eq_false_iff.mpr fun htouch => ?_⟩
  exact Bool.false_ne_true (hkeeps ⟨e, he, htouch⟩)

/-! ## The update -/

/-- The package is a patch, and its stages have been set up. -/
structure PatchReady (env : Env σ κ) (info : FwInfo) (algo : AlgoContext κ)
    (m m₁ : Machine σ κ) : Prop where
  found : fwGetAlgoContext env.tables info = some algo
  init : fwAlgoInit algo m = (true, m₁)
  patch : (env.build.usingHpatchlite && algo.cmprs.cmprsId == algoCmprsHpatchlite) = true

section Update

variable {env : Env σ κ} {src dst : Handle} {dstSize : Nat} {algo : AlgoContext κ}
  {m m₁ : Machine σ κ}

theorem grows_patchOf (info : FwInfo) : Within Grows (patchOf env dst src info) :=
  on_hpatchliteReleaseFromPart (grows_admits env).body (grows_swap env) trivial trivial trivial _ _ _

theorem PatchReady.run (h : PatchReady env m.fwInfo algo m m₁) (ok : Bool) (m₂ : Machine σ κ)
    (hpatch : patchOf env dst src m.fwInfo m₁ = (ok, m₂)) :
    fwUpdate env dst dstSize src m = finishUpdate env dst dstSize m.fwInfo ok
      (if ok then (fwAlgoDeinit algo m₂).2 else m₂) := by
  have hrun : hpatchRelease env dst src m.fwInfo algo =
      (do if ← patchOf env dst src m.fwInfo then
            fwAlgoDeinit algo
            pure true
          else pure false) := rfl
  rw [fwUpdate_ready h.found h.init, releaseBody, if_pos h.patch, hrun]
  simp only [run_bind, hpatch]
  cases ok <;> rfl

end Update

section App

variable {env : Env σ κ} {src dst : Handle} {dstSize : Nat} {algo : AlgoContext κ}
  {m m' m₁ m₂ : Machine σ κ}

theorem finishUpdate_touches (env : Env σ κ) (dst : Handle) (dstSize : Nat) (info : FwInfo)
    (m : Machine σ κ) : Touched dst.target m (finishUpdate env dst dstSize info true m).2 := by
  have hwrite : Touched dst.target m (fwInfoWrite env dst dstSize info true m).2 :=
    ⟨_, rfl, _, List.mem_singleton_self _, beq_self_eq_true _⟩
  have hverify (written : Bool) : Within Grows (if written then destPartVerify env dst dstSize
      else pure false) := .ite (on_destPartVerify (grows_admits env) trivial dstSize) (.pure _)
  have hseal : Touched dst.target m (sealAndVerify env dst dstSize info m).2 :=
    hwrite.grow (hverify _ _)
  exact hseal.grow (extends_concat rfl trivial)

theorem PatchReady.grows (h : PatchReady env m.fwInfo algo m m₁) : Grows m m₁ := by
  have hstart : Grows m (fwAlgoInit algo m).2 := on_fwAlgoInit (grows_admits env).toAdmitsOn algo m
  rwa [h.init] at hstart

theorem Reaches.keepsApp_unpatched (h : Reaches env .download .app m src dst dstSize m')
    (hready : PatchReady env m'.fwInfo algo m' m₁)
    (hpatch : patchOf env dst src m'.fwInfo m₁ = (false, m₂)) :
    ReleaseKeepsApp env m ↔ Untouched .app m₁ m₂ := by
  have hrun : fwUpdate env dst dstSize src m' =
      finishUpdate env dst dstSize m'.fwInfo false m₂ := hready.run false m₂ hpatch
  have hlast : Untouched .app m₂ (releaseFromPart env .download true m).2 := by
    have hbehind := h.behind .app
    rw [hrun] at hbehind
    have hend : Untouched .app m₂ (finishUpdate env dst dstSize m'.fwInfo false m₂).2 :=
      untouched_emit rfl m₂
    exact trans_of (Untouched .app) hend hbehind
  have hmid : Grows m₁ m₂ := by
    have hgrows : Grows m₁ (patchOf env dst src m'.fwInfo m₁).2 := grows_patchOf m'.fwInfo m₁
    rwa [hpatch] at hgrows
  have hfirst : Untouched .app m m₁ := by
    have hstart : Untouched .app m' (fwAlgoInit algo m').2 :=
      on_fwAlgoInit (untouched_admits env .app).toAdmitsOn algo m'
    rw [hready.init] at hstart
    exact trans_of (Untouched .app) (h.before .app) hstart
  have hall := trans_of Grows (trans_of Grows hfirst.grows hmid) hlast.grows
  have hfail : (releaseFromPart env .download true m).1 = false := by
    rw [h.answer, hrun]
    rfl
  rw [releaseKeepsApp_of_failed hall hfail]
  refine ⟨fun huntouched => huntouched.middle hfirst.grows hmid hlast.grows, fun huntouched => ?_⟩
  exact trans_of (Untouched .app) (trans_of (Untouched .app) hfirst huntouched) hlast

/-- Behind a patch that applies the update has to succeed. -/
theorem Reaches.keepsApp_patched (h : Reaches env .download .app m src dst dstSize m')
    (hready : PatchReady env m'.fwInfo algo m' m₁)
    (hpatch : patchOf env dst src m'.fwInfo m₁ = (true, m₂)) :
    ReleaseKeepsApp env m ↔
      (sealAndVerify env dst dstSize m'.fwInfo (fwAlgoDeinit algo m₂).2).1 = true := by
  have hrun : fwUpdate env dst dstSize src m' =
      finishUpdate env dst dstSize m'.fwInfo true (fwAlgoDeinit algo m₂).2 :=
    hready.run true m₂ hpatch
  have hR := grows_admits env
  have hmid : Grows m₁ m₂ := by
    have hgrows : Grows m₁ (patchOf env dst src m'.fwInfo m₁).2 := grows_patchOf m'.fwInfo m₁
    rwa [hpatch] at hgrows
  generalize hm₃ : (fwAlgoDeinit algo m₂).2 = m₃ at hrun ⊢
  have hdeinit : Grows m₂ m₃ := hm₃ ▸ on_fwAlgoDeinit hR.toAdmitsOn algo m₂
  have hfirst : Grows m m₃ := trans_of Grows
    (trans_of Grows (trans_of Grows (h.before .app).grows hready.grows) hmid) hdeinit
  have hfinish := finishUpdate_touches env dst dstSize m'.fwInfo m₃
  rw [h.target, ← hrun] at hfinish
  have hall := (Touched.after hfirst hfinish).grow (h.behind .app).grows
  rw [releaseKeepsApp_of_touched hall, h.answer, hrun, finishUpdate_answer, Bool.true_and]

end App

end Qboot
