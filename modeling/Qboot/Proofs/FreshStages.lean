import Qboot.Proofs.Mirroring
import Qboot.Proofs.PassAgreement
/-!
# What a package decodes to, whatever ran before

Setting the stages up makes all that they use of their memory, so the image of a
package does not depend on the memory that earlier passes left behind.
-/

namespace Qboot

open Library Bytes Machine

variable {σ Z Q A : Type} {v : Vendor Z Q A} {c : Crypto} {d : Decoder}

/-- The memories agree in what the stages use of them, GZIP included. -/
structure SameStages (c : Crypto) (d : Decoder) (k k' : CodecMem Z Q A) : Prop
    extends SameUsed c d k k' where
  gzip : d = .codec .gzip → k.gzip = k'.gzip

theorem SameStages.gzip_run {k k' : CodecMem Z Q A} (hk : SameStages c (.codec .gzip) k k')
    {α : Type} (x : Prog (GzipMem Z) α) :
    (onGzip x k).1 = (onGzip x k').1 ∧
      SameStages c (.codec .gzip) (onGzip x k).2 (onGzip x k').2 := by
  have hrun : x k.gzip = x k'.gzip := congrArg x (hk.gzip rfl)
  refine ⟨?_, ⟨hk.aes, by rintro ⟨⟩⟩, fun _ => ?_⟩
  · show (x k.gzip).1 = (x k'.gzip).1
    rw [hrun]
  · show (x k.gzip).2 = (x k'.gzip).2
    rw [hrun]

theorem mirrorsStages_used (b : Build) (v : Vendor Z Q A) (c : Crypto) (d : Decoder) :
    MirrorsStages ⟨c.ops b v, d.ops b v⟩ (SameStages c d) where
  decrypt old inp k k' hk := by
    cases c with
    | none => exact ⟨rfl, hk⟩
    | aes =>
        obtain ⟨hanswer, hused⟩ := hk.aes_run (aesCrypt v.aes inp)
        exact ⟨hanswer, hused, hk.gzip⟩
  decompress inp outLen step ctx := by
    rcases d with (_ | _ | _ | _) | _
    · obtain ⟨r, hr⟩ := noneDecompress_const (κ := CodecMem Z Q A) b inp outLen step
      exact .const (hr ctx) (hr ctx)
    · exact fun k k' hk => hk.gzip_run _
    · intro k k' hk
      obtain ⟨hanswer, hused⟩ := hk.quicklz_run (quicklzDecompress v.quicklz inp outLen step ctx)
      exact ⟨hanswer, hused, hk.gzip⟩
    · obtain ⟨r, hr⟩ := fastlzDecompress_const (κ := CodecMem Z Q A) v.fastlz inp outLen step
      exact .const (hr ctx) (hr ctx)
    · exact .const (fun _ => rfl) fun _ => rfl

theorem fwAlgoInit_sameStages (b : Build) (v : Vendor Z Q A) (c : Crypto) (d : Decoder)
    (m n : Machine σ (CodecMem Z Q A)) :
    (fwAlgoInit ⟨c.ops b v, d.ops b v⟩ m).1 = (fwAlgoInit ⟨c.ops b v, d.ops b v⟩ n).1 ∧
      SameStages c d (fwAlgoInit ⟨c.ops b v, d.ops b v⟩ m).2.mem
        (fwAlgoInit ⟨c.ops b v, d.ops b v⟩ n).2.mem := by
  obtain ⟨hm, hn, hused⟩ := fwAlgoInit_used b v c d m n
  refine ⟨hm.trans hn.symm, hused, ?_⟩
  rintro rfl
  cases c <;> rfl

theorem mirrorsIo_same (io : IoOps σ) : MirrorsIo io io fun _ => Eq where
  mono _ hsame := hsame
  opens _ _ _ := mirrors_same _
  closes _ := mirrors_same _
  reads _ _ _ := mirrors_same _
  erases _ _ _ := mirrors_same _
  writes _ _ _ := mirrors_same _
  sizes _ := mirrors_same _
  aligns _ := mirrors_same _

theorem imageOf_mem {env : Env σ (CodecMem Z Q A)} (htables : env.tables = startupTables env.build v)
    (info : FwInfo) (src dst : Handle) (body : List UInt8) (k k' : CodecMem Z Q A) :
    imageOf env info src dst body k = imageOf env info src dst body k' := by
  unfold imageOf
  cases halgo : fwGetAlgoContext env.tables info with
  | none => rfl
  | some algo =>
      obtain ⟨c, d, rfl, -⟩ := fwGetAlgoContext_startup (htables ▸ halgo)
      obtain ⟨hinit, hmem⟩ := fwAlgoInit_sameStages env.build v c d
        (⟨(), k, info, []⟩ : Machine Unit (CodecMem Z Q A)) ⟨(), k', info, []⟩
      dsimp only
      rw [hinit]
      generalize (fwAlgoInit ⟨c.ops env.build v, d.ops env.build v⟩
        (⟨(), k, info, []⟩ : Machine Unit (CodecMem Z Q A))).2.mem = a at hmem ⊢
      generalize (fwAlgoInit ⟨c.ops env.build v, d.ops env.build v⟩
        (⟨(), k', info, []⟩ : Machine Unit (CodecMem Z Q A))).2.mem = a' at hmem ⊢
      have hpass : Mirrors (Twin Eq (SameStages c d))
          (fwStreamProcess ⟨env.build, bodyIo body, env.crc⟩ info src
            ⟨c.ops env.build v, d.ops env.build v⟩ (.write ⟨dst, 0, info.rawSize.toNat⟩))
          (fwStreamProcess ⟨env.build, bodyIo body, env.crc⟩ info src
            ⟨c.ops env.build v, d.ops env.build v⟩ (.write ⟨dst, 0, info.rawSize.toNat⟩))
          fun _ => Twin Eq (SameStages c d) :=
        mirrors_fwStreamProcess (V := fun _ => True) (mirrorsIo_same (bodyIo body))
          (mirrorsStages_used env.build v c d) info trivial _ trivial
      obtain ⟨hanswer, hend⟩ := hpass ⟨(), a, info, []⟩ ⟨(), a', info, []⟩
        ⟨rfl, hmem, rfl, rfl⟩
      rw [unpack, unpack, hanswer, hend.log]

end Qboot
