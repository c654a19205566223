import Mathlib.Data.List.Basic
import Qboot.Proofs.Record
import Qboot.Proofs.Validation
/-!
# From the release to the jump

`qbt_thread_entry` releases DOWNLOAD at most once, and what it does before and
after that is followed through its record.  It jumps whatever the release has
answered.
-/

namespace Qboot

open Library Bytes Prog Machine

variable {σ κ : Type}

/-! ## The way to the release -/

section Path

variable (env : Env σ κ) (inp : BootInputs σ)

/-- The boot shell and the poll of the update manager; whether they return. -/
def shellAndPoll : Prog (Machine σ κ) Bool :=
  if inp.usingShell && inp.shellStarts true then pure false
  else
    match inp.updateMgrPoll with
    | some poll => do
        onDev poll
        emit (.notified true)
        pure true
    | none => pure true

/-- What `qbt_thread_entry` does before it releases DOWNLOAD, and whether it gets
there. -/
def arrives : Prog (Machine σ κ) Bool :=
  if !inp.storageRegistered then do
    unlessShell inp false (emit .reset)
    pure false
  else if inp.usingFactoryKey && inp.factoryKeyPressed then do
    if ← appResumeFrom env .factory then
      emit .jumped
      if inp.jumpReturns then shellAndPoll inp else pure false
    else shellAndPoll inp
  else shellAndPoll inp

variable (m : Machine σ κ)

theorem bootMain_eq : bootMain env inp m =
    if (shellAndPoll inp m).1 then bootRelease env inp (shellAndPoll inp m).2
    else ((), (shellAndPoll inp m).2) := by
  unfold bootMain shellAndPoll unlessShell
  split
  · rfl
  · rcases inp.updateMgrPoll with _ | poll <;> rfl

theorem threadEntry_eq : threadEntry env inp m =
    if (arrives env inp m).1 then bootRelease env inp (arrives env inp m).2
    else ((), (arrives env inp m).2) := by
  unfold threadEntry arrives
  split
  · rfl
  split
  · simp only [resumeThen, Prog.run_bind]
    split
    · simp only [jumpToAppThen, Prog.run_bind]
      split
      · exact bootMain_eq env inp _
      · rfl
    · exact bootMain_eq env inp _
  · exact bootMain_eq env inp m

theorem unmarked_unlessShell (wait : Bool) {next : Prog (Machine σ κ) Unit}
    (hnext : Within Unmarked next) : Within Unmarked (unlessShell inp wait next) :=
  .ite (.pure _) hnext

theorem unmarked_jumpToAppThen {next : Prog (Machine σ κ) Unit}
    (hnext : Within Unmarked next) : Within Unmarked (jumpToAppThen inp next) :=
  (unmarked_emit rfl).bind fun _ => .ite hnext (.pure _)

theorem unmarked_resumeThen (srcId : TargetId) {next : Prog (Machine σ κ) Unit}
    (hnext : Within Unmarked next) : Within Unmarked (resumeThen env inp srcId next) :=
  (unmarked_appResumeFrom env srcId).bind fun _ =>
    .ite (unmarked_jumpToAppThen inp hnext) hnext

theorem unmarked_arrives : Within Unmarked (arrives env inp) := by
  have hpoll : Within Unmarked (shellAndPoll inp : Prog (Machine σ κ) Bool) := by
    refine .ite (.pure _) ?_
    rcases inp.updateMgrPoll with _ | poll
    · exact .pure _
    · exact (unmarked_onDev poll).bind fun _ => (unmarked_emit rfl).bind fun _ => .pure _
  refine .ite ((unmarked_unlessShell inp _ (unmarked_emit rfl)).bind fun _ => .pure _)
    (.ite ?_ hpoll)
  exact (unmarked_appResumeFrom env _).bind fun _ =>
    .ite ((unmarked_emit rfl).bind fun _ => .ite hpoll (.pure _)) hpoll

theorem bootRelease_log : ∃ rest, (bootRelease env inp m).2.log =
      (releaseFromPart env .download true m).2.log ++ .jumped :: rest ∧
    ∀ e ∈ rest, e.marksRelease = false := by
  have hnext : Within Unmarked (if inp.jumpReturns then
      resumeThen env inp .download (resumeThen env inp .factory (bootGiveUp inp))
      else pure () : Prog (Machine σ κ) Unit) := by
    refine .ite (unmarked_resumeThen _ _ _ (unmarked_resumeThen _ _ _ ?_)) (.pure _)
    exact (unmarked_emit rfl).bind fun _ => unmarked_unlessShell inp _ (unmarked_emit rfl)
  obtain ⟨rest, hlog, hrest⟩ :=
    hnext (emit .jumped (releaseFromPart env .download true m).2).2
  refine ⟨rest, ?_, hrest⟩
  calc (bootRelease env inp m).2.log
      = (releaseFromPart env .download true m).2.log ++ [Event.jumped] ++ rest := hlog
    _ = (releaseFromPart env .download true m).2.log ++ .jumped :: rest :=
        List.append_assoc ..

end Path

/-! ## Jumping to a destroyed application -/

/-- Once the release of DOWNLOAD has issued an erase or a write to APP and has
failed, there is no jump before an update of APP has succeeded. -/
def JumpsSafely (log : List Event) : Prop :=
  ∀ front body mid back,
    log = front ++ .releaseStart .download true ::
      (body ++ .released .download true false :: (mid ++ .jumped :: back)) →
    (∃ e ∈ body, e.touches .app = true) → .updated .app true ∈ mid

/-- Released from `m`, DOWNLOAD leaves APP alone or is released successfully. -/
def ReleaseKeepsApp (env : Env σ κ) (m : Machine σ κ) : Prop :=
  Traced m (releaseFromPart env .download true m).2 fun new =>
    (∃ e ∈ new, e.touches .app = true) →
      (releaseFromPart env .download true m).1 = true

theorem jumpsSafely_of_unmarked {log : List Event}
    (h : ∀ e ∈ log, e.marksRelease = false) : JumpsSafely log := by
  intro front body mid back hsplit
  have hmark := h (.releaseStart .download true) (by rw [hsplit]; simp)
  cases hmark

theorem not_mem_of_unmarked {log : List Event} {e : Event}
    (h : ∀ e ∈ log, e.marksRelease = false) (he : e.marksRelease = true) : e ∉ log :=
  fun hmem => Bool.false_ne_true ((h e hmem).symm.trans he)

/-- In a run with one release, only the jump behind it can be unsafe. -/
theorem jumpsSafely_split {before body after : List Event} {ok : Bool}
    (hbefore : ∀ e ∈ before, e.marksRelease = false)
    (hbody : ∀ e ∈ body, e.marksRelease = false)
    (hafter : ∀ e ∈ after, e.marksRelease = false) :
    JumpsSafely (before ++ .releaseStart .download true ::
        (body ++ .released .download true ok :: .jumped :: after)) ↔
      ((∃ e ∈ body, e.touches .app = true) → ok = true) := by
  constructor
  · intro h htouch
    by_contra hok
    rw [Bool.not_eq_true] at hok
    subst hok
    exact absurd (h before body [] after rfl htouch) List.not_mem_nil
  · intro h front body' mid back hsplit htouch
    -- both marks of the release stand once in the record
    have hstart : Event.releaseStart .download true ∉
        body ++ .released .download true ok :: .jumped :: after := by
      have hbody := not_mem_of_unmarked (e := .releaseStart .download true) hbody rfl
      have hafter := not_mem_of_unmarked (e := .releaseStart .download true) hafter rfl
      simp [hbody, hafter]
    obtain ⟨rfl, -, hrest⟩ := (List.append_cons_inj_of_notMem
      (not_mem_of_unmarked hbefore rfl) hstart).mp hsplit
    have hend : Event.released .download true false ∉ .jumped :: after := by
      have hafter := not_mem_of_unmarked (e := .released .download true false) hafter rfl
      simp [hafter]
    obtain ⟨rfl, hmark, -⟩ := (List.append_cons_inj_of_notMem
      (not_mem_of_unmarked hbody rfl) hend).mp hrest
    have hok : ok = false := by simpa using hmark
    rw [h htouch] at hok
    cases hok

/-- A run of `qbt_thread_entry` never jumps to an application that its release has
destroyed, exactly when the release, from the state in which it is called, leaves
APP alone or succeeds. -/
theorem jumpsSafely_iff_release (env : Env σ κ) (inp : BootInputs σ) (m : Machine σ κ) :
    Traced m (threadEntry env inp m).2 JumpsSafely ↔
      ((arrives env inp m).1 = true → ReleaseKeepsApp env (arrives env inp m).2) := by
  obtain ⟨before, hlog₁, hbefore⟩ := unmarked_arrives env inp m
  rw [threadEntry_eq]
  by_cases harrives : (arrives env inp m).1 = true
  swap
  · rw [if_neg harrives]
    refine iff_of_true ⟨before, hlog₁, jumpsSafely_of_unmarked hbefore⟩ ?_
    exact fun h => absurd h harrives
  rw [if_pos harrives]
  generalize (arrives env inp m).2 = m₁ at hlog₁
  obtain ⟨body, hlog₂, hbody⟩ := releaseFromPart_log env .download true m₁
  obtain ⟨after, hlog₃, hafter⟩ := bootRelease_log env inp m₁
  generalize hok : (releaseFromPart env .download true m₁).1 = ok at hlog₂
  have hlog : (bootRelease env inp m₁).2.log = m.log ++ (before ++
      .releaseStart .download true ::
        (body ++ .released .download true ok :: .jumped :: after)) := by
    rw [hlog₃, hlog₂, hlog₁]
    simp
  have hrelease : (releaseFromPart env .download true m₁).2.log = m₁.log ++
      (.releaseStart .download true :: (body ++ [.released .download true ok])) := by
    rw [hlog₂]
    simp
  have hmarks : (∃ e ∈ Event.releaseStart .download true ::
        (body ++ [.released .download true ok]), e.touches .app = true) ↔
      ∃ e ∈ body, e.touches .app = true := by
    simp [Event.touches]
  rw [traced_iff hlog, jumpsSafely_split hbefore hbody hafter, ReleaseKeepsApp,
    traced_iff hrelease, hok, hmarks]
  exact ⟨fun h _ => h, fun h => h harrives⟩

/-! ## An image that leaves no room for its header -/

/-- The header of a plain package of eight bytes for APP, verified by CRC. -/
def eightByteHeader : FwInfo :=
  { FwInfo.ofBytes (Block.ofList srcReadPos []) with
    type := Block.ofList 4 (ascii "RBL")
    partName := Block.ofList 16 (ascii "app")
    algo2 := 1
    pkgSize := 8
    rawSize := 8
    pkgCrc := 1070237893
    rawCrc := 1070237893
    hdrCrc := 586864259 }

/-- DOWNLOAD holds the package; APP has `appSize` bytes. -/
def eightByteMachine (appSize : Nat) : Machine FlashDev Unit :=
  let package := overwrite (overwrite (fun _ => Flash.erasedByte) 0
    eightByteHeader.toBytes) srcReadPos [1, 2, 3, 4, 5, 6, 7, 8]
  steadyMachine (fun id => match id with
    | .download => ⟨1024, 4, package⟩
    | _ => ⟨appSize, 4, fun _ => Flash.erasedByte⟩) ()

/-- The CRC package, evaluated eagerly. -/
def eagerCrcLib : CrcLib where
  cal := fun bytes => Crc32.updateEager 0xFFFFFFFF bytes ^^^ 0xFFFFFFFF
  cycCal := Crc32.updateEager
  cycCal_nil := fun _ => rfl
  cycCal_append := by
    intro crc a b
    simp only [Crc32.updateEager_eq]
    exact Crc32.update_append crc a b

def eagerEnv : Env FlashDev Unit := { plainEnv.toEnv with crc := eagerCrcLib }

theorem plainEnv_eq_eager : plainEnv.toEnv = eagerEnv := by
  have hcrc : crc32Lib = eagerCrcLib := by
    unfold crc32Lib eagerCrcLib
    congr 1
    · funext bytes
      rw [Crc32.updateEager_eq]
      rfl
    · funext crc bytes
      exact (Crc32.updateEager_eq bytes crc).symm
  show { plainEnv.toEnv with crc := crc32Lib } = eagerEnv
  rw [hcrc]
  rfl

def plainBoot : BootInputs FlashDev where
  storageRegistered := true
  usingFactoryKey := false
  factoryKeyPressed := false
  usingShell := false
  shellStarts := fun _ => false
  updateMgrPoll := none
  jumpReturns := false

end Qboot
