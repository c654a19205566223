import Qboot.Library.Lockstep
import Qboot.Model.Device
import Qboot.Proofs.Emitted
import Qboot.Proofs.Record
/-!
# An interrupted boot beside an undisturbed one

Two boots run the same program, one from regions `r` under a power supply that may
be cut, the other from `R` under steady power.  They go through the same steps as
long as they read the same bytes, and what the second one has erased or written so
far holds the same bytes in both.
-/

namespace Qboot

open Library Bytes Flash Prog Machine Loop

variable {κ : Type}

/-! ## Without power -/

/-- The code over region-backed storage, which allocating memory leaves alone. -/
def regionEnv (backend : TargetId → Backend) (env : Env FlashDev κ) : Env FlashDev κ :=
  { env with
    io := regionIo backend
    parser := regionParser backend
    hpatch := { env.hpatch with
      malloc := fun size d => ((env.hpatch.malloc size d).1, d)
      malloc_zero := env.hpatch.malloc_zero } }

/-- Regions keep their shape, storage stays as it is once the power is off, a steady
supply stays steady, and the record only grows. -/
structure Idles (m m' : Machine FlashDev κ) : Prop where
  size : ∀ id, (m'.dev.region id).size = (m.dev.region id).size
  unit : ∀ id, (m'.dev.region id).unit = (m.dev.region id).unit
  dev : m.dev.power = .off → m'.dev = m.dev
  steady : m.dev.power = .steady → m'.dev.power = .steady
  log : ∃ more, m'.log = m.log ++ more

instance : IsPreorder (Machine FlashDev κ) Idles where
  refl m := ⟨fun _ => rfl, fun _ => rfl, fun _ => rfl, id, [], (List.append_nil _).symm⟩
  trans := by
    intro m₁ m₂ m₃ h h'
    obtain ⟨more, hlog⟩ := h.log
    obtain ⟨more', hlog'⟩ := h'.log
    refine ⟨fun id => (h'.size id).trans (h.size id),
      fun id => (h'.unit id).trans (h.unit id), fun hoff => ?_,
      fun hsteady => h'.steady (h.steady hsteady), more ++ more', ?_⟩
    · have hkept := h.dev hoff
      rw [← hkept] at hoff
      exact (h'.dev hoff).trans hkept
    · rw [hlog', hlog, List.append_assoc]

theorem idles_of_dev {m m' : Machine FlashDev κ} (hdev : m'.dev = m.dev)
    (hlog : ∃ more, m'.log = m.log ++ more) : Idles m m' :=
  ⟨fun _ => by rw [hdev], fun _ => by rw [hdev], fun _ => hdev, fun h => by rw [hdev, h],
    hlog⟩

theorem idles_onDev {α : Type} {x : Prog FlashDev α} (hx : ∀ d, (x d).2 = d) :
    Within Idles (onDev x : Prog (Machine FlashDev κ) α) :=
  fun m => idles_of_dev (hx m.dev) ⟨[], (List.append_nil _).symm⟩

theorem idles_onMem {α : Type} (x : Prog κ α) :
    Within Idles (onMem x : Prog (Machine FlashDev κ) α) :=
  fun _ => idles_of_dev rfl ⟨[], (List.append_nil _).symm⟩

theorem idles_setFwInfo (h : FwInfo) :
    Within Idles (setFwInfo h : Prog (Machine FlashDev κ) Unit) :=
  fun _ => idles_of_dev rfl ⟨[], (List.append_nil _).symm⟩

theorem idles_emit (e : Event) :
    Within Idles (emit e : Prog (Machine FlashDev κ) Unit) :=
  fun _ => idles_of_dev rfl ⟨[e], rfl⟩

/-! ## Operations on a region -/

/-- `apply` does what it does in the range of `op`, whatever the region held. -/
structure OpEffect (op : Op) (apply : Region → Region) : Prop where
  size : ∀ r, (apply r).size = r.size
  unit : ∀ r, (apply r).unit = r.unit
  outside : ∀ r a, ¬(op.Erases r.unit a ∨ op.Programs a) → (apply r).cells a = r.cells a
  inside : ∀ r r' a, r.unit = r'.unit → op.Erases r.unit a ∨ op.Programs a →
    (apply r).cells a = (apply r').cells a

theorem opEffect_erase (off len : Nat) : OpEffect (.erase off len) (·.erase off len) where
  size := fun _ => rfl
  unit := fun _ => rfl
  outside := by
    intro r a hout
    exact Region.erase_cells_of_not_covers fun hcov => hout (.inl hcov)
  inside := by
    rintro r r' a hunit (hcov | hno)
    · have hcov' : Covers r'.unit off len a := hunit ▸ hcov
      rw [Region.erase_cells_of_covers hcov, Region.erase_cells_of_covers hcov']
    · cases hno

theorem opEffect_program (off : Nat) (data : List UInt8) :
    OpEffect (.program off data.length) (·.program off data) where
  size := fun _ => rfl
  unit := fun _ => rfl
  outside := by
    intro r a hout
    by_cases hlo : off ≤ a
    · exact overwrite_of_ge (by by_contra hhi; exact hout (.inr ⟨hlo, by omega⟩))
    · exact overwrite_of_lt (by omega)
  inside := by
    rintro r r' a - (hno | hin)
    · cases hno
    · calc (r.program off data).cells a = data.getD (a - off) 0 := if_pos hin
        _ = (r'.program off data).cells a := (if_pos hin).symm

def performIn (id : TargetId) (inRange : Nat → Prop) [DecidablePred inRange] (op : Op)
    (apply : Region → Region) : Prog FlashDev Bool := fun d =>
  if inRange (d.region id).size then d.perform id op (apply (d.region id))
  else (false, d)

theorem perform_cases {d : FlashDev} (hon : d.power ≠ .off) (id : TargetId) (op : Op)
    (r : Region) :
    (∃ p, p ≠ .off ∧ d.perform id op r = (true, { d.setRegion id r with power := p })) ∨
      d.perform id op r =
        (false, { d.setRegion id ((d.region id).tear op d.torn) with power := .off }) := by
  obtain ⟨region, power, torn⟩ := d
  cases power with
  | steady => exact .inl ⟨.steady, by simp, rfl⟩
  | cutAfter n =>
      cases n with
      | zero => exact .inr rfl
      | succ n => exact .inl ⟨.cutAfter n, by simp, rfl⟩
  | off => exact absurd rfl hon

theorem setRegion_shape (d : FlashDev) (id : TargetId) (r : Region)
    (hsize : r.size = (d.region id).size) (hunit : r.unit = (d.region id).unit)
    (id' : TargetId) : ((d.setRegion id r).region id').size = (d.region id').size ∧
      ((d.setRegion id r).region id').unit = (d.region id').unit := by
  by_cases hid : id' = id
  · subst hid
    simpa using ⟨hsize, hunit⟩
  · simp [FlashDev.setRegion_other d r hid]

theorem idles_performIn (id : TargetId) (inRange : Nat → Prop) [DecidablePred inRange]
    {op : Op} {apply : Region → Region} (heffect : OpEffect op apply) :
    Within Idles (onDev (performIn id inRange op apply) :
      Prog (Machine FlashDev κ) Bool) := by
  intro m
  have hnone : performIn id inRange op apply m.dev = (false, m.dev) →
      Idles m (onDev (performIn id inRange op apply) m).2 := fun hrun =>
    idles_of_dev (by rw [run_onDev, hrun]) ⟨[], (List.append_nil _).symm⟩
  by_cases hin : inRange (m.dev.region id).size
  swap
  · exact hnone (if_neg hin)
  have hrun : performIn id inRange op apply m.dev =
      m.dev.perform id op (apply (m.dev.region id)) := if_pos hin
  by_cases hoff : m.dev.power = .off
  · exact hnone (by rw [hrun, FlashDev.perform, hoff])
  have hshape := setRegion_shape m.dev id (apply (m.dev.region id)) (heffect.size _)
    (heffect.unit _)
  have hsteady (h : m.dev.power = .steady) :
      (onDev (performIn id inRange op apply) m).2.dev.power = .steady := by
    rw [run_onDev, hrun, FlashDev.perform_steady h]
    exact h
  have hlog : ∃ more, (onDev (performIn id inRange op apply) m).2.log = m.log ++ more :=
    ⟨[], (List.append_nil _).symm⟩
  obtain ⟨p, -, hperform⟩ | hperform := perform_cases hoff id op (apply (m.dev.region id))
  · refine ⟨fun id' => ?_, fun id' => ?_, fun h => absurd h hoff, hsteady, hlog⟩
    · rw [run_onDev, hrun, hperform]
      exact (hshape id').1
    · rw [run_onDev, hrun, hperform]
      exact (hshape id').2
  · have htorn (id' : TargetId) :=
      setRegion_shape m.dev id ((m.dev.region id).tear op m.dev.torn) rfl rfl id'
    refine ⟨fun id' => ?_, fun id' => ?_, fun h => absurd h hoff, hsteady, hlog⟩
    · rw [run_onDev, hrun, hperform]
      exact (htorn id').1
    · rw [run_onDev, hrun, hperform]
      exact (htorn id').2

section Idling

variable (backend : TargetId → Backend)

theorem idles_ioRead (h : Handle) (off len : Nat) :
    Within Idles (ioRead (regionIo backend) h off len : Prog (Machine FlashDev κ) _) :=
  (idles_onDev fun _ => rfl).bind fun _ => (idles_emit _).bind fun _ => .pure _

theorem idles_write (h : Handle) (off : Nat) (data : List UInt8) :
    Within Idles (onDev ((regionIo backend).write h off data) :
      Prog (Machine FlashDev κ) Bool) :=
  idles_performIn h.target
    (fun size => (backend h.target).InRange size off data.length)
    (opEffect_program off data)

theorem idles_erase (h : Handle) (off len : Nat) :
    Within Idles (onDev ((regionIo backend).erase h off len) :
      Prog (Machine FlashDev κ) Bool) :=
  idles_performIn h.target (fun size => (backend h.target).InRange size off len)
    (opEffect_erase off len)

theorem idles_targetClose (h : Handle) :
    Within Idles (targetClose (regionIo backend) h : Prog (Machine FlashDev κ) Unit) :=
  (idles_onDev fun _ => rfl).bind fun _ => idles_emit _

theorem idles_targetOpen (id : TargetId) (flags : OpenFlags) :
    Within Idles (targetOpen (regionIo backend) id flags : Prog (Machine FlashDev κ) _) := by
  refine (idles_onDev fun _ => rfl).bind fun ref => ?_
  rcases ref with _ | ref
  · exact (idles_emit _).bind fun _ => .pure _
  · refine (idles_emit _).bind fun _ => (idles_onDev fun _ => rfl).bind fun size => ?_
    rcases size with _ | size
    · exact (idles_targetClose backend _).bind fun _ => .pure _
    · exact .pure _

theorem idles_admits (env : Env FlashDev κ) : AdmitsEnv (regionEnv backend env) Idles where
  opens := idles_targetOpen backend
  closes := idles_targetClose backend
  reads := idles_ioRead backend
  writes := fun h off data => (idles_write backend h off data).bind fun _ =>
    (idles_emit _).bind fun _ => .pure _
  erases := fun h off len => (idles_erase backend h off len).bind fun _ =>
    (idles_emit _).bind fun _ => .pure _
  sizes := fun _ => idles_onDev fun _ => rfl
  aligns := fun _ => idles_onDev fun _ => rfl
  mem := idles_onMem
  info := idles_setFwInfo
  emits := fun e _ => idles_emit e
  mallocs := fun _ => idles_onDev fun _ => rfl
  signReads := fun _ _ => idles_onDev fun _ => rfl
  signWrites := fun h _ => idles_write backend h _ _

end Idling

/-! ## The pair of boots -/

/-- The operations on `id` have erased or programmed address `a`. -/
def touched (unit : Nat) (id : TargetId) (log : List Event) (a : Nat) : Prop :=
  ∃ op ∈ opsOn id log, op.Erases unit a ∨ op.Programs a

theorem touched_append {unit : Nat} {id : TargetId} {log more : List Event} {a : Nat} :
    touched unit id (log ++ more) a ↔ touched unit id log a ∨ touched unit id more a := by
  simp only [touched, opsOn_append, List.mem_append, or_and_right, exists_or]

theorem touched_of_op {unit : Nat} {id : TargetId} {e : Event} {op : Op} {a : Nat}
    (hop : opsOn id [e] = [op]) :
    touched unit id [e] a ↔ op.Erases unit a ∨ op.Programs a := by
  simp [touched, hop]

theorem not_touched_of_nil {unit : Nat} {id : TargetId} {more : List Event} {a : Nat}
    (hops : opsOn id more = []) : ¬touched unit id more a := by
  simp [touched, hops]

/-- Both boots are on, and hold what they started with except where the second one
has touched `dst`; there they hold the same. -/
structure Alike (dst : TargetId) (r R : TargetId → Region)
    (m m' : Machine FlashDev κ) : Prop where
  on : m.dev.power ≠ .off
  steady : m'.dev.power = .steady
  size : ∀ id, (m.dev.region id).size = (m'.dev.region id).size
  unit : ∀ id, (m.dev.region id).unit = (m'.dev.region id).unit
  size_eq : (m'.dev.region dst).size = (R dst).size
  unit_eq : (m'.dev.region dst).unit = (R dst).unit
  others : ∀ id, id ≠ dst → m.dev.region id = r id ∧ m'.dev.region id = R id
  kept : ∀ a, ¬touched (R dst).unit dst m'.log a →
    (m.dev.region dst).cells a = (r dst).cells a ∧
      (m'.dev.region dst).cells a = (R dst).cells a
  same : ∀ a, touched (R dst).unit dst m'.log a →
    (m.dev.region dst).cells a = (m'.dev.region dst).cells a
  mem : m.mem = m'.mem
  info : m.fwInfo = m'.fwInfo

/-- The first boot is off, and has changed nothing that the second one has not
touched. -/
structure Stopped (dst : TargetId) (r R : TargetId → Region)
    (m m' : Machine FlashDev κ) : Prop where
  off : m.dev.power = .off
  size : (m.dev.region dst).size = (R dst).size
  unit : (m.dev.region dst).unit = (R dst).unit
  others : ∀ id, id ≠ dst → m.dev.region id = r id
  kept : ∀ a, ¬touched (R dst).unit dst m'.log a →
    (m.dev.region dst).cells a = (r dst).cells a

/-- Both boots run `x`, and either go on in lockstep or the first one stops. -/
abbrev Follows (dst : TargetId) (r R : TargetId → Region) {α : Type}
    (P : Machine FlashDev κ → Prop) (x : Prog (Machine FlashDev κ) α)
    (Q : α → Machine FlashDev κ → Prop) : Prop :=
  Lockstep (Alike dst r R) (Stopped dst r R) P x Q

/-- `c` holds, and the second boot has the static header `info` and has touched all
of `T`. -/
structure Has (dst : TargetId) (R : TargetId → Region) (c : Prop) (info : FwInfo)
    (T : Nat → Prop) (m : Machine FlashDev κ) : Prop where
  cond : c
  info : m.fwInfo = info
  done : ∀ a, T a → touched (R dst).unit dst m.log a

variable {α : Type} {dst : TargetId} {r R : TargetId → Region}
  {P : Machine FlashDev κ → Prop} {Q : α → Machine FlashDev κ → Prop}
  {c c' : Prop} {info : FwInfo} {T : Nat → Prop}

theorem Has.grow {m m' : Machine FlashDev κ} (h : Has dst R c info T m)
    (hinfo : m'.fwInfo = m.fwInfo) {more : List Event} (hlog : m'.log = m.log ++ more) :
    Has dst R c info T m' := by
  refine ⟨h.cond, hinfo.trans h.info, fun a ha => ?_⟩
  rw [hlog, touched_append]
  exact .inl (h.done a ha)

theorem Has.imp {m : Machine FlashDev κ} (h : Has dst R c info T m) (himp : c → c') :
    Has dst R c' info T m :=
  ⟨himp h.cond, h.info, h.done⟩

theorem follows_of_idles {x : Prog (Machine FlashDev κ) α} (hidle : Within Idles x)
    (hstep : ∀ m m', Alike dst r R m m' → P m' → Stopped dst r R (x m).2 (x m').2 ∨
      ((x m).1 = (x m').1 ∧ Alike dst r R (x m).2 (x m').2 ∧ Q (x m').1 (x m').2)) :
    Follows dst r R P x Q where
  left := by
    intro m m' h
    have hdev := (hidle m).dev h.off
    refine ⟨?_, ?_, ?_, ?_, ?_⟩ <;> rw [hdev]
    · exact h.off
    · exact h.size
    · exact h.unit
    · exact h.others
    · exact h.kept
  right := by
    intro m m' h
    obtain ⟨more, hlog⟩ := (hidle m').log
    refine ⟨h.off, h.size, h.unit, h.others, fun a ha => h.kept a fun hno => ha ?_⟩
    rw [hlog, touched_append]
    exact .inl hno
  step := hstep

/-- A condition that the second boot brings along may be assumed. -/
theorem follows_assume {x : Prog (Machine FlashDev κ) α} (hidle : Within Idles x)
    (hP : ∀ m, P m → c) (hx : c → Follows dst r R P x Q) : Follows dst r R P x Q :=
  follows_of_idles hidle fun m m' hA hm => (hx (hP m' hm)).step m m' hA hm

/-! ## Steps that leave storage alone -/

/-- What changes nothing on storage, issues nothing to `dst`, and has the same result
in both boots. -/
theorem follows_quiet {x : Prog (Machine FlashDev κ) α} (hidle : Within Idles x)
    (hdev : ∀ m, (x m).2.dev = m.dev)
    (hlog : ∀ m, opsOn dst (x m).2.log = opsOn dst m.log)
    (hres : ∀ m m', Alike dst r R m m' → P m' → (x m).1 = (x m').1 ∧
      (x m).2.mem = (x m').2.mem ∧ (x m).2.fwInfo = (x m').2.fwInfo ∧
        Q (x m').1 (x m').2) : Follows dst r R P x Q := by
  have htouched (m : Machine FlashDev κ) (a : Nat) :
      touched (R dst).unit dst (x m).2.log a ↔ touched (R dst).unit dst m.log a := by
    rw [touched, hlog]
    rfl
  refine follows_of_idles hidle fun m m' h hP => ?_
  obtain ⟨hval, hmem, hinfo, hQ⟩ := hres m m' h hP
  have hd := hdev m
  have hd' := hdev m'
  refine .inr ⟨hval, ?_, hQ⟩
  constructor
  case mem => exact hmem
  case info => exact hinfo
  all_goals first | rw [hd, hd'] | rw [hd] | rw [hd']
  · exact h.on
  · exact h.steady
  · exact h.size
  · exact h.unit
  · exact h.size_eq
  · exact h.unit_eq
  · exact h.others
  · exact fun a ha => h.kept a fun hno => ha ((htouched m' a).mpr hno)
  · exact fun a ha => h.same a ((htouched m' a).mp ha)

theorem follows_record {e : Event} (he : opsOn dst [e] = [])
    {Q : Unit → Machine FlashDev κ → Prop}
    (hQ : ∀ m : Machine FlashDev κ, P m → Q () { m with log := m.log ++ [e] }) :
    Follows dst r R P (emit e) Q := by
  refine follows_quiet (idles_emit e) (fun _ => rfl) (fun m => ?_) fun m m' h hm => ?_
  · rw [run_emit, opsOn_append, he, List.append_nil]
  · exact ⟨rfl, h.mem, h.info, hQ m' hm⟩

theorem follows_emit {e : Event} (he : opsOn dst [e] = []) :
    Follows dst r R (Has dst R c info T) (emit e : Prog (Machine FlashDev κ) Unit)
      fun _ => Has dst R c info T :=
  follows_record he fun _ hm => hm.grow rfl rfl

theorem follows_onMem (x : Prog κ α) :
    Follows dst r R (Has dst R c info T) (onMem x) fun _ => Has dst R c info T := by
  refine follows_quiet (idles_onMem x) (fun _ => rfl) (fun _ => rfl) fun m m' h hm => ?_
  rw [run_onMem, run_onMem, h.mem]
  exact ⟨rfl, rfl, h.info, hm.cond, hm.info, hm.done⟩

theorem follows_setFwInfo (h : FwInfo) :
    Follows dst r R (Has dst R c info T) (setFwInfo h : Prog (Machine FlashDev κ) Unit)
      fun _ => Has dst R c h T :=
  follows_quiet (idles_setFwInfo h) (fun _ => rfl) (fun _ => rfl) fun _ _ hA hm =>
    ⟨rfl, hA.mem, rfl, hm.cond, rfl, hm.done⟩

theorem follows_info :
    Follows dst r R (Has dst R c info T)
      (Prog.gets (·.fwInfo) : Prog (Machine FlashDev κ) FwInfo)
      fun i => Has dst R (c ∧ i = info) info T :=
  .gets (fun _ _ h => h.info) fun _ hm => ⟨⟨hm.cond, hm.info⟩, hm.info, hm.done⟩

/-! ## Reading, erasing and writing -/

section Storage

variable {backend : TargetId → Backend} {h : Handle} {off len : Nat}

theorem follows_ioRead {Q : Option (Block len) → Machine FlashDev κ → Prop}
    (hsame : ∀ m m' : Machine FlashDev κ, Alike dst r R m m' → P m' →
      ∀ a, off ≤ a → a < off + len →
        (m.dev.region h.target).cells a = (m'.dev.region h.target).cells a)
    (hQ : ∀ m m' : Machine FlashDev κ, Alike dst r R m m' → P m' → ∀ b more,
      (∀ bytes, b = some bytes → bytes = (m'.dev.region h.target).read off len) →
      Q b { m' with log := m'.log ++ more }) :
    Follows dst r R P (ioRead (regionIo backend) h off len) Q := by
  refine follows_quiet (idles_ioRead backend h off len) (fun _ => rfl) (fun m => ?_)
    fun m m' hA hP => ?_
  · rw [run_ioRead, opsOn_append]
    exact List.append_nil _
  have hread : (m.dev.region h.target).read off len =
      (m'.dev.region h.target).read off len :=
    readCells_congr fun a hlo hhi => hsame m m' hA hP a hlo hhi
  have hres : ((regionIo backend).read h off len m.dev).1 =
      ((regionIo backend).read h off len m'.dev).1 := by
    simp only [regionIo, hA.on, hA.steady, hA.size, hread, ne_eq, not_false_eq_true,
      reduceCtorEq]
  rw [run_ioRead, run_ioRead]
  refine ⟨hres, hA.mem, hA.info, hQ m m' hA hP _ _ fun bytes hbytes => ?_⟩
  simp only [regionIo] at hbytes
  split at hbytes
  · exact (Option.some.inj hbytes).symm
  · cases hbytes

def mutate (id : TargetId) (inRange : Nat → Prop) [DecidablePred inRange] (op : Op)
    (apply : Region → Region) (e : Bool → Event) : Prog (Machine FlashDev κ) Bool := do
  let ok ← onDev (performIn id inRange op apply)
  emit (e ok)
  pure ok

theorem Alike.stop {m m' : Machine FlashDev κ} (h : Alike dst r R m m') {op : Op}
    {m₁ m₁' : Machine FlashDev κ} {log : List Event} (hlog : m₁'.log = m'.log ++ log)
    (hops : opsOn dst log = [op])
    (hdev : m₁.dev = { m.dev.setRegion dst ((m.dev.region dst).tear op m.dev.torn) with
      power := .off }) : Stopped dst r R m₁ m₁' := by
  have hsize : (m.dev.region dst).size = (R dst).size := (h.size dst).trans h.size_eq
  have hunit : (m.dev.region dst).unit = (R dst).unit := (h.unit dst).trans h.unit_eq
  have hregion : m₁.dev.region dst = (m.dev.region dst).tear op m.dev.torn := by
    rw [hdev]
    exact FlashDev.setRegion_same ..
  refine ⟨by rw [hdev], ?_, ?_, fun id hid => ?_, fun a ha => ?_⟩
  · rw [hregion]
    exact hsize
  · rw [hregion]
    exact hunit
  · rw [hdev]
    exact (FlashDev.setRegion_other m.dev _ hid).trans (h.others id hid).1
  · rw [hlog, touched_append, not_or] at ha
    obtain ⟨hbefore, hnow⟩ := ha
    have hout : ¬(op.Erases (m.dev.region dst).unit a ∨ op.Programs a) := by
      rw [hunit]
      simpa [touched, hops] using hnow
    rw [hregion]
    calc ((m.dev.region dst).tear op m.dev.torn).cells a
        = (m.dev.region dst).cells a := if_neg hout
      _ = (r dst).cells a := (h.kept a hbefore).1

theorem Alike.advance {m m' : Machine FlashDev κ} (h : Alike dst r R m m') {op : Op}
    {apply : Region → Region} (heffect : OpEffect op apply) {p : Power} (hp : p ≠ .off)
    {log log' : List Event} (hops : opsOn dst log' = [op]) : Alike dst r R
      { m with
        dev := { m.dev.setRegion dst (apply (m.dev.region dst)) with power := p }
        log := log }
      { m' with
        dev := m'.dev.setRegion dst (apply (m'.dev.region dst))
        log := m'.log ++ log' } := by
  have htouched (a : Nat) : touched (R dst).unit dst (m'.log ++ log') a ↔
      touched (R dst).unit dst m'.log a ∨ op.Erases (R dst).unit a ∨ op.Programs a := by
    rw [touched_append]
    simp [touched, hops]
  have hunit : (m.dev.region dst).unit = (R dst).unit := (h.unit dst).trans h.unit_eq
  have hregion : ((m.dev.setRegion dst (apply (m.dev.region dst))).region dst) =
      apply (m.dev.region dst) := FlashDev.setRegion_same ..
  have hregion' : ((m'.dev.setRegion dst (apply (m'.dev.region dst))).region dst) =
      apply (m'.dev.region dst) := FlashDev.setRegion_same ..
  have hother (id : TargetId) (hid : id ≠ dst) :
      (m.dev.setRegion dst (apply (m.dev.region dst))).region id = m.dev.region id ∧
      (m'.dev.setRegion dst (apply (m'.dev.region dst))).region id = m'.dev.region id :=
    ⟨FlashDev.setRegion_other _ _ hid, FlashDev.setRegion_other _ _ hid⟩
  refine ⟨hp, h.steady, fun id => ?_, fun id => ?_, ?_, ?_, fun id hid => ?_, fun a ha => ?_,
    fun a ha => ?_, h.mem, h.info⟩
  · by_cases hid : id = dst
    · subst hid
      show (_ : Region).size = (_ : Region).size
      rw [hregion, hregion', heffect.size, heffect.size]
      exact h.size id
    · rw [(hother id hid).1, (hother id hid).2]
      exact h.size id
  · by_cases hid : id = dst
    · subst hid
      rw [hregion, hregion', heffect.unit, heffect.unit]
      exact h.unit id
    · rw [(hother id hid).1, (hother id hid).2]
      exact h.unit id
  · rw [hregion', heffect.size]
    exact h.size_eq
  · rw [hregion', heffect.unit]
    exact h.unit_eq
  · rw [(hother id hid).1, (hother id hid).2]
    exact h.others id hid
  · rw [htouched, not_or] at ha
    obtain ⟨hbefore, hnow⟩ := ha
    have hkept := h.kept a hbefore
    rw [hregion, hregion', heffect.outside _ _ (by rwa [hunit]),
      heffect.outside _ _ (by rwa [h.unit_eq])]
    exact hkept
  · rw [hregion, hregion']
    by_cases hnow : op.Erases (m.dev.region dst).unit a ∨ op.Programs a
    · exact heffect.inside _ _ a (h.unit dst) hnow
    · rw [heffect.outside _ _ hnow, heffect.outside _ _ (by rwa [← h.unit dst])]
      refine h.same a (((htouched a).mp ha).resolve_right ?_)
      rwa [← hunit]

theorem Alike.record {m m' : Machine FlashDev κ} (h : Alike dst r R m m')
    {log log' : List Event} (hops : opsOn dst log' = []) :
    Alike dst r R { m with log := log } { m' with log := m'.log ++ log' } := by
  have htouched (a : Nat) : touched (R dst).unit dst (m'.log ++ log') a ↔
      touched (R dst).unit dst m'.log a := by
    rw [touched_append]
    simp [not_touched_of_nil hops]
  refine ⟨h.on, h.steady, h.size, h.unit, h.size_eq, h.unit_eq, h.others, fun a ha => ?_,
    fun a ha => ?_, h.mem, h.info⟩
  · rw [htouched] at ha
    exact h.kept a ha
  · rw [htouched] at ha
    exact h.same a ha

theorem follows_mutate (id : TargetId) (inRange : Nat → Prop) [DecidablePred inRange]
    {op : Op} {apply : Region → Region} {e : Bool → Event} (heffect : OpEffect op apply)
    (htrue : opsOn id [e true] = [op]) (hfalse : opsOn id [e false] = [])
    {Q : Bool → Machine FlashDev κ → Prop} (hid : ∀ m, P m → id = dst)
    (hok : ∀ m : Machine FlashDev κ, P m → Q true { m with
      dev := m.dev.setRegion id (apply (m.dev.region id))
      log := m.log ++ [e true] })
    (hno : ∀ m : Machine FlashDev κ, P m → Q false { m with log := m.log ++ [e false] }) :
    Follows dst r R P (mutate id inRange op apply e) Q := by
  have hrun (m : Machine FlashDev κ) {ok : Bool} {d : FlashDev}
      (h : performIn id inRange op apply m.dev = (ok, d)) :
      mutate id inRange op apply e m =
        (ok, { m with dev := d, log := m.log ++ [e ok] }) := by
    simp [mutate, h]
  have hidle : Within Idles (mutate id inRange op apply e : Prog (Machine FlashDev κ) _) :=
    (idles_performIn id inRange heffect).bind fun _ => (idles_emit _).bind fun _ => .pure _
  refine follows_of_idles hidle fun m m' h hP => ?_
  obtain rfl := hid m' hP
  by_cases hin : inRange (m'.dev.region id).size
  swap
  · have hin' : ¬inRange (m.dev.region id).size := by rwa [h.size]
    rw [hrun m (if_neg hin'), hrun m' (if_neg hin)]
    exact .inr ⟨rfl, h.record hfalse, hno m' hP⟩
  have hin' : inRange (m.dev.region id).size := by rwa [h.size]
  rw [hrun m' ((if_pos hin).trans (FlashDev.perform_steady h.steady ..))]
  obtain ⟨p, hp, hperform⟩ | hperform :=
    perform_cases h.on id op (apply (m.dev.region id))
  · rw [hrun m ((if_pos hin').trans hperform)]
    exact .inr ⟨rfl, h.advance heffect hp htrue, hok m' hP⟩
  · rw [hrun m ((if_pos hin').trans hperform)]
    exact .inl (h.stop rfl htrue rfl)

theorem follows_erase (hc : c → h.target = dst) : Follows dst r R
    (Has dst R c info T : Machine FlashDev κ → Prop)
    (eraseWithFeed (regionIo backend) h off len)
    fun ok m => Has dst R c info T m ∧ (ok = true → ∀ a, Covers (R dst).unit off len a →
      touched (R dst).unit dst m.log a) := by
  refine follows_mutate h.target (fun size => (backend h.target).InRange size off len)
    (e := .erased h.target off len) (opEffect_erase off len) (opsOn_erased_same ..) rfl
    (fun m hm => hc hm.cond) (fun m hm => ?_)
    fun m hm => ⟨hm.grow rfl rfl, fun hno => nomatch hno⟩
  refine ⟨hm.grow rfl rfl, fun _ a ha => ?_⟩
  rw [← hc hm.cond, touched_append, touched_of_op (opsOn_erased_same ..)]
  exact .inr (.inl (by rwa [hc hm.cond]))

theorem follows_ioWrite (hc : c → h.target = dst) {data : List UInt8} : Follows dst r R
    (Has dst R c info T : Machine FlashDev κ → Prop)
    (ioWrite (regionIo backend) h off data)
    fun ok m => Has dst R c info T m ∧ (ok = true →
      (∀ a, off ≤ a → a < off + data.length → touched (R dst).unit dst m.log a) ∧
        ((m.dev.region dst).read off data.length).1 = data) := by
  refine follows_mutate h.target
    (fun size => (backend h.target).InRange size off data.length)
    (e := .wrote h.target off data) (opEffect_program off data) (opsOn_wrote_same ..) rfl
    (fun m hm => hc hm.cond) (fun m hm => ?_)
    fun m hm => ⟨hm.grow rfl rfl, fun hno => nomatch hno⟩
  refine ⟨hm.grow rfl rfl, fun _ => ⟨fun a hlo hhi => ?_, ?_⟩⟩
  · rw [← hc hm.cond, touched_append, touched_of_op (opsOn_wrote_same ..)]
    exact .inr (.inr ⟨hlo, hhi⟩)
  · rw [hc hm.cond, FlashDev.setRegion_same]
    exact readCells_overwrite_same ..

end Storage

end Qboot
