import Qboot.Proofs.Validation
/-!
# The region check over all sizes

Which reads `qbt_fw_crc_check` issues and what its answer says, for the whole range
of start offsets and sizes.  The length of a read is computed as `int`, so from 2^31
bytes on the first read is as long as the region.
-/

namespace Qboot

open Library Bytes Prog Machine Loop

variable {σ κ : Type}

/-! ## What the check promises -/

/-- A read of at most one buffer inside `[addr, addr + size)` of target `id`. -/
def Event.ReadsWithin (id : TargetId) (addr size : Nat) : Event → Prop
  | .read id' off len _ =>
      id' = id ∧ 0 < len ∧ len ≤ bufSize ∧ addr ≤ off ∧ off + len ≤ addr + size
  | _ => False

def Event.succeeded : Event → Bool
  | .read _ _ _ data => data.isSome
  | _ => true

/-- The check of `[addr, addr + size)` from `m` ends, reads only inside the region by
at most a buffer, and answers whether the CRC of the region is `crc` when all its
reads succeed. -/
structure ChecksRegion (env : ReadableEnv σ κ) (h : Handle) (addr size : Nat) (crc : UInt32)
    (m : Machine σ κ) : Prop where
  ends : (iterate (crcCheckRound env.toEnv h addr size) (size + 1) (0, 0xFFFFFFFF) m).1 ≠ none
  reads : Traced m (fwCrcCheck env.toEnv h addr size crc m).2 fun new =>
    ∀ e ∈ new, e.ReadsWithin h.target addr size
  answer : Traced m (fwCrcCheck env.toEnv h addr size crc m).2 fun new =>
    (∀ e ∈ new, e.succeeded = true) →
      ((fwCrcCheck env.toEnv h addr size crc m).1 = true ↔
        env.crc.whole (readCells (env.content m.dev h.target) addr size).1 = crc)

/-- No read of a buffer starts behind the last 32-bit address. -/
def NoWrap (addr size : Nat) : Prop :=
  size = 0 ∨ addr + (size - 1) / bufSize * bufSize < 2 ^ 32

/-! ## Regions below 2^31 bytes -/

section Small

variable {env : ReadableEnv σ κ} {m₀ : Machine σ κ} {h : Handle} {addr size : Nat}

/-- The invariant of `qbt_fw_crc_check`: every read so far was a good one, and the
accumulator covers what lies before the position. -/
structure CheckedTo (env : ReadableEnv σ κ) (m₀ : Machine σ κ) (h : Handle)
    (addr size : Nat) (c : Nat × UInt32) (m : Machine σ κ) : Prop where
  content : env.content m.dev = env.content m₀.dev
  reads : Traced m₀ m fun new =>
    ∀ e ∈ new, e.ReadsWithin h.target addr size ∧ e.succeeded = true
  bound : c.1 ≤ size
  aligned : bufSize ∣ c.1 ∨ c.1 = size
  acc : c.2 = env.crc.cycCal 0xFFFFFFFF
    (readCells (env.content m₀.dev h.target) addr c.1).1

def CheckedEnd (env : ReadableEnv σ κ) (m₀ : Machine σ κ) (h : Handle) (addr size : Nat)
    (r : Option UInt32) (m : Machine σ κ) : Prop :=
  (Traced m₀ m fun new => ∀ e ∈ new, e.ReadsWithin h.target addr size) ∧
    match r with
    | some acc => acc = env.crc.cycCal 0xFFFFFFFF
        (readCells (env.content m₀.dev h.target) addr size).1
    | none => Traced m₀ m fun new => ∃ e ∈ new, e.succeeded = false

theorem crcReadLen_small {pos size : Nat} (hpos : pos < size) (hsize : size < 2 ^ 31) :
    sizeT (min bufSize (i32 (size - pos))) = min bufSize (size - pos) := by
  rw [i32, if_pos (by omega), sizeT, bufSize]
  omega

theorem crcCheckRound_small (hsize : size < 2 ^ 31) (hwrap : NoWrap addr size)
    (c : Nat × UInt32) (m : Machine σ κ) (hI : CheckedTo env m₀ h addr size c m) :
    Ends (CheckedTo env m₀ h addr size) (fun c => size - c.1)
      (CheckedEnd env m₀ h addr size) (size - c.1)
      (crcCheckRound env.toEnv h addr size c m) := by
  obtain ⟨pos, acc⟩ := c
  have hbound : pos ≤ size := hI.bound
  have hacc : acc = env.crc.cycCal 0xFFFFFFFF
    (readCells (env.content m₀.dev h.target) addr pos).1 := hI.acc
  unfold crcCheckRound
  by_cases hdone : size ≤ pos
  · obtain rfl : pos = size := Nat.le_antisymm hbound hdone
    rw [if_pos hdone]
    exact ⟨hI.reads.imp fun new hnew e he => (hnew e he).1, hacc⟩
  rw [if_neg hdone]
  have haligned : bufSize ∣ pos := hI.aligned.resolve_right (by show pos ≠ size; omega)
  generalize hlen : sizeT (min bufSize (i32 (size - pos))) = n
  rw [crcReadLen_small (by omega) hsize] at hlen
  have hbuf : bufSize = 4096 := rfl
  -- the buffer that the position starts is at most the last one
  have hat : u32 (addr + pos) = addr + pos := by
    obtain ⟨k, rfl⟩ := haligned
    have hlast : k ≤ (size - 1) / bufSize := by
      rw [Nat.le_div_iff_mul_le (by omega), Nat.mul_comm]
      omega
    have hmul := Nat.mul_le_mul_right bufSize hlast
    have hfits := hwrap.resolve_left (by omega)
    exact Nat.mod_eq_of_lt (by rw [Nat.mul_comm bufSize k]; omega)
  have hnext : u32 (pos + n) = pos + n := Nat.mod_eq_of_lt (by omega)
  simp only [hat, hnext, Prog.run_bind]
  have hdata := env.read_data h (addr + pos) n m.dev
  have hkeeps := env.read_keeps h (addr + pos) n m.dev
  rw [hI.content] at hdata hkeeps
  have hwithin (data : Option (List UInt8)) :
      (Event.read h.target (addr + pos) n data).ReadsWithin h.target addr size :=
    ⟨rfl, by omega, by omega, by omega, by omega⟩
  rw [run_ioRead]
  rcases hread : env.io.read h (addr + pos) n m.dev with ⟨_ | data, dev⟩
  · refine ⟨hI.reads.concat rfl fun new hnew e he => ?_,
      hI.reads.concat rfl fun new _ => ?_⟩
    · rcases List.mem_append.mp he with he | he
      · exact (hnew e he).1
      · rw [List.mem_singleton.mp he]
        exact hwithin none
    · exact ⟨_, List.mem_append_right _ (List.mem_singleton_self _), rfl⟩
  · rw [hread] at hdata hkeeps
    refine ⟨⟨hkeeps, hI.reads.concat rfl fun new hnew e he => ?_, ?_, ?_, ?_⟩, ?_⟩
    · rcases List.mem_append.mp he with he | he
      · exact hnew e he
      · rw [List.mem_singleton.mp he]
        exact ⟨hwithin _, rfl⟩
    · show pos + n ≤ size
      omega
    · show bufSize ∣ pos + n ∨ pos + n = size
      by_cases hfull : n = bufSize
      · rw [hfull]
        exact .inl (Nat.dvd_add haligned (Nat.dvd_refl bufSize))
      · exact .inr (by omega)
    · show env.crc.cycCal acc data.1 = _
      rw [hacc, hdata data rfl, readCells_append, env.crc.cycCal_append]
    · show size - (pos + n) < size - pos
      omega

theorem fwCrcCheck_of_loop {env : ReadableEnv σ κ} (crc : UInt32) {m m' : Machine σ κ}
    {r : Option UInt32} (hrun : iterate (crcCheckRound env.toEnv h addr size) (size + 1)
      (0, 0xFFFFFFFF) m = (some r, m')) :
    fwCrcCheck env.toEnv h addr size crc m =
      (r.any fun acc => acc ^^^ 0xFFFFFFFF == crc, m') := by
  simp only [fwCrcCheck, Prog.run_bind, hrun, Prog.run_pure]
  cases r <;> rfl

theorem checksRegion_small (env : ReadableEnv σ κ) (h : Handle) (hsize : size < 2 ^ 31)
    (hwrap : NoWrap addr size) (crc : UInt32) (m : Machine σ κ) :
    ChecksRegion env h addr size crc m := by
  have hstart : CheckedTo env m h addr size (0, 0xFFFFFFFF) m :=
    ⟨rfl, ⟨[], by simp, by simp⟩, Nat.zero_le _, .inl (Nat.dvd_zero _),
      (env.crc.cycCal_nil _).symm⟩
  obtain ⟨r, m', hrun, hreads, hr⟩ := iterate_rule
    (crcCheckRound_small hsize hwrap) hstart (Nat.lt_succ_self _)
  have hrun : iterate (crcCheckRound env.toEnv h addr size) (size + 1)
      (0, 0xFFFFFFFF) m = (some r, m') := hrun
  have hcheck := fwCrcCheck_of_loop crc hrun
  refine ⟨by rw [hrun]; simp, by rw [hcheck]; exact hreads, ?_⟩
  rw [hcheck]
  rcases r with _ | acc
  · refine Traced.imp hr fun new hfail hall => ?_
    obtain ⟨e, he, hbad⟩ := hfail
    rw [hall e he] at hbad
    cases hbad
  · refine hreads.imp fun new _ _ => ?_
    have hacc : acc = env.crc.cycCal 0xFFFFFFFF
      (readCells (env.content m.dev h.target) addr size).1 := hr
    rw [CrcLib.whole, ← hacc, Option.any_some, beq_iff_eq]

end Small

/-! ## Regions from 2^31 bytes on -/

theorem crcReadLen_big {size : Nat} (hbig : 2 ^ 31 ≤ size) (hsize : size < 2 ^ 32) :
    sizeT (min bufSize (i32 (size - 0))) = size := by
  rw [i32, if_neg (by omega), sizeT, bufSize]
  omega

theorem grows_crcCheckRound (env : Env σ κ) (h : Handle) (addr size : Nat) (c : Nat × UInt32) :
    Within (Extends Machine.log fun _ => True)
      (crcCheckRound env h addr size c : Prog (Machine σ κ) _) := by
  refine .ite (.pure _) (Within.bind (fun m => extends_concat rfl trivial) fun r => ?_)
  rcases r with _ | data <;> exact .pure _

/-- The first read of a region of 2^31 bytes or more is as long as the region. -/
theorem fwCrcCheck_firstRead (env : Env σ κ) (h : Handle) (addr : Nat) {size : Nat}
    (hbig : 2 ^ 31 ≤ size) (hsize : size < 2 ^ 32) (crc : UInt32) (m : Machine σ κ) :
    Traced m (fwCrcCheck env h addr size crc m).2 fun new =>
      ∃ off data, .read h.target off size data ∈ new := by
  have hgo : ¬size ≤ 0 := by omega
  generalize hfirst : crcCheckRound env h addr size (0, 0xFFFFFFFF) m = x
  have hevent : ∃ off data, x.2.log = m.log ++ [.read h.target off size data] := by
    rw [← hfirst, crcCheckRound, if_neg hgo]
    dsimp only
    generalize hlen : sizeT (min bufSize (i32 (size - 0))) = len
    rw [crcReadLen_big hbig hsize] at hlen
    subst hlen
    rw [run_bind, run_ioRead]
    rcases (env.io.read h (u32 (addr + 0)) size m.dev).1 with _ | data
    · exact ⟨_, _, rfl⟩
    · exact ⟨_, _, rfl⟩
  obtain ⟨off, data, hlog⟩ := hevent
  have hmem : .read h.target off size data ∈ [Event.read h.target off size data] :=
    List.mem_singleton_self _
  obtain ⟨c | r, m₁⟩ := x
  · have hrun : (fwCrcCheck env h addr size crc m).2 =
        (iterate (crcCheckRound env h addr size) size c m₁).2 :=
      congrArg Prod.snd (iterate_again hfirst)
    obtain ⟨more, hmore, -⟩ :=
      within_iterate (grows_crcCheckRound env h addr size) size c m₁
    rw [hrun]
    refine ⟨_ ++ more, ?_, off, data, List.mem_append_left more hmem⟩
    rw [hmore, hlog, List.append_assoc]
  · have hrun : (fwCrcCheck env h addr size crc m).2 = m₁ :=
      congrArg Prod.snd (iterate_done hfirst)
    rw [hrun]
    exact ⟨_, hlog, off, data, hmem⟩

theorem not_checksRegion_big (env : ReadableEnv σ κ) (h : Handle) (addr : Nat) {size : Nat}
    (hbig : 2 ^ 31 ≤ size) (hsize : size < 2 ^ 32) (crc : UInt32) (m : Machine σ κ) :
    ¬ChecksRegion env h addr size crc m := by
  intro hchecks
  obtain ⟨new, hlog, off, data, hmem⟩ := fwCrcCheck_firstRead env.toEnv h addr hbig hsize crc m
  have hreads := (traced_iff hlog).mp hchecks.reads
  obtain ⟨-, -, hlen, -⟩ := hreads _ hmem
  unfold bufSize at hlen
  omega

/-! ## Regions beyond the last address -/

def roomyMachine : Machine FlashDev Unit :=
  steadyMachine (fun _ => ⟨2 ^ 33, 4, fun _ => Flash.erasedByte⟩) ()

theorem roomy_read (h : Handle) (off len : Nat) (hoff : off < 2 ^ 32) (hlen : len < 2 ^ 32) :
    plainEnv.io.read h off len roomyMachine.dev =
      (some (readCells (fun _ => Flash.erasedByte) off len), roomyMachine.dev) := by
  let backend : TargetId → Backend := fun _ => .fal
  have hpower : roomyMachine.dev.power = .steady := rfl
  have hrange : (backend h.target).InRange (roomyMachine.dev.region h.target).size off len :=
    .inr (show off + len ≤ 2 ^ 33 by omega)
  exact regionIo_read hpower hrange

theorem roomy_reads (h : Handle) (addr : Nat) {size : Nat} (hsize : size < 2 ^ 31)
    (crc : UInt32) {j : Nat} (hj : j * bufSize < size) :
    ∃ len data, .read h.target (u32 (addr + j * bufSize)) len (some data) ∈
      (fwCrcCheck plainEnv.toEnv h addr size crc roomyMachine).2.log := by
  let I : Nat × UInt32 → Machine FlashDev Unit → Prop := fun c m =>
    m.dev = roomyMachine.dev ∧ c.1 ≤ size ∧ (bufSize ∣ c.1 ∨ c.1 = size) ∧
      (j * bufSize < c.1 →
        ∃ len data, .read h.target (u32 (addr + j * bufSize)) len (some data) ∈ m.log)
  have hround (c : Nat × UInt32) (m : Machine FlashDev Unit) (hI : I c m) :
      Ends I (fun c => size - c.1) (fun _ m =>
          ∃ len data, .read h.target (u32 (addr + j * bufSize)) len (some data) ∈ m.log)
        (size - c.1) (crcCheckRound plainEnv.toEnv h addr size c m) := by
    obtain ⟨pos, acc⟩ := c
    obtain ⟨hdev, hbound, haligned, hseen⟩ := hI
    unfold crcCheckRound
    by_cases hdone : size ≤ pos
    · rw [if_pos hdone]
      exact hseen (by show j * bufSize < pos; omega)
    rw [if_neg hdone]
    have haligned : bufSize ∣ pos := haligned.resolve_right (by show pos ≠ size; omega)
    generalize hlen : sizeT (min bufSize (i32 (size - pos))) = n
    rw [crcReadLen_small (by omega) hsize] at hlen
    have hbuf : bufSize = 4096 := rfl
    have hnext : u32 (pos + n) = pos + n := Nat.mod_eq_of_lt (by omega)
    have hread := roomy_read h (u32 (addr + pos)) n (Nat.mod_lt _ (by decide)) (by omega)
    simp only [hnext, Prog.run_bind]
    rw [run_ioRead, hdev, hread]
    refine ⟨⟨rfl, ?_, ?_, fun hlt => ?_⟩, ?_⟩
    · show pos + n ≤ size
      omega
    · show bufSize ∣ pos + n ∨ pos + n = size
      by_cases hfull : n = bufSize
      · rw [hfull]
        exact .inl (Nat.dvd_add haligned (Nat.dvd_refl bufSize))
      · exact .inr (by omega)
    · by_cases hbefore : j * bufSize < pos
      · obtain ⟨len, data, hmem⟩ := hseen hbefore
        exact ⟨len, data, List.mem_append_left _ hmem⟩
      · -- the read of this round is the one looked for
        obtain ⟨k, rfl⟩ := haligned
        have hlt : j * bufSize < bufSize * k + n := hlt
        obtain rfl : j = k := by
          rw [hbuf] at hlt hbefore hlen
          omega
        refine ⟨n, (readCells (fun _ => Flash.erasedByte) (u32 (addr + bufSize * j)) n).1,
          List.mem_append_right _ ?_⟩
        rw [Nat.mul_comm j]
        exact List.mem_singleton_self _
    · show size - (pos + n) < size - pos
      omega
  have hstart : I (0, 0xFFFFFFFF) roomyMachine :=
    ⟨rfl, Nat.zero_le _, .inl (Nat.dvd_zero _), fun hlt => absurd hlt (Nat.not_lt_zero _)⟩
  obtain ⟨r, m', hrun, hseen⟩ := iterate_rule hround hstart (Nat.lt_succ_self _)
  have hrun : iterate (crcCheckRound plainEnv.toEnv h addr size) (size + 1)
      (0, 0xFFFFFFFF) roomyMachine = (some r, m') := hrun
  rw [fwCrcCheck_of_loop crc hrun]
  exact hseen

/-- The check of a region does what it should, over every storage content, exactly
when the region is shorter than 2^31 bytes and no buffer of it starts behind the last
32-bit address. -/
theorem checksRegion_iff (h : Handle) (addr size : UInt32) :
    (∀ (σ κ : Type) (env : ReadableEnv σ κ) (crc : UInt32) (m : Machine σ κ),
      ChecksRegion env h addr.toNat size.toNat crc m) ↔
    size.toNat < 2 ^ 31 ∧ NoWrap addr.toNat size.toNat := by
  have hsize := size.toNat_lt
  have haddr := addr.toNat_lt
  generalize size.toNat = size at *
  generalize addr.toNat = addr at *
  constructor
  · intro hall
    have hchecks := hall FlashDev Unit plainEnv.toReadableEnv 0 roomyMachine
    have hsmall : size < 2 ^ 31 := by
      by_contra hbig
      exact not_checksRegion_big plainEnv.toReadableEnv h addr (Nat.le_of_not_lt hbig) hsize 0
        roomyMachine hchecks
    refine ⟨hsmall, ?_⟩
    by_contra hwrap
    unfold NoWrap at hwrap
    push Not at hwrap
    obtain ⟨hpos, hover⟩ := hwrap
    have hbuf : bufSize = 4096 := rfl
    generalize hj : (size - 1) / bufSize = j at hover
    have hlast : j * bufSize < size := by
      have hle := Nat.div_mul_le_self (size - 1) bufSize
      rw [hj] at hle
      omega
    obtain ⟨len, data, hmem⟩ := roomy_reads h addr hsmall 0 hlast
    have hreads := (traced_iff (List.nil_append _).symm).mp hchecks.reads
    obtain ⟨-, -, -, hlow, -⟩ := hreads _ hmem
    -- the offset has wrapped to one before the region
    have hat : u32 (addr + j * bufSize) = addr + j * bufSize - 2 ^ 32 := by
      unfold u32
      omega
    omega
  · rintro ⟨hsmall, hwrap⟩ σ κ env crc m
    exact checksRegion_small env h hsmall hwrap crc m

/-- A body of 2^31 bytes, which a header can announce, is read at once. -/
theorem hugeBody_readAtOnce :
    ¬ChecksRegion plainEnv.toReadableEnv ⟨.download, 0⟩ srcReadPos (2 ^ 31) 0 roomyMachine :=
  not_checksRegion_big plainEnv.toReadableEnv _ _ (Nat.le_refl _) (by decide) 0 roomyMachine

end Qboot
