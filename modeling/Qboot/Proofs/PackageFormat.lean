import Qboot.Model.Packager
import Qboot.Proofs.RegionCrc
/-!
# The package format on both sides

The header that the packager writes is the one that the bootloader reads.  The
strings need room for their terminator, which `struct.pack` does not check.
-/

namespace Qboot

open Library Bytes Prog Machine

variable {σ κ : Type}

/-! ## What the packager writes -/

/-- The header of the packager, up to its own CRC. -/
def packedBody (rawFw pkgObj : List UInt8) (algo algo2 : UInt16) (timestamp : Nat)
    (partName fwVer prodCode : String) : FwInfo where
  type := Block.ofList 4 (ascii "RBL" ++ [0])
  algo := algo
  algo2 := algo2
  timeStamp := .ofNat timestamp
  partName := Block.ofList 16 (utf8 partName)
  fwVer := Block.ofList 24 (utf8 fwVer)
  prodCode := Block.ofList 24 (utf8 prodCode)
  pkgCrc := Crc32.checksum pkgObj
  rawCrc := Crc32.checksum rawFw
  rawSize := .ofNat rawFw.length
  pkgSize := .ofNat pkgObj.length
  hdrCrc := 0

def FwInfo.sealed (h : FwInfo) : FwInfo := { h with hdrCrc := Crc32.checksum h.bodyBytes }

section Packing

variable {rawFw pkgObj : List UInt8} {algo algo2 : UInt16} {timestamp : Nat}
  {partName fwVer prodCode : String}

theorem packUint_toNat16 (n : UInt16) : packUint 2 n.toNat = some (leBytes 2 n.toNat) :=
  if_pos n.toNat_lt

theorem packUint_toNat32 (n : UInt32) : packUint 4 n.toNat = some (leBytes 4 n.toNat) :=
  if_pos n.toNat_lt

theorem packUint_some {n : Nat} {bytes : List UInt8} (h : packUint 4 n = some bytes) :
    n < 2 ^ 32 ∧ bytes = leBytes 4 (UInt32.ofNat n).toNat := by
  unfold packUint at h
  split at h
  · rename_i hlt
    rw [UInt32.toNat_ofNat_of_lt' hlt]
    exact ⟨hlt, (Option.some.inj h).symm⟩
  · cases h

theorem createRblHeader_some {header : List UInt8}
    (h : createRblHeader rawFw pkgObj algo.toNat algo2.toNat timestamp partName fwVer
      prodCode = some header) :
    header = (packedBody rawFw pkgObj algo algo2 timestamp partName fwVer
        prodCode).sealed.toBytes ∧
      timestamp < 2 ^ 32 ∧ rawFw.length < 2 ^ 32 := by
  simp only [createRblHeader, crc32, packUint_toNat16, packUint_toNat32,
    Option.bind_eq_bind, Option.bind_some, Option.pure_def, Option.bind_eq_some_iff,
    Option.some.injEq] at h
  obtain ⟨time, htime, size, hsize, pkg, hpkg, rfl⟩ := h
  obtain ⟨htimeLt, rfl⟩ := packUint_some htime
  obtain ⟨hsizeLt, rfl⟩ := packUint_some hsize
  obtain ⟨-, rfl⟩ := packUint_some hpkg
  exact ⟨rfl, htimeLt, hsizeLt⟩

theorem createRblHeader_of_lt (htime : timestamp < 2 ^ 32) (hraw : rawFw.length < 2 ^ 32)
    (hpkg : pkgObj.length < 2 ^ 32) :
    createRblHeader rawFw pkgObj algo.toNat algo2.toNat timestamp partName fwVer prodCode =
      some (packedBody rawFw pkgObj algo algo2 timestamp partName fwVer
        prodCode).sealed.toBytes := by
  have hfits {n : Nat} (h : n < 2 ^ 32) :
      packUint 4 n = some (leBytes 4 (UInt32.ofNat n).toNat) := by
    rw [UInt32.toNat_ofNat_of_lt' h]
    exact if_pos h
  simp only [createRblHeader, crc32, packUint_toNat16, packUint_toNat32, hfits htime,
    hfits hraw, hfits hpkg, Option.bind_eq_bind, Option.bind_some, Option.pure_def]
  rfl

end Packing

/-! ## Strings in their fields -/

/-- The C string in a character array; `none` where the terminator is missing. -/
def cString {n : Nat} (field : Block n) : Option (List UInt8) :=
  if 0 ∈ field.1 then some (field.1.takeWhile (· ≠ 0)) else none

theorem strEq_of_cString {n : Nat} {field : Block n} {text : List UInt8}
    (h : cString field = some text) : strEq field.1 text = true := by
  unfold cString at h
  split at h
  swap
  · cases h
  rename_i hzero
  obtain ⟨front, rest, hsplit, hfront⟩ := List.eq_append_cons_of_mem hzero
  rw [hsplit, takeWhile_append_zero hfront] at h
  obtain rfl := Option.some.inj h
  refine strEq_iff.mpr ⟨rest, ?_⟩
  rw [hsplit, List.append_assoc]
  rfl

/-- A string keeps its terminator exactly where it is shorter than the field. -/
theorem cString_ofList {n : Nat} {l : List UInt8} (h : 0 ∉ l) :
    cString (Block.ofList n l) = some l ↔ l.length < n := by
  constructor
  · intro hread
    unfold cString at hread
    split at hread
    swap
    · cases hread
    rename_i hzero
    have hstart : l <+: (Block.ofList n l).1 := by
      have hprefix := List.takeWhile_prefix (· ≠ (0 : UInt8)) (l := (Block.ofList n l).1)
      rwa [Option.some.inj hread] at hprefix
    have hle := hstart.length_le
    rw [(Block.ofList n l).2] at hle
    refine lt_of_le_of_ne hle fun hfull => h ?_
    -- a string that fills the field is all of it
    have hall := hstart.eq_of_length (hfull.trans (Block.ofList n l).2.symm)
    rwa [← hall] at hzero
  · intro hlt
    obtain ⟨k, rfl⟩ : ∃ k, n = l.length + (k + 1) := ⟨n - l.length - 1, by omega⟩
    have hfield : (Block.ofList (l.length + (k + 1)) l).1 =
        l ++ 0 :: List.replicate k 0 := by
      have hzeros : List.replicate (l.length + (k + 1)) (0 : UInt8) =
          (0 :: List.replicate k 0) ++ List.replicate l.length 0 := by
        rw [Nat.add_comm, ← List.replicate_append_replicate, List.replicate_succ]
      show (l ++ List.replicate (l.length + (k + 1)) 0).take (l.length + (k + 1)) = _
      rw [hzeros, ← List.append_assoc]
      apply List.take_left'
      simp
    rw [cString, hfield, if_pos (by simp), takeWhile_append_zero h]

theorem zero_notMem_utf8EncodeChar {c : Char} (h : c.val ≠ 0) :
    0 ∉ String.utf8EncodeChar c := by
  have hpos : c.val.toNat ≠ 0 := fun hzero => h (UInt32.toNat_inj.mp hzero)
  have hbyte {n : Nat} (hlow : n ≠ 0) (hhigh : n < 256) : (0 : UInt8) ≠ UInt8.ofNat n := by
    intro heq
    have hnat := congrArg UInt8.toNat heq
    rw [UInt8.toNat_ofNat', Nat.mod_eq_of_lt hhigh] at hnat
    exact hlow hnat.symm
  unfold String.utf8EncodeChar
  dsimp only
  split
  · simp only [List.mem_singleton]
    exact hbyte hpos (by omega)
  split
  · simp only [List.mem_cons, List.not_mem_nil, or_false, not_or]
    exact ⟨hbyte (by omega) (by omega), hbyte (by omega) (by omega)⟩
  split
  · simp only [List.mem_cons, List.not_mem_nil, or_false, not_or]
    exact ⟨hbyte (by omega) (by omega), hbyte (by omega) (by omega),
      hbyte (by omega) (by omega)⟩
  · simp only [List.mem_cons, List.not_mem_nil, or_false, not_or]
    exact ⟨hbyte (by omega) (by omega), hbyte (by omega) (by omega),
      hbyte (by omega) (by omega), hbyte (by omega) (by omega)⟩

def NulFree (s : String) : Prop := ∀ c ∈ s.toList, c.val ≠ 0

theorem NulFree.utf8 {s : String} (h : NulFree s) : 0 ∉ utf8 s := by
  intro hmem
  obtain ⟨c, hc, hzero⟩ := List.mem_flatMap.mp hmem
  exact zero_notMem_utf8EncodeChar (h c hc) hzero

/-! ## What the bootloader reads -/

/-- Target storage that starts with `header` and `body`. -/
def HoldsPackage (cells : Nat → UInt8) (header body : List UInt8) : Prop :=
  (readCells cells 0 (header.length + body.length)).1 = header ++ body

/-- The body check of `qbt_fw_check` accepts target `h`, unless a read fails. -/
def BodyAccepted (env : StableEnv σ κ) (h : Handle) (info : FwInfo) (m : Machine σ κ) :
    Prop :=
  Traced m (fwCrcCheck env.toEnv h srcReadPos info.pkgSize.toNat info.pkgCrc m).2
    fun new => (∀ e ∈ new, e.succeeded = true) →
      (fwCrcCheck env.toEnv h srcReadPos info.pkgSize.toNat info.pkgCrc m).1 = true

/-- What the bootloader reads of a package is what the packager was given, and both
checks accept it. -/
structure ReadBack (rawFw pkgObj : List UInt8) (algo algo2 : UInt16) (timestamp : Nat)
    (partName fwVer prodCode : String) (info : FwInfo) : Prop where
  algo : info.algo = algo
  algo2 : info.algo2 = algo2
  timeStamp : info.timeStamp.toNat = timestamp
  partName : cString info.partName = some (utf8 partName)
  fwVer : cString info.fwVer = some (utf8 fwVer)
  prodCode : cString info.prodCode = some (utf8 prodCode)
  pkgCrc : info.pkgCrc = Crc32.checksum pkgObj
  rawCrc : info.rawCrc = Crc32.checksum rawFw
  rawSize : info.rawSize.toNat = rawFw.length
  pkgSize : info.pkgSize.toNat = pkgObj.length
  checked : fwInfoCheck crc32Lib info = true

/-- Packager and bootloader agree on a package with this header: wherever it is
stored, the header is read back and the body accepted. -/
def FormatAgrees (rawFw pkgObj : List UInt8) (algo algo2 : UInt16) (timestamp : Nat)
    (partName fwVer prodCode : String) (header : List UInt8) : Prop :=
  header.length = srcReadPos ∧
  (∀ cells, HoldsPackage cells header pkgObj →
    ReadBack rawFw pkgObj algo algo2 timestamp partName fwVer prodCode (headerOf cells)) ∧
  ∀ (σ κ : Type) (env : StableEnv σ κ) (h : Handle) (m : Machine σ κ),
    env.crc = crc32Lib → HoldsPackage (env.content m.dev h.target) header pkgObj →
      BodyAccepted env h (headerOf (env.content m.dev h.target)) m

theorem HoldsPackage.headerOf {cells : Nat → UInt8} {info : FwInfo} {body : List UInt8}
    (h : HoldsPackage cells info.toBytes body) : headerOf cells = info := by
  unfold HoldsPackage at h
  rw [info.length_toBytes, readCells_append] at h
  have hfront := List.append_inj_left h
    ((readCells cells 0 srcReadPos).2.trans info.length_toBytes.symm)
  have hblock : readCells cells 0 srcReadPos = ⟨info.toBytes, info.length_toBytes⟩ :=
    Subtype.ext hfront
  rw [Qboot.headerOf, hblock, FwInfo.ofBytes_toBytes]

theorem HoldsPackage.body {cells : Nat → UInt8} {info : FwInfo} {body : List UInt8}
    (h : HoldsPackage cells info.toBytes body) :
    (readCells cells srcReadPos body.length).1 = body := by
  unfold HoldsPackage at h
  rw [info.length_toBytes, readCells_append, Nat.zero_add] at h
  exact List.append_inj_right h
    ((readCells cells 0 srcReadPos).2.trans info.length_toBytes.symm)

theorem exists_holdsPackage (header body : List UInt8) :
    ∃ cells, HoldsPackage cells header body := by
  refine ⟨overwrite (fun _ => 0) 0 (header ++ body), ?_⟩
  have hread := readCells_overwrite_same (fun _ => 0) 0 (header ++ body)
  rwa [List.length_append] at hread

section Agree

variable {rawFw pkgObj : List UInt8} {algo algo2 : UInt16} {timestamp : Nat}
  {partName fwVer prodCode : String}

theorem fwInfoCheck_sealed {info : FwInfo} (h : strEq info.type.1 (ascii "RBL") = true) :
    fwInfoCheck crc32Lib info.sealed = true := by
  have hcrc : crc32Lib.cal info.sealed.bodyBytes = info.sealed.hdrCrc := rfl
  have htype : strEq info.sealed.toBytes (ascii "RBL") = true := by
    obtain ⟨after, hafter⟩ := info.sealed.toBytes_eq
    rw [hafter]
    exact strEq_append h after
  rw [fwInfoCheck, htype, hcrc, beq_self_eq_true, Bool.and_self]

theorem bodyAccepted {info : FwInfo} {body : List UInt8} (hsize : info.pkgSize.toNat = body.length)
    (hcrc : info.pkgCrc = Crc32.checksum body) (hsmall : body.length < 2 ^ 31)
    (env : StableEnv σ κ) (h : Handle) (m : Machine σ κ) (henv : env.crc = crc32Lib)
    (hholds : HoldsPackage (env.content m.dev h.target) info.toBytes body) :
    BodyAccepted env h info m := by
  have hpos : srcReadPos = 96 := rfl
  have hbuf : bufSize = 4096 := rfl
  have hwrap : NoWrap srcReadPos body.length := by
    by_cases hzero : body.length = 0
    · exact .inl hzero
    · have hle := Nat.div_mul_le_self (body.length - 1) bufSize
      exact .inr (by omega)
  have hchecks := checksRegion_small env.toReadableEnv h hsmall hwrap info.pkgCrc m
  unfold BodyAccepted
  rw [hsize]
  refine hchecks.answer.imp fun new hanswer hall => (hanswer hall).mpr ?_
  rw [hholds.body, hcrc, CrcLib.whole, henv]
  rfl

/-- The packager and the bootloader agree on a package exactly when each of its
strings leaves room for a terminator in its field. -/
theorem formatAgrees_iff (hpart : NulFree partName) (hver : NulFree fwVer)
    (hprod : NulFree prodCode) (hpkg : pkgObj.length < 2 ^ 31) {header : List UInt8}
    (hheader : createRblHeader rawFw pkgObj algo.toNat algo2.toNat timestamp partName
      fwVer prodCode = some header) :
    FormatAgrees rawFw pkgObj algo algo2 timestamp partName fwVer prodCode header ↔
      (utf8 partName).length < 16 ∧ (utf8 fwVer).length < 24 ∧
        (utf8 prodCode).length < 24 := by
  obtain ⟨rfl, htime, hraw⟩ := createRblHeader_some hheader
  generalize hinfo : (packedBody rawFw pkgObj algo algo2 timestamp partName fwVer
    prodCode).sealed = info
  constructor
  · rintro ⟨-, hread, -⟩
    obtain ⟨cells, hcells⟩ := exists_holdsPackage info.toBytes pkgObj
    have hback := hread cells hcells
    rw [hcells.headerOf, ← hinfo] at hback
    exact ⟨(cString_ofList hpart.utf8).mp hback.partName,
      (cString_ofList hver.utf8).mp hback.fwVer,
      (cString_ofList hprod.utf8).mp hback.prodCode⟩
  · rintro ⟨hpartLen, hverLen, hprodLen⟩
    have hsize : info.pkgSize.toNat = pkgObj.length := by
      rw [← hinfo]
      exact UInt32.toNat_ofNat_of_lt' (hpkg.trans (by decide))
    refine ⟨info.length_toBytes, fun cells hcells => ?_, fun σ κ env h m henv hholds => ?_⟩
    · rw [hcells.headerOf]
      subst hinfo
      exact
        { algo := rfl
          algo2 := rfl
          timeStamp := UInt32.toNat_ofNat_of_lt' htime
          partName := (cString_ofList hpart.utf8).mpr hpartLen
          fwVer := (cString_ofList hver.utf8).mpr hverLen
          prodCode := (cString_ofList hprod.utf8).mpr hprodLen
          pkgCrc := rfl
          rawCrc := rfl
          rawSize := UInt32.toNat_ofNat_of_lt' hraw
          pkgSize := hsize
          checked := fwInfoCheck_sealed rfl }
    · rw [hholds.headerOf]
      have hcrc : info.pkgCrc = Crc32.checksum pkgObj := by
        rw [← hinfo]
        rfl
      exact bodyAccepted hsize hcrc hpkg env h m henv hholds

end Agree

theorem oneByte_agrees :
    FormatAgrees [7] [7] 0 1 1 "app" "v1.00" "QBOOT"
      (packedBody [7] [7] 0 1 1 "app" "v1.00" "QBOOT").sealed.toBytes := by
  have hheader := @createRblHeader_of_lt [7] [7] 0 1 1 "app" "v1.00" "QBOOT" (by decide)
    (by decide) (by decide)
  have hlens : (utf8 "app").length < 16 ∧ (utf8 "v1.00").length < 24 ∧
      (utf8 "QBOOT").length < 24 := by decide
  refine (formatAgrees_iff ?_ ?_ ?_ (by decide) hheader).mpr hlens
  all_goals
    unfold NulFree
    simp

/-- A target name of 16 bytes is written without a terminator. -/
theorem fullName_disagrees :
    createRblHeader [7] [7] (0 : UInt16).toNat (1 : UInt16).toNat 1 "application_slot" "v1.00"
        "QBOOT" =
      some (packedBody [7] [7] 0 1 1 "application_slot" "v1.00" "QBOOT").sealed.toBytes ∧
      ¬FormatAgrees [7] [7] 0 1 1 "application_slot" "v1.00" "QBOOT"
        (packedBody [7] [7] 0 1 1 "application_slot" "v1.00" "QBOOT").sealed.toBytes := by
  have hheader := @createRblHeader_of_lt [7] [7] 0 1 1 "application_slot" "v1.00" "QBOOT"
    (by decide) (by decide) (by decide)
  refine ⟨hheader, ?_⟩
  generalize hinfo : (packedBody [7] [7] 0 1 1 "application_slot" "v1.00" "QBOOT").sealed = info
  rintro ⟨-, hread, -⟩
  obtain ⟨cells, hcells⟩ := exists_holdsPackage info.toBytes [7]
  have hname := (hread cells hcells).partName
  rw [hcells.headerOf, ← hinfo] at hname
  have hnone : cString (Block.ofList 16 (utf8 "application_slot")) = none := by decide
  cases hnone.symm.trans hname

end Qboot
