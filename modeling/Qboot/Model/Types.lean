import Qboot.Library.Bytes
/-!
# Data model

Build configuration, result codes, the firmware header and the storage targets.
Sizes and positions are natural numbers; where the source lets a 32-bit value
wrap or reads it as signed, the conversion is written out (`u32`, `i32`).
-/

namespace Qboot

open Library Bytes

/-! ## Machine integers -/

/-- The value kept by an `rt_uint32_t`. -/
def u32 (n : Nat) : Nat := n % 2 ^ 32

/-- The value of an `rt_uint32_t` read as `int`. -/
def i32 (n : Nat) : Int := if n < 2 ^ 31 then n else (n : Int) - 2 ^ 32

/-- `RT_ALIGN` on `rt_uint32_t` operands -/
def rtAlign (size align : Nat) : Nat :=
  u32 (size + (align + 2 ^ 32 - 1)) &&& (2 ^ 32 - 1 - u32 (align + 2 ^ 32 - 1))

/-- `RT_ALIGN_DOWN` on `rt_uint32_t` operands -/
def rtAlignDown (size align : Nat) : Nat :=
  u32 size &&& (2 ^ 32 - 1 - u32 (align + 2 ^ 32 - 1))

/-! ## Build configuration -/

/-- The options of the configuration that decide buffers and registered codecs. -/
structure Build where
  usingAes : Bool
  usingGzip : Bool
  usingQuicklz : Bool
  usingFastlz : Bool
  usingHpatchlite : Bool
  deriving DecidableEq, Repr

/-- `QBOOT_USING_COMPRESSION`: the output buffer is separate from the input. -/
def Build.usingCompression (b : Build) : Bool :=
  b.usingAes || b.usingGzip || b.usingQuicklz || b.usingFastlz

/-- `QBOOT_BUF_SIZE` -/
def bufSize : Nat := 4096

/-- `QBOOT_CMPRS_READ_SIZE` -/
def cmprsReadSize : Nat := 4096

/-- `QBOOT_RELEASE_SIGN_ALIGN_SIZE` -/
def releaseSignAlignSize : Nat := 8

/-- `QBOOT_RELEASE_SIGN_WORD` -/
def releaseSignWord : Nat := 0x5555AAAA

/-! ## Result codes -/

/-- `rt_err_t`, as far as callers tell the codes apart; `-ENOSPC` is `-RT_ENOSPC`. -/
inductive RtErr where
  | eok
  | enospc
  | error
  deriving DecidableEq, Repr

/-! ## Firmware header -/

/-- `fw_info_t`: the package header. -/
structure FwInfo where
  type : Block 4
  algo : UInt16
  algo2 : UInt16
  timeStamp : UInt32
  partName : Block 16
  fwVer : Block 24
  prodCode : Block 24
  pkgCrc : UInt32
  rawCrc : UInt32
  rawSize : UInt32
  pkgSize : UInt32
  hdrCrc : UInt32
  deriving DecidableEq

/-- `sizeof(fw_info_t)`, which `qboot_src_read_pos` answers. -/
def srcReadPos : Nat := 96

namespace FwInfo

/-- The bytes of the header in memory, up to `hdr_crc`. -/
def bodyBytes (h : FwInfo) : List UInt8 :=
  h.type.1 ++ leBytes 2 h.algo.toNat ++ leBytes 2 h.algo2.toNat ++
    leBytes 4 h.timeStamp.toNat ++ h.partName.1 ++ h.fwVer.1 ++ h.prodCode.1 ++
    leBytes 4 h.pkgCrc.toNat ++ leBytes 4 h.rawCrc.toNat ++
    leBytes 4 h.rawSize.toNat ++ leBytes 4 h.pkgSize.toNat

/-- The bytes of the header in memory. -/
def toBytes (h : FwInfo) : List UInt8 :=
  h.bodyBytes ++ leBytes 4 h.hdrCrc.toNat

private def field (b : Block srcReadPos) (off len : Nat) : Block len :=
  Block.ofList len (slice b.1 off (off + len))

private def field32 (b : Block srcReadPos) (off : Nat) : UInt32 :=
  UInt32.ofNat (leNat (slice b.1 off (off + 4)))

private def field16 (b : Block srcReadPos) (off : Nat) : UInt16 :=
  UInt16.ofNat (leNat (slice b.1 off (off + 2)))

/-- The header that a 96-byte buffer holds. -/
def ofBytes (b : Block srcReadPos) : FwInfo where
  type := field b 0 4
  algo := field16 b 4
  algo2 := field16 b 6
  timeStamp := field32 b 8
  partName := field b 12 16
  fwVer := field b 28 24
  prodCode := field b 52 24
  pkgCrc := field32 b 76
  rawCrc := field32 b 80
  rawSize := field32 b 84
  pkgSize := field32 b 88
  hdrCrc := field32 b 92

@[simp] theorem length_bodyBytes (h : FwInfo) : h.bodyBytes.length = 92 := by
  simp [bodyBytes, h.type.2, h.partName.2, h.fwVer.2, h.prodCode.2]

@[simp] theorem length_toBytes (h : FwInfo) : h.toBytes.length = srcReadPos := by
  simp [toBytes, srcReadPos]

private theorem slice_append_mid (front mid back : List UInt8) {off len : Nat}
    (hoff : front.length = off) (hlen : mid.length = len) :
    slice (front ++ (mid ++ back)) off (off + len) = mid := by
  subst hoff hlen
  rw [← take_drop_eq_slice, List.drop_left, List.take_left]

private theorem field_eq {b : Block srcReadPos} {off len : Nat} {c : Block len}
    (h : slice b.1 off (off + len) = c.1) : field b off len = c := by
  apply Subtype.ext
  have hlen : c.1.length ≤ len := c.2.le
  have htake := Block.take_ofList hlen
  rw [c.2, List.take_of_length_le (Block.ofList len c.1).2.le] at htake
  rw [field, h, htake]

private theorem field32_eq {b : Block srcReadPos} {off : Nat} {v : UInt32}
    (h : slice b.1 off (off + 4) = leBytes 4 v.toNat) : field32 b off = v := by
  rw [field32, h, leNat_leBytes 4 _ v.toNat_lt]
  exact UInt32.ofNat_toNat

private theorem field16_eq {b : Block srcReadPos} {off : Nat} {v : UInt16}
    (h : slice b.1 off (off + 2) = leBytes 2 v.toNat) : field16 b off = v := by
  rw [field16, h, leNat_leBytes 2 _ v.toNat_lt]
  exact UInt16.ofNat_toNat

/-- A header that is stored and read back is the same header. -/
theorem ofBytes_toBytes (h : FwInfo) :
    ofBytes ⟨h.toBytes, h.length_toBytes⟩ = h := by
  have split (front mid back : List UInt8) (off len : Nat)
      (heq : h.toBytes = front ++ (mid ++ back)) (hoff : front.length = off)
      (hlen : mid.length = len) : slice h.toBytes off (off + len) = mid := by
    rw [heq]
    exact slice_append_mid front mid back hoff hlen
  obtain ⟨⟨type, ht⟩, algo, algo2, time, ⟨part, hp⟩, ⟨ver, hv⟩, ⟨code, hc⟩,
    pkgCrc, rawCrc, rawSize, pkgSize, hdrCrc⟩ := h
  simp only [ofBytes, mk.injEq]
  refine ⟨field_eq ?_, field16_eq ?_, field16_eq ?_, field32_eq ?_, field_eq ?_,
    field_eq ?_, field_eq ?_, field32_eq ?_, field32_eq ?_, field32_eq ?_,
    field32_eq ?_, field32_eq ?_⟩
  · exact split [] type _ 0 4 (by simp [toBytes, bodyBytes]; rfl) rfl ht
  · exact split type (leBytes 2 algo.toNat) _ 4 2
      (by simp [toBytes, bodyBytes]; rfl) ht (by simp)
  · exact split (type ++ leBytes 2 algo.toNat) (leBytes 2 algo2.toNat) _ 6 2
      (by simp [toBytes, bodyBytes]; rfl) (by simp [ht]) (by simp)
  · exact split (type ++ leBytes 2 algo.toNat ++ leBytes 2 algo2.toNat)
      (leBytes 4 time.toNat) _ 8 4
      (by simp [toBytes, bodyBytes]; rfl) (by simp [ht]) (by simp)
  · exact split (type ++ leBytes 2 algo.toNat ++ leBytes 2 algo2.toNat ++
      leBytes 4 time.toNat) part _ 12 16
      (by simp [toBytes, bodyBytes]; rfl) (by simp [ht]) hp
  · exact split (type ++ leBytes 2 algo.toNat ++ leBytes 2 algo2.toNat ++
      leBytes 4 time.toNat ++ part) ver _ 28 24
      (by simp [toBytes, bodyBytes]; rfl) (by simp [ht, hp]) hv
  · exact split (type ++ leBytes 2 algo.toNat ++ leBytes 2 algo2.toNat ++
      leBytes 4 time.toNat ++ part ++ ver) code _ 52 24
      (by simp [toBytes, bodyBytes]; rfl) (by simp [ht, hp, hv]) hc
  · exact split (type ++ leBytes 2 algo.toNat ++ leBytes 2 algo2.toNat ++
      leBytes 4 time.toNat ++ part ++ ver ++ code) (leBytes 4 pkgCrc.toNat) _ 76 4
      (by simp [toBytes, bodyBytes]; rfl) (by simp [ht, hp, hv, hc]) (by simp)
  · exact split (type ++ leBytes 2 algo.toNat ++ leBytes 2 algo2.toNat ++
      leBytes 4 time.toNat ++ part ++ ver ++ code ++ leBytes 4 pkgCrc.toNat)
      (leBytes 4 rawCrc.toNat) _ 80 4
      (by simp [toBytes, bodyBytes]; rfl) (by simp [ht, hp, hv, hc]) (by simp)
  · exact split (type ++ leBytes 2 algo.toNat ++ leBytes 2 algo2.toNat ++
      leBytes 4 time.toNat ++ part ++ ver ++ code ++ leBytes 4 pkgCrc.toNat ++
      leBytes 4 rawCrc.toNat) (leBytes 4 rawSize.toNat) _ 84 4
      (by simp [toBytes, bodyBytes]; rfl) (by simp [ht, hp, hv, hc]) (by simp)
  · exact split (type ++ leBytes 2 algo.toNat ++ leBytes 2 algo2.toNat ++
      leBytes 4 time.toNat ++ part ++ ver ++ code ++ leBytes 4 pkgCrc.toNat ++
      leBytes 4 rawCrc.toNat ++ leBytes 4 rawSize.toNat)
      (leBytes 4 pkgSize.toNat) _ 88 4
      (by simp [toBytes, bodyBytes]; rfl) (by simp [ht, hp, hv, hc]) (by simp)
  · exact split (type ++ leBytes 2 algo.toNat ++ leBytes 2 algo2.toNat ++
      leBytes 4 time.toNat ++ part ++ ver ++ code ++ leBytes 4 pkgCrc.toNat ++
      leBytes 4 rawCrc.toNat ++ leBytes 4 rawSize.toNat ++
      leBytes 4 pkgSize.toNat) (leBytes 4 hdrCrc.toNat) [] 92 4
      (by simp [toBytes, bodyBytes]) (by simp [ht, hp, hv, hc]) (by simp)

private theorem field_bytes {b : Block srcReadPos} {off len : Nat}
    (h : off + len ≤ srcReadPos) : (field b off len).1 = slice b.1 off (off + len) := by
  have hlen : (slice b.1 off (off + len)).length = len := by
    rw [length_slice, b.2]
    omega
  have htake := Block.take_ofList hlen.le
  rwa [hlen, List.take_of_length_le (Block.ofList len _).2.le] at htake

private theorem field32_bytes {b : Block srcReadPos} {off : Nat}
    (h : off + 4 ≤ srcReadPos) :
    leBytes 4 (field32 b off).toNat = slice b.1 off (off + 4) := by
  have hlen : (slice b.1 off (off + 4)).length = 4 := by
    rw [length_slice, b.2]
    omega
  have hlt := leNat_lt (slice b.1 off (off + 4))
  have hback := leBytes_leNat (slice b.1 off (off + 4))
  rw [hlen] at hlt hback
  rw [field32, UInt32.toNat_ofNat', Nat.mod_eq_of_lt (by omega), hback]

private theorem field16_bytes {b : Block srcReadPos} {off : Nat}
    (h : off + 2 ≤ srcReadPos) :
    leBytes 2 (field16 b off).toNat = slice b.1 off (off + 2) := by
  have hlen : (slice b.1 off (off + 2)).length = 2 := by
    rw [length_slice, b.2]
    omega
  have hlt := leNat_lt (slice b.1 off (off + 2))
  have hback := leBytes_leNat (slice b.1 off (off + 2))
  rw [hlen] at hlt hback
  rw [field16, UInt16.toNat_ofNat', Nat.mod_eq_of_lt (by omega), hback]

/-- The header bytes that the CRC is taken of are those it was read from. -/
theorem bodyBytes_ofBytes (b : Block srcReadPos) :
    (ofBytes b).bodyBytes = b.1.take 92 := by
  have hpos : srcReadPos = 96 := rfl
  simp only [bodyBytes, ofBytes]
  rw [field_bytes (by omega), field16_bytes (by omega), field16_bytes (by omega),
    field32_bytes (by omega), field_bytes (by omega), field_bytes (by omega),
    field_bytes (by omega), field32_bytes (by omega), field32_bytes (by omega),
    field32_bytes (by omega), field32_bytes (by omega)]
  have join {a c d : Nat} (hac : a ≤ c) (hcd : c ≤ d) :
      slice b.1 a c ++ slice b.1 c d = slice b.1 a d := slice_append_slice b.1 hac hcd
  rw [join (by omega) (by omega), join (by omega) (by omega),
    join (by omega) (by omega), join (by omega) (by omega),
    join (by omega) (by omega), join (by omega) (by omega),
    join (by omega) (by omega), join (by omega) (by omega),
    join (by omega) (by omega), join (by omega) (by omega)]
  exact slice_zero b.1 92

end FwInfo

/-! ## Strings -/

/-- `rt_strcmp(mem, text) == 0`, where `mem` is the memory from the string's address on.
A field that holds no zero is read on into what follows it. -/
def strEq (mem text : List UInt8) : Bool := (text ++ [0]).isPrefixOf mem

theorem strEq_iff {mem text : List UInt8} : strEq mem text = true ↔ text ++ [0] <+: mem :=
  List.isPrefixOf_iff_prefix

theorem takeWhile_append_zero {l : List UInt8} (h : 0 ∉ l) (rest : List UInt8) :
    (l ++ 0 :: rest).takeWhile (· ≠ 0) = l := by
  rw [List.takeWhile_append_of_pos]
  · simp
  · intro b hb
    exact decide_eq_true fun hzero => h (hzero ▸ hb)

/-- A zero byte ends the string. -/
theorem takeWhile_of_strEq {mem text : List UInt8} (h : strEq mem text = true)
    (hzero : 0 ∉ text) : mem.takeWhile (· ≠ 0) = text := by
  obtain ⟨rest, rfl⟩ := strEq_iff.mp h
  rw [List.append_assoc]
  exact takeWhile_append_zero hzero rest

theorem strEq_unique {mem a b : List UInt8} (ha : strEq mem a = true) (hb : strEq mem b = true)
    (hza : 0 ∉ a) (hzb : 0 ∉ b) : a = b :=
  (takeWhile_of_strEq ha hza).symm.trans (takeWhile_of_strEq hb hzb)

/-- A field behind a text that it holds with its terminator is not left. -/
theorem strEq_append {field text : List UInt8} (h : strEq field text = true)
    (after : List UInt8) : strEq (field ++ after) text = true :=
  strEq_iff.mpr ((strEq_iff.mp h).trans (List.prefix_append _ _))

namespace FwInfo

/-- The header's memory from `part_name` on. -/
def fromPartName (h : FwInfo) : List UInt8 := h.toBytes.drop 12

/-- The header's memory from `prod_code` on. -/
def fromProdCode (h : FwInfo) : List UInt8 := h.toBytes.drop 52

theorem toBytes_eq (h : FwInfo) : ∃ after, h.toBytes = h.type.1 ++ after :=
  ⟨_, by simp only [toBytes, bodyBytes, List.append_assoc]; rfl⟩

theorem fromProdCode_eq (h : FwInfo) :
    h.fromProdCode = h.prodCode.1 ++ (leBytes 4 h.pkgCrc.toNat ++ leBytes 4 h.rawCrc.toNat ++
      leBytes 4 h.rawSize.toNat ++ leBytes 4 h.pkgSize.toNat ++ leBytes 4 h.hdrCrc.toNat) := by
  have hsplit : h.toBytes = (h.type.1 ++ leBytes 2 h.algo.toNat ++ leBytes 2 h.algo2.toNat ++
      leBytes 4 h.timeStamp.toNat ++ h.partName.1 ++ h.fwVer.1) ++ (h.prodCode.1 ++
      (leBytes 4 h.pkgCrc.toNat ++ leBytes 4 h.rawCrc.toNat ++ leBytes 4 h.rawSize.toNat ++
        leBytes 4 h.pkgSize.toNat ++ leBytes 4 h.hdrCrc.toNat)) := by
    simp [toBytes, bodyBytes]
  rw [fromProdCode, hsplit, List.drop_left' (by simp [h.type.2, h.partName.2, h.fwVer.2])]

theorem fromPartName_eq (h : FwInfo) :
    h.fromPartName = h.partName.1 ++ (h.fwVer.1 ++ h.fromProdCode) := by
  have hsplit : h.toBytes = (h.type.1 ++ leBytes 2 h.algo.toNat ++ leBytes 2 h.algo2.toNat ++
      leBytes 4 h.timeStamp.toNat) ++ (h.partName.1 ++ (h.fwVer.1 ++ h.fromProdCode)) := by
    rw [fromProdCode_eq]
    simp [toBytes, bodyBytes]
  rw [fromPartName, hsplit, List.drop_left' (by simp [h.type.2])]

end FwInfo

/-! ## Targets -/

/-- `qbt_target_id_t` -/
inductive TargetId where
  | app
  | download
  | factory
  | swap
  deriving DecidableEq, Repr

/-- The ASCII bytes of a role name. -/
def ascii (s : String) : List UInt8 := s.toList.map fun c => UInt8.ofNat c.toNat

/-- The role name of a target. -/
def TargetId.roleName : TargetId → List UInt8
  | .app => ascii "app"
  | .download => ascii "download"
  | .factory => ascii "factory"
  | .swap => ascii "swap"

/-- `QBT_TARGET_LIST`: SWAP is a target only with the storage swap. -/
def targetList (storageSwap : Bool) : List TargetId :=
  if storageSwap then [.app, .download, .factory, .swap]
  else [.app, .download, .factory]

/-- `qbt_name_to_id` on the name at the start of `name`; `none` is `QBOOT_TARGET_COUNT`. -/
def nameToId (storageSwap : Bool) (name : List UInt8) : Option TargetId :=
  (targetList storageSwap).find? fun id => strEq name id.roleName

end Qboot
