import Qboot.Library.Crc32
import Qboot.Model.Types
/-!
# The packager

`create_rbl_header` and `package_rbl` of `package_tool.py`, which runs on the host.  A
value that `struct.pack` does not accept raises, and there is no package.
-/

namespace Qboot

open Library Bytes

/-- `str.encode("utf-8")` -/
def utf8 (s : String) : List UInt8 := s.toList.flatMap String.utf8EncodeChar

/-- `struct.pack` of an unsigned little-endian integer; it checks the range. -/
def packUint (width n : Nat) : Option (List UInt8) :=
  if n < 256 ^ width then some (leBytes width n) else none

/-- `struct.pack` of a fixed-width string; it cuts or fills up with zeros. -/
def packString (width : Nat) (bytes : List UInt8) : List UInt8 :=
  (Block.ofList width bytes).1

/-- `crc32`, over `zlib.crc32` -/
def crc32 (data : List UInt8) : Nat := (Crc32.checksum data).toNat

/-- `create_rbl_header` -/
def createRblHeader (rawFw pkgObj : List UInt8) (algo algo2 timestamp : Nat)
    (partName fwVer prodCode : String) : Option (List UInt8) := do
  let header := packString 4 (ascii "RBL" ++ [0])
  let header := header ++ (← packUint 2 algo)
  let header := header ++ (← packUint 2 algo2)
  let header := header ++ (← packUint 4 timestamp)
  let header := header ++ packString 16 (utf8 partName)
  let header := header ++ packString 24 (utf8 fwVer)
  let header := header ++ packString 24 (utf8 prodCode)
  let header := header ++ (← packUint 4 (crc32 pkgObj))
  let header := header ++ (← packUint 4 (crc32 rawFw))
  let header := header ++ (← packUint 4 rawFw.length)
  let header := header ++ (← packUint 4 pkgObj.length)
  let hdrCrc := crc32 header
  pure (header ++ (← packUint 4 hdrCrc))

/-- `--crypt` -/
inductive PackCrypt where
  | none
  | xor
  | aes
  deriving DecidableEq, Repr

/-- `QBOOT_ALGO_CRYPT_*` of the tool -/
def PackCrypt.algo : PackCrypt → Nat
  | .none => 0
  | .xor => 1
  | .aes => 2

/-- `--cmprs` -/
inductive PackCmprs where
  | none
  | gzip
  | quicklz
  | fastlz
  | hpatchlite
  deriving DecidableEq, Repr

/-- `QBOOT_ALGO_CMPRS_*` of the tool -/
def PackCmprs.algo : PackCmprs → Nat
  | .none => 0 <<< 8
  | .gzip => 1 <<< 8
  | .quicklz => 2 <<< 8
  | .fastlz => 3 <<< 8
  | .hpatchlite => 4 <<< 8

/-- `--algo2` -/
inductive PackVerify where
  | none
  | crc
  deriving DecidableEq, Repr

/-- `QBOOT_ALGO2_VERIFY_*` of the tool -/
def PackVerify.algo : PackVerify → Nat
  | .none => 0
  | .crc => 1

/-- `package_rbl`: the output file, at the time `timestamp`. -/
def packageRbl (pkgObj rawFw : List UInt8) (crypt : PackCrypt) (cmprs : PackCmprs)
    (verify : PackVerify) (timestamp : Nat) (part version product : String) :
    Option (List UInt8) := do
  let algo := crypt.algo ||| cmprs.algo
  -- a patch is never verified by the CRC of the image
  let algo2 := if cmprs = .hpatchlite then PackVerify.none.algo else verify.algo
  let header ← createRblHeader rawFw pkgObj algo algo2 timestamp part version product
  pure (header ++ pkgObj)

end Qboot
