import Qboot.Library.Flash
import Qboot.Model.Boot
/-!
# Region-backed storage

The FAL and CUSTOM backends over flash regions, with a power supply that may be
cut at any erase or write.  The operation the cut hits leaves its range in an
arbitrary state; after it nothing reaches the medium any more.
-/

namespace Qboot

open Library Bytes Flash

/-- A storage backend made of regions. -/
inductive Backend where
  | fal
  | custom
  deriving DecidableEq, Repr

/-- The range checks: `qbt_custom_range_check`, and for FAL the bound of a
partition behind the early return for zero bytes. -/
def Backend.InRange (b : Backend) (size off len : Nat) : Prop :=
  match b with
  | .fal => len = 0 ∨ off + len ≤ size
  | .custom => 0 < size ∧ off ≤ size ∧ len ≤ size - off

instance (b : Backend) (size off len : Nat) : Decidable (b.InRange size off len) := by
  cases b <;> unfold Backend.InRange <;> infer_instance

/-- The power supply, with the number of operations until it is cut. -/
inductive Power where
  | steady
  | cutAfter (ops : Nat)
  | off
  deriving DecidableEq, Repr

/-- The flash behind all targets; `torn` is what a cut leaves in the range of
the operation it hits. -/
structure FlashDev where
  region : TargetId → Region
  power : Power
  torn : Nat → UInt8

namespace FlashDev

def setRegion (d : FlashDev) (id : TargetId) (r : Region) : FlashDev :=
  { d with region := Function.update d.region id r }

/-- Perform `op`, which turns the region into `r`, as far as the power lasts. -/
def perform (d : FlashDev) (id : TargetId) (op : Op) (r : Region) :
    Bool × FlashDev :=
  match d.power with
  | .steady => (true, d.setRegion id r)
  | .cutAfter (n + 1) => (true, { d.setRegion id r with power := .cutAfter n })
  | .cutAfter 0 =>
      (false, { d.setRegion id ((d.region id).tear op d.torn) with power := .off })
  | .off => (false, d)

@[simp] theorem setRegion_same (d : FlashDev) (id : TargetId) (r : Region) :
    (d.setRegion id r).region id = r := by
  simp [setRegion]

theorem setRegion_other (d : FlashDev) {id id' : TargetId} (r : Region)
    (h : id' ≠ id) : (d.setRegion id r).region id' = d.region id' := by
  simp [setRegion, h]

@[simp] theorem setRegion_power (d : FlashDev) (id : TargetId) (r : Region) :
    (d.setRegion id r).power = d.power := rfl

theorem perform_steady {d : FlashDev} (h : d.power = .steady) (id : TargetId)
    (op : Op) (r : Region) : d.perform id op r = (true, d.setRegion id r) := by
  simp [perform, h]

end FlashDev

/-- A machine under steady power whose static header is zeroed. -/
def steadyMachine {κ : Type} (region : TargetId → Region) (mem : κ) :
    Machine FlashDev κ where
  dev := ⟨region, .steady, fun _ => 0⟩
  mem := mem
  fwInfo := .ofBytes (Block.ofList srcReadPos [])
  log := []

variable (backend : TargetId → Backend)

/-- The operation tables of FAL and CUSTOM; each target has its backend. -/
def regionIo : IoOps FlashDev where
  openTarget := fun id _ d => (if (d.region id).size = 0 then none else some 0, d)
  close := fun _ d => ((), d)
  read := fun h off len d =>
    let r := d.region h.target
    (if d.power ≠ .off ∧ (backend h.target).InRange r.size off len then
        some (r.read off len)
      else none, d)
  erase := fun h off len d =>
    let r := d.region h.target
    if (backend h.target).InRange r.size off len then
      d.perform h.target (.erase off len) (r.erase off len)
    else (false, d)
  write := fun h off data d =>
    let r := d.region h.target
    if (backend h.target).InRange r.size off data.length then
      d.perform h.target (.program off data.length) (r.program off data)
    else (false, d)
  size := fun h d => (some (d.region h.target).size, d)
  getEraseAlign := fun h d => (some (d.region h.target).unit, d)

/-- The position of the release sign behind the package. -/
def signPos (info : FwInfo) : Nat :=
  rtAlign (srcReadPos + info.pkgSize.toNat) releaseSignAlignSize

/-- The sign handlers of FAL and CUSTOM. -/
def regionParser : HeaderParserOps FlashDev where
  signRead := fun h info d =>
    let r := (regionIo backend).read h (signPos info) 4 d
    (r.1.map fun bytes => leNat bytes.1 == releaseSignWord, r.2)
  signWrite := fun h info d =>
    (regionIo backend).write h (signPos info) (leBytes 4 releaseSignWord) d
  signClear := fun _ _ d => (true, d)

section Steady

variable {backend : TargetId → Backend} {d : FlashDev} {h : Handle}
  {off len : Nat}

theorem regionIo_read (hpower : d.power = .steady)
    (hrange : (backend h.target).InRange (d.region h.target).size off len) :
    (regionIo backend).read h off len d =
      (some ((d.region h.target).read off len), d) := by
  simp [regionIo, hpower, hrange]

theorem regionIo_erase (hpower : d.power = .steady)
    (hrange : (backend h.target).InRange (d.region h.target).size off len) :
    (regionIo backend).erase h off len d =
      (true, d.setRegion h.target ((d.region h.target).erase off len)) := by
  simp [regionIo, hrange, FlashDev.perform_steady hpower]

theorem regionIo_write (hpower : d.power = .steady) {data : List UInt8}
    (hrange : (backend h.target).InRange (d.region h.target).size off
      data.length) :
    (regionIo backend).write h off data d =
      (true, d.setRegion h.target ((d.region h.target).program off data)) := by
  simp [regionIo, hrange, FlashDev.perform_steady hpower]

theorem Backend.inRange_of_le {b : Backend} {size : Nat} (hsize : 0 < size)
    (h : off + len ≤ size) : b.InRange size off len := by
  cases b with
  | fal => exact Or.inr h
  | custom => exact ⟨hsize, by omega, by omega⟩

theorem Backend.not_inRange_of_gt {b : Backend} {size : Nat} (hlen : 0 < len)
    (h : size < off + len) : ¬b.InRange size off len := by
  cases b with
  | fal =>
      rintro (h' | h') <;> omega
  | custom =>
      rintro ⟨-, hoff, hle⟩
      omega

end Steady

end Qboot
