import Qboot.Library.Flash
import Qboot.Model.Machine
/-!
# Reading the record of a run

The part of the log that a run has added, and the operations on one target
that it contains.
-/

namespace Qboot

open Library Flash

variable {σ κ : Type}

/-- The machine with `es` added to its record. -/
def Machine.record (m : Machine σ κ) (es : List Event) : Machine σ κ :=
  { m with log := m.log ++ es }

@[simp] theorem Machine.record_dev (m : Machine σ κ) (es : List Event) :
    (m.record es).dev = m.dev := rfl

@[simp] theorem Machine.record_mem (m : Machine σ κ) (es : List Event) :
    (m.record es).mem = m.mem := rfl

@[simp] theorem Machine.record_log (m : Machine σ κ) (es : List Event) :
    (m.record es).log = m.log ++ es := rfl

/-- The log has grown since `m₀` by a record satisfying `P`. -/
def Traced (m₀ m : Machine σ κ) (P : List Event → Prop) : Prop :=
  ∃ new, m.log = m₀.log ++ new ∧ P new

theorem Traced.imp {m₀ m : Machine σ κ} {P Q : List Event → Prop}
    (h : Traced m₀ m P) (himp : ∀ new, P new → Q new) : Traced m₀ m Q := by
  obtain ⟨new, hlog, hP⟩ := h
  exact ⟨new, hlog, himp new hP⟩

theorem Traced.concat {m₀ m m' : Machine σ κ} {P Q : List Event → Prop}
    {more : List Event} (h : Traced m₀ m P) (hlog : m'.log = m.log ++ more)
    (himp : ∀ new, P new → Q (new ++ more)) : Traced m₀ m' Q := by
  obtain ⟨new, hnew, hP⟩ := h
  refine ⟨new ++ more, ?_, himp new hP⟩
  rw [hlog, hnew, List.append_assoc]

theorem traced_iff {m₀ m : Machine σ κ} {P : List Event → Prop} {new : List Event}
    (hlog : m.log = m₀.log ++ new) : Traced m₀ m P ↔ P new := by
  constructor
  · rintro ⟨new', hlog', hP⟩
    rw [hlog] at hlog'
    rwa [List.append_cancel_left hlog']
  · exact fun hP => ⟨new, hlog, hP⟩

/-! ## Operations on a target -/

/-- The successful operation on `id` that an event records. -/
def opOf (id : TargetId) : Event → Option Op
  | .erased id' off len true => if id' = id then some (.erase off len) else none
  | .wrote id' off data true =>
      if id' = id then some (.program off data.length) else none
  | _ => none

/-- The successful operations on `id`, in order. -/
def opsOn (id : TargetId) (log : List Event) : List Op :=
  log.filterMap (opOf id)

@[simp] theorem opsOn_nil (id : TargetId) : opsOn id [] = [] := rfl

@[simp] theorem opsOn_append (id : TargetId) (a b : List Event) :
    opsOn id (a ++ b) = opsOn id a ++ opsOn id b :=
  List.filterMap_append

theorem opsOn_erased_same (id : TargetId) (off len : Nat) :
    opsOn id [.erased id off len true] = [.erase off len] := by
  simp [opsOn, opOf]

theorem opsOn_wrote_same (id : TargetId) (off : Nat) (data : List UInt8) :
    opsOn id [.wrote id off data true] = [.program off data.length] := by
  simp [opsOn, opOf]

theorem opsOn_erased_other {id id' : TargetId} (h : id' ≠ id) (off len : Nat)
    (ok : Bool) : opsOn id [.erased id' off len ok] = [] := by
  cases ok <;> simp [opsOn, opOf, h]

theorem opsOn_wrote_other {id id' : TargetId} (h : id' ≠ id) (off : Nat)
    (data : List UInt8) (ok : Bool) :
    opsOn id [.wrote id' off data ok] = [] := by
  cases ok <;> simp [opsOn, opOf, h]

/-! ## Bytes and counts -/

/-- The bytes that the crypto stage has delivered. -/
def decryptedBytes (log : List Event) : List UInt8 :=
  log.flatMap fun
    | .decrypted bytes => bytes
    | _ => []

def writtenBytes (log : List Event) : List UInt8 :=
  log.flatMap fun
    | .wrote _ _ data _ => data
    | _ => []

def acceptedBytes (log : List Event) : List UInt8 :=
  log.flatMap fun
    | .accepted out _ => out
    | _ => []

def consumedCount (log : List Event) : Nat :=
  (log.map fun
    | .accepted _ consumed => consumed
    | _ => 0).sum

@[simp] theorem decryptedBytes_append (a b : List Event) :
    decryptedBytes (a ++ b) = decryptedBytes a ++ decryptedBytes b :=
  List.flatMap_append

@[simp] theorem writtenBytes_append (a b : List Event) :
    writtenBytes (a ++ b) = writtenBytes a ++ writtenBytes b :=
  List.flatMap_append

@[simp] theorem acceptedBytes_append (a b : List Event) :
    acceptedBytes (a ++ b) = acceptedBytes a ++ acceptedBytes b :=
  List.flatMap_append

@[simp] theorem consumedCount_append (a b : List Event) :
    consumedCount (a ++ b) = consumedCount a + consumedCount b := by
  simp [consumedCount]

theorem decryptedBytes_singleton (bytes : List UInt8) :
    decryptedBytes [.decrypted bytes] = bytes := by
  simp [decryptedBytes]

end Qboot
