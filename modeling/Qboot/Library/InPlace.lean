import Qboot.Library.Flash
/-!
# Rewriting a region in place

New data overtakes the old content of a region from its start.  Behind the
front `done` the region holds the new data, up to `erased` it is erased, and
beyond that it still holds the old content.  The front moves by erasing whole
units and programming what has been erased.
-/

namespace Library.InPlace

open Bytes Flash

/-- The cells while `data` overtakes `old`. -/
def front (old : Nat → UInt8) (data : List UInt8) (done erased : Nat) :
    Nat → UInt8 :=
  fun a => if a < done then data.getD a 0 else if a < erased then erasedByte
    else old a

section Front

variable {old : Nat → UInt8} {data : List UInt8} {done erased : Nat}

theorem front_zero : front old data 0 0 = old := by
  funext a
  simp [front]

theorem front_of_ge {a : Nat} (hle : done ≤ erased) (ha : erased ≤ a) :
    front old data done erased a = old a := by
  rw [front, if_neg (by omega), if_neg (by omega)]

theorem front_append {more : List UInt8} (hdone : done ≤ data.length) :
    front old (data ++ more) done erased = front old data done erased := by
  funext a
  unfold front
  by_cases ha : a < done
  · rw [if_pos ha, if_pos ha, List.getD_append _ _ _ _ (by omega)]
  · rw [if_neg ha, if_neg ha]

theorem read_front {r : Region} (h : r.cells = front old data done erased)
    (hdone : done = data.length) : (r.read 0 done).1 = data := by
  rw [Region.read, readCells_eq_iff hdone.symm]
  intro i hi
  rw [Nat.zero_add, h, front, if_pos hi]

/-- Erasing from the erased end on moves it. -/
theorem erase_front {r : Region} {erased' : Nat} (hunit : 0 < r.unit)
    (h : r.cells = front old data done erased) (hle : done ≤ erased)
    (hlt : erased < erased') (hdvd : r.unit ∣ erased) (hdvd' : r.unit ∣ erased') :
    (r.erase erased (erased' - erased)).cells =
      front old data done erased' := by
  have hend : erased + (erased' - erased) = erased' := by omega
  have hcover (a : Nat) : Covers r.unit erased (erased' - erased) a ↔
      erased ≤ a ∧ a < erased' := by
    rw [covers_iff_of_dvd hunit hdvd (by rwa [hend]), hend]
  funext a
  by_cases ha : erased ≤ a ∧ a < erased'
  · rw [Region.erase_cells_of_covers ((hcover a).mpr ha), front,
      if_neg (by omega), if_pos ha.2]
  · rw [Region.erase_cells_of_not_covers (fun hc => ha ((hcover a).mp hc)), h]
    unfold front
    split
    · rfl
    · by_cases hlow : a < erased
      · rw [if_pos hlow, if_pos (by omega)]
      · rw [if_neg hlow, if_neg (by omega)]

/-- Programming the next bytes of the data moves the front. -/
theorem program_front {r : Region} {k : Nat}
    (h : r.cells = front old data done erased) (hk : done + k ≤ data.length) :
    (r.program done (slice data done (done + k))).cells =
      front old data (done + k) erased := by
  have hlen : (slice data done (done + k)).length = k := by
    rw [length_slice, Nat.min_eq_left hk, Nat.add_sub_cancel_left]
  funext a
  show overwrite r.cells done _ a = _
  by_cases ha : done ≤ a ∧ a < done + k
  · have hslice : (slice data done (done + k)).getD (a - done) 0 =
        data.getD a 0 := by
      have hget : (slice data done (done + k))[a - done]? = data[a]? := by
        rw [slice, List.getElem?_drop, List.getElem?_take]
        rw [if_pos (by omega)]
        congr 1
        omega
      rw [List.getD_eq_getElem?_getD, List.getD_eq_getElem?_getD, hget]
    rw [overwrite, hlen, if_pos ha, hslice, front, if_pos ha.2]
  · rw [overwrite, hlen, if_neg ha, h]
    unfold front
    by_cases hlow : a < done
    · have hhigh : a < done + k := by omega
      rw [if_pos hlow, if_pos hhigh]
    · have hhigh : ¬a < done + k := by omega
      rw [if_neg hlow, if_neg hhigh]

end Front

/-! ## Operations behind the front -/

/-- The operations that moved the front to `done` and `erased`: each unit was
erased once and each byte programmed once, after its unit was erased. -/
structure Advanced (unit : Nat) (ops : List Op) (done erased : Nat) :
    Prop where
  disciplined : Disciplined unit ops
  erases : ∀ a, eraseCount unit ops a = if a < erased then 1 else 0
  programs : ∀ a, programCount ops a = if a < done then 1 else 0
  fresh : ∀ a, Flash.fresh unit ops a = decide (done ≤ a ∧ a < erased)

variable {unit done erased : Nat} {ops : List Op}

theorem advanced_nil : Advanced unit [] 0 0 where
  disciplined := Trace.along_nil
  erases := by simp [eraseCount]
  programs := by simp [programCount]
  fresh := by simp [Flash.fresh]

theorem Advanced.erase (h : Advanced unit ops done erased) {erased' : Nat}
    (hunit : 0 < unit) (hle : done ≤ erased) (hlt : erased < erased')
    (hdvd : unit ∣ erased) (hdvd' : unit ∣ erased') :
    Advanced unit (ops ++ [.erase erased (erased' - erased)]) done erased' := by
  have hend : erased + (erased' - erased) = erased' := by omega
  have herases (a : Nat) : (Op.erase erased (erased' - erased)).Erases unit a ↔
      erased ≤ a ∧ a < erased' := by
    rw [Op.Erases, covers_iff_of_dvd hunit hdvd (by rwa [hend]), hend]
  have hprograms (a : Nat) :
      ¬(Op.erase erased (erased' - erased)).Programs a := id
  constructor
  · exact Trace.along_concat h.disciplined fun a ha => absurd ha (hprograms a)
  · intro a
    rw [eraseCount_concat, h.erases a]
    simp only [herases]
    by_cases hlow : a < erased
    · rw [if_pos hlow, if_neg (by omega), if_pos (by omega)]
    · by_cases hhigh : a < erased'
      · rw [if_neg hlow, if_pos (by omega), if_pos hhigh]
      · rw [if_neg hlow, if_neg (by omega), if_neg hhigh]
  · intro a
    rw [programCount_concat, h.programs a, if_neg (hprograms a), Nat.add_zero]
  · intro a
    rw [fresh_concat, h.fresh a]
    simp only [herases, hprograms, if_false]
    by_cases ha : erased ≤ a ∧ a < erased'
    · rw [if_pos ha, decide_eq_true (by omega)]
    · rw [if_neg ha]
      exact decide_eq_decide.mpr (by omega)

theorem Advanced.program (h : Advanced unit ops done erased) {k : Nat}
    (hk : done + k ≤ erased) :
    Advanced unit (ops ++ [.program done k]) (done + k) erased := by
  have herases (a : Nat) : ¬(Op.program done k).Erases unit a := id
  have hprograms (a : Nat) : (Op.program done k).Programs a ↔
      done ≤ a ∧ a < done + k := Iff.rfl
  constructor
  · refine Trace.along_concat h.disciplined fun a ha => ?_
    rw [h.fresh a]
    exact decide_eq_true ⟨ha.1, by have := ha.2; omega⟩
  · intro a
    rw [eraseCount_concat, h.erases a, if_neg (herases a), Nat.add_zero]
  · intro a
    rw [programCount_concat, h.programs a]
    simp only [hprograms]
    by_cases hlow : a < done
    · rw [if_pos hlow, if_neg (by omega), if_pos (by omega)]
    · by_cases hhigh : a < done + k
      · rw [if_neg hlow, if_pos (by omega), if_pos hhigh]
      · rw [if_neg hlow, if_neg (by omega), if_neg hhigh]
  · intro a
    rw [fresh_concat, h.fresh a, if_neg (herases a)]
    simp only [hprograms]
    by_cases ha : done ≤ a ∧ a < done + k
    · rw [if_pos ha, eq_comm, decide_eq_false (by omega)]
    · rw [if_neg ha]
      exact decide_eq_decide.mpr (by omega)

end Library.InPlace
