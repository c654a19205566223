import Mathlib.Data.List.Basic
/-!
# Framed streams

A coded stream is a sequence of frames.  Each of them stands for some output, from the
memory that the frames before it leave.  A decoder that looks at a stream through a
window sees either its first frame whole or a proper part of it.
-/

namespace Library

variable {K B : Type}

/-- `Framed Frame k b o`: from the memory `k`, the bytes `b` are frames that stand for
`o`.  A frame takes the memory `k` to `k'` where `Frame k u o k'`. -/
inductive Framed (Frame : K → List B → List B → K → Prop) : K → List B → List B → Prop
  | nil (k : K) : Framed Frame k [] []
  | cons {k k' : K} {u us o os : List B} (head : Frame k u o k')
      (tail : Framed Frame k' us os) : Framed Frame k (u ++ us) (o ++ os)

namespace Framed

variable {Frame : K → List B → List B → K → Prop} {k : K} {b o w r : List B}

/-- Frames that are not empty stand for nothing only where there are none. -/
theorem out_nil (hframe : ∀ k u o k', Frame k u o k' → u ≠ [])
    (h : Framed Frame k [] o) : o = [] := by
  generalize hb : ([] : List B) = b at h
  cases h with
  | nil => rfl
  | cons head tail =>
      obtain ⟨hu, -⟩ := List.append_eq_nil_iff.mp hb.symm
      exact absurd hu (hframe _ _ _ _ head)

/-- What a window `w` shows of a stream whose output is not used up. -/
theorem window (h : Framed Frame k (w ++ r) o) (ho : o ≠ []) :
    ∃ u o₁ k' us os, Frame k u o₁ k' ∧ Framed Frame k' us os ∧ o = o₁ ++ os ∧
      ((∃ w', w = u ++ w' ∧ us = w' ++ r) ∨ (w.length < u.length ∧ ∃ v, v ≠ [] ∧
        u = w ++ v ∧ r = v ++ us)) := by
  generalize hb : w ++ r = b at h
  cases h with
  | nil => exact absurd rfl ho
  | @cons _ k' u us o₁ os head tail =>
      refine ⟨u, o₁, k', us, os, head, tail, rfl, ?_⟩
      rcases List.append_eq_append_iff.mp hb with ⟨v, hu, hr⟩ | ⟨w', hw, hus⟩
      · cases v with
        | nil =>
            rw [List.append_nil] at hu
            rw [List.nil_append] at hr
            exact .inl ⟨[], by rw [hu, List.append_nil], hr.symm⟩
        | cons c v =>
            refine .inr ⟨?_, c :: v, List.cons_ne_nil c v, hu, hr⟩
            rw [hu, List.length_append, List.length_cons]
            omega
      · exact .inl ⟨w', hw, hus⟩

end Framed

end Library
