import Mathlib.Tactic.Common
/-!
# Properties along a trace

A relation between an event and everything before it, required of each event
of a trace.  The trace grows at its end, so the rules are about appending.
-/

namespace Library.Trace

variable {E : Type}

/-- Every event of `t` stands in `P` to the events before it. -/
def Along (P : List E → E → Prop) (t : List E) : Prop :=
  ∀ before e after, t = before ++ e :: after → P before e

variable {P : List E → E → Prop} {t : List E} {e : E}

theorem along_nil : Along P [] := by
  intro before e after h
  simp at h

theorem along_concat (ht : Along P t) (he : P t e) : Along P (t ++ [e]) := by
  intro before e' after hsplit
  rcases List.eq_nil_or_concat after with rfl | ⟨after', last, rfl⟩
  · obtain ⟨rfl, hcons⟩ := List.append_inj' hsplit rfl
    obtain rfl : e = e' := by simpa using hcons
    exact he
  · have hsplit' : t ++ [e] = (before ++ e' :: after') ++ [last] := by
      simpa using hsplit
    obtain ⟨rfl, -⟩ := List.append_inj' hsplit' rfl
    exact ht before e' after' rfl

end Library.Trace
