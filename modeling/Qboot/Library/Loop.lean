import Qboot.Library.Prog
/-!
# Loops with a fuel bound

A `while` loop is given by its body, which either goes round again with a new
loop state or leaves with a result.  `iterate` runs it with fuel, and answers
`none` only when the fuel is spent.  A measure that every round decreases
gives enough fuel (`iterate_isSome`), and an invariant of the body holds of
the result (`iterate_rule`).
-/

namespace Library.Loop

open Prog

variable {S α β E : Type}

/-- What one round of a loop decides. -/
inductive Next (α β : Type) where
  | again (a : α)
  | done (b : β)
  deriving DecidableEq, Repr

/-- Run `body` from `a` for at most `fuel` rounds. -/
def iterate (body : α → Prog S (Next α β)) : Nat → α → Prog S (Option β)
  | 0, _ => pure none
  | fuel + 1, a => do
      match ← body a with
      | .again a' => iterate body fuel a'
      | .done b => pure (some b)

variable {body : α → Prog S (Next α β)}

@[simp] theorem iterate_zero (a : α) (s : S) :
    iterate body 0 a s = (none, s) := rfl

theorem iterate_again {fuel : Nat} {a a' : α} {s s' : S}
    (h : body a s = (.again a', s')) :
    iterate body (fuel + 1) a s = iterate body fuel a' s' := by
  rw [iterate, run_bind, h]

theorem iterate_done {fuel : Nat} {a : α} {b : β} {s s' : S}
    (h : body a s = (.done b, s')) :
    iterate body (fuel + 1) a s = (some b, s') := by
  rw [iterate, run_bind, h]
  rfl

/-- A measure decreased by every round bounds the number of rounds, as long
as the invariant `I` holds at the loop heads. -/
theorem iterate_isSome {I : α → S → Prop} {μ : α → Nat}
    (hstep : ∀ a s a' s', I a s → body a s = (.again a', s') →
      I a' s' ∧ μ a' < μ a) :
    ∀ {fuel : Nat} {a : α} {s : S}, I a s → μ a < fuel →
      ∃ b s', iterate body fuel a s = (some b, s') := by
  intro fuel
  induction fuel with
  | zero => intro a s _ h; omega
  | succ fuel ih =>
      intro a s hI hfuel
      rcases hbody : body a s with ⟨a' | b, s'⟩
      · obtain ⟨hI', hlt⟩ := hstep a s a' s' hI hbody
        rw [iterate_again hbody]
        exact ih hI' (by omega)
      · exact ⟨b, s', iterate_done hbody⟩

/-- More fuel does not change a result that was reached. -/
theorem iterate_mono {fuel : Nat} {a : α} {b : β} {s s' : S}
    (h : iterate body fuel a s = (some b, s')) (k : Nat) :
    iterate body (fuel + k) a s = (some b, s') := by
  induction fuel generalizing a s with
  | zero => simp at h
  | succ fuel ih =>
      rw [show fuel + 1 + k = (fuel + k) + 1 by omega]
      rcases hbody : body a s with ⟨a' | b', s''⟩
      · rw [iterate_again hbody] at h ⊢
        exact ih h
      · rw [iterate_done hbody] at h ⊢
        exact h

/-- A round ends with `Q`, or goes on with the invariant `I` kept and the
measure `μ` below `n`. -/
def Ends (I : α → S → Prop) (μ : α → Nat) (Q : β → S → Prop) (n : Nat) :
    Next α β × S → Prop
  | (.again a, s) => I a s ∧ μ a < n
  | (.done b, s) => Q b s

/-- The total rule: an invariant, a measure that every round decreases, and
what the last round makes of them. -/
theorem iterate_rule {I : α → S → Prop} {μ : α → Nat} {Q : β → S → Prop}
    (hround : ∀ a s, I a s → Ends I μ Q (μ a) (body a s)) :
    ∀ {fuel : Nat} {a : α} {s : S}, I a s → μ a < fuel →
      ∃ b s', iterate body fuel a s = (some b, s') ∧ Q b s' := by
  intro fuel
  induction fuel with
  | zero => intro a s _ h; omega
  | succ fuel ih =>
      intro a s hI hfuel
      have h := hround a s hI
      rcases hbody : body a s with ⟨a' | b, s'⟩
      · rw [hbody] at h
        obtain ⟨hI', hlt⟩ := h
        rw [iterate_again hbody]
        exact ih hI' (by omega)
      · rw [hbody] at h
        exact ⟨b, s', iterate_done hbody, h⟩

/-- The loop heads that a run passes through, the first one included. -/
inductive Visits (body : α → Prog S (Next α β)) (a : α) (s : S) :
    α → S → Prop where
  | start : Visits body a s a s
  | round {a₁ a₂ : α} {s₁ s₂ : S} (h : Visits body a s a₁ s₁)
      (hbody : body a₁ s₁ = (.again a₂, s₂)) : Visits body a s a₂ s₂

/-- A run from a loop head that is passed through is the rest of the whole run. -/
theorem Visits.rest {a a' : α} {s s' : S} (h : Visits body a s a' s') :
    ∃ k, ∀ fuel, iterate body (fuel + k) a s = iterate body fuel a' s' := by
  induction h with
  | start => exact ⟨0, fun _ => rfl⟩
  | round _ hbody ih =>
      obtain ⟨k, hk⟩ := ih
      refine ⟨k + 1, fun fuel => ?_⟩
      rw [show fuel + (k + 1) = fuel + 1 + k by omega, hk, iterate_again hbody]

/-- A loop that passes through a last round has that round's result. -/
theorem Visits.result {a a' : α} {s s' s'' t : S} {b c : β} {fuel : Nat}
    (h : Visits body a s a' s') (hdone : body a' s' = (.done b, s''))
    (hrun : iterate body fuel a s = (some c, t)) : c = b ∧ t = s'' := by
  obtain ⟨k, hk⟩ := h.rest
  have hlast : iterate body (1 + k) a s = (some b, s'') := by
    rw [hk, iterate_done hdone]
  have hmore := iterate_mono hlast fuel
  rw [Nat.add_comm, iterate_mono hrun (1 + k)] at hmore
  exact ⟨Option.some.inj (congrArg Prod.fst hmore), congrArg Prod.snd hmore⟩

/-- A body that keeps the invariant `I` of the loop variables and stays within
`R` makes a loop that stays within `R`. -/
theorem within_iterate_inv {R : S → S → Prop} [IsPreorder S R] {I : α → Prop}
    (hbody : ∀ a, I a → Within R (body a))
    (hinv : ∀ a s a' s', I a → body a s = (.again a', s') → I a') (fuel : Nat) :
    ∀ a, I a → Within R (iterate body fuel a) := by
  induction fuel with
  | zero => intro a _; exact Within.pure none
  | succ fuel ih =>
      intro a ha s
      have hhead := hbody a ha s
      rcases hround : body a s with ⟨a' | b, s'⟩
      · rw [hround] at hhead
        rw [iterate_again hround]
        exact trans_of R hhead (ih a' (hinv a s a' s' ha hround) s')
      · rw [hround] at hhead
        rw [iterate_done hround]
        exact hhead

theorem within_iterate {R : S → S → Prop} [IsPreorder S R]
    (hbody : ∀ a, Within R (body a)) (fuel : Nat) (a : α) :
    Within R (iterate body fuel a) :=
  within_iterate_inv (I := fun _ => True) (fun a _ => hbody a)
    (fun _ _ _ _ _ _ => trivial) fuel a trivial

/-- What one round makes of its loop variables, as far as it is about results. -/
def Leads (I : α → Prop) (Q : β → Prop) : Next α β → Prop
  | .again a => I a
  | .done b => Q b

/-- An invariant of the loop variables gives `Q` of the result. -/
theorem yields_iterate {I : α → Prop} {Q : β → Prop}
    (hbody : ∀ a, I a → Yields (Leads I Q) (body a)) (fuel : Nat) :
    ∀ a, I a → Yields (fun r => ∀ b, r = some b → Q b) (iterate body fuel a) := by
  induction fuel with
  | zero => intro a _; exact .pure (by simp)
  | succ fuel ih =>
      intro a ha
      refine (hbody a ha).bind fun r hr => ?_
      rcases r with a' | b
      · exact ih a' hr
      · exact .pure fun b' hb => Option.some.inj hb ▸ hr

/-- A loop stays within `R` when its body does as long as the invariant `I` holds. -/
theorem within_iterate_of {R : S → S → Prop} [IsPreorder S R] {I : α → Prop} {Q : β → Prop}
    (hbody : ∀ a, I a → Within R (body a)) (hleads : ∀ a, I a → Yields (Leads I Q) (body a))
    (fuel : Nat) : ∀ a, I a → Within R (iterate body fuel a) := by
  apply within_iterate_inv hbody
  intro a s a' s' ha hround
  have hnext := hleads a ha s
  rw [hround] at hnext
  exact hnext

/-! ## Two loops -/

/-- Two rounds both go on, with `I` of their variables and states, or both end, with `Q`
of their results and states. -/
inductive Abreast {α' β' T : Type} (I : α → α' → S → T → Prop) (Q : β → β' → S → T → Prop) :
    Next α β × S → Next α' β' × T → Prop where
  | again {a : α} {a' : α'} {s : S} {t : T} (h : I a a' s t) :
      Abreast I Q (.again a, s) (.again a', t)
  | done {b : β} {b' : β'} {s : S} {t : T} (h : Q b b' s t) :
      Abreast I Q (.done b, s) (.done b', t)

/-- Loops whose rounds keep abreast end alike, or both spend their fuel. -/
theorem iterate_abreast {α' β' T : Type} {body' : α' → Prog T (Next α' β')}
    {I : α → α' → S → T → Prop} {Q : β → β' → S → T → Prop}
    (hbody : ∀ a a' s t, I a a' s t → Abreast I Q (body a s) (body' a' t)) (fuel : Nat) :
    ∀ {a : α} {a' : α'} {s : S} {t : T}, I a a' s t →
      (∃ b b' s' t', iterate body fuel a s = (some b, s') ∧
        iterate body' fuel a' t = (some b', t') ∧ Q b b' s' t') ∨
      ∃ s' t', iterate body fuel a s = (none, s') ∧ iterate body' fuel a' t = (none, t') := by
  induction fuel with
  | zero => exact fun {_ _ s t} _ => .inr ⟨s, t, rfl, rfl⟩
  | succ fuel ih =>
      intro a a' s t hI
      have hround := hbody a a' s t hI
      generalize hleft : body a s = r at hround
      generalize hright : body' a' t = r' at hround
      cases hround with
      | again hnext =>
          rw [iterate_again hleft, iterate_again hright]
          exact ih hnext
      | done hQ => exact .inl ⟨_, _, _, _, iterate_done hleft, iterate_done hright, hQ⟩

end Library.Loop
