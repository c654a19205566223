import Qboot.Library.Loop
/-!
# Runs in lockstep

A program is run from two related states.  The runs stay in lockstep, with equal
results and related states, until the first of them stops: from then on nothing
that either of them goes on to do breaks what is known of the pair.
-/

namespace Library

open Prog Loop

variable {S α β : Type}

/-- Runs of `x` from states related by `A` end in states related by `A` with the
same result, or with the first run stopped, as `B` says.  `P` and `Q` speak of the
second run, which never stops. -/
structure Lockstep (A B : S → S → Prop) (P : S → Prop) (x : Prog S α)
    (Q : α → S → Prop) : Prop where
  left : ∀ s s', B s s' → B (x s).2 s'
  right : ∀ s s', B s s' → B s (x s').2
  step : ∀ s s', A s s' → P s' → B (x s).2 (x s').2 ∨
    ((x s).1 = (x s').1 ∧ A (x s).2 (x s').2 ∧ Q (x s').1 (x s').2)

/-- What a round leaves, whether the loop goes round again or ends. -/
def OfNext (I : α → S → Prop) (R : β → S → Prop) : Next α β → S → Prop
  | .again a, s => I a s
  | .done b, s => R b s

/-- What a loop leaves, whether its fuel is spent or it ends. -/
def OfOption (N : S → Prop) (R : β → S → Prop) : Option β → S → Prop
  | none, s => N s
  | some b, s => R b s

namespace Lockstep

variable {A B : S → S → Prop} {P P' : S → Prop} {Q Q' : α → S → Prop}
  {R : β → S → Prop} {x y : Prog S α}

theorem pure {a : α} (h : ∀ s, P s → Q a s) :
    Lockstep A B P (Pure.pure a) Q where
  left := fun _ _ hstop => hstop
  right := fun _ _ hstop => hstop
  step := fun _ s' hA hP => .inr ⟨rfl, hA, h s' hP⟩

/-- Reading a part of the state that both runs agree on. -/
theorem gets {f : S → α} (hf : ∀ s s', A s s' → f s = f s')
    (h : ∀ s, P s → Q (f s) s) : Lockstep A B P (Prog.gets f) Q where
  left := fun _ _ hstop => hstop
  right := fun _ _ hstop => hstop
  step := fun s s' hA hP => .inr ⟨hf s s' hA, hA, h s' hP⟩

theorem bind {f : α → Prog S β} (hx : Lockstep A B P x Q)
    (hf : ∀ a, Lockstep A B (Q a) (f a) R) : Lockstep A B P (x >>= f) R where
  left := fun s s' hstop => (hf (x s).1).left _ _ (hx.left s s' hstop)
  right := fun s s' hstop => (hf (x s').1).right _ _ (hx.right s s' hstop)
  step := by
    intro s s' hA hP
    obtain hstop | ⟨hres, hA', hQ⟩ := hx.step s s' hA hP
    · left
      exact (hf (x s).1).left _ _ ((hf (x s').1).right _ _ hstop)
    · simp only [run_bind, hres]
      exact (hf (x s').1).step _ _ hA' hQ

theorem ite {c : Prop} [Decidable c] (hx : c → Lockstep A B P x Q)
    (hy : ¬c → Lockstep A B P y Q) : Lockstep A B P (if c then x else y) Q := by
  split
  · exact hx ‹_›
  · exact hy ‹_›

theorem pre (hx : Lockstep A B P x Q) (h : ∀ s, P' s → P s) :
    Lockstep A B P' x Q where
  left := hx.left
  right := hx.right
  step := fun s s' hA hP => hx.step s s' hA (h s' hP)

theorem post (hx : Lockstep A B P x Q) (h : ∀ a s, Q a s → Q' a s) :
    Lockstep A B P x Q' where
  left := hx.left
  right := hx.right
  step := by
    intro s s' hA hP
    obtain hstop | ⟨hres, hA', hQ⟩ := hx.step s s' hA hP
    · exact .inl hstop
    · exact .inr ⟨hres, hA', h _ _ hQ⟩

/-- A precondition that the second run keeps is still there at the end. -/
theorem frame (hx : Lockstep A B P x Q) (h : ∀ s, P' s → P' (x s).2) :
    Lockstep A B (fun s => P s ∧ P' s) x fun a s => Q a s ∧ P' s where
  left := hx.left
  right := hx.right
  step := by
    rintro s s' hA ⟨hP, hP'⟩
    obtain hstop | ⟨hres, hA', hQ⟩ := hx.step s s' hA hP
    · exact .inl hstop
    · exact .inr ⟨hres, hA', hQ, h s' hP'⟩

/-- The loop rule: `I` holds at the loop heads, and gives `N` when the fuel is spent. -/
theorem iterate {body : α → Prog S (Next α β)} {I : α → S → Prop} {N : S → Prop}
    (hspent : ∀ a s, I a s → N s)
    (hbody : ∀ a, Lockstep A B (I a) (body a) (OfNext I R)) :
    ∀ (fuel : Nat) (a : α),
      Lockstep A B (I a) (Loop.iterate body fuel a) (OfOption N R) := by
  intro fuel
  induction fuel with
  | zero => exact fun a => .pure fun s hI => hspent a s hI
  | succ fuel ih =>
      intro a
      refine (hbody a).bind fun r => ?_
      cases r with
      | again a' => exact ih a'
      | done b => exact .pure fun s hR => hR

end Lockstep

end Library
