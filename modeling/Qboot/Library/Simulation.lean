import Qboot.Library.Loop
/-!
# Simulation

Two programs over different states answer alike from related states, and leave
related states behind.  The relation that they leave may depend on the answer,
so that a program that hands out a resource can say what it may be used for.
The rules follow the programs' structure and compare them call by call.
-/

namespace Library

open Prog Loop

variable {S T α β : Type}

/-- From states related by `A`, `x` and `y` give the same answer and leave states related
by what `B` says of it. -/
def Mirrors (A : S → T → Prop) (x : Prog S α) (y : Prog T α)
    (B : α → S → T → Prop) : Prop :=
  ∀ s t, A s t → (x s).1 = (y t).1 ∧ B (x s).1 (x s).2 (y t).2

namespace Mirrors

variable {A A' : S → T → Prop} {B B' : α → S → T → Prop} {C : β → S → T → Prop}
  {x : Prog S α} {y : Prog T α}

theorem pure {a : α} (h : ∀ s t, A s t → B a s t) :
    Mirrors A (Pure.pure a) (Pure.pure a) B :=
  fun s t hA => ⟨rfl, h s t hA⟩

/-- Programs that give one answer and leave every state as it is. -/
theorem const {a : α} (hx : ∀ s, x s = (a, s)) (hy : ∀ t, y t = (a, t)) :
    Mirrors A x y fun _ => A := by
  intro s t hA
  rw [hx s, hy t]
  exact ⟨rfl, hA⟩

/-- Reading a part of the state that the relation keeps equal. -/
theorem gets {f : S → α} {g : T → α} (hfg : ∀ s t, A s t → f s = g t)
    (h : ∀ s t, A s t → B (f s) s t) : Mirrors A (Prog.gets f) (Prog.gets g) B :=
  fun s t hA => ⟨hfg s t hA, h s t hA⟩

theorem bind {f : α → Prog S β} {g : α → Prog T β} (hx : Mirrors A x y B)
    (hf : ∀ a, Mirrors (B a) (f a) (g a) C) : Mirrors A (x >>= f) (y >>= g) C := by
  intro s t hA
  obtain ⟨hanswer, hB⟩ := hx s t hA
  rw [run_bind, run_bind, ← hanswer]
  exact hf _ _ _ hB

theorem ite {c : Prop} [Decidable c] {x' : Prog S α} {y' : Prog T α}
    (hx : c → Mirrors A x y B) (hx' : ¬c → Mirrors A x' y' B) :
    Mirrors A (if c then x else x') (if c then y else y') B := by
  split
  · exact hx ‹_›
  · exact hx' ‹_›

theorem post (hx : Mirrors A x y B) (h : ∀ a s t, B a s t → B' a s t) :
    Mirrors A x y B' :=
  fun s t hA => ⟨(hx s t hA).1, h _ _ _ (hx s t hA).2⟩

/-- What is known of the answers of the first program is known of both. -/
theorem yields {P : α → Prop} (hx : Mirrors A x y B) (h : Yields P x) :
    Mirrors A x y fun a s t => P a ∧ B a s t :=
  fun s t hA => ⟨(hx s t hA).1, h s, (hx s t hA).2⟩

/-- A condition that the relation does not depend on. -/
theorem assume {c : Prop} (hx : c → Mirrors A x y B) :
    Mirrors (fun s t => c ∧ A s t) x y B :=
  fun s t hA => hx hA.1 s t hA.2

/-- Sequencing, where the rest relies on what the first program is known to answer. -/
theorem bind_of {P : α → Prop} {f : α → Prog S β} {g : α → Prog T β} (hx : Mirrors A x y B)
    (hyields : Yields P x) (hf : ∀ a, P a → Mirrors (B a) (f a) (g a) C) :
    Mirrors A (x >>= f) (y >>= g) C :=
  (hx.yields hyields).bind fun a => .assume (hf a)

/-- A relation that is one of a family. -/
theorem exists_rel {ι : Type} {F : ι → S → T → Prop} (hx : ∀ i, Mirrors (F i) x y B) :
    Mirrors (fun s t => ∃ i, F i s t) x y B := by
  rintro s t ⟨i, hF⟩
  exact hx i s t hF

/-- The loop rule: an invariant `I` of the loop variables, which the rounds keep. -/
theorem iterate {body : α → Prog S (Next α β)} {body' : α → Prog T (Next α β)}
    {I : α → Prop} {Q : β → Prop}
    (hbody : ∀ a, I a → Mirrors A (body a) (body' a) fun _ => A)
    (hleads : ∀ a, I a → Yields (Leads I Q) (body a)) (fuel : Nat) :
    ∀ a, I a → Mirrors A (Loop.iterate body fuel a) (Loop.iterate body' fuel a)
      fun _ => A := by
  induction fuel with
  | zero => exact fun _ _ => .pure fun _ _ hA => hA
  | succ fuel ih =>
      intro a hI
      refine ((hbody a hI).yields (hleads a hI)).bind fun r => .assume fun hr => ?_
      cases r with
      | again a' => exact ih a' hr
      | done b => exact .pure fun _ _ hA => hA

end Mirrors

end Library
