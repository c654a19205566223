import Mathlib.Tactic.Common
/-!
# State programs

A program over a state `S` is a function from the initial state to a result
and a final state: `StateM` without its identity wrapper, so that a run is a
plain pair.  `Within` relates the two ends of every run by a preorder and is
closed under sequencing; `Yields` is about the results alone; `Extends` is the
preorder of an append-only trace that the state keeps.
-/

namespace Library

/-- A program over the state `S` with results in `α`. -/
def Prog (S α : Type) : Type := S → α × S

namespace Prog

variable {S T α β E : Type}

instance : Monad (Prog S) where
  pure a := fun s => (a, s)
  bind x f := fun s => f (x s).1 (x s).2

/-- Apply `f` to the state. -/
def modify (f : S → S) : Prog S Unit := fun s => ((), f s)

/-- Read the state through `f`. -/
def gets (f : S → α) : Prog S α := fun s => (f s, s)

/-- Run a program of a component of the state. -/
def zoom (get : S → T) (set : T → S → S) (x : Prog T α) : Prog S α :=
  fun s => ((x (get s)).1, set (x (get s)).2 s)

/-- Run a program that keeps `P` on the states that satisfy it. -/
def restrict {P : S → Prop} (x : Prog S α) (h : ∀ s, P s → P (x s).2) :
    Prog { s // P s } α :=
  fun s => ((x s.1).1, ⟨(x s.1).2, h s.1 s.2⟩)

@[simp] theorem run_pure (a : α) (s : S) :
    (pure a : Prog S α) s = (a, s) := rfl

@[simp] theorem run_bind (x : Prog S α) (f : α → Prog S β) (s : S) :
    (x >>= f) s = f (x s).1 (x s).2 := rfl

@[simp] theorem run_modify (f : S → S) (s : S) : modify f s = ((), f s) := rfl

@[simp] theorem run_gets (f : S → α) (s : S) : gets f s = (f s, s) := rfl

@[simp] theorem run_zoom (get : S → T) (set : T → S → S) (x : Prog T α)
    (s : S) :
    zoom get set x s = ((x (get s)).1, set (x (get s)).2 s) := rfl

@[simp] theorem run_restrict {P : S → Prop} (x : Prog S α)
    (h : ∀ s, P s → P (x s).2) (s : { s // P s }) :
    x.restrict h s = ((x s.1).1, ⟨(x s.1).2, h s.1 s.2⟩) := rfl

theorem run_ite (c : Prop) [Decidable c] (x y : Prog S α) (s : S) :
    (if c then x else y) s = if c then x s else y s := by
  split <;> rfl

/-! ## Relations between the ends of a run -/

/-- Every run of `x` stands in `R` from its first state to its last. -/
def Within (R : S → S → Prop) (x : Prog S α) : Prop := ∀ s, R s (x s).2

namespace Within

variable {R R' : S → S → Prop}

theorem weaken {x : Prog S α} (h : Within R x) (himp : ∀ s s', R s s' → R' s s') :
    Within R' x :=
  fun s => himp _ _ (h s)

theorem ite {c : Prop} [Decidable c] {x y : Prog S α}
    (hx : Within R x) (hy : Within R y) : Within R (if c then x else y) := by
  split
  · exact hx
  · exact hy

variable [IsPreorder S R]

theorem pure (a : α) : Within R (Pure.pure a : Prog S α) :=
  fun s => refl_of R s

theorem gets (f : S → α) : Within R (Prog.gets f) :=
  fun s => refl_of R s

theorem bind {x : Prog S α} {f : α → Prog S β}
    (hx : Within R x) (hf : ∀ a, Within R (f a)) : Within R (x >>= f) :=
  fun s => trans_of R (hx s) (hf _ _)

end Within

/-! ## Results -/

/-- Every run of `x` answers something that satisfies `P`. -/
def Yields (P : α → Prop) (x : Prog S α) : Prop := ∀ s, P (x s).1

namespace Yields

variable {P : α → Prop} {Q : β → Prop}

theorem any (x : Prog S α) : Yields (fun _ => True) x := fun _ => trivial

theorem pure {a : α} (h : P a) : Yields P (Pure.pure a : Prog S α) := fun _ => h

theorem ite {c : Prop} [Decidable c] {x y : Prog S α}
    (hx : Yields P x) (hy : Yields P y) : Yields P (if c then x else y) := by
  split
  · exact hx
  · exact hy

theorem bind {x : Prog S α} {f : α → Prog S β} (hx : Yields P x)
    (hf : ∀ a, P a → Yields Q (f a)) : Yields Q (x >>= f) :=
  fun s => hf _ (hx s) _

theorem imp {P' : α → Prop} {x : Prog S α} (h : Yields P x) (himp : ∀ a, P a → P' a) :
    Yields P' x :=
  fun s => himp _ (h s)

end Yields

/-- Sequencing, where the second program relies on what the first one answers. -/
theorem Within.bind_of {R : S → S → Prop} [IsPreorder S R] {P : α → Prop} {x : Prog S α}
    {f : α → Prog S β} (hx : Within R x) (hyields : Yields P x)
    (hf : ∀ a, P a → Within R (f a)) : Within R (x >>= f) :=
  fun s => trans_of R (hx s) (hf _ (hyields s) _)

/-! ## Append-only traces -/

section Trace

variable (trace : S → List E)

/-- The trace has grown, and only by entries satisfying `P`. -/
def Extends (P : E → Prop) (s s' : S) : Prop :=
  ∃ new, trace s' = trace s ++ new ∧ ∀ e ∈ new, P e

variable {trace} {P P' : E → Prop} {s s' s'' : S}

theorem extends_of_eq (h : trace s' = trace s) : Extends trace P s s' :=
  ⟨[], by simp [h], by simp⟩

theorem extends_concat {e : E} (h : trace s' = trace s ++ [e]) (he : P e) :
    Extends trace P s s' :=
  ⟨[e], h, by simpa using he⟩

theorem Extends.trans (h : Extends trace P s s') (h' : Extends trace P s' s'') :
    Extends trace P s s'' := by
  obtain ⟨new₁, htrace₁, hnew₁⟩ := h
  obtain ⟨new₂, htrace₂, hnew₂⟩ := h'
  refine ⟨new₁ ++ new₂, by rw [htrace₂, htrace₁, List.append_assoc], ?_⟩
  intro e he
  rcases List.mem_append.mp he with he | he
  · exact hnew₁ e he
  · exact hnew₂ e he

theorem Extends.imp (h : Extends trace P s s') (himp : ∀ e, P e → P' e) :
    Extends trace P' s s' := by
  obtain ⟨new, htrace, hnew⟩ := h
  exact ⟨new, htrace, fun e he => himp e (hnew e he)⟩

instance : IsPreorder S (Extends trace P) where
  refl _ := extends_of_eq rfl
  trans _ _ _ := Extends.trans

end Trace

end Prog

end Library
