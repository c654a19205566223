import Mathlib.Tactic.Common
import Mathlib.Data.List.Induction
/-!
# Runs of a deterministic system

A system takes labelled steps, and a run is the list of its labels.  `Always`
is a property of every state that a run passes through and `Each` one of every
step, which sees the state it is taken in.  Where a step keeps a property
exactly under some condition, the two meet in `always_iff_each`.
-/

namespace Library.Run

variable {S L : Type} (step : S → L → S)

/-- The state after the steps `ls`. -/
def run (s : S) (ls : List L) : S := ls.foldl step s

/-- Every state of the run satisfies `P`, the first and the last included. -/
def Always (P : S → Prop) (s : S) (ls : List L) : Prop :=
  ∀ front back, ls = front ++ back → P (run step s front)

/-- Every step of the run is taken in a state that allows it. -/
def Each (C : S → L → Prop) (s : S) (ls : List L) : Prop :=
  ∀ front l back, ls = front ++ l :: back → C (run step s front) l

variable {step} {P I : S → Prop} {C : S → L → Prop} {s : S} {l : L} {ls : List L}

@[simp] theorem run_nil : run step s [] = s := rfl

@[simp] theorem run_cons : run step s (l :: ls) = run step (step s l) ls := rfl

@[simp] theorem run_append (ls' : List L) :
    run step s (ls ++ ls') = run step (run step s ls) ls' :=
  List.foldl_append

theorem always_nil : Always step P s [] ↔ P s := by
  constructor
  · intro h
    exact h [] [] rfl
  · intro h front back hsplit
    obtain ⟨rfl, -⟩ := List.append_eq_nil_iff.mp hsplit.symm
    exact h

theorem always_cons :
    Always step P s (l :: ls) ↔ P s ∧ Always step P (step s l) ls := by
  constructor
  · intro h
    refine ⟨h [] (l :: ls) rfl, fun front back hsplit => ?_⟩
    exact h (l :: front) back (by rw [hsplit]; rfl)
  · rintro ⟨hhead, htail⟩ front back hsplit
    cases front with
    | nil => exact hhead
    | cons a front =>
        obtain ⟨rfl, hrest⟩ := List.cons_eq_cons.mp hsplit
        exact htail front back hrest

theorem each_nil : Each step C s [] := by
  intro front l back hsplit
  simp at hsplit

theorem each_cons :
    Each step C s (l :: ls) ↔ C s l ∧ Each step C (step s l) ls := by
  constructor
  · intro h
    refine ⟨h [] l ls rfl, fun front a back hsplit => ?_⟩
    exact h (l :: front) a back (by rw [hsplit]; rfl)
  · rintro ⟨hhead, htail⟩ front a back hsplit
    cases front with
    | nil =>
        obtain ⟨rfl, -⟩ := List.cons_eq_cons.mp hsplit
        exact hhead
    | cons b front =>
        obtain ⟨rfl, hrest⟩ := List.cons_eq_cons.mp hsplit
        exact htail front a back hrest

/-- Where an element of a grown list stands: it is the new one, or it was there. -/
theorem concat_eq_split {front back : List L} {a : L}
    (h : ls ++ [l] = front ++ a :: back) :
    (front = ls ∧ a = l ∧ back = []) ∨
      ∃ rest, back = rest ++ [l] ∧ ls = front ++ a :: rest := by
  rcases List.eq_nil_or_concat back with rfl | ⟨rest, last, rfl⟩
  · obtain ⟨hfront, hlast⟩ := List.append_inj' h rfl
    exact .inl ⟨hfront.symm, (List.singleton_inj.mp hlast).symm, rfl⟩
  · rw [List.concat_eq_append] at h ⊢
    rw [← List.cons_append, ← List.append_assoc] at h
    obtain ⟨hfront, hlast⟩ := List.append_inj' h rfl
    rw [List.singleton_inj] at hlast
    exact .inr ⟨rest, by rw [hlast], hfront⟩

theorem always_concat :
    Always step P s (ls ++ [l]) ↔
      Always step P s ls ∧ P (step (run step s ls) l) := by
  induction ls generalizing s with
  | nil => simp [always_cons, always_nil]
  | cons a ls ih =>
      rw [List.cons_append, always_cons, ih, always_cons, run_cons, and_assoc]

theorem each_concat :
    Each step C s (ls ++ [l]) ↔ Each step C s ls ∧ C (run step s ls) l := by
  induction ls generalizing s with
  | nil => simp [each_cons, each_nil]
  | cons a ls ih => rw [List.cons_append, each_cons, ih, each_cons, run_cons, and_assoc]

/-- The invariant rule. -/
theorem always_of_inv (hinv : ∀ s l, I s → I (step s l)) (hs : I s) :
    Always step I s ls := by
  induction ls generalizing s with
  | nil => exact always_nil.mpr hs
  | cons l ls ih => exact always_cons.mpr ⟨hs, ih (hinv s l hs)⟩

theorem Always.last (h : Always step P s ls) : P (run step s ls) :=
  h ls [] (List.append_nil ls).symm

/-- The invariant rule for steps. -/
theorem each_of_inv (hinv : ∀ s l, I s → I (step s l))
    (hstep : ∀ s l, I s → C s l) (hs : I s) : Each step C s ls := by
  induction ls generalizing s with
  | nil => exact each_nil
  | cons l ls ih => exact each_cons.mpr ⟨hstep s l hs, ih (hinv s l hs)⟩

/-- The invariant rule for allowed steps. -/
theorem Each.inv_last (h : Each step C s ls) (hinv : ∀ s l, I s → C s l → I (step s l))
    (hs : I s) : I (run step s ls) := by
  induction ls generalizing s with
  | nil => exact hs
  | cons l ls ih =>
      obtain ⟨hhead, htail⟩ := each_cons.mp h
      exact ih htail (hinv s l hs hhead)

/-- One property of the steps follows from another under an invariant that the
other one keeps. -/
theorem Each.imp_inv {C' : S → L → Prop} (h : Each step C s ls)
    (hstep : ∀ s l, I s → C s l → C' s l)
    (hinv : ∀ s l, I s → C s l → I (step s l)) (hs : I s) : Each step C' s ls := by
  induction ls generalizing s with
  | nil => exact each_nil
  | cons l ls ih =>
      obtain ⟨hhead, htail⟩ := each_cons.mp h
      exact each_cons.mpr ⟨hstep s l hs hhead, ih htail (hinv s l hs hhead)⟩

/-- If, under an invariant `I`, a step keeps `P` exactly when it satisfies `C`,
then a run keeps `P` exactly when all its steps satisfy `C`. -/
theorem always_iff_each
    (hstep : ∀ s l, I s → P s → (P (step s l) ↔ C s l))
    (hinv : ∀ s l, I s → P s → C s l → I (step s l)) (hI : I s) (hP : P s)
    (ls : List L) : Always step P s ls ↔ Each step C s ls := by
  induction ls generalizing s with
  | nil => exact ⟨fun _ => each_nil, fun _ => always_nil.mpr hP⟩
  | cons l ls ih =>
      rw [always_cons, each_cons]
      constructor
      · rintro ⟨-, htail⟩
        have hnext : P (step s l) := htail [] ls rfl
        have hC := (hstep s l hI hP).mp hnext
        exact ⟨hC, (ih (hinv s l hI hP hC) hnext).mp htail⟩
      · rintro ⟨hC, htail⟩
        have hnext := (hstep s l hI hP).mpr hC
        exact ⟨hP, (ih (hinv s l hI hP hC) hnext).mpr htail⟩

end Library.Run
