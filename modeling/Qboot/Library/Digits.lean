import Mathlib.Data.Nat.Digits.Lemmas
import Mathlib.Tactic.Ring
/-!
# Numerals

The number that a text denotes in a base, most significant digit first, and a
scan from the left that gives up as soon as the number read so far passes a
limit.
-/

namespace Library.Digits

variable {α β : Type}

/-- The number with the digits `ds`, most significant first. -/
def numeral (base : Nat) (ds : List Nat) : Nat := Nat.ofDigits base ds.reverse

@[simp] theorem numeral_nil (base : Nat) : numeral base [] = 0 := by
  simp [numeral]

theorem numeral_cons (base d : Nat) (ds : List Nat) :
    numeral base (d :: ds) = d * base ^ ds.length + numeral base ds := by
  rw [numeral, List.reverse_cons, Nat.ofDigits_append, Nat.ofDigits_singleton,
    List.length_reverse, numeral]
  ring

/-- The text `text` is a numeral for `n`: every character is a digit, and
together they have the value `n`. -/
def Reads (base : Nat) (digit : α → Option Nat) (text : List α) (n : Nat) : Prop :=
  ∃ ds : List Nat, text.map digit = ds.map some ∧ numeral base ds = n

variable {base limit : Nat} {digit : α → Option Nat}

theorem reads_nil {n : Nat} : Reads base digit [] n ↔ n = 0 := by
  constructor
  · rintro ⟨ds, hds, rfl⟩
    have hempty : ds = [] := by simpa using hds
    rw [hempty, numeral_nil]
  · rintro rfl
    exact ⟨[], rfl, numeral_nil base⟩

theorem not_reads_cons {c : α} {text : List α} {n : Nat} (h : digit c = none) :
    ¬Reads base digit (c :: text) n := by
  rintro ⟨ds, hds, _⟩
  cases ds with
  | nil => simp at hds
  | cons d ds => simp [h] at hds

theorem reads_cons {c : α} {d : Nat} {text : List α} {n : Nat}
    (h : digit c = some d) :
    Reads base digit (c :: text) n ↔
      ∃ m, Reads base digit text m ∧ n = d * base ^ text.length + m := by
  constructor
  · rintro ⟨ds, hds, rfl⟩
    cases ds with
    | nil => simp at hds
    | cons e ds =>
        obtain ⟨he, hrest⟩ : digit c = some e ∧ text.map digit = ds.map some := by
          simpa using hds
        have hde : d = e := by simpa [h] using he
        have hlen : text.length = ds.length := by simpa using congrArg List.length hrest
        exact ⟨numeral base ds, ⟨ds, hrest, rfl⟩, by rw [numeral_cons, hlen, hde]⟩
  · rintro ⟨m, ⟨ds, hds, rfl⟩, rfl⟩
    have hlen : text.length = ds.length := by simpa using congrArg List.length hds
    exact ⟨d :: ds, by simp [h, hds], by rw [numeral_cons, hlen]⟩

/-! ## The guarded scan -/

/-- One step of a scan whose accumulator has the value `value`: the next digit
is appended, and the step fails on anything else and beyond the limit. -/
structure Appends (base limit : Nat) (digit : α → Option Nat) (value : β → Nat)
    (step : β → α → Option β) : Prop where
  stops : ∀ b c, digit c = none → step b c = none
  guards : ∀ b c d, digit c = some d → limit ≤ value b * base + d → step b c = none
  appends : ∀ b c d, digit c = some d → value b * base + d < limit →
    ∃ b', step b c = some b' ∧ value b' = value b * base + d

variable {value : β → Nat} {step : β → α → Option β}

/-- The scan answers exactly the numerals that stay below the limit, whatever
digits come first. -/
theorem Appends.foldlM_iff (h : Appends base limit digit value step)
    (hbase : 0 < base) (text : List α) (b : β) (hb : value b < limit) (n : Nat) :
    (∃ b', text.foldlM step b = some b' ∧ value b' = n) ↔
      ∃ m, Reads base digit text m ∧ n = value b * base ^ text.length + m ∧
        n < limit := by
  induction text generalizing b with
  | nil =>
      simp only [List.foldlM_nil, reads_nil, List.length_nil, pow_zero, mul_one]
      constructor
      · rintro ⟨b', hrun, rfl⟩
        obtain rfl : b = b' := by simpa using hrun
        exact ⟨0, rfl, rfl, hb⟩
      · rintro ⟨m, rfl, rfl, _⟩
        exact ⟨b, rfl, rfl⟩
  | cons c text ih =>
      rw [List.foldlM_cons]
      cases hd : digit c with
      | none =>
          rw [h.stops b c hd]
          constructor
          · rintro ⟨b', hrun, _⟩
            exact nomatch hrun
          · rintro ⟨m, hreads, _⟩
            exact absurd hreads (not_reads_cons hd)
      | some d =>
          have hpow : 0 < base ^ text.length := Nat.pow_pos hbase
          have hsum (m : Nat) : value b * base ^ (c :: text).length +
              (d * base ^ text.length + m) =
                (value b * base + d) * base ^ text.length + m := by
            rw [List.length_cons, pow_succ]
            ring
          by_cases hover : limit ≤ value b * base + d
          · rw [h.guards b c d hd hover]
            constructor
            · rintro ⟨b', hrun, _⟩
              exact nomatch hrun
            · rintro ⟨m, hreads, rfl, hlt⟩
              -- the rest of the text only makes the number larger
              obtain ⟨k, _, rfl⟩ := (reads_cons hd).mp hreads
              rw [hsum k] at hlt
              have hgrow : value b * base + d ≤
                  (value b * base + d) * base ^ text.length :=
                Nat.le_mul_of_pos_right _ hpow
              omega
          · obtain ⟨b₁, hstep, hvalue⟩ := h.appends b c d hd (not_le.mp hover)
            have hb₁ : value b₁ < limit := by rw [hvalue]; exact not_le.mp hover
            rw [hstep]
            refine (ih b₁ hb₁).trans ?_
            rw [hvalue]
            constructor
            · rintro ⟨m, hreads, rfl, hlt⟩
              exact ⟨d * base ^ text.length + m, (reads_cons hd).mpr ⟨m, hreads, rfl⟩,
                (hsum m).symm, hlt⟩
            · rintro ⟨m, hreads, rfl, hlt⟩
              obtain ⟨k, hk, rfl⟩ := (reads_cons hd).mp hreads
              exact ⟨k, hk, hsum k, hlt⟩

end Library.Digits
