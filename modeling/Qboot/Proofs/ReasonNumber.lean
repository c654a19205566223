import Qboot.Model.Reason
import Qboot.Library.Digits
/-!
# What the reason parser accepts

A text is accepted exactly when it is a decimal numeral, or a hexadecimal one
after its prefix, for a number of 32 bits.
-/

namespace Qboot

open Library.Digits

/-! ## Numerals of the two bases -/

def decimalDigit (c : UInt8) : Option Nat :=
  if 48 ≤ c.toNat ∧ c.toNat ≤ 57 then some (c.toNat - 48) else none

def hexDigit (c : UInt8) : Option Nat :=
  if 48 ≤ c.toNat ∧ c.toNat ≤ 57 then some (c.toNat - 48)
  else if 97 ≤ c.toNat ∧ c.toNat ≤ 102 then some (c.toNat - 87)
  else if 65 ≤ c.toNat ∧ c.toNat ≤ 70 then some (c.toNat - 55)
  else none

/-- The text is a nonempty decimal numeral for `n`, or a nonempty hexadecimal
one after `0x` or `0X`. -/
def DenotesReason (text : List UInt8) (n : Nat) : Prop :=
  (text ≠ [] ∧ Reads 10 decimalDigit text n) ∨
    ∃ x p, text = '0'.toUInt8 :: x :: p ∧ (x = 'x'.toUInt8 ∨ x = 'X'.toUInt8) ∧
      p ≠ [] ∧ Reads 16 hexDigit p n

/-! ## One character -/

theorem toNat_digit {a c : UInt8} (h : a ≤ c) :
    (c - a).toUInt32.toNat = c.toNat - a.toNat := by
  rw [UInt8.toNat_toUInt32, UInt8.toNat_sub_of_le _ _ h]

theorem toNat_letter {a c : UInt8} (h : a ≤ c) :
    ((c - a).toUInt32 + 10).toNat = c.toNat - a.toNat + 10 := by
  have hc : c.toNat < 256 := c.toNat_lt
  rw [UInt32.toNat_add, toNat_digit h]
  exact Nat.mod_eq_of_lt (by simp; omega)

theorem reasonDigit_ten (c : UInt8) :
    (reasonDigit 10 c).map UInt32.toNat = decimalDigit c := by
  unfold reasonDigit decimalDigit
  by_cases hdec : '0'.toUInt8 ≤ c ∧ c ≤ '9'.toUInt8
  · have hrange : 48 ≤ c.toNat ∧ c.toNat ≤ 57 := hdec
    rw [if_pos hdec, if_pos hrange, Option.map_some, toNat_digit hdec.1]
    rfl
  · have hrange : ¬(48 ≤ c.toNat ∧ c.toNat ≤ 57) := hdec
    rw [if_neg hdec, if_neg hrange]
    simp

theorem reasonDigit_sixteen (c : UInt8) :
    (reasonDigit 16 c).map UInt32.toNat = hexDigit c := by
  unfold reasonDigit hexDigit
  by_cases hdec : '0'.toUInt8 ≤ c ∧ c ≤ '9'.toUInt8
  · have hrange : 48 ≤ c.toNat ∧ c.toNat ≤ 57 := hdec
    rw [if_pos hdec, if_pos hrange, Option.map_some, toNat_digit hdec.1]
    rfl
  have hdec' : ¬(48 ≤ c.toNat ∧ c.toNat ≤ 57) := hdec
  rw [if_neg hdec, if_neg hdec']
  by_cases hlow : 'a'.toUInt8 ≤ c ∧ c ≤ 'f'.toUInt8
  · have hrange : 97 ≤ c.toNat ∧ c.toNat ≤ 102 := hlow
    rw [if_pos ⟨rfl, hlow⟩, if_pos hrange, Option.map_some, toNat_letter hlow.1]
    congr 1
    have ha : 'a'.toUInt8.toNat = 97 := rfl
    omega
  have hlow' : ¬(97 ≤ c.toNat ∧ c.toNat ≤ 102) := hlow
  rw [if_neg (fun h => hlow h.2), if_neg hlow']
  by_cases hup : 'A'.toUInt8 ≤ c ∧ c ≤ 'F'.toUInt8
  · have hrange : 65 ≤ c.toNat ∧ c.toNat ≤ 70 := hup
    rw [if_pos ⟨rfl, hup⟩, if_pos hrange, Option.map_some, toNat_letter hup.1]
    congr 1
    have ha : 'A'.toUInt8.toNat = 65 := rfl
    omega
  · have hup' : ¬(65 ≤ c.toNat ∧ c.toNat ≤ 70) := hup
    rw [if_neg (fun h => hup h.2), if_neg hup', Option.map_none]

theorem decimalDigit_lt {c : UInt8} {d : Nat} (h : decimalDigit c = some d) :
    d < 10 := by
  unfold decimalDigit at h
  split at h
  · obtain rfl : c.toNat - 48 = d := by simpa using h
    omega
  · exact nomatch h

theorem hexDigit_lt {c : UInt8} {d : Nat} (h : hexDigit c = some d) : d < 16 := by
  unfold hexDigit at h
  split at h
  · obtain rfl : c.toNat - 48 = d := by simpa using h
    omega
  split at h
  · obtain rfl : c.toNat - 87 = d := by simpa using h
    omega
  split at h
  · obtain rfl : c.toNat - 55 = d := by simpa using h
    omega
  · exact nomatch h

/-! ## One round of the loop -/

theorem toNat_shift_or {r d : UInt32} (hr : r.toNat ≤ 0x0FFFFFFF)
    (hd : d.toNat < 16) : ((r <<< 4) ||| d).toNat = r.toNat * 16 + d.toNat := by
  have hshift : (r <<< 4).toNat = r.toNat <<< 4 := by
    have hfits : r.toNat <<< 4 < 2 ^ 32 := by rw [Nat.shiftLeft_eq]; omega
    rw [UInt32.toNat_shiftLeft]
    exact Nat.mod_eq_of_lt hfits
  calc
    ((r <<< 4) ||| d).toNat = r.toNat <<< 4 ||| d.toNat := by
      rw [UInt32.toNat_or, hshift]
    _ = r.toNat <<< 4 + d.toNat := (Nat.shiftLeft_add_eq_or_of_lt hd _).symm
    _ = r.toNat * 16 + d.toNat := by rw [Nat.shiftLeft_eq]

theorem appends_sixteen :
    Appends 16 (2 ^ 32) hexDigit UInt32.toNat (reasonParseStep 16) where
  stops r c hc := by
    have hnone : reasonDigit 16 c = none := by simpa [← reasonDigit_sixteen] using hc
    rw [reasonParseStep, hnone]
  guards r c d hc hover := by
    obtain ⟨digit, hdigit, rfl⟩ : ∃ digit, reasonDigit 16 c = some digit ∧
        digit.toNat = d := by
      simpa [← reasonDigit_sixteen] using hc
    have hd : digit.toNat < 16 := hexDigit_lt hc
    have hguard : r > 0x0FFFFFFF := by
      rw [gt_iff_lt, UInt32.lt_iff_toNat_lt]
      have hlit : (0x0FFFFFFF : UInt32).toNat = 0x0FFFFFFF := rfl
      omega
    have hbase : ¬(16 : UInt8).toUInt32 ≤ digit := not_le.mpr hd
    simp only [reasonParseStep, hdigit]
    rw [if_neg hbase, if_pos trivial, if_pos hguard]
  appends r c d hc hroom := by
    obtain ⟨digit, hdigit, rfl⟩ : ∃ digit, reasonDigit 16 c = some digit ∧
        digit.toNat = d := by
      simpa [← reasonDigit_sixteen] using hc
    have hd : digit.toNat < 16 := hexDigit_lt hc
    have hr : r.toNat ≤ 0x0FFFFFFF := by omega
    have hguard : ¬r > 0x0FFFFFFF := not_lt.mpr hr
    have hbase : ¬(16 : UInt8).toUInt32 ≤ digit := not_le.mpr hd
    refine ⟨(r <<< 4) ||| digit, ?_, toNat_shift_or hr hd⟩
    simp only [reasonParseStep, hdigit]
    rw [if_neg hbase, if_pos trivial, if_neg hguard]

theorem decimalGuard_iff {r d : UInt32} (hd : d.toNat < 10) :
    (r > 429496729 ∨ (r = 429496729 ∧ d > 5)) ↔ 2 ^ 32 ≤ r.toNat * 10 + d.toNat := by
  have hlit : (429496729 : UInt32).toNat = 429496729 := rfl
  have hfive : (5 : UInt32).toNat = 5 := rfl
  rw [gt_iff_lt, gt_iff_lt, UInt32.lt_iff_toNat_lt, UInt32.lt_iff_toNat_lt,
    ← UInt32.toNat_inj, hlit, hfive]
  omega

theorem appends_ten :
    Appends 10 (2 ^ 32) decimalDigit UInt32.toNat (reasonParseStep 10) where
  stops r c hc := by
    have hnone : reasonDigit 10 c = none := by simpa [← reasonDigit_ten] using hc
    rw [reasonParseStep, hnone]
  guards r c d hc hover := by
    obtain ⟨digit, hdigit, rfl⟩ : ∃ digit, reasonDigit 10 c = some digit ∧
        digit.toNat = d := by
      simpa [← reasonDigit_ten] using hc
    have hd : digit.toNat < 10 := decimalDigit_lt hc
    have hbase : ¬(10 : UInt8).toUInt32 ≤ digit := not_le.mpr hd
    simp only [reasonParseStep, hdigit]
    rw [if_neg hbase, if_neg (by decide), if_pos ((decimalGuard_iff hd).mpr hover)]
  appends r c d hc hroom := by
    obtain ⟨digit, hdigit, rfl⟩ : ∃ digit, reasonDigit 10 c = some digit ∧
        digit.toNat = d := by
      simpa [← reasonDigit_ten] using hc
    have hd : digit.toNat < 10 := decimalDigit_lt hc
    have hbase : ¬(10 : UInt8).toUInt32 ≤ digit := not_le.mpr hd
    have hguard : ¬(r > 429496729 ∨ (r = 429496729 ∧ digit > 5)) :=
      fun h => absurd ((decimalGuard_iff hd).mp h) (not_le.mpr hroom)
    refine ⟨r * 10 + digit, ?_, ?_⟩
    · simp only [reasonParseStep, hdigit]
      rw [if_neg hbase, if_neg (by decide), if_neg hguard]
    · have hten : (10 : UInt32).toNat = 10 := rfl
      rw [UInt32.toNat_add, UInt32.toNat_mul, hten,
        Nat.mod_eq_of_lt (show r.toNat * 10 < 2 ^ 32 by omega), Nat.mod_eq_of_lt hroom]

/-- From the start of the digits the loop ends with `r` exactly on a numeral
for `r`. -/
theorem foldlM_reads {base : Nat} {digit : UInt8 → Option Nat}
    {step : UInt32 → UInt8 → Option UInt32}
    (h : Appends base (2 ^ 32) digit UInt32.toNat step) (hbase : 0 < base)
    (p : List UInt8) (r : UInt32) :
    p.foldlM step 0 = some r ↔ Reads base digit p r.toNat := by
  have hscan := h.foldlM_iff hbase p 0 (by decide) r.toNat
  constructor
  · intro hrun
    obtain ⟨m, hm, hvalue, _⟩ := hscan.mp ⟨r, hrun, rfl⟩
    have hsame : r.toNat = m := by simpa using hvalue
    rwa [hsame]
  · intro hreads
    obtain ⟨r', hrun, hsame⟩ := hscan.mpr ⟨r.toNat, hreads, by simp, r.toNat_lt⟩
    rw [hrun, UInt32.toNat_inj.mp hsame]

/-! ## The whole text -/

theorem reasonBase_hex {x : UInt8} (p : List UInt8)
    (hx : x = 'x'.toUInt8 ∨ x = 'X'.toUInt8) :
    reasonBase ('0'.toUInt8 :: x :: p) = (16, p) := by
  rw [reasonBase, if_pos ⟨rfl, hx⟩]

/-- The prefix decides between the bases: a text with it is no decimal numeral,
and every other text is read in base ten from its start. -/
theorem reasonBase_cases (text : List UInt8) :
    (∃ x p, text = '0'.toUInt8 :: x :: p ∧ (x = 'x'.toUInt8 ∨ x = 'X'.toUInt8) ∧
      reasonBase text = (16, p)) ∨
    (reasonBase text = (10, text) ∧
      ∀ x p, text = '0'.toUInt8 :: x :: p → ¬(x = 'x'.toUInt8 ∨ x = 'X'.toUInt8)) := by
  match text with
  | [] => exact .inr ⟨rfl, fun x p h => nomatch h⟩
  | [c] => exact .inr ⟨rfl, fun x p h => by simp at h⟩
  | c :: x :: p =>
      by_cases hprefix : c = '0'.toUInt8 ∧ (x = 'x'.toUInt8 ∨ x = 'X'.toUInt8)
      · obtain ⟨rfl, hx⟩ := hprefix
        exact .inl ⟨x, p, rfl, hx, reasonBase_hex p hx⟩
      · refine .inr ⟨by rw [reasonBase, if_neg hprefix], ?_⟩
        intro y q heq hy
        obtain ⟨rfl, rfl, rfl⟩ : c = '0'.toUInt8 ∧ x = y ∧ p = q := by simpa using heq
        exact hprefix ⟨rfl, hy⟩

theorem not_decimal_of_hex {x : UInt8} {p : List UInt8} {n : Nat}
    (hx : x = 'x'.toUInt8 ∨ x = 'X'.toUInt8) :
    ¬Reads 10 decimalDigit ('0'.toUInt8 :: x :: p) n := by
  intro h
  obtain ⟨m, hm, _⟩ := (reads_cons (d := 0) (by decide)).mp h
  refine not_reads_cons ?_ hm
  obtain rfl | rfl := hx <;> decide

theorem reasonParseU32_false (text : List UInt8) (value : UInt32)
    (h : (reasonParseU32 text value).1 = false) :
    (reasonParseU32 text value).2 = value := by
  unfold reasonParseU32 at h ⊢
  split
  · rfl
  · next hne =>
    rw [if_neg hne] at h
    dsimp only at h ⊢
    split
    · rfl
    · next hnot =>
      rw [if_neg hnot] at h
      cases hrun : (reasonBase text).2.foldlM (reasonParseStep (reasonBase text).1) 0 with
      | none => rfl
      | some r => rw [hrun] at h; exact nomatch h

theorem reasonParseU32_true (text : List UInt8) (value r : UInt32) :
    reasonParseU32 text value = (true, r) ↔ DenotesReason text r.toNat := by
  unfold reasonParseU32
  by_cases hempty : text = []
  · subst hempty
    rw [if_pos rfl]
    constructor
    · intro h
      exact absurd (congrArg Prod.fst h) (by simp)
    · rintro (⟨hne, _⟩ | ⟨x, p, heq, _⟩)
      · exact absurd rfl hne
      · exact nomatch heq
  rw [if_neg hempty]
  obtain ⟨x, p, rfl, hx, hbase⟩ | ⟨hbase, hplain⟩ := reasonBase_cases text
  · -- after the prefix: only the hexadecimal reading is left
    rw [hbase]
    have hden : DenotesReason ('0'.toUInt8 :: x :: p) r.toNat ↔
        p ≠ [] ∧ Reads 16 hexDigit p r.toNat := by
      constructor
      · rintro (⟨_, hdec⟩ | ⟨y, q, heq, _, hne, hreads⟩)
        · exact absurd hdec (not_decimal_of_hex hx)
        · obtain ⟨rfl, rfl⟩ : x = y ∧ p = q := by simpa using heq
          exact ⟨hne, hreads⟩
      · rintro ⟨hne, hreads⟩
        exact .inr ⟨x, p, rfl, hx, hne, hreads⟩
    rw [hden, ← foldlM_reads appends_sixteen (by decide)]
    dsimp only
    by_cases hp : p = []
    · rw [if_pos ⟨rfl, hp⟩]
      simp [hp]
    · rw [if_neg (fun h => hp h.2)]
      cases hrun : p.foldlM (reasonParseStep 16) 0 with
      | none => simp
      | some result => simp [hp]
  · -- without it: only the decimal reading is left
    rw [hbase]
    have hden : DenotesReason text r.toNat ↔ Reads 10 decimalDigit text r.toNat := by
      constructor
      · rintro (⟨_, hdec⟩ | ⟨y, q, heq, hy, _⟩)
        · exact hdec
        · exact absurd hy (hplain y q heq)
      · intro hreads
        exact .inl ⟨hempty, hreads⟩
    rw [hden, ← foldlM_reads appends_ten (by decide)]
    dsimp only
    rw [if_neg (fun h => absurd h.1 (by decide))]
    cases hrun : text.foldlM (reasonParseStep 10) 0 with
    | none => simp
    | some result => simp

/-- The parser answers yes exactly on the numerals of 32-bit numbers, stores the
number that the text denotes, and leaves the variable alone when it answers no. -/
theorem reasonParseU32_correct (text : List UInt8) (value : UInt32) :
    ((reasonParseU32 text value).1 = true ↔
        ∃ n, DenotesReason text n ∧ n < 2 ^ 32) ∧
      (∀ n, DenotesReason text n → n < 2 ^ 32 →
        (reasonParseU32 text value).2.toNat = n) ∧
      ((reasonParseU32 text value).1 = false →
        (reasonParseU32 text value).2 = value) := by
  have hstored (n : Nat) (hn : DenotesReason text n) (hlt : n < 2 ^ 32) :
      reasonParseU32 text value = (true, UInt32.ofNat n) := by
    rw [reasonParseU32_true, UInt32.toNat_ofNat_of_lt' hlt]
    exact hn
  refine ⟨⟨?_, ?_⟩, ?_, reasonParseU32_false text value⟩
  · intro htrue
    have hpair : reasonParseU32 text value =
        (true, (reasonParseU32 text value).2) := Prod.ext htrue rfl
    exact ⟨_, (reasonParseU32_true text value _).mp hpair, UInt32.toNat_lt _⟩
  · rintro ⟨n, hn, hlt⟩
    rw [hstored n hn hlt]
  · intro n hn hlt
    rw [hstored n hn hlt]
    exact UInt32.toNat_ofNat_of_lt' hlt

end Qboot
