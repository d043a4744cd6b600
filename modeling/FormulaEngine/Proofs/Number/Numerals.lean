import FormulaEngine.Number.Numeral

/-!
# Reading numerals that were written

A numeral that is written for a double has digits where they must stand and no superfluous zero in
front, for the shortest decimal of a magnitude that is not zero is not zero. Its text is read as
that numeral.
-/

namespace FormulaEngine

/-! ### Digits -/

theorem head?_toDigits_ne_zero {n : Nat} (h : n ≠ 0) : (Nat.toDigits 10 n).head? ≠ some '0' := by
  induction n using Nat.strongRecOn with
  | ind n ih =>
    rw [Nat.toDigits_eq_if (by decide)]
    by_cases hlt : n < 10
    · rw [if_pos hlt]
      simpa using h
    · have hhead := ih (n / 10) (by omega) (by omega)
      obtain ⟨c, cs, hcons⟩ := List.exists_cons_of_ne_nil (@Nat.toDigits_ne_nil (n / 10) 10)
      rw [if_neg hlt, hcons]
      rwa [hcons] at hhead

theorem isDigit_of_mem_toDigits {n : Nat} {c : Char} (h : c ∈ Nat.toDigits 10 n) : c.isDigit :=
  Nat.isDigit_of_mem_toDigits (by decide) (by decide) h

/-! ### The shortest decimal -/

namespace Grid

variable {g : Grid} {tie : Tie} {c : Nat}

theorem covers_zero (h : 0 < g.low) : g.covers 0 = false := by
  unfold covers
  rw [Nat.zero_mul]
  split
  · exact decide_eq_false fun hcovers => Nat.not_le.mpr h hcovers.1
  · exact decide_eq_false fun hcovers => Nat.not_lt_zero _ hcovers.1

theorem nearest?_ne_zero (hlow : 0 < g.low) (h : g.nearest? tie = some c) : c ≠ 0 := by
  rintro rfl
  unfold nearest? at h
  generalize g.value / g.step = lower at h
  cases hlower : g.covers lower with
  | false => cases hupper : g.covers (lower + 1) <;> simp [hlower, hupper] at h
  | true =>
    have hne : lower ≠ 0 := by
      rintro rfl
      rw [covers_zero hlow] at hlower
      exact absurd hlower (by simp)
    cases hupper : g.covers (lower + 1) with
    | false => simp [hlower, hupper, hne] at h
    | true =>
      simp only [hlower, hupper, Option.some.injEq] at h
      split at h <;> omega

end Grid

theorem Dyadic.low_grid_pos {d : Dyadic} (h : d.mantissa ≠ 0) (k : Int) : 0 < (d.grid k).low := by
  refine Nat.mul_pos ?_ (Nat.mul_pos (Nat.pow_pos (by decide)) (Nat.pow_pos (by decide)))
  split <;> omega

namespace Decimal

theorem significand_trim_ne_zero {room : Nat} {d : Decimal} (h : d.significand ≠ 0) :
    (d.trim room).significand ≠ 0 := by
  induction room generalizing d with
  | zero => exact h
  | succ room ih =>
    unfold trim
    by_cases hmod : d.significand % 10 = 0
    · rw [if_pos hmod]
      refine ih ?_
      change d.significand / 10 ≠ 0
      omega
    · rwa [if_neg hmod]

theorem significand_shortest_ne_zero {d : Dyadic} (h : d.mantissa ≠ 0) (tie : Tie) :
    (shortest tie d).significand ≠ 0 := by
  refine significand_trim_ne_zero ?_
  cases hfound : (List.range' 1 17).findSome? fun digits : Nat =>
      ((d.grid (d.leadingExponent + 1 - digits)).nearest? tie).map fun c =>
        (⟨c, d.leadingExponent + 1 - digits⟩ : Decimal) with
  | none => exact h
  | some found =>
    obtain ⟨digits, -, hdigits⟩ := List.exists_of_findSome?_eq_some hfound
    obtain ⟨c, hc, rfl⟩ := Option.map_eq_some_iff.mp hdigits
    exact Grid.nearest?_ne_zero (d.low_grid_pos h _) hc

end Decimal

/-! ### Written numerals -/

namespace Numeral

variable {n : Numeral} {text rest digits : List Char}

/-- Digits stand on both sides of a point and behind an exponent, and a zero is in front only if it
is all there is before the point. -/
structure IsWritten (n : Numeral) : Prop where
  whole_ne_nil : n.whole ≠ []
  whole_isDigit : ∀ c ∈ n.whole, c.isDigit
  whole_head : n.whole.head? = some '0' → n.whole.length = 1
  fraction_isDigit : ∀ c ∈ n.fraction, c.isDigit
  exponent_isDigit : ∀ negative digits, n.exponent = some (negative, digits) →
    digits ≠ [] ∧ ∀ c ∈ digits, c.isDigit

theorem isDigit_of_mem_digits {d : Decimal} {c : Char} (h : c ∈ d.digits) : c.isDigit :=
  isDigit_of_mem_toDigits h

theorem isDigit_of_mem_replicate {k : Nat} {c : Char} (h : c ∈ List.replicate k '0') :
    c.isDigit := by
  rw [List.eq_of_mem_replicate h]
  decide

theorem isDigit_of_mem_orZero {l : List Char} (h : ∀ c ∈ l, c.isDigit) (empty : Bool) :
    ∀ c ∈ (if empty then ['0'] else l), c.isDigit := by
  cases empty
  · exact h
  · simp

/-- Without digits in front of the point there are no zeros behind them either. -/
theorem whole_positional_eq (style : NumberStyle) (negative : Bool) (d : Decimal) :
    (positional style negative d).whole = ['0'] ∨
      (positional style negative d).whole.head? = d.digits.head? := by
  obtain ⟨first, others, hdigits⟩ : ∃ first others, d.digits = first :: others :=
    List.exists_cons_of_ne_nil Nat.toDigits_ne_nil
  unfold positional
  by_cases hpoint : (d.digits.length + d.exponent).toNat = 0
  · have hexponent : d.exponent.toNat = 0 := by omega
    exact .inl (by simp [hpoint, hexponent])
  · obtain ⟨k, hk⟩ := Nat.exists_eq_succ_of_ne_zero hpoint
    refine .inr ?_
    simp only [hk]
    rw [hdigits, List.take_succ_cons]
    rfl

theorem isWritten_positional (style : NumberStyle) (negative : Bool) {d : Decimal}
    (h : d.significand ≠ 0) : (positional style negative d).IsWritten where
  whole_ne_nil := by
    rcases whole_positional_eq style negative d with hzero | hhead
    · simp [hzero]
    · intro hnil
      rw [hnil] at hhead
      exact absurd (List.head?_eq_none_iff.mp hhead.symm) Nat.toDigits_ne_nil
  whole_isDigit := by
    refine isDigit_of_mem_orZero (fun c hc => ?_) _
    rcases List.mem_append.mp hc with hc | hc
    · exact isDigit_of_mem_digits (List.mem_of_mem_take hc)
    · exact isDigit_of_mem_replicate hc
  whole_head := by
    rcases whole_positional_eq style negative d with hzero | hhead
    · simp [hzero]
    · exact fun hfirst => absurd (hhead ▸ hfirst) (head?_toDigits_ne_zero h)
  fraction_isDigit := by
    refine isDigit_of_mem_orZero (fun c hc => ?_) _
    rcases List.mem_append.mp hc with hc | hc
    · exact isDigit_of_mem_replicate hc
    · exact isDigit_of_mem_digits (List.mem_of_mem_drop hc)
  exponent_isDigit _ _ hnone := absurd hnone (by simp [positional])

theorem isWritten_scientific (negative : Bool) (d : Decimal) :
    (scientific negative d).IsWritten where
  whole_ne_nil := by
    simp [scientific, Decimal.digits, Nat.toDigits_ne_nil]
  whole_isDigit c hc := isDigit_of_mem_toDigits (List.mem_of_mem_take hc)
  whole_head _ := by
    have hpos : 0 < d.digits.length := Nat.length_toDigits_pos
    rw [scientific, List.length_take]
    omega
  fraction_isDigit c hc := isDigit_of_mem_toDigits (List.mem_of_mem_drop hc)
  exponent_isDigit _ digits hexponent := by
    obtain ⟨-, rfl⟩ := Prod.mk.inj (Option.some.inj hexponent)
    exact ⟨Nat.toDigits_ne_nil, fun c hc => isDigit_of_mem_toDigits hc⟩

theorem isWritten_zero (style : NumberStyle) (negative : Bool) :
    (⟨negative, ['0'], if style.keepsPoint then ['0'] else [], none⟩ : Numeral).IsWritten where
  whole_ne_nil := by simp
  whole_isDigit := by simp
  whole_head _ := rfl
  fraction_isDigit := by cases style.keepsPoint <;> simp
  exponent_isDigit := by simp

theorem isWritten_ofFloat (style : NumberStyle) (x : Float) : (ofFloat style x).IsWritten := by
  unfold ofFloat
  by_cases hzero : (Dyadic.ofFloat x).mantissa = 0
  · simp only [hzero, if_true]
    exact isWritten_zero style _
  · simp only [if_neg hzero]
    split
    · exact isWritten_positional style _ (Decimal.significand_shortest_ne_zero hzero _)
    · exact isWritten_scientific _ _

/-! ### Reading -/

def splitSign : List Char → Bool × List Char
  | '-' :: rest => (true, rest)
  | rest => (false, rest)

/-- Reads what is behind the digits before the point. -/
def readFraction (negative : Bool) (whole : List Char) : List Char → Option Numeral
  | '.' :: rest =>
    if (takeDigits rest).1.isEmpty then none
    else (readExponent (takeDigits rest).2).map fun exponent =>
      ⟨negative, whole, (takeDigits rest).1, exponent⟩
  | rest => (readExponent rest).map fun exponent => ⟨negative, whole, [], exponent⟩

theorem ofChars?_eq (text : List Char) : ofChars? text =
    let sign := splitSign text
    let whole := (takeDigits sign.2).1
    if whole.isEmpty || (whole.head? == some '0' && whole.length != 1) then none
    else readFraction sign.1 whole (takeDigits sign.2).2 := rfl

/-- Digits are taken up to what is not a digit. -/
theorem takeDigits_append (hdigits : ∀ c ∈ digits, c.isDigit)
    (hrest : ∀ c, rest.head? = some c → c.isDigit = false) :
    takeDigits (digits ++ rest) = (digits, rest) := by
  have htake : rest.takeWhile Char.isDigit = [] ∧ rest.dropWhile Char.isDigit = rest := by
    cases rest with
    | nil => exact ⟨rfl, rfl⟩
    | cons c later =>
      have hc : c.isDigit = false := hrest c rfl
      simp [hc]
  rw [takeDigits, List.takeWhile_append_of_pos hdigits, List.dropWhile_append_of_pos hdigits,
    htake.1, htake.2, List.append_nil]

def exponentChars : Option (Bool × List Char) → List Char
  | none => []
  | some (negative, digits) => 'e' :: (if negative then '-' else '+') :: digits

def fractionChars (fraction : List Char) : List Char :=
  if fraction.isEmpty then [] else '.' :: fraction

theorem toChars_eq (n : Numeral) : n.toChars =
    (if n.negative then ['-'] else []) ++
      (n.whole ++ (fractionChars n.fraction ++ exponentChars n.exponent)) := by
  unfold toChars exponentChars fractionChars
  cases n.exponent <;> simp

theorem eq_of_head?_exponentChars {exponent : Option (Bool × List Char)} {c : Char}
    (h : (exponentChars exponent).head? = some c) : c = 'e' := by
  cases exponent with
  | none => simp [exponentChars] at h
  | some _ => exact (Option.some.inj h).symm

namespace IsWritten

theorem exists_toChars_eq_cons (h : n.IsWritten) :
    ∃ c others, n.toChars = c :: others ∧ (c.isDigit ∨ c = '-') := by
  rw [toChars_eq]
  cases n.negative with
  | true => exact ⟨'-', _, rfl, .inr rfl⟩
  | false =>
    obtain ⟨first, others, hwhole⟩ := List.exists_cons_of_ne_nil h.whole_ne_nil
    rw [hwhole]
    exact ⟨first, _, rfl, .inl (h.whole_isDigit first (hwhole ▸ List.mem_cons_self))⟩

theorem splitSign_toChars (h : n.IsWritten) : splitSign n.toChars =
    (n.negative, n.whole ++ (fractionChars n.fraction ++ exponentChars n.exponent)) := by
  rw [toChars_eq]
  cases n.negative with
  | true => rfl
  | false =>
    obtain ⟨first, others, hwhole⟩ := List.exists_cons_of_ne_nil h.whole_ne_nil
    have hfirst : first ≠ '-' := by
      rintro rfl
      have hdigit := h.whole_isDigit '-' (hwhole ▸ List.mem_cons_self)
      exact absurd hdigit (by decide)
    rw [hwhole]
    unfold splitSign
    split
    case h_1 heq => exact absurd (List.cons.inj heq).1 hfirst
    case h_2 => rfl

theorem readExponent_eq (h : n.IsWritten) :
    readExponent (exponentChars n.exponent) = some n.exponent := by
  cases hexponent : n.exponent with
  | none => rfl
  | some written =>
    obtain ⟨negative, digits⟩ := written
    obtain ⟨hne, hdigits⟩ := h.exponent_isDigit negative digits hexponent
    have hall : digits.all Char.isDigit = true := List.all_eq_true.mpr hdigits
    cases negative <;> simp [exponentChars, readExponent, hne, hall]

theorem readFraction_eq (h : n.IsWritten) :
    readFraction n.negative n.whole (fractionChars n.fraction ++ exponentChars n.exponent) =
      some n := by
  unfold fractionChars
  by_cases hempty : n.fraction.isEmpty
  · have hnil : n.fraction = [] := List.isEmpty_iff.mp hempty
    rw [if_pos hempty, List.nil_append]
    unfold readFraction
    split
    case h_1 rest heq =>
      exact absurd (eq_of_head?_exponentChars (congrArg List.head? heq)) (by decide)
    case h_2 =>
      rw [h.readExponent_eq, Option.map_some, ← hnil]
  · have htake : takeDigits (n.fraction ++ exponentChars n.exponent) =
        (n.fraction, exponentChars n.exponent) := by
      refine takeDigits_append h.fraction_isDigit fun c hc => ?_
      rw [eq_of_head?_exponentChars hc]
      decide
    rw [if_neg hempty, List.cons_append, readFraction, htake, if_neg hempty, h.readExponent_eq]
    rfl

/-- The text of a numeral as it is written is read as that numeral. -/
theorem ofChars?_toChars (h : n.IsWritten) : ofChars? n.toChars = some n := by
  have htake : takeDigits (n.whole ++ (fractionChars n.fraction ++ exponentChars n.exponent)) =
      (n.whole, fractionChars n.fraction ++ exponentChars n.exponent) := by
    refine takeDigits_append h.whole_isDigit fun c hc => ?_
    unfold fractionChars at hc
    split at hc
    · rw [eq_of_head?_exponentChars hc]
      decide
    · obtain rfl := Option.some.inj hc
      decide
  have hlead : (n.whole.isEmpty || (n.whole.head? == some '0' && n.whole.length != 1)) = false := by
    by_cases hzero : n.whole.head? = some '0'
    · simp [h.whole_ne_nil, h.whole_head hzero]
    · simp [h.whole_ne_nil, hzero]
  rw [ofChars?_eq, h.splitSign_toChars]
  simp only [htake, hlead]
  exact h.readFraction_eq

end IsWritten

theorem ofChars?_toChars_ofFloat (style : NumberStyle) (x : Float) :
    ofChars? (ofFloat style x).toChars = some (ofFloat style x) :=
  (isWritten_ofFloat style x).ofChars?_toChars

end Numeral

end FormulaEngine
