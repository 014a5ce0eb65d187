import Mathlib.Algebra.Group.Nat.Defs
import Schemata.Decimal.Numeral

/-!
# The digits of a number

Reading the digits of a number gives the number back. Digits in front of which no superfluous zero
stands are the digits of the number that they are read as, and the digits of a number have no such
zero.
-/

namespace Schemata.Decimal

variable {cs : List Char}

/-- A digit is the character of its value. -/
theorem digitChar_of_isDigit {c : Char} (h : c.isDigit = true) :
    c.toNat - '0'.toNat < 10 ∧ Nat.digitChar (c.toNat - '0'.toNat) = c := by
  obtain ⟨low, high⟩ := Char.isDigit_iff_toNat.mp h
  have zero : '0'.toNat = 48 := rfl
  have nine : '9'.toNat = 57 := rfl
  have small : c.toNat - '0'.toNat < 10 := by omega
  refine ⟨small, ?_⟩
  apply Char.toNat_inj.mp
  rw [Nat.toNat_digitChar_of_lt_ten small]
  omega

theorem natOfDigits_toDigits (n : Nat) : natOfDigits (Nat.toDigits 10 n) = n :=
  Nat.ofDigitChars_ten_toDigits

/-- Digits that are read behind a positive number are written behind its digits. -/
theorem toDigits_append (digits : ∀ c ∈ cs, c.isDigit = true) {n : Nat} (positive : 0 < n) :
    Nat.toDigits 10 n ++ cs = Nat.toDigits 10 (Nat.ofDigitChars 10 cs n) := by
  induction cs generalizing n with
  | nil => simp
  | cons c cs ih =>
    obtain ⟨small, hc⟩ := digitChar_of_isDigit (digits c List.mem_cons_self)
    have digits' : ∀ d ∈ cs, d.isDigit = true := fun d hd => digits d (List.mem_cons_of_mem _ hd)
    have last : Nat.toDigits 10 n ++ [c] = Nat.toDigits 10 (10 * n + (c.toNat - '0'.toNat)) := by
      rw [← Nat.toDigits_append_toDigits (by decide) positive small,
        Nat.toDigits_of_lt_base small, hc]
    calc Nat.toDigits 10 n ++ c :: cs
        = (Nat.toDigits 10 n ++ [c]) ++ cs := by simp
      _ = Nat.toDigits 10 (10 * n + (c.toNat - '0'.toNat)) ++ cs := by rw [last]
      _ = Nat.toDigits 10 (Nat.ofDigitChars 10 (c :: cs) n) := by
        rw [Nat.ofDigitChars_cons, ih digits' (by omega)]

/-- Digits are those of their value, unless a zero stands in front of others. -/
theorem toDigits_natOfDigits (digits : ∀ c ∈ cs, c.isDigit = true) (nonempty : cs ≠ [])
    (lean : ∀ d rest, cs ≠ '0' :: d :: rest) : Nat.toDigits 10 (natOfDigits cs) = cs := by
  cases cs with
  | nil => exact absurd rfl nonempty
  | cons c cs =>
    obtain ⟨small, hc⟩ := digitChar_of_isDigit (digits c List.mem_cons_self)
    have first : natOfDigits (c :: cs) = Nat.ofDigitChars 10 cs (c.toNat - '0'.toNat) := by
      simp [natOfDigits, Nat.ofDigitChars]
    rw [first]
    by_cases zero : c = '0'
    · subst zero
      cases cs with
      | nil => rfl
      | cons d rest => exact absurd rfl (lean d rest)
    · have positive : 0 < c.toNat - '0'.toNat := by
        apply Nat.pos_of_ne_zero
        intro h
        rw [h] at hc
        exact zero hc.symm
      rw [← toDigits_append (fun d hd => digits d (List.mem_cons_of_mem _ hd)) positive,
        Nat.toDigits_of_lt_base small, hc]
      rfl

/-- A number is less than ten to the number of its digits. -/
theorem natOfDigits_lt (digits : ∀ c ∈ cs, c.isDigit = true) :
    natOfDigits cs < 10 ^ cs.length := by
  induction cs with
  | nil => exact Nat.one_pos
  | cons c cs ih =>
    obtain ⟨small, _⟩ := digitChar_of_isDigit (digits c List.mem_cons_self)
    have tail : Nat.ofDigitChars 10 cs 0 < 10 ^ cs.length :=
      ih fun d hd => digits d (List.mem_cons_of_mem _ hd)
    have split : natOfDigits (c :: cs)
        = 10 ^ cs.length * (c.toNat - '0'.toNat) + Nat.ofDigitChars 10 cs 0 := by
      rw [← Nat.ofDigitChars_eq_ofDigitChars_zero]
      simp [natOfDigits, Nat.ofDigitChars]
    calc natOfDigits (c :: cs)
        < 10 ^ cs.length * (c.toNat - '0'.toNat) + 10 ^ cs.length := by omega
      _ = 10 ^ cs.length * (c.toNat - '0'.toNat + 1) := by rw [Nat.mul_succ]
      _ ≤ 10 ^ cs.length * 10 := Nat.mul_le_mul_left _ small
      _ = 10 ^ (c :: cs).length := by rw [List.length_cons, Nat.pow_succ]

/-- A number is written without a superfluous zero. -/
theorem toDigits_ne_zero_cons (n : Nat) (d : Char) (rest : List Char) :
    Nat.toDigits 10 n ≠ '0' :: d :: rest := by
  intro h
  have digits : ∀ c ∈ d :: rest, c.isDigit = true := fun c hc =>
    Nat.isDigit_of_mem_toDigits (b := 10) (n := n) (by decide) (by decide)
      (h ▸ List.mem_cons_of_mem _ hc)
  have value : natOfDigits (d :: rest) = n := by
    have := natOfDigits_toDigits n
    rw [h] at this
    exact this
  have small : n < 10 ^ (d :: rest).length := value ▸ natOfDigits_lt digits
  have short := (Nat.length_toDigits_le_iff (by decide) (by simp)).mpr small
  rw [h] at short
  simp only [List.length_cons] at short
  omega

end Schemata.Decimal
