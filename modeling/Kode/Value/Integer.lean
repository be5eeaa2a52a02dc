/-!
# Integers

Integers have 64 bits and a sign. An operation on them comes to the whole number
that it stands for, if this number is in range, and to nothing otherwise
(`Integer.of?`). Division is that of machines: the quotient is rounded to zero, and
the remainder has the sign of the dividend. There is no remainder where there is no
quotient, although the number itself would be in range.

The bits of an integer can be moved by less than 64 places (`Integer.moved?`). Sizes have
no sign, and as many bits.

* `of?_eq_some_iff`: what is there is the exact number;
* `fdiv_eq`, `fmod_eq`: what has to be added to quotient and remainder to round down;
* `inRange_pred_of_tmod`, `inRange_add_of_tmod`: that does not leave the range.
-/

namespace Kode.Integer

/-- Whether the whole number has 64 bits with a sign. -/
def InRange (n : Int) : Prop :=
  -9223372036854775808 ≤ n ∧ n ≤ 9223372036854775807

instance (n : Int) : Decidable (InRange n) :=
  inferInstanceAs (Decidable (_ ∧ _))

/-- The integer that is this whole number, if it is in range. -/
def of? (n : Int) : Option Int64 :=
  if InRange n then some (Int64.ofInt n) else none

/-- The sum. -/
def add? (a b : Int64) : Option Int64 :=
  of? (a.toInt + b.toInt)

/-- The difference. -/
def sub? (a b : Int64) : Option Int64 :=
  of? (a.toInt - b.toInt)

/-- The quotient, rounded to zero. -/
def quotient? (a b : Int64) : Option Int64 :=
  if b = 0 then none else of? (a.toInt.tdiv b.toInt)

/-- What the quotient leaves, if there is one. -/
def remainder? (a b : Int64) : Option Int64 :=
  (quotient? a b).bind fun _ => of? (a.toInt.tmod b.toInt)

/-- The amount of a shift: 32 bits without a sign. -/
def amount? (n : Int64) : Option UInt32 :=
  if 0 ≤ n.toInt ∧ n.toInt < 4294967296 then some (UInt32.ofNat n.toInt.toNat) else none

/-- The bits moved by this amount, if the integer has as many. -/
def moved? (move : BitVec 64 → Nat → BitVec 64) (a : Int64) (n : UInt32) : Option Int64 :=
  if n < 64 then some (Int64.ofBitVec (move a.toBitVec n.toNat)) else none

/-- The bits moved to the left. Those that leave the integer are lost. -/
def shiftLeft? (a : Int64) (n : UInt32) : Option Int64 :=
  moved? (· <<< ·) a n

/-- The bits moved to the right. Copies of the sign come after them. -/
def shiftRight? (a : Int64) (n : UInt32) : Option Int64 :=
  moved? BitVec.sshiftRight a n

/-- The integer as a size, if it is not negative. -/
def size? (n : Int64) : Option Nat :=
  if 0 ≤ n.toInt then some n.toInt.toNat else none

/-- The product of two sizes. Sizes have 64 bits without a sign. -/
def sizeProduct? (m n : Nat) : Option Nat :=
  if m * n < 18446744073709551616 then some (m * n) else none

theorem inRange_toInt (a : Int64) : InRange a.toInt :=
  ⟨a.le_toInt, Int.le_of_lt_add_one a.toInt_lt⟩

theorem of?_toInt (a : Int64) : of? a.toInt = some a := by
  rw [of?, if_pos (inRange_toInt a), Int64.ofInt_toInt]

theorem of?_eq_some_iff {n : Int} {a : Int64} : of? n = some a ↔ a.toInt = n := by
  constructor
  · intro h
    rw [of?] at h
    split at h
    · rename_i hn
      rw [← Option.some.inj h]
      exact Int64.toInt_ofInt_of_le hn.1 (Int.lt_add_one_of_le hn.2)
    · exact absurd h (by simp)
  · rintro rfl
    exact of?_toInt a

theorem of?_eq_none_iff {n : Int} : of? n = none ↔ ¬ InRange n := by
  rw [of?]
  split <;> simp_all

theorem exists_of? {n : Int} (h : InRange n) : ∃ a : Int64, of? n = some a ∧ a.toInt = n :=
  ⟨Int64.ofInt n, if_pos h, Int64.toInt_ofInt_of_le h.1 (Int.lt_add_one_of_le h.2)⟩

theorem toInt_ne_zero {a : Int64} : a.toInt ≠ 0 ↔ a ≠ 0 :=
  not_congr (Int64.toInt_inj (y := 0))

theorem toInt_neg_iff {a : Int64} : a < 0 ↔ a.toInt < 0 :=
  Int64.lt_iff_toInt_lt (y := 0)

theorem quotient?_eq_some_iff {a b q : Int64} :
    quotient? a b = some q ↔ b ≠ 0 ∧ q.toInt = a.toInt.tdiv b.toInt := by
  rw [quotient?]
  split <;> simp_all [of?_eq_some_iff]

theorem quotient?_eq_none_iff {a b : Int64} :
    quotient? a b = none ↔ b = 0 ∨ ¬ InRange (a.toInt.tdiv b.toInt) := by
  rw [quotient?]
  split <;> simp_all [of?_eq_none_iff]

/-! ## Remainders -/

theorem natAbs_tmod_lt {a b : Int} (hb : b ≠ 0) : (a.tmod b).natAbs < b.natAbs := by
  rw [Int.natAbs_tmod]
  exact Nat.mod_lt _ (Int.natAbs_pos.2 hb)

/-- Where there is a quotient, there is a remainder. -/
theorem exists_remainder? {a b q : Int64} (h : quotient? a b = some q) :
    ∃ r : Int64, remainder? a b = some r ∧ r.toInt = a.toInt.tmod b.toInt := by
  have hb := natAbs_tmod_lt (a := a.toInt) (toInt_ne_zero.2 (quotient?_eq_some_iff.1 h).1)
  have hrange := inRange_toInt b
  rw [remainder?, h]
  refine exists_of? ⟨?_, ?_⟩ <;> rw [InRange] at hrange <;> omega

theorem remainder?_eq_none_iff {a b : Int64} : remainder? a b = none ↔ quotient? a b = none := by
  cases h : quotient? a b with
  | none => simp [remainder?, h]
  | some q =>
    obtain ⟨r, hr, -⟩ := exists_remainder? h
    simp [hr]

/-- A remainder that is not zero has the sign of the dividend. -/
theorem tmod_neg_iff {a b : Int} (hr : a.tmod b ≠ 0) : a.tmod b < 0 ↔ a < 0 := by
  rcases Int.lt_or_le a 0 with ha | ha
  · have h := Int.tmod_nonneg b (Int.neg_nonneg_of_nonpos (Int.le_of_lt ha))
    rw [Int.neg_tmod] at h
    omega
  · have h := Int.tmod_nonneg b ha
    omega

/-! ## Rounding down -/

/-- To round down takes one from a quotient that is not whole and below zero. -/
theorem fdiv_eq {a b : Int} (hb : b ≠ 0) :
    a.fdiv b = if a.tmod b ≠ 0 ∧ ¬ (a < 0 ↔ b < 0) then a.tdiv b - 1 else a.tdiv b := by
  rw [Int.fdiv_eq_tdiv]
  simp only [Int.dvd_iff_tmod_eq_zero]
  rcases Int.lt_or_gt_of_ne hb with h | h
  · rw [Int.sign_eq_neg_one_of_neg h]
    split <;> grind
  · rw [Int.sign_eq_one_of_pos h]
    split <;> grind

/-- The remainder gets the divisor back in the same cases, for it has the sign of the
    dividend. -/
theorem fmod_eq {a b : Int} (hb : b ≠ 0) :
    a.fmod b = if a.tmod b ≠ 0 ∧ ¬ (a.tmod b < 0 ↔ b < 0) then a.tmod b + b else a.tmod b := by
  have hquotient := Int.mul_fdiv_add_fmod a b
  have hmachine := Int.mul_tdiv_add_tmod a b
  have hsigns : (a.tmod b ≠ 0 ∧ ¬ (a.tmod b < 0 ↔ b < 0)) ↔ a.tmod b ≠ 0 ∧ ¬ (a < 0 ↔ b < 0) :=
    and_congr_right fun hr => by rw [tmod_neg_iff hr]
  rw [fdiv_eq hb] at hquotient
  simp only [hsigns]
  split at hquotient
  · rename_i hround
    rw [if_pos hround]
    rw [Int.mul_sub] at hquotient
    omega
  · rename_i hround
    rw [if_neg hround]
    omega

/-- A quotient with a remainder is at most half of the dividend. -/
theorem inRange_pred_of_tmod {a b : Int} (ha : InRange a) (hb : b ≠ 0) (hr : a.tmod b ≠ 0) :
    InRange (a.tdiv b - 1) := by
  have hlt := natAbs_tmod_lt (a := a) hb
  have hhalf : (a.tdiv b).natAbs ≤ a.natAbs / 2 := by
    rw [Int.natAbs_tdiv]
    exact Nat.div_le_div_left (by omega) Nat.two_pos
  rw [InRange] at ha ⊢
  omega

/-- A remainder and a divisor of the other sign add up to less than the divisor. -/
theorem inRange_add_of_tmod {a b : Int} (hrange : InRange b) (hb : b ≠ 0)
    (hsigns : ¬ (a.tmod b < 0 ↔ b < 0)) : InRange (a.tmod b + b) := by
  have hlt := natAbs_tmod_lt (a := a) hb
  rw [InRange] at hrange ⊢
  omega

end Kode.Integer
