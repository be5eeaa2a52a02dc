import Kode.Value.Operation
import Mathlib.Algebra.Order.Ring.Rat
import Mathlib.Data.Rat.Floor

/-!
# Whole-number arithmetic

On integers the five operators of arithmetic are those of the whole numbers
(`Operator.exact?`), as far as the result is in range: what is asked for is the
exact number, or else the operator overflows (`Exactly`). Quotients are rounded to
the lower whole number, and a remainder is what such a quotient leaves.

There is one exception. The machine has no quotient of the least integer and minus
one, and so it has no remainder either, although that would be zero.

* `Operator.apply_integers`: when there is a result and which one, and when there is
  none and why;
* `Operator.division_law`: quotient and remainder belong together, and nothing that is
  done to round them leaves the range.
-/

namespace Kode

/-- The whole number that an operator of arithmetic asks for. -/
def Operator.exact? : Operator → Option (Int → Int → Int)
  | add => some fun a b => a + b
  | subtract => some fun a b => a - b
  | multiply => some fun a b => a * b
  | integerDivide => some fun a b => ⌊(a / b : ℚ)⌋
  | modulo => some fun a b => a - b * ⌊(a / b : ℚ)⌋
  | _ => none

/-- Whether the operator divides whole numbers. -/
def Operator.Divides (op : Operator) : Prop :=
  op = integerDivide ∨ op = modulo

instance (op : Operator) : Decidable op.Divides :=
  inferInstanceAs (Decidable (_ ∨ _))

/-! ## Rounding down -/

/-- The quotient rounded down is the greatest whole number below it. -/
theorem floor_div_eq_fdiv (a b : Int) : ⌊(a / b : ℚ)⌋ = a.fdiv b := by
  obtain ⟨n, rfl | rfl⟩ := b.eq_nat_or_neg
  · rw [Int.cast_natCast, Rat.floor_intCast_div_natCast,
      Int.fdiv_eq_ediv_of_nonneg _ (Int.natCast_nonneg n)]
  · have hneg : (a / (-(n : Int) : Int) : ℚ) = ((-a : Int) / (n : ℕ) : ℚ) := by
      push_cast
      rw [div_neg, neg_div]
    rw [hneg, Rat.floor_intCast_div_natCast, ← Int.neg_fdiv_neg, Int.neg_neg,
      Int.fdiv_eq_ediv_of_nonneg _ (Int.natCast_nonneg n)]

theorem sub_mul_floor_div_eq_fmod (a b : Int) : a - b * ⌊(a / b : ℚ)⌋ = a.fmod b := by
  have h := Int.mul_fdiv_add_fmod a b
  rw [floor_div_eq_fdiv]
  omega

/-- Of all quotients only that of the least integer and minus one is out of range. -/
theorem Integer.inRange_tdiv_iff {a b : Int64} (hb : b ≠ 0) :
    InRange (a.toInt.tdiv b.toInt) ↔ ¬ (a = Int64.minValue ∧ b = -1) := by
  constructor
  · rintro hrange ⟨rfl, rfl⟩
    exact absurd hrange (by decide)
  · intro h
    by_contra hout
    have ha := inRange_toInt a
    have hle := Int.natAbs_tdiv_le_natAbs a.toInt b.toInt
    have hlt := natAbs_tmod_lt (a := a.toInt) (toInt_ne_zero.2 hb)
    have hdivision := Int.mul_tdiv_add_tmod a.toInt b.toInt
    rw [InRange] at ha hout
    -- No quotient is greater than its dividend, so this one has left the range by one.
    have hquotient : a.toInt.tdiv b.toInt = 9223372036854775808 := by omega
    rw [hquotient] at hdivision
    have hleast : a.toInt = Int64.minValue.toInt := by
      change a.toInt = -9223372036854775808
      omega
    have hunit : b.toInt = (-1 : Int64).toInt := by
      change b.toInt = -1
      omega
    exact h ⟨Int64.toInt_inj.1 hleast, Int64.toInt_inj.1 hunit⟩

/-! ## Results -/

/-- The result is the whole number, if that is in range, and an overflow if not. -/
inductive Exactly (n : Int) : Except Fault Value → Prop
  | ok {m : Int64} : m.toInt = n → Exactly n (.ok (.integer m))
  | overflow : ¬ Integer.InRange n → Exactly n (.error .overflow)

namespace Exactly

variable {n : Int} {x : Except Fault Value}

theorem eq_ok_iff (h : Exactly n x) {m : Int64} : x = .ok (.integer m) ↔ m.toInt = n := by
  cases h with
  | ok hm => rw [Except.ok.injEq, Value.integer.injEq, ← hm, eq_comm, Int64.toInt_inj]
  | overflow hn =>
    refine ⟨nofun, ?_⟩
    rintro rfl
    exact absurd (Integer.inRange_toInt m) hn

theorem eq_overflow_iff (h : Exactly n x) : x = .error .overflow ↔ ¬ Integer.InRange n := by
  cases h with
  | ok hm => exact ⟨nofun, fun hn => absurd (hm ▸ Integer.inRange_toInt _) hn⟩
  | overflow hn => exact iff_of_true rfl hn

theorem ne_divisionByZero (h : Exactly n x) : x ≠ .error .divisionByZero := by
  cases h <;> simp

end Exactly

namespace Value

theorem exactly_checked (n : Int) : Exactly n (checked n) := by
  rw [checked]
  cases h : ofInt? n with
  | none =>
    refine .overflow fun hn => ?_
    have hn' := (ofInt?_eq_none_iff n).1 h
    rw [Integer.InRange] at hn
    omega
  | some v =>
    obtain ⟨m, rfl, hm⟩ := ofInt?_eq_some h
    exact .ok hm

theorem exactly_floorDivide {a b : Int64} (hb : b ≠ 0) :
    Exactly (a.toInt.fdiv b.toInt) (floorDivide (integer a) (integer b)) := by
  change Exactly _ (if b = 0 then _ else _)
  rw [if_neg hb]
  cases hq : Integer.quotient? a b with
  | some q =>
    obtain ⟨n, hn, hnv⟩ := exists_floorQuotient? hq
    simp only [hn, Option.get_some]
    exact .ok hnv
  | none =>
    simp only [floorQuotient?_of_eq_none hq, Option.get_some]
    -- The quotient of the least integer and minus one is whole.
    have hout := (Integer.quotient?_eq_none_iff.1 hq).resolve_left hb
    rw [Integer.inRange_tdiv_iff hb, not_not] at hout
    obtain ⟨rfl, rfl⟩ := hout
    exact .overflow (by decide)

theorem exactly_modulo {a b : Int64} (hb : b ≠ 0) (h : ¬ (a = Int64.minValue ∧ b = -1)) :
    Exactly (a.toInt.fmod b.toInt) (modulo (integer a) (integer b)) := by
  change Exactly _ (if b = 0 then _ else _)
  rw [if_neg hb]
  cases hq : Integer.quotient? a b with
  | some q =>
    obtain ⟨n, hn, hnv⟩ := exists_floorRemainder? hq
    simp only [hn, Option.get_some]
    exact .ok hnv
  | none =>
    have hout := (Integer.quotient?_eq_none_iff.1 hq).resolve_left hb
    exact absurd ((Integer.inRange_tdiv_iff hb).2 h) hout

end Value

namespace Operator

theorem apply_divisionByZero {op : Operator} (h : op.Divides) (a : Int64) :
    op.apply (.integer a) (.integer 0) = .error .divisionByZero := by
  rcases h with rfl | rfl <;> rfl

/-- All results of arithmetic are exact, but for divisions by zero and the remainder of
    the least integer and minus one. -/
theorem exactly_apply {op : Operator} {exact : Int → Int → Int} (hop : op.exact? = some exact)
    {a b : Int64} (hzero : ¬ (op.Divides ∧ b = 0))
    (hleast : ¬ (op = modulo ∧ a = Int64.minValue ∧ b = -1)) :
    Exactly (exact a.toInt b.toInt) (op.apply (.integer a) (.integer b)) := by
  cases op with
  | add | subtract | multiply =>
    obtain rfl := Option.some.inj hop
    exact Value.exactly_checked _
  | integerDivide =>
    obtain rfl := Option.some.inj hop
    simp only [floor_div_eq_fdiv]
    exact Value.exactly_floorDivide fun hb => hzero ⟨.inl rfl, hb⟩
  | modulo =>
    obtain rfl := Option.some.inj hop
    simp only [sub_mul_floor_div_eq_fmod]
    exact Value.exactly_modulo (fun hb => hzero ⟨.inr rfl, hb⟩) fun h => hleast ⟨rfl, h⟩
  | _ => exact absurd hop nofun

theorem add_integers_eq_ok_iff {a b n : Int64} :
    add.apply (.integer a) (.integer b) = .ok (.integer n) ↔ n.toInt = a.toInt + b.toInt :=
  (Value.exactly_checked _).eq_ok_iff

theorem apply_modulo_least :
    modulo.apply (.integer Int64.minValue) (.integer (-1)) = .error .overflow := by
  decide +kernel

/-- Only divisions by zero have no result for this reason. The others have the exact
    number as their result, and overflow if that is out of range; but the remainder of
    the least integer and minus one overflows as well. -/
theorem apply_integers {op : Operator} {exact : Int → Int → Int} (hop : op.exact? = some exact)
    (a b : Int64) :
    (op.apply (.integer a) (.integer b) = .error .divisionByZero ↔ op.Divides ∧ b = 0) ∧
    (∀ n : Int64, op.apply (.integer a) (.integer b) = .ok (.integer n) ↔
      n.toInt = exact a.toInt b.toInt ∧ ¬ (op.Divides ∧ b = 0) ∧
        ¬ (op = modulo ∧ a = Int64.minValue ∧ b = -1)) ∧
    (op.apply (.integer a) (.integer b) = .error .overflow ↔
      ¬ (op.Divides ∧ b = 0) ∧
        (¬ Integer.InRange (exact a.toInt b.toInt) ∨
          op = modulo ∧ a = Int64.minValue ∧ b = -1)) := by
  by_cases hzero : op.Divides ∧ b = 0
  · obtain ⟨hop, rfl⟩ := hzero
    simp [apply_divisionByZero hop, hop]
  · by_cases hleast : op = modulo ∧ a = Int64.minValue ∧ b = -1
    · obtain ⟨rfl, rfl, rfl⟩ := hleast
      simp [apply_modulo_least]
    · have hexact := exactly_apply hop hzero hleast
      simp [hexact.eq_ok_iff, hexact.eq_overflow_iff, hexact.ne_divisionByZero, hzero, hleast]

theorem apply_integers_of_negative :
    integerDivide.exact? = some (fun a b : Int => ⌊(a / b : ℚ)⌋) ∧
    integerDivide.apply (.integer (-7)) (.integer 2) = .ok (.integer (-4)) := by
  refine ⟨rfl, ((apply_integers rfl (-7) 2).2.1 (-4)).2 ⟨?_, by decide, by decide⟩⟩
  simp only [floor_div_eq_fdiv]
  decide

/-- So the exact number alone does not tell whether there is a result. -/
theorem not_apply_integers_of_least :
    ¬ ∀ (op : Operator) (exact : Int → Int → Int), op.exact? = some exact → ∀ a b : Int64,
      (op.apply (.integer a) (.integer b) = .error .divisionByZero ↔ op.Divides ∧ b = 0) ∧
      (¬ (op.Divides ∧ b = 0) →
        (∀ n : Int64, n.toInt = exact a.toInt b.toInt →
          op.apply (.integer a) (.integer b) = .ok (.integer n)) ∧
        (op.apply (.integer a) (.integer b) = .error .overflow ↔
          ¬ Integer.InRange (exact a.toInt b.toInt))) := by
  intro h
  have hrange := ((h modulo _ rfl Int64.minValue (-1)).2 (by decide)).2.1 (by decide +kernel)
  simp only [sub_mul_floor_div_eq_fmod] at hrange
  exact hrange (by decide)

/-! ## Quotient and remainder -/

variable {a b : Int64} {v w : Value}

theorem integerDivide_eq_ok (h : integerDivide.apply (.integer a) (.integer b) = .ok v) :
    b ≠ 0 ∧ ∃ q : Int64, v = .integer q ∧ q.toInt = a.toInt.fdiv b.toInt := by
  have hb : b ≠ 0 := by
    rintro rfl
    rw [apply_divisionByZero (.inl rfl)] at h
    cases h
  have hexact := Value.exactly_floorDivide (a := a) hb
  rw [show Value.floorDivide (.integer a) (.integer b) = .ok v from h] at hexact
  cases hexact with
  | ok hq => exact ⟨hb, _, rfl, hq⟩

theorem modulo_eq_ok (h : modulo.apply (.integer a) (.integer b) = .ok w) :
    b ≠ 0 ∧ ∃ r : Int64, w = .integer r ∧ r.toInt = a.toInt.fmod b.toInt := by
  have hb : b ≠ 0 := by
    rintro rfl
    rw [apply_divisionByZero (.inr rfl)] at h
    cases h
  have hleast : ¬ (a = Int64.minValue ∧ b = -1) := by
    rintro ⟨rfl, rfl⟩
    rw [apply_modulo_least] at h
    cases h
  have hexact := Value.exactly_modulo hb hleast
  rw [show Value.modulo (.integer a) (.integer b) = .ok w from h] at hexact
  cases hexact with
  | ok hr => exact ⟨hb, _, rfl, hr⟩

theorem natAbs_fmod_lt {a b : Int} (hb : b ≠ 0) : (a.fmod b).natAbs < b.natAbs := by
  have hlt := Integer.natAbs_tmod_lt (a := a) hb
  rw [Integer.fmod_eq hb]
  split <;> omega

/-- A remainder that is not zero has the sign of the divisor. -/
theorem sign_fmod {a b : Int} (hb : b ≠ 0) (hr : a.fmod b ≠ 0) : (a.fmod b).sign = b.sign := by
  have hlt := Integer.natAbs_tmod_lt (a := a) hb
  have hsigns : a.fmod b < 0 ↔ b < 0 := by
    rw [Integer.fmod_eq hb] at hr ⊢
    split at hr <;> split <;> omega
  rcases Int.lt_or_gt_of_ne hb with hneg | hpos
  · rw [Int.sign_eq_neg_one_of_neg hneg, Int.sign_eq_neg_one_of_neg (hsigns.2 hneg)]
  · rw [Int.sign_eq_one_of_pos hpos, Int.sign_eq_one_of_pos (by omega)]

theorem fdiv_le_fdiv {a a' b : Int} (hb : 0 < b) (h : a ≤ a') : a.fdiv b ≤ a'.fdiv b := by
  rw [Int.fdiv_eq_ediv_of_nonneg a hb.le, Int.fdiv_eq_ediv_of_nonneg a' hb.le]
  exact Int.ediv_le_ediv hb h

/-- Quotient and remainder make up the dividend, and the remainder is smaller than the
    divisor and has its sign; quotients grow with the dividend and remainders recur.
    Both come from the quotient and the remainder of the machine, and what is added to
    these never leaves the range. -/
theorem division_law :
    (∀ a b : Int64, b ≠ 0 → ∃ x y, Value.floorQuotient? a b = some x ∧
      Value.floorRemainder? a b = some y ∧
      integerDivide.apply (.integer a) (.integer b) = x.map .integer ∧
      modulo.apply (.integer a) (.integer b) = y.map .integer) ∧
    ∀ (a b : Int64) (v w : Value),
      integerDivide.apply (.integer a) (.integer b) = .ok v →
      modulo.apply (.integer a) (.integer b) = .ok w →
      ∃ q r : Int64, v = .integer q ∧ w = .integer r ∧
        a.toInt = b.toInt * q.toInt + r.toInt ∧
        (r = 0 ∨ r.toInt.sign = b.toInt.sign) ∧ r.toInt.natAbs < b.toInt.natAbs ∧
        (0 < b → ∀ a' q' : Int64, a ≤ a' →
          integerDivide.apply (.integer a') (.integer b) = .ok (.integer q') → q ≤ q') ∧
        (∀ (a' : Int64) (w' : Value), a'.toInt = a.toInt + b.toInt →
          modulo.apply (.integer a') (.integer b) = .ok w' → w' = w) := by
  refine ⟨fun a b hb => ?_, fun a b v w hv hw => ?_⟩
  · refine ⟨_, _, (Option.some_get (Value.isSome_floorQuotient? a b)).symm,
      (Option.some_get (Value.isSome_floorRemainder? a b)).symm, ?_, ?_⟩
    · exact if_neg hb
    · exact if_neg hb
  · obtain ⟨hb, q, rfl, hq⟩ := integerDivide_eq_ok hv
    obtain ⟨-, r, rfl, hr⟩ := modulo_eq_ok hw
    have hb' := Integer.toInt_ne_zero.2 hb
    refine ⟨q, r, rfl, rfl, ?_, ?_, ?_, ?_, ?_⟩
    · rw [hq, hr, Int.mul_fdiv_add_fmod]
    · rw [or_iff_not_imp_left, ← ne_eq, ← Integer.toInt_ne_zero, hr]
      exact sign_fmod hb'
    · rw [hr]
      exact natAbs_fmod_lt hb'
    · intro hpos a' q' ha hq'
      obtain ⟨-, n, hn, hq'⟩ := integerDivide_eq_ok hq'
      obtain rfl := Value.integer.inj hn
      rw [Int64.le_iff_toInt_le, hq, hq']
      exact fdiv_le_fdiv (Int64.lt_iff_toInt_lt.1 hpos) (Int64.le_iff_toInt_le.1 ha)
    · intro a' w' ha hw'
      obtain ⟨-, r', rfl, hr'⟩ := modulo_eq_ok hw'
      rw [Value.integer.injEq, ← Int64.toInt_inj, hr, hr', ha, Int.add_fmod_right]

theorem division_law_of_negative :
    integerDivide.apply (.integer (-7)) (.integer 2) = .ok (.integer (-4)) ∧
    modulo.apply (.integer (-7)) (.integer 2) = .ok (.integer 1) ∧
    ∃ q r : Int64, Value.integer (-4) = .integer q ∧ Value.integer 1 = .integer r ∧
      (-7 : Int64).toInt = (2 : Int64).toInt * q.toInt + r.toInt := by
  have hquotient : integerDivide.apply (.integer (-7)) (.integer 2) = .ok (.integer (-4)) := by
    decide +kernel
  have hremainder : modulo.apply (.integer (-7)) (.integer 2) = .ok (.integer 1) := by
    decide +kernel
  obtain ⟨q, r, hq, hr, hsum, -⟩ := division_law.2 (-7) 2 _ _ hquotient hremainder
  exact ⟨hquotient, hremainder, q, r, hq, hr, hsum⟩

end Operator

end Kode
