import Kode.Proofs.Arithmetic
import Mathlib.Data.Int.ModEq

/-!
# Shifts

The amount of a shift is the number of one of the 64 bits of an integer, and any other
amount is refused, large ones as well. To shift by `n` to the left is to multiply by the
power `2 ^ n`, as far as 64 bits can tell, and to shift to the right is to divide by it,
rounded to the lower whole number.

* `Integer.toInt_shiftLeft`, `Integer.toInt_shiftRight`: what moving the bits does to the
  whole number;
* `Operator.apply_shift`: which amounts are refused;
* `Operator.shift_law`: both shifts together, one after the other, and twice.
-/

namespace Kode

namespace Integer

/-- Whether the integer is the number of a bit. -/
def IsAmount (n : Int64) : Prop :=
  0 ≤ n.toInt ∧ n.toInt < 64

instance (n : Int64) : Decidable (IsAmount n) :=
  inferInstanceAs (Decidable (_ ∧ _))

theorem not_isAmount_iff {n : Int64} : ¬ IsAmount n ↔ n.toInt < 0 ∨ 64 ≤ n.toInt := by
  rw [IsAmount]
  omega

theorem IsAmount.toNat_lt {n : Int64} (h : IsAmount n) : n.toInt.toNat < 64 := by
  rw [IsAmount] at h
  omega

/-- A number of 32 bits may still be no amount. -/
theorem amount?_bind_moved? (move : BitVec 64 → Nat → BitVec 64) (a n : Int64) :
    (amount? n).bind (moved? move a) =
      if IsAmount n then some (Int64.ofBitVec (move a.toBitVec n.toInt.toNat)) else none := by
  rw [amount?]
  split
  · rename_i hn
    have hamount : (UInt32.ofNat n.toInt.toNat).toNat = n.toInt.toNat :=
      UInt32.toNat_ofNat_of_lt' (show n.toInt.toNat < 4294967296 by omega)
    have hlt : UInt32.ofNat n.toInt.toNat < 64 ↔ IsAmount n := by
      rw [UInt32.lt_iff_toNat_lt, hamount, IsAmount]
      change n.toInt.toNat < 64 ↔ _
      omega
    simp only [Option.bind_some, moved?, hlt, hamount]
  · rename_i hn
    rw [if_neg (by rw [IsAmount]; omega), Option.bind_none]

/-! ## Bits and whole numbers -/

/-- The bits of an integer determine it. -/
theorem eq_of_modEq {a b : Int64} (h : a.toInt ≡ b.toInt [ZMOD 2 ^ 64]) : a = b := by
  have ha := inRange_toInt a
  have hb := inRange_toInt b
  have hdvd := h.dvd
  rw [InRange] at ha hb
  rw [← Int64.toInt_inj]
  omega

theorem bmod_modEq (n : Int) : n.bmod (2 ^ 64) ≡ n [ZMOD 2 ^ 64] :=
  show n.bmod (2 ^ 64) % ((2 ^ 64 : Nat) : Int) = n % ((2 ^ 64 : Nat) : Int) from Int.bmod_emod

theorem toInt_shiftLeft (a : Int64) (n : Nat) :
    (Int64.ofBitVec (a.toBitVec <<< n)).toInt ≡ a.toInt * 2 ^ n [ZMOD 2 ^ 64] := by
  have hbits : (a.toBitVec.toNat : Int) ≡ a.toInt [ZMOD 2 ^ 64] := by
    rw [← Int64.toInt_toBitVec, BitVec.toInt_eq_toNat_bmod]
    exact (bmod_modEq _).symm
  rw [Int64.toInt_ofBitVec, BitVec.toInt_shiftLeft, Nat.shiftLeft_eq]
  calc ((a.toBitVec.toNat * 2 ^ n : Nat) : Int).bmod (2 ^ 64)
      ≡ (a.toBitVec.toNat * 2 ^ n : Nat) [ZMOD 2 ^ 64] := bmod_modEq _
    _ = a.toBitVec.toNat * 2 ^ n := by push_cast; rfl
    _ ≡ a.toInt * 2 ^ n [ZMOD 2 ^ 64] := hbits.mul_right _

theorem toInt_shiftRight (a : Int64) (n : Nat) :
    (Int64.ofBitVec (a.toBitVec.sshiftRight n)).toInt = a.toInt / 2 ^ n := by
  rw [Int64.toInt_ofBitVec, BitVec.toInt_sshiftRight, Int64.toInt_toBitVec,
    Int.shiftRight_eq_div_pow]
  push_cast
  rfl

theorem floor_div_two_pow (a : Int) (n : Nat) : ⌊(a / 2 ^ n : ℚ)⌋ = a / 2 ^ n := by
  have h := Rat.floor_intCast_div_natCast a (2 ^ n)
  push_cast at h
  exact h

/-- The bits come back if none has been lost. -/
theorem shiftRight_shiftLeft_eq_iff {a : Int64} {n : Nat} (hn : n < 64) :
    Int64.ofBitVec ((a.toBitVec <<< n).sshiftRight n) = a ↔ InRange (a.toInt * 2 ^ n) := by
  have hleft := toInt_shiftLeft a n
  have hright := toInt_shiftRight (Int64.ofBitVec (a.toBitVec <<< n)) n
  rw [Int64.toBitVec_ofBitVec] at hright
  rw [← Int64.toInt_inj, hright]
  generalize Int64.ofBitVec (a.toBitVec <<< n) = b at hleft
  constructor
  · intro h
    -- The shifted number is a multiple of the power, for so is the whole number that it
    -- differs from by a multiple of `2 ^ 64`.
    have hdvd : (2 ^ n : Int) ∣ b.toInt :=
      (hleft.of_dvd (pow_dvd_pow 2 hn.le)).dvd_iff.2 (dvd_mul_left _ _)
    rw [← h, Int.ediv_mul_cancel hdvd]
    exact inRange_toInt b
  · intro hrange
    obtain ⟨c, -, hc⟩ := exists_of? hrange
    obtain rfl := eq_of_modEq (hc ▸ hleft : b.toInt ≡ c.toInt [ZMOD 2 ^ 64])
    rw [hc, Int.mul_ediv_cancel _ (by positivity)]

end Integer

/-- The 64 amounts move the bits, and all others are refused. -/
theorem Value.shift_integers (move : BitVec 64 → Nat → BitVec 64) (a n : Int64) :
    shift (Integer.moved? move) (integer a) (integer n) =
      if Integer.IsAmount n then .ok (integer (Int64.ofBitVec (move a.toBitVec n.toInt.toNat)))
      else .error (.invalidShift n) := by
  rw [shift, Integer.amount?_bind_moved?]
  split_ifs <;> rfl

namespace Operator

/-- How the operator moves bits, if it is a shift. -/
def move? : Operator → Option (BitVec 64 → Nat → BitVec 64)
  | shiftLeft => some fun b n => b <<< n
  | shiftRight => some BitVec.sshiftRight
  | _ => none

variable {op : Operator} {move : BitVec 64 → Nat → BitVec 64}

theorem apply_shift (hop : op.move? = some move) (a n : Int64) :
    op.apply (.integer a) (.integer n) =
      if Integer.IsAmount n then .ok (.integer (Int64.ofBitVec (move a.toBitVec n.toInt.toNat)))
      else .error (.invalidShift n) := by
  cases op with
  | shiftLeft | shiftRight =>
    obtain rfl := Option.some.inj hop
    exact Value.shift_integers _ a n
  | _ => exact absurd hop nofun

theorem apply_shift_eq_error_iff (hop : op.move? = some move) {a n : Int64} {f : Fault} :
    op.apply (.integer a) (.integer n) = .error f ↔
      f = .invalidShift n ∧ (n.toInt < 0 ∨ 64 ≤ n.toInt) := by
  rw [apply_shift hop, ← Integer.not_isAmount_iff]
  split <;> simp_all [eq_comm]

theorem apply_shift_eq_ok_iff (hop : op.move? = some move) {a n : Int64} {v : Value} :
    op.apply (.integer a) (.integer n) = .ok v ↔
      Integer.IsAmount n ∧ v = .integer (Int64.ofBitVec (move a.toBitVec n.toInt.toNat)) := by
  rw [apply_shift hop]
  split <;> simp_all [eq_comm]

theorem move_move (hop : op.move? = some move) (b : BitVec 64) (n k : Nat) :
    move (move b n) k = move b (n + k) := by
  cases op with
  | shiftLeft =>
    obtain rfl := Option.some.inj hop
    exact (BitVec.shiftLeft_add b n k).symm
  | shiftRight =>
    obtain rfl := Option.some.inj hop
    exact BitVec.sshiftRight_add.symm
  | _ => exact absurd hop nofun

/-- The second shift goes on with the bits that the first one has moved. -/
theorem apply_shift_bind (hop : op.move? = some move) {op' : Operator}
    {move' : BitVec 64 → Nat → BitVec 64} (hop' : op'.move? = some move') (a n k : Int64) :
    (do op'.apply (← op.apply (.integer a) (.integer n)) (.integer k)) =
      if Integer.IsAmount n then
        if Integer.IsAmount k then
          .ok (.integer (Int64.ofBitVec (move' (move a.toBitVec n.toInt.toNat) k.toInt.toNat)))
        else .error (.invalidShift k)
      else .error (.invalidShift n) := by
  rw [apply_shift hop]
  by_cases hn : Integer.IsAmount n
  · rw [if_pos hn, if_pos hn]
    change op'.apply _ _ = _
    rw [apply_shift hop', Int64.toBitVec_ofBitVec]
  · rw [if_neg hn, if_neg hn]
    rfl

theorem apply_shift_add (hop : op.move? = some move) {a n k : Int64} (hn : Integer.IsAmount n)
    (hk : Integer.IsAmount k) (hsum : n.toInt + k.toInt < 64) :
    (do op.apply (← op.apply (.integer a) (.integer n)) (.integer k)) =
      (do op.apply (.integer a) (← add.apply (.integer n) (.integer k))) := by
  have hrange : Integer.InRange (n.toInt + k.toInt) :=
    ⟨by have := hn.1; have := hk.1; omega, by omega⟩
  obtain ⟨m, -, hm⟩ := Integer.exists_of? hrange
  have hamount : Integer.IsAmount m := ⟨hm ▸ Int.add_nonneg hn.1 hk.1, hm ▸ hsum⟩
  have hbits : m.toInt.toNat = n.toInt.toNat + k.toInt.toNat := by
    rw [hm, Int.toNat_add hn.1 hk.1]
  rw [apply_shift_bind hop hop, if_pos hn, if_pos hk, add_integers_eq_ok_iff.2 hm, move_move hop,
    ← hbits]
  exact ((apply_shift hop a m).trans (if_pos hamount)).symm

theorem exists_move (hop : op = shiftLeft ∨ op = shiftRight) : ∃ move, op.move? = some move := by
  rcases hop with rfl | rfl
  · exact ⟨_, rfl⟩
  · exact ⟨_, rfl⟩

/-! ## Multiplication and division by powers of two -/

theorem shiftLeft_eq_ok_iff {a n : Int64} {v : Value} :
    shiftLeft.apply (.integer a) (.integer n) = .ok v ↔ Integer.IsAmount n ∧
      ∃ b : Int64, v = .integer b ∧ b.toInt ≡ a.toInt * 2 ^ n.toInt.toNat [ZMOD 2 ^ 64] := by
  rw [apply_shift_eq_ok_iff rfl]
  refine and_congr_right fun _ => ⟨?_, ?_⟩
  · rintro rfl
    exact ⟨_, rfl, Integer.toInt_shiftLeft a _⟩
  · rintro ⟨b, rfl, hb⟩
    rw [Integer.eq_of_modEq (hb.trans (Integer.toInt_shiftLeft a _).symm)]

theorem shiftRight_eq_ok_iff {a n : Int64} {v : Value} :
    shiftRight.apply (.integer a) (.integer n) = .ok v ↔ Integer.IsAmount n ∧
      ∃ b : Int64, v = .integer b ∧ b.toInt = ⌊(a.toInt / 2 ^ n.toInt.toNat : ℚ)⌋ := by
  rw [apply_shift_eq_ok_iff rfl]
  simp only [Integer.floor_div_two_pow, ← Integer.toInt_shiftRight, Int64.toInt_inj]
  refine and_congr_right fun _ => ⟨?_, ?_⟩
  · rintro rfl
    exact ⟨_, rfl, rfl⟩
  · rintro ⟨b, rfl, rfl⟩
    rfl

theorem shiftRight_shiftLeft_eq_ok_iff {a n : Int64} :
    (do shiftRight.apply (← shiftLeft.apply (.integer a) (.integer n)) (.integer n)) =
        .ok (.integer a) ↔
      Integer.IsAmount n ∧ Integer.InRange (a.toInt * 2 ^ n.toInt.toNat) := by
  rw [apply_shift_bind rfl rfl]
  by_cases hn : Integer.IsAmount n
  · rw [if_pos hn, if_pos hn, Except.ok.injEq, Value.integer.injEq,
      Integer.shiftRight_shiftLeft_eq_iff hn.toNat_lt]
    exact (and_iff_right hn).symm
  · rw [if_neg hn]
    exact iff_of_false nofun fun h => hn h.1

/-- Of two amounts that make up less than 64, the first that is refused is named. -/
theorem apply_shift_twice (hop : op.move? = some move) {a n k : Int64}
    (hsum : n.toInt + k.toInt < 64) :
    (do op.apply (← op.apply (.integer a) (.integer n)) (.integer k)) =
      if n.toInt < 0 ∨ 64 ≤ n.toInt then .error (.invalidShift n)
      else if k.toInt < 0 then .error (.invalidShift k)
      else (do op.apply (.integer a) (← add.apply (.integer n) (.integer k))) := by
  by_cases hn : Integer.IsAmount n
  · rw [if_neg (mt Integer.not_isAmount_iff.2 (not_not.2 hn))]
    split_ifs with hk
    · rw [apply_shift_bind hop hop, if_pos hn, if_neg (Integer.not_isAmount_iff.2 (.inl hk))]
    · have hnonneg := hn.1
      exact apply_shift_add hop hn ⟨not_lt.1 hk, by omega⟩ hsum
  · rw [apply_shift_bind hop hop, if_neg hn, if_pos (Integer.not_isAmount_iff.1 hn)]

/-- Amounts that are not the number of a bit are refused. The others multiply by a power
    of two, of which 64 bits are kept, or divide by it. What has been multiplied can be
    divided again if it has stayed in range, and two shifts in the same direction are one,
    unless an amount is refused. -/
theorem shift_law :
    (∀ op, op = shiftLeft ∨ op = shiftRight → ∀ (a n : Int64) (f : Fault),
      op.apply (.integer a) (.integer n) = .error f ↔
        f = .invalidShift n ∧ (n.toInt < 0 ∨ 64 ≤ n.toInt)) ∧
    (∀ (a n : Int64) (v : Value), shiftLeft.apply (.integer a) (.integer n) = .ok v ↔
      (0 ≤ n.toInt ∧ n.toInt < 64) ∧
        ∃ b : Int64, v = .integer b ∧ b.toInt ≡ a.toInt * 2 ^ n.toInt.toNat [ZMOD 2 ^ 64]) ∧
    (∀ (a n : Int64) (v : Value), shiftRight.apply (.integer a) (.integer n) = .ok v ↔
      (0 ≤ n.toInt ∧ n.toInt < 64) ∧
        ∃ b : Int64, v = .integer b ∧ b.toInt = ⌊(a.toInt / 2 ^ n.toInt.toNat : ℚ)⌋) ∧
    (∀ a n : Int64,
      (do shiftRight.apply (← shiftLeft.apply (.integer a) (.integer n)) (.integer n)) =
          .ok (.integer a) ↔
        (0 ≤ n.toInt ∧ n.toInt < 64) ∧ Integer.InRange (a.toInt * 2 ^ n.toInt.toNat)) ∧
    ∀ op, op = shiftLeft ∨ op = shiftRight → ∀ a n k : Int64, n.toInt + k.toInt < 64 →
      (do op.apply (← op.apply (.integer a) (.integer n)) (.integer k)) =
        if n.toInt < 0 ∨ 64 ≤ n.toInt then .error (.invalidShift n)
        else if k.toInt < 0 then .error (.invalidShift k)
        else (do op.apply (.integer a) (← add.apply (.integer n) (.integer k))) := by
  refine ⟨fun op hop a n f => ?_, fun a n v => shiftLeft_eq_ok_iff,
    fun a n v => shiftRight_eq_ok_iff, fun a n => shiftRight_shiftLeft_eq_ok_iff,
    fun op hop a n k hsum => ?_⟩
  · obtain ⟨move, hmove⟩ := exists_move hop
    exact apply_shift_eq_error_iff hmove
  · obtain ⟨move, hmove⟩ := exists_move hop
    exact apply_shift_twice hmove hsum

/-- An amount of 33 bits, a lost sign, and a negative number that is rounded. -/
theorem shift_law_of_signs :
    shiftRight.apply (.integer 1) (.integer 4294967297) = .error (.invalidShift 4294967297) ∧
    shiftLeft.apply (.integer 3) (.integer 63) = .ok (.integer Int64.minValue) ∧
    shiftRight.apply (.integer (-5)) (.integer 1) = .ok (.integer (-3)) ∧
    (30 : Int64).toInt + (33 : Int64).toInt < 64 ∧
    (do shiftRight.apply (← shiftRight.apply (.integer (-5)) (.integer 30)) (.integer 33)) =
      (do shiftRight.apply (.integer (-5)) (← add.apply (.integer 30) (.integer 33))) := by
  obtain ⟨hrefused, hleft, hright, -, htwice⟩ := shift_law
  refine ⟨(hrefused shiftRight (.inr rfl) 1 4294967297 _).2 ⟨rfl, by decide⟩,
    (hleft 3 63 _).2 ⟨by decide, Int64.minValue, rfl, by decide⟩,
    (hright (-5) 1 _).2 ⟨by decide, -3, rfl, ?_⟩, by decide, ?_⟩
  · rw [Integer.floor_div_two_pow]
    decide
  · rw [htwice shiftRight (.inr rfl) (-5) 30 33 (by decide), if_neg (by decide), if_neg (by decide)]

end Operator

end Kode
