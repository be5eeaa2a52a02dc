import Kode.Proofs.Arithmetic

/-!
# Texts as operands

A text can be indexed by the number of a character, from either end, and repeated. Both
operations count what they make with 64 bits: an index from the end is taken from the
number of characters, and the length of a repeated text is a product, known before the
text is written. Neither count is ever wrong, for the one is made only if it does not go
below zero (`Value.indexPlace?_eq_some_iff`), and a product of more than 64 bits is above
the bound on repetition anyway (`Value.repetition_eq`).

* `Operator.indexing_law`: which character an index means, and that it means the same in a
  longer text; the characters of a text make it up;
* `Operator.repetition_law`: when a text can be repeated, and that so many times and so
  many more are as many as both together.
-/

namespace Kode

namespace Value

/-! ## Characters -/

/-- An index means a place if it counts the characters before it, or, below zero, those
    from it to the end. -/
theorem indexPlace?_eq_some_iff {length p : Nat} {i : Int} :
    indexPlace? length i = some p ↔ i = p ∨ i < 0 ∧ i = p - length := by
  rw [indexPlace?]
  split
  · rw [Option.some.injEq]
    omega
  · split
    · rw [Option.some.injEq]
      omega
    · refine iff_of_false nofun ?_
      omega

variable {s t : String} {i j : Int64} {p : Nat} {c : Char}

theorem characterAt_of_getElem? (hc : s.toList[p]? = some c)
    (hi : i.toInt = p ∨ i.toInt = p - s.length) :
    characterAt (string s) (integer i) = .ok (string (String.singleton c)) := by
  have hp : p < s.length := by
    rw [← String.length_toList]
    exact (List.getElem?_eq_some_iff.1 hc).1
  have hplace : indexPlace? s.length i.toInt = some p := by
    rw [indexPlace?_eq_some_iff]
    omega
  rw [characterAt, hplace, Option.bind_some, hc]

theorem characterAt_eq_error (hi : i.toInt < -s.length ∨ s.length ≤ i.toInt) :
    characterAt (string s) (integer i) = .error (.indexOutOfRange i s.length) := by
  rw [characterAt]
  cases hplace : indexPlace? s.length i.toInt with
  | none => rfl
  | some p =>
    rw [indexPlace?_eq_some_iff] at hplace
    rw [Option.bind_some, List.getElem?_eq_none (by rw [String.length_toList]; omega)]

theorem exists_character (hp : p < s.length) : ∃ c, s.toList[p]? = some c :=
  ⟨_, List.getElem?_eq_getElem (String.length_toList ▸ hp)⟩

/-- The characters of the first text keep their numbers in a longer one. -/
theorem characterAt_append_left (hi : 0 ≤ i.toInt) (hlt : i.toInt < s.length) :
    characterAt (string (s ++ t)) (integer i) = characterAt (string s) (integer i) := by
  obtain ⟨c, hc⟩ := exists_character (show i.toInt.toNat < s.length by omega)
  have happend : (s ++ t).toList[i.toInt.toNat]? = some c := by
    rw [String.toList_append, List.getElem?_append_left (List.getElem?_eq_some_iff.1 hc).1, hc]
  have hplace : i.toInt = i.toInt.toNat := by omega
  rw [characterAt_of_getElem? hc (.inl hplace), characterAt_of_getElem? happend (.inl hplace)]

/-- Those of the second text are counted on. Where neither has a character, each is asked
    for an index of its own. -/
theorem characterAt_append_right (hj : j.toInt = i.toInt - s.length) (hi : s.length ≤ i.toInt)
    {v : Value} : characterAt (string (s ++ t)) (integer i) = .ok v ↔
      characterAt (string t) (integer j) = .ok v := by
  by_cases hlt : j.toInt < t.length
  · obtain ⟨c, hc⟩ := exists_character (show j.toInt.toNat < t.length by omega)
    have happend : (s ++ t).toList[s.length + j.toInt.toNat]? = some c := by
      rw [String.toList_append, ← String.length_toList,
        List.getElem?_append_right (Nat.le_add_right _ _), Nat.add_sub_cancel_left, hc]
    rw [characterAt_of_getElem? happend (.inl (by omega)),
      characterAt_of_getElem? hc (.inl (by omega))]
  · rw [characterAt_eq_error (.inr (by rw [String.length_append]; omega)),
      characterAt_eq_error (.inr (not_lt.1 hlt))]
    exact iff_of_false nofun nofun

/-- A text up to a character, and the character, are the text up to the next one. -/
theorem add_character {k : Nat} (hk : k < s.length) (hi : i.toInt = k) :
    (do Operator.add.apply (string (String.ofList (s.toList.take k)))
          (← Operator.index.apply (string s) (integer i))) =
      .ok (string (String.ofList (s.toList.take (k + 1)))) := by
  obtain ⟨c, hc⟩ := exists_character hk
  have hat : Operator.index.apply (string s) (integer i) = .ok (string (String.singleton c)) :=
    characterAt_of_getElem? hc (.inl hi)
  rw [hat, List.take_add_one, hc, Option.toList_some, String.ofList_append,
    ← String.singleton_eq_ofList]
  rfl

/-- The characters from some place on, one after the other, complete what comes before. -/
theorem foldlM_characters {is : List Int64} {k : Nat}
    (his : is.map Int64.toInt = (List.range' k is.length).map Int.ofNat)
    (hlength : k + is.length = s.length) :
    is.foldlM (fun v i => do Operator.add.apply v (← Operator.index.apply (string s) (integer i)))
        (string (String.ofList (s.toList.take k))) = .ok (string s) := by
  induction is generalizing k with
  | nil =>
    rw [List.take_of_length_le (by rw [String.length_toList]; exact hlength.ge),
      String.ofList_toList]
    rfl
  | cons i is ih =>
    rw [List.length_cons, List.range'_succ, List.map_cons, List.map_cons, List.cons.injEq] at his
    rw [List.length_cons] at hlength
    rw [List.foldlM_cons, add_character (by omega) his.1]
    exact ih his.2 (by omega)

/-! ## Repetition -/

/-- The text so many times, one after the other. -/
def copies (n : Nat) (s : String) : String :=
  String.join (List.replicate n s)

theorem copies_add (n k : Nat) (s : String) : copies (n + k) s = copies n s ++ copies k s := by
  rw [copies, copies, copies, List.replicate_add, String.join_append]

theorem copies_succ (n : Nat) (s : String) : copies (n + 1) s = copies n s ++ s := by
  rw [copies_add, copies, copies, List.replicate_one, String.join_cons, String.join_nil,
    String.append_empty]

theorem copies_empty (n : Nat) : copies n "" = "" := by
  induction n with
  | zero => rfl
  | succ n ih => rw [copies_succ, ih, String.append_empty]

theorem repeat_eq_copies (n : Nat) (s : String) : Nat.repeat (· ++ s) n "" = copies n s := by
  induction n with
  | zero => rfl
  | succ n ih => rw [Nat.repeat, ih, copies_succ]

theorem repeated_eq_copies (n : Nat) (s : String) : repeated s n = copies n s := by
  rw [repeated, repeat_eq_copies]
  split
  · rename_i hempty
    rw [String.isEmpty_iff.1 hempty, copies_empty]
  · rfl

theorem size?_getD (n : Int64) : (Integer.size? n).getD 0 = (max n.toInt 0).toNat := by
  rw [Integer.size?]
  split
  · rw [Option.getD_some, max_eq_left ‹_›]
  · rw [Option.getD_none, max_eq_right (by omega)]
    rfl

/-- A product that does not have 64 bits is above the bound as well. -/
theorem repetition_eq (s : String) (n : Int64) :
    repetition s n =
      if s.utf8ByteSize * (max n.toInt 0).toNat ≤ maxRepetition then
        .ok (string (copies (max n.toInt 0).toNat s))
      else .error .overflow := by
  rw [repetition]
  simp only [size?_getD, repeated_eq_copies, Integer.sizeProduct?]
  generalize s.utf8ByteSize * (max n.toInt 0).toNat = length
  by_cases hsize : length < 18446744073709551616
  · rw [if_pos hsize]
  · have hbound : ¬ length ≤ maxRepetition := by
      rw [maxRepetition]
      omega
    rw [if_neg hsize, if_neg hbound]

end Value

namespace Operator

/-- An index from nought counts the characters before the one it means, and an index
    below nought those from it to the end; any other index is out of range. A text begins
    with the characters of the first text it is made of, and goes on with those of the
    second, and it is made of its own. -/
theorem indexing_law :
    (∀ (s : String) (i : Int64),
      (0 ≤ i.toInt → i.toInt < s.length → ∃ c, s.toList[i.toInt.toNat]? = some c ∧
        index.apply (.string s) (.integer i) = .ok (.string (String.singleton c))) ∧
      (-s.length ≤ i.toInt → i.toInt < 0 → ∃ c, s.toList[(s.length + i.toInt).toNat]? = some c ∧
        index.apply (.string s) (.integer i) = .ok (.string (String.singleton c))) ∧
      (i.toInt < -s.length ∨ s.length ≤ i.toInt →
        index.apply (.string s) (.integer i) = .error (.indexOutOfRange i s.length))) ∧
    (∀ (s : String) (i j : Int64), 0 ≤ i.toInt → i.toInt < s.length →
      j.toInt = i.toInt - s.length →
      index.apply (.string s) (.integer j) = index.apply (.string s) (.integer i)) ∧
    (∀ (s t : String) (i : Int64), ∃ u, add.apply (.string s) (.string t) = .ok u ∧
      (0 ≤ i.toInt → i.toInt < s.length →
        index.apply u (.integer i) = index.apply (.string s) (.integer i)) ∧
      (s.length ≤ i.toInt → ∃ j : Int64, j.toInt = i.toInt - s.length ∧
        ∀ v, index.apply u (.integer i) = .ok v ↔
          index.apply (.string t) (.integer j) = .ok v)) ∧
    ∀ (s : String) (is : List Int64),
      is.map Int64.toInt = (List.range s.length).map Int.ofNat →
      is.foldlM (fun v i => do add.apply v (← index.apply (.string s) (.integer i)))
        (.string "") = .ok (.string s) := by
  refine ⟨fun s i => ⟨fun hi hlt => ?_, fun hi hlt => ?_, Value.characterAt_eq_error⟩,
    fun s i j hi hlt hj => ?_, fun s t i => ⟨_, rfl, Value.characterAt_append_left, fun hi => ?_⟩,
    fun s is his => ?_⟩
  · obtain ⟨c, hc⟩ := Value.exists_character (show i.toInt.toNat < s.length by omega)
    exact ⟨c, hc, Value.characterAt_of_getElem? hc (.inl (by omega))⟩
  · obtain ⟨c, hc⟩ := Value.exists_character (show (s.length + i.toInt).toNat < s.length by omega)
    exact ⟨c, hc, Value.characterAt_of_getElem? hc (.inr (by omega))⟩
  · obtain ⟨c, hc⟩ := Value.exists_character (show i.toInt.toNat < s.length by omega)
    exact (Value.characterAt_of_getElem? hc (.inr (by omega))).trans
      (Value.characterAt_of_getElem? hc (.inl (by omega))).symm
  · have hrange : Integer.InRange (i.toInt - s.length) := by
      have := Integer.inRange_toInt i
      rw [Integer.InRange] at this ⊢
      omega
    obtain ⟨j, -, hj⟩ := Integer.exists_of? hrange
    exact ⟨j, hj, fun v => Value.characterAt_append_right hj hi⟩
  · have hlength : is.length = s.length := by simpa using congrArg List.length his
    rw [List.range_eq_range', ← hlength] at his
    exact Value.foldlM_characters his (by omega)

/-- Characters of several bytes, the least index there is, and both ends. -/
theorem indexing_law_of_accents :
    index.apply (.string "aé😀") (.integer (-2)) = .ok (.string "é") ∧
    index.apply (.string "aé😀") (.integer Int64.minValue) =
      .error (.indexOutOfRange Int64.minValue 3) ∧
    index.apply (.string "aé😀") (.integer (-1)) = index.apply (.string "aé😀") (.integer 2) ∧
    (∃ u, add.apply (.string "aé") (.string "😀") = .ok u ∧
      (index.apply u (.integer 2) = .ok (.string "😀") ↔
        index.apply (.string "😀") (.integer 0) = .ok (.string "😀"))) ∧
    [0, 1, 2].foldlM (fun v i => do add.apply v (← index.apply (.string "aé😀") (.integer i)))
      (.string "") = .ok (.string "aé😀") := by
  obtain ⟨hindex, hends, hsum, hwhole⟩ := indexing_law
  obtain ⟨c, hc, hat⟩ := (hindex "aé😀" (-2)).2.1 (by decide) (by decide)
  obtain rfl : c = 'é' := Option.some.inj (hc.symm.trans (by decide))
  obtain ⟨u, hu, -, hlater⟩ := hsum "aé" "😀" 2
  obtain ⟨j, hj, hat'⟩ := hlater (by decide)
  obtain rfl : j = 0 := Int64.toInt_inj.1 hj
  exact ⟨hat, (hindex "aé😀" Int64.minValue).2.2 (by decide),
    hends "aé😀" 2 (-1) (by decide) (by decide) (by decide), ⟨u, hu, hat' _⟩,
    hwhole "aé😀" [0, 1, 2] (by decide)⟩

/-- The order of the operands does not matter, and the result has as many copies of the
    text as it should, unless it would be too long. A text repeated is made of the same
    text repeated less often. -/
theorem repetition_law :
    (∀ (s : String) (n : Int64),
      multiply.apply (.integer n) (.string s) = multiply.apply (.string s) (.integer n)) ∧
    (∀ (s : String) (n : Int64), multiply.apply (.string s) (.integer n) =
      if s.utf8ByteSize * (max n.toInt 0).toNat ≤ 2 ^ 24 then
        .ok (.string (String.join (List.replicate (max n.toInt 0).toNat s)))
      else .error .overflow) ∧
    ∀ (s : String) (n k : Int64) (v : Value), 0 ≤ n.toInt → 0 ≤ k.toInt →
      (do multiply.apply (.string s) (← add.apply (.integer n) (.integer k))) = .ok v →
      ∃ x y, multiply.apply (.string s) (.integer n) = .ok x ∧
        multiply.apply (.string s) (.integer k) = .ok y ∧ add.apply x y = .ok v := by
  refine ⟨fun s n => rfl, Value.repetition_eq, fun s n k v hn hk hv => ?_⟩
  have hsum : ∃ m : Int64, m.toInt = n.toInt + k.toInt ∧ Value.repetition s m = .ok v := by
    have hexact : Exactly (n.toInt + k.toInt) (add.apply (.integer n) (.integer k)) :=
      Value.exactly_checked _
    generalize add.apply (.integer n) (.integer k) = sum at hv hexact
    cases hexact with
    | ok hm => exact ⟨_, hm, hv⟩
    | overflow => cases hv
  obtain ⟨m, hm, hrepeated⟩ := hsum
  have hcount : (max m.toInt 0).toNat = (max n.toInt 0).toNat + (max k.toInt 0).toNat := by omega
  rw [Value.repetition_eq, hcount, Nat.mul_add] at hrepeated
  split_ifs at hrepeated with hbound
  refine ⟨_, _, (Value.repetition_eq s n).trans (if_pos (by omega)),
    (Value.repetition_eq s k).trans (if_pos (by omega)), ?_⟩
  rw [← hrepeated, Value.copies_add]
  rfl

/-- A product of more than 64 bits, no bytes at all, and characters of two bytes. -/
theorem repetition_law_of_accents :
    multiply.apply (.string "é") (.integer Int64.maxValue) = .error .overflow ∧
    multiply.apply (.string "") (.integer Int64.maxValue) = .ok (.string "") ∧
    0 ≤ (2 : Int64).toInt ∧ 0 ≤ (1 : Int64).toInt ∧
    (do multiply.apply (.string "é") (← add.apply (.integer 2) (.integer 1))) =
      .ok (.string "ééé") ∧
    ∃ x y, multiply.apply (.string "é") (.integer 2) = .ok x ∧
      multiply.apply (.string "é") (.integer 1) = .ok y ∧ add.apply x y = .ok (.string "ééé") := by
  obtain ⟨-, hresult, hsum⟩ := repetition_law
  have hthree : (do multiply.apply (.string "é") (← add.apply (.integer 2) (.integer 1))) =
      .ok (.string "ééé") := by
    decide +kernel
  refine ⟨(hresult "é" Int64.maxValue).trans (if_neg (by decide)), ?_, by decide, by decide, hthree,
    hsum "é" 2 1 _ (by decide) (by decide) hthree⟩
  rw [hresult, if_pos (by decide)]
  exact congrArg _ (congrArg _ (Value.copies_empty _))

end Operator

end Kode
