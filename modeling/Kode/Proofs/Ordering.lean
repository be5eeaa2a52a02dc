import Kode.Value.Operation
import Mathlib.Algebra.Order.Ring.Nat

/-!
# The order of values

Texts are compared byte by byte, and this is to compare them character by character
(`Text.order_eq`). The reason is that UTF-8 keeps the order of the characters, and that
the bytes of two characters differ before either of them ends: whatever comes after
them, they have decided the order by then (`Text.Precedes`).

Integers can be compared as well, but no other values that are not floats can. All of
them can be tested for equality, and that goes another way than a comparison does; the
two agree all the same.

* `Text.precedes_utf8EncodeChar`: the bytes of the lower character come first;
* `Text.order_eq`: texts are in the order of their characters;
* `Value.Comparable.exists_compare`: the order of two values is that of the converse
  turned round, and only equal values are on a par;
* `Operator.comparison_laws`: what `=`, `<` and `>` say of values, and when they do.
-/

namespace Kode

namespace Text

/-! ## Bytes of characters -/

/-- The number of bytes that come after the first byte of a character. -/
def trailing (code : Nat) : Nat :=
  if code ≤ 127 then 0 else if code ≤ 2047 then 1 else if code ≤ 65535 then 2 else 3

/-- What is added to the highest digit of a code, to tell how many bytes come after it. -/
def mark : Nat → Nat
  | 0 => 0
  | 1 => 192
  | 2 => 224
  | _ => 240

/-- The code in bytes: its highest digit with a mark, and then `n` digits of six bits. -/
def digits (mark : Nat) : Nat → Nat → List UInt8
  | 0, code => [UInt8.ofNat (code + mark)]
  | n + 1, code => digits mark n (code / 64) ++ [UInt8.ofNat (code % 64 + 128)]

/-- The first byte of a character, as a number. -/
def lead (code : Nat) : Nat :=
  code / 64 ^ trailing code + mark (trailing code)

theorem code_lt (c : Char) : c.toNat < 1114112 := by
  have hvalid := c.valid
  rw [UInt32.isValidChar, Char.toNat_val, Nat.isValidChar] at hvalid
  omega

theorem trailing_le {c d : Nat} (h : c ≤ d) : trailing c ≤ trailing d := by
  unfold trailing
  split_ifs <;> omega

theorem lead_lt_lead {c d : Nat} (h : trailing c < trailing d) (hd : d < 1114112) :
    lead c < lead d := by
  unfold lead trailing at *
  split_ifs at * <;> simp only [mark] <;> omega

theorem lead_lt {c : Nat} (hc : c < 1114112) : lead c < 256 := by
  unfold lead trailing
  split_ifs <;> simp only [mark] <;> omega

theorem utf8EncodeChar_eq (c : Char) :
    String.utf8EncodeChar c = digits (mark (trailing c.toNat)) (trailing c.toNat) c.toNat := by
  have hc := code_lt c
  rw [String.utf8EncodeChar, Char.toNat_val, trailing]
  -- The highest digit of a code is low enough to leave the bits of the mark free.
  split_ifs
  · rfl
  all_goals
    simp only [digits, mark, List.cons_append, List.nil_append, Nat.div_div_eq_div_mul,
      List.cons.injEq, and_true]
    rw [Nat.mod_eq_of_lt (by omega)]

theorem exists_digits_eq (mark n code : Nat) :
    ∃ bs, digits mark n code = UInt8.ofNat (code / 64 ^ n + mark) :: bs := by
  induction n generalizing code with
  | zero => exact ⟨[], by rw [digits, Nat.pow_zero, Nat.div_one]⟩
  | succ n ih =>
    obtain ⟨bs, hbs⟩ := ih (code / 64)
    exact ⟨bs ++ _, by rw [digits, hbs, List.cons_append, Nat.div_div_eq_div_mul, Nat.pow_succ']⟩

theorem exists_utf8EncodeChar_eq (c : Char) :
    ∃ bs, String.utf8EncodeChar c = UInt8.ofNat (lead c.toNat) :: bs := by
  rw [utf8EncodeChar_eq]
  exact exists_digits_eq _ _ _

/-! ## Bytes that decide the order -/

/-- Whether `p` comes before `q`, whatever comes after the two of them. -/
def Precedes (p q : List UInt8) : Prop :=
  ∀ r s : List UInt8, compare (p ++ r) (q ++ s) = .lt

theorem compare_append_left (p r s : List UInt8) : compare (p ++ r) (p ++ s) = compare r s := by
  induction p with
  | nil => rfl
  | cons b p ih =>
    rw [List.cons_append, List.cons_append, List.compare_cons_cons, Std.compare_self, ih,
      Ordering.eq_then]

theorem precedes_cons {m n : Nat} (h : m < n) (hn : n < 256) (p q : List UInt8) :
    Precedes (UInt8.ofNat m :: p) (UInt8.ofNat n :: q) := by
  intro r s
  have hlt : UInt8.ofNat m < UInt8.ofNat n := by
    rw [UInt8.lt_iff_toNat_lt, UInt8.toNat_ofNat_of_lt' (Nat.lt_trans h hn),
      UInt8.toNat_ofNat_of_lt' hn]
    exact h
  rw [List.cons_append, List.cons_append, List.compare_cons_cons, Std.compare_eq_lt.2 hlt,
    Ordering.lt_then]

theorem Precedes.append {p q : List UInt8} (h : Precedes p q) (p' q' : List UInt8) :
    Precedes (p ++ p') (q ++ q') := by
  intro r s
  rw [List.append_assoc, List.append_assoc]
  exact h _ _

theorem Precedes.append_left {p q : List UInt8} (h : Precedes p q) (bs : List UInt8) :
    Precedes (bs ++ p) (bs ++ q) := by
  intro r s
  rw [List.append_assoc, List.append_assoc, compare_append_left]
  exact h _ _

/-- Codes of the same length, by the highest digit in which they differ. -/
theorem precedes_digits {mark n c d : Nat} (h : c < d) (hd : d / 64 ^ n + mark < 256) :
    Precedes (digits mark n c) (digits mark n d) := by
  induction n generalizing c d with
  | zero =>
    rw [Nat.pow_zero, Nat.div_one] at hd
    exact precedes_cons (by omega) hd _ _
  | succ n ih =>
    rw [Nat.pow_succ', ← Nat.div_div_eq_div_mul] at hd
    rw [digits, digits]
    rcases Nat.lt_or_ge (c / 64) (d / 64) with hlt | hge
    · exact (ih hlt hd).append _ _
    · have heq : c / 64 = d / 64 := by omega
      rw [heq]
      exact (precedes_cons (by omega) (by omega) _ _).append_left _

/-- UTF-8 keeps the order of the characters. -/
theorem precedes_utf8EncodeChar {c d : Char} (h : c.toNat < d.toNat) :
    Precedes (String.utf8EncodeChar c) (String.utf8EncodeChar d) := by
  have hd := code_lt d
  rcases Nat.eq_or_lt_of_le (trailing_le (Nat.le_of_lt h)) with heq | hlt
  · rw [utf8EncodeChar_eq, utf8EncodeChar_eq, heq]
    exact precedes_digits h (lead_lt hd)
  · -- The longer code has the higher first byte.
    obtain ⟨p, hp⟩ := exists_utf8EncodeChar_eq c
    obtain ⟨q, hq⟩ := exists_utf8EncodeChar_eq d
    rw [hp, hq]
    exact precedes_cons (lead_lt_lead hlt hd) (lead_lt hd) p q

theorem compare_flatMap_utf8EncodeChar (cs ds : List Char) :
    compare (cs.flatMap String.utf8EncodeChar) (ds.flatMap String.utf8EncodeChar) =
      compare (cs.map Char.toNat) (ds.map Char.toNat) := by
  induction cs generalizing ds with
  | nil =>
    cases ds with
    | nil => rfl
    | cons d ds =>
      obtain ⟨q, hq⟩ := exists_utf8EncodeChar_eq d
      rw [List.flatMap_cons, hq]
      rfl
  | cons c cs ih =>
    cases ds with
    | nil =>
      obtain ⟨p, hp⟩ := exists_utf8EncodeChar_eq c
      rw [List.flatMap_cons, hp]
      rfl
    | cons d ds =>
      rw [List.flatMap_cons, List.flatMap_cons, List.map_cons, List.map_cons,
        List.compare_cons_cons]
      rcases Nat.lt_trichotomy c.toNat d.toNat with hlt | heq | hgt
      · rw [precedes_utf8EncodeChar hlt, Nat.compare_eq_lt.2 hlt, Ordering.lt_then]
      · rw [Char.toNat_inj.1 heq, compare_append_left, ih, Std.compare_self, Ordering.eq_then]
      · rw [Std.OrientedOrd.eq_swap, precedes_utf8EncodeChar hgt,
          Nat.compare_eq_gt.2 hgt, Ordering.gt_then, Ordering.swap_lt]

/-! ## The order of texts -/

theorem bytes_eq (s : String) : bytes s = s.toList.flatMap String.utf8EncodeChar := by
  rw [bytes, ← String.utf8Encode_toList, List.utf8Encode, List.toList_data_toByteArray]

/-- To compare bytes is to compare characters. -/
theorem order_eq (s t : String) :
    order s t = compare (s.toList.map Char.toNat) (t.toList.map Char.toNat) := by
  rw [order, bytes_eq, bytes_eq, compare_flatMap_utf8EncodeChar]

theorem eq_of_bytes_eq {s t : String} (h : bytes s = bytes t) : s = t :=
  String.toByteArray_inj.1 (ByteArray.ext (Array.toList_inj.1 h))

instance : Std.TransCmp order where
  eq_swap := Std.OrientedOrd.eq_swap
  isLE_trans := Std.TransOrd.isLE_trans

instance : Std.LawfulEqCmp order where
  compare_self := Std.compare_self
  eq_of_compare h := eq_of_bytes_eq (Std.compare_eq_iff_eq.1 h)

theorem compare_eq_lt_iff {xs ys : List Nat} : compare xs ys = .lt ↔ xs < ys := by
  induction xs generalizing ys with
  | nil => cases ys <;> simp
  | cons x xs ih =>
    cases ys with
    | nil => simp
    | cons y ys =>
      rw [List.compare_cons_cons, List.cons_lt_cons_iff, Ordering.then_eq_lt, Nat.compare_eq_lt,
        Nat.compare_eq_eq, ih]

theorem order_eq_lt_iff {s t : String} :
    order s t = .lt ↔ s.toList.map Char.toNat < t.toList.map Char.toNat := by
  rw [order_eq, compare_eq_lt_iff]

theorem bytes_append (s t : String) : bytes (s ++ t) = bytes s ++ bytes t := by
  rw [bytes, String.toByteArray_append, ByteArray.data_append, Array.toList_append]
  rfl

/-- What a text begins with comes before it. -/
theorem order_append {s t : String} (ht : t ≠ "") : order s (s ++ t) = .lt := by
  obtain ⟨b, bs, hb⟩ := List.exists_cons_of_ne_nil fun h : bytes t = [] => ht (eq_of_bytes_eq h)
  have happend := compare_append_left (bytes s) [] (bytes t)
  rwa [List.append_nil, ← bytes_append, hb, List.compare_nil_cons] at happend

end Text

namespace Value

/-! ## Values that can be compared -/

/-- Two integers, or two texts. -/
inductive Comparable : Value → Value → Prop
  | integers (a b : Int64) : Comparable (integer a) (integer b)
  | texts (s t : String) : Comparable (string s) (string t)

variable {u v w : Value}

/-- Such values have an order. It is turned round with them, and only equal values are
    on a par. -/
theorem Comparable.exists_compare (h : Comparable v w) :
    ∃ o, v.compare w = .ok o ∧ w.compare v = .ok o.swap ∧ (o = .eq ↔ v = w) := by
  cases h with
  | integers a b =>
    refine ⟨Ord.compare a.toInt b.toInt, rfl, congrArg _ Std.OrientedOrd.eq_swap, ?_⟩
    rw [Std.compare_eq_iff_eq, Int64.toInt_inj, integer.injEq]
  | texts s t =>
    refine ⟨Text.order s t, rfl, congrArg _ Std.OrientedCmp.eq_swap, ?_⟩
    rw [Std.LawfulEqCmp.compare_eq_iff_eq, string.injEq]

theorem Comparable.symm (h : Comparable v w) : Comparable w v := by
  cases h with
  | integers a b => exact .integers b a
  | texts s t => exact .texts t s

/-- No other values without floats among them have an order. -/
theorem compare_of_not_comparable (hv : v.kind ≠ .float) (hw : w.kind ≠ .float)
    (h : ¬ Comparable v w) : v.compare w = .error .unsupported := by
  cases v with
  | string s =>
    cases w with
    | string t => exact absurd (.texts s t) h
    | _ => rfl
  | integer a =>
    cases w with
    | integer b => exact absurd (.integers a b) h
    | float y => exact absurd rfl hw
    | _ => rfl
  | float x => exact absurd rfl hv
  | boolean b => rfl
  | none => rfl

theorem comparable_of_compare {o : Ordering} (hv : v.kind ≠ .float) (hw : w.kind ≠ .float)
    (h : v.compare w = .ok o) : Comparable v w := by
  by_contra hne
  rw [compare_of_not_comparable hv hw hne] at h
  cases h

theorem compare_trans (h : Comparable u v) (h' : Comparable v w) (huv : u.compare v = .ok .lt)
    (hvw : v.compare w = .ok .lt) : u.compare w = .ok .lt := by
  cases h with
  | integers a b =>
    cases h' with
    | integers _ c =>
      exact congrArg _ (Std.TransCmp.lt_trans (Except.ok.inj huv) (Except.ok.inj hvw))
  | texts s t =>
    cases h' with
    | texts _ r =>
      exact congrArg _ (Std.TransCmp.lt_trans (Except.ok.inj huv) (Except.ok.inj hvw))

/-- The same values are equal, and no others. -/
theorem equals_iff (hv : v.kind ≠ .float) (hw : w.kind ≠ .float) :
    v.equals w = true ↔ v = w := by
  cases v with
  | float x => exact absurd rfl hv
  | string s => cases w <;> simp [equals, numbers?]
  | integer a =>
    cases w with
    | float y => exact absurd rfl hw
    | _ => simp [equals, numbers?]
  | boolean a => cases w <;> simp [equals, numbers?]
  | none => cases w <;> simp [equals, numbers?]

/-- The values that are not floats. -/
abbrev Plain := {v : Value // v.kind ≠ .float}

end Value

namespace Operator

/-! ## Comparisons -/

/-- Whether the result of the operator for the two values is `TRUE`. -/
def Holds (op : Operator) (v w : Value) : Prop :=
  op.apply v w = .ok (.boolean true)

/-- The comparison that is true of values in this order. -/
def ofOrdering : Ordering → Operator
  | .lt => less
  | .eq => equal
  | .gt => greater

variable {v w : Value}

theorem map_beq_eq_ok_true_iff {x : Except Fault Ordering} {o : Ordering} :
    (x.map fun o' => Value.boolean (o' == o)) = .ok (.boolean true) ↔ x = .ok o := by
  cases x with
  | error f => exact iff_of_false nofun nofun
  | ok o' => simp [Except.map]

theorem less_holds_iff : less.Holds v w ↔ v.compare w = .ok .lt :=
  map_beq_eq_ok_true_iff

theorem greater_holds_iff : greater.Holds v w ↔ v.compare w = .ok .gt :=
  map_beq_eq_ok_true_iff

theorem equal_holds_iff (v w : Value.Plain) : equal.Holds v w ↔ v = w := by
  rw [Holds, apply, Except.ok.injEq, Value.boolean.injEq, Value.equals_iff v.2 w.2, Subtype.ext_iff]

theorem apply_of_comparable {op : Operator} (hop : op = less ∨ op = greater)
    (h : Value.Comparable v w) : ∃ b, op.apply v w = .ok (.boolean b) := by
  obtain ⟨o, ho, -⟩ := h.exists_compare
  rcases hop with rfl | rfl <;> rw [apply, ho]
  · exact ⟨_, rfl⟩
  · exact ⟨_, rfl⟩

theorem apply_of_not_comparable {op : Operator} (hop : op = less ∨ op = greater)
    {v w : Value.Plain} (h : ¬ Value.Comparable v w) : op.apply v w = .error .unsupported := by
  have hcompare := Value.compare_of_not_comparable v.2 w.2 h
  rcases hop with rfl | rfl <;> rw [apply, hcompare] <;> rfl

/-- The order of two values makes one of the comparisons true, and the others false. -/
theorem existsUnique_holds {v w : Value.Plain} (h : Value.Comparable v w) :
    ∃! op, op ∈ [less, equal, greater] ∧ op.Holds v w := by
  obtain ⟨o, ho, -, heq⟩ := h.exists_compare
  have hless : less.Holds v w ↔ o = .lt := by rw [less_holds_iff, ho, Except.ok.injEq]
  have hgreater : greater.Holds v w ↔ o = .gt := by rw [greater_holds_iff, ho, Except.ok.injEq]
  have hequal : equal.Holds v w ↔ o = .eq := by rw [equal_holds_iff, Subtype.ext_iff, heq]
  refine ⟨ofOrdering o, ?_, fun op hop => ?_⟩
  · cases o <;> simp [ofOrdering, hless, hequal, hgreater]
  · obtain ⟨hop, hholds⟩ := hop
    simp only [List.mem_cons, List.not_mem_nil, or_false] at hop
    rcases hop with rfl | rfl | rfl
    · rw [hless.1 hholds, ofOrdering]
    · rw [hequal.1 hholds, ofOrdering]
    · rw [hgreater.1 hholds, ofOrdering]

theorem greater_apply (v w : Value.Plain) : greater.apply v w = less.apply w v := by
  by_cases h : Value.Comparable v w
  · obtain ⟨o, ho, ho', -⟩ := h.exists_compare
    rw [apply, apply, ho, ho']
    cases o <;> rfl
  · rw [apply_of_not_comparable (.inr rfl) h, apply_of_not_comparable (.inl rfl) fun h' => h h'.symm]

theorem less_trans {u v w : Value.Plain} (huv : less.Holds u v) (hvw : less.Holds v w) :
    less.Holds u w := by
  rw [less_holds_iff] at *
  exact Value.compare_trans (Value.comparable_of_compare u.2 v.2 huv)
    (Value.comparable_of_compare v.2 w.2 hvw) huv hvw

theorem less_strings_iff {s t : String} : less.Holds (.string s) (.string t) ↔
    s.toList.map Char.toNat < t.toList.map Char.toNat := by
  rw [less_holds_iff, ← Text.order_eq_lt_iff]
  exact (Except.ok.injEq _ _).to_iff

/-- Values can always be tested for equality, and are equal if they are the same. They can
    be compared if both are integers or both are texts, and then they are in one order
    only; texts are in the order of their characters. -/
theorem comparison_laws :
    (∀ v w : Value, ∃ b, equal.apply v w = .ok (.boolean b)) ∧
    Equivalence (fun v w : Value.Plain => equal.Holds v w) ∧
    (∀ v w : Value.Plain, (equal.Holds v w ↔ v = w) ∧
      (equal.Holds v w → v.val.kind = w.val.kind)) ∧
    (∀ op, op = less ∨ op = greater → ∀ v w : Value.Plain,
      ((∃ b, op.apply v w = .ok (.boolean b)) ↔ Value.Comparable v w) ∧
      (op.apply v w = .error .unsupported ↔ ¬ Value.Comparable v w)) ∧
    (∀ v w : Value.Plain, Value.Comparable v w →
      ∃! op, op ∈ [less, equal, greater] ∧ op.Holds v w) ∧
    (∀ v w : Value.Plain, greater.apply v w = less.apply w v) ∧
    (∀ u v w : Value.Plain, less.Holds u v → less.Holds v w → less.Holds u w) ∧
    ∀ s t : String,
      (less.Holds (.string s) (.string t) ↔
        s.toList.map Char.toNat < t.toList.map Char.toNat) ∧
      (t ≠ "" → ∃ v, add.apply (.string s) (.string t) = .ok v ∧ less.Holds (.string s) v) := by
  refine ⟨fun v w => ⟨_, rfl⟩, ?_, fun v w => ⟨equal_holds_iff v w, ?_⟩,
    fun op hop v w => ?_, fun v w => existsUnique_holds, greater_apply, fun u v w => less_trans,
    fun s t => ⟨less_strings_iff, fun ht => ⟨_, rfl, ?_⟩⟩⟩
  · simp only [equal_holds_iff]
    exact eq_equivalence
  · rw [equal_holds_iff]
    rintro rfl
    rfl
  · by_cases h : Value.Comparable v w
    · obtain ⟨b, hb⟩ := apply_of_comparable hop h
      simp [hb, h]
    · simp [apply_of_not_comparable hop h, h]
  · rw [less_holds_iff]
    exact congrArg _ (Text.order_append ht)

/-- Characters of one, three and four bytes; the last of them would come before the second
    if its halves in UTF-16 were compared. -/
theorem comparison_laws_of_lengths :
    less.Holds (.string "z") (.string "\uffff") ∧
    less.Holds (.string "\uffff") (.string "😀") ∧
    less.Holds (.string "z") (.string "😀") ∧
    (∃! op, op ∈ [less, equal, greater] ∧ op.Holds (.string "\uffff") (.string "😀")) ∧
    less.apply (.boolean true) (.integer 1) = .error .unsupported ∧
    "😀" ≠ "" ∧
    ∃ v, add.apply (.string "z") (.string "😀") = .ok v ∧ less.Holds (.string "z") v := by
  obtain ⟨-, -, -, hdefined, hunique, -, htrans, htexts⟩ := comparison_laws
  have hlow := (htexts "z" "\uffff").1.2 (by decide)
  have hhigh := (htexts "\uffff" "😀").1.2 (by decide)
  have hne : "😀" ≠ "" := by decide
  exact ⟨hlow, hhigh,
    htrans ⟨.string "z", nofun⟩ ⟨.string "\uffff", nofun⟩ ⟨.string "😀", nofun⟩ hlow hhigh,
    hunique ⟨.string "\uffff", nofun⟩ ⟨.string "😀", nofun⟩ (.texts _ _),
    (hdefined less (.inl rfl) ⟨.boolean true, nofun⟩ ⟨.integer 1, nofun⟩).2.2 nofun, hne,
    (htexts "z" "😀").2 hne⟩

end Operator

end Kode
