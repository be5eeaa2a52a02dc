import Kode.Proofs.Literals
import Mathlib.Data.Nat.Digits.Defs

/-!
# Numerals

An integer is shown with a minus, if it is negative, and digits. A program may
say it the same way, and means this integer.

* `Value.ofLiteral?_shown`: the text of an integer denotes it, down to the least
  one of 64 bits, whose digits alone are out of range;
* `Token.spelled_numeral`: in a program this text is one token;
* `Lexeme.Follows.tokens_numeral`: and so is every numeral, wherever it stands, that
  is in range and has no fraction; one that is out of range is an error.
-/

namespace Kode

namespace Text

theorem isDigits_repr (n : Nat) : isDigits n.repr.toList = true := by
  rw [Nat.toList_repr, isDigits, Bool.and_eq_true, List.all_eq_true]
  refine ⟨by simp [Nat.toDigits_ne_nil], fun c hc => ?_⟩
  exact Nat.isDigit_of_mem_toDigits (by decide) (by decide) hc

/-- The digits of a number denote it. -/
theorem value_repr (n : Nat) : value n.repr.toList = n := by
  rw [Nat.toList_repr, value, valueFrom]
  exact Nat.ofDigitChars_ten_toDigits

theorem splitSign_of_isDigits {cs : List Char} (h : isDigits cs = true) :
    splitSign cs = (false, cs) := by
  unfold splitSign
  split
  · exact absurd h (by simp [isDigits, Char.isDigit])
  · rfl

end Text

namespace Value

theorem ofLiteral?_of_isDigits {s : String} (h : Text.isDigits s.toList = true) :
    ofLiteral? s = ofInt? (Text.value s.toList) := by
  rw [ofLiteral?]
  split
  · rename_i hs
    simp [hs, Text.isDigits] at h
  · rename_i c cs hs
    have hq : c ∉ quotes := by
      rw [hs] at h
      intro hc
      simp only [quotes, List.mem_cons, List.not_mem_nil, or_false] at hc
      rcases hc with rfl | rfl <;> simp [Text.isDigits, Char.isDigit] at h
    rw [hs] at h
    simp [hq, Text.splitSign_of_isDigits h, h, hs]

theorem ofLiteral?_of_minus {s : String} (h : Text.isDigits s.toList = true) :
    ofLiteral? ("-" ++ s) = ofInt? (-(Text.value s.toList : Int)) := by
  simp [ofLiteral?, quotes, Text.splitSign, h]

/-- An integer is shown as digits, or as a minus and digits. -/
theorem shown_integer (n : Int64) :
    (integer n).shown = if 0 ≤ n.toInt then n.toInt.toNat.repr else "-" ++ (-n.toInt).toNat.repr :=
  Int.toString_eq_repr.trans Int.repr_eq_if

/-- The text that an integer is shown as denotes it. -/
theorem ofLiteral?_shown (n : Int64) : ofLiteral? (integer n).shown = some (integer n) := by
  rw [← ofInt?_toInt n, shown_integer]
  -- The digits of the least integer are out of range only without their sign.
  split
  · rw [ofLiteral?_of_isDigits (Text.isDigits_repr _), Text.value_repr, Int.toNat_of_nonneg ‹_›]
  · rw [ofLiteral?_of_minus (Text.isDigits_repr _), Text.value_repr, Int.toNat_of_nonneg (by omega),
      Int.neg_neg]

end Value

open Lexeme

namespace Token

/-- The token of an integer, with the text that it is shown as. -/
def numeral (n : Int64) : Token :=
  ⟨.literal (.integer n), (Value.integer n).shown, .empty⟩

/-- In a program the text of an integer is one token, whether or not there is a
    minus in front of the digits. -/
theorem spelled_numeral (n : Int64) : (numeral n).Spelled := by
  refine spelled_of_ofLiteral? (Value.ofLiteral?_shown n) ?_ rfl
  rintro inner ⟨q, hq, -, htext⟩
  change (Value.integer n).shown.toList = _ at htext
  -- Neither a digit nor a minus is a quote.
  rw [Value.shown_integer] at htext
  split at htext
  · have hdigits := Text.isDigits_repr n.toInt.toNat
    rw [htext, Text.isDigits, Bool.and_eq_true, List.all_cons, Bool.and_eq_true] at hdigits
    simp only [Value.quotes, List.mem_cons, List.not_mem_nil, or_false] at hq
    rcases hq with rfl | rfl <;> exact absurd hdigits.2.1 (by decide)
  · rw [String.toList_append] at htext
    obtain rfl : '-' = q := (List.cons.inj htext).1
    exact absurd hq (by decide)

end Token

/-! ## Numerals in a program -/

namespace Text

/-- Digits, perhaps with a minus in front of them. There may be leading zeros. -/
structure Numeral where
  negative : Bool
  digits : List Char
  isDigits_digits : isDigits digits = true

namespace Numeral

/-- The characters of the numeral. -/
def chars (n : Numeral) : List Char :=
  if n.negative then '-' :: n.digits else n.digits

/-- The integer that the numeral stands for. -/
def number (n : Numeral) : Int :=
  let magnitude : Nat := Nat.ofDigits 10 (n.digits.reverse.map digitValue)
  if n.negative then -(magnitude : Int) else magnitude

end Numeral

/-- Digits that stand in front of these characters have no more digits and no fraction
    behind them. -/
structure EndsNumber (after : List Char) : Prop where
  head : ∀ c ∈ after.head?, Lexeme.role c ≠ .word
  fraction : ∀ ds more, isDigits ds = true → after = '.' :: (ds ++ more) →
    ∃ c ∈ more.head?, Lexeme.role c = .word

/-- The value of some digits is that of a number in base ten. -/
theorem value_eq_ofDigits (cs : List Char) :
    value cs = Nat.ofDigits 10 (cs.reverse.map digitValue) := by
  induction cs using List.reverseRecOn with
  | nil => rfl
  | append_singleton cs c ih =>
    rw [value, valueFrom_append, ← value, ih, List.reverse_append, List.reverse_singleton,
      List.singleton_append, List.map_cons, Nat.ofDigits_cons, Nat.add_comm]
    rfl

end Text

theorem Value.ofLiteral?_numeral (n : Text.Numeral) :
    ofLiteral? (String.ofList n.chars) = ofInt? n.number := by
  rw [Text.Numeral.number, Text.Numeral.chars, ← Text.value_eq_ofDigits]
  cases n.negative with
  | false =>
    rw [if_neg Bool.false_ne_true, if_neg Bool.false_ne_true, ofLiteral?_of_isDigits]
    · rw [String.toList_ofList]
    · rw [String.toList_ofList]
      exact n.isDigits_digits
  | true =>
    have hminus : String.ofList ('-' :: n.digits) = "-" ++ String.ofList n.digits :=
      String.toList_injective (by simp)
    rw [if_pos rfl, if_pos rfl, hminus, ofLiteral?_of_minus]
    · rw [String.toList_ofList]
    · rw [String.toList_ofList]
      exact n.isDigits_digits

namespace Lexeme

theorem role_of_isDigits {ds : List Char} (h : Text.isDigits ds = true) :
    ∀ d ∈ ds, role d = .word := by
  have hw : IsWord (String.ofList ds) := isWord_of_isDigits (by rwa [String.toList_ofList])
  simpa using hw.2

/-- Digits are one lexeme if no other characters join them. -/
theorem groups_digits_append {ds after : List Char} (h : Text.isDigits ds = true)
    (hafter : ∀ c ∈ after.head?, role c ≠ .word) : groups (ds ++ after) = ds :: groups after := by
  rw [groups_append, groups_of_isDigits h]
  · rfl
  · intro d hd c hc
    rw [joins, decide_eq_false_iff_not, role_of_isDigits h d (List.mem_of_mem_getLast? hd)]
    exact fun hj => hafter c hc hj.1.symm

/-- A word goes on to the end of its lexeme. -/
theorem Tiling.role_head_ne {g : List Char} {gs : List (List Char)} (h : Tiling (g :: gs))
    (hg : ∀ c ∈ g, role c = .word) : ∀ c ∈ gs.flatten.head?, role c ≠ .word := by
  cases gs with
  | nil => simp
  | cons k gs =>
    obtain ⟨⟨hne, hne', hj⟩, -⟩ := List.isChain_cons_cons.1 h.apart
    intro c hc hrole
    rw [List.flatten_cons, List.head?_append_of_ne_nil _ hne', List.head?_eq_some_head hne'] at hc
    rw [joins, decide_eq_false_iff_not, Option.some.inj hc, hg _ (List.getLast_mem hne)] at hj
    exact hj ⟨hrole.symm, by simp⟩

/-- What ends a number is not more of it. -/
theorem calm_of_endsNumber {after : List Char} {rest : List Lexeme} (h : Text.EndsNumber after)
    (hrest : texts rest = groups after) : Calm rest := by
  have hflat : after = (texts rest).flatten := by rw [hrest, flatten_groups]
  have htiling : Tiling (texts rest) := hrest ▸ tiling_groups after
  refine ⟨?_, fun l hl => ?_⟩
  · match rest with
    | [] | [_] => rfl
    | point :: digits :: more =>
      rw [fractionLength, if_neg]
      rw [Bool.and_eq_true]
      rintro ⟨hp, hd⟩
      have hpoint : point.text = "." := of_decide_eq_true hp
      obtain ⟨c, hc, hrole⟩ := h.fraction digits.text.toList (texts more).flatten hd
        (by rw [hflat, texts_cons, texts_cons, List.flatten_cons, List.flatten_cons, hpoint]; rfl)
      have hdigits : Tiling (digits.text.toList :: texts more) :=
        htiling.mono (List.suffix_cons _ _).isInfix
      exact hdigits.role_head_ne (role_of_isDigits hd) c hc hrole
  · obtain ⟨more, rfl⟩ := List.head?_eq_some_iff.1 hl
    by_contra hd
    have hd : l.isDigits = true := by simpa using hd
    obtain ⟨c, cs, hc⟩ := List.exists_cons_of_ne_nil
      (fun hnil => htiling.nonempty (by simp [texts_cons, hnil]) : l.text.toList ≠ [])
    refine h.head c ?_ (role_of_isDigits hd c (by simp [hc]))
    rw [hflat, texts_cons, hc]
    rfl

/-- The lexemes of a numeral are a literal, and those of what comes after it follow. -/
theorem exists_cut_numeral (n : Text.Numeral) {after : List Char} {ls : List Lexeme}
    (hafter : ∀ c ∈ after.head?, role c ≠ .word) (hls : texts ls = groups (n.chars ++ after)) :
    ∃ l taken rest, ls = l :: (taken ++ rest) ∧ Literal l taken ∧
      join (l :: taken) = String.ofList n.chars ∧ texts rest = groups after := by
  have hdigits := groups_digits_append n.isDigits_digits hafter
  rw [Text.Numeral.chars] at hls ⊢
  cases hn : n.negative with
  | false =>
    rw [hn, if_neg Bool.false_ne_true, hdigits] at hls
    obtain ⟨d, rest, rfl, hd, hrest⟩ := List.map_eq_cons_iff.1 hls
    have hisDigits : d.isDigits = true := by rw [isDigits, hd, n.isDigits_digits]
    refine ⟨d, [], rest, rfl, .number hisDigits .absent, ?_, hrest⟩
    rw [join_singleton, if_neg Bool.false_ne_true, ← hd, String.ofList_toList]
  | true =>
    rw [hn, if_pos rfl, List.cons_append, groups_mark_cons rfl, hdigits] at hls
    obtain ⟨m, ls, rfl, hm, hls⟩ := List.map_eq_cons_iff.1 hls
    obtain ⟨d, rest, rfl, hd, hrest⟩ := List.map_eq_cons_iff.1 hls
    have hminus : m.text = "-" := String.toList_injective hm
    have hisDigits : d.isDigits = true := by rw [isDigits, hd, n.isDigits_digits]
    refine ⟨m, [d], rest, rfl, .negative (decide_eq_true hminus) hisDigits .absent,
      String.toList_injective ?_, hrest⟩
    rw [toList_join, if_pos rfl, String.toList_ofList, texts_cons, hm, texts_cons, hd]
    simp [texts]

/-- The span of some characters that stand behind others. -/
def spanBehind (source : Source) (front cs : List Char) : Span :=
  .located source (Text.byteLength front) (Text.byteLength front + Text.byteLength cs)
    (Nat.le_add_right _ _)

/-- Where a numeral begins that ends as a number, a literal of its integer begins, or
    an error if that is out of range. -/
theorem Follows.tokens_numeral {source : Source} {front after : List Char} {ls : List Lexeme}
    (h : Follows source front ls) (n : Text.Numeral)
    (htext : (texts ls).flatten = n.chars ++ after) (hafter : Text.EndsNumber after) :
    ∃ rest, Follows source (front ++ n.chars) rest ∧ (texts rest).flatten = after ∧
      tokens source ls =
        match Value.ofInt? n.number with
        | some v => (tokens source rest).map
            (⟨.literal v, String.ofList n.chars, spanBehind source front n.chars⟩ :: ·)
        | none => .error ⟨.invalidLiteral, spanBehind source front n.chars⟩ := by
  have hls : texts ls = groups (n.chars ++ after) := by
    rw [← htext, h.tiling.groups_flatten]
  obtain ⟨l, taken, rest, rfl, hl, hjoin, hrest⟩ := exists_cut_numeral n hafter.head hls
  have hspan : cover source l taken = spanBehind source front n.chars := by
    simp only [cover, spanBehind, hjoin, h.start_eq, Text.utf8ByteSize_ofList]
  have hbehind := h.drop (taken.length + 1)
  rw [List.take_succ_cons, List.take_left, List.drop_succ_cons, List.drop_left, ← toList_join,
    hjoin, String.toList_ofList] at hbehind
  refine ⟨rest, hbehind, by rw [hrest, flatten_groups], ?_⟩
  rw [tokens_of_literal hl (calm_of_endsNumber hafter hrest), hjoin, Value.ofLiteral?_numeral]
  cases Value.ofInt? n.number with
  | some v => simp only [token, hjoin, hspan]
  | none => simp only [hspan]

end Lexeme

namespace Text

theorem endsNumber_nil : EndsNumber [] :=
  ⟨by simp, by simp⟩

end Text

/-- The tokens of a source that is a numeral. -/
theorem Source.tokens_numeral {s : Source} (n : Text.Numeral)
    (hs : s.text = String.ofList n.chars) :
    s.tokens =
      match Value.ofInt? n.number with
      | some v => .ok [⟨.literal v, s.text, s.whole⟩]
      | none => .error ⟨.invalidLiteral, s.whole⟩ := by
  have hfollows := follows_lexemes s
  have htext : (texts s.lexemes).flatten = n.chars ++ [] := by
    rw [texts_lexemes, flatten_groups, hs, String.toList_ofList, List.append_nil]
  obtain ⟨rest, hrest, hnil, htokens⟩ := hfollows.tokens_numeral n htext Text.endsNumber_nil
  obtain rfl : rest = [] := by
    cases rest with
    | nil => rfl
    | cons l rest =>
      refine absurd ?_ hrest.tiling.nonempty
      have hl := (List.append_eq_nil_iff.1 hnil).1
      rw [texts_cons]
      exact hl ▸ List.mem_cons_self
  have hspan : spanBehind s [] n.chars = s.whole := by
    have hsize : Text.byteLength n.chars = s.size := by
      rw [Source.size, hs, Text.utf8ByteSize_ofList]
    simp only [spanBehind, whole, Text.byteLength_nil, Nat.zero_add, hsize]
  rw [Source.tokens, htokens, hspan, ← hs]
  cases Value.ofInt? n.number with
  | some v => rw [Lexeme.tokens]; rfl
  | none => rfl

end Kode
