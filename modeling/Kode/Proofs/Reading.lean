import Kode.Token.Tokenize

/-!
# Reading a token

Which token a lexeme begins is settled by its text and by the texts of the few
lexemes after it that the token may take in (`Lexeme.Reads`). So a token is
read the same wherever it stands, with two exceptions: a fraction behind digits
makes another number of them, and a second word behind a name may make an
operator of it.

* `Lexeme.recognise_eq_ok_iff`: `Reads` is what the tokenizer does;
* `Lexeme.Reads.take`: a token can be read from its own lexemes alone;
* `Lexeme.Reads.append`: what follows them makes no difference, but for the two
  exceptions;
* `Lexeme.Reads.solid`: a token begins and ends with characters that are not
  blank.
-/

namespace Kode

/-! ## Characters -/

namespace Text

theorem isBlank_of_graphic {c : Char} (h : 33 ≤ c.toNat ∧ c.toNat ≤ 126) : isBlank c = false := by
  simp [isBlank, blankRanges]
  omega

theorem isBlank_of_isAlphanum {c : Char} (h : c.isAlphanum = true) : isBlank c = false := by
  change (decide (c.val ≥ 'A'.val ∧ c.val ≤ 'Z'.val) ||
    (decide (c.val ≥ 'a'.val) && decide (c.val ≤ 'z'.val)) ||
    (decide (c.val ≥ '0'.val) && decide (c.val ≤ '9'.val))) = true at h
  simp only [Bool.or_eq_true, Bool.and_eq_true, decide_eq_true_eq, ge_iff_le,
    UInt32.le_iff_toNat_le] at h
  change ((65 ≤ c.toNat ∧ c.toNat ≤ 90) ∨ (97 ≤ c.toNat ∧ c.toNat ≤ 122)) ∨
    (48 ≤ c.toNat ∧ c.toNat ≤ 57) at h
  exact isBlank_of_graphic (by omega)

/-- Only the small letters have another letter in upper case. -/
theorem toUpper_cases (c : Char) :
    c.toUpper = c ∨ 97 ≤ c.toNat ∧ c.toNat ≤ 122 ∧ c.toUpper.toNat = c.toNat - 32 := by
  unfold Char.toUpper
  split
  · rename_i h
    rw [UInt32.le_iff_toNat_le, UInt32.le_iff_toNat_le] at h
    change 97 ≤ c.toNat ∧ c.toNat ≤ 122 at h
    refine .inr ⟨h.1, h.2, ?_⟩
    change (c.val + ('A'.val - 'a'.val)).toNat = c.toNat - 32
    rw [UInt32.toNat_add]
    change (c.toNat + 4294967264) % 4294967296 = c.toNat - 32
    omega
  · exact .inl rfl

@[simp] theorem isBlank_toUpper (c : Char) : isBlank c.toUpper = isBlank c := by
  rcases toUpper_cases c with h | ⟨h₁, h₂, h₃⟩
  · rw [h]
  · rw [isBlank_of_graphic (by omega), isBlank_of_graphic (by omega)]

@[simp] theorem isDigit_toUpper (c : Char) : c.toUpper.isDigit = c.isDigit := by
  rcases toUpper_cases c with h | ⟨h₁, h₂, h₃⟩
  · rw [h]
  · have hd (d : Char) (h : 58 ≤ d.toNat) : d.isDigit = false := by
      simp only [Char.isDigit, Bool.and_eq_false_iff, decide_eq_false_iff_not, ge_iff_le,
        UInt32.le_iff_toNat_le]
      change ¬ 48 ≤ d.toNat ∨ ¬ d.toNat ≤ 57
      omega
    rw [hd c (by omega), hd c.toUpper (by omega)]

/-- Whether the text has characters, and none of them is white space. -/
def isSolid (s : String) : Bool :=
  !s.toList.isEmpty && s.toList.all fun c => !isBlank c

theorem toList_toUpper (s : String) : s.toUpper.toList = s.toList.map Char.toUpper :=
  String.toList_map

@[simp] theorem isSolid_toUpper (s : String) : isSolid s.toUpper = isSolid s := by
  rw [isSolid, isSolid, toList_toUpper, List.isEmpty_map, List.all_map]
  congr 2
  funext c
  simp

theorem isSolid_of_toUpper {s w : String} (h : s.toUpper = w) (hw : isSolid w = true) :
    isSolid s = true := by
  rw [← isSolid_toUpper, h]
  exact hw

theorem isDigits_toUpper (s : String) : isDigits s.toUpper.toList = isDigits s.toList := by
  rw [isDigits, isDigits, toList_toUpper, List.isEmpty_map, List.all_map]
  congr 2
  funext c
  simp

theorem isSolid_of_isDigits {s : String} (h : isDigits s.toList = true) : isSolid s = true := by
  rw [isDigits, Bool.and_eq_true, List.all_eq_true] at h
  rw [isSolid, Bool.and_eq_true, List.all_eq_true]
  refine ⟨h.1, fun c hc => ?_⟩
  rw [isBlank_of_isAlphanum (by simp [Char.isAlphanum, h.2 c hc]), Bool.not_false]

end Text

namespace Lexeme

@[simp] theorem role_toUpper (c : Char) : role c.toUpper = role c := by
  rcases Text.toUpper_cases c with h | ⟨h₁, h₂, h₃⟩
  · rw [h]
  · have hm (d : Char) (h : 65 ≤ d.toNat) : d ∉ marks := by
      intro hd
      simp only [marks, List.mem_cons, List.not_mem_nil, or_false] at hd
      rcases hd with rfl | rfl | rfl | rfl <;> exact absurd h (by decide)
    rw [role, role, if_neg (hm c (by omega)), if_neg (hm c.toUpper (by omega)),
      Text.isBlank_toUpper]

end Lexeme

/-! ## Words -/

/-- The pairs of words that spell an operator. -/
theorem Operator.words_of_ofPhrase? {v w : String} {op : Operator} (h : ofPhrase? v w = some op) :
    (v.toUpper = "LESS" ∨ v.toUpper = "GREATER" ∨ v.toUpper = "EQUAL") ∧
      (w.toUpper = "THAN" ∨ w.toUpper = "TO") := by
  have hp := List.find?_some h
  rw [decide_eq_true_eq] at hp
  cases op <;> simp_all [phrase?]

theorem Operator.isSolid_of_ofWord? {w : String} {op : Operator} (h : ofWord? w = some op) :
    Text.isSolid w = true := by
  have hw := List.find?_some h
  rw [decide_eq_true_eq] at hw
  have hall : ∀ v ∈ op.words, Text.isSolid v = true := by
    cases op <;> decide
  exact Text.isSolid_of_toUpper rfl (hall _ hw)

theorem Operator.isSolid_of_ofPhrase? {v w : String} {op : Operator}
    (h : ofPhrase? v w = some op) : Text.isSolid v = true ∧ Text.isSolid w = true := by
  obtain ⟨hv, hw⟩ := words_of_ofPhrase? h
  constructor
  · rcases hv with hv | hv | hv <;> exact Text.isSolid_of_toUpper hv (by decide)
  · rcases hw with hw | hw <;> exact Text.isSolid_of_toUpper hw (by decide)

theorem Keyword.toUpper_of_ofWord? {w : String} {word : Keyword} (h : ofWord? w = some word) :
    w.toUpper = word.word := by
  have hw := List.find?_some h
  exact (beq_iff_eq.1 hw).symm

theorem Keyword.isSolid_of_ofWord? {w : String} {word : Keyword} (h : ofWord? w = some word) :
    Text.isSolid w = true :=
  Text.isSolid_of_toUpper (toUpper_of_ofWord? h) (by cases word <;> decide)

theorem Value.isSolid_of_ofWord? {w : String} (h : (ofWord? w).isSome = true) :
    Text.isSolid w = true := by
  rw [ofWord?] at h
  split at h
  · rename_i hw
    exact Text.isSolid_of_toUpper hw (by decide)
  · rename_i hw
    exact Text.isSolid_of_toUpper hw (by decide)
  · rename_i hw
    exact Text.isSolid_of_toUpper hw (by decide)
  · simp at h

/-- The first word of an operator of two words is nothing by itself. -/
theorem ofWord?_of_first {w : String}
    (h : w.toUpper = "LESS" ∨ w.toUpper = "GREATER" ∨ w.toUpper = "EQUAL") :
    Operator.ofWord? w = none ∧ Keyword.ofWord? w = none ∧ Value.ofWord? w = none := by
  rcases h with h | h | h <;>
    · rw [Operator.ofWord?, Keyword.ofWord?, Value.ofWord?, h]
      decide

/-- The second word is a keyword or nothing by itself. -/
theorem ofWord?_of_second {w : String} (h : w.toUpper = "THAN" ∨ w.toUpper = "TO") :
    Operator.ofWord? w = none ∧ (Keyword.ofWord? w = none ∨ Keyword.ofWord? w = some .TO) ∧
      Value.ofWord? w = none := by
  rcases h with h | h <;>
    · rw [Operator.ofWord?, Keyword.ofWord?, Value.ofWord?, h]
      decide

/-! ## What a lexeme begins -/

namespace Lexeme

/-- With `rest` after it, the lexeme `l` begins a token of this kind that takes
    in so many further lexemes. -/
inductive Reads (l : Lexeme) (rest : List Lexeme) : TokenKind → Nat → Prop
  | literal {n : Nat} {v : Value} : literalExtent l rest = .further n →
      Value.ofLiteral? (join (l :: rest.take n)) = some v → Reads l rest (.literal v) n
  | punctuation {mark : Punctuation} : literalExtent l rest = .absent →
      Punctuation.ofText? l.text = some mark → Reads l rest (.punctuation mark) 0
  | operator {op : Operator} {n : Nat} : literalExtent l rest = .absent →
      Punctuation.ofText? l.text = none → operator? l rest = some (op, n) →
      Reads l rest (.operator op) n
  | keyword {word : Keyword} : literalExtent l rest = .absent →
      Punctuation.ofText? l.text = none → operator? l rest = none →
      Keyword.ofWord? l.text = some word → Reads l rest (.keyword word) 0
  | identifier : literalExtent l rest = .absent → Punctuation.ofText? l.text = none →
      operator? l rest = none → Keyword.ofWord? l.text = none → l.isName = true →
      Reads l rest .identifier 0

theorem recognise_eq_ok_iff {source : Source} {l : Lexeme} {rest : List Lexeme} {t : Token}
    {n : Nat} :
    recognise source l rest = .ok (t, n) ↔
      ∃ kind, Reads l rest kind n ∧ t = token source kind l (rest.take n) := by
  constructor
  · intro h
    rw [recognise] at h
    split at h
    · exact absurd h (by simp)
    · rename_i m hm
      split at h
      · rename_i v hv
        obtain ⟨rfl, rfl⟩ := Prod.mk.inj (Except.ok.inj h)
        exact ⟨_, .literal hm hv, rfl⟩
      · exact absurd h (by simp)
    · rename_i habs
      split at h
      · rename_i mark hmark
        obtain ⟨rfl, rfl⟩ := Prod.mk.inj (Except.ok.inj h)
        exact ⟨_, .punctuation habs hmark, rfl⟩
      · rename_i hmark
        split at h
        · rename_i op m hop
          obtain ⟨rfl, rfl⟩ := Prod.mk.inj (Except.ok.inj h)
          exact ⟨_, .operator habs hmark hop, rfl⟩
        · rename_i hop
          split at h
          · rename_i word hword
            obtain ⟨rfl, rfl⟩ := Prod.mk.inj (Except.ok.inj h)
            exact ⟨_, .keyword habs hmark hop hword, rfl⟩
          · rename_i hword
            split at h
            · rename_i hname
              obtain ⟨rfl, rfl⟩ := Prod.mk.inj (Except.ok.inj h)
              exact ⟨_, .identifier habs hmark hop hword hname, rfl⟩
            · exact absurd h (by simp)
  · rintro ⟨kind, h, rfl⟩
    cases h with
    | literal h hv => simp [recognise, h, hv]
    | punctuation h hm => simp [recognise, h, hm]
    | operator h hm ho => simp [recognise, h, hm, ho]
    | keyword h hm ho hk => simp [recognise, h, hm, ho, hk]
    | identifier h hm ho hk hn => simp [recognise, h, hm, ho, hk, hn]

/-! ## How far a token reaches -/

/-- The lexemes of a fraction, if there is one. -/
inductive Fraction : List Lexeme → Prop
  | absent : Fraction []
  | present {point digits : Lexeme} : point.isPeriod = true → digits.isDigits = true →
      Fraction [point, digits]

/-- What may follow a number: not more of it. -/
structure Calm (rest : List Lexeme) : Prop where
  fractionLength_eq : fractionLength rest = 0
  digits : ∀ l ∈ rest.head?, l.isDigits = false

/-- The lexeme `l` and those after it make up a literal. -/
inductive Literal (l : Lexeme) : List Lexeme → Prop
  | quoted {mid : List Lexeme} {q : Lexeme} : l.isQuote = true → (∀ m ∈ mid, m.text ≠ l.text) →
      q.text = l.text → Literal l (mid ++ [q])
  | number {ts : List Lexeme} : l.isDigits = true → Fraction ts → Literal l ts
  | negative {digits : Lexeme} {ts : List Lexeme} : l.isMinus = true → digits.isDigits = true →
      Fraction ts → Literal l (digits :: ts)
  | word : (∀ rest, literalExtent l rest = .further 0) → (Value.ofWord? l.text).isSome = true →
      Literal l []

theorem calm_nil : Calm [] :=
  ⟨rfl, by simp⟩

theorem fraction_take_fractionLength (rest : List Lexeme) :
    fractionLength rest ≤ rest.length ∧ Fraction (rest.take (fractionLength rest)) := by
  fun_cases fractionLength rest with
  | case1 point digits more h =>
    rw [Bool.and_eq_true] at h
    exact ⟨by simp, .present h.1 h.2⟩
  | case2 point digits more h => exact ⟨by simp, .absent⟩
  | case3 => exact ⟨Nat.zero_le _, .absent⟩

theorem Fraction.fractionLength_append {ts rest : List Lexeme} (h : Fraction ts)
    (hrest : fractionLength rest = 0) : fractionLength (ts ++ rest) = ts.length := by
  cases h with
  | absent => exact hrest
  | present hp hd => simp [fractionLength, hp, hd]

theorem isQuote_of_isDigits {l : Lexeme} (h : l.isDigits = true) : l.isQuote = false := by
  cases hq : l.isQuote with
  | false => rfl
  | true =>
    simp only [isQuote, Bool.or_eq_true, decide_eq_true_eq] at hq
    rcases hq with hq | hq <;>
      · rw [isDigits, hq] at h
        exact absurd h (by decide)

theorem isQuote_of_isMinus {l : Lexeme} (h : l.isMinus = true) :
    l.isQuote = false ∧ l.isDigits = false := by
  rw [isMinus, decide_eq_true_eq] at h
  rw [isQuote, isDigits, h]
  decide

/-- What is quoted reaches to the next quote, and what is a number as far as
    its fraction. -/
theorem literal_of_literalExtent {l : Lexeme} {rest : List Lexeme} {n : Nat}
    (h : literalExtent l rest = .further n) : n ≤ rest.length ∧ Literal l (rest.take n) := by
  unfold literalExtent at h
  split at h
  · rename_i hq
    split at h
    · rename_i m hm
      obtain rfl := Extent.further.inj h
      obtain ⟨hlt, hfound, hbefore⟩ := List.findIdx?_eq_some_iff_getElem.1 hm
      refine ⟨hlt, ?_⟩
      rw [List.take_succ_eq_append_getElem hlt]
      refine .quoted hq (fun r hr => ?_) (by simpa using hfound)
      obtain ⟨i, hi, rfl⟩ := List.getElem_of_mem hr
      rw [List.length_take] at hi
      simpa using hbefore i (by omega)
    · exact absurd h (by simp)
  · split at h
    · rename_i hd
      obtain rfl := Extent.further.inj h
      exact (fraction_take_fractionLength rest).imp_right (.number hd)
    · split at h
      · rename_i hm
        split at h
        · rename_i digits more
          split at h
          · rename_i hdigits
            obtain rfl := Extent.further.inj h
            obtain ⟨hle, hf⟩ := fraction_take_fractionLength more
            rw [Nat.add_comm 1]
            exact ⟨Nat.succ_le_succ hle, .negative hm hdigits hf⟩
          · exact absurd h (by simp)
        · exact absurd h (by simp)
      · rename_i hq hd hm
        split at h
        · rename_i hw
          obtain rfl := Extent.further.inj h
          exact ⟨Nat.zero_le _, .word (fun r => by simp [literalExtent, hq, hd, hm, hw]) hw⟩
        · exact absurd h (by simp)

/-- A literal is found again in front of anything calm. -/
theorem Literal.literalExtent_append {l : Lexeme} {taken rest : List Lexeme} (h : Literal l taken)
    (hrest : Calm rest) : literalExtent l (taken ++ rest) = .further taken.length := by
  cases h with
  | quoted hq hmid hend =>
    rename_i mid q
    have hfound : (mid ++ [q] ++ rest).findIdx? (fun r => r.text = l.text) = some mid.length := by
      rw [List.append_assoc, List.findIdx?_append,
        List.findIdx?_eq_none_iff.2 (by simpa using hmid)]
      simp [List.findIdx?_cons, hend]
    unfold literalExtent
    rw [if_pos hq, hfound, List.length_append, List.length_singleton]
  | number hd hf =>
    have hq := isQuote_of_isDigits hd
    simp [literalExtent, hq, hd, hf.fractionLength_append hrest.fractionLength_eq]
  | negative hm hd hf =>
    obtain ⟨hq, hd'⟩ := isQuote_of_isMinus hm
    simp [literalExtent, hq, hd', hm, hd, hf.fractionLength_append hrest.fractionLength_eq,
      Nat.add_comm 1]
  | word hw _ => exact hw _

/-- Where no literal begins, none begins with less behind it, nor with anything
    calm. -/
theorem literalExtent_of_absent {l : Lexeme} {rest rest' : List Lexeme}
    (h : literalExtent l rest = .absent) (hrest : Calm rest') :
    literalExtent l rest' = .absent := by
  unfold literalExtent at h ⊢
  split at h
  · split at h <;> simp at h
  · rename_i hq
    rw [if_neg hq]
    split at h
    · simp at h
    · rename_i hd
      rw [if_neg hd]
      split at h
      · rename_i hm
        rw [if_pos hm]
        -- Only a minus asks for what comes next.
        rcases rest' with _ | ⟨r, rest'⟩
        · rfl
        · simp [hrest.digits r (by simp)]
      · rename_i hm
        rwa [if_neg hm]

/-- Only a minus may begin a literal in one place and not in another. -/
theorem literalExtent_of_not_mark {l : Lexeme} {rest : List Lexeme}
    (h : literalExtent l rest = .absent) (hm : Punctuation.ofText? l.text = none)
    (rest' : List Lexeme) : literalExtent l rest' = .absent := by
  have hminus : l.isMinus = false := by
    cases hl : l.isMinus with
    | false => rfl
    | true =>
      rw [isMinus, decide_eq_true_eq] at hl
      rw [hl] at hm
      exact absurd hm (by decide)
  unfold literalExtent at h ⊢
  split at h
  · split at h <;> simp at h
  · rename_i hq
    rw [if_neg hq]
    split at h
    · simp at h
    · rename_i hd
      rw [if_neg hd, if_neg (by simp [hminus])]
      rwa [if_neg (by simp [hminus])] at h

/-- The lexemes after `l` begin with a gap and a second word that makes it an
    operator. -/
def Phrase (l : Lexeme) (rest : List Lexeme) (op : Operator) : Prop :=
  ∃ gap second more, rest = gap :: second :: more ∧ gap.isBlank = true ∧
    Operator.ofPhrase? l.text second.text = some op

theorem operator?_of_phrase {l : Lexeme} {rest : List Lexeme} {op : Operator}
    (h : Phrase l rest op) : operator? l rest = some (op, 2) := by
  obtain ⟨gap, second, more, rfl, hgap, hop⟩ := h
  simp [operator?, hgap, hop]

theorem operator?_of_not_phrase {l : Lexeme} {rest : List Lexeme}
    (h : ∀ op, ¬ Phrase l rest op) :
    operator? l rest = (Operator.ofWord? l.text).map fun op => (op, 0) := by
  match rest with
  | [] => rfl
  | [_] => rfl
  | gap :: second :: more =>
    have hnone : (if gap.isBlank then Operator.ofPhrase? l.text second.text else none) = none := by
      split
      · rename_i hgap
        exact Option.eq_none_iff_forall_ne_some.2 fun op hop =>
          h op ⟨gap, second, more, rfl, hgap, hop⟩
      · rfl
    simp [operator?, hnone]

theorem not_phrase_nil (l : Lexeme) (op : Operator) : ¬ Phrase l [] op := by
  rintro ⟨gap, second, more, h, -⟩
  simp at h

theorem operator?_nil (l : Lexeme) :
    operator? l [] = (Operator.ofWord? l.text).map fun op => (op, 0) :=
  operator?_of_not_phrase (not_phrase_nil l)

theorem Phrase.words {l : Lexeme} {rest : List Lexeme} {op : Operator} (h : Phrase l rest op) :
    Operator.ofWord? l.text = none ∧ Keyword.ofWord? l.text = none ∧
      Value.ofWord? l.text = none := by
  obtain ⟨gap, second, more, rfl, hgap, hop⟩ := h
  exact ofWord?_of_first (Operator.words_of_ofPhrase? hop).1

theorem Phrase.take {l : Lexeme} {rest : List Lexeme} {op : Operator} (h : Phrase l rest op) :
    2 ≤ rest.length ∧ Phrase l (rest.take 2) op := by
  obtain ⟨gap, second, more, rfl, hgap, hop⟩ := h
  exact ⟨by simp, gap, second, [], rfl, hgap, hop⟩

theorem Phrase.append {l : Lexeme} {taken : List Lexeme} {op : Operator} (h : Phrase l taken op)
    (rest : List Lexeme) : Phrase l (taken ++ rest) op := by
  obtain ⟨gap, second, more, rfl, hgap, hop⟩ := h
  exact ⟨gap, second, more ++ rest, rfl, hgap, hop⟩

/-- An operator has two words or one. -/
theorem operator?_cases {l : Lexeme} {rest : List Lexeme} {op : Operator} {n : Nat}
    (h : operator? l rest = some (op, n)) :
    n = 2 ∧ Phrase l rest op ∨ n = 0 ∧ Operator.ofWord? l.text = some op := by
  by_cases hp : ∃ op, Phrase l rest op
  · obtain ⟨op', hp⟩ := hp
    rw [operator?_of_phrase hp] at h
    obtain ⟨rfl, rfl⟩ := Prod.mk.inj (Option.some.inj h)
    exact .inl ⟨rfl, hp⟩
  · rw [operator?_of_not_phrase (not_exists.1 hp)] at h
    obtain ⟨op', hw, ho⟩ := Option.map_eq_some_iff.1 h
    obtain ⟨rfl, rfl⟩ := Prod.mk.inj ho
    exact .inr ⟨rfl, hw⟩

/-- Where no operator is found, there is none, with one word or two. -/
theorem operator?_eq_none {l : Lexeme} {rest : List Lexeme} (h : operator? l rest = none) :
    (∀ op, ¬ Phrase l rest op) ∧ Operator.ofWord? l.text = none := by
  have hp : ∀ op, ¬ Phrase l rest op := fun op hp => by simp [operator?_of_phrase hp] at h
  refine ⟨hp, ?_⟩
  rw [operator?_of_not_phrase hp] at h
  exact Option.map_eq_none_iff.1 h

/-! ## Reading elsewhere -/

/-- A token can be read from its own lexemes alone. -/
theorem Reads.take {l : Lexeme} {rest : List Lexeme} {kind : TokenKind} {n : Nat}
    (h : Reads l rest kind n) : n ≤ rest.length ∧ Reads l (rest.take n) kind n := by
  cases h with
  | literal h hv =>
    obtain ⟨hn, hl⟩ := literal_of_literalExtent h
    have he := hl.literalExtent_append calm_nil
    rw [List.append_nil, List.length_take_of_le hn] at he
    exact ⟨hn, .literal he (by rwa [List.take_take, Nat.min_self])⟩
  | punctuation h hm => exact ⟨Nat.zero_le _, .punctuation (literalExtent_of_absent h calm_nil) hm⟩
  | operator h hm ho =>
    have habs := literalExtent_of_not_mark h hm
    rcases operator?_cases ho with ⟨rfl, hp⟩ | ⟨rfl, hw⟩
    · exact ⟨hp.take.1, .operator (habs _) hm (operator?_of_phrase hp.take.2)⟩
    · refine ⟨Nat.zero_le _, .operator (habs _) hm ?_⟩
      rw [List.take_zero, operator?_nil, hw]
      rfl
  | keyword h hm ho hk =>
    refine ⟨Nat.zero_le _, .keyword (literalExtent_of_not_mark h hm _) hm ?_ hk⟩
    rw [List.take_zero, operator?_nil, (operator?_eq_none ho).2]
    rfl
  | identifier h hm ho hk hn =>
    refine ⟨Nat.zero_le _, .identifier (literalExtent_of_not_mark h hm _) hm ?_ hk hn⟩
    rw [List.take_zero, operator?_nil, (operator?_eq_none ho).2]
    rfl

/-- Whatever calm follows its lexemes, the token is still read, unless it is a
    name and becomes the first word of an operator. -/
theorem Reads.append {l : Lexeme} {taken rest : List Lexeme} {kind : TokenKind}
    (h : Reads l taken kind taken.length) (hrest : Calm rest) :
    Reads l (taken ++ rest) kind taken.length ∨
      kind = .identifier ∧ taken = [] ∧
        ∃ op, Phrase l rest op ∧ Reads l rest (.operator op) 2 := by
  generalize hn : taken.length = n at h
  cases h with
  | literal h hv =>
    obtain ⟨-, hl⟩ := literal_of_literalExtent h
    rw [← hn, List.take_length] at hl hv
    refine .inl (.literal (hn ▸ hl.literalExtent_append hrest) ?_)
    rwa [← hn, List.take_left]
  | punctuation h hm =>
    rw [List.length_eq_zero_iff] at hn
    subst hn
    exact .inl (.punctuation (literalExtent_of_absent h hrest) hm)
  | operator h hm ho =>
    have habs := literalExtent_of_not_mark h hm
    rcases operator?_cases ho with ⟨rfl, hp⟩ | ⟨rfl, hw⟩
    · exact .inl (.operator (habs _) hm (operator?_of_phrase (hp.append rest)))
    · rw [List.length_eq_zero_iff] at hn
      subst hn
      refine .inl (.operator (habs _) hm ?_)
      rw [operator?_of_not_phrase, hw]
      · rfl
      · -- The first of two words is no operator by itself.
        intro op hp
        simp [hp.words.1] at hw
  | keyword h hm ho hk =>
    rw [List.length_eq_zero_iff] at hn
    subst hn
    refine .inl (.keyword (literalExtent_of_not_mark h hm _) hm ?_ hk)
    rw [operator?_of_not_phrase, (operator?_eq_none ho).2]
    · rfl
    · -- Nor is it a keyword.
      intro op hp
      simp [hp.words.2.1] at hk
  | identifier h hm ho hk hname =>
    have habs := literalExtent_of_not_mark h hm
    rw [List.length_eq_zero_iff] at hn
    subst hn
    by_cases hp : ∃ op, Phrase l rest op
    · obtain ⟨op, hp⟩ := hp
      exact .inr ⟨rfl, rfl, op, hp, .operator (habs _) hm (operator?_of_phrase hp)⟩
    · refine .inl (.identifier (habs _) hm ?_ hk hname)
      rw [List.nil_append, operator?_of_not_phrase (not_exists.1 hp), (operator?_eq_none ho).2]
      rfl

/-- The lexeme at the beginning of a source. -/
def atStart (l : Lexeme) : Lexeme :=
  ⟨0, l.text⟩

theorem fractionLength_atStart (rest : List Lexeme) :
    fractionLength (rest.map atStart) = fractionLength rest := by
  match rest with
  | [] | [_] | _ :: _ :: _ => rfl

theorem literalExtent_atStart (l : Lexeme) (rest : List Lexeme) :
    literalExtent l.atStart (rest.map atStart) = literalExtent l rest := by
  have hfound : (rest.map atStart).findIdx? (fun r => r.text = l.atStart.text) =
      rest.findIdx? fun r => r.text = l.text := by
    rw [List.findIdx?_map]
    rfl
  unfold literalExtent
  rw [hfound]
  cases rest with
  | nil => rfl
  | cons r rest =>
    have hall := fractionLength_atStart (r :: rest)
    rw [List.map_cons] at hall ⊢
    simp only [hall, fractionLength_atStart rest]
    rfl

theorem operator?_atStart (l : Lexeme) (rest : List Lexeme) :
    operator? l.atStart (rest.map atStart) = operator? l rest := by
  match rest with
  | [] | [_] | _ :: _ :: _ => rfl

theorem join_atStart (ls : List Lexeme) : join (ls.map atStart) = join ls := by
  rw [join, List.map_map]
  rfl

/-- What is looked at to read a token. -/
theorem Reads.of_eq {l l' : Lexeme} {rest rest' : List Lexeme} {kind : TokenKind} {n : Nat}
    (h : Reads l rest kind n) (hl : l'.text = l.text)
    (hextent : literalExtent l' rest' = literalExtent l rest)
    (hoperator : operator? l' rest' = operator? l rest)
    (hjoin : join (l' :: rest'.take n) = join (l :: rest.take n)) : Reads l' rest' kind n := by
  cases h with
  | literal h hv => exact .literal (hextent.trans h) (by rwa [hjoin])
  | punctuation h hm => exact .punctuation (hextent.trans h) (by rwa [hl])
  | operator h hm ho => exact .operator (hextent.trans h) (by rwa [hl]) (hoperator.trans ho)
  | keyword h hm ho hk =>
    exact .keyword (hextent.trans h) (by rwa [hl]) (hoperator.trans ho) (by rwa [hl])
  | identifier h hm ho hk hn =>
    refine .identifier (hextent.trans h) (by rwa [hl]) (hoperator.trans ho) (by rwa [hl]) ?_
    rwa [isName, hl]

theorem reads_atStart {l : Lexeme} {rest : List Lexeme} {kind : TokenKind} {n : Nat} :
    Reads l.atStart (rest.map atStart) kind n ↔ Reads l rest kind n := by
  have hjoin : join (l.atStart :: (rest.map atStart).take n) = join (l :: rest.take n) := by
    rw [← List.map_take, ← List.map_cons, join_atStart]
  exact ⟨fun h => h.of_eq rfl (literalExtent_atStart l rest).symm (operator?_atStart l rest).symm
      hjoin.symm,
    fun h => h.of_eq rfl (literalExtent_atStart l rest) (operator?_atStart l rest) hjoin⟩

/-- What a lexeme begins does not depend on where it and the others stand. -/
theorem Reads.congr {l l' : Lexeme} {rest rest' : List Lexeme} {kind : TokenKind} {n : Nat}
    (h : Reads l rest kind n) (hl : l'.text = l.text)
    (hrest : rest'.map Lexeme.text = rest.map Lexeme.text) : Reads l' rest' kind n := by
  have hmap : rest'.map atStart = rest.map atStart := by
    have := congrArg (List.map (Lexeme.mk 0)) hrest
    rwa [List.map_map, List.map_map] at this
  have hatStart : l'.atStart = l.atStart := congrArg (Lexeme.mk 0) hl
  rw [← reads_atStart, hatStart, hmap, reads_atStart]
  exact h

/-! ## The ends of a token -/

/-- Whether the characters of the text run together with their likes. -/
def IsWord (s : String) : Prop :=
  s.toList ≠ [] ∧ ∀ c ∈ s.toList, role c = .word

theorem isWord_toUpper {s : String} : IsWord s.toUpper ↔ IsWord s := by
  rw [IsWord, IsWord, Text.toList_toUpper]
  simp

theorem role_of_isAlphanum {c : Char} (h : c.isAlphanum = true ∨ c = '_') : role c = .word := by
  rcases h with h | rfl
  · have hm : c ∉ marks := by
      intro hc
      simp only [marks, List.mem_cons, List.not_mem_nil, or_false] at hc
      rcases hc with rfl | rfl | rfl | rfl <;> exact absurd h (by decide)
    rw [role, if_neg hm, Text.isBlank_of_isAlphanum h, if_neg (by simp)]
  · decide

theorem isWord_of_isName {l : Lexeme} (h : l.isName = true) : IsWord l.text := by
  rw [isName] at h
  rw [IsWord]
  split at h
  · simp at h
  · rename_i c cs hl
    rw [hl]
    rw [Bool.and_eq_true, List.all_eq_true] at h
    refine ⟨by simp, List.forall_mem_cons.2 ⟨role_of_isAlphanum ?_, fun d hd => ?_⟩⟩
    · rcases Bool.or_eq_true_iff.1 h.1 with hc | hc
      · exact .inl (by simp [Char.isAlphanum, hc])
      · exact .inr (of_decide_eq_true hc)
    · rcases Bool.or_eq_true_iff.1 (h.2 d hd) with hd | hd
      · exact role_of_isAlphanum (.inl hd)
      · exact role_of_isAlphanum (.inr (of_decide_eq_true hd))

theorem IsWord.isSolid {s : String} (h : IsWord s) : Text.isSolid s = true := by
  rw [Text.isSolid, Bool.and_eq_true, List.all_eq_true]
  refine ⟨by simpa using h.1, fun c hc => ?_⟩
  have hr := h.2 c hc
  rw [role] at hr
  split at hr
  · simp at hr
  · split at hr
    · simp at hr
    · simp_all

theorem Reads.solid {l : Lexeme} {rest : List Lexeme} {kind : TokenKind} {n : Nat}
    (h : Reads l rest kind n) :
    Text.isSolid l.text = true ∧
      ∀ last ∈ (l :: rest.take n).getLast?, Text.isSolid last.text = true := by
  have quote {m : Lexeme} (hm : m.isQuote = true) : Text.isSolid m.text = true := by
    simp only [isQuote, Bool.or_eq_true, decide_eq_true_eq] at hm
    rcases hm with hm | hm <;>
      · rw [hm]
        decide
  have alone {m : Lexeme} (hm : Text.isSolid m.text = true) :
      Text.isSolid m.text = true ∧ ∀ last ∈ [m].getLast?, Text.isSolid last.text = true :=
    ⟨hm, by simpa using hm⟩
  have fraction {m : Lexeme} {ts : List Lexeme} (hm : Text.isSolid m.text = true)
      (hf : Fraction ts) : ∀ last ∈ (m :: ts).getLast?, Text.isSolid last.text = true := by
    cases hf with
    | absent => simpa using hm
    | present hp hd => simpa using Text.isSolid_of_isDigits hd
  cases h with
  | literal h hv =>
    obtain ⟨-, hl⟩ := literal_of_literalExtent h
    generalize rest.take n = taken at hl
    cases hl with
    | quoted hq hmid hend =>
      refine ⟨quote hq, ?_⟩
      rw [← List.cons_append, List.getLast?_concat]
      simpa [hend] using quote hq
    | number hd hf => exact ⟨Text.isSolid_of_isDigits hd, fraction (Text.isSolid_of_isDigits hd) hf⟩
    | negative hm hd hf =>
      rw [isMinus, decide_eq_true_eq] at hm
      rw [hm, List.getLast?_cons_cons]
      exact ⟨by decide, fraction (Text.isSolid_of_isDigits hd) hf⟩
    | word hw hv => exact alone (Value.isSolid_of_ofWord? hv)
  | punctuation h hm =>
    refine alone ?_
    rw [Punctuation.ofText?] at hm
    split at hm
    · rename_i hl
      rw [hl]
      decide
    · split at hm
      · rename_i hl
        rw [hl]
        decide
      · simp at hm
  | operator h hm ho =>
    rcases operator?_cases ho with ⟨rfl, gap, second, more, rfl, hgap, hop⟩ | ⟨rfl, hw⟩
    · obtain ⟨hl, hsecond⟩ := Operator.isSolid_of_ofPhrase? hop
      exact ⟨hl, by simpa using hsecond⟩
    · exact alone (Operator.isSolid_of_ofWord? hw)
  | keyword h hm ho hk => exact alone (Keyword.isSolid_of_ofWord? hk)
  | identifier h hm ho hk hn => exact alone (isWord_of_isName hn).isSolid

/-- The second word of an operator, read by itself. -/
theorem Reads.of_second {l : Lexeme} {rest : List Lexeme} {kind : TokenKind} {n : Nat}
    (h : Reads l rest kind n) (hl : l.text.toUpper = "THAN" ∨ l.text.toUpper = "TO") :
    n = 0 ∧ (kind = .keyword .TO ∨ kind = .identifier) := by
  obtain ⟨hop, hk, hv⟩ := ofWord?_of_second hl
  have hdigits : l.isDigits = false := by
    rw [isDigits, ← Text.isDigits_toUpper]
    rcases hl with hl | hl <;>
      · rw [hl]
        decide
  have hmark {w : String} (hw : w.toUpper ≠ "THAN" ∧ w.toUpper ≠ "TO") : l.text ≠ w := by
    rintro rfl
    exact hl.elim hw.1 hw.2
  have hquote : l.isQuote = false := by
    rw [isQuote, decide_eq_false (hmark (by decide +kernel)),
      decide_eq_false (hmark (by decide +kernel))]
    rfl
  have hminus : l.isMinus = false := decide_eq_false (hmark (by decide +kernel))
  -- The word begins no literal, is no mark, and begins no operator.
  cases h with
  | literal h => simp [literalExtent, hquote, hdigits, hminus, hv] at h
  | punctuation _ hm =>
    rw [Punctuation.ofText?, if_neg (hmark (by decide +kernel)),
      if_neg (hmark (by decide +kernel))] at hm
    simp at hm
  | operator _ _ ho =>
    rcases operator?_cases ho with ⟨-, gap, second, more, -, -, hp⟩ | ⟨-, hw⟩
    · have hfirst := (Operator.words_of_ofPhrase? hp).1
      rcases hl with hl | hl <;> simp [hl] at hfirst
    · simp [hop] at hw
  | keyword _ _ _ hword =>
    rcases hk with hk | hk <;> rw [hk] at hword
    · simp at hword
    · exact ⟨rfl, .inl (congrArg _ (Option.some.inj hword).symm)⟩
  | identifier => exact ⟨rfl, .inr rfl⟩

end Lexeme

end Kode
