import Kode.Proofs.Marks

/-!
# Texts that are literals

There are two rules for literals. One looks at a text as a whole: whether it begins
and ends with the same quote, is a number, or is a word that names a value
(`Value.ofLiteral?`). The other one goes through the lexemes of a program and takes
in those that belong together (`Lexeme.literalExtent`); there a quoted text ends at
the next quote of its kind, so that it never holds this quote.

The first rule does not look between the quotes. So they agree on all texts but those
that hold the quote that they begin and end with (`Text.Overquoted`).

* `Value.form_of_ofLiteral?`: the texts that the first rule takes for literals;
* `Lexeme.exists_literal`, `Token.spelled_of_ofLiteral?`: the second one finds these
  literals, except for the texts with too many quotes;
* `Source.literal_iff`: so the source of a single literal is a text that denotes its
  value and has no such quote, and a line of input is a value, if it is not just a
  text, by the same rules.
-/

namespace Kode

/-! ## The forms of a literal -/

namespace Text

/-- Digits, perhaps with a point and more digits behind them. -/
inductive Number : List Char → Prop
  | whole {ds : List Char} : isDigits ds = true → Number ds
  | fraction {ds fs : List Char} : isDigits ds = true → isDigits fs = true →
      Number (ds ++ '.' :: fs)

/-- The characters stand between two quotes of one kind, and this quote is one of
    them. -/
def Overquoted (inner cs : List Char) : Prop :=
  ∃ q ∈ Value.quotes, q ∈ inner ∧ cs = q :: (inner ++ [q])

end Text

namespace Value

/-- What a text that denotes a value looks like. -/
inductive Form : List Char → Prop
  | quoted {q : Char} {inner : List Char} : q ∈ quotes → Form (q :: (inner ++ [q]))
  | number {cs : List Char} : Text.Number cs → Form cs
  | negative {cs : List Char} : Text.Number cs → Form ('-' :: cs)
  | word {w : String} : (ofWord? w).isSome = true → Form w.toList

theorem unquote?_eq_some_iff {q : Char} {cs inner : List Char} :
    unquote? q cs = some inner ↔ cs = inner ++ [q] := by
  unfold unquote?
  constructor
  · intro h
    split at h
    · rename_i hlast
      obtain ⟨front, rfl⟩ := List.getLast?_eq_some_iff.1 hlast
      rw [List.dropLast_concat] at h
      rw [Option.some.inj h]
    · simp at h
  · rintro rfl
    simp

/-- Behind the digits in front of the first point there are others. -/
theorem number_of_fractional? {cs digits : List Char} {places : Nat}
    (h : fractional? cs = some (digits, places)) : Text.Number cs := by
  unfold fractional? at h
  dsimp only at h
  split at h
  · rename_i hd
    have hpoint := List.head?_dropWhile_not (· ≠ '.') cs
    have hsplit := List.takeWhile_append_dropWhile (p := (· ≠ '.')) (l := cs)
    generalize cs.takeWhile (· ≠ '.') = whole at hd hsplit
    generalize cs.dropWhile (· ≠ '.') = rest at hpoint hsplit
    subst hsplit
    rw [List.drop_length_add_append] at hd
    cases rest with
    | nil => simp [Text.isDigits] at hd
    | cons c fs =>
      obtain rfl : c = '.' := by simpa using hpoint
      exact .fraction hd.1 hd.2
  · simp at h

theorem toUpper_of_ofWord? {w : String} (h : (ofWord? w).isSome = true) :
    w.toUpper = "TRUE" ∨ w.toUpper = "FALSE" ∨ w.toUpper = "NONE" := by
  rw [ofWord?] at h
  split at h
  · exact .inl ‹_›
  · exact .inr (.inl ‹_›)
  · exact .inr (.inr ‹_›)
  · simp at h

/-- A text that denotes a value has the form of a literal. -/
theorem form_of_ofLiteral? {s : String} {v : Value} (h : ofLiteral? s = some v) :
    Form s.toList := by
  rw [ofLiteral?] at h
  split at h
  · simp at h
  · rename_i c cs hs
    split at h
    · rename_i hq
      obtain ⟨inner, hinner, -⟩ := Option.map_eq_some_iff.1 h
      rw [hs, unquote?_eq_some_iff.1 hinner]
      exact .quoted hq
    · -- With a sign or without one, the rest is a number; else it is a word.
      have hsigned {body : List Char} (hbody : (Text.splitSign (c :: cs)).2 = body)
          (hnumber : Text.Number body) : Form (c :: cs) := by
        unfold Text.splitSign at hbody
        split at hbody
        · rename_i cs' heq
          subst hbody
          rw [heq]
          exact .negative hnumber
        · subst hbody
          exact .number hnumber
      rw [hs]
      dsimp only at h
      split at h
      · rename_i hd
        exact hsigned rfl (.whole hd)
      · split at h
        · rename_i hf
          exact hsigned rfl (number_of_fractional? hf)
        · rw [← hs]
          exact .word (by rw [h]; rfl)

/-- A text between two quotes of one kind denotes what stands between them, which is
    not looked at. -/
theorem ofLiteral?_of_quotes {s : String} {q : Char} {inner : List Char} (hq : q ∈ quotes)
    (hs : s.toList = q :: (inner ++ [q])) :
    ofLiteral? s = some (string (String.ofList inner)) := by
  rw [ofLiteral?, hs]
  dsimp only
  rw [if_pos hq, unquote?_eq_some_iff.2 rfl, Option.map_some]

theorem ofLiteral?_of_overquoted {s : String} {inner : List Char}
    (h : Text.Overquoted inner s.toList) :
    ofLiteral? s = some (string (String.ofList inner)) := by
  obtain ⟨q, hq, -, hs⟩ := h
  exact ofLiteral?_of_quotes hq hs

end Value

/-! ## The lexemes of a literal -/

namespace Lexeme

theorem role_of_mem_quotes {q : Char} (hq : q ∈ Value.quotes) : role q = .mark := by
  simp only [Value.quotes, List.mem_cons, List.not_mem_nil, or_false] at hq
  rcases hq with rfl | rfl <;> rfl

theorem isQuote_of_mem_quotes {l : Lexeme} {q : Char} (hq : q ∈ Value.quotes)
    (hl : l.text.toList = [q]) : l.isQuote = true := by
  have htext : l.text = String.ofList [q] := by rw [← hl, String.ofList_toList]
  simp only [Value.quotes, List.mem_cons, List.not_mem_nil, or_false] at hq
  rw [isQuote, htext]
  rcases hq with rfl | rfl <;> rfl

theorem isWord_of_isDigits {s : String} (h : Text.isDigits s.toList = true) : IsWord s := by
  rw [Text.isDigits, Bool.and_eq_true, List.all_eq_true] at h
  refine ⟨by simpa using h.1, fun c hc => role_of_isAlphanum (.inl ?_)⟩
  rw [Char.isAlphanum, h.2 c hc, Bool.or_true]

/-- Characters that run together are cut from a text as one lexeme. -/
theorem IsWord.groups_eq {s : String} (h : IsWord s) : groups s.toList = [s.toList] := by
  have ht : Tiling [s.toList] := by
    refine ⟨by simpa using h.1.symm, fun g hg => ?_, .singleton _⟩
    obtain rfl := List.mem_singleton.1 hg
    refine (List.pairwise_of_forall_mem_list fun c hc d hd => ?_).isChain
    simp [joins, h.2 c hc, h.2 d hd]
  simpa using ht.groups_flatten

theorem groups_of_isDigits {ds : List Char} (h : Text.isDigits ds = true) : groups ds = [ds] := by
  have hw : IsWord (String.ofList ds) := isWord_of_isDigits (by rwa [String.toList_ofList])
  simpa using hw.groups_eq

theorem isWord_of_ofWord? {w : String} (h : (Value.ofWord? w).isSome = true) : IsWord w := by
  rw [← isWord_toUpper]
  rcases Value.toUpper_of_ofWord? h with hw | hw | hw <;>
    · rw [hw]
      exact isWord_of_isName (l := ⟨0, _⟩) (by decide)

/-- The lexemes of a number. -/
theorem exists_of_number {cs : List Char} (h : Text.Number cs) :
    ∃ digits ts, digits.isDigits = true ∧ Fraction ts ∧ texts (digits :: ts) = groups cs := by
  cases h with
  | whole hd =>
    refine ⟨⟨0, String.ofList cs⟩, [], by simpa [isDigits] using hd, .absent, ?_⟩
    simp [texts, groups_of_isDigits hd]
  | @fraction ds fs hd hf =>
    refine ⟨⟨0, String.ofList ds⟩, [⟨0, "."⟩, ⟨0, String.ofList fs⟩],
      by simpa [isDigits] using hd, .present rfl (by simpa [isDigits] using hf), ?_⟩
    rw [groups_append_mark rfl, groups_of_isDigits hd, groups_of_isDigits hf]
    simp [texts]

/-- A word that names a value is a literal, whatever stands behind it. -/
theorem literalExtent_of_word {l : Lexeme} (h : (Value.ofWord? l.text).isSome = true)
    (rest : List Lexeme) : literalExtent l rest = .further 0 := by
  have hupper := Value.toUpper_of_ofWord? h
  have hmark {w : String} (hw : w.toUpper ≠ "TRUE" ∧ w.toUpper ≠ "FALSE" ∧ w.toUpper ≠ "NONE") :
      l.text ≠ w := by
    rintro rfl
    exact hupper.elim hw.1 fun hupper => hupper.elim hw.2.1 hw.2.2
  have hquote : l.isQuote = false := by
    rw [isQuote, decide_eq_false (hmark (by decide +kernel)),
      decide_eq_false (hmark (by decide +kernel))]
    rfl
  have hdigits : l.isDigits = false := by
    rw [isDigits, ← Text.isDigits_toUpper]
    rcases hupper with hupper | hupper | hupper <;>
      · rw [hupper]
        decide
  have hminus : l.isMinus = false := decide_eq_false (hmark (by decide +kernel))
  simp [literalExtent, hquote, hdigits, hminus, h]

/-- What begins with a quote goes on to the next one. -/
theorem Literal.exists_of_isQuote {l : Lexeme} {taken : List Lexeme} (h : Literal l taken)
    (hl : l.isQuote = true) :
    ∃ mid q, taken = mid ++ [q] ∧ ∀ m ∈ mid, m.text ≠ l.text := by
  cases h with
  | quoted _ hmid _ => exact ⟨_, _, rfl, hmid⟩
  | number hd => simp [isQuote_of_isDigits hd] at hl
  | negative hm => simp [isQuote_of_isMinus hm] at hl
  | word hw => simpa [literalExtent, hl] using hw []

theorem Literal.isBlank_eq_false {l : Lexeme} {taken : List Lexeme} (h : Literal l taken) :
    l.isBlank = false := by
  have hmark {w : String} (hw : Text.isSolid w = true) (hl : l.text = w) : l.isBlank = false :=
    isBlank_of_isSolid (hl ▸ hw)
  cases h with
  | quoted hq =>
    rw [isQuote, Bool.or_eq_true, decide_eq_true_eq, decide_eq_true_eq] at hq
    exact hq.elim (hmark (by decide)) (hmark (by decide))
  | number hd => exact isBlank_of_isSolid (Text.isSolid_of_isDigits hd)
  | negative hm => exact hmark (by decide) (of_decide_eq_true hm)
  | word _ hv => exact isBlank_of_isSolid (Value.isSolid_of_ofWord? hv)

/-- A literal in front of something calm is one token, if its text denotes a value. -/
theorem tokens_of_literal {source : Source} {l : Lexeme} {taken rest : List Lexeme}
    (hl : Literal l taken) (hrest : Calm rest) :
    tokens source (l :: (taken ++ rest)) =
      match Value.ofLiteral? (join (l :: taken)) with
      | some v => (tokens source rest).map (token source (.literal v) l taken :: ·)
      | none => .error ⟨.invalidLiteral, cover source l taken⟩ := by
  have hextent := hl.literalExtent_append hrest
  cases hv : Value.ofLiteral? (join (l :: taken)) with
  | some v =>
    have hreads : Reads l (taken ++ rest) (.literal v) taken.length :=
      .literal hextent (by rwa [List.take_left])
    rw [tokens_of_reads hreads, List.take_left, List.drop_left]
  | none =>
    have hr : recognise source l (taken ++ rest) =
        .error ⟨.invalidLiteral, cover source l taken⟩ := by
      simp [recognise, hextent, hv]
    rw [tokens, if_neg (by simp [hl.isBlank_eq_false]), hr]

/-- The lexemes of a text that has the form of a literal make one up, unless the
    text holds the quote that it begins and ends with. -/
theorem exists_literal {cs : List Char} (h : Value.Form cs)
    (hcs : ∀ inner, ¬ Text.Overquoted inner cs) :
    ∃ l taken, Literal l taken ∧ texts (l :: taken) = groups cs := by
  cases h with
  | @quoted q inner hq =>
    have hmark := role_of_mem_quotes hq
    refine ⟨⟨0, String.ofList [q]⟩,
      (groups inner).map (fun g => ⟨0, String.ofList g⟩) ++ [⟨0, String.ofList [q]⟩], ?_, ?_⟩
    · refine .quoted (isQuote_of_mem_quotes hq String.toList_ofList) (fun m hm hmq => ?_) rfl
      -- The quote is not among the characters in between.
      obtain ⟨g, hg, rfl⟩ := List.mem_map.1 hm
      obtain rfl : g = [q] := String.ofList_injective hmq
      refine hcs inner ⟨q, hq, ?_, rfl⟩
      rw [← flatten_groups inner]
      exact List.mem_flatten.2 ⟨[q], hg, List.mem_singleton_self q⟩
    · rw [groups_mark_cons hmark, groups_append_mark hmark]
      simp [texts, Function.comp_def]
  | number h =>
    obtain ⟨digits, ts, hd, hf, htexts⟩ := exists_of_number h
    exact ⟨digits, ts, .number hd hf, htexts⟩
  | @negative cs h =>
    obtain ⟨digits, ts, hd, hf, htexts⟩ := exists_of_number h
    refine ⟨⟨0, "-"⟩, digits :: ts, .negative rfl hd hf, ?_⟩
    rw [groups_mark_cons rfl, ← htexts]
    rfl
  | @word w h =>
    exact ⟨⟨0, w⟩, [], .word (literalExtent_of_word h) h, (isWord_of_ofWord? h).groups_eq.symm⟩

end Lexeme

open Lexeme

namespace Token

variable {t : Token} {v : Value}

/-- The text of a literal is read as this literal. -/
theorem spelled_of_literal {l : Lexeme} {taken : List Lexeme} (hl : Literal l taken)
    (htexts : texts (l :: taken) = groups t.text.toList) (hv : Value.ofLiteral? t.text = some v)
    (ht : t.kind = .literal v) : t.Spelled := by
  have hjoin : join (l :: taken) = t.text :=
    String.toList_injective (by rw [toList_join, htexts, flatten_groups])
  have hextent := hl.literalExtent_append calm_nil
  rw [List.append_nil] at hextent
  refine ⟨l, taken, ?_, htexts⟩
  rw [ht]
  exact .literal hextent (by rwa [List.take_length, hjoin])

/-- A text that denotes a value is read as a literal of this value, unless it holds
    the quote that it begins and ends with. -/
theorem spelled_of_ofLiteral? (hv : Value.ofLiteral? t.text = some v)
    (hquote : ∀ inner, ¬ Text.Overquoted inner t.text.toList) (ht : t.kind = .literal v) :
    t.Spelled := by
  obtain ⟨l, taken, hl, htexts⟩ := exists_literal (Value.form_of_ofLiteral? hv) hquote
  exact spelled_of_literal hl htexts hv ht

/-- What is read as a literal denotes its value, and does not hold the quote that it
    begins and ends with. -/
theorem Spelled.ofLiteral?_eq (h : t.Spelled) (ht : t.kind = .literal v) :
    Value.ofLiteral? t.text = some v ∧ ∀ inner, ¬ Text.Overquoted inner t.text.toList := by
  obtain ⟨l, taken, hr, htexts⟩ := h
  rw [ht] at hr
  cases hr with
  | literal hextent hv =>
    rw [List.take_length] at hv
    have hjoin : join (l :: taken) = t.text :=
      String.toList_injective (by rw [toList_join, htexts, flatten_groups])
    refine ⟨hjoin ▸ hv, ?_⟩
    rintro inner ⟨q, hq, hmem, htext⟩
    have hmark := role_of_mem_quotes hq
    rw [htext, groups_mark_cons hmark, groups_append_mark hmark] at htexts
    rw [texts, List.map_cons, ← texts] at htexts
    obtain ⟨hl, htaken⟩ := List.cons.inj htexts
    have hliteral := (literal_of_literalExtent hextent).2
    rw [List.take_length] at hliteral
    obtain ⟨mid, last, rfl, hmid⟩ := hliteral.exists_of_isQuote (isQuote_of_mem_quotes hq hl)
    rw [texts_append] at htaken
    have hinner : texts mid = groups inner := List.append_inj_left' htaken rfl
    -- The quote in between would have been the next one.
    obtain ⟨front, back, rfl⟩ := List.append_of_mem hmem
    rw [groups_append_mark hmark] at hinner
    have hsecond : [q] ∈ texts mid := by
      rw [hinner]
      simp
    obtain ⟨m, hm, hmq⟩ := List.mem_map.1 hsecond
    exact hmid m hm (String.toList_injective (hmq.trans hl.symm))

end Token

/-! ## Sources with a single literal -/

/-- The span of a token is as long as its text. -/
theorem Lexeme.Tokenizes.exists_span_eq {source : Source} {ls : List Lexeme} {ts : List Token}
    (h : Tokenizes source ls ts) :
    ∀ t ∈ ts, ∃ start ordered,
      t.span = .located source start (start + t.text.utf8ByteSize) ordered := by
  induction h with
  | nil => simp
  | gap _ _ ih => exact ih
  | token _ _ ih => exact List.forall_mem_cons.2 ⟨⟨_, _, rfl⟩, ih⟩

namespace Source

variable {s : Source}

/-- The span of the source as a whole. -/
def whole (s : Source) : Span :=
  .located s 0 s.size (Nat.zero_le _)

/-- The only token of a source spans the whole of it if its text is that of the
    source. -/
theorem span_eq_whole_iff {t : Token} (h : s.tokens = .ok [t]) :
    t.span = s.whole ↔ t.text = s.text := by
  have ht : t ∈ [t] := List.mem_singleton_self t
  obtain ⟨start, ordered, hspan⟩ := (tokens_eq_ok_iff.1 h).exists_span_eq t ht
  constructor
  · intro hwhole
    obtain ⟨before, after, htext, -, -⟩ := s.exists_gaps_of_tokens h
    -- Nothing is left around the token.
    have hsize : t.text.utf8ByteSize = s.text.utf8ByteSize := by
      rw [hspan, whole, Span.located.injEq] at hwhole
      obtain ⟨-, rfl, hstop⟩ := hwhole
      rwa [Nat.zero_add] at hstop
    have hlengths := congrArg Text.byteLength htext
    rw [Text.byteLength_append, Text.byteLength_append, Text.byteLength_toList,
      Text.byteLength_toList, hsize] at hlengths
    obtain rfl : before = [] := Text.eq_nil_of_byteLength (by omega)
    obtain rfl : after = [] := Text.eq_nil_of_byteLength (by omega)
    exact String.toList_injective (by simp [htext])
  · intro htext
    have hle := (s.marks_of_tokens h t ht).boundary.le_size
    rw [hspan] at hle
    change start + t.text.utf8ByteSize ≤ s.text.utf8ByteSize at hle
    rw [htext] at hle
    obtain rfl : start = 0 := by omega
    rw [hspan, whole, Span.located.injEq, htext, Nat.zero_add]
    exact ⟨rfl, rfl, rfl⟩

/-- The source is a single literal of this value, and nothing else. -/
def IsLiteral (s : Source) (v : Value) : Prop :=
  ∃ t, s.tokens = .ok [t] ∧ t.kind = .literal v ∧ t.span = s.whole

theorem isLiteral_iff {v : Value} :
    s.IsLiteral v ↔
      Value.ofLiteral? s.text = some v ∧ ∀ inner, ¬ Text.Overquoted inner s.text.toList := by
  constructor
  · rintro ⟨t, h, ht, hspan⟩
    rw [span_eq_whole_iff h] at hspan
    rw [← hspan]
    exact ((s.spelled_of_tokens h).1 t (List.mem_singleton_self t)).ofLiteral?_eq ht
  · rintro ⟨hv, hquote⟩
    have hspelled : (⟨.literal v, s.text, .empty⟩ : Token).Spelled :=
      Token.spelled_of_ofLiteral? hv hquote rfl
    have hspells := Spells.word hspelled .nil .nil
    rw [List.append_nil] at hspells
    obtain ⟨us, hus, hfuses⟩ := s.exists_tokens hspells
    obtain ⟨u, rfl, hu⟩ := List.map_eq_singleton_iff.1
      (hfuses.map_bare_of_isChain (.singleton _))
    refine ⟨u, hus, congrArg Token.kind hu, ?_⟩
    rw [span_eq_whole_iff hus]
    exact congrArg Token.text hu

/-- The sources of a single literal are the texts that denote its value, unless they
    hold the quote that they begin and end with; of such a text only the ends are
    looked at. A line of input is `none` if it has no text, and otherwise the text
    itself, or by the same rules the value of a literal or what stands between two
    quotes. -/
theorem literal_iff (s : Source) :
    (∀ v, s.IsLiteral v ↔
      Value.ofLiteral? s.text = some v ∧ ∀ inner, ¬ Text.Overquoted inner s.text.toList) ∧
    (∀ inner, Text.Overquoted inner s.text.toList →
      Value.ofLiteral? s.text = some (.string (String.ofList inner))) ∧
    (s.text = "" ∧ Value.ofInput s.text = .none ∨ Value.ofInput s.text = .string s.text ∨
      s.IsLiteral (Value.ofInput s.text) ∨
      ∃ inner, Text.Overquoted inner s.text.toList ∧
        Value.ofInput s.text = .string (String.ofList inner)) := by
  refine ⟨fun v => isLiteral_iff, fun inner => Value.ofLiteral?_of_overquoted, ?_⟩
  rw [Value.ofInput]
  split
  · rename_i hempty
    exact .inl ⟨String.isEmpty_iff.1 hempty, rfl⟩
  · split
    · exact .inr (.inl rfl)
    · cases hv : Value.ofLiteral? s.text with
      | none => exact .inr (.inl rfl)
      | some v =>
        by_cases hquote : ∃ inner, Text.Overquoted inner s.text.toList
        · obtain ⟨inner, hinner⟩ := hquote
          rw [Value.ofLiteral?_of_overquoted hinner] at hv
          exact .inr (.inr (.inr ⟨inner, hinner, (Option.some.inj hv).symm⟩))
        · exact .inr (.inr (.inl (isLiteral_iff.2 ⟨hv, not_exists.1 hquote⟩)))

/-- A sign, leading zeros and a fraction; and a text in quotes with such a quote in it. -/
theorem literal_iff_of_quotes :
    (⟨"main.kode", "-007", 0⟩ : Source).IsLiteral (.integer (-7)) ∧
      Value.ofLiteral? "'it's'" = some (.string "it's") ∧
      ∀ v, ¬ (⟨"main.kode", "'it's'", 0⟩ : Source).IsLiteral v := by
  have hquote : Text.Overquoted "it's".toList "'it's'".toList :=
    ⟨'\'', by decide, by decide, by decide⟩
  refine ⟨((literal_iff _).1 _).2 ⟨by decide +kernel, ?_⟩,
    (literal_iff ⟨"main.kode", "'it's'", 0⟩).2.1 _ hquote,
    fun v hv => (((literal_iff _).1 v).1 hv).2 _ hquote⟩
  rintro inner ⟨q, hq, -, htext⟩
  obtain rfl : q = '-' := (List.cons.inj htext).1.symm
  exact absurd hq (by decide)

/-- A text between quotes with such a quote in it denotes a value, but no source of a
    literal reads like it. -/
theorem not_literal_iff_of_quotes :
    ¬ ∀ (s : Source) (v : Value), Value.ofLiteral? s.text = some v ↔ s.IsLiteral v := by
  intro h
  obtain ⟨t, ht, -⟩ :=
    (h ⟨"main.kode", "\"a\"b\"", 0⟩ (.string "a\"b")).1 (by decide +kernel)
  have hread : (⟨"main.kode", "\"a\"b\"", 0⟩ : Source).tokens.isOk = false := by decide +kernel
  rw [ht] at hread
  exact absurd hread (by simp [Except.isOk, Except.toBool])

end Source

end Kode
