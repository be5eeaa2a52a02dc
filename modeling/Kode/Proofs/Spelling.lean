import Kode.Proofs.Bare
import Kode.Proofs.Reading
import Kode.Proofs.Tiling

/-!
# Tokens and texts

A text that spells some tokens, with gaps between them, is read as these tokens
again (`Source.exists_tokens`). There is one way in which that can fail: a name
and the word behind it may be the two words of an operator (`Token.Phrase`), and
then they are read as that operator (`Fuses`).

* `Lexeme.tokens_eq_ok_iff`: the tokens of lexemes, lexeme after lexeme;
* `Source.spelled_of_tokens`: every token of a source is what its own text is
  read as, and no two neighbours of them are the words of an operator;
* `Fuses.map_bare_of_isChain`, `Fuses.wordCount_le`: where there are no such
  neighbours nothing becomes another token, and where nothing has become another
  token their number is the same;
* `Source.exists_gaps_of_tokens`: a source with a single token has nothing but
  gaps around it.
-/

namespace Kode

/-- The two tokens are the words of an operator. -/
def Token.Phrase (t u : Token) : Prop :=
  t.isIdentifier = true ∧ (u.isKeyword .TO = true ∨ u.isIdentifier = true) ∧
    ∃ op, Operator.ofPhrase? t.text u.text = some op

namespace Token

/-- The number of tokens that are not periods. -/
def wordCount (ts : List Token) : Nat :=
  ts.countP fun t => !t.isPeriod

@[simp] theorem wordCount_nil : wordCount [] = 0 := rfl

theorem wordCount_cons (t : Token) (ts : List Token) :
    wordCount (t :: ts) = (if t.isPeriod then 0 else 1) + wordCount ts := by
  rw [wordCount, List.countP_cons, Nat.add_comm]
  cases t.isPeriod <;> rfl

@[simp] theorem wordCount_append (ts us : List Token) :
    wordCount (ts ++ us) = wordCount ts + wordCount us :=
  List.countP_append

end Token

/-- What becomes of tokens that are written down and read again: the same, up to
    spans, except that the words of an operator may become one token. -/
inductive Fuses : List Token → List Token → Prop
  | nil : Fuses [] []
  | keep {t u : Token} {ts us : List Token} : u.bare = t.bare → Fuses ts us →
      Fuses (t :: ts) (u :: us)
  | fuse {t t' u : Token} {ts us : List Token} : t.Phrase t' → u.operator?.isSome = true →
      Fuses ts us → Fuses (t :: t' :: ts) (u :: us)

namespace Lexeme

/-- The characters of each of the lexemes. -/
def texts (ls : List Lexeme) : List (List Char) :=
  ls.map fun l => l.text.toList

theorem texts_append (ls ls' : List Lexeme) : texts (ls ++ ls') = texts ls ++ texts ls' :=
  List.map_append

theorem toList_join (ls : List Lexeme) : (join ls).toList = (texts ls).flatten := by
  rw [join, String.toList_join, List.flatMap_map, texts, List.flatMap_def]

theorem join_singleton (l : Lexeme) : join [l] = l.text :=
  String.toList_injective (by rw [toList_join, texts, List.map_singleton, List.flatten_singleton])

theorem map_text_of_texts {ls ls' : List Lexeme} (h : texts ls = texts ls') :
    ls.map Lexeme.text = ls'.map Lexeme.text := by
  have := congrArg (List.map String.ofList) h
  rw [texts, texts, List.map_map, List.map_map] at this
  simpa [Function.comp_def] using this

theorem texts_lexemes (s : Source) : texts s.lexemes = groups s.text.toList := by
  have hmap (ls : List Lexeme) : texts ls = (ls.map Lexeme.text).map String.toList := by
    rw [List.map_map]
    rfl
  rw [hmap, Source.lexemes, map_text_placed, List.map_map]
  simp [Function.comp_def]

theorem role_eq_blank_iff {c : Char} : role c = .blank ↔ Text.isBlank c = true := by
  have hm (h : c ∈ marks) : Text.isBlank c = false := by
    simp only [marks, List.mem_cons, List.not_mem_nil, or_false] at h
    rcases h with rfl | rfl | rfl | rfl <;> decide
  rw [role]
  split
  · rename_i h
    simp [hm h]
  · split <;> simp_all

/-- A gap does not run together with what it separates. -/
theorem joins_eq_false {c d : Char} (h : Text.isBlank c ≠ Text.isBlank d) : joins c d = false := by
  rw [joins, decide_eq_false_iff_not]
  rintro ⟨hcd, -⟩
  exact h (by rw [Bool.eq_iff_iff, ← role_eq_blank_iff, hcd, role_eq_blank_iff])

theorem exists_groups_cons (c : Char) (cs : List Char) :
    ∃ ds gs, groups (c :: cs) = (c :: ds) :: gs := by
  rw [groups_cons]
  unfold glue
  split
  · split
    · exact ⟨_, _, rfl⟩
    · exact ⟨[], _, rfl⟩
  · exact ⟨[], _, rfl⟩

/-- Neighbours do not consist of characters that run together. -/
theorem Tiling.not_same_role {l l' : Lexeme} {ls : List Lexeme} {r : Role}
    (h : Tiling (texts (l :: l' :: ls))) (hl : ∀ c ∈ l.text.toList, role c = r)
    (hl' : ∀ c ∈ l'.text.toList, role c = r) : r = .mark := by
  by_contra hr
  obtain ⟨⟨hne, hne', hj⟩, -⟩ := List.isChain_cons_cons.1 h.apart
  have hlast := hl _ (List.getLast_mem hne)
  have hhead := hl' _ (List.head_mem hne')
  rw [joins, decide_eq_false_iff_not] at hj
  exact hj ⟨hlast.trans hhead.symm, hlast ▸ hr⟩

theorem isBlank_of_isSolid {l : Lexeme} (h : Text.isSolid l.text = true) : l.isBlank = false := by
  rw [Text.isSolid, Bool.and_eq_true, List.all_eq_true] at h
  obtain ⟨c, cs, hl⟩ := List.exists_cons_of_ne_nil (by simpa using h.1 : l.text.toList ≠ [])
  have hc := h.2 c (by simp [hl])
  rw [isBlank, Text.allBlank, hl, List.all_cons]
  simp_all

theorem Reads.isBlank_eq_false {l : Lexeme} {rest : List Lexeme} {kind : TokenKind} {n : Nat}
    (h : Reads l rest kind n) : l.isBlank = false :=
  isBlank_of_isSolid h.solid.1

theorem tokens_of_reads {source : Source} {l : Lexeme} {rest : List Lexeme} {kind : TokenKind}
    {n : Nat} (h : Reads l rest kind n) :
    tokens source (l :: rest) =
      (tokens source (rest.drop n)).map (token source kind l (rest.take n) :: ·) := by
  have hr : recognise source l rest = .ok (token source kind l (rest.take n), n) :=
    recognise_eq_ok_iff.2 ⟨kind, h, rfl⟩
  rw [tokens, if_neg (by simp [h.isBlank_eq_false])]
  split
  · rename_i e he
    simp [hr] at he
  · rename_i t m ht
    obtain ⟨rfl, rfl⟩ := Prod.mk.inj (Except.ok.inj (hr.symm.trans ht))
    rfl

/-- The lexemes make up the tokens: gaps are skipped, and every other lexeme begins
    a token. -/
inductive Tokenizes (source : Source) : List Lexeme → List Token → Prop
  | nil : Tokenizes source [] []
  | gap {l : Lexeme} {rest : List Lexeme} {ts : List Token} : l.isBlank = true →
      Tokenizes source rest ts → Tokenizes source (l :: rest) ts
  | token {l : Lexeme} {rest : List Lexeme} {kind : TokenKind} {n : Nat} {ts : List Token} :
      Reads l rest kind n → Tokenizes source (rest.drop n) ts →
      Tokenizes source (l :: rest) (token source kind l (rest.take n) :: ts)

theorem tokens_eq_ok_iff {source : Source} {ls : List Lexeme} {ts : List Token} :
    tokens source ls = .ok ts ↔ Tokenizes source ls ts := by
  constructor
  · intro h
    fun_induction tokens source ls generalizing ts with
    | case1 =>
      obtain rfl := Except.ok.inj h
      exact .nil
    | case2 l rest hb ih => exact .gap hb (ih h)
    | case3 => exact absurd h (by simp)
    | case4 l rest hb t n hr ih =>
      obtain ⟨us, hus, rfl⟩ := Statement.map_eq_ok h
      obtain ⟨kind, hreads, rfl⟩ := recognise_eq_ok_iff.1 hr
      exact .token hreads (ih hus)
  · intro h
    induction h with
    | nil => rw [tokens]
    | gap hb _ ih => rw [tokens, if_pos hb, ih]
    | token hreads _ ih =>
      rw [tokens_of_reads hreads, ih]
      rfl

end Lexeme

open Lexeme

/-- The token is what its text is read as. -/
def Token.Spelled (t : Token) : Prop :=
  ∃ l taken, Reads l taken t.kind taken.length ∧ texts (l :: taken) = groups t.text.toList

/-! ## The tokens of a source -/

theorem spelled_of_reads {source : Source} {l : Lexeme} {rest : List Lexeme} {kind : TokenKind}
    {n : Nat} (h : Reads l rest kind n) (ht : Tiling (texts (l :: rest))) :
    (token source kind l (rest.take n)).Spelled := by
  obtain ⟨hn, hr⟩ := h.take
  refine ⟨l, rest.take n, ?_, ?_⟩
  · rw [List.length_take_of_le hn]
    exact hr
  · have hi : texts (l :: rest.take n) <:+: texts (l :: rest) :=
      (( List.take_prefix (n + 1) (l :: rest)).map _).isInfix
    change texts (l :: rest.take n) = groups (join (l :: rest.take n)).toList
    rw [toList_join, (ht.mono hi).groups_flatten]

/-- Every token is what its text is read as. -/
theorem spelled_of_tokens {source : Source} {ls : List Lexeme} {ts : List Token}
    (ht : Tiling (texts ls)) (h : Tokenizes source ls ts) : ∀ t ∈ ts, t.Spelled := by
  induction h with
  | nil => simp
  | gap _ _ ih => exact ih (ht.mono (List.suffix_cons _ _).isInfix)
  | @token l rest _ n _ hreads _ ih =>
    have hi : texts (rest.drop n) <:+: texts (l :: rest) :=
      ((List.drop_suffix (n + 1) (l :: rest)).map _).isInfix
    exact List.forall_mem_cons.2 ⟨spelled_of_reads hreads ht, ih (ht.mono hi)⟩

/-- What stands in front of the first token is blank. -/
theorem exists_first_of_tokens {source : Source} {ls : List Lexeme} {u : Token} {us : List Token}
    (h : Tokenizes source ls (u :: us)) :
    ∃ gap l rest kind n, ls = gap ++ l :: rest ∧ (∀ g ∈ gap, g.isBlank = true) ∧
      Reads l rest kind n ∧ u = token source kind l (rest.take n) ∧
      Tokenizes source (rest.drop n) us := by
  generalize hts : u :: us = ts at h
  induction h with
  | nil => exact absurd hts (by simp)
  | @gap l _ _ hb _ ih =>
    obtain ⟨gap, l', rest', kind, n, rfl, hgap, hr⟩ := ih hts
    exact ⟨l :: gap, l', rest', kind, n, rfl, List.forall_mem_cons.2 ⟨hb, hgap⟩, hr⟩
  | @token l rest kind n _ hreads hrest =>
    obtain ⟨rfl, rfl⟩ := List.cons.inj hts
    exact ⟨[], l, rest, kind, n, rfl, by simp, hreads, rfl, hrest⟩

/-- Without any token everything is blank. -/
theorem isBlank_of_tokens_eq_nil {source : Source} {ls : List Lexeme}
    (h : Tokenizes source ls []) : ∀ l ∈ ls, l.isBlank = true := by
  induction ls with
  | nil => simp
  | cons l rest ih =>
    cases h with
    | gap hb h => exact List.forall_mem_cons.2 ⟨hb, ih h⟩

theorem isWord_of_reads {l : Lexeme} {rest : List Lexeme} {kind : TokenKind} {n : Nat}
    (h : Reads l rest kind n) (hk : kind = .keyword .TO ∨ kind = .identifier) :
    n = 0 ∧ IsWord l.text := by
  cases h with
  | literal | punctuation | operator => simp at hk
  | keyword _ _ _ hword =>
    rw [← isWord_toUpper, Keyword.toUpper_of_ofWord? hword]
    rcases hk with hk | hk
    · obtain rfl := TokenKind.keyword.inj hk
      exact ⟨rfl, isWord_of_isName (l := ⟨0, Keyword.TO.word⟩) (by decide)⟩
    · simp at hk
  | identifier _ _ _ _ hname => exact ⟨rfl, isWord_of_isName hname⟩

/-- A name and the word after it are no operator. -/
theorem not_phrase_of_reads {source : Source} {l l' : Lexeme} {gap rest : List Lexeme}
    {kind kind' : TokenKind} {n n' : Nat} (h : Reads l (gap ++ l' :: rest) kind n)
    (h' : Reads l' rest kind' n') (ht : Tiling (texts (l :: (gap ++ l' :: rest))))
    (hgap : ∀ g ∈ gap, g.isBlank = true) :
    ¬ (token source kind l []).Phrase (token source kind' l' (rest.take n')) := by
  rintro ⟨hk, hk', op, hop⟩
  have hk : kind = .identifier := Token.kind_of_isIdentifier hk
  have hk' : kind' = .keyword .TO ∨ kind' = .identifier :=
    hk'.imp Token.kind_of_isKeyword Token.kind_of_isIdentifier
  obtain ⟨-, hword⟩ := isWord_of_reads h (.inr hk)
  obtain ⟨rfl, hword'⟩ := isWord_of_reads h' hk'
  change Operator.ofPhrase? (join [l]) (join [l']) = some op at hop
  rw [join_singleton, join_singleton] at hop
  subst hk
  match gap with
  | [] =>
    -- Without a gap the two words would be one lexeme.
    exact absurd (ht.not_same_role hword.2 hword'.2) (by simp)
  | [g] =>
    -- With one the two would have been read as the operator.
    cases h with
    | identifier _ _ ho =>
      exact (operator?_eq_none ho).1 op ⟨g, l', rest, rfl, hgap g List.mem_cons_self, hop⟩
  | g :: g' :: gs =>
    -- Two gaps would be one.
    have hblank {m : Lexeme} (hm : m.isBlank = true) : ∀ c ∈ m.text.toList, role c = .blank :=
      fun c hc => role_eq_blank_iff.2 (List.all_eq_true.1 hm c hc)
    have hi := ht.mono (List.suffix_cons _ _).isInfix
    exact absurd (hi.not_same_role (hblank (hgap g (by simp))) (hblank (hgap g' (by simp))))
      (by simp)

/-- No two neighbours are the words of an operator: they would have been read as
    that operator. -/
theorem isChain_of_tokens {source : Source} {ls : List Lexeme} {ts : List Token}
    (ht : Tiling (texts ls)) (h : Tokenizes source ls ts) :
    ts.IsChain fun t u => ¬ t.Phrase u := by
  induction h with
  | nil => exact .nil
  | gap _ _ ih => exact ih (ht.mono (List.suffix_cons _ _).isInfix)
  | @token l rest _ n _ hreads hus ih =>
    have hi : texts (rest.drop n) <:+: texts (l :: rest) :=
      ((List.drop_suffix (n + 1) (l :: rest)).map _).isInfix
    refine List.isChain_cons.2 ⟨fun u hu => ?_, ih (ht.mono hi)⟩
    obtain ⟨us, rfl⟩ := List.head?_eq_some_iff.1 hu
    obtain ⟨gap, l', rest', kind', n', hrest, hgap, hreads', rfl, -⟩ := exists_first_of_tokens hus
    intro hp
    obtain ⟨rfl, -⟩ := isWord_of_reads hreads (.inr (Token.kind_of_isIdentifier hp.1))
    rw [List.drop_zero] at hrest
    subst hrest
    exact not_phrase_of_reads hreads hreads' ht hgap hp

/-! ## Reading a text again -/

/-- What may follow a token: the end, a gap, or a period with one of these after
    it. -/
inductive Apart : List Char → Prop
  | nil : Apart []
  | blank {c : Char} {cs : List Char} : Text.isBlank c = true → Apart (c :: cs)
  | period {cs : List Char} : (∀ c ∈ cs.head?, Text.isBlank c = true) → Apart ('.' :: cs)

/-- The text consists of the texts of the tokens, with gaps between them. -/
inductive Spells : List Char → List Token → Prop
  | blank {cs : List Char} : (∀ c ∈ cs, Text.isBlank c = true) → Spells cs []
  | token {gap cs : List Char} {t : Token} {ts : List Token} :
      (∀ c ∈ gap, Text.isBlank c = true) → t.Spelled → Apart cs → Spells cs ts →
      Spells (gap ++ (t.text.toList ++ cs)) (t :: ts)

theorem Spells.nil : Spells [] [] :=
  .blank (by simp)

theorem Spells.word {t : Token} {cs : List Char} {ts : List Token} (ht : t.Spelled) (ha : Apart cs)
    (h : Spells cs ts) : Spells (t.text.toList ++ cs) (t :: ts) :=
  have hgap : ∀ c ∈ [], Text.isBlank c = true := by simp
  .token hgap ht ha h

theorem Spells.cons {c : Char} {cs : List Char} {ts : List Token} (h : Spells cs ts)
    (hc : Text.isBlank c = true) : Spells (c :: cs) ts := by
  cases h with
  | blank h => exact .blank (List.forall_mem_cons.2 ⟨hc, h⟩)
  | token hgap ht ha h => exact .token (List.forall_mem_cons.2 ⟨hc, hgap⟩) ht ha h

theorem Spells.gap {gap cs : List Char} {ts : List Token}
    (hgap : ∀ c ∈ gap, Text.isBlank c = true) (h : Spells cs ts) : Spells (gap ++ cs) ts := by
  induction gap with
  | nil => exact h
  | cons c gap ih =>
    rw [List.forall_mem_cons] at hgap
    exact (ih hgap.2).cons hgap.1

theorem Apart.gap {gap cs : List Char} (hgap : ∀ c ∈ gap, Text.isBlank c = true) (h : Apart cs) :
    Apart (gap ++ cs) := by
  cases gap with
  | nil => exact h
  | cons c gap => exact .blank (hgap c List.mem_cons_self)

/-- A token may be written with gaps around it. -/
theorem Spells.padded {before after cs : List Char} {t : Token} {ts : List Token}
    (hbefore : ∀ c ∈ before, Text.isBlank c = true) (hafter : ∀ c ∈ after, Text.isBlank c = true)
    (ht : t.Spelled) (ha : Apart cs) (h : Spells cs ts) :
    Spells (before ++ (t.text.toList ++ after) ++ cs) (t :: ts) := by
  rw [List.append_assoc, List.append_assoc]
  exact .token hbefore ht (ha.gap hafter) (h.gap hafter)

theorem Spells.spelled {cs : List Char} {ts : List Token} (h : Spells cs ts) :
    ∀ t ∈ ts, t.Spelled := by
  induction h with
  | blank => simp
  | token _ ht _ _ ih => exact List.forall_mem_cons.2 ⟨ht, ih⟩

/-- The text of a token begins and ends with characters that are not blank. -/
theorem Token.Spelled.ends {t : Token} (h : t.Spelled) :
    t.text.toList ≠ [] ∧ (∀ c ∈ t.text.toList.head?, Text.isBlank c = false) ∧
      ∀ c ∈ t.text.toList.getLast?, Text.isBlank c = false := by
  obtain ⟨l, taken, hr, htexts⟩ := h
  have hflat : t.text.toList = (texts (l :: taken)).flatten := by
    rw [htexts, flatten_groups]
  obtain ⟨hl, hlast⟩ := hr.solid
  rw [List.take_length] at hlast
  have hsolid {s : String} (hs : Text.isSolid s = true) :
      s.toList ≠ [] ∧ ∀ c ∈ s.toList, Text.isBlank c = false := by
    rw [Text.isSolid, Bool.and_eq_true, List.all_eq_true] at hs
    simpa using hs
  rw [hflat]
  -- Its first lexeme and its last one have no blanks.
  refine ⟨?_, ?_, ?_⟩
  · simp [texts, (hsolid hl).1]
  · rw [texts, List.map_cons, List.flatten_cons, List.head?_append_of_ne_nil _ (hsolid hl).1]
    exact fun c hc => (hsolid hl).2 c (List.mem_of_mem_head? hc)
  · obtain ⟨front, last, hsplit⟩ := List.eq_nil_or_concat (l :: taken) |>.resolve_left (by simp)
    rw [List.concat_eq_append] at hsplit
    have hs := hsolid (hlast last (by simp [hsplit]))
    rw [hsplit, texts, List.map_append, List.map_singleton, List.flatten_append,
      List.flatten_singleton, List.getLast?_append_of_ne_nil _ hs.1]
    exact fun c hc => hs.2 c (List.mem_of_mem_getLast? hc)

theorem isBlank_of_texts {gs : List Lexeme} {cs : List Char} (h : texts gs = groups cs)
    (hcs : ∀ c ∈ cs, Text.isBlank c = true) : ∀ g ∈ gs, g.isBlank = true := by
  intro g hg
  rw [isBlank, Text.allBlank, List.all_eq_true]
  intro c hc
  refine hcs c ?_
  rw [← flatten_groups cs, ← h]
  exact List.mem_flatten.2 ⟨_, List.mem_map_of_mem hg, hc⟩

/-- What begins with a blank is neither digits nor a period. -/
theorem not_digits_of_blank {l : Lexeme} {c : Char} {cs : List Char} (hl : l.text.toList = c :: cs)
    (hc : Text.isBlank c = true) : l.isDigits = false ∧ l.isPeriod = false := by
  constructor
  · cases hd : l.isDigits with
    | false => rfl
    | true =>
      rw [isDigits, hl, Text.isDigits, Bool.and_eq_true, List.all_cons, Bool.and_eq_true] at hd
      rw [Text.isBlank_of_isAlphanum (by simp [Char.isAlphanum, hd.2.1])] at hc
      simp at hc
  · cases hp : l.isPeriod with
    | false => rfl
    | true =>
      rw [isPeriod, decide_eq_true_eq] at hp
      rw [hp] at hl
      obtain ⟨rfl, -⟩ := List.cons.inj hl
      exact absurd hc (by decide)

/-- The lexemes do not go on with a number: neither digits nor a period come first. -/
def Lexeme.Detached (rest : List Lexeme) : Prop :=
  ∀ l ∈ rest.head?, l.isDigits = false ∧ l.isPeriod = false

theorem Lexeme.Detached.calm {rest : List Lexeme} (h : Detached rest) : Calm rest := by
  refine ⟨?_, fun l hl => (h l hl).1⟩
  rcases rest with _ | ⟨l, _ | ⟨l', more⟩⟩
  · rfl
  · rfl
  · simp [fractionLength, (h l rfl).2]

theorem detached_of_texts {rest : List Lexeme} {cs : List Char}
    (hcs : ∀ c ∈ cs.head?, Text.isBlank c = true) (hrest : texts rest = groups cs) :
    Detached rest := by
  intro m hm
  cases cs with
  | nil =>
    obtain rfl := List.map_eq_nil_iff.1 hrest
    simp at hm
  | cons c cs =>
    obtain ⟨ds, gs, hg⟩ := exists_groups_cons c cs
    rw [hg] at hrest
    obtain ⟨l, more, rfl, hl, -⟩ := List.map_eq_cons_iff.1 hrest
    obtain rfl := Option.some.inj hm
    exact not_digits_of_blank hl (hcs c rfl)

theorem Apart.calm {cs : List Char} {rest : List Lexeme} (h : Apart cs)
    (hrest : texts rest = groups cs) : Calm rest := by
  cases h with
  | nil => exact (detached_of_texts (by simp) hrest).calm
  | blank hc => exact (detached_of_texts (by simpa using hc) hrest).calm
  | period hcs =>
    rename_i cs
    rw [groups_mark_cons rfl] at hrest
    obtain ⟨l, more, rfl, hl, hmore⟩ := List.map_eq_cons_iff.1 hrest
    refine ⟨?_, ?_⟩
    · rcases more with _ | ⟨d, more⟩
      · rfl
      · have hd := (detached_of_texts hcs hmore d rfl).1
        simp [fractionLength, hd]
    · intro m hm
      obtain rfl := Option.some.inj hm
      rw [isDigits, hl]
      decide

/-- The lexemes of a text that begins with a token. -/
theorem exists_cut {gap cs : List Char} {t : Token} {ls : List Lexeme}
    (hgap : ∀ c ∈ gap, Text.isBlank c = true) (ht : t.Spelled) (ha : Apart cs)
    (hls : texts ls = groups (gap ++ (t.text.toList ++ cs))) :
    ∃ skipped l taken rest, ls = skipped ++ l :: (taken ++ rest) ∧
      (∀ s ∈ skipped, s.isBlank = true) ∧ Reads l taken t.kind taken.length ∧
      join (l :: taken) = t.text ∧ Calm rest ∧ texts rest = groups cs := by
  obtain ⟨hne, hhead, hlast⟩ := ht.ends
  obtain ⟨l, taken, hr, htexts⟩ := ht
  -- The token joins neither the gap in front of it nor what comes after it.
  have hcut : groups (gap ++ (t.text.toList ++ cs)) =
      groups gap ++ (groups t.text.toList ++ groups cs) := by
    rw [groups_append, groups_append]
    · intro c hc d hd
      cases ha with
      | nil => simp at hd
      | blank hb =>
        obtain rfl := Option.some.inj hd
        exact joins_eq_false (by simp [hlast c hc, hb])
      | period =>
        obtain rfl := Option.some.inj hd
        exact joins_of_mark (.inr rfl)
    · intro c hc d hd
      rw [List.head?_append_of_ne_nil _ hne] at hd
      exact joins_eq_false (by simp [hhead d hd, hgap c (List.mem_of_mem_getLast? hc)])
  rw [hcut, texts] at hls
  obtain ⟨skipped, ls, rfl, hskipped, hls⟩ := List.map_eq_append_iff.1 hls
  obtain ⟨own, rest, rfl, hown, hrest⟩ := List.map_eq_append_iff.1 hls
  rw [← htexts] at hown
  obtain ⟨l', taken', rfl, hl', htaken'⟩ := List.map_eq_cons_iff.1 hown
  have hlen : taken'.length = taken.length := by
    simpa using congrArg List.length htaken'
  refine ⟨skipped, l', taken', rest, rfl, isBlank_of_texts hskipped hgap, ?_, ?_,
    ha.calm hrest, hrest⟩
  · rw [hlen]
    exact hr.congr (String.toList_injective hl') (map_text_of_texts htaken')
  · refine String.toList_injective ?_
    rw [toList_join, texts, hown, htexts, flatten_groups]

theorem tokens_append_of_isBlank {source : Source} {gap ls : List Lexeme}
    (h : ∀ g ∈ gap, g.isBlank = true) :
    Lexeme.tokens source (gap ++ ls) = Lexeme.tokens source ls := by
  induction gap with
  | nil => rfl
  | cons g gap ih =>
    rw [List.forall_mem_cons] at h
    rw [List.cons_append, Lexeme.tokens, if_pos h.1, ih h.2]

/-- If the text behind a name begins with the second word of an operator, that
    word is its first token. -/
theorem Spells.exists_second {cs : List Char} {ts : List Token} (h : Spells cs ts) {l : Lexeme}
    {rest : List Lexeme} {op : Operator} (hp : Phrase l rest op) (hrest : texts rest = groups cs) :
    ∃ t' ts' cs', ts = t' :: ts' ∧ (t'.isKeyword .TO = true ∨ t'.isIdentifier = true) ∧
      Operator.ofPhrase? l.text t'.text = some op ∧ Spells cs' ts' ∧
      texts (rest.drop 2) = groups cs' := by
  obtain ⟨g, second, more, rfl, hg, hop⟩ := hp
  have hsecond := isBlank_of_isSolid (Operator.isSolid_of_ofPhrase? hop).2
  cases h with
  | blank h => simp [isBlank_of_texts hrest h second (by simp)] at hsecond
  | token hgap ht ha h =>
    rename_i gap cs t ts
    obtain ⟨skipped, l', taken, rest, heq, hskipped, hr, hjoin, -, hcs⟩ :=
      exists_cut hgap ht ha hrest
    -- The gap is skipped, and nothing else.
    match skipped, hskipped, heq with
    | [], _, heq =>
      obtain ⟨rfl, -⟩ := List.cons.inj heq
      simp [hr.isBlank_eq_false] at hg
    | _ :: s :: _, hskipped, heq =>
      obtain ⟨-, heq⟩ := List.cons.inj heq
      obtain ⟨rfl, -⟩ := List.cons.inj heq
      simp [hskipped second (by simp)] at hsecond
    | [_], _, heq =>
      obtain ⟨-, heq⟩ := List.cons.inj heq
      obtain ⟨rfl, rfl⟩ := List.cons.inj heq
      obtain ⟨hlen, hkind⟩ := hr.of_second (Operator.words_of_ofPhrase? hop).2
      obtain rfl := List.length_eq_zero_iff.1 hlen
      refine ⟨t, ts, cs, rfl, ?_, ?_, h, hcs⟩
      · exact hkind.imp (fun hk => by simp [Token.isKeyword, Token.keyword?, hk])
          fun hk => decide_eq_true hk
      · rw [← hjoin, join_singleton]
        exact hop

/-- A text is read as the tokens that it spells, up to operators of two words. -/
theorem Spells.exists_tokens {cs : List Char} {ts : List Token} (h : Spells cs ts)
    {source : Source} {ls : List Lexeme} (hls : texts ls = groups cs) :
    ∃ us, Lexeme.tokens source ls = .ok us ∧ Fuses ts us := by
  -- On the number of tokens, for an operator takes two of them.
  induction hn : ts.length using Nat.strongRecOn generalizing cs ts ls with
  | ind n ih =>
    cases h with
    | blank h =>
      refine ⟨[], ?_, .nil⟩
      have hblank : Lexeme.tokens source (ls ++ []) = Lexeme.tokens source [] :=
        tokens_append_of_isBlank (isBlank_of_texts hls h)
      rwa [List.append_nil, Lexeme.tokens] at hblank
    | token hgap ht ha h =>
      rename_i gap cs t ts
      obtain ⟨skipped, l, taken, rest, rfl, hskipped, hr, hjoin, hcalm, hrest⟩ :=
        exists_cut hgap ht ha hls
      rw [tokens_append_of_isBlank hskipped]
      rcases hr.append hcalm with hr | ⟨hkind, rfl, op, hp, hr⟩
      · obtain ⟨us, hus, hf⟩ := ih ts.length (by simp [← hn]) h hrest rfl
        rw [tokens_of_reads hr, List.drop_left, hus, List.take_left]
        refine ⟨_, rfl, .keep ?_ hf⟩
        exact congrArg (Token.mk t.kind · .empty) hjoin
      · obtain ⟨t', ts', cs', rfl, ht', hop, h', hrest'⟩ := h.exists_second hp hrest
        have hlt : ts'.length < n := by
          rw [← hn]
          exact Nat.lt_add_of_pos_right Nat.two_pos
        obtain ⟨us, hus, hf⟩ := ih ts'.length hlt h' hrest' rfl
        rw [List.nil_append, tokens_of_reads hr, hus]
        refine ⟨_, rfl, .fuse ⟨decide_eq_true hkind, ht', op, ?_⟩ rfl hf⟩
        rw [← hjoin, join_singleton]
        exact hop

namespace Fuses

/-- Without two words of an operator side by side, nothing becomes another token. -/
theorem map_bare_of_isChain {ts us : List Token} (h : Fuses ts us)
    (hc : ts.IsChain fun t u => ¬ t.Phrase u) : us.map Token.bare = ts.map Token.bare := by
  induction h with
  | nil => rfl
  | keep hb _ ih => rw [List.map_cons, List.map_cons, hb, ih hc.tail]
  | fuse hp => exact absurd hp (List.isChain_cons_cons.1 hc).1

/-- Fusing makes the tokens fewer that are not periods, unless nothing fuses. -/
theorem wordCount_le {ts us : List Token} (h : Fuses ts us) :
    Token.wordCount us ≤ Token.wordCount ts ∧
      (Token.wordCount us = Token.wordCount ts → us.map Token.bare = ts.map Token.bare) := by
  induction h with
  | nil => exact ⟨Nat.le_refl 0, fun _ => rfl⟩
  | @keep t u _ _ hb _ ih =>
    have hp : u.isPeriod = t.isPeriod := by
      rw [← Token.isPeriod_bare, hb, Token.isPeriod_bare]
    rw [Token.wordCount_cons, Token.wordCount_cons, hp, List.map_cons, List.map_cons, hb]
    exact ⟨Nat.add_le_add_left ih.1 _, fun heq => by rw [ih.2 (Nat.add_left_cancel heq)]⟩
  | @fuse t t' u _ _ hp hu _ ih =>
    obtain ⟨ht, ht', -⟩ := hp
    have hu := Token.isPeriod_of_inExpression (t := u) (by simp [Token.inExpression, hu])
    rw [Token.wordCount_cons, Token.wordCount_cons, Token.wordCount_cons, hu,
      Token.isPeriod_of_isIdentifier ht]
    have ht' : t'.isPeriod = false := by
      rcases ht' with ht' | ht'
      · exact Token.isPeriod_of_isKeyword ht'
      · exact Token.isPeriod_of_isIdentifier ht'
    have hle := ih.1
    simp only [ht', Bool.false_eq_true, if_false]
    exact ⟨by omega, fun heq => by omega⟩

end Fuses

namespace Source

/-- Every token of a source is what its text is read as, and no two neighbours
    are the words of an operator. -/
theorem spelled_of_tokens {s : Source} {ts : List Token} (h : s.tokens = .ok ts) :
    (∀ t ∈ ts, t.Spelled) ∧ ts.IsChain fun t u => ¬ t.Phrase u := by
  have ht : Tiling (texts s.lexemes) := by
    rw [texts_lexemes]
    exact tiling_groups _
  have hts := tokens_eq_ok_iff.1 h
  exact ⟨Kode.spelled_of_tokens ht hts, isChain_of_tokens ht hts⟩

theorem exists_tokens {s : Source} {ts : List Token} (h : Spells s.text.toList ts) :
    ∃ us, s.tokens = .ok us ∧ Fuses ts us :=
  h.exists_tokens (texts_lexemes s)

/-- A source with a single token is the text of this token, with gaps around it. -/
theorem exists_gaps_of_tokens {s : Source} {t : Token} (h : s.tokens = .ok [t]) :
    ∃ before after, s.text.toList = before ++ (t.text.toList ++ after) ∧
      (∀ c ∈ before, Text.isBlank c = true) ∧ ∀ c ∈ after, Text.isBlank c = true := by
  obtain ⟨gap, l, rest, kind, n, hls, hgap, -, rfl, hrest⟩ :=
    exists_first_of_tokens (tokens_eq_ok_iff.1 h)
  have blank {gs : List Lexeme} (hg : ∀ g ∈ gs, g.isBlank = true) :
      ∀ c ∈ (texts gs).flatten, Text.isBlank c = true := by
    intro c hc
    obtain ⟨_, hg', hc⟩ := List.mem_flatten.1 hc
    obtain ⟨g, hmem, rfl⟩ := List.mem_map.1 hg'
    exact List.all_eq_true.1 (hg g hmem) c hc
  refine ⟨_, _, ?_, blank hgap, blank (isBlank_of_tokens_eq_nil hrest)⟩
  change s.text.toList = _ ++ ((join (l :: rest.take n)).toList ++ _)
  rw [toList_join, ← flatten_groups s.text.toList, ← texts_lexemes, hls, ← List.flatten_append,
    ← texts_append, List.cons_append, List.take_append_drop, ← List.flatten_append, ← texts_append]

end Source

end Kode
