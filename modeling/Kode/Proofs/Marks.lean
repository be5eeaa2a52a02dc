import Kode.Proofs.Spelling

/-!
# Spans that mark something

A span *marks* a part of a source if something can be seen there: it begins at a
character of this source that is not blank, and ends behind it, between two
characters (`Span.Marks`). Joining such spans gives another one, so whatever is
put together from the spans of tokens marks something.

* `Span.Marks.merge`: so does the span that joins two of them;
* `Source.marks_of_tokens`: every token marks its part of the source, and the
  tokens stand one after the other;
* `Source.marks_of_tokens_error`: so does what begins no token.
-/

namespace Kode

open Text (byteLength byteLength_append byteLength_cons byteLength_toList)

open Lexeme (texts texts_append texts_lexemes)

namespace Source

theorem chars_append (s : Source) {front back : List Char} (h : s.text.toList = front ++ back) :
    s.chars = Text.withOffsets 0 front ++ Text.withOffsets (byteLength front) back := by
  rw [chars, h, Text.withOffsets_append, Nat.zero_add]

theorem takeWhile_chars (s : Source) {front back : List Char}
    (h : s.text.toList = front ++ back) :
    (s.chars.takeWhile fun x => x.1 < byteLength front) = Text.withOffsets 0 front := by
  rw [s.chars_append h,
    List.takeWhile_append_of_pos (by simpa using Text.withOffsets_lt_byteLength)]
  cases back <;> simp

/-- A character that is not blank begins at the offset. -/
def Shows (s : Source) (offset : Nat) : Prop :=
  ∃ front c back, s.text.toList = front ++ c :: back ∧ byteLength front = offset ∧
    Text.isBlank c = false

/-- The offset does not lie inside of a character. -/
def Boundary (s : Source) (offset : Nat) : Prop :=
  ∃ front back, s.text.toList = front ++ back ∧ byteLength front = offset

theorem Boundary.le_size {s : Source} {offset : Nat} (h : s.Boundary offset) : offset ≤ s.size := by
  obtain ⟨front, back, htext, rfl⟩ := h
  rw [size, ← byteLength_toList, htext, byteLength_append]
  exact Nat.le_add_right _ _

end Source

namespace Span

/-- The span covers something of the source, begins with a character that is not
    blank, and does not end inside of one. -/
structure Marks (source : Source) (s : Span) : Prop where
  source?_eq : s.source? = some source
  start_lt_stop : s.start < s.stop
  shows : source.Shows s.start
  boundary : source.Boundary s.stop

/-- The span lies inside of the other one, in the same source. -/
structure Within (s t : Span) : Prop where
  source?_eq : s.source? = t.source?
  start_le : t.start ≤ s.start
  stop_le : s.stop ≤ t.stop

variable {source : Source} {s t u : Span}

theorem Marks.exists_eq (h : s.Marks source) :
    ∃ start stop ordered, s = located source start stop ordered := by
  have hsource := h.source?_eq
  cases s with
  | empty => simp [source?] at hsource
  | located source' start stop ordered =>
    obtain rfl := Option.some.inj hsource
    exact ⟨start, stop, ordered, rfl⟩

theorem Marks.start_merge (hs : s.Marks source) (ht : t.Marks source) :
    (s.merge t).start = min s.start t.start := by
  obtain ⟨_, _, _, rfl⟩ := hs.exists_eq
  obtain ⟨_, _, _, rfl⟩ := ht.exists_eq
  rfl

theorem Marks.stop_merge (hs : s.Marks source) (ht : t.Marks source) :
    (s.merge t).stop = max s.stop t.stop := by
  obtain ⟨_, _, _, rfl⟩ := hs.exists_eq
  obtain ⟨_, _, _, rfl⟩ := ht.exists_eq
  rfl

theorem Marks.source?_merge (hs : s.Marks source) (ht : t.Marks source) :
    (s.merge t).source? = some source := by
  obtain ⟨_, _, _, rfl⟩ := hs.exists_eq
  obtain ⟨_, _, _, rfl⟩ := ht.exists_eq
  rfl

/-- Two spans that mark something are joined to one that does. -/
theorem Marks.merge (hs : s.Marks source) (ht : t.Marks source) : (s.merge t).Marks source where
  source?_eq := hs.source?_merge ht
  start_lt_stop := by
    have := hs.start_lt_stop
    rw [hs.start_merge ht, hs.stop_merge ht]
    omega
  shows := by
    rw [hs.start_merge ht]
    rcases Nat.le_total s.start t.start with h | h
    · rw [Nat.min_eq_left h]
      exact hs.shows
    · rw [Nat.min_eq_right h]
      exact ht.shows
  boundary := by
    rw [hs.stop_merge ht]
    rcases Nat.le_total s.stop t.stop with h | h
    · rw [Nat.max_eq_right h]
      exact ht.boundary
    · rw [Nat.max_eq_left h]
      exact hs.boundary

theorem Within.refl (s : Span) : s.Within s :=
  ⟨rfl, Nat.le_refl _, Nat.le_refl _⟩

theorem Within.trans (hst : s.Within t) (htu : t.Within u) : s.Within u :=
  ⟨hst.source?_eq.trans htu.source?_eq, Nat.le_trans htu.start_le hst.start_le,
    Nat.le_trans hst.stop_le htu.stop_le⟩

theorem Marks.within_merge_right (hs : s.Marks source) (ht : t.Marks source) :
    t.Within (s.merge t) where
  source?_eq := ht.source?_eq.trans (hs.source?_merge ht).symm
  start_le := by
    rw [hs.start_merge ht]
    exact Nat.min_le_right _ _
  stop_le := by
    rw [hs.stop_merge ht]
    exact Nat.le_max_right _ _

/-- What joins two spans lies inside of what joins two wider ones. -/
theorem Marks.within_merge {s' t' : Span} (hs : s.Marks source) (ht : t.Marks source)
    (hs' : s'.Marks source) (ht' : t'.Marks source) (hss : s.Within s') (htt : t.Within t') :
    (s.merge t).Within (s'.merge t') where
  source?_eq := (hs.source?_merge ht).trans (hs'.source?_merge ht').symm
  start_le := by
    have h₁ := hss.start_le
    have h₂ := htt.start_le
    rw [hs.start_merge ht, hs'.start_merge ht']
    omega
  stop_le := by
    have h₁ := hss.stop_le
    have h₂ := htt.stop_le
    rw [hs.stop_merge ht, hs'.stop_merge ht']
    omega

end Span

/-- The span of some tokens marks something if each of theirs does. -/
theorem Token.marks_spanOf {source : Source} {ts : List Token} (hne : ts ≠ [])
    (hts : ∀ t ∈ ts, t.span.Marks source) : (Token.spanOf ts).Marks source := by
  induction ts with
  | nil => exact absurd rfl hne
  | cons t ts ih =>
    rw [List.forall_mem_cons] at hts
    rw [Token.spanOf_cons]
    cases ts with
    | nil =>
      rw [Token.spanOf_nil, Span.merge_empty]
      exact hts.1
    | cons u us => exact hts.1.merge (ih (by simp) hts.2)

/-! ## The tokens of a source -/

namespace Lexeme

/-- The lexemes are those of the source that stand behind the characters `front`. -/
structure Follows (source : Source) (front : List Char) (ls : List Lexeme) : Prop where
  text : source.text.toList = front ++ (texts ls).flatten
  placed : ls = placed (byteLength front) (texts ls)
  tiling : Tiling (texts ls)

theorem follows_lexemes (source : Source) : Follows source [] source.lexemes where
  text := by rw [texts_lexemes, flatten_groups, List.nil_append]
  placed := by
    rw [texts_lexemes]
    rfl
  tiling := by
    rw [texts_lexemes]
    exact tiling_groups _

variable {source : Source} {front : List Char} {l : Lexeme} {ls rest : List Lexeme}

theorem texts_cons (l : Lexeme) (ls : List Lexeme) : texts (l :: ls) = l.text.toList :: texts ls :=
  rfl

theorem Follows.start_eq (h : Follows source front (l :: ls)) : l.start = byteLength front := by
  have hp := h.placed
  rw [texts_cons, Lexeme.placed] at hp
  rw [(List.cons.inj hp).1]

theorem Follows.tail (h : Follows source front (l :: ls)) :
    Follows source (front ++ l.text.toList) ls where
  text := by
    rw [h.text, texts_cons, List.flatten_cons, List.append_assoc]
  placed := by
    have hp := h.placed
    rw [texts_cons, Lexeme.placed] at hp
    rw [byteLength_append]
    exact (List.cons.inj hp).2
  tiling := h.tiling.mono (List.suffix_cons _ _).isInfix

theorem Follows.drop (h : Follows source front ls) (n : Nat) :
    Follows source (front ++ (texts (ls.take n)).flatten) (ls.drop n) := by
  induction n generalizing front ls with
  | zero => simpa [texts] using h
  | succ n ih =>
    cases ls with
    | nil => simpa [texts] using h
    | cons l ls =>
      have := ih h.tail
      rwa [List.append_assoc] at this

/-- A lexeme that begins with a blank is blank. -/
theorem isBlank_of_head {c : Char} {cs : List Char} (hl : l.text.toList = c :: cs)
    (hj : l.text.toList.IsChain fun c d => joins c d = true) (hc : Text.isBlank c = true) :
    l.isBlank = true := by
  rw [isBlank, Text.allBlank, List.all_eq_true]
  rw [hl] at hj ⊢
  clear hl
  induction cs generalizing c with
  | nil => simpa using hc
  | cons d cs ih =>
    obtain ⟨hcd, hj⟩ := List.isChain_cons_cons.1 hj
    have hd : Text.isBlank d = true := by
      by_contra hd
      rw [joins_eq_false (by rw [hc]; exact Ne.symm hd)] at hcd
      simp at hcd
    intro e he
    rcases List.mem_cons.1 he with rfl | he
    · exact hc
    · exact ih hj hd e he

/-- What begins with a lexeme that is not blank marks something. -/
theorem Follows.marks_cover (h : Follows source front (l :: rest)) (hl : l.isBlank = false)
    (n : Nat) : (cover source l (rest.take n)).Marks source := by
  obtain ⟨c, cs, hc⟩ : ∃ c cs, l.text.toList = c :: cs :=
    List.exists_cons_of_ne_nil fun hnil => h.tiling.nonempty (by simp [texts_cons, hnil])
  have htext : source.text.toList = front ++ ((join (l :: rest.take n)).toList ++
      (texts (rest.drop n)).flatten) := by
    rw [h.text, toList_join, ← List.flatten_append, ← texts_append, List.cons_append,
      List.take_append_drop]
  have hjoin : (join (l :: rest.take n)).toList = c :: (cs ++ (texts (rest.take n)).flatten) := by
    rw [toList_join, texts_cons, List.flatten_cons, hc, List.cons_append]
  refine ⟨rfl, ?_, ?_, ?_⟩
  · -- It has at least one character.
    have hpos := c.utf8Size_pos
    change l.start < l.start + (join (l :: rest.take n)).utf8ByteSize
    rw [← byteLength_toList, hjoin, byteLength_cons]
    omega
  · have hvisible : Text.isBlank c = false := by
      by_contra hb
      have hj := h.tiling.joined l.text.toList (by simp [texts_cons])
      rw [isBlank_of_head hc hj (by simpa using hb)] at hl
      simp at hl
    rw [hjoin, List.cons_append] at htext
    exact ⟨front, c, _, htext, h.start_eq.symm, hvisible⟩
  · rw [← List.append_assoc] at htext
    refine ⟨_, _, htext, ?_⟩
    rw [byteLength_append, byteLength_toList, ← h.start_eq]
    rfl

/-- What begins no token is pointed at, perhaps with lexemes after it. -/
theorem recognise_error {e : ParseError} (h : recognise source l rest = .error e) :
    ∃ n, e.span = cover source l (rest.take n) := by
  unfold recognise at h
  split at h
  · obtain rfl := Except.error.inj h
    exact ⟨0, rfl⟩
  · rename_i n _
    split at h
    · simp at h
    · obtain rfl := Except.error.inj h
      exact ⟨n, rfl⟩
  · split at h
    · simp at h
    · split at h
      · simp at h
      · split at h
        · simp at h
        · split at h
          · simp at h
          · obtain rfl := Except.error.inj h
            exact ⟨0, rfl⟩

/-- The tokens mark their parts of the source, one after the other. -/
theorem Follows.marks_of_tokens (h : Follows source front ls) {ts : List Token}
    (hts : Tokenizes source ls ts) :
    (∀ t ∈ ts, t.span.Marks source ∧ byteLength front ≤ t.span.start) ∧
      ts.Pairwise fun t u => t.span.stop ≤ u.span.start := by
  induction hts generalizing front with
  | nil => exact ⟨by simp, .nil⟩
  | gap _ _ ih =>
    obtain ⟨hmarks, hpair⟩ := ih h.tail
    refine ⟨fun t ht => ⟨(hmarks t ht).1, Nat.le_trans ?_ (hmarks t ht).2⟩, hpair⟩
    rw [byteLength_append]
    exact Nat.le_add_right _ _
  | @token l rest _ n _ hreads _ ih =>
    obtain ⟨hmarks, hpair⟩ := ih (h.tail.drop n)
    have hl := hreads.isBlank_eq_false
    -- The other tokens stand behind all lexemes of the first one.
    have hstop : (cover source l (rest.take n)).stop =
        byteLength (front ++ l.text.toList ++ (texts (rest.take n)).flatten) := by
      change l.start + (join (l :: rest.take n)).utf8ByteSize = _
      rw [h.start_eq, ← byteLength_toList, toList_join, texts_cons, List.flatten_cons,
        byteLength_append, byteLength_append, byteLength_append, Nat.add_assoc]
    refine ⟨List.forall_mem_cons.2 ⟨⟨h.marks_cover hl n, Nat.le_of_eq h.start_eq.symm⟩, ?_⟩, ?_⟩
    · refine fun t ht => ⟨(hmarks t ht).1, Nat.le_trans ?_ (hmarks t ht).2⟩
      rw [List.append_assoc, byteLength_append]
      exact Nat.le_add_right _ _
    · refine List.pairwise_cons.2 ⟨fun u hu => ?_, hpair⟩
      change (cover source l (rest.take n)).stop ≤ _
      rw [hstop]
      exact (hmarks u hu).2

theorem Follows.marks_of_tokens_error (h : Follows source front ls) {e : ParseError}
    (he : tokens source ls = .error e) : e.span.Marks source := by
  fun_induction tokens source ls generalizing front with
  | case1 => simp at he
  | case2 l rest hb ih => exact ih h.tail he
  | case3 l rest hb e' hr =>
    obtain rfl := Except.error.inj he
    obtain ⟨n, hspan⟩ := recognise_error hr
    rw [hspan]
    exact h.marks_cover (by simpa using hb) n
  | case4 l rest hb t n hr ih =>
    cases hus : tokens source (rest.drop n) with
    | error e' =>
      rw [hus] at he
      obtain rfl := Except.error.inj he
      exact ih (h.tail.drop n) hus
    | ok us => simp [hus, Except.map] at he

end Lexeme

namespace Source

variable {s : Source}

/-- Every token marks its part of the source. -/
theorem marks_of_tokens {ts : List Token} (h : s.tokens = .ok ts) :
    ∀ t ∈ ts, t.span.Marks s :=
  fun t ht => (((Lexeme.follows_lexemes s).marks_of_tokens (Lexeme.tokens_eq_ok_iff.1 h)).1 t ht).1

/-- The tokens stand one after the other. -/
theorem pairwise_of_tokens {ts : List Token} (h : s.tokens = .ok ts) :
    ts.Pairwise fun t u => t.span.stop ≤ u.span.start :=
  ((Lexeme.follows_lexemes s).marks_of_tokens (Lexeme.tokens_eq_ok_iff.1 h)).2

/-- What begins no token marks something, too. -/
theorem marks_of_tokens_error {e : ParseError} (h : s.tokens = .error e) : e.span.Marks s :=
  (Lexeme.follows_lexemes s).marks_of_tokens_error h

end Source

end Kode
