import Kode.Proofs.Marks

/-!
# The longest runs

The lexemes of a source can be told without cutting it. They are spans that stand
one after the other, from the beginning of the source to its end; each covers a
single mark, or only white space, or neither white space nor marks
(`Lexeme.Consists`); and where two of them meet, neither white space nor a word
goes on. There is no other way to divide the source like that, for a run that was
shorter would go on in the next span.

* `Lexeme.tiling_iff`: these are the groups that may stand side by side;
* `Lexeme.Follows.span_text`: a lexeme covers its own text;
* `Source.cutInto_iff`: the lexemes are the only spans that cut the source like that.
-/

namespace Kode

open Text (byteLength byteLength_append byteLength_toList)

/-- The spans stand one after the other, and lead from the one offset to the other. -/
def Span.Lead : Nat → List Span → Nat → Prop
  | start, [], stop => start = stop
  | start, p :: ps, stop => p.start = start ∧ Lead p.stop ps stop

/-- The text is a mark alone, or nothing but white space, or has neither white space nor
    marks in it. -/
inductive Lexeme.Consists : Lexeme.Role → List Char → Prop
  | mark {c : Char} : c ∈ Lexeme.marks → Consists .mark [c]
  | blank {cs : List Char} : cs ≠ [] → (∀ c ∈ cs, Text.isBlank c = true) → Consists .blank cs
  | word {cs : List Char} : cs ≠ [] → (∀ c ∈ cs, c ∉ Lexeme.marks ∧ Text.isBlank c = false) →
      Consists .word cs

/-- The spans divide the source into marks and into the longest runs of other characters. -/
structure Source.CutInto (s : Source) (spans : List Span) : Prop where
  located : ∀ p ∈ spans, p.source? = some s
  nonempty : ∀ p ∈ spans, p.start < p.stop
  boundaries : ∀ p ∈ spans, s.Boundary p.start ∧ s.Boundary p.stop
  lead : Span.Lead 0 spans s.size
  texts : String.join (spans.map Span.text) = s.text
  consists : ∀ p ∈ spans, ∃ r, Lexeme.Consists r p.text.toList
  /-- Two neighbours are not both white space, nor are both words. -/
  longest : spans.IsChain fun p q =>
    ∀ r, Lexeme.Consists r p.text.toList → Lexeme.Consists r q.text.toList → r = .mark

namespace Lexeme

/-! ## Groups told by their characters -/

theorem role_eq_mark_iff {c : Char} : role c = .mark ↔ c ∈ marks := by
  rw [role]
  split
  · simp [*]
  · split <;> simp [*]

theorem role_eq_word_iff {c : Char} : role c = .word ↔ c ∉ marks ∧ Text.isBlank c = false := by
  rw [role]
  split
  · simp [*]
  · split <;> simp [*]

variable {r : Role} {cs ds : List Char}

theorem Consists.ne_nil (h : Consists r cs) : cs ≠ [] := by
  cases h with
  | mark => exact List.cons_ne_nil _ _
  | blank hne | word hne => exact hne

theorem Consists.role_eq (h : Consists r cs) : ∀ c ∈ cs, role c = r := by
  cases h with
  | mark hc => simpa using role_eq_mark_iff.2 hc
  | blank _ hcs => exact fun c hc => role_eq_blank_iff.2 (hcs c hc)
  | word _ hcs => exact fun c hc => role_eq_word_iff.2 (hcs c hc)

theorem joins_of_role {c d : Char} (hc : role c = r) (hd : role d = r) (hr : r ≠ .mark) :
    joins c d = true := by
  rw [joins, decide_eq_true_eq, hc, hd]
  exact ⟨rfl, hr⟩

theorem Consists.isChain (h : Consists r cs) : cs.IsChain fun c d => joins c d = true := by
  by_cases hr : r = .mark
  · subst hr
    cases h with
    | mark => exact .singleton _
  · refine (List.pairwise_of_forall_mem_list fun c hc d hd => ?_).isChain
    exact joins_of_role (h.role_eq c hc) (h.role_eq d hd) hr

/-- Behind a character that something is joined to, all are of its role. -/
theorem role_eq_of_isChain {c : Char} (h : (c :: cs).IsChain fun c d => joins c d = true) :
    ∀ d ∈ cs, role d = role c ∧ role c ≠ .mark := by
  induction cs generalizing c with
  | nil => simp
  | cons e cs ih =>
    obtain ⟨hce, hcs⟩ := List.isChain_cons_cons.1 h
    rw [joins, decide_eq_true_eq] at hce
    obtain ⟨hrole, hmark⟩ := hce
    intro d hd
    rcases List.mem_cons.1 hd with rfl | hd
    · exact ⟨hrole.symm, hmark⟩
    · exact ⟨(ih hcs d hd).1.trans hrole.symm, hmark⟩

theorem exists_consists (hne : cs ≠ []) (h : cs.IsChain fun c d => joins c d = true) :
    ∃ r, Consists r cs := by
  obtain ⟨c, cs, rfl⟩ := List.exists_cons_of_ne_nil hne
  have hrest := role_eq_of_isChain h
  have hall (r : Role) (hc : role c = r) : ∀ d ∈ c :: cs, role d = r :=
    List.forall_mem_cons.2 ⟨hc, fun d hd => (hrest d hd).1.trans hc⟩
  cases hc : role c with
  | mark =>
    -- Nothing is joined to a mark.
    obtain rfl : cs = [] := List.eq_nil_iff_forall_not_mem.2 fun d hd => (hrest d hd).2 hc
    exact ⟨.mark, .mark (role_eq_mark_iff.1 hc)⟩
  | blank => exact ⟨.blank, .blank hne fun d hd => role_eq_blank_iff.1 (hall _ hc d hd)⟩
  | word => exact ⟨.word, .word hne fun d hd => role_eq_word_iff.1 (hall _ hc d hd)⟩

/-- Groups that may stand side by side are marks and runs, and no run goes on in the next
    group. -/
theorem tiling_iff {gs : List (List Char)} :
    Tiling gs ↔ (∀ g ∈ gs, ∃ r, Consists r g) ∧
      gs.IsChain fun g h => ∀ r, Consists r g → Consists r h → r = .mark := by
  constructor
  · refine fun h => ⟨fun g hg => exists_consists (ne_of_mem_of_not_mem hg h.nonempty)
      (h.joined g hg), h.apart.imp fun g g' hapart r hr hr' => ?_⟩
    obtain ⟨hne, hne', hjoins⟩ := hapart
    by_contra hmark
    rw [joins_of_role (hr.role_eq _ (List.getLast_mem hne)) (hr'.role_eq _ (List.head_mem hne'))
      hmark] at hjoins
    exact absurd hjoins (by decide)
  · rintro ⟨hgs, hchain⟩
    refine ⟨fun hnil => ?_, fun g hg => ?_, hchain.imp_of_mem_imp fun g g' hg hg' hlongest => ?_⟩
    · obtain ⟨r, hr⟩ := hgs [] hnil
      exact hr.ne_nil rfl
    · obtain ⟨r, hr⟩ := hgs g hg
      exact hr.isChain
    · obtain ⟨r, hr⟩ := hgs g hg
      obtain ⟨r', hr'⟩ := hgs g' hg'
      refine ⟨hr.ne_nil, hr'.ne_nil, ?_⟩
      rw [joins, decide_eq_false_iff_not, hr.role_eq _ (List.getLast_mem _),
        hr'.role_eq _ (List.head_mem _)]
      rintro ⟨rfl, hmark⟩
      exact hmark (hlongest r hr hr')

/-! ## The spans of the lexemes -/

variable {source : Source} {front : List Char} {l : Lexeme} {ls rest : List Lexeme}

theorem Follows.exists_of_mem (h : Follows source front ls) (hl : l ∈ ls) :
    ∃ front rest, Follows source front (l :: rest) := by
  obtain ⟨before, rest, rfl⟩ := List.append_of_mem hl
  have hdrop := h.drop before.length
  rw [List.drop_left] at hdrop
  exact ⟨_, rest, hdrop⟩

theorem Follows.stop_eq (h : Follows source front (l :: rest)) :
    l.stop = byteLength (front ++ l.text.toList) := by
  rw [stop, h.start_eq, byteLength_append, byteLength_toList]

end Lexeme

/-- A span covers the characters between the offsets where it begins and ends. -/
theorem Source.slice_append (s : Source) {front mid back : List Char}
    (h : s.text.toList = front ++ (mid ++ back)) :
    s.slice (byteLength front) (byteLength (front ++ mid)) = String.ofList mid := by
  have hdrop : (s.chars.dropWhile fun x => x.1 < byteLength front) =
      Text.withOffsets (byteLength front) (mid ++ back) := by
    rw [s.chars_append h,
      List.dropWhile_append_of_pos (by simpa using Text.withOffsets_lt_byteLength)]
    cases mid ++ back <;> simp
  have htake : ((Text.withOffsets (byteLength front) (mid ++ back)).takeWhile fun x =>
      x.1 < byteLength (front ++ mid)) = Text.withOffsets (byteLength front) mid := by
    have hmid (x : Nat × Char) (hx : x ∈ Text.withOffsets (byteLength front) mid) :
        x.1 < byteLength (front ++ mid) := by
      rw [byteLength_append]
      exact (Text.withOffsets_lt hx).2
    rw [Text.withOffsets_append, List.takeWhile_append_of_pos (by simpa using hmid)]
    cases back <;> simp
  rw [slice, hdrop, htake, Text.map_snd_withOffsets]

/-- If one offset does not stand before another, nor do the characters in front of them. -/
theorem Source.Boundary.exists_append {s : Source} {front rest : List Char} {offset : Nat}
    (h : s.Boundary offset) (hfront : s.text.toList = front ++ rest)
    (hle : byteLength front ≤ offset) :
    ∃ mid back, s.text.toList = front ++ (mid ++ back) ∧ byteLength (front ++ mid) = offset := by
  obtain ⟨front', back, htext, rfl⟩ := h
  rcases List.append_eq_append_iff.1 (hfront.symm.trans htext) with
    ⟨mid, rfl, rfl⟩ | ⟨mid, rfl, rfl⟩
  · exact ⟨mid, back, hfront, rfl⟩
  · -- There is nothing between the two.
    rw [byteLength_append] at hle
    have hmid : byteLength mid = 0 := by omega
    obtain rfl := Text.eq_nil_of_byteLength hmid
    exact ⟨[], rest, by simpa using hfront, by simp⟩

namespace Lexeme

open Source (CutInto)

variable {source : Source} {front : List Char} {l : Lexeme} {ls rest : List Lexeme}

theorem Follows.span_text (h : Follows source front (l :: rest)) :
    (l.span source).text = l.text := by
  have htext := h.text
  rw [texts_cons, List.flatten_cons] at htext
  change source.slice l.start l.stop = l.text
  rw [h.start_eq, h.stop_eq, source.slice_append htext, String.ofList_toList]

theorem Follows.boundaries (h : Follows source front (l :: rest)) :
    source.Boundary l.start ∧ source.Boundary l.stop :=
  ⟨⟨_, _, h.text, h.start_eq.symm⟩, _, _, h.tail.text, h.stop_eq.symm⟩

theorem Follows.start_lt_stop (h : Follows source front (l :: rest)) : l.start < l.stop := by
  obtain ⟨c, cs, hcs⟩ := List.exists_cons_of_ne_nil (l := l.text.toList) fun hnil =>
    h.tiling.nonempty (by simp [texts_cons, hnil])
  have hpos := c.utf8Size_pos
  rw [stop, ← byteLength_toList, hcs, Text.byteLength_cons]
  omega

theorem Follows.lead (h : Follows source front ls) :
    Span.Lead (byteLength front) (ls.map (span source)) source.size := by
  induction ls generalizing front with
  | nil =>
    have htext := h.text
    rw [texts, List.map_nil, List.flatten_nil, List.append_nil] at htext
    rw [List.map_nil, Span.Lead, Source.size, ← byteLength_toList, htext]
  | cons l ls ih =>
    refine ⟨h.start_eq, ?_⟩
    change Span.Lead l.stop _ _
    rw [h.stop_eq]
    exact ih h.tail

theorem map_text_span (source : Source) :
    (source.lexemes.map (span source)).map Span.text = source.lexemes.map Lexeme.text := by
  rw [List.map_map]
  refine List.map_congr_left fun l hl => ?_
  obtain ⟨_, _, hfollows⟩ := (follows_lexemes source).exists_of_mem hl
  exact hfollows.span_text

end Lexeme

open Lexeme

/-- The lexemes cut the source into the longest runs. -/
theorem Source.cutInto_lexemes (s : Source) : s.CutInto (s.lexemes.map (Lexeme.span s)) := by
  have hfollows (l : Lexeme) (hl : l ∈ s.lexemes) := (follows_lexemes s).exists_of_mem hl
  have htext (l : Lexeme) (hl : l ∈ s.lexemes) : (l.span s).text = l.text := by
    obtain ⟨_, _, h⟩ := hfollows l hl
    exact h.span_text
  obtain ⟨hconsists, hchain⟩ := tiling_iff.1 (follows_lexemes s).tiling
  refine ⟨?_, ?_, ?_, (follows_lexemes s).lead, ?_, ?_, ?_⟩
  · exact List.forall_mem_map.2 fun l _ => rfl
  · refine List.forall_mem_map.2 fun l hl => ?_
    obtain ⟨_, _, h⟩ := hfollows l hl
    exact h.start_lt_stop
  · refine List.forall_mem_map.2 fun l hl => ?_
    obtain ⟨_, _, h⟩ := hfollows l hl
    exact h.boundaries
  · rw [map_text_span]
    refine String.toList_injective ?_
    rw [String.toList_join, List.flatMap_def, s.join_text_lexemes]
  · refine List.forall_mem_map.2 fun l hl => ?_
    rw [htext l hl]
    exact hconsists _ (List.mem_map_of_mem hl)
  · rw [texts, List.isChain_map] at hchain
    rw [List.isChain_map]
    refine hchain.imp_of_mem_imp fun l l' hl hl' h => ?_
    rwa [htext l hl, htext l' hl']

/-- Spans that stand one after the other are told by their texts. -/
theorem Source.eq_placed_of_lead {s : Source} {front rest : List Char} {spans : List Span}
    (hfront : s.text.toList = front ++ rest) (hlocated : ∀ p ∈ spans, p.source? = some s)
    (hboundaries : ∀ p ∈ spans, s.Boundary p.stop)
    (hlead : Span.Lead (byteLength front) spans s.size) :
    rest = (spans.map fun p => p.text.toList).flatten ∧
      spans = (placed (byteLength front) (spans.map fun p => p.text.toList)).map
        (Lexeme.span s) := by
  induction spans generalizing front rest with
  | nil =>
    have hsize : byteLength front = s.size := hlead
    rw [size, ← byteLength_toList, hfront, byteLength_append] at hsize
    exact ⟨Text.eq_nil_of_byteLength (by omega), rfl⟩
  | cons p spans ih =>
    rw [List.forall_mem_cons] at hlocated hboundaries
    obtain ⟨hstart, hlead⟩ := hlead
    rcases p with _ | ⟨source, start, stop, ordered⟩
    · exact absurd hlocated.1 (by simp [Span.source?])
    obtain rfl : source = s := Option.some.inj hlocated.1
    obtain rfl : start = byteLength front := hstart
    obtain ⟨mid, back, htext, rfl⟩ := hboundaries.1.exists_append hfront ordered
    obtain rfl : rest = mid ++ back := List.append_cancel_left (hfront.symm.trans htext)
    have hmid : (Span.located source (byteLength front) (byteLength (front ++ mid))
        ordered).text.toList = mid := by
      rw [Span.text, source.slice_append htext, String.toList_ofList]
    rw [← List.append_assoc] at htext
    obtain ⟨hback, hspans⟩ := ih htext hlocated.2 hboundaries.2 hlead
    rw [List.map_cons, hmid, List.flatten_cons, ← hback, placed, List.map_cons,
      ← byteLength_append, ← hspans]
    refine ⟨rfl, ?_⟩
    simp [Lexeme.span, Lexeme.stop, Text.utf8ByteSize_ofList, byteLength_append]

/-- The lexemes of a source cut it into marks and into the longest runs of white space and
    of other characters, and nothing else does. -/
theorem Source.cutInto_iff (s : Source) (spans : List Span) :
    s.CutInto spans ↔ spans = s.lexemes.map (Lexeme.span s) := by
  refine ⟨fun h => ?_, fun h => h ▸ s.cutInto_lexemes⟩
  have hfront : s.text.toList = [] ++ s.text.toList := rfl
  obtain ⟨htext, hspans⟩ := eq_placed_of_lead hfront h.located
    (fun p hp => (h.boundaries p hp).2) h.lead
  have htiling : Tiling (spans.map fun p => p.text.toList) :=
    tiling_iff.2 ⟨List.forall_mem_map.2 h.consists, (List.isChain_map _).2 h.longest⟩
  rw [lexemes, htext, htiling.groups_flatten]
  exact hspans

end Kode
