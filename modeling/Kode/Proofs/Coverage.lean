import Kode.Proofs.Concatenation
import Kode.Proofs.LongestRuns
import Mathlib.Data.List.Pairwise

/-!
# What the tokens cover

Putting lexemes together to tokens loses nothing and uses nothing twice. A token
covers some lexemes that stand side by side, and all of each; the tokens stand one
after the other; and what they leave over is white space (`Source.Covered`). For a
token takes in no more lexemes than there are (`Lexeme.bounded`), and the next one
begins with what it leaves.

If no token begins somewhere, the text in front of that place is fine
(`Source.Halts`): each token in front of it is read from its own lexemes alone, so it
is read from the shorter text as well (`Lexeme.Reads.of_append`).

* `Lexeme.Follows.exists_mem_of_isBlank`: a lexeme that is not blank lies in a token;
* `Lexeme.Follows.exists_front_of_error`: what can be read in front of an error;
* `Source.tokens_cover`: every source is covered by its tokens, or halts somewhere.
-/

namespace Kode

open Text (byteLength byteLength_append byteLength_toList withOffsets withOffsets_append)

/-- Whatever the lexeme `l` begins, it takes in no more lexemes than there are. -/
structure Lexeme.Bounded (l : Lexeme) (rest : List Lexeme) : Prop where
  literal : ∀ n, Lexeme.literalExtent l rest = .further n → n ≤ rest.length
  operator : ∀ op n, Lexeme.operator? l rest = some (op, n) → n ≤ rest.length

/-- The tokens cover all of the source that is not white space, every part of it once. -/
structure Source.Covered (s : Source) (ts : List Token) : Prop where
  /-- A token covers lexemes that stand side by side. -/
  runs : ∀ t ∈ ts, ∃ run, run <:+: s.lexemes.map (Lexeme.span s) ∧ run ≠ [] ∧
    t.span = Span.mergeAll run
  texts : ∀ t ∈ ts, t.text = t.span.text
  nonempty : ∀ t ∈ ts, t.span.start < t.span.stop
  ordered : ts.Pairwise fun t u => t.span.stop ≤ u.span.start
  /-- A lexeme that is not white space lies in one token. -/
  belongs : ∀ l ∈ s.lexemes, l.isBlank = false → ∃! t, t ∈ ts ∧ (l.span s).Within t.span
  /-- A character in no token is white space. -/
  outside : ∀ x ∈ s.chars, (∀ t ∈ ts, ¬ (t.span.start ≤ x.1 ∧ x.1 < t.span.stop)) →
    Text.isBlank x.2 = true

/-- The error is at a lexeme that is not white space, and the text in front of it has
    tokens of its own. -/
def Source.Halts (s : Source) (e : ParseError) : Prop :=
  ∃ l ∈ s.lexemes, l.isBlank = false ∧ e.span.source? = some s ∧ e.span.start = l.start ∧
    ∃ front back, s.text.toList = front ++ back ∧ byteLength front = l.start ∧
      ∀ s' : Source, s'.text = String.ofList front → ∃ ts, s'.tokens = .ok ts

namespace Lexeme

variable {source : Source} {front : List Char} {l : Lexeme} {ls rest mid tail : List Lexeme}
  {kind : TokenKind} {n : Nat} {ts : List Token}

/-- What a lexeme takes in is there. -/
theorem bounded (l : Lexeme) (rest : List Lexeme) : Bounded l rest where
  literal _ h := (literal_of_literalExtent h).1
  operator op n h := by
    rcases operator?_cases h with ⟨rfl, _, _, _, rfl, -⟩ | ⟨rfl, -⟩
    · exact Nat.le_add_left 2 _
    · exact Nat.zero_le _

/-! ## Lexemes side by side -/

theorem take_placed (start : Nat) (gs : List (List Char)) (n : Nat) :
    (placed start gs).take n = placed start (gs.take n) := by
  induction gs generalizing start n with
  | nil => simp [placed]
  | cons g gs ih =>
    cases n with
    | zero => rfl
    | succ n => rw [placed, List.take_succ_cons, ih, List.take_succ_cons, placed]

theorem Follows.take_eq (h : Follows source front ls) (n : Nat) :
    ls.take n = Lexeme.placed (byteLength front) (texts (ls.take n)) := by
  conv_lhs => rw [h.placed, take_placed]
  exact congrArg _ List.map_take.symm

theorem mem_placed {start : Nat} {gs : List (List Char)} (hl : l ∈ placed start gs) :
    start ≤ l.start ∧ l.stop ≤ start + byteLength gs.flatten := by
  induction gs generalizing start with
  | nil => simp [placed] at hl
  | cons g gs ih =>
    rw [List.flatten_cons, byteLength_append]
    rcases List.mem_cons.1 hl with rfl | hl
    · rw [stop, Text.utf8ByteSize_ofList, ← Nat.add_assoc]
      exact ⟨Nat.le_refl _, Nat.le_add_right _ _⟩
    · have := ih hl
      omega

/-- The span of lexemes side by side reaches from the first one to the last one. -/
theorem mergeAll_placed (source : Source) (start : Nat) {gs : List (List Char)} (hne : gs ≠ []) :
    Span.mergeAll ((placed start gs).map (span source)) =
      .located source start (start + byteLength gs.flatten) (Nat.le_add_right _ _) := by
  induction gs generalizing start with
  | nil => exact absurd rfl hne
  | cons g gs ih =>
    have hg : (Lexeme.mk start (String.ofList g)).stop = start + byteLength g := by
      rw [stop, Text.utf8ByteSize_ofList]
    rw [placed, List.map_cons, Span.mergeAll_cons]
    by_cases hgs : gs = []
    · subst hgs
      simp [placed, span, hg]
    · rw [ih _ hgs]
      simp only [span, Span.merge, hg, List.flatten_cons, byteLength_append, Span.located.injEq,
        true_and]
      omega

theorem Follows.cover_eq (h : Follows source front (l :: rest)) (n : Nat) :
    cover source l (rest.take n) = Span.mergeAll ((l :: rest.take n).map (span source)) := by
  have htake := h.take_eq (n + 1)
  rw [List.take_succ_cons] at htake
  have hne : texts (l :: rest.take n) ≠ [] := List.cons_ne_nil _ _
  conv_rhs => rw [htake, mergeAll_placed source _ hne]
  simp only [cover, ← byteLength_toList, toList_join, h.start_eq]

/-- A lexeme lies in what is covered together with it. -/
theorem Follows.within_cover (h : Follows source front (l :: rest)) (n : Nat) {m : Lexeme}
    (hm : m ∈ l :: rest.take n) : (m.span source).Within (cover source l (rest.take n)) := by
  have htake := h.take_eq (n + 1)
  rw [List.take_succ_cons] at htake
  have hne : texts (l :: rest.take n) ≠ [] := List.cons_ne_nil _ _
  have hbounds := mem_placed (htake ▸ hm)
  rw [h.cover_eq, htake, mergeAll_placed source _ hne]
  exact ⟨rfl, hbounds.1, hbounds.2⟩

theorem Follows.text_cover (h : Follows source front (l :: rest)) (n : Nat) :
    (cover source l (rest.take n)).text = join (l :: rest.take n) := by
  have htext : source.text.toList =
      front ++ ((join (l :: rest.take n)).toList ++ (texts (rest.drop n)).flatten) := by
    rw [h.text, toList_join, ← List.flatten_append, ← texts_append, List.cons_append,
      List.take_append_drop]
  change source.slice l.start (l.start + _) = _
  rw [h.start_eq, ← byteLength_toList, ← byteLength_append, source.slice_append htext,
    String.ofList_toList]

/-! ## The lexemes of the tokens -/

/-- A token covers lexemes that stand side by side, and has their text. -/
theorem Follows.exists_run (h : Follows source front ls) (hts : Tokenizes source ls ts) :
    ∀ t ∈ ts, t.text = t.span.text ∧
      ∃ run, run <:+: ls.map (span source) ∧ run ≠ [] ∧ t.span = Span.mergeAll run := by
  induction hts generalizing front with
  | nil => simp
  | gap _ _ ih =>
    intro t ht
    obtain ⟨htext, run, hrun, hne⟩ := ih h.tail t ht
    exact ⟨htext, run, hrun.trans (List.suffix_cons _ _).isInfix, hne⟩
  | @token l rest _ n _ _ _ ih =>
    refine List.forall_mem_cons.2 ⟨⟨(h.text_cover n).symm, (l :: rest.take n).map (span source),
      ?_, List.cons_ne_nil _ _, h.cover_eq n⟩, fun t ht => ?_⟩
    · exact ((List.take_prefix (n + 1) (l :: rest)).map _).isInfix
    · obtain ⟨htext, run, hrun, hne⟩ := ih (h.tail.drop n) t ht
      exact ⟨htext, run, hrun.trans ((List.drop_suffix (n + 1) (l :: rest)).map _).isInfix, hne⟩

/-- A lexeme that is not blank lies in one of the tokens. -/
theorem Follows.exists_mem_of_isBlank (h : Follows source front ls)
    (hts : Tokenizes source ls ts) :
    ∀ m ∈ ls, m.isBlank = false → ∃ t ∈ ts, (m.span source).Within t.span := by
  induction hts generalizing front with
  | nil => simp
  | @gap l _ _ hb _ ih =>
    refine List.forall_mem_cons.2 ⟨fun hl => ?_, ih h.tail⟩
    rw [hb] at hl
    exact absurd hl (by decide)
  | @token l rest _ n _ _ _ ih =>
    intro m hm hmb
    have hsplit : l :: rest = (l :: rest.take n) ++ rest.drop n := by
      rw [List.cons_append, List.take_append_drop]
    rw [hsplit] at hm
    rcases List.mem_append.1 hm with hm | hm
    · exact ⟨_, List.mem_cons_self, h.within_cover n hm⟩
    · obtain ⟨t, ht, hwithin⟩ := ih (h.tail.drop n) m hm hmb
      exact ⟨t, List.mem_cons_of_mem _ ht, hwithin⟩

/-- Every character stands in a lexeme. -/
theorem Follows.exists_mem_of_offset (h : Follows source front ls) {x : Nat × Char}
    (hx : x ∈ withOffsets (byteLength front) (texts ls).flatten) :
    ∃ l ∈ ls, l.start ≤ x.1 ∧ x.1 < l.stop ∧ x.2 ∈ l.text.toList := by
  induction ls generalizing front with
  | nil => simp [texts] at hx
  | cons l ls ih =>
    rw [texts_cons, List.flatten_cons, withOffsets_append, List.mem_append] at hx
    rcases hx with hx | hx
    · have hbounds := Text.withOffsets_lt hx
      refine ⟨l, List.mem_cons_self, ?_, ?_, ?_⟩
      · rw [h.start_eq]
        exact hbounds.1
      · rw [h.stop_eq, byteLength_append]
        exact hbounds.2
      · rw [← Text.map_snd_withOffsets (byteLength front) l.text.toList]
        exact List.mem_map_of_mem hx
    · rw [← byteLength_append] at hx
      obtain ⟨m, hm, hbounds⟩ := ih h.tail hx
      exact ⟨m, List.mem_cons_of_mem _ hm, hbounds⟩

theorem isBlank_eq_false_of_mem {c : Char} (hc : c ∈ l.text.toList)
    (hb : Text.isBlank c = false) : l.isBlank = false := by
  by_contra hl
  have hall := List.all_eq_true.1 (by simpa using hl : l.isBlank = true)
  rw [hall c hc] at hb
  exact absurd hb (by decide)

/-! ## In front of an error -/

theorem fractionLength_of_append (h : fractionLength (mid ++ tail) ≤ mid.length) :
    fractionLength mid = fractionLength (mid ++ tail) := by
  match mid, h with
  | _ :: _ :: _, _ => rfl
  | [], h => exact (Nat.le_zero.1 h).symm
  | [_], h =>
    -- A fraction has two lexemes.
    cases tail with
    | nil => rfl
    | cons digits more =>
      simp only [List.singleton_append, fractionLength] at h ⊢
      split at h
      · exact absurd h (by simp)
      · rename_i hnone
        rw [if_neg hnone]

/-- A literal is found without the lexemes behind it. -/
theorem literalExtent_of_append (h : literalExtent l (mid ++ tail) = .further n)
    (hn : n ≤ mid.length) : literalExtent l mid = .further n := by
  unfold literalExtent at h ⊢
  split at h
  · rename_i hq
    rw [if_pos hq]
    rw [List.findIdx?_append] at h
    cases hmid : mid.findIdx? fun r => r.text = l.text with
    | some i => simpa [hmid] using h
    | none =>
      -- The quote behind would lie too far away.
      rw [hmid, Option.none_or] at h
      cases hfar : tail.findIdx? fun r => r.text = l.text with
      | none => simp [hfar] at h
      | some i =>
        simp only [hfar, Option.map_some, Extent.further.injEq] at h
        omega
  · rename_i hq
    rw [if_neg hq]
    split at h
    · rename_i hd
      obtain rfl := Extent.further.inj h
      rw [if_pos hd, fractionLength_of_append hn]
    · rename_i hd
      rw [if_neg hd]
      split at h
      · rename_i hm
        rw [if_pos hm]
        cases mid with
        | nil =>
          obtain rfl := Nat.le_zero.1 hn
          cases tail with
          | nil => exact absurd h (by simp)
          | cons digits more =>
            simp only [List.nil_append] at h
            split at h
            · have := Extent.further.inj h
              omega
            · exact absurd h (by simp)
        | cons digits more =>
          simp only [List.cons_append] at h ⊢
          split at h
          · rename_i hdigits
            have hlen := Extent.further.inj h
            rw [if_pos hdigits, fractionLength_of_append, hlen]
            rw [List.length_cons] at hn
            omega
          · exact absurd h (by simp)
      · rename_i hm
        rwa [if_neg hm]

theorem literalExtent_absent_of_append (h : literalExtent l (mid ++ tail) = .absent) :
    literalExtent l mid = .absent := by
  cases mid with
  | nil => exact literalExtent_of_absent h calm_nil
  | cons digits more =>
    unfold literalExtent at h ⊢
    split at h
    · split at h <;> exact absurd h (by simp)
    · rename_i hq
      rw [if_neg hq]
      split at h
      · exact absurd h (by simp)
      · rename_i hd
        rw [if_neg hd]
        simp only [List.cons_append] at h ⊢
        split at h
        · rename_i hm
          rw [if_pos hm]
          split at h
          · exact absurd h (by simp)
          · rename_i hdigits
            rw [if_neg hdigits]
        · rename_i hm
          rwa [if_neg hm]

/-- The second word of an operator is only looked for in the lexemes that it takes in. -/
theorem operator?_of_append {op : Operator} (h : operator? l (mid ++ tail) = some (op, n))
    (hn : n ≤ mid.length) : operator? l mid = some (op, n) := by
  match mid, hn with
  | _ :: _ :: _, _ => exact h
  | [], hn | [_], hn =>
    rcases operator?_cases h with ⟨rfl, -⟩ | ⟨rfl, hop⟩
    · exact absurd hn (by simp)
    · simp [operator?, hop]

theorem operator?_eq_none_of_append (h : operator? l (mid ++ tail) = none) :
    operator? l mid = none := by
  match mid with
  | _ :: _ :: _ => exact h
  | [] | [_] => simp [operator?, (operator?_eq_none h).2]

/-- A token is read from a text that ends somewhere behind it. -/
theorem Reads.of_append (h : Reads l (mid ++ tail) kind n) (hn : n ≤ mid.length) :
    Reads l mid kind n := by
  cases h with
  | literal h hv =>
    rw [List.take_append_of_le_length hn] at hv
    exact .literal (literalExtent_of_append h hn) hv
  | punctuation h hm => exact .punctuation (literalExtent_absent_of_append h) hm
  | operator h hm ho =>
    exact .operator (literalExtent_absent_of_append h) hm (operator?_of_append ho hn)
  | keyword h hm ho hk =>
    exact .keyword (literalExtent_absent_of_append h) hm (operator?_eq_none_of_append ho) hk
  | identifier h hm ho hk hname =>
    exact .identifier (literalExtent_absent_of_append h) hm (operator?_eq_none_of_append ho) hk
      hname

/-- The lexemes in front of an error have tokens of their own. -/
theorem exists_front_of_error {e : ParseError} (h : tokens source ls = .error e) :
    ∃ before l after n ts, ls = before ++ l :: after ∧ l.isBlank = false ∧
      e.span = cover source l (after.take n) ∧ Tokenizes source before ts := by
  fun_induction tokens source ls with
  | case1 => exact absurd h (by simp)
  | case2 l rest hb ih =>
    obtain ⟨before, l', after, n, ts, rfl, hl', hspan, hts⟩ := ih h
    exact ⟨l :: before, l', after, n, ts, rfl, hl', hspan, .gap hb hts⟩
  | case3 l rest hb e' hr =>
    obtain rfl := Except.error.inj h
    obtain ⟨n, hspan⟩ := recognise_error hr
    exact ⟨[], l, rest, n, [], rfl, by simpa using hb, hspan, .nil⟩
  | case4 l rest hb t m hr ih =>
    cases hrest : tokens source (rest.drop m) with
    | ok us => simp [hrest, Except.map] at h
    | error e' =>
      rw [hrest] at h
      obtain rfl := Except.error.inj h
      obtain ⟨before, l', after, n, ts, hdrop, hl', hspan, hts⟩ := ih hrest
      obtain ⟨kind, hreads, rfl⟩ := recognise_eq_ok_iff.1 hr
      have hm := hreads.take.1
      have hsplit : rest = (rest.take m ++ before) ++ l' :: after := by
        rw [List.append_assoc, ← hdrop, List.take_append_drop]
      have hlen : m ≤ (rest.take m ++ before).length := by
        rw [List.length_append, List.length_take_of_le hm]
        exact Nat.le_add_right _ _
      refine ⟨l :: (rest.take m ++ before), l', after, n,
        token source kind l ((rest.take m ++ before).take m) :: ts, ?_, hl', hspan, ?_⟩
      · rw [List.cons_append, ← hsplit]
      · refine .token ((hsplit ▸ hreads).of_append hlen) ?_
        rwa [List.drop_append_of_le_length (by rw [List.length_take_of_le hm]),
          List.drop_eq_nil_of_le (by rw [List.length_take_of_le hm]), List.nil_append]

/-- Lexemes that a source begins with are those of a source with their text. -/
theorem Follows.tokens_of_front {source' : Source} (h : Follows source [] (ls ++ rest))
    (hts : Tokenizes source ls ts) (htext : source'.text.toList = (texts ls).flatten) :
    ∃ us, source'.tokens = .ok us := by
  have htiling : Tiling (texts ls) :=
    h.tiling.mono ((List.prefix_append ls rest).map _).isInfix
  have htake := h.take_eq ls.length
  rw [List.take_left] at htake
  have hlexemes : source'.lexemes = ls.map (shift 0) := by
    rw [Source.lexemes, htext, htiling.groups_flatten, htake, ← placed_add, texts_placed]
    rfl
  refine ⟨ts.map (Token.relocate (.shift source' 0)), tokens_eq_ok_iff.2 ?_⟩
  rw [hlexemes]
  exact hts.shift source' 0

end Lexeme

open Lexeme

namespace Source

variable {s : Source}

theorem covered_of_tokens {ts : List Token} (h : s.tokens = .ok ts) : s.Covered ts := by
  have hfollows := follows_lexemes s
  have htokenizes := tokens_eq_ok_iff.1 h
  have hmarks := s.marks_of_tokens h
  have hordered := s.pairwise_of_tokens h
  have hruns := hfollows.exists_run htokenizes
  have hbelongs := hfollows.exists_mem_of_isBlank htokenizes
  refine ⟨fun t ht => (hruns t ht).2, fun t ht => (hruns t ht).1,
    fun t ht => (hmarks t ht).start_lt_stop, hordered, fun l hl hb => ?_, fun x hx hout => ?_⟩
  · obtain ⟨t, ht, hwithin⟩ := hbelongs l hl hb
    refine ⟨t, ⟨ht, hwithin⟩, fun u ⟨hu, hwithin'⟩ => ?_⟩
    -- Two tokens with the lexeme in both would not stand one after the other.
    obtain ⟨_, _, hl⟩ := hfollows.exists_of_mem hl
    have hlt : (l.span s).start < (l.span s).stop := hl.start_lt_stop
    have hapart : ts.Pairwise fun t u =>
        ¬ ((l.span s).Within t.span ∧ (l.span s).Within u.span) :=
      hordered.imp fun hle ⟨hin, hin'⟩ => by
        have hstop := hin.stop_le
        have hstart := hin'.start_le
        omega
    have hsymm : Std.Symm fun t u : Token =>
        ¬ ((l.span s).Within t.span ∧ (l.span s).Within u.span) :=
      ⟨fun _ _ h h' => h h'.symm⟩
    by_contra hne
    exact hapart.forall hu ht hne ⟨hwithin', hwithin⟩
  · by_contra hb
    have hx' : x ∈ withOffsets (byteLength []) (texts s.lexemes).flatten := by
      rwa [texts_lexemes, flatten_groups]
    obtain ⟨l, hl, hstart, hstop, hmem⟩ := hfollows.exists_mem_of_offset hx'
    obtain ⟨t, ht, hwithin⟩ := hbelongs l hl (isBlank_eq_false_of_mem hmem (by simpa using hb))
    exact hout t ht ⟨Nat.le_trans hwithin.start_le hstart, Nat.lt_of_lt_of_le hstop hwithin.stop_le⟩

theorem halts_of_tokens_error {e : ParseError} (h : s.tokens = .error e) : s.Halts e := by
  have hfollows := follows_lexemes s
  obtain ⟨before, l, after, n, ts, hls, hl, hspan, hts⟩ := exists_front_of_error h
  rw [hls] at hfollows
  have hl' := hfollows.drop before.length
  rw [List.drop_left, List.take_left, List.nil_append] at hl'
  refine ⟨l, by simp [hls], hl, ?_, ?_, (texts before).flatten, _, hl'.text, hl'.start_eq.symm,
    fun s' hs' => ?_⟩
  · rw [hspan]
    rfl
  · rw [hspan]
    rfl
  · exact hfollows.tokens_of_front hts (by rw [hs', String.toList_ofList])

/-- Every source is covered by its tokens, or else has an error behind a text that has
    tokens; and no lexeme takes in more of them than there are. -/
theorem tokens_cover (s : Source) :
    (∀ l rest, l :: rest <:+ s.lexemes → Bounded l rest) ∧
      match s.tokens with
      | .ok ts => s.Covered ts
      | .error e => s.Halts e := by
  refine ⟨fun l rest _ => bounded l rest, ?_⟩
  split
  · rename_i ts h
    exact covered_of_tokens h
  · rename_i e h
    exact halts_of_tokens_error h

end Source

end Kode
