import Kode.Proofs.Relocation
import Kode.Proofs.Spelling
import Mathlib.Data.List.DropRight

/-!
# Texts one after the other

Where one text ends and another begins, tokens could run together: digits and a
fraction, a minus and digits, or a name and a word behind it that make up an
operator. A gap between the texts prevents all of this but the last
(`Lexeme.Reads.exchange`). A quoted text that has an end reaches no further than
that, whatever comes behind it.

* `Lexeme.Tokenizes.exchange`: behind a gap anything else may stand, if the last
  token in front of it is not a name;
* `Lexeme.Tokenizes.shift`: the same lexemes in another place make up the same
  tokens in another place;
* `Source.tokens_append`: so the tokens of two texts with a line break between
  them are those of the first and, further down, those of the second.
-/

namespace Kode

open Text (byteLength byteLength_append byteLength_toList)

/-- What holds of the last element holds of the last one of what is at the end. -/
theorem forall_getLast?_of_suffix {α : Type} {p : α → Prop} {xs ys : List α} (hs : xs <:+ ys)
    (h : ∀ y ∈ ys.getLast?, p y) : ∀ x ∈ xs.getLast?, p x := by
  obtain ⟨front, rfl⟩ := hs
  exact fun x hx => h x (List.mem_getLast?_append_of_mem_getLast? hx)

namespace Lexeme

/-! ## Something else behind a gap -/

theorem Detached.fractionLength_append {mid tail : List Lexeme} (h : Detached tail) :
    fractionLength (mid ++ tail) = fractionLength mid := by
  match mid with
  | [] => exact h.calm.fractionLength_eq
  | [point] =>
    cases tail with
    | nil => rfl
    | cons digits more => simp [fractionLength, (h digits rfl).1]
  | _ :: _ :: _ => rfl

/-- Only a quote looks for something in the distance. -/
theorem Detached.literalExtent_append {l : Lexeme} {mid tail : List Lexeme} (h : Detached tail)
    (hl : l.isQuote = false) : literalExtent l (mid ++ tail) = literalExtent l mid := by
  unfold literalExtent
  rw [hl, if_neg Bool.false_ne_true, if_neg Bool.false_ne_true, h.fractionLength_append]
  cases mid with
  | nil =>
    -- A minus alone is no sign.
    cases tail with
    | nil => rfl
    | cons r tail => simp [(h r rfl).1]
  | cons r mid => simp [h.fractionLength_append]

theorem literalExtent_of_reads {l : Lexeme} {rest : List Lexeme} {kind : TokenKind} {n : Nat}
    (h : Reads l rest kind n) :
    literalExtent l rest = .absent ∨ literalExtent l rest = .further n := by
  cases h with
  | literal h => exact .inr h
  | punctuation h | operator h | keyword h | identifier h => exact .inl h

/-- A quoted text that ends in front of a gap ends there whatever stands behind. -/
theorem literalExtent_exchange {l : Lexeme} {mid gap tail : List Lexeme} {n : Nat}
    (h : literalExtent l (mid ++ gap) = .absent ∨ literalExtent l (mid ++ gap) = .further n)
    (hn : n ≤ mid.length) (hgap : Detached gap) (htail : Detached tail) :
    literalExtent l (mid ++ tail) = literalExtent l (mid ++ gap) := by
  cases hl : l.isQuote with
  | false => rw [htail.literalExtent_append hl, hgap.literalExtent_append hl]
  | true =>
    unfold literalExtent at h ⊢
    rw [if_pos hl, List.findIdx?_append] at h ⊢
    rw [if_pos hl, List.findIdx?_append]
    cases hmid : mid.findIdx? fun r => r.text = l.text with
    | some i => rfl
    | none =>
      rw [hmid, Option.none_or] at h
      cases hfar : gap.findIdx? fun r => r.text = l.text with
      | none => simp [hfar] at h
      | some i =>
        simp only [hfar, Option.map_some, Extent.further.injEq, reduceCtorEq, false_or] at h
        omega

/-- An operator does not reach over a lexeme that is not blank. -/
theorem operator?_append {l : Lexeme} {mid tail : List Lexeme} (hne : mid ≠ [])
    (hmid : ∀ m ∈ mid.getLast?, m.isBlank = false) :
    operator? l (mid ++ tail) = operator? l mid := by
  match mid with
  | [] => exact absurd rfl hne
  | [m] =>
    cases tail with
    | nil => rfl
    | cons second more => simp [operator?, hmid m rfl]
  | _ :: _ :: _ => rfl

/-- Behind a gap anything else may stand that begins with a gap, unless the token
    is a name directly in front of it. -/
theorem Reads.exchange {l : Lexeme} {mid gap tail : List Lexeme} {kind : TokenKind} {n : Nat}
    (h : Reads l (mid ++ gap) kind n) (hn : n ≤ mid.length)
    (hmid : ∀ m ∈ mid.getLast?, m.isBlank = false) (hgap : Detached gap) (htail : Detached tail)
    (hkind : mid = [] → kind ≠ .identifier) : Reads l (mid ++ tail) kind n := by
  by_cases hne : mid = []
  · subst hne
    obtain rfl := Nat.le_zero.1 hn
    have halone : Reads l [] kind 0 := h.take.2
    exact (halone.append htail.calm).resolve_right fun hphrase => hkind rfl hphrase.1
  · refine h.of_eq rfl (literalExtent_exchange (literalExtent_of_reads h) hn hgap htail) ?_ ?_
    · rw [operator?_append hne hmid, operator?_append hne hmid]
    · rw [List.take_append_of_le_length hn, List.take_append_of_le_length hn]

/-- A token does not end in a gap. -/
theorem Reads.le_length {l : Lexeme} {mid gap : List Lexeme} {kind : TokenKind} {n : Nat}
    (h : Reads l (mid ++ gap) kind n) (hgap : ∀ g ∈ gap, g.isBlank = true) : n ≤ mid.length := by
  by_contra hlt
  have hle := h.take.1
  rw [List.length_append] at hle
  have htaken : gap.take (n - mid.length) ≠ [] := by
    intro hnil
    have hlength := congrArg List.length hnil
    rw [List.length_take, List.length_nil] at hlength
    omega
  have hsuffix : gap.take (n - mid.length) <:+ l :: (mid ++ gap).take n := by
    rw [List.take_append]
    exact (List.suffix_append _ _).trans (List.suffix_cons _ _)
  have hsolid := forall_getLast?_of_suffix hsuffix h.solid.2 _ (List.getLast_mem_getLast? htaken)
  have hblank := hgap _ (List.take_subset _ _ (List.getLast_mem htaken))
  exact absurd hblank (by simp [isBlank_of_isSolid hsolid])

namespace Tokenizes

variable {source : Source} {ls gap tail : List Lexeme} {ts us : List Token}

/-- A gap has no tokens. -/
theorem eq_nil (h : Tokenizes source gap ts) (hgap : ∀ g ∈ gap, g.isBlank = true) : ts = [] := by
  induction h with
  | nil => rfl
  | gap _ _ ih => exact ih (List.forall_mem_cons.1 hgap).2
  | token hreads => exact absurd (hgap _ List.mem_cons_self) (by simp [hreads.isBlank_eq_false])

theorem append_iff (hgap : ∀ g ∈ gap, g.isBlank = true) :
    Tokenizes source (gap ++ ls) ts ↔ Tokenizes source ls ts := by
  rw [← tokens_eq_ok_iff, tokens_append_of_isBlank hgap, tokens_eq_ok_iff]

/-- What stands behind a gap makes no difference to the tokens in front of it, if
    the last one is not a name. -/
theorem exchange (h : Tokenizes source (ls ++ gap) ts) (hgap : ∀ g ∈ gap, g.isBlank = true)
    (hls : ∀ l ∈ ls.getLast?, l.isBlank = false) (hts : ∀ t ∈ ts.getLast?, t.isIdentifier = false)
    (hdetached : Detached gap) (htail : Detached tail) (hus : Tokenizes source tail us) :
    Tokenizes source (ls ++ tail) (ts ++ us) := by
  -- On the lexemes in front of the gap: a token leaves less of them, and the same gap.
  generalize hall : ls ++ gap = all at h
  induction h generalizing ls with
  | nil =>
    obtain ⟨rfl, rfl⟩ := List.append_eq_nil_iff.1 hall
    exact hus
  | @gap l rest ts hb h ih =>
    cases ls with
    | nil =>
      obtain rfl : gap = l :: rest := hall
      obtain rfl := h.eq_nil (List.forall_mem_cons.1 hgap).2
      exact hus
    | cons l ls =>
      rw [List.cons_append] at hall
      obtain ⟨rfl, rfl⟩ := List.cons.inj hall
      exact .gap hb (ih (forall_getLast?_of_suffix (List.suffix_cons l ls) hls) hts rfl)
  | @token l rest kind n ts hreads h ih =>
    cases ls with
    | nil =>
      obtain rfl : gap = l :: rest := hall
      exact absurd (hgap l List.mem_cons_self) (by simp [hreads.isBlank_eq_false])
    | cons l ls =>
      rw [List.cons_append] at hall
      obtain ⟨rfl, rfl⟩ := List.cons.inj hall
      have hn := hreads.le_length hgap
      have hls := forall_getLast?_of_suffix (List.suffix_cons l ls) hls
      rw [List.drop_append_of_le_length hn] at h ih
      have hexchanged : Reads l (ls ++ tail) kind n := by
        refine hreads.exchange hn hls hdetached htail ?_
        rintro rfl rfl
        -- The name would be the last token.
        rw [List.drop_nil, List.nil_append] at h
        obtain rfl := h.eq_nil hgap
        exact absurd (hts _ rfl) (by simp [Token.isIdentifier, Lexeme.token])
      have hrest := ih (forall_getLast?_of_suffix (List.drop_suffix n ls) hls)
        (forall_getLast?_of_suffix (List.suffix_cons _ ts) hts) rfl
      rw [← List.drop_append_of_le_length hn] at hrest
      have htake : (ls ++ gap).take n = (ls ++ tail).take n := by
        rw [List.take_append_of_le_length hn, List.take_append_of_le_length hn]
      rw [htake]
      exact .token hexchanged hrest

end Tokenizes

/-! ## The same lexemes further down -/

/-- The lexeme `k` bytes further down. -/
def shift (k : Nat) (l : Lexeme) : Lexeme :=
  ⟨k + l.start, l.text⟩

theorem placed_add (k start : Nat) (gs : List (List Char)) :
    placed (k + start) gs = (placed start gs).map (shift k) := by
  induction gs generalizing start with
  | nil => rfl
  | cons g gs ih =>
    rw [placed, Nat.add_assoc, ih]
    rfl

theorem placed_append (start : Nat) (gs hs : List (List Char)) :
    placed start (gs ++ hs) = placed start gs ++ placed (start + byteLength gs.flatten) hs := by
  induction gs generalizing start with
  | nil => rfl
  | cons g gs ih =>
    rw [List.cons_append, placed, ih, placed, List.flatten_cons, byteLength_append, Nat.add_assoc,
      List.cons_append]

theorem texts_placed (start : Nat) (gs : List (List Char)) : texts (placed start gs) = gs := by
  have hmap : texts (placed start gs) = ((placed start gs).map Lexeme.text).map String.toList := by
    rw [List.map_map]
    rfl
  rw [hmap, map_text_placed, List.map_map]
  simp [Function.comp_def]

theorem join_shift (k : Nat) (ls : List Lexeme) : join (ls.map (shift k)) = join ls := by
  rw [join, List.map_map]
  rfl

/-- A token of lexemes further down is the token further down. -/
theorem token_shift (source source' : Source) (k : Nat) (kind : TokenKind) (l : Lexeme)
    (taken : List Lexeme) :
    token source' kind (l.shift k) (taken.map (shift k)) =
      (token source kind l taken).relocate (.shift source' k) := by
  have hjoin := join_shift k (l :: taken)
  rw [List.map_cons] at hjoin
  simp only [token, cover, hjoin, Token.relocate, Relocation.shift, Token.mk.injEq, true_and,
    Span.located.injEq]
  exact ⟨rfl, Nat.add_assoc _ _ _⟩

theorem Tokenizes.shift {source : Source} {ls : List Lexeme} {ts : List Token}
    (h : Tokenizes source ls ts) (source' : Source) (k : Nat) :
    Tokenizes source' (ls.map (Lexeme.shift k)) (ts.map (Token.relocate (.shift source' k))) := by
  induction h with
  | nil => exact .nil
  | gap hb _ ih => exact .gap hb ih
  | @token l rest kind n ts hreads _ ih =>
    have hshifted : Reads (l.shift k) (rest.map (Lexeme.shift k)) kind n :=
      hreads.congr rfl (by rw [List.map_map]; rfl)
    rw [List.map_drop] at ih
    have htoken : Tokenizes source' (l.shift k :: rest.map (Lexeme.shift k)) _ :=
      .token hshifted ih
    rwa [← List.map_take, token_shift source] at htoken

/-! ## Gaps between texts -/

theorem isBlank_of_placed {cs : List Char} (hcs : ∀ c ∈ cs, Text.isBlank c = true) (start : Nat) :
    ∀ l ∈ placed start (groups cs), l.isBlank = true :=
  isBlank_of_texts (texts_placed start _) hcs

theorem detached_placed {cs : List Char} (hcs : ∀ c ∈ cs.head?, Text.isBlank c = true)
    (start : Nat) : Detached (placed start (groups cs)) :=
  detached_of_texts hcs (texts_placed start _)

/-- The last lexeme of a text is blank only if the text ends in a blank. -/
theorem isBlank_getLast?_placed {cs : List Char} (hcs : ∀ c ∈ cs.getLast?, Text.isBlank c = false)
    (start : Nat) : ∀ l ∈ (placed start (groups cs)).getLast?, l.isBlank = false := by
  intro l hl
  have hmem : l.text.toList ∈ (groups cs).getLast? := by
    rw [← texts_placed start (groups cs), texts, List.getLast?_map]
    exact Option.mem_map_of_mem _ hl
  obtain ⟨front, hfront⟩ := List.getLast?_eq_some_iff.1 hmem
  have hne : l.text.toList ≠ [] := groups_ne_nil (List.mem_of_mem_getLast? hmem)
  have hlast : l.text.toList.getLast hne ∈ cs.getLast? := by
    rw [← flatten_groups cs, hfront, List.flatten_append, List.flatten_singleton]
    exact List.mem_getLast?_append_of_mem_getLast? (List.getLast_mem_getLast? hne)
  by_contra hblank
  have hall := List.all_eq_true.1 (by simpa using hblank : l.isBlank = true)
  have hvisible := hcs _ hlast
  rw [hall _ (List.getLast_mem hne)] at hvisible
  simp at hvisible

theorem placed_groups_append {cs ds : List Char} (start : Nat)
    (h : ∀ c ∈ cs.getLast?, ∀ d ∈ ds.head?, Text.isBlank c ≠ Text.isBlank d) :
    placed start (groups (cs ++ ds)) =
      placed start (groups cs) ++ placed (start + byteLength cs) (groups ds) := by
  rw [groups_append fun c hc d hd => joins_eq_false (h c hc d hd), placed_append, flatten_groups]

/-- White space in front of a text is skipped. -/
theorem tokenizes_gap_iff {source : Source} {gap cs : List Char} {start : Nat} {ts : List Token}
    (hgap : ∀ c ∈ gap, Text.isBlank c = true) :
    Tokenizes source (placed start (groups (gap ++ cs))) ts ↔
      Tokenizes source (placed (start + byteLength gap) (groups cs)) ts := by
  -- A text that begins with a gap itself is cut behind it, in both places.
  have hlead := List.takeWhile_append_dropWhile (p := Text.isBlank) (l := cs)
  have hblank (c : Char) (hc : c ∈ cs.takeWhile Text.isBlank) := List.mem_takeWhile_imp hc
  have skip (gap : List Char) (hgap : ∀ c ∈ gap, Text.isBlank c = true) (start : Nat) :
      Tokenizes source (placed start (groups (gap ++ cs.dropWhile Text.isBlank))) ts ↔
        Tokenizes source
          (placed (start + byteLength gap) (groups (cs.dropWhile Text.isBlank))) ts := by
    rw [placed_groups_append, Tokenizes.append_iff (isBlank_of_placed hgap start)]
    intro c hc d hd
    rw [hgap c (List.mem_of_mem_getLast? hc)]
    have := List.head?_dropWhile_not Text.isBlank cs
    rw [Option.mem_def.1 hd] at this
    simpa using this
  rw [← hlead, ← List.append_assoc, skip _ (List.forall_mem_append.2 ⟨hgap, hblank⟩),
    skip _ hblank, byteLength_append, Nat.add_assoc]

/-- Every text can be cut in front of the white space at its end. -/
theorem exists_core (cs : List Char) :
    ∃ core gap, core ++ gap = cs ∧ (∀ c ∈ core.getLast?, Text.isBlank c = false) ∧
      ∀ c ∈ gap, Text.isBlank c = true := by
  refine ⟨cs.rdropWhile Text.isBlank, cs.rtakeWhile Text.isBlank,
    List.rdropWhile_append_rtakeWhile, fun c hc => ?_, fun c hc => List.mem_rtakeWhile_imp hc⟩
  obtain ⟨hne, rfl⟩ := List.mem_getLast?_eq_getLast hc
  simpa using List.rdropWhile_last_not Text.isBlank cs hne

end Lexeme

open Lexeme

/-- The tokens of two texts with a line break between them: those of the first text,
    and those of the second one further down. The last token of the first text must
    not be a name, for the line break may stand in an operator of two words. -/
theorem Source.tokens_append {s s' whole : Source} {ts us : List Token} (hts : s.tokens = .ok ts)
    (hus : s'.tokens = .ok us) (hwhole : whole.text = s.text ++ "\n" ++ s'.text)
    (hlast : ∀ t ∈ ts.getLast?, t.isIdentifier = false) :
    whole.tokens = .ok (ts.map (Token.relocate (.shift whole 0)) ++
      us.map (Token.relocate (.shift whole (s.size + 1)))) := by
  rw [Source.tokens, tokens_eq_ok_iff] at hts hus ⊢
  obtain ⟨core, gap, htext, hcore, hgap⟩ := exists_core s.text.toList
  have hbehind (ds : List Char) (hds : ∀ d ∈ ds.head?, Text.isBlank d = true) :
      placed 0 (groups (core ++ ds)) =
        placed 0 (groups core) ++ placed (byteLength core) (groups ds) := by
    rw [placed_groups_append, Nat.zero_add]
    intro c hc d hd
    rw [hcore c hc, hds d hd]
    simp
  have hhead (d : Char) (hd : d ∈ (gap ++ '\n' :: s'.text.toList).head?) :
      Text.isBlank d = true := by
    cases gap with
    | nil =>
      obtain rfl := Option.some.inj hd
      decide
    | cons c cs =>
      obtain rfl := Option.some.inj hd
      exact hgap _ List.mem_cons_self
  have hfront : Tokenizes whole (placed 0 (groups core) ++ placed (byteLength core) (groups gap))
      (ts.map (Token.relocate (.shift whole 0))) := by
    rw [← hbehind gap fun c hc => hgap c (List.mem_of_mem_head? hc), htext]
    have hshifted := hts.shift whole 0
    rwa [lexemes, ← placed_add] at hshifted
  have hback : Tokenizes whole (placed (byteLength core) (groups (gap ++ '\n' :: s'.text.toList)))
      (us.map (Token.relocate (.shift whole (s.size + 1)))) := by
    have hsize : byteLength core + byteLength (gap ++ ['\n']) = s.size + 1 := by
      rw [size, ← byteLength_toList, ← htext, byteLength_append, byteLength_append, Nat.add_assoc]
      rfl
    have hbreak (c : Char) (hc : c ∈ gap ++ ['\n']) : Text.isBlank c = true := by
      rcases List.mem_append.1 hc with hc | hc
      · exact hgap c hc
      · obtain rfl := List.mem_singleton.1 hc
        decide
    have hshifted := hus.shift whole (s.size + 1)
    rw [← List.singleton_append, ← List.append_assoc, tokenizes_gap_iff hbreak, hsize]
    rwa [lexemes, ← placed_add] at hshifted
  have hlexemes : whole.lexemes = placed 0 (groups core) ++
      placed (byteLength core) (groups (gap ++ '\n' :: s'.text.toList)) := by
    rw [← hbehind _ hhead, lexemes, hwhole, String.toList_append, String.toList_append, ← htext,
      List.append_assoc, List.append_assoc]
    rfl
  rw [hlexemes]
  refine hfront.exchange (isBlank_of_placed hgap _) (isBlank_getLast?_placed hcore _) ?_
    (detached_placed (fun c hc => hgap c (List.mem_of_mem_head? hc)) _) (detached_placed hhead _)
    hback
  intro t ht
  rw [List.getLast?_map] at ht
  obtain ⟨u, hu, rfl⟩ := Option.map_eq_some_iff.1 ht
  exact hlast u hu

end Kode
