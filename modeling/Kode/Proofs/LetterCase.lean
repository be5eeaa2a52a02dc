import Kode.Proofs.Erasure
import Kode.Proofs.Literals

/-!
# Upper and lower case

Keywords, operators and the words that name a value may be written in any case. All four
classifiers of words look at the upper case, and what is cut and looked for before them
are digits, quotes, marks and white space, which have no case. So two sources that differ
by the case of letters only have the same lexemes up to case (`Lexeme.upper_lexemes`), and
each of these begins the same (`Reads.of_upper_eq`), unless a literal that is no word has
changed its value.

What is left of such a difference in the tokens is how they are written, and the parser
does not look at that (`Block.rewords_parseAt`), nor does the evaluation (`Block.reword_run`).

* `Value.ofLiteral?_of_toUpper_eq`: words that name a value, in another case;
* `Tokenizes.recased`: lexemes in another case make up the same tokens;
* `Source.case_independent`: programs in another case are the same and do the same.
-/

namespace Kode

open Text (byteLength byteLength_append byteLength_cons byteLength_toList withOffsets)

open Lexeme

/-! ## Characters -/

namespace Text

theorem isAlpha_iff {c : Char} : c.isAlpha = true ↔
    65 ≤ c.toNat ∧ c.toNat ≤ 90 ∨ 97 ≤ c.toNat ∧ c.toNat ≤ 122 := by
  unfold Char.isAlpha Char.isUpper Char.isLower
  simp only [Bool.or_eq_true, Bool.and_eq_true, decide_eq_true_eq, ge_iff_le,
    UInt32.le_iff_toNat_le]
  exact Iff.rfl

@[simp] theorem isAlpha_toUpper (c : Char) : c.toUpper.isAlpha = c.isAlpha := by
  rw [Bool.eq_iff_iff, isAlpha_iff, isAlpha_iff]
  rcases toUpper_cases c with h | ⟨h₁, h₂, h₃⟩
  · rw [h]
  · omega

/-- There is no upper case of an upper case. -/
@[simp] theorem toUpper_toUpper_char (c : Char) : c.toUpper.toUpper = c.toUpper := by
  rcases toUpper_cases c.toUpper with h | ⟨h, -, -⟩
  · exact h
  · rcases toUpper_cases c with h' | ⟨h₁, h₂, h₃⟩
    · rw [h', h']
    · omega

/-- A character that is no letter is not the upper case of another one. -/
theorem toUpper_eq_iff {c d : Char} (hd : d.isAlpha = false) : c.toUpper = d ↔ c = d := by
  rcases toUpper_cases c with h | ⟨h₁, h₂, -⟩
  · rw [h]
  · have hc : c.isAlpha = true := isAlpha_iff.2 (.inr ⟨h₁, h₂⟩)
    refine iff_of_false ?_ ?_
    · rintro rfl
      rw [isAlpha_toUpper, hc] at hd
      exact absurd hd (by decide)
    · rintro rfl
      rw [hc] at hd
      exact absurd hd (by decide)

@[simp] theorem utf8Size_toUpper (c : Char) : c.toUpper.utf8Size = c.utf8Size := by
  have hone (d : Char) (hd : d.toNat ≤ 127) : d.utf8Size = 1 :=
    Char.utf8Size_eq_one_iff.2 (UInt32.le_iff_toNat_le.2 hd)
  rcases toUpper_cases c with h | ⟨h₁, h₂, h₃⟩
  · rw [h]
  · rw [hone c (by omega), hone c.toUpper (by omega)]

@[simp] theorem byteLength_map_toUpper (cs : List Char) :
    byteLength (cs.map Char.toUpper) = byteLength cs := by
  induction cs with
  | nil => rfl
  | cons c cs ih => rw [List.map_cons, byteLength_cons, byteLength_cons, utf8Size_toUpper, ih]

@[simp] theorem isAlphanum_toUpper (c : Char) : c.toUpper.isAlphanum = c.isAlphanum := by
  rw [Char.isAlphanum, Char.isAlphanum, isAlpha_toUpper, isDigit_toUpper]

/-- A text without letters is not the upper case of another one. -/
theorem toUpper_eq_iff_of_any {s w : String} (hw : w.toList.any Char.isAlpha = false) :
    s.toUpper = w ↔ s = w := by
  rw [← String.toList_inj, toList_toUpper, ← String.toList_inj]
  generalize s.toList = cs
  generalize w.toList = ds at hw
  induction ds generalizing cs with
  | nil => exact List.map_eq_nil_iff
  | cons d ds ih =>
    rw [List.any_cons, Bool.or_eq_false_iff] at hw
    cases cs with
    | nil => simp
    | cons c cs =>
      rw [List.map_cons, List.cons.injEq, List.cons.injEq, toUpper_eq_iff hw.1, ih cs hw.2]

theorem toUpper_toUpper (s : String) : s.toUpper.toUpper = s.toUpper :=
  String.toList_injective (by simp [toList_toUpper])

end Text

/-! ## Words -/

theorem Value.ofWord?_toUpper (w : String) : ofWord? w.toUpper = ofWord? w := by
  rw [ofWord?, ofWord?, Text.toUpper_toUpper]

theorem Keyword.ofWord?_toUpper (w : String) : ofWord? w.toUpper = ofWord? w := by
  rw [ofWord?, ofWord?, Text.toUpper_toUpper]

theorem Operator.ofWord?_toUpper (w : String) : ofWord? w.toUpper = ofWord? w := by
  rw [ofWord?, ofWord?, Text.toUpper_toUpper]

theorem Operator.ofPhrase?_toUpper (v w : String) :
    ofPhrase? v.toUpper w.toUpper = ofPhrase? v w := by
  rw [ofPhrase?, ofPhrase?, Text.toUpper_toUpper, Text.toUpper_toUpper]

theorem Punctuation.ofText?_toUpper (w : String) : ofText? w.toUpper = ofText? w := by
  rw [ofText?, ofText?]
  simp only [Text.toUpper_eq_iff_of_any (w := ".") (by decide),
    Text.toUpper_eq_iff_of_any (w := "-") (by decide)]

/-! ## Lexemes -/

namespace Lexeme

/-- The lexeme in upper case. -/
def upper (l : Lexeme) : Lexeme :=
  ⟨l.start, l.text.toUpper⟩

variable (l : Lexeme) (ls rest : List Lexeme)

@[simp] theorem isBlank_upper : l.upper.isBlank = l.isBlank := by
  rw [isBlank, isBlank, Text.allBlank, Text.allBlank, upper, Text.toList_toUpper, List.all_map]
  congr 1
  funext c
  exact Text.isBlank_toUpper c

@[simp] theorem isDigits_upper : l.upper.isDigits = l.isDigits :=
  Text.isDigits_toUpper l.text

@[simp] theorem isQuote_upper : l.upper.isQuote = l.isQuote := by
  simp only [isQuote, upper, Text.toUpper_eq_iff_of_any (w := "\"") (by decide),
    Text.toUpper_eq_iff_of_any (w := "'") (by decide)]

@[simp] theorem isMinus_upper : l.upper.isMinus = l.isMinus := by
  simp only [isMinus, upper, Text.toUpper_eq_iff_of_any (w := "-") (by decide)]

@[simp] theorem isPeriod_upper : l.upper.isPeriod = l.isPeriod := by
  simp only [isPeriod, upper, Text.toUpper_eq_iff_of_any (w := ".") (by decide)]

@[simp] theorem isName_upper : l.upper.isName = l.isName := by
  have hunderscore (c : Char) : c.toUpper = '_' ↔ c = '_' := Text.toUpper_eq_iff (by decide)
  rw [isName, isName, upper, Text.toList_toUpper]
  cases l.text.toList with
  | nil => rfl
  | cons c cs => simp [hunderscore, Function.comp_def]

theorem fractionLength_upper : fractionLength (rest.map upper) = fractionLength rest := by
  match rest with
  | [] | [_] => rfl
  | point :: digits :: more => simp [fractionLength]

/-- Only letters have a case, and there are none in what a literal is looked for by, except
    in words. -/
theorem literalExtent_upper : literalExtent l.upper (rest.map upper) = literalExtent l rest := by
  have hfound (hl : l.isQuote = true) :
      (rest.map upper).findIdx? (fun r => r.text = l.upper.text) =
        rest.findIdx? fun r => r.text = l.text := by
    have hletters : l.text.toList.any Char.isAlpha = false := by
      rw [isQuote, Bool.or_eq_true, decide_eq_true_eq, decide_eq_true_eq] at hl
      rcases hl with hl | hl <;>
        · rw [hl]
          decide
    have hquote (r : Lexeme) : r.upper.text = l.upper.text ↔ r.text = l.text := by
      change r.text.toUpper = l.text.toUpper ↔ _
      rw [(Text.toUpper_eq_iff_of_any hletters).2 rfl, Text.toUpper_eq_iff_of_any hletters]
    rw [List.findIdx?_map]
    simp only [Function.comp_def, hquote]
  unfold literalExtent
  rw [isQuote_upper, isDigits_upper, isMinus_upper]
  -- Only what follows a quote is looked through for a text of its own.
  split
  · rename_i hl
    rw [hfound hl]
  · rw [fractionLength_upper, upper, Value.ofWord?_toUpper]
    cases rest with
    | nil => rfl
    | cons digits more =>
      simp only [List.map_cons, isDigits_upper, fractionLength_upper]

theorem operator?_upper : operator? l.upper (rest.map upper) = operator? l rest := by
  match rest with
  | [] | [_] => simp [operator?, upper, Operator.ofWord?_toUpper]
  | gap :: second :: more =>
    have hphrase := Operator.ofPhrase?_toUpper l.text second.text
    simp only [operator?, List.map_cons, isBlank_upper]
    simp only [upper, hphrase, Operator.ofWord?_toUpper]

theorem toUpper_join : (join ls).toUpper = join (ls.map upper) := by
  rw [← String.toList_inj, Text.toList_toUpper, toList_join, toList_join, texts, texts,
    List.map_flatten, List.map_map, List.map_map]
  congr 2
  funext l
  exact (Text.toList_toUpper l.text).symm

end Lexeme

/-! ## Tokens whose case does not matter -/

/-- Whether tokens of this kind can be written in upper and in lower case: keywords,
    operators, and the words that name a value. -/
def TokenKind.isCaseless : TokenKind → Bool
  | keyword _ | operator _ | literal (.boolean _) | literal .none => true
  | _ => false

namespace Value

/-- Only a word names a truth value, or none. -/
theorem ofWord?_of_ofLiteral? {s : String} {v : Value} (h : ofLiteral? s = some v)
    (hv : (TokenKind.literal v).isCaseless = true) : ofWord? s = some v := by
  rw [ofLiteral?] at h
  split at h
  · simp at h
  · split at h
    · obtain ⟨inner, -, rfl⟩ := Option.map_eq_some_iff.1 h
      simp [TokenKind.isCaseless] at hv
    · dsimp only at h
      split at h
      · obtain ⟨n, rfl, -⟩ := ofInt?_eq_some h
        simp [TokenKind.isCaseless] at hv
      · split at h
        · obtain rfl := Option.some.inj h
          simp [TokenKind.isCaseless, ofDigits] at hv
        · exact h

theorem ofLiteral?_of_ofWord? {s : String} (h : (ofWord? s).isSome = true) :
    ofLiteral? s = ofWord? s := by
  obtain ⟨hne, hword⟩ := isWord_of_ofWord? h
  have hmarks : ∀ c ∈ s.toList, c ∉ marks := by
    intro c hc hm
    have hrole := hword c hc
    rw [Lexeme.role, if_pos hm] at hrole
    exact absurd hrole (by simp)
  have hdigits : Text.isDigits s.toList = false := by
    rw [← Text.isDigits_toUpper]
    rcases toUpper_of_ofWord? h with hw | hw | hw <;>
      · rw [hw]
        decide
  obtain ⟨c, cs, hs⟩ := List.exists_cons_of_ne_nil hne
  have hc := hmarks c (by simp [hs])
  have hquote : c ∉ quotes := fun hq => hc (by simp_all [quotes, marks])
  have hsign : Text.splitSign (c :: cs) = (false, c :: cs) := by
    unfold Text.splitSign
    split
    · rename_i heq
      obtain ⟨rfl, -⟩ := List.cons.inj heq
      exact absurd hc (by decide)
    · rfl
  have hfraction : fractional? s.toList = Option.none := by
    cases hf : fractional? s.toList with
    | none => rfl
    | some p =>
      -- A number has a point or nothing but digits.
      generalize hcs : s.toList = ds at hf
      rw [hcs] at hmarks hdigits
      cases number_of_fractional? hf with
      | whole hd => simp [hd] at hdigits
      | fraction => exact absurd (hmarks '.' (by simp)) (by decide)
  rw [hs] at hdigits hfraction
  rw [ofLiteral?, hs]
  simp only [if_neg hquote, hsign, hdigits, hfraction, Bool.false_eq_true, if_false]

/-- The words that name a value may be written in any case. -/
theorem ofLiteral?_of_toUpper_eq {s s' : String} {v : Value} (h : ofLiteral? s = some v)
    (hv : (TokenKind.literal v).isCaseless = true) (hs : s'.toUpper = s.toUpper) :
    ofLiteral? s' = some v := by
  have hword := ofWord?_of_ofLiteral? h hv
  rw [← ofWord?_toUpper, ← hs, ofWord?_toUpper] at hword
  rw [ofLiteral?_of_ofWord? (by rw [hword]; rfl), hword]

end Value

namespace Lexeme

variable {l l' : Lexeme} {rest rest' : List Lexeme} {kind : TokenKind} {n : Nat}

/-- What a lexeme begins does not depend on the case of its letters, nor on those after
    it, except for the value of a literal. -/
theorem Reads.of_upper_eq (h : Reads l rest kind n) (hl : l'.upper = l.upper)
    (hrest : rest'.map upper = rest.map upper)
    (hliteral : ∀ v, kind = .literal v →
      Value.ofLiteral? (join (l' :: rest'.take n)) = some v) : Reads l' rest' kind n := by
  have hextent : literalExtent l' rest' = literalExtent l rest := by
    rw [← literalExtent_upper, hl, hrest, literalExtent_upper]
  have hoperator : operator? l' rest' = operator? l rest := by
    rw [← operator?_upper, hl, hrest, operator?_upper]
  have htext : l'.text.toUpper = l.text.toUpper := congrArg Lexeme.text hl
  have hmark : Punctuation.ofText? l'.text = Punctuation.ofText? l.text := by
    rw [← Punctuation.ofText?_toUpper, htext, Punctuation.ofText?_toUpper]
  have hkeyword : Keyword.ofWord? l'.text = Keyword.ofWord? l.text := by
    rw [← Keyword.ofWord?_toUpper, htext, Keyword.ofWord?_toUpper]
  cases h with
  | literal h hv => exact .literal (hextent.trans h) (hliteral _ rfl)
  | punctuation h hm => exact .punctuation (hextent.trans h) (hmark.trans hm)
  | operator h hm ho =>
    exact .operator (hextent.trans h) (hmark.trans hm) (hoperator.trans ho)
  | keyword h hm ho hk =>
    exact .keyword (hextent.trans h) (hmark.trans hm) (hoperator.trans ho) (hkeyword.trans hk)
  | identifier h hm ho hk hn =>
    refine .identifier (hextent.trans h) (hmark.trans hm) (hoperator.trans ho)
      (hkeyword.trans hk) ?_
    rw [← isName_upper, hl, isName_upper]
    exact hn

end Lexeme

/-! ## Sources in another case -/

namespace Lexeme

theorem glue_toUpper (c : Char) (gs : List (List Char)) :
    glue c.toUpper (gs.map (List.map Char.toUpper)) = (glue c gs).map (List.map Char.toUpper) := by
  match gs with
  | [] | [] :: _ => rfl
  | (d :: ds) :: gs =>
    have hjoins : joins c.toUpper d.toUpper = joins c d := by simp [joins]
    simp only [List.map_cons, glue, hjoins]
    split <;> rfl

/-- A text is cut in the same places in any case. -/
theorem groups_toUpper (cs : List Char) :
    groups (cs.map Char.toUpper) = (groups cs).map (List.map Char.toUpper) := by
  induction cs with
  | nil => rfl
  | cons c cs ih => rw [List.map_cons, groups_cons, ih, glue_toUpper, groups_cons]

theorem placed_toUpper (start : Nat) (gs : List (List Char)) :
    placed start (gs.map (List.map Char.toUpper)) = (placed start gs).map upper := by
  induction gs generalizing start with
  | nil => rfl
  | cons g gs ih =>
    have hg : String.ofList (g.map Char.toUpper) = (String.ofList g).toUpper :=
      String.toList_injective (by simp [Text.toList_toUpper])
    rw [List.map_cons, placed, Text.byteLength_map_toUpper, ih, placed, List.map_cons, upper, hg]

theorem upper_lexemes {s s' : Source} (h : s'.text.toUpper = s.text.toUpper) :
    s'.lexemes.map upper = s.lexemes.map upper := by
  rw [Source.lexemes, Source.lexemes, ← placed_toUpper, ← placed_toUpper, ← groups_toUpper,
    ← groups_toUpper, ← Text.toList_toUpper, ← Text.toList_toUpper, h]

end Lexeme

/-- The characters are those of a text that begins at the offset `start`, up to the case of
    letters where `D` holds of the offset. -/
def Text.Recased (D : Nat → Prop) (start : Nat) (cs ds : List Char) : Prop :=
  List.Forall₂ (fun p d => d = p.2 ∨ d.toUpper = p.2.toUpper ∧ D p.1) (withOffsets start cs) ds

theorem Text.recased_cons_iff {D : Nat → Prop} {start : Nat} {c d : Char} {cs ds : List Char} :
    Recased D start (c :: cs) (d :: ds) ↔
      (d = c ∨ d.toUpper = c.toUpper ∧ D start) ∧ Recased D (start + c.utf8Size) cs ds :=
  List.forall₂_cons

instance Text.decidableRecased (D : Nat → Prop) [DecidablePred D] :
    ∀ start cs ds, Decidable (Recased D start cs ds)
  | _, [], [] => isTrue .nil
  | _, [], _ :: _ => isFalse nofun
  | _, _ :: _, [] => isFalse nofun
  | start, c :: cs, _ :: ds =>
    have := decidableRecased D (start + c.utf8Size) cs ds
    decidable_of_iff _ recased_cons_iff.symm

namespace Text.Recased

variable {D : Nat → Prop} {start : Nat} {cs cs' ds ds' : List Char}

theorem toUpper_eq (h : Recased D start cs ds) : ds.map Char.toUpper = cs.map Char.toUpper := by
  rw [Recased] at h
  induction cs generalizing start ds with
  | nil => rw [List.forall₂_nil_left_iff.1 h]
  | cons c cs ih =>
    obtain ⟨d, ds, hd, hds, rfl⟩ := List.forall₂_cons_left_iff.1 h
    have hupper : d.toUpper = c.toUpper := hd.elim (congrArg _) (·.1)
    rw [List.map_cons, List.map_cons, hupper, ih hds]

/-- Where no letter may have another case, there is the same text. -/
theorem eq_of_forall (h : Recased D start cs ds)
    (hD : ∀ offset, start ≤ offset → offset < start + byteLength cs → ¬ D offset) : ds = cs := by
  rw [Recased] at h
  induction cs generalizing start ds with
  | nil => exact List.forall₂_nil_left_iff.1 h
  | cons c cs ih =>
    obtain ⟨d, ds, hd, hds, rfl⟩ := List.forall₂_cons_left_iff.1 h
    have hpos := c.utf8Size_pos
    rw [byteLength_cons] at hD
    have hcd : d = c := hd.resolve_right fun hD' => hD start (by omega) (by omega) hD'.2
    rw [hcd, ih hds fun offset hle hlt => hD offset (by omega) (by omega)]

theorem append (h : Recased D start (cs ++ cs') (ds ++ ds')) (hlength : ds.length = cs.length) :
    Recased D start cs ds ∧ Recased D (start + byteLength cs) cs' ds' := by
  have hoffsets : (withOffsets start cs).length = cs.length := by
    rw [← List.length_map Prod.snd, map_snd_withOffsets]
  rw [Recased, withOffsets_append] at h
  have hfront := List.forall₂_take_append _ _ _ h
  have hback := List.forall₂_drop_append _ _ _ h
  rw [hlength, ← hoffsets, List.take_left] at hfront
  rw [hlength, ← hoffsets, List.drop_left] at hback
  exact ⟨hfront, hback⟩

end Text.Recased

/-- Puts everything into the source, and the words that may be written in any case into
    upper case. -/
def Rewording.capitals (source : Source) : Rewording where
  toRelocation := .shift source 0
  spell kind text := if kind.isCaseless then text.toUpper else text
  spell_identifier _ := rfl

namespace Lexeme

variable {source source' : Source} {l l' : Lexeme} {ls ls' rest rest' : List Lexeme}

theorem flatten_texts_cons (l : Lexeme) (rest : List Lexeme) (n : Nat) :
    (texts (l :: rest)).flatten =
      (join (l :: rest.take n)).toList ++ (texts (rest.drop n)).flatten := by
  rw [toList_join, ← List.flatten_append, ← texts_append, List.cons_append, List.take_append_drop]

/-- Tokens that are alike but for the case of their letters differ by nothing else, where
    this matters. -/
theorem reword_token {kind : TokenKind} {taken taken' : List Lexeme} (hl : l'.upper = l.upper)
    (htaken : taken'.map upper = taken.map upper)
    (hsame : kind.isCaseless = false → join (l' :: taken') = join (l :: taken)) (target : Source) :
    (token source' kind l' taken').reword (.capitals target) =
      (token source kind l taken).reword (.capitals target) := by
  have hstart : l'.start = l.start := (congrArg Lexeme.start hl :)
  have hjoin : (join (l' :: taken')).toUpper = (join (l :: taken)).toUpper := by
    rw [toUpper_join, toUpper_join, List.map_cons, List.map_cons, hl, htaken]
  have hsize : (join (l' :: taken')).utf8ByteSize = (join (l :: taken)).utf8ByteSize := by
    rw [← byteLength_toList, ← byteLength_toList, ← Text.byteLength_map_toUpper,
      ← Text.toList_toUpper, hjoin, Text.toList_toUpper, Text.byteLength_map_toUpper]
  have hspell : (Rewording.capitals target).spell kind (join (l' :: taken')) =
      (Rewording.capitals target).spell kind (join (l :: taken)) := by
    cases hkind : kind.isCaseless with
    | false => rw [hsame hkind]
    | true => simpa [Rewording.capitals, hkind] using hjoin
  simp only [Token.reword, token, hspell, cover, hstart, hsize]
  rfl

/-- Lexemes in another case make up the same tokens in another case, if those that have
    no case are left alone. -/
theorem Tokenizes.recased {D : Nat → Prop} {front : List Char} {ts : List Token}
    (h : Tokenizes source ls ts) (hfollows : Follows source front ls)
    (hupper : ls'.map upper = ls.map upper)
    (hrecased : Text.Recased D (byteLength front) (texts ls).flatten (texts ls').flatten)
    (hD : ∀ t ∈ ts, t.kind.isCaseless = false →
      ∀ offset, t.span.start ≤ offset → offset < t.span.stop → ¬ D offset) (target : Source) :
    ∃ us, Tokenizes source' ls' us ∧
      us.map (Token.reword (.capitals target)) = ts.map (Token.reword (.capitals target)) := by
  have hlength {ks ks' : List Lexeme} (h : ks'.map upper = ks.map upper) :
      (join ks').toList.length = (join ks).toList.length := by
    rw [← List.length_map Char.toUpper, ← Text.toList_toUpper, toUpper_join, h, ← toUpper_join,
      Text.toList_toUpper, List.length_map]
  -- What has been read goes to the front, as it tells where the next lexeme starts.
  induction h generalizing front ls' with
  | nil =>
    obtain rfl := List.map_eq_nil_iff.1 hupper
    exact ⟨[], .nil, rfl⟩
  | @gap l rest ts hb _ ih =>
    obtain ⟨l', rest', rfl, hl, hrest⟩ := List.map_eq_cons_iff.1 hupper
    rw [← isBlank_upper, ← hl, isBlank_upper] at hb
    rw [flatten_texts_cons l rest 0, flatten_texts_cons l' rest' 0] at hrecased
    have htail := (hrecased.append (hlength (by simp [hl]))).2
    rw [List.take_zero, join_singleton, ← byteLength_append] at htail
    obtain ⟨us, hus, hmap⟩ := ih hfollows.tail hrest htail hD
    exact ⟨us, .gap hb hus, hmap⟩
  | @token l rest kind n ts hreads _ ih =>
    obtain ⟨l', rest', rfl, hl, hrest⟩ := List.map_eq_cons_iff.1 hupper
    have htaken : (rest'.take n).map upper = (rest.take n).map upper := by
      rw [List.map_take, hrest, List.map_take]
    have hdrop : (rest'.drop n).map upper = (rest.drop n).map upper := by
      rw [List.map_drop, hrest, List.map_drop]
    rw [flatten_texts_cons l rest n, flatten_texts_cons l' rest' n] at hrecased
    obtain ⟨hfront, hback⟩ := hrecased.append (hlength (by simp [hl, htaken]))
    have hsame : kind.isCaseless = false → join (l' :: rest'.take n) = join (l :: rest.take n) := by
      intro hkind
      -- All of these characters are in the span of the token, where no letter may differ.
      rw [← hfollows.start_eq] at hfront
      refine String.toList_injective (hfront.eq_of_forall fun offset hle hlt => ?_)
      rw [byteLength_toList] at hlt
      exact (List.forall_mem_cons.1 hD).1 hkind offset hle hlt
    have hreads' : Reads l' rest' kind n := by
      refine hreads.of_upper_eq hl hrest fun v hv => ?_
      subst hv
      cases hreads with
      | literal _ hv =>
        cases hkind : (TokenKind.literal v).isCaseless with
        | false => rwa [hsame hkind]
        | true =>
          refine Value.ofLiteral?_of_toUpper_eq hv hkind ?_
          rw [toUpper_join, toUpper_join, List.map_cons, List.map_cons, hl, htaken]
    rw [toList_join, ← byteLength_append, texts_cons, List.flatten_cons, ← List.append_assoc]
      at hback
    obtain ⟨us, hus, hmap⟩ := ih (hfollows.tail.drop n) hdrop hback (List.forall_mem_cons.1 hD).2
    refine ⟨_, .token hreads' hus, ?_⟩
    rw [List.map_cons, List.map_cons, hmap, reword_token hl htaken hsame]

end Lexeme

namespace Source

variable {s s' : Source} {ts : List Token}

/-- The second source is the first one up to the case of letters in its keywords, its
    operators and the words that name a value. -/
def Recased (s : Source) (ts : List Token) (s' : Source) : Prop :=
  Text.Recased
    (fun offset => ∃ t ∈ ts, t.kind.isCaseless = true ∧ t.span.start ≤ offset ∧
      offset < t.span.stop)
    0 s.text.toList s'.text.toList

instance (s : Source) (ts : List Token) (s' : Source) : Decidable (s.Recased ts s') :=
  Text.decidableRecased _ _ _ _

/-- Tokens do not overlap. -/
theorem not_overlaps (hts : s.tokens = .ok ts) {t u : Token} (ht : t ∈ ts) (hu : u ∈ ts)
    (hne : t ≠ u) {offset : Nat} (hle : t.span.start ≤ offset) (hlt : offset < t.span.stop) :
    ¬ (u.span.start ≤ offset ∧ offset < u.span.stop) := by
  have hpair : ts.Pairwise fun t u => t.span.stop ≤ u.span.start ∨ u.span.stop ≤ t.span.start :=
    (pairwise_of_tokens hts).imp .inl
  have : Std.Symm fun t u : Token => t.span.stop ≤ u.span.start ∨ u.span.stop ≤ t.span.start :=
    ⟨fun _ _ => Or.symm⟩
  have := hpair.forall ht hu hne
  omega

/-- A source in another case has the same tokens in another case. -/
theorem exists_tokens_of_recased (hts : s.tokens = .ok ts) (h : s.Recased ts s')
    (target : Source) :
    ∃ us, s'.tokens = .ok us ∧
      us.map (Token.reword (.capitals target)) = ts.map (Token.reword (.capitals target)) := by
  have hupper : s'.text.toUpper = s.text.toUpper :=
    String.toList_injective (by rw [Text.toList_toUpper, Text.toList_toUpper, h.toUpper_eq])
  have hrecased := h
  rw [Recased, ← flatten_groups s.text.toList, ← flatten_groups s'.text.toList, ← texts_lexemes,
    ← texts_lexemes] at hrecased
  have hfixed : ∀ t ∈ ts, t.kind.isCaseless = false →
      ∀ offset, t.span.start ≤ offset → offset < t.span.stop →
        ¬ ∃ u ∈ ts, u.kind.isCaseless = true ∧ u.span.start ≤ offset ∧ offset < u.span.stop := by
    rintro t ht hkind offset hle hlt ⟨u, hu, hkind', hoffset⟩
    refine not_overlaps hts ht hu ?_ hle hlt hoffset
    rintro rfl
    simp [hkind] at hkind'
  obtain ⟨us, hus, hmap⟩ := (tokens_eq_ok_iff.1 hts).recased (follows_lexemes s)
    (upper_lexemes hupper) hrecased hfixed target
  exact ⟨us, tokens_eq_ok_iff.2 hus, hmap⟩

/-- The case of letters does not matter in keywords, operators and the words that name a
    value. -/
theorem case_independent (hts : s.tokens = .ok ts) (h : s.Recased ts s') (target : Source) :
    (s'.parse.map (Block.reword (.capitals target))).mapError
        (ParseError.relocate (.shift target 0)) =
      (s.parse.map (Block.reword (.capitals target))).mapError
        (ParseError.relocate (.shift target 0)) ∧
    ∀ b c, s.parse = .ok b → s'.parse = .ok c → ∀ (fuel : Nat) (answers : List Answer),
      (c.run fuel (.initial answers)).relocate (.shift target 0) =
        (b.run fuel (.initial answers)).relocate (.shift target 0) := by
  obtain ⟨us, hus, hmap⟩ := exists_tokens_of_recased hts h target
  have hparse : (s'.parse.map (Block.reword (.capitals target))).mapError
        (ParseError.relocate (.shift target 0)) =
      (s.parse.map (Block.reword (.capitals target))).mapError
        (ParseError.relocate (.shift target 0)) := by
    have hreworded := Block.rewords_parseAt (w := .capitals target) Block.maxDepth
    rw [parse, hus, parse, hts]
    exact (hreworded us).symm.trans ((congrArg _ hmap).trans (hreworded ts))
  refine ⟨hparse, fun b c hb hc fuel answers => ?_⟩
  rw [hb, hc] at hparse
  have hblock : Block.reword (.capitals target) c = Block.reword (.capitals target) b :=
    Except.ok.inj hparse
  have hrun (b : Block) := Block.reword_run fuel (.capitals target) b (.initial answers)
  exact (hrun c).trans (hblock ▸ (hrun b).symm)

theorem case_independent_of_phrase :
    ∃ (s s' : Source) (ts : List Token) (b c : Block),
      s.text = "set n to 1.if n less  than 2 then show true.end" ∧
      s'.text = "SET n tO 1.If n LESS  Than 2 THEN show True.END" ∧
      s.tokens = .ok ts ∧ s.Recased ts s' ∧ s.parse = .ok b ∧ s'.parse = .ok c ∧
      Block.reword (.capitals s) c = Block.reword (.capitals s) b ∧
      ∀ (fuel : Nat) (answers : List Answer),
        (c.run fuel (.initial answers)).relocate (.shift s 0) =
          (b.run fuel (.initial answers)).relocate (.shift s 0) := by
  obtain ⟨ts, hts, hrecased⟩ := Statement.eq_ok_of_any (show
    (⟨"main.kode", "set n to 1.if n less  than 2 then show true.end", 0⟩ :
      Source).tokens.toOption.any (fun ts =>
        decide (Source.Recased ⟨"main.kode", "set n to 1.if n less  than 2 then show true.end", 0⟩
          ts ⟨"main.kode", "SET n tO 1.If n LESS  Than 2 THEN show True.END", 1⟩)) = true by
    decide +kernel)
  obtain ⟨b, hb, -⟩ := Statement.eq_ok_of_any (show
    (⟨"main.kode", "set n to 1.if n less  than 2 then show true.end", 0⟩ :
      Source).parse.toOption.any (fun _ => true) = true by decide +kernel)
  rw [decide_eq_true_eq] at hrecased
  obtain ⟨hparse, hrun⟩ := case_independent hts hrecased
    ⟨"main.kode", "set n to 1.if n less  than 2 then show true.end", 0⟩
  rw [hb] at hparse
  obtain ⟨c, hc, hblock⟩ := Statement.eq_ok_of_any (show
    (⟨"main.kode", "SET n tO 1.If n LESS  Than 2 THEN show True.END", 1⟩ :
      Source).parse.toOption.any (fun _ => true) = true by decide +kernel)
  rw [hc] at hparse
  exact ⟨_, _, ts, b, c, rfl, rfl, hts, hrecased, hb, hc, Except.ok.inj hparse, hrun b c hb hc⟩

end Source

end Kode
