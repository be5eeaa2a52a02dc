import Kode.Proofs.Erasure
import Kode.Proofs.Spelling

/-!
# Programs laid out anew

To lay out some tokens is to write down their texts with white space between any
two of them (`Layout`). Tokens take in what is next to them: a minus the digits
that touch it, digits a fraction that touches them, a quote everything up to the
next one, and a name the second word of an operator, even across a gap. What a
source is read as tells that none of this can happen: each token has taken in
what it takes in, and a name with the second word of an operator behind it would
have been that operator.

* `Layout.spells`: such a text spells the tokens;
* `Source.layout_independent`: so it is read as these tokens again, be they all of
  a source or some of them side by side, and a program laid out anew is the same
  program and does the same.
-/

namespace Kode

/-- A way to write down the tokens, with white space around them. Two tokens do
    not touch. -/
structure Layout (ts : List Token) where
  /-- What stands in front of the first token. -/
  before : String
  /-- The tokens, each with what stands behind it. -/
  rows : List (Token × String)
  map_fst_rows : rows.map Prod.fst = ts
  allBlank_before : Text.allBlank before = true
  allBlank_behind : ∀ row ∈ rows, Text.allBlank row.2 = true
  separated : ∀ row ∈ rows.dropLast, row.2 ≠ ""

namespace Layout

variable {ts : List Token}

/-- The text of the tokens that are laid out so. -/
def text (layout : Layout ts) : String :=
  layout.before ++ String.join (layout.rows.map fun row => row.1.text ++ row.2)

/-- Every token on a line of its own. -/
def lines (ts : List Token) : Layout ts where
  before := ""
  rows := ts.map fun t => (t, "\n")
  map_fst_rows := by simp [Function.comp_def]
  allBlank_before := rfl
  allBlank_behind row hrow := by
    obtain ⟨t, -, rfl⟩ := List.mem_map.1 hrow
    exact (by decide : Text.allBlank "\n" = true)
  separated row hrow := by
    obtain ⟨t, -, rfl⟩ := List.mem_map.1 (List.dropLast_subset _ hrow)
    exact (by decide : "\n" ≠ "")

/-- Tokens with white space behind them are spelled one after the other. -/
theorem spells_rows {rows : List (Token × String)} (hspelled : ∀ row ∈ rows, row.1.Spelled)
    (hblank : ∀ row ∈ rows, Text.allBlank row.2 = true)
    (hseparated : ∀ row ∈ rows.dropLast, row.2 ≠ "") :
    Spells (rows.flatMap fun row => row.1.text.toList ++ row.2.toList) (rows.map Prod.fst) := by
  induction rows with
  | nil => exact .nil
  | cons row rows ih =>
    rw [List.forall_mem_cons] at hspelled hblank
    have hbehind : ∀ c ∈ row.2.toList, Text.isBlank c = true := List.all_eq_true.1 hblank.1
    rw [List.flatMap_cons, List.append_assoc, List.map_cons]
    -- Behind a token comes white space or the end.
    cases rows with
    | nil => exact .word hspelled.1 (Apart.nil.gap hbehind) (.gap hbehind .nil)
    | cons next rows =>
      rw [List.dropLast_cons_cons, List.forall_mem_cons] at hseparated
      have hrest := ih hspelled.2 hblank.2 hseparated.2
      obtain ⟨c, cs, hc⟩ := List.exists_cons_of_ne_nil
        (fun hnil => hseparated.1 (String.toList_eq_nil_iff.1 hnil) : row.2.toList ≠ [])
      refine .word hspelled.1 ?_ (.gap hbehind hrest)
      rw [hc]
      exact .blank (hbehind c (hc ▸ List.mem_cons_self))

/-- The text of tokens that are laid out spells them. -/
theorem spells (layout : Layout ts) (hts : ∀ t ∈ ts, t.Spelled) :
    Spells layout.text.toList ts := by
  have hspelled (row : Token × String) (hrow : row ∈ layout.rows) : row.1.Spelled := by
    refine hts row.1 ?_
    rw [← layout.map_fst_rows]
    exact List.mem_map_of_mem hrow
  have hrows := spells_rows hspelled layout.allBlank_behind layout.separated
  have htext : layout.text.toList = layout.before.toList ++
      layout.rows.flatMap fun row => row.1.text.toList ++ row.2.toList := by
    rw [text, String.toList_append, String.toList_join, List.flatMap_map]
    simp only [String.toList_append]
  rw [layout.map_fst_rows] at hrows
  rw [htext]
  exact hrows.gap (List.all_eq_true.1 layout.allBlank_before)

end Layout

namespace Source

/-- Some tokens of a source that stand side by side, a single one or all of them,
    may be laid out anew in any way: the text is read as the same tokens, of the
    same kinds and with the same texts. If they are all tokens of the source, the
    text is the same program up to spans, or none for the same reason, and it does
    the same with any fuel and whatever it is given to read. -/
theorem layout_independent {s s' : Source} {ts part : List Token} (hts : s.tokens = .ok ts)
    (hpart : part <:+: ts) (layout : Layout part) (htext : s'.text = layout.text) :
    ∃ us, s'.tokens = .ok us ∧ us.map Token.bare = part.map Token.bare ∧
      (part = ts →
        (s'.parse.map Block.bare).mapError ParseError.fault =
            (s.parse.map Block.bare).mapError ParseError.fault ∧
          ∀ b c, s.parse = .ok b → s'.parse = .ok c → ∀ (fuel : Nat) (answers : List Answer),
            Outcome.bare (c.run fuel (.initial answers)) =
              Outcome.bare (b.run fuel (.initial answers))) := by
  obtain ⟨hspelled, hchain⟩ := s.spelled_of_tokens hts
  have hspells : Spells s'.text.toList part := by
    rw [htext]
    exact layout.spells fun t ht => hspelled t (hpart.subset ht)
  obtain ⟨us, hus, hfuses⟩ := s'.exists_tokens hspells
  have hpartChain := List.IsChain.infix hchain hpart
  have hmap := hfuses.map_bare_of_isChain hpartChain
  refine ⟨us, hus, hmap, fun hall => ?_⟩
  subst hall
  have hparse : (s'.parse.map Block.bare).mapError ParseError.fault =
      (s.parse.map Block.bare).mapError ParseError.fault := by
    rw [parse, hus, parse, hts]
    exact Block.parseAt_of_map_bare Block.maxDepth hmap
  refine ⟨hparse, fun b c hb hc fuel answers => Block.bare_run_congr fuel ?_ rfl⟩
  rw [hb, hc] at hparse
  exact Except.ok.inj hparse

/-- A number with a sign and a fraction, an operator of two words and a quoted
    text, each on a line of its own. -/
theorem layout_independent_of_lines :
    ∃ ts us b c,
      (⟨"main.kode", "set x to -0.5.if x less  than 2 then show 'two words' & x.end", 0⟩ :
        Source).tokens = .ok ts ∧
      (⟨"main.kode", "set x to -0.5.if x less  than 2 then show 'two words' & x.end", 0⟩ :
        Source).parse = .ok b ∧
      (⟨"main.kode", (Layout.lines ts).text, 1⟩ : Source).tokens = .ok us ∧
      (⟨"main.kode", (Layout.lines ts).text, 1⟩ : Source).parse = .ok c ∧
      us.map Token.bare = ts.map Token.bare ∧ Block.bare c = Block.bare b ∧
      ∀ (fuel : Nat) (answers : List Answer),
        Outcome.bare (c.run fuel (.initial answers)) =
          Outcome.bare (b.run fuel (.initial answers)) := by
  have hread : (⟨"main.kode",
      "set x to -0.5.if x less  than 2 then show 'two words' & x.end", 0⟩ :
        Source).tokens.isOk = true := by
    decide +kernel
  have hparsed : (⟨"main.kode",
      "set x to -0.5.if x less  than 2 then show 'two words' & x.end", 0⟩ :
        Source).parse.isOk = true := by
    decide +kernel
  cases hts : (⟨"main.kode",
      "set x to -0.5.if x less  than 2 then show 'two words' & x.end", 0⟩ : Source).tokens with
  | error e =>
    rw [hts] at hread
    exact absurd hread Bool.false_ne_true
  | ok ts =>
  cases hb : (⟨"main.kode",
      "set x to -0.5.if x less  than 2 then show 'two words' & x.end", 0⟩ : Source).parse with
  | error e =>
    rw [hb] at hparsed
    exact absurd hparsed Bool.false_ne_true
  | ok b =>
    obtain ⟨us, hus, hmap, hall⟩ :=
      layout_independent hts (List.infix_refl ts) (Layout.lines ts)
        (rfl : (⟨"main.kode", (Layout.lines ts).text, 1⟩ : Source).text = _)
    obtain ⟨hparse, hrun⟩ := hall rfl
    rw [hb] at hparse
    cases hc : (⟨"main.kode", (Layout.lines ts).text, 1⟩ : Source).parse with
    | error e =>
      rw [hc] at hparse
      exact absurd hparse nofun
    | ok c =>
      rw [hc] at hparse
      exact ⟨ts, us, b, c, rfl, rfl, hus, hc, hmap, Except.ok.inj hparse, hrun b c hb hc⟩

end Source

end Kode
