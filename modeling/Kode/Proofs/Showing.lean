import Kode.Proofs.Variables

/-!
# Literals stand for themselves

A program that shows a literal writes what the literal says: the digits of an integer,
with its sign, or what stands between the quotes of a text, whatever that is.

* `Source.prints_of_literal`: to show a literal is to write its value;
* `Token.spelled_quoted`: a text in quotes is one token, whatever else it holds, if it
  does not hold its quote;
* `Source.literals_stand_for_themselves`: so integers and texts are shown as they are
  written, and a numeral means its integer wherever it stands.
-/

namespace Kode

open Lexeme

/-- The source is a program that writes this line and comes to its end, whatever there
    is to be read. -/
def Source.Prints (s : Source) (line : String) : Prop :=
  ∀ fuel answers, ∃ l st, Execution.ofSource fuel s (.initial answers) = .ran (.ok l st) ∧
    st.output = line ++ "\n"

/-! ## Showing a literal -/

/-- The block without spans that shows a literal. -/
def Block.show (t : Token) : Block :=
  [.display .empty (.literal t)]

theorem Derives.show {t : Token} (ht : t.isLiteral = true) :
    Derives [.ofKeyword .SHOW, t, .stop] (Block.show t) := by
  have hvalue : Derives [t] [.literal t] := .expression (.operand (.literal ht))
  have hperiod : ∀ u ∈ [t], u.isPeriod = false := by
    intro u hu
    obtain rfl := List.mem_singleton.1 hu
    exact Token.isPeriod_of_inExpression (by simp [Token.inExpression, Token.isOperand, ht])
  exact Derives.display (Token.isKeyword_ofKeyword .SHOW) Token.isPeriod_stop hperiod (by simp)
    hvalue .nil

/-- A literal by itself is shown as its value. -/
theorem Block.run_show {b : Block} {t : Token} {v : Value} (hb : Block.bare b = Block.show t)
    (ht : t.kind = .literal v) (fuel : Nat) (st : State) :
    ∃ l st', b.run fuel st = .ok l st' ∧ st'.output = st.output ++ v.shown ++ "\n" := by
  obtain ⟨s, b, rfl, hs, hb⟩ := Block.exists_of_bare_cons hb
  obtain rfl : b = [] := by cases b <;> simp_all [Block.bare]
  obtain ⟨k, w, rfl, hw⟩ := Statement.exists_of_bare_display hs
  obtain ⟨u, rfl, hu⟩ := Statement.exists_of_bare_literal hw
  have hkind : u.kind = .literal v := (congrArg Token.kind hu :).trans ht
  obtain ⟨trace, hliteral⟩ := Statement.eval_literal fuel st hkind
  obtain ⟨trace, hshow⟩ := Statement.eval_display (k := k) hliteral
  rw [Block.run, Block.eval, Block.evalAfter, Run.bind_eq_of_ok hshow]
  exact ⟨_, _, rfl, rfl⟩

/-- A program that shows a literal writes its value. -/
theorem Source.prints_of_literal {s : Source} {t : Token} {v : Value} (ht : t.Spelled)
    (hv : t.kind = .literal v) (hs : s.text = "SHOW " ++ t.text ++ ".") : s.Prints v.shown := by
  have hliteral : t.bare.isLiteral = true := by
    simp [Token.isLiteral, Token.bare, hv]
  have hspells : Spells s.text.toList [.ofKeyword .SHOW, t.bare, .stop] := by
    have hstop : Spells ".".toList [.stop] := .word Token.spelled_stop .nil .nil
    have hvalue := (Spells.word ht.bare (.period (by simp)) hstop).space
    have hshow := Spells.word (Token.spelled_ofKeyword .SHOW) .space hvalue
    rw [hs, String.toList_append, String.toList_append, List.append_assoc]
    exact hshow
  obtain ⟨us, hus, hfuses⟩ := s.exists_tokens hspells
  have hd := Derives.show hliteral
  have hmap := hfuses.map_bare_of_isChain ((hd.isChain_iff hspells.spelled).2 (by
    simp [Block.show, Block.targets, Statement.targets]))
  obtain ⟨b, hb, hbare⟩ := hd.transfer hmap
  have hbare : Block.bare b = Block.show t.bare := hbare
  have hparse : s.parse = .ok b := by
    refine (parse_eq_ok_iff_of_tokens hus).2 ⟨hb, ?_⟩
    rw [← Block.nesting_bare, hbare]
    simp [Block.show, Block.nesting, Statement.nesting, Block.maxDepth]
  intro fuel answers
  obtain ⟨l, st, hrun, houtput⟩ := Block.run_show hbare hv fuel (.initial answers)
  refine ⟨l, st, ?_, by simpa [State.initial] using houtput⟩
  rw [Execution.ofSource, hparse]
  exact congrArg _ hrun

/-! ## Quoted texts -/

namespace Token

/-- The token of a text in quotes. -/
def quoted (q : Char) (text : String) : Token :=
  ⟨.literal (.string text), String.singleton q ++ text ++ String.singleton q, .empty⟩

theorem toList_quoted (q : Char) (text : String) :
    (quoted q text).text.toList = q :: (text.toList ++ [q]) := by
  simp [quoted]

/-- A text in quotes is one token if it does not hold its quote. -/
theorem spelled_quoted {q : Char} {text : String} (hq : q ∈ Value.quotes)
    (htext : q ∉ text.toList) : (quoted q text).Spelled := by
  have hv := Value.ofLiteral?_of_quotes hq (toList_quoted q text)
  rw [String.ofList_toList] at hv
  refine spelled_of_ofLiteral? hv ?_ rfl
  rintro inner ⟨q', -, hmem, hquoted⟩
  rw [toList_quoted] at hquoted
  obtain ⟨rfl, hinner⟩ := List.cons.inj hquoted
  rw [List.append_left_inj] at hinner
  exact htext (hinner ▸ hmem)

end Token

/-- An integer is shown as it is written, and so is a text in quotes that does not
    hold its quote. A numeral is a literal of the integer that it stands for, if that has
    64 bits, and otherwise an invalid literal: as a source, and wherever one begins in
    a source that ends as a number. -/
theorem Source.literals_stand_for_themselves (name : String) (serial : Nat) :
    (∀ n : Int64, (⟨name, "SHOW " ++ toString n.toInt ++ ".", serial⟩ : Source).Prints
      (toString n.toInt)) ∧
    (∀ q ∈ Value.quotes, ∀ text : String, q ∉ text.toList →
      (⟨name, "SHOW " ++ String.singleton q ++ text ++ String.singleton q ++ ".", serial⟩ :
        Source).Prints text) ∧
    (∀ n : Text.Numeral,
      let s : Source := ⟨name, String.ofList n.chars, serial⟩
      (∀ m : Int64, m.toInt = n.number → s.tokens = .ok [⟨.literal (.integer m), s.text, s.whole⟩]) ∧
      (n.number < -2 ^ 63 ∨ 2 ^ 63 ≤ n.number → s.tokens = .error ⟨.invalidLiteral, s.whole⟩)) ∧
    ∀ (s : Source) (n : Text.Numeral) (front after : List Char) (ls : List Lexeme),
      Follows s front ls → (texts ls).flatten = n.chars ++ after → Text.EndsNumber after →
      ∃ rest, Follows s (front ++ n.chars) rest ∧ (texts rest).flatten = after ∧
        (∀ m : Int64, m.toInt = n.number → Lexeme.tokens s ls = (Lexeme.tokens s rest).map
          (⟨.literal (.integer m), String.ofList n.chars, spanBehind s front n.chars⟩ :: ·)) ∧
        (n.number < -2 ^ 63 ∨ 2 ^ 63 ≤ n.number →
          Lexeme.tokens s ls = .error ⟨.invalidLiteral, spanBehind s front n.chars⟩) := by
  have houtside {m : Int} (hm : m < -2 ^ 63 ∨ 2 ^ 63 ≤ m) : Value.ofInt? m = none := by
    rw [Value.ofInt?_eq_none_iff]
    omega
  refine ⟨fun n => prints_of_literal (Token.spelled_numeral n) rfl rfl, fun q hq text htext => ?_,
    fun n => ?_, fun s n front after ls hls htext hafter => ?_⟩
  · refine prints_of_literal (Token.spelled_quoted hq htext) rfl ?_
    simp only [Token.quoted, String.append_assoc]
  · have htokens := Source.tokens_numeral (s := ⟨name, String.ofList n.chars, serial⟩) n rfl
    refine ⟨fun m hm => ?_, fun hn => ?_⟩
    · rwa [← hm, Value.ofInt?_toInt] at htokens
    · rwa [houtside hn] at htokens
  · obtain ⟨rest, hrest, hback, htokens⟩ := hls.tokens_numeral n htext hafter
    refine ⟨rest, hrest, hback, fun m hm => ?_, fun hn => ?_⟩
    · rwa [← hm, Value.ofInt?_toInt] at htokens
    · rwa [houtside hn] at htokens

/-- The least integer, a text with a statement in it, a numeral that is out of range by
    one, and one with leading zeros in front of a minus. -/
theorem Source.literals_stand_for_themselves_of_edges :
    (⟨"main.kode", "SHOW -9223372036854775808.", 0⟩ : Source).Prints "-9223372036854775808" ∧
    (⟨"main.kode", "SHOW 'IF \"1\" THEN\n\tSHOW -.'.", 0⟩ : Source).Prints
      "IF \"1\" THEN\n\tSHOW -." ∧
    (⟨"main.kode", "-09223372036854775809", 0⟩ : Source).tokens =
      .error ⟨.invalidLiteral, .located ⟨"main.kode", "-09223372036854775809", 0⟩ 0 21 (by decide)⟩ ∧
    ∃ rest, Lexeme.tokens ⟨"main.kode", "1 007-2", 0⟩
        (Source.lexemes ⟨"main.kode", "1 007-2", 0⟩ |>.drop 2) =
      (Lexeme.tokens ⟨"main.kode", "1 007-2", 0⟩ rest).map
        (⟨.literal (.integer 7), "007",
          .located ⟨"main.kode", "1 007-2", 0⟩ 2 5 (by decide)⟩ :: ·) := by
  obtain ⟨hshow, hquoted, hsource, hplace⟩ := literals_stand_for_themselves "main.kode" 0
  refine ⟨hshow (-9223372036854775808), ?_, ?_, ?_⟩
  · exact hquoted '\'' (by decide) "IF \"1\" THEN\n\tSHOW -." (by decide)
  · exact (hsource ⟨true, "09223372036854775809".toList, by decide⟩).2 (by decide +kernel)
  · have hends : Text.EndsNumber ['-', '2'] :=
      ⟨by rintro _ ⟨⟩; decide, by simp⟩
    obtain ⟨rest, -, -, htokens, -⟩ := hplace ⟨"main.kode", "1 007-2", 0⟩
      ⟨false, "007".toList, by decide⟩ ['1', ' '] ['-', '2'] _
      ((follows_lexemes ⟨"main.kode", "1 007-2", 0⟩).drop 2) (by decide +kernel) hends
    exact ⟨rest, htokens 7 (by decide +kernel)⟩

end Kode
