import Kode.Console
import Kode.Proofs.Concatenation
import Kode.Proofs.Erasure
import Kode.Proofs.Neighbours

/-!
# Programs one after the other

In a session programs are run one after the other, each from the state that the
one before has left. That comes to the same as to run a single program whose text
consists of all of theirs.

The texts must be put together at a place where a statement ends. Behind a period
or an `END` one does, as far as the tokens in front tell; where the first program
ends in a bare expression, more tokens would become part of it.

* `Derives.append`: what is derived from the tokens in front does not change with
  tokens behind them;
* `Block.run_append_ok`, `Block.run_append_error`: to run statements in front of
  others;
* `Source.session`: so the whole text parses to the statements of the two programs,
  and does what the session does.
-/

namespace Kode

/-! ## Trees side by side -/

/-- The tokens end where a statement may end: behind a period or an `END`. -/
def Token.EndsStatement (ts : List Token) : Prop :=
  ∀ t ∈ ts.getLast?, t.isPeriod = true ∨ t.isKeyword .END = true

namespace Token.EndsStatement

variable {ts us : List Token}

theorem of_suffix (h : EndsStatement us) (hts : ts <:+ us) : EndsStatement ts :=
  forall_getLast?_of_suffix hts h

theorem relocate (h : EndsStatement ts) (r : Relocation) :
    EndsStatement (ts.map (Token.relocate r)) := by
  intro t ht
  rw [List.getLast?_map] at ht
  obtain ⟨u, hu, rfl⟩ := Option.map_eq_some_iff.1 ht
  exact h u hu

theorem isIdentifier (h : EndsStatement ts) : ∀ t ∈ ts.getLast?, t.isIdentifier = false :=
  fun t ht => (h t ht).elim Token.isIdentifier_of_isPeriod Token.isIdentifier_of_isKeyword

/-- An expression ends in an operand. -/
theorem not_expression (h : EndsStatement ts) {s : Statement} : ¬ Expression ts s := by
  intro he
  have hlast := he.inExpression _ (List.getLast_mem he.ne_nil)
  rcases h _ (List.getLast_mem_getLast? he.ne_nil) with hp | hend
  · simp [Token.inExpression_eq_false_of_isPeriod hp] at hlast
  · rcases Token.keyword?_of_inExpression hlast with hk | hk <;>
      simp [Token.isKeyword, hk] at hend

instance (ts : List Token) : Decidable (EndsStatement ts) :=
  inferInstanceAs (Decidable (∀ t ∈ ts.getLast?, _))

end Token.EndsStatement

open Token (EndsStatement)

/-- Behind tokens that end where a statement ends, others make up what they make up
    by themselves. -/
theorem Derives.append {ts us : List Token} {b c : Block} (h : Derives ts b)
    (hts : EndsStatement ts) (hus : Derives us c) : Derives (ts ++ us) (b ++ c) := by
  induction h with
  | nil => exact hus
  | expression h => exact absurd h hts.not_expression
  | @display k p vs ts _ _ hk hp hvs hne hv _ _ ih =>
    have hrest := ih (hts.of_suffix ⟨k :: (vs ++ [p]), by simp⟩)
    simpa using Derives.display hk hp hvs hne hv hrest
  | @assignment k x w p vs ts _ _ hk hx hw hp hvs hne hv _ _ ih =>
    have hrest := ih (hts.of_suffix ⟨k :: x :: w :: (vs ++ [p]), by simp⟩)
    simpa using Derives.assignment hk hx hw hp hvs hne hv hrest
  | @input k p ts _ hk hp _ ih =>
    have hrest := ih (hts.of_suffix ⟨[k, p], rfl⟩)
    exact .input hk hp hrest
  | @conditional k w e cs ps stop ts _ _ _ hk hw he hs hcs hne hc hpass _ _ _ ih =>
    have hrest := ih (hts.of_suffix ⟨k :: (cs ++ w :: (ps ++ e :: stop)), by simp⟩)
    simpa using Derives.conditional hk hw he hs hcs hne hc hpass hrest
  | @alternative k w m e cs ps fs stop ts _ _ _ _ hk hw hm he hs hcs hne hc hp hf _ _ _ _ ih =>
    have hrest := ih (hts.of_suffix ⟨k :: (cs ++ w :: (ps ++ m :: (fs ++ e :: stop))), by simp⟩)
    simpa using Derives.alternative hk hw hm he hs hcs hne hc hp hf hrest
  | @loop k w e cs ps stop ts _ _ _ hk hw he hs hcs hne hc hbody _ _ _ ih =>
    have hrest := ih (hts.of_suffix ⟨k :: (cs ++ w :: (ps ++ e :: stop)), by simp⟩)
    simpa using Derives.loop hk hw he hs hcs hne hc hbody hrest

theorem Block.nesting_append (b c : Block) :
    Block.nesting (b ++ c) = max (Block.nesting b) (Block.nesting c) := by
  induction b with
  | nil => simp [Block.nesting]
  | cons s b ih => rw [List.cons_append, Block.nesting, ih, Block.nesting, Nat.max_assoc]

/-! ## Runs one after the other -/

namespace Block

variable {fuel : Nat} {b c : Block} {st st' : State}

theorem evalAfter_append (last : Located) :
    evalAfter fuel (b ++ c) last = evalAfter fuel b last >>= evalAfter fuel c := by
  induction b generalizing last with
  | nil => rw [List.nil_append, evalAfter, pure_bind]
  | cons s b ih =>
    rw [List.cons_append, evalAfter, evalAfter, bind_assoc]
    exact congrArg _ (funext fun l => ih l)

/-- Statements that are run behind others start from the state that these leave. -/
theorem run_append_ok {l : Located} (h : b.run fuel st = .ok l st') (hc : c ≠ []) :
    Block.run fuel (b ++ c) st = c.run fuel st' := by
  obtain ⟨s, ss, rfl⟩ := List.exists_cons_of_ne_nil hc
  rw [run, eval, evalAfter_append]
  change EStateM.bind _ _ st = _
  rw [EStateM.bind, show evalAfter fuel b .nothing st = .ok l st' from h]
  -- What there is before the first statement does not matter.
  rfl

/-- If the first statements stop, nothing is left to be run. -/
theorem run_append_error {stop : Stop} (h : b.run fuel st = .error stop st') :
    Block.run fuel (b ++ c) st = .error stop st' := by
  rw [run, eval, evalAfter_append]
  change EStateM.bind _ _ st = _
  rw [EStateM.bind, show evalAfter fuel b .nothing st = .error stop st' from h]

end Block

/-! ## Sessions -/

/-- A program that ends behind a period or an `END`, or has no tokens at all, and
    another one behind a line break: this text parses to the statements of the first
    program and, further down, those of the second.

    To run it is to run the first program and then, from the state that it leaves, the
    second one. If the first one comes to an end and the second has a statement, the
    result or the error is the same up to places, with the same output, the same names
    bound to the same values and the same input left. If the first one stops, so does
    the whole text, with the same error in its new place. -/
theorem Source.session {s s' whole : Source} {ts : List Token} {b c : Block}
    (hts : s.tokens = .ok ts) (hend : EndsStatement ts) (hb : s.parse = .ok b)
    (hc : s'.parse = .ok c) (hwhole : whole.text = s.text ++ "\n" ++ s'.text) :
    whole.parse = .ok (Block.relocate (.shift whole 0) b ++
        Block.relocate (.shift whole (s.size + 1)) c) ∧
      ∀ (fuel : Nat) (answers : List Answer),
        (∀ l st, b.run fuel (.initial answers) = .ok l st → c ≠ [] →
          Outcome.bare (Block.run fuel (Block.relocate (.shift whole 0) b ++
              Block.relocate (.shift whole (s.size + 1)) c) (.initial answers)) =
            Outcome.bare (c.run fuel st)) ∧
        ∀ stop st, b.run fuel (.initial answers) = .error stop st →
          Block.run fuel (Block.relocate (.shift whole 0) b ++
              Block.relocate (.shift whole (s.size + 1)) c) (.initial answers) =
            .error (stop.relocate (.shift whole 0)) (st.relocate (.shift whole 0)) := by
  obtain ⟨us, hus, -⟩ := Statement.bind_eq_ok hc
  obtain ⟨hdb, hnb⟩ := (parse_eq_ok_iff_of_tokens hts).1 hb
  obtain ⟨hdc, hnc⟩ := (parse_eq_ok_iff_of_tokens hus).1 hc
  have htokens := tokens_append hts hus hwhole hend.isIdentifier
  refine ⟨(parse_eq_ok_iff_of_tokens htokens).2 ⟨?_, ?_⟩, fun fuel answers => ?_⟩
  · exact (hdb.relocate _).append (hend.relocate _) (hdc.relocate _)
  · rw [Block.nesting_append, Block.nesting_relocate, Block.nesting_relocate]
    exact Nat.max_le.2 ⟨hnb, hnc⟩
  · have hrun := Block.relocate_run fuel (.shift whole 0) b (.initial answers)
    rw [State.relocate_initial] at hrun
    refine ⟨fun l st hok hne => ?_, fun stop st herror => ?_⟩
    · rw [hok] at hrun
      have hne' : Block.relocate (.shift whole (s.size + 1)) c ≠ [] := by
        obtain ⟨_, _, rfl⟩ := List.exists_cons_of_ne_nil hne
        exact List.cons_ne_nil _ _
      rw [Block.run_append_ok hrun.symm hne']
      exact Block.bare_run_congr fuel (Block.bare_relocate _ c) (State.bare_relocate _ st)
    · rw [herror] at hrun
      exact Block.run_append_error hrun.symm

/-- A loop that counts down, and behind it a program that uses its variable and reads
    a line. -/
theorem Source.session_of_loop :
    ∃ (s s' whole : Source) (b c : Block) (l : Located) (st : State),
      s.text = "set n to 2.while n > 0 do show n.set n to n - 1.end" ∧
      s'.text = " show n & input." ∧ whole.text = s.text ++ "\n" ++ s'.text ∧
      s.parse = .ok b ∧ s'.parse = .ok c ∧
      whole.parse = .ok (Block.relocate (.shift whole 0) b ++
        Block.relocate (.shift whole (s.size + 1)) c) ∧
      b.run 3 (.initial [.line "left"]) = .ok l st ∧
      Outcome.bare (Block.run 3 (Block.relocate (.shift whole 0) b ++
          Block.relocate (.shift whole (s.size + 1)) c) (.initial [.line "left"])) =
        Outcome.bare (c.run 3 st) := by
  obtain ⟨ts, hts, hends⟩ := Statement.eq_ok_of_any (show
    (⟨"main.kode", "set n to 2.while n > 0 do show n.set n to n - 1.end", 0⟩ :
      Source).tokens.toOption.any (fun ts => decide (EndsStatement ts)) = true by decide +kernel)
  obtain ⟨b, hb, hrun⟩ := Statement.eq_ok_of_any (show
    (⟨"main.kode", "set n to 2.while n > 0 do show n.set n to n - 1.end", 0⟩ :
      Source).parse.toOption.any (fun b =>
        (Outcome.stop? (b.run 3 (.initial [.line "left"]))).isNone) = true by decide +kernel)
  obtain ⟨c, hc, hne⟩ := Statement.eq_ok_of_any (show
    (⟨"main.kode", " show n & input.", 1⟩ :
      Source).parse.toOption.any (fun c => !c.isEmpty) = true by decide +kernel)
  rw [decide_eq_true_eq] at hends
  rw [Bool.not_eq_true', List.isEmpty_eq_false_iff] at hne
  cases hl : b.run 3 (.initial [.line "left"]) with
  | error stop st =>
    rw [hl] at hrun
    exact absurd hrun Bool.false_ne_true
  | ok l st =>
    obtain ⟨hparse, hsession⟩ := session hts hends hb hc (rfl : (⟨"main.kode",
      "set n to 2.while n > 0 do show n.set n to n - 1.end\n show n & input.", 2⟩ :
      Source).text = _)
    exact ⟨_, _, _, b, c, l, st, rfl, rfl, rfl, hb, hc, hparse, hl,
      (hsession 3 [.line "left"]).1 l st hl hne⟩

end Kode
