import Kode.Proofs.Invariant
import Kode.Proofs.Neighbours
import Kode.Proofs.Numerals
import Kode.Proofs.Relocation

/-!
# Names as variables

Behind the name that a program assigns to stands a `TO`. If the name is spelled
`EQUAL`, in any mixture of upper and lower case, the two are an operator.

* `Source.toUpper_ne_of_mem_targets`: so no program assigns to such a name;
* `Source.assigns_and_shows_iff`: every other name can be assigned to, and what
  was assigned is shown.
-/

namespace Kode

/-- `TO` makes an operator with `EQUAL` alone. -/
theorem Operator.ofPhrase?_to (w : String) :
    (∃ op, ofPhrase? w "TO" = some op) ↔ w.toUpper = "EQUAL" := by
  constructor
  · rintro ⟨op, hop⟩
    have hp := List.find?_some hop
    have hto : "TO".toUpper = "TO" := by decide +kernel
    rw [decide_eq_true_eq, hto] at hp
    cases op <;> simp_all [phrase?]
  · intro h
    refine ⟨.equal, ?_⟩
    rw [ofPhrase?, h]
    decide +kernel

theorem Token.phrase_to_iff {x : Token} (h : x.isIdentifier = true) :
    x.Phrase (ofKeyword .TO) ↔ x.text.toUpper = "EQUAL" := by
  rw [← Operator.ofPhrase?_to]
  exact ⟨fun hp => hp.2.2, fun hp => ⟨h, .inl (isKeyword_ofKeyword .TO), hp⟩⟩

/-- No program assigns to a name that makes an operator together with `TO`. -/
theorem Source.toUpper_ne_of_mem_targets {s : Source} {b : Block} (hb : s.parse = .ok b) :
    ∀ x ∈ Block.targets b, x.text.toUpper ≠ "EQUAL" := by
  obtain ⟨ts, hts, -⟩ := Statement.bind_eq_ok hb
  obtain ⟨hd, -⟩ := (parse_eq_ok_iff_of_tokens hts).1 hb
  obtain ⟨hspelled, hchain⟩ := s.spelled_of_tokens hts
  intro x hx
  rw [Ne, ← Token.phrase_to_iff (hd.isIdentifier_of_mem_targets x hx)]
  exact (hd.isChain_iff hspelled).1 hchain x hx

/-! ## Evaluating single statements -/

/-- A note changes the trace only. -/
theorem Run.noted_eq_ok {s : Statement} {r : Run Located} {st : State} {l : Located} (st' : State)
    (h : r st = .ok l st') : ∃ trace, noted s r st = .ok l { st' with trace := trace } := by
  rw [noted, bind_eq_of_ok h]
  exact ⟨_, rfl⟩

/-- A literal comes to its value. -/
theorem Statement.eval_literal (fuel : Nat) (st : State) {v : Token} {value : Value}
    (h : v.kind = .literal value) :
    ∃ trace, (Statement.literal v).eval fuel st =
      .ok ⟨value, v.span⟩ { st with trace := trace } := by
  refine Run.noted_eq_ok st ?_
  rw [h]
  rfl

/-- A name that is bound comes to its value. -/
theorem Statement.eval_identifier (fuel : Nat) (st : State) {y : Token} {l : Located}
    (h : st.scope.get? y.text = some l) :
    ∃ trace, (Statement.identifier y).eval fuel st =
      .ok (l.at y.span) { st with trace := trace } := by
  refine Run.noted_eq_ok st ?_
  have hget : (get : Run State) st = .ok st st := rfl
  rw [Run.lookUp, Run.bind_eq_of_ok hget, Scope.resolve, h]
  rfl

/-- An assignment binds its name to what its value comes to. -/
theorem Statement.eval_assignment {fuel : Nat} {st st' : State} {k : Span} {x : Token}
    {value : Statement} {l : Located} (h : value.eval fuel st = .ok l st') :
    ∃ trace, (Statement.assignment k x value).eval fuel st =
      .ok (l.at (Statement.assignment k x value).span)
        { st' with scope := st'.scope.put x.text l, trace := trace } := by
  refine Run.noted_eq_ok { st' with scope := st'.scope.put x.text l } ?_
  rw [Run.bind_eq_of_ok h]
  rfl

/-- A `SHOW` writes what its value comes to. -/
theorem Statement.eval_display {fuel : Nat} {st st' : State} {k : Span} {value : Statement}
    {l : Located} (h : value.eval fuel st = .ok l st') :
    ∃ trace, (Statement.display k value).eval fuel st =
      .ok l { st' with output := st'.output ++ l.value.shown ++ "\n", trace := trace } := by
  refine Run.noted_eq_ok { st' with output := st'.output ++ l.value.shown ++ "\n" } ?_
  rw [Run.bind_eq_of_ok h]
  rfl

/-! ## Assigning and showing -/

/-- The block assigns the integer to the name and then shows what the name is
    bound to. -/
inductive Block.AssignsAndShows (name : String) (n : Int64) : Block → Prop
  | intro {k k' : Span} {x y v : Token} : x.text = name → y.text = name →
      v.kind = .literal (.integer n) →
      AssignsAndShows name n [.assignment k x (.literal v), .display k' (.identifier y)]

/-- Whatever state it begins in, such a block shows the integer. -/
theorem Block.AssignsAndShows.run {name : String} {n : Int64} {b : Block}
    (h : b.AssignsAndShows name n) (fuel : Nat) (st : State) :
    ∃ l st', b.run fuel st = .ok l st' ∧ st'.output = st.output ++ toString n.toInt ++ "\n" := by
  obtain ⟨hx, hy, hv⟩ := h
  rename_i k k' x y v
  obtain ⟨trace, hliteral⟩ := Statement.eval_literal fuel st hv
  obtain ⟨trace, hset⟩ := Statement.eval_assignment (k := k) (x := x) hliteral
  have hget : (st.scope.put x.text ⟨.integer n, v.span⟩).get? y.text =
      some ⟨.integer n, v.span⟩ := by
    rw [hy, hx, Scope.get?_put_self]
  obtain ⟨trace, hname⟩ := Statement.eval_identifier fuel
    { st with scope := st.scope.put x.text ⟨.integer n, v.span⟩, trace := trace } hget
  obtain ⟨trace, hshow⟩ := Statement.eval_display (k := k') hname
  rw [Block.run, Block.eval, Block.evalAfter, Run.bind_eq_of_ok hset, Block.evalAfter,
    Run.bind_eq_of_ok hshow]
  exact ⟨_, _, rfl, rfl⟩

/-- The block without spans that assigns and shows. -/
def Block.assignAndShow (x : Token) (n : Int64) : Block :=
  [.assignment .empty x (.literal (.numeral n)), .display .empty (.identifier x)]

theorem Block.assignsAndShows_of_bare {b : Block} {x : Token} {n : Int64}
    (h : Block.bare b = Block.assignAndShow x n) : b.AssignsAndShows x.text n := by
  obtain ⟨s, b, rfl, hs, hb⟩ := Block.exists_of_bare_cons h
  obtain ⟨s', b, rfl, hs', hb⟩ := Block.exists_of_bare_cons hb
  obtain rfl : b = [] := by cases b <;> simp_all [Block.bare]
  obtain ⟨k, y, w, rfl, hy, hw⟩ := Statement.exists_of_bare_assignment hs
  obtain ⟨v, rfl, hv⟩ := Statement.exists_of_bare_literal hw
  obtain ⟨k', w, rfl, hw⟩ := Statement.exists_of_bare_display hs'
  obtain ⟨z, rfl, hz⟩ := Statement.exists_of_bare_identifier hw
  exact ⟨(congrArg Token.text hy :), (congrArg Token.text hz :), (congrArg Token.kind hv :)⟩

theorem Block.bare_assignAndShow (t : Token) (n : Int64) :
    Block.bare (Block.assignAndShow t.bare n) = Block.assignAndShow t.bare n :=
  rfl

theorem Derives.assignAndShow {x : Token} (hx : x.isIdentifier = true) (n : Int64) :
    Derives [.ofKeyword .SET, x, .ofKeyword .TO, .numeral n, .stop, .ofKeyword .SHOW, x, .stop]
      (Block.assignAndShow x n) := by
  have hn : (Token.numeral n).isLiteral = true := rfl
  have hvalue : Derives [Token.numeral n] [.literal (.numeral n)] :=
    .expression (.operand (.literal hn))
  have hname : Derives [x] [.identifier x] := .expression (.operand (.identifier hx))
  have hshow := Derives.display (Token.isKeyword_ofKeyword .SHOW) Token.isPeriod_stop
    (by simpa using Token.isPeriod_of_isIdentifier hx) (by simp) hname .nil
  exact Derives.assignment (Token.isKeyword_ofKeyword .SET) hx (Token.isKeyword_ofKeyword .TO)
    Token.isPeriod_stop (by simp [Token.isPeriod, Token.numeral]) (by simp) hvalue hshow

/-- `SET x TO n. SHOW x.`, with gaps around the name. -/
theorem Spells.assignAndShow {before after : List Char} {x : Token}
    (hbefore : ∀ c ∈ before, Text.isBlank c = true) (hafter : ∀ c ∈ after, Text.isBlank c = true)
    (hx : x.Spelled) (n : Int64) :
    Spells ("SET ".toList ++ (before ++ (x.text.toList ++ after) ++ (" TO ".toList ++
        ((toString n.toInt).toList ++ (". SHOW ".toList ++
          (before ++ (x.text.toList ++ after) ++ ".".toList))))))
      [.ofKeyword .SET, x, .ofKeyword .TO, .numeral n, .stop, .ofKeyword .SHOW, x, .stop] := by
  -- From the end of the text to its beginning.
  have hstop : Spells ".".toList [.stop] :=
    .word Token.spelled_stop .nil .nil
  have hname := Spells.padded hbefore hafter hx (.period (by simp)) hstop
  have hshow := (Spells.word (Token.spelled_ofKeyword .SHOW) .space hname.space).space
  have hstop := Spells.word Token.spelled_stop .space hshow
  have hnumeral := (Spells.word (Token.spelled_numeral n) (.stop (by decide) _) hstop).space
  have hto := (Spells.word (Token.spelled_ofKeyword .TO) .space hnumeral).space
  have hname := Spells.padded hbefore hafter hx .space hto
  exact Spells.word (Token.spelled_ofKeyword .SET) .space hname.space

/-- A name can be assigned to, and shows what was assigned, unless it is spelled
    `EQUAL`. -/
theorem Source.assigns_and_shows_iff {s₀ s : Source} {t : Token} {n : Int64}
    (h₀ : s₀.tokens = .ok [t]) (ht : t.isIdentifier = true)
    (hs : s.text = "SET " ++ s₀.text ++ " TO " ++ toString n.toInt ++ ". SHOW " ++ s₀.text ++ ".") :
    (∃ b, s.parse = .ok b ∧ b.AssignsAndShows t.text n ∧
      ∀ fuel answers, ∃ l st, b.run fuel (.initial answers) = .ok l st ∧
        st.output = toString n.toInt ++ "\n") ↔
      t.text.toUpper ≠ "EQUAL" := by
  constructor
  · rintro ⟨b, hb, ⟨hx, -, -⟩, -⟩
    rw [← hx]
    exact s.toUpper_ne_of_mem_targets hb _ (by simp [Block.targets, Statement.targets])
  · intro hne
    obtain ⟨before, after, htext, hbefore, hafter⟩ := s₀.exists_gaps_of_tokens h₀
    have hspelled := (s₀.spelled_of_tokens h₀).1 t List.mem_cons_self
    have hspells := Spells.assignAndShow (x := t.bare) hbefore hafter hspelled.bare n
    obtain ⟨us, hus, hfuses⟩ := s.exists_tokens (by
      rw [hs]
      simpa [htext, Token.bare] using hspells)
    have hd := Derives.assignAndShow (x := t.bare) ((Token.isIdentifier_bare t).trans ht) n
    -- The tokens are read one by one, as the name makes no operator with `TO`.
    have hmap := hfuses.map_bare_of_isChain ((hd.isChain_iff hspells.spelled).2 fun x hx => by
      obtain rfl : x = t.bare := by
        simpa [Block.assignAndShow, Block.targets, Statement.targets] using hx
      rwa [Token.phrase_to_iff ((Token.isIdentifier_bare t).trans ht)])
    obtain ⟨b, hb, hbare⟩ := hd.transfer hmap
    rw [Block.bare_assignAndShow] at hbare
    have hshows := Block.assignsAndShows_of_bare hbare
    refine ⟨b, (parse_eq_ok_iff_of_tokens hus).2 ⟨hb, ?_⟩, hshows, fun fuel answers => ?_⟩
    · rw [← Block.nesting_bare, hbare]
      simp [Block.assignAndShow, Block.nesting, Statement.nesting, Block.maxDepth]
    · simpa [State.initial] using hshows.run fuel (.initial answers)

/-- A name may be the first word of another operator, and the integer may be the
    least one. -/
theorem Source.assigns_and_shows_of_less :
    ∃ b, (⟨"main.kode", "SET less TO -9223372036854775808. SHOW less.", 0⟩ : Source).parse = .ok b ∧
      b.AssignsAndShows "less" (-9223372036854775808) ∧
      ∀ fuel answers, ∃ l st, b.run fuel (.initial answers) = .ok l st ∧
        st.output = "-9223372036854775808\n" := by
  have h₀ : (⟨"main.kode", "less", 0⟩ : Source).tokens = .ok [⟨.identifier, "less",
      .located ⟨"main.kode", "less", 0⟩ 0 4 (by decide)⟩] := by decide +kernel
  exact (Source.assigns_and_shows_iff h₀ rfl (by decide +kernel)).2 (by decide +kernel)

/-- `equal` is a name by itself, but not in front of `TO`. -/
theorem Source.not_assigns_and_shows_of_equal :
    (∃ t, (⟨"main.kode", "equal", 0⟩ : Source).tokens = .ok [t] ∧ t.isIdentifier = true) ∧
      ∀ b, (⟨"main.kode", "SET equal TO 1. SHOW equal.", 0⟩ : Source).parse ≠ .ok b := by
  refine ⟨⟨⟨.identifier, "equal", .located ⟨"main.kode", "equal", 0⟩ 0 5 (by decide)⟩,
    by decide +kernel, rfl⟩, fun b hb => ?_⟩
  have hp : (⟨"main.kode", "SET equal TO 1. SHOW equal.", 0⟩ : Source).parse.isOk = false := by
    decide +kernel
  rw [hb] at hp
  exact absurd hp (by simp [Except.isOk, Except.toBool])

end Kode
