import Kode.Proofs.Neighbours
import Kode.Proofs.Relocation

/-!
# Formatting and parsing again

On one line a program is printed without periods. In a value there are none to
lose. But a condition ends at its `THEN` or `DO`, and may hold any statements,
with their periods; without them a `SHOW` or a `SET` in it does not end, and
neither does an `INPUT` that another statement follows. A condition without
these is *inlinable*, and a program is *printable* if all of its conditions are.

* `Derives.words_of_inlinable`: an inlinable block can be read from one line;
* `Derives.inlinable_of_forall`: so can every block without periods;
* `Derives.lines_of_printable`, `Derives.printable_of_lines`: a program can be
  read from its lines if it is printable, and only then;
* `Source.format_parses_iff`: so that is when its formatted text is a text of it.
-/

namespace Kode

/-- Whether the statement is an `INPUT`. -/
def Statement.isInput : Statement → Bool
  | .input _ => true
  | _ => false

mutual

/-- Whether the statement needs no period, at its end or inside. -/
def Statement.inlinable : Statement → Bool
  | .sequence body => Block.inlinable body
  | .literal _ | .identifier _ | .input _ | .operation .. => true
  | .assignment .. | .display .. => false
  | .conditional _ condition pass fail _ =>
    condition.inlinable && Block.inlinable pass && Block.inlinableElse fail
  | .loop _ condition body _ => condition.inlinable && Block.inlinable body

/-- Whether the statements need no periods. An `INPUT` needs one if anything
    follows. -/
def Block.inlinable : List Statement → Bool
  | [] => true
  | s :: ss => (ss.isEmpty || !s.isInput) && s.inlinable && Block.inlinable ss

/-- The same for what follows an `ELSE`, if there is one. -/
def Block.inlinableElse : Option (List Statement) → Bool
  | none => true
  | some body => Block.inlinable body

end

mutual

/-- Whether all conditions in the statement are inlinable, those in values
    apart. -/
def Statement.printable : Statement → Bool
  | .sequence body => Block.printable body
  | .literal _ | .identifier _ | .input _ | .operation .. | .assignment .. | .display .. => true
  | .conditional _ condition pass fail _ =>
    condition.inlinable && Block.printable pass && Block.printableElse fail
  | .loop _ condition body _ => condition.inlinable && Block.printable body

/-- Whether all conditions in the statements are inlinable, those in values
    apart. -/
def Block.printable : List Statement → Bool
  | [] => true
  | s :: ss => s.printable && Block.printable ss

/-- The same for what follows an `ELSE`, if there is one. -/
def Block.printableElse : Option (List Statement) → Bool
  | none => true
  | some body => Block.printable body

end

@[simp] theorem Block.inlinable_value (b : Block) : b.value.inlinable = Block.inlinable b := by
  match b with
  | [] => rfl
  | [s] => simp [Block.value, Block.inlinable]
  | s :: s' :: ss => rfl

/-! ## Without spans -/

theorem Statement.isInput_bare (s : Statement) : s.bare.isInput = s.isInput := by
  cases s <;> rfl

theorem Block.isEmpty_bare (b : List Statement) : (Block.bare b).isEmpty = b.isEmpty := by
  cases b <;> rfl

mutual

theorem Statement.inlinable_bare (s : Statement) : s.bare.inlinable = s.inlinable := by
  match s with
  | .sequence body => exact Block.inlinable_bare body
  | .literal _ | .identifier _ | .input _ | .operation .. | .assignment .. | .display .. => rfl
  | .conditional _ condition pass fail _ =>
    simp only [Statement.bare, Statement.inlinable, condition.inlinable_bare,
      Block.inlinable_bare pass, Block.inlinableElse_bare fail]
  | .loop _ condition body _ =>
    simp only [Statement.bare, Statement.inlinable, condition.inlinable_bare,
      Block.inlinable_bare body]

theorem Block.inlinable_bare (b : List Statement) :
    Block.inlinable (Block.bare b) = Block.inlinable b := by
  match b with
  | [] => rfl
  | s :: ss =>
    simp only [Block.bare, Block.inlinable, s.inlinable_bare, Block.inlinable_bare ss,
      s.isInput_bare, Block.isEmpty_bare]

theorem Block.inlinableElse_bare (b : Option (List Statement)) :
    Block.inlinableElse (Block.bareElse b) = Block.inlinableElse b := by
  match b with
  | none => rfl
  | some body => exact Block.inlinable_bare body

end

mutual

theorem Statement.printable_bare (s : Statement) : s.bare.printable = s.printable := by
  match s with
  | .sequence body => exact Block.printable_bare body
  | .literal _ | .identifier _ | .input _ | .operation .. | .assignment .. | .display .. => rfl
  | .conditional _ condition pass fail _ =>
    simp only [Statement.bare, Statement.printable, condition.inlinable_bare,
      Block.printable_bare pass, Block.printableElse_bare fail]
  | .loop _ condition body _ =>
    simp only [Statement.bare, Statement.printable, condition.inlinable_bare,
      Block.printable_bare body]

theorem Block.printable_bare (b : List Statement) :
    Block.printable (Block.bare b) = Block.printable b := by
  match b with
  | [] => rfl
  | s :: ss =>
    simp only [Block.bare, Block.printable, s.printable_bare, Block.printable_bare ss]

theorem Block.printableElse_bare (b : Option (List Statement)) :
    Block.printableElse (Block.bareElse b) = Block.printableElse b := by
  match b with
  | none => rfl
  | some body => exact Block.printable_bare body

end

/-! ## On one line -/

theorem Expression.inlinable {ts : List Token} {s : Statement} (h : Expression ts s) :
    s.inlinable = true := by
  cases h with
  | operand h => cases h <;> rfl
  | operation => rfl

theorem Expression.printable {ts : List Token} {s : Statement} (h : Expression ts s) :
    s.printable = true := by
  cases h with
  | operand h => cases h <;> rfl
  | operation => rfl

/-- What has no periods needs none. -/
theorem Derives.inlinable_of_forall {ts : List Token} {b : Block} (h : Derives ts b)
    (hts : ∀ t ∈ ts, t.isPeriod = false) : Block.inlinable b = true := by
  induction h with
  | nil => rfl
  | expression h => simp [Block.inlinable, h.inlinable]
  -- Rules with a period of their own do not apply.
  | @display _ p _ _ _ _ _ hp => simp [hts p (by simp)] at hp
  | @assignment _ _ _ p _ _ _ _ _ _ _ hp => simp [hts p (by simp)] at hp
  | @input _ p _ _ _ hp => simp [hts p (by simp)] at hp
  | conditional _ _ _ _ _ _ _ _ _ ihc ihp ih =>
    simp only [List.forall_mem_cons, List.forall_mem_append] at hts
    obtain ⟨-, hcs, -, hps, -, -, hts⟩ := hts
    simp [Block.inlinable, Block.inlinableElse, Statement.inlinable, Statement.isInput, ihc hcs,
      ihp hps, ih hts]
  | alternative _ _ _ _ _ _ _ _ _ _ _ ihc ihp ihf ih =>
    simp only [List.forall_mem_cons, List.forall_mem_append] at hts
    obtain ⟨-, hcs, -, hps, -, hfs, -, -, hts⟩ := hts
    simp [Block.inlinable, Block.inlinableElse, Statement.inlinable, Statement.isInput, ihc hcs,
      ihp hps, ihf hfs, ih hts]
  | loop _ _ _ _ _ _ _ _ _ ihc ihp ih =>
    simp only [List.forall_mem_cons, List.forall_mem_append] at hts
    obtain ⟨-, hcs, -, hps, -, -, hts⟩ := hts
    simp [Block.inlinable, Statement.inlinable, Statement.isInput, ihc hcs, ihp hps, ih hts]

theorem Token.operators_printed (ts : List Token) : operators (printed ts) = operators ts := by
  induction ts with
  | nil => rfl
  | cons t ts ih =>
    cases hp : t.isPeriod with
    | true =>
      have ho : t.operator? = none := by
        simp [operator?, kind_of_isPeriod hp]
      rw [printed_cons_of_isPeriod hp, operators_cons_of_none ho, ih]
    | false =>
      rw [printed_cons hp]
      cases ho : t.operator? with
      | none => rw [operators_cons_of_none (by simpa using ho), operators_cons_of_none ho, ih]
      | some op => rw [operators_cons_of_some (by simpa using ho), operators_cons_of_some ho, ih]

/-- An expression is printed as one. -/
theorem Expression.printed {ts : List Token} {s : Statement} (h : Expression ts s) :
    Expression (Token.printed ts) s.bare := by
  induction h with
  | operand h =>
    cases h with
    | literal h =>
      rw [← (Operand.literal h).words_eq]
      exact .operand (.literal h)
    | identifier h =>
      rw [← (Operand.identifier h).words_eq]
      exact .operand (.identifier h)
    | input h =>
      rw [← (Operand.input h).words_eq]
      exact .operand (.input (Token.isKeyword_ofKeyword .INPUT))
  | @operation _ _ o _ _ _ _ ho _ hle hlt ihl ihr =>
    have hp := Token.isPeriod_of_inExpression (t := o) (by simp [Token.inExpression, ho])
    rw [← Token.operators_printed] at hle hlt
    rw [Token.printed_append, Token.printed_cons hp, Token.canonical_of_operator? ho]
    exact .operation ihl (Token.operator?_ofOperator _) ihr hle hlt

theorem Token.isKeyword_of_printed {word : Keyword} {ts : List Token}
    (h : ∀ t ∈ ts, t.isKeyword word = false) : ∀ t ∈ printed ts, t.isKeyword word = false := by
  intro t ht
  obtain ⟨u, hu, rfl⟩ := List.mem_map.1 ht
  rw [isKeyword, keyword?_canonical]
  exact h u (List.mem_filter.1 hu).1

/-- Something is printed of every value and condition. -/
theorem Derives.words_ne_nil {ts : List Token} {b : Block} (h : Derives ts b) (hne : ts ≠ []) :
    Block.words b ≠ [] := by
  obtain ⟨t, ts, rfl⟩ := List.exists_cons_of_ne_nil hne
  have hdrop := Statement.dropPeriod_append .absent h
  rw [h.words_eq]
  cases hp : t.isPeriod with
  | false => simp [Token.printed_cons hp]
  | true => simp [Statement.dropPeriod, hp] at hdrop

/-- What is printed of a condition ends where the condition did. -/
theorem Derives.isKeyword_words {cs : List Token} {c : Block} {word : Keyword} (hc : Derives cs c)
    (hcs : ∀ t ∈ cs, t.isKeyword word = false) : ∀ t ∈ Block.words c, t.isKeyword word = false := by
  rw [hc.words_eq]
  exact Token.isKeyword_of_printed hcs

/-- An inlinable block can be read from one line. -/
theorem Derives.words_of_inlinable {ts : List Token} {b : Block} (h : Derives ts b)
    (hb : Block.inlinable b = true) : Derives (Block.words b) (Block.bare b) := by
  induction h with
  | nil => exact .nil
  | expression h =>
    simpa [Block.words, Block.bare, h.words_eq] using Derives.expression h.printed
  | display => simp [Block.inlinable, Statement.inlinable] at hb
  | assignment => simp [Block.inlinable, Statement.inlinable] at hb
  | input hk _ hd =>
    simp only [Block.inlinable, Statement.isInput, Bool.not_true, Bool.or_false, Bool.and_eq_true,
      List.isEmpty_iff] at hb
    obtain ⟨⟨rfl, -⟩, -⟩ := hb
    exact .expression (.operand (.input (Token.isKeyword_ofKeyword .INPUT)))
  | conditional _ _ _ _ hcs hne hc _ _ ihc ihp ih =>
    simp only [Block.inlinable, Statement.inlinable, Block.inlinable_value, Bool.and_eq_true] at hb
    obtain ⟨⟨-, ⟨hbc, hbp⟩, -⟩, hb⟩ := hb
    have := Derives.conditional (Token.isKeyword_ofKeyword .IF) (Token.isKeyword_ofKeyword .THEN)
      (Token.isKeyword_ofKeyword .END) .absent (hc.isKeyword_words hcs) (hc.words_ne_nil hne)
      (ihc hbc) (ihp hbp) (ih hb)
    simpa [Block.words, Block.wordsElse, Statement.words, Block.bare, Block.bareElse,
      Statement.bare] using this
  | alternative _ _ _ _ _ hcs hne hc _ _ _ ihc ihp ihf ih =>
    simp only [Block.inlinable, Statement.inlinable, Block.inlinableElse, Block.inlinable_value,
      Bool.and_eq_true] at hb
    obtain ⟨⟨-, ⟨hbc, hbp⟩, hbf⟩, hb⟩ := hb
    have := Derives.alternative (Token.isKeyword_ofKeyword .IF) (Token.isKeyword_ofKeyword .THEN)
      (Token.isKeyword_ofKeyword .ELSE) (Token.isKeyword_ofKeyword .END) .absent
      (hc.isKeyword_words hcs) (hc.words_ne_nil hne) (ihc hbc) (ihp hbp) (ihf hbf) (ih hb)
    simpa [Block.words, Block.wordsElse, Statement.words, Block.bare, Block.bareElse,
      Statement.bare] using this
  | loop _ _ _ _ hcs hne hc _ _ ihc ihp ih =>
    simp only [Block.inlinable, Statement.inlinable, Block.inlinable_value, Bool.and_eq_true] at hb
    obtain ⟨⟨-, hbc, hbp⟩, hb⟩ := hb
    have := Derives.loop (Token.isKeyword_ofKeyword .WHILE) (Token.isKeyword_ofKeyword .DO)
      (Token.isKeyword_ofKeyword .END) .absent (hc.isKeyword_words hcs) (hc.words_ne_nil hne)
      (ihc hbc) (ihp hbp) (ih hb)
    simpa [Block.words, Statement.words, Block.bare, Statement.bare] using this

/-! ## On lines of its own -/

/-- A value is read from one line. -/
theorem Derives.words_of_forall {ts : List Token} {b : Block} (h : Derives ts b)
    (hts : ∀ t ∈ ts, t.isPeriod = false) :
    Derives (Block.words b) (Block.bare b) ∧ ∀ t ∈ Block.words b, t.isPeriod = false := by
  refine ⟨h.words_of_inlinable (h.inlinable_of_forall hts), fun t ht => ?_⟩
  rw [h.words_eq] at ht
  exact Token.isPeriod_of_mem_printed ht

/-- A printable block can be read from its lines. -/
theorem Derives.lines_of_printable {ts : List Token} {b : Block} (h : Derives ts b)
    (hb : Block.printable b = true) : Derives (Block.lines b) (Block.bare b) := by
  induction h with
  | nil => exact .nil
  | expression h =>
    -- A bare `INPUT` gets a period.
    have hs := h.printed
    rw [← h.words_eq] at hs
    cases h with
    | operand h =>
      cases h with
      | literal => exact .expression hs
      | identifier => exact .expression hs
      | input => exact .input (Token.isKeyword_ofKeyword .INPUT) Token.isPeriod_stop .nil
    | operation =>
      simpa [Block.lines, Statement.lines, Block.bare] using Derives.expression hs
  | display _ _ hvs hne hv _ _ ih =>
    simp only [Block.printable, Statement.printable, Bool.true_and] at hb
    obtain ⟨hwords, hperiod⟩ := hv.words_of_forall hvs
    have := Derives.display (Token.isKeyword_ofKeyword .SHOW) Token.isPeriod_stop hperiod
      (hv.words_ne_nil hne) hwords (ih hb)
    simpa [Block.lines, Statement.lines, Statement.words, Block.bare, Statement.bare] using this
  | assignment _ hx _ _ hvs hne hv _ _ ih =>
    simp only [Block.printable, Statement.printable, Bool.true_and] at hb
    obtain ⟨hwords, hperiod⟩ := hv.words_of_forall hvs
    have := Derives.assignment (Token.isKeyword_ofKeyword .SET)
      ((Token.isIdentifier_bare _).trans hx) (Token.isKeyword_ofKeyword .TO) Token.isPeriod_stop
      hperiod (hv.words_ne_nil hne) hwords (ih hb)
    simpa [Block.lines, Statement.lines, Statement.words, Block.bare, Statement.bare] using this
  | input _ _ _ ih =>
    simp only [Block.printable, Statement.printable, Bool.true_and] at hb
    exact .input (Token.isKeyword_ofKeyword .INPUT) Token.isPeriod_stop (ih hb)
  | conditional _ _ _ _ hcs hne hc _ _ _ ihp ih =>
    simp only [Block.printable, Statement.printable, Block.inlinable_value, Bool.and_eq_true] at hb
    obtain ⟨⟨⟨hbc, hbp⟩, -⟩, hb⟩ := hb
    have := Derives.conditional (Token.isKeyword_ofKeyword .IF) (Token.isKeyword_ofKeyword .THEN)
      (Token.isKeyword_ofKeyword .END) (.present Token.isPeriod_stop) (hc.isKeyword_words hcs)
      (hc.words_ne_nil hne) (hc.words_of_inlinable hbc) (ihp hbp) (ih hb)
    simpa [Block.lines, Block.linesElse, Statement.lines, Block.bare, Block.bareElse,
      Statement.bare] using this
  | alternative _ _ _ _ _ hcs hne hc _ _ _ _ ihp ihf ih =>
    simp only [Block.printable, Statement.printable, Block.printableElse, Block.inlinable_value,
      Bool.and_eq_true] at hb
    obtain ⟨⟨⟨hbc, hbp⟩, hbf⟩, hb⟩ := hb
    have := Derives.alternative (Token.isKeyword_ofKeyword .IF) (Token.isKeyword_ofKeyword .THEN)
      (Token.isKeyword_ofKeyword .ELSE) (Token.isKeyword_ofKeyword .END)
      (.present Token.isPeriod_stop) (hc.isKeyword_words hcs) (hc.words_ne_nil hne)
      (hc.words_of_inlinable hbc) (ihp hbp) (ihf hbf) (ih hb)
    simpa [Block.lines, Block.linesElse, Statement.lines, Block.bare, Block.bareElse,
      Statement.bare] using this
  | loop _ _ _ _ hcs hne hc _ _ _ ihp ih =>
    simp only [Block.printable, Statement.printable, Block.inlinable_value, Bool.and_eq_true] at hb
    obtain ⟨⟨hbc, hbp⟩, hb⟩ := hb
    have := Derives.loop (Token.isKeyword_ofKeyword .WHILE) (Token.isKeyword_ofKeyword .DO)
      (Token.isKeyword_ofKeyword .END) (.present Token.isPeriod_stop) (hc.isKeyword_words hcs)
      (hc.words_ne_nil hne) (hc.words_of_inlinable hbc) (ihp hbp) (ih hb)
    simpa [Block.lines, Statement.lines, Block.bare, Statement.bare] using this

/-- Two ways to cut a list are the same if as many tokens that are no periods
    stand before the cut, and none directly behind it. -/
theorem Token.append_cons_inj {xs ys us vs : List Token} {t u : Token}
    (h : xs ++ t :: us = ys ++ u :: vs) (hcount : wordCount xs = wordCount ys)
    (ht : t.isPeriod = false) (hu : u.isPeriod = false) : xs = ys ∧ us = vs := by
  rcases List.append_eq_append_iff.1 h with ⟨zs, rfl, hzs⟩ | ⟨zs, rfl, hzs⟩
  · cases zs with
    | nil => simpa using (List.cons.inj hzs).2
    | cons z zs =>
      obtain ⟨rfl, -⟩ := List.cons.inj hzs
      simp [wordCount_cons, ht] at hcount
  · cases zs with
    | nil => simpa using (List.cons.inj hzs).2.symm
    | cons z zs =>
      obtain ⟨rfl, -⟩ := List.cons.inj hzs
      simp [wordCount_cons, hu] at hcount

/-- Nor are there two ways to cut at the first period. -/
theorem Token.append_period_inj {xs ys us vs : List Token} {p q : Token}
    (h : xs ++ p :: us = ys ++ q :: vs) (hxs : ∀ t ∈ xs, t.isPeriod = false)
    (hys : ∀ t ∈ ys, t.isPeriod = false) (hp : p.isPeriod = true) (hq : q.isPeriod = true) :
    us = vs := by
  have hcut : cutAt? Token.isPeriod (xs ++ p :: us) = some ⟨xs, p, us⟩ := cutAt?_append hxs hp
  rw [h, cutAt?_append hys hq] at hcut
  exact (Cut.mk.inj (Option.some.inj hcut)).2.2.symm

/-- A block whose own tokens are those of its lines is printable. -/
theorem Derives.printable_of_lines {us : List Token} {b : Block} (h : Derives us b)
    (hus : us = Block.lines b) : Block.printable b = true := by
  have keyword {t : Token} {word : Keyword} (ht : t.isKeyword word = true) :=
    Token.isPeriod_of_isKeyword ht
  have noPeriod {cs : List Token} {c : Block} (hc : Derives cs c) :
      ∀ t ∈ Block.words c, t.isPeriod = false := by
    rw [hc.words_eq]
    exact fun t => Token.isPeriod_of_mem_printed
  -- What is printed of a condition has no periods, so the condition has none.
  have condition {cs : List Token} {c : Block} (hc : Derives cs c) (hcs : cs = Block.words c) :
      Block.inlinable c = true :=
    hc.inlinable_of_forall (hcs ▸ noPeriod hc)
  -- No statement begins with a period, so the one behind an `END` belongs to it.
  have rest {stop us : List Token} {c d : Block} (hs : OptionalPeriod stop) (hc : Derives us c)
      (h : stop ++ us = .stop :: Block.lines d) : us = Block.lines d := by
    rw [← Statement.dropPeriod_append hs hc, h]
    rfl
  have words {cs : List Token} {c : Block} (hc : Derives cs c) :
      Token.wordCount cs = Token.wordCount (Block.words c) := by
    rw [hc.words_eq, Token.wordCount_printed]
  induction h with
  | nil => rfl
  | expression h => simp [Block.printable, h.printable]
  | display hk hp hvs _ hv _ _ ih =>
    simp only [Block.lines, Statement.lines, Statement.words, Block.words_value, List.cons_append,
      List.append_assoc, List.nil_append, List.cons.injEq] at hus
    simp [Block.printable, Statement.printable,
      ih (Token.append_period_inj hus.2 hvs (noPeriod hv) hp rfl)]
  | assignment hk hx hw hp hvs _ hv _ _ ih =>
    simp only [Block.lines, Statement.lines, Statement.words, Block.words_value, List.cons_append,
      List.append_assoc, List.nil_append, List.cons.injEq] at hus
    simp [Block.printable, Statement.printable,
      ih (Token.append_period_inj hus.2.2.2 hvs (noPeriod hv) hp rfl)]
  | input hk hp _ ih =>
    simp only [Block.lines, Statement.lines, Statement.words, List.cons_append, List.nil_append,
      List.cons.injEq] at hus
    simp [Block.printable, Statement.printable, ih hus.2.2]
  | conditional hk hw he hs _ _ hc hpass hd _ ihp ih =>
    simp only [Block.lines, Block.linesElse, Statement.lines, Block.words_value, List.cons_append,
      List.append_assoc, List.nil_append, List.cons.injEq] at hus
    obtain ⟨hcs, hus⟩ := Token.append_cons_inj hus.2 (words hc) (keyword hw) rfl
    obtain ⟨hps, hus⟩ := Token.append_cons_inj hus hpass.wordCount_lines.symm (keyword he) rfl
    simp [Block.printable, Block.printableElse, Statement.printable, condition hc hcs, ihp hps,
      ih (rest hs hd hus)]
  | alternative hk hw hm he hs _ _ hc hpass hfail hd _ ihp ihf ih =>
    simp only [Block.lines, Block.linesElse, Statement.lines, Block.words_value, List.cons_append,
      List.append_assoc, List.nil_append, List.cons.injEq] at hus
    obtain ⟨hcs, hus⟩ := Token.append_cons_inj hus.2 (words hc) (keyword hw) rfl
    obtain ⟨hps, hus⟩ := Token.append_cons_inj hus hpass.wordCount_lines.symm (keyword hm) rfl
    obtain ⟨hfs, hus⟩ := Token.append_cons_inj hus hfail.wordCount_lines.symm (keyword he) rfl
    simp [Block.printable, Block.printableElse, Statement.printable, condition hc hcs, ihp hps,
      ihf hfs, ih (rest hs hd hus)]
  | loop hk hw he hs _ _ hc hbody hd _ ihp ih =>
    simp only [Block.lines, Statement.lines, Block.words_value, List.cons_append,
      List.append_assoc, List.nil_append, List.cons.injEq] at hus
    obtain ⟨hcs, hus⟩ := Token.append_cons_inj hus.2 (words hc) (keyword hw) rfl
    obtain ⟨hps, hus⟩ := Token.append_cons_inj hus hbody.wordCount_lines.symm (keyword he) rfl
    simp [Block.printable, Statement.printable, condition hc hcs, ihp hps, ih (rest hs hd hus)]

/-- The formatted text of a program parses to the same program, up to spans, if
    it is printable, and only then. The text of that program, formatted again,
    is the same. -/
theorem Source.format_parses_iff {s s' : Source} {b : Block} (hb : s.parse = .ok b)
    (hs' : s'.text = Block.format b) :
    (∃ c, s'.parse = .ok c ∧ Block.bare c = Block.bare b ∧ Block.format c = s'.text) ↔
      Block.printable b = true := by
  obtain ⟨ts, hts, -⟩ := Statement.bind_eq_ok hb
  obtain ⟨hd, hn⟩ := (parse_eq_ok_iff_of_tokens hts).1 hb
  obtain ⟨hspelled, hchain⟩ := s.spelled_of_tokens hts
  obtain ⟨us, hus, hfuses⟩ : ∃ us, s'.tokens = .ok us ∧ Fuses (Block.lines b) us := by
    refine s'.exists_tokens ?_
    rw [hs']
    exact Block.spells_format b (hd.spelled hspelled)
  constructor
  · rintro ⟨c, hc, hcb, -⟩
    have hc := ((parse_eq_ok_iff_of_tokens hus).1 hc).1
    -- Nothing has become another token, for the program has as many as before.
    have hmap : us.map Token.bare = (Block.lines b).map Token.bare := by
      refine hfuses.wordCount_le.2 ?_
      rw [← hc.wordCount_lines, ← Block.lines_bare c, hcb, Block.lines_bare]
    obtain ⟨d, hd', hdb⟩ := hc.transfer hmap.symm
    rw [← Block.printable_bare b, ← hcb, ← hdb, Block.printable_bare]
    refine hd'.printable_of_lines ?_
    rw [← Block.lines_bare b, ← hcb, ← hdb, Block.lines_bare]
  · intro hprintable
    have hlines := hd.lines_of_printable hprintable
    have hspells := (Block.spells_format b (hd.spelled hspelled)).spelled
    -- The names that are assigned to are those of the first text.
    have hmap : us.map Token.bare = (Block.lines b).map Token.bare := by
      refine hfuses.map_bare_of_isChain ((hlines.isChain_iff hspells).2 fun x hx => ?_)
      rw [Block.targets_bare] at hx
      obtain ⟨y, hy, rfl⟩ := List.mem_map.1 hx
      exact (hd.isChain_iff hspelled).1 hchain y hy
    obtain ⟨c, hc, hcb⟩ := hlines.transfer hmap
    rw [Block.bare_bare] at hcb
    refine ⟨c, (parse_eq_ok_iff_of_tokens hus).2 ⟨hc, ?_⟩, hcb, ?_⟩
    · rwa [← Block.nesting_bare, hcb, Block.nesting_bare]
    · rw [← Block.format_bare, hcb, Block.format_bare, hs']

/-- A loop with two statements for a condition and a conditional for a value. -/
theorem Source.format_parses_of_loop :
    ∃ b c,
      (⟨"main.kode", "while if a then b end c do show if a then 1 end.end", 0⟩ : Source).parse =
        .ok b ∧
      (⟨"main.kode", Block.format b, 0⟩ : Source).parse = .ok c ∧
      Block.bare c = Block.bare b ∧ Block.format c = Block.format b := by
  have hp : (match (⟨"main.kode", "while if a then b end c do show if a then 1 end.end", 0⟩ :
      Source).parse with
    | .ok b => Block.printable b
    | .error _ => false) = true := by decide +kernel
  split at hp
  · rename_i b hb
    obtain ⟨c, hc⟩ := (Source.format_parses_iff hb
      (rfl : (⟨"main.kode", Block.format b, 0⟩ : Source).text = Block.format b)).2 hp
    exact ⟨b, c, hb, hc⟩
  · exact absurd hp (by simp)

/-- A condition with a period is printed without it, and cannot be read again. -/
theorem Source.not_format_parses_of_condition :
    ∃ b, (⟨"main.kode", "IF SHOW TRUE. TRUE THEN END.", 0⟩ : Source).parse = .ok b ∧
      ∀ c, (⟨"main.kode", Block.format b, 0⟩ : Source).parse ≠ .ok c := by
  have hp : (match (⟨"main.kode", "IF SHOW TRUE. TRUE THEN END.", 0⟩ : Source).parse with
    | .ok b => (⟨"main.kode", Block.format b, 0⟩ : Source).parse.isOk
    | .error _ => true) = false := by decide +kernel
  split at hp
  · rename_i b hb
    refine ⟨b, hb, fun c hc => ?_⟩
    rw [hc] at hp
    exact absurd hp (by simp [Except.isOk, Except.toBool])
  · exact absurd hp (by simp)

end Kode
