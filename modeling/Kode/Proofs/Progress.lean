import Kode.Proofs.Descent
import Kode.Proofs.Parsing

/-!
# Bounds and progress

Parsing by recursive descent (`Kode.Proofs.Descent`) computes with bare places. That these
never leave the tokens, and that every loop ends, is shown along the parser of lists,
function by function: if a stream holds some tokens (`Stream.Holds`), the work on it comes to
the same end as the parser of these tokens, and all of its steps are safe (`Mirrors`). The
windows that are handed over hold some, but not all of the tokens of the statement
(`Within`), so a parser that is right about these is right about the whole (`Obeys`).

* `Holds.scan`: the search for the end of a body, with the places that it computes;
* `Holds.statement`: the rules that are tried, and the one that the first token tells;
* `Holds.block`: the loop over the statements, each of which takes a token at least;
* `parse_safe`: bounds and progress for all tokens.
-/

namespace Kode

namespace Stream

open Work

variable {all back ts us whole : List Token} {t : Token} {s w : Stream} {rounds : Nat}

/-- The window holds the tokens `us`, which are some of the tokens `ts` of a stream, but not
    all of them. Behind the window of that stream come the tokens `back`. -/
def Within (all back ts us : List Token) (w : Stream) : Prop :=
  ∃ front rest, ts = front ++ us ++ rest ∧ us.length < ts.length ∧ w.Holds all (rest ++ back) us

/-- The statement has been read, and the rest is left to the stream. -/
def Leaves (all back : List Token) (m : Statement × Stream) (p : Statement × List Token) : Prop :=
  m.1 = p.1 ∧ m.2.Holds all back p.2

/-- A parser of windows does what a parser of tokens does. -/
def Obeys (all : List Token) (nested : Stream → Work Block) (nested' : BlockParser) : Prop :=
  ∀ {back ts w}, w.Holds all back ts → Mirrors (Step.Safe all) Eq (nested w) (nested' ts)

theorem Holds.length_le (h : s.Holds all back ts) : ts.length ≤ all.length :=
  Nat.le_trans (List.sublist_append_left ts back).length_le h.suffix.length_le

/-! ## Values and windows -/

/-- A window that leaves something out. -/
theorem Holds.within (front rest : List Token) (h : w.Holds all (rest ++ back) us)
    (hts : ts = front ++ us ++ rest) (hne : front ≠ [] ∨ rest ≠ []) :
    w.Within all back ts us := by
  refine ⟨front, rest, hts, ?_, h⟩
  have hpos : 0 < front.length + rest.length := by
    rcases hne with hne | hne <;> have := List.length_pos_iff.2 hne <;> omega
  rw [hts, List.length_append, List.length_append]
  omega

theorem Within.isEmpty (hw : w.Within all back ts us) : w.isEmpty = us.isEmpty := by
  obtain ⟨_, _, -, -, hw⟩ := hw
  exact hw.isEmpty

section Parts

variable {nested : Stream → Work Block} {nested' : BlockParser}

theorem Holds.enter (h : s.Holds all back ts) (hnested : Obeys all nested nested')
    (hw : w.Within all back ts us) :
    Mirrors (Step.Safe all) Eq (enter nested s w) (nested' us) := by
  obtain ⟨front, rest, hts, hlt, hw⟩ := hw
  exact (yields_log (h.safe_enter hw hts hlt)).bind (hnested hw)

theorem Holds.enterElse {w : Option Stream} {us : Option (List Token)} (h : s.Holds all back ts)
    (hnested : Obeys all nested nested') (hw : Option.Rel (Within all back ts) us w) :
    Mirrors (Step.Safe all) Eq (enterElse nested s w) (Statement.parseElse nested' us) := by
  cases hw with
  | none => exact mirrors_pure rfl
  | some hw => exact mirrors_map (h.enter hnested hw) fun _ _ _ hb => mirrors_pure (hb ▸ rfl)

theorem Holds.value {anchor : Span} (h : s.Holds all back ts) (hnested : Obeys all nested nested')
    (hw : w.Within all back ts us) :
    Mirrors (Step.Safe all) Eq (value nested s anchor w)
      (Statement.parseValue nested' anchor us) := by
  rw [Stream.value, Statement.parseValue, hw.isEmpty]
  split
  · exact mirrors_reject _
  · exact mirrors_map (h.enter hnested hw) fun _ _ _ hb => mirrors_pure (hb ▸ rfl)

theorem Holds.upToPeriod (front : List Token) {opener : Token} {s' : Stream}
    (h : s.Holds all back (front ++ opener :: ts)) (hnested : Obeys all nested nested')
    (h' : s'.Holds all back ts) :
    Mirrors (Step.Safe all) (Leaves all back)
      (upToPeriod nested s opener.span s') (Statement.parseUpToPeriod nested' opener ts) := by
  have hopener : opener :: (ts ++ back) <:+ all :=
    (List.suffix_append front _).trans (by simpa using h.suffix)
  refine mirrors_bind (h'.takeUntil (p := .punctuation .period) hopener) ?_
  rintro ⟨w, s''⟩ cut hcut ⟨hw, hrest⟩
  have hts := (cutAt?_eq_some (Statement.cutTerminator_eq_ok hcut)).1
  have hwithin : w.Within all back (front ++ opener :: ts) cut.before :=
    Holds.within (front ++ [opener]) (cut.found :: cut.after) hw (by simp [← hts]) (.inl (by simp))
  refine mirrors_bind (h.value hnested hwithin) ?_
  rintro v _ - rfl
  exact mirrors_pure ⟨rfl, hrest⟩

theorem Holds.operand {op : Operator} {site : Span} {start stop : Nat} (h : s.Holds all back ts)
    (hnested : Obeys all nested nested')
    (hw : (⟨s.tokens, start, stop⟩ : Stream).Within all back ts us) :
    Mirrors (Step.Safe all) Eq (operand nested s op site start stop)
      (Statement.parseOperand nested' op site us) := by
  obtain ⟨_, _, -, -, hw'⟩ := id hw
  refine (h.liesIn.window hw'.liesIn).bind ?_
  rw [Statement.parseOperand, hw.isEmpty]
  split
  · exact mirrors_reject _
  · exact h.value hnested hw

end Parts

theorem Holds.nextSpan {last : Token} (h : s.Holds all back ts) :
    Yields (Step.Safe all) (s.nextSpan last.span) (Statement.nextSpan last ts) := by
  refine h.peek.then ?_
  cases ts <;> exact yields_pure _

theorem Holds.expectKeyword {word : Keyword} {last : Span} (h : s.Holds all back (t :: ts))
    (ht : t.isKeyword word = true) :
    Yields (Step.Safe all) (s.expectKeyword word last) (t, s.skip 1) :=
  (h.advanceIf (p := .keyword word) ht).then (yields_pure _)

theorem Holds.expectKeyword_nil {word : Keyword} {last : Token} (h : s.Holds all back []) :
    Mirrors (Step.Safe all) Eq (s.expectKeyword word last.span)
      (.error ⟨.expectedKeyword word, Statement.nextSpan last []⟩) :=
  h.advanceIf_nil.bind (h.nextSpan.bind (mirrors_reject _))

theorem Holds.expectKeyword_cons {word : Keyword} {last : Token} (h : s.Holds all back (t :: ts))
    (ht : t.isKeyword word = false) :
    Mirrors (Step.Safe all) Eq (s.expectKeyword word last.span)
      (.error ⟨.expectedKeyword word, Statement.nextSpan last (t :: ts)⟩) :=
  (h.advanceIf_cons (p := .keyword word) ht).bind (h.nextSpan.bind (mirrors_reject _))

theorem Holds.skipPeriod (h : s.Holds all back ts) :
    Mirrors (Step.Safe all) (fun s' _ => s'.Holds all back (Statement.dropPeriod ts))
      s.skipPeriod (.ok ()) := by
  cases ts with
  | nil => exact h.advanceIf_nil.bind (mirrors_pure h)
  | cons t ts =>
    cases ht : t.isPeriod with
    | true =>
      refine (h.advanceIf (p := .punctuation .period) ht).bind (mirrors_pure ?_)
      simpa [Statement.dropPeriod, ht] using h.tail
    | false =>
      refine (h.advanceIf_cons (p := .punctuation .period) ht).bind (mirrors_pure ?_)
      simpa [Statement.dropPeriod, ht] using h

/-! ## Bodies -/

/-- How the search deals with an `ELSE`. -/
def ruleOf (allowElse : Bool) (divide : Option Nat) : ElseRule :=
  match allowElse, divide with
  | false, _ => .ignored
  | true, none => .expected
  | true, some _ => .refused

/-- The windows of a body of which what begins at the place is left to be searched. -/
def branches (tokens : List Token) (start : Nat) (divide : Option Nat) (position : Nat) (b : Body) :
    Branches :=
  let stop := position + b.pass.length
  match divide with
  | none =>
    ⟨⟨tokens, start, stop⟩, b.fail.map fun f => ⟨tokens, stop + 1, stop + 1 + f.length⟩, b.close⟩
  | some e => ⟨⟨tokens, start, e⟩, some ⟨tokens, e + 1, stop⟩, b.close⟩

/-- The error that tells of the fault of a body. -/
def blame (whole : List Token) : Except BodyFault Body → Except ParseError Body
  | .ok body => .ok body
  | .error .unclosed => .error ⟨.unclosedBlock, Token.spanOf whole⟩
  | .error (.duplicateElse t) => .error ⟨.duplicateElse, t.span⟩

theorem cutBody_eq (rule : ElseRule) (whole ts : List Token) :
    Statement.cutBody rule whole ts = blame whole (scanBody rule 0 ts) := by
  rw [Statement.cutBody]
  split <;> simp_all [blame]

theorem blame_map (f : Body → Body) (r : Except BodyFault Body) :
    blame whole (r.map f) = (blame whole r).map f := by
  match r with
  | .ok _ => rfl
  | .error .unclosed => rfl
  | .error (.duplicateElse _) => rfl

/-- A token that is passed over belongs to the branch that it stands in. -/
theorem branches_cons (tokens : List Token) (start : Nat) (divide : Option Nat) (position : Nat)
    (t : Token) (b : Body) :
    branches tokens start divide position (b.cons t) =
      branches tokens start divide (position + 1) b := by
  have hstop : position + (b.pass.length + 1) = position + 1 + b.pass.length := by omega
  cases divide <;> simp [branches, Body.cons, hstop]

/-- At the `ELSE` that is expected the first branch ends and the second one begins. -/
theorem branches_otherwise (tokens : List Token) (start position : Nat) (b : Body) :
    branches tokens start none position b.otherwise =
      branches tokens start (some position) (position + 1) b := by
  simp [branches, Body.otherwise]

/-- The windows are those of the body, of which what begins at the stream was left to be
    searched. What comes behind the body is left to the stream that the search ends with. -/
def Finds (all back : List Token) (start : Nat) (divide : Option Nat) (s : Stream)
    (m : Branches × Stream) (b : Body) : Prop :=
  m.1 = branches s.tokens start divide s.position b ∧ m.2.Holds all back b.rest

theorem Finds.cons {start : Nat} {divide : Option Nat} {m : Branches × Stream} {b : Body}
    (h : Finds all back start divide (s.skip 1) m b) (t : Token) :
    Finds all back start divide s m (b.cons t) :=
  ⟨h.1.trans (branches_cons ..).symm, h.2⟩

theorem Finds.otherwise {start : Nat} {m : Branches × Stream} {b : Body}
    (h : Finds all back start (some s.position) (s.skip 1) m b) :
    Finds all back start none s m b.otherwise :=
  ⟨h.1.trans (branches_otherwise ..).symm, h.2⟩

/-- Searching a body is cutting it. -/
theorem Holds.scan {opened start depth : Nat} {allowElse : Bool} {divide : Option Nat}
    (h : s.Holds all back ts)
    (hwhole : (⟨s.tokens, opened, s.stop⟩ : Stream).Holds all back whole)
    (hrounds : ts.length < rounds) (hstart : start ≤ s.position)
    (hdivide : ∀ e ∈ divide, start ≤ e ∧ e < s.position) :
    Mirrors (Step.Safe all) (Finds all back start divide s)
      (scan opened start allowElse rounds (depth + 1) divide s)
      (blame whole (scanBody (ruleOf allowElse divide) depth ts)) := by
  induction ts generalizing s rounds depth divide with
  | nil =>
    obtain ⟨rounds, rfl⟩ := Nat.exists_eq_add_of_lt hrounds
    have hend : s.position = s.stop := h.position_eq
    rw [Stream.scan]
    refine h.advance_nil.bind ?_
    rw [hend]
    exact (h.liesIn.window hwhole.liesIn).bind (hwhole.span.bind (mirrors_reject _))
  | cons t ts ih =>
    obtain ⟨rounds, rfl⟩ := Nat.exists_eq_add_of_lt hrounds
    have hrounds' : ts.length < (t :: ts).length + rounds := by
      rw [List.length_cons]
      omega
    -- Every token but an `ELSE` of the body itself, and its `END`, is passed over.
    have pass {depth : Nat} :
        Mirrors (Step.Safe all) (Finds all back start divide s)
          (Stream.scan opened start allowElse ((t :: ts).length + rounds) (depth + 1) divide
            (s.skip 1))
          (blame whole ((scanBody (ruleOf allowElse divide) depth ts).map (Body.cons t))) := by
      have hdivide' : ∀ e ∈ divide, start ≤ e ∧ e < (s.skip 1).position :=
        fun e he => (hdivide e he).imp_right Nat.lt_succ_of_lt
      rw [blame_map]
      exact mirrors_map_pure (ih h.tail hwhole hrounds' (Nat.le_succ_of_le hstart) hdivide')
        fun _ _ hm => hm.cons t
    rw [Stream.scan]
    refine h.advance.bind ?_
    rw [scanBody.eq_def]
    have htail := h.tail
    cases hk : t.keyword? with
    | none =>
      simp only [hk]
      exact pass
    | some word =>
      cases word <;> simp only [hk]
      case IF | WHILE => exact pass
      case THEN | DO | SET | TO | SHOW | INPUT => exact pass
      case END =>
        have hend : s.position ≤ all.length := Nat.le_trans h.liesIn.position_le h.liesIn.stop_le
        have hwindow {i j : Nat} (hij : i ≤ j) (hj : j ≤ s.position) :
            (⟨s.tokens, i, j⟩ : Stream).LiesIn all := ⟨h.tokens_eq, hij, Nat.le_trans hj hend⟩
        cases depth with
        | succ depth => exact pass
        | zero =>
          cases divide with
          | none =>
            exact (htail.liesIn.window (hwindow hstart (Nat.le_refl _))).bind
              (mirrors_pure ⟨rfl, htail⟩)
          | some e =>
            obtain ⟨hstart', he⟩ := hdivide e rfl
            have hpass := htail.liesIn.window (hwindow hstart' (Nat.le_of_lt he))
            exact (htail.liesIn.window (hwindow he (Nat.le_refl _))).bind
              (hpass.bind (mirrors_pure ⟨rfl, htail⟩))
      case ELSE =>
        cases depth with
        | succ depth =>
          rw [if_neg (by simp)]
          exact pass
        | zero =>
          cases allowElse with
          | false => exact pass
          | true =>
            cases divide with
            | some e => exact mirrors_reject _
            | none =>
              change Mirrors _ _ _ (blame whole ((scanBody .refused 0 ts).map Body.otherwise))
              rw [blame_map]
              have hdivide' : ∀ e ∈ some s.position, start ≤ e ∧ e < (s.skip 1).position := by
                rintro _ ⟨⟩
                exact ⟨hstart, Nat.lt_succ_self _⟩
              exact mirrors_map_pure
                (ih htail hwhole hrounds' (Nat.le_succ_of_le hstart) hdivide')
                fun _ _ hm => hm.otherwise

/-- The windows hold the branches of the body. -/
structure Branches.Hold (all back whole : List Token) (b : Body) (m : Branches) : Prop where
  pass : m.pass.Within all back whole b.pass
  fail : Option.Rel (Within all back whole) b.fail m.fail
  close_eq : m.close = b.close

theorem Holds.hold_branches {front : List Token} {b : Body} (h : s.Holds all back ts)
    (hwhole : whole = front ++ ts) (hb : b.Spells ts) :
    (branches s.tokens s.position none s.position b).Hold all back whole b := by
  subst hwhole
  cases hb with
  | plain hfail =>
    refine ⟨h.ahead.within front (b.close :: b.rest) (by simp) (.inr (by simp)), ?_, rfl⟩
    simp only [branches, hfail]
    exact .none
  | @split fail e hfail he =>
    rw [List.append_assoc] at h
    refine ⟨h.ahead.within front (e :: fail ++ b.close :: b.rest) (by simp) (.inr (by simp)), ?_,
      rfl⟩
    simp only [branches, hfail]
    exact .some ((h.skip b.pass).tail.ahead.within (front ++ b.pass ++ [e]) (b.close :: b.rest)
      (by simp) (.inr (by simp)))

/-- Finding the parts of a block is cutting its condition and its body. -/
theorem Holds.parts {word : Keyword} {allowElse : Bool} {keyword : Token}
    (h : s.Holds all back (keyword :: ts)) (hrounds : all.length < rounds) :
    Mirrors (Step.Safe all)
      (fun m c => m.1.1.Within all back (keyword :: ts) c.1.before ∧ m.1.2.1 = c.1.found ∧
        m.1.2.2.Hold all back (keyword :: ts) c.2 ∧
        m.2.Holds all back (Statement.dropPeriod c.2.rest))
      ((s.skip 1).parts rounds word allowElse s.position keyword)
      (do
        let cut ← Statement.cutCondition word keyword ts
        let body ← Statement.cutBody (ruleOf allowElse none) (keyword :: ts) cut.after
        return (cut, body)) := by
  refine mirrors_bind (h.tail.takeUntil (p := .keyword word) h.suffix) ?_
  rintro ⟨condition, s₁⟩ cut hcut ⟨hcondition, h₁⟩
  obtain ⟨hts, hfound, -⟩ := cutAt?_eq_some (Statement.cutTerminator_eq_ok hcut)
  have hwithin : condition.Within all back (keyword :: ts) cut.before :=
    Holds.within [keyword] (cut.found :: cut.after) hcondition (by simp [← hts]) (.inl (by simp))
  refine (h₁.expectKeyword hfound).bind ?_
  have h₂ := h₁.tail
  have hwhole : (⟨(s₁.skip 1).tokens, s.position, (s₁.skip 1).stop⟩ : Stream).Holds all back
      (keyword :: ts) := by
    refine ⟨h₂.tokens_eq, h.suffix, h.position_eq.trans ?_, h₂.stop_eq⟩
    exact Nat.add_right_cancel (h.stop_eq.trans h₂.stop_eq.symm)
  have hscan : Mirrors _ _ (Stream.scan s.position _ allowElse rounds 1 none (s₁.skip 1)) _ :=
    h₂.scan hwhole (Nat.lt_of_le_of_lt h₂.length_le hrounds) (Nat.le_refl _) (by simp)
  rw [← cutBody_eq] at hscan
  refine mirrors_bind hscan ?_
  rintro ⟨_, s₃⟩ body hbody ⟨rfl, h₃⟩
  have hspells := (scanBody_eq_ok (Statement.cutBody_eq_ok hbody)).1
  have hfront : keyword :: ts = (keyword :: cut.before ++ [cut.found]) ++ cut.after := by
    simp [← hts]
  change Mirrors _ _ _ (.ok () >>= fun _ => .ok (cut, body))
  exact mirrors_bind h₃.skipPeriod fun _ _ _ h₄ =>
    mirrors_pure ⟨hwithin, rfl, h₂.hold_branches hfront hspells, h₄⟩

/-! ## Rules -/

/-- The rule applies, the statement has been read, and the rest is left to the stream. -/
def Reads (all back : List Token) (m : Option Statement × Stream) (p : Statement × List Token) :
    Prop :=
  m.1 = some p.1 ∧ m.2.Holds all back p.2

/-- The rule does not apply. What it has read of its copy of the stream does not matter. -/
def Declines (all : List Token) (rule : Rule) (s : Stream) : Prop :=
  ∃ s', Yields (Step.Safe all) (rule s) (none, s')

theorem Holds.lone {p : Pattern} {make : Token → Statement} (h : s.Holds all back [t])
    (ht : p.isMetBy t = true) :
    Mirrors (Step.Safe all) (Reads all back) (Stream.lone p make s) (.ok (make t, [])) :=
  h.length.bind ((h.advanceIf ht).bind (mirrors_pure ⟨rfl, h.tail⟩))

theorem Holds.declines_lone {p : Pattern} {make : Token → Statement}
    (h : s.Holds all back (t :: ts)) (ht : ts ≠ [] ∨ p.isMetBy t = false) :
    Declines all (Stream.lone p make) s := by
  refine ⟨s, h.length.then ?_⟩
  split
  · rename_i hlen
    have hts : ts = [] := by simpa using hlen
    exact (h.advanceIf_cons (ht.resolve_left (not_not_intro hts))).then (yields_pure _)
  · exact yields_pure _

theorem Holds.beginning {α : Type} {rel : Option Statement × Stream → α → Prop} {word : Keyword}
    {rest : Token → Rule} {r : Except ParseError α} (h : s.Holds all back (t :: ts))
    (ht : t.isKeyword word = true) (hrest : Mirrors (Step.Safe all) rel (rest t (s.skip 1)) r) :
    Mirrors (Step.Safe all) rel (Stream.beginning word rest s) r :=
  (h.advanceIf (p := .keyword word) ht).bind hrest

/-- A rule for what begins with another keyword. -/
theorem Holds.declines {rule : Rule} {rest : Token → Rule} (word : Keyword)
    (h : s.Holds all back (t :: ts)) (hrule : rule s = Stream.beginning word rest s)
    (ht : t.keyword? ≠ some word) : Declines all rule s := by
  have hword : t.isKeyword word = false := by simpa [Token.isKeyword] using ht
  exact ⟨s, hrule ▸ (h.advanceIf_cons (p := .keyword word) hword).then (yields_pure _)⟩

theorem Holds.input (h : s.Holds all back (t :: ts)) (ht : t.isKeyword .INPUT = true)
    (hts : ∀ u ∈ ts.head?, u.isPeriod = true) :
    Mirrors (Step.Safe all) (Reads all back) (Stream.input s) (.ok (.input t.span, ts.tail)) := by
  have htail := h.tail
  refine h.beginning ht ?_
  cases ts with
  | nil =>
    rw [htail.isEmpty]
    exact mirrors_pure ⟨rfl, htail⟩
  | cons u us =>
    rw [if_neg (by simp [htail.isEmpty])]
    exact (htail.advanceIf (p := .punctuation .period) (hts u rfl)).bind
      (mirrors_pure ⟨rfl, htail.tail⟩)

/-- `INPUT` is left to the operation rule, but it has been read from the copy. -/
theorem Holds.declines_input {u : Token} (h : s.Holds all back (t :: u :: ts))
    (ht : t.isKeyword .INPUT = true) (hu : u.isPeriod = false) : Declines all Stream.input s := by
  have htail := h.tail
  refine ⟨s.skip 1, h.beginning ht ?_⟩
  rw [if_neg (by simp [htail.isEmpty])]
  exact (htail.advanceIf_cons (p := .punctuation .period) hu).then (yields_pure _)

section Rules

variable {nested : Stream → Work Block} {nested' : BlockParser}
  (h : s.Holds all back (t :: ts)) (hnested : Obeys all nested nested')

include h hnested

theorem Holds.conditional (ht : t.isKeyword .IF = true) (hrounds : all.length < rounds) :
    Mirrors (Step.Safe all) (Reads all back) (conditional rounds nested s)
      (Statement.parseConditional nested' t ts) := by
  -- All windows are found before anything inside of them is parsed.
  have hparse : Statement.parseConditional nested' t ts =
      (do
        let cut ← Statement.cutCondition .THEN t ts
        let body ← Statement.cutBody .expected (t :: ts) cut.after
        return (cut, body)) >>= fun (cut, body) => do
          let condition ← Statement.parseValue nested' (t.span.merge cut.found.span) cut.before
          let pass ← nested' body.pass
          let fail ← Statement.parseElse nested' body.fail
          return (.conditional t.span condition pass fail body.close.span,
            Statement.dropPeriod body.rest) := by
    simp [Statement.parseConditional]
  rw [hparse]
  refine h.beginning ht (mirrors_bind (h.parts hrounds) ?_)
  rintro ⟨⟨condition, word, branches⟩, s'⟩ ⟨cut, body⟩ - ⟨hcondition, rfl, hbranches, hrest⟩
  refine mirrors_bind (h.value hnested hcondition) ?_
  rintro condition _ - rfl
  refine mirrors_bind (h.enter hnested hbranches.pass) ?_
  rintro pass _ - rfl
  refine mirrors_bind (h.enterElse hnested hbranches.fail) ?_
  rintro fail _ - rfl
  exact mirrors_pure ⟨by rw [hbranches.close_eq], hrest⟩

theorem Holds.loop (ht : t.isKeyword .WHILE = true) (hrounds : all.length < rounds) :
    Mirrors (Step.Safe all) (Reads all back) (loop rounds nested s)
      (Statement.parseLoop nested' t ts) := by
  have hparse : Statement.parseLoop nested' t ts =
      (do
        let cut ← Statement.cutCondition .DO t ts
        let body ← Statement.cutBody .ignored (t :: ts) cut.after
        return (cut, body)) >>= fun (cut, body) => do
          let condition ← Statement.parseValue nested' (t.span.merge cut.found.span) cut.before
          let pass ← nested' body.pass
          return (.loop t.span condition pass body.close.span, Statement.dropPeriod body.rest) := by
    simp [Statement.parseLoop]
  rw [hparse]
  refine h.beginning ht (mirrors_bind (h.parts hrounds) ?_)
  rintro ⟨⟨condition, word, branches⟩, s'⟩ ⟨cut, body⟩ - ⟨hcondition, rfl, hbranches, hrest⟩
  refine mirrors_bind (h.value hnested hcondition) ?_
  rintro condition _ - rfl
  refine mirrors_bind (h.enter hnested hbranches.pass) ?_
  rintro pass _ - rfl
  exact mirrors_pure ⟨by rw [hbranches.close_eq], hrest⟩

theorem Holds.display (ht : t.isKeyword .SHOW = true) :
    Mirrors (Step.Safe all) (Reads all back) (display nested s)
      (Statement.parseDisplay nested' t ts) := by
  refine h.beginning ht (mirrors_bind (Holds.upToPeriod [] h hnested h.tail) ?_)
  rintro ⟨v, s'⟩ ⟨_, rest⟩ - ⟨rfl, hrest⟩
  exact mirrors_pure ⟨rfl, hrest⟩

theorem Holds.assignment (ht : t.isKeyword .SET = true) :
    Mirrors (Step.Safe all) (Reads all back) (assignment nested s)
      (Statement.parseAssignment nested' t ts) := by
  refine h.beginning ht ?_
  have h₁ := h.tail
  cases ts with
  | nil => exact h₁.advanceIf_nil.bind (h₁.nextSpan.bind (mirrors_reject _))
  | cons target ts =>
    unfold Statement.parseAssignment
    cases htarget : target.isIdentifier with
    | false =>
      simp only [htarget]
      exact (h₁.advanceIf_cons (p := .identifier) htarget).bind
        (h₁.nextSpan.bind (mirrors_reject _))
    | true =>
      simp only [htarget, if_true]
      refine (h₁.advanceIf (p := .identifier) htarget).bind ?_
      have h₂ := h₁.tail
      cases ts with
      | nil => exact mirrors_error h₂.expectKeyword_nil
      | cons word ts =>
        cases hword : word.isKeyword .TO with
        | false =>
          simp only [hword]
          exact mirrors_error (h₂.expectKeyword_cons hword)
        | true =>
          simp only [hword, if_true]
          refine (h₂.expectKeyword hword).bind
            (mirrors_bind (Holds.upToPeriod [t, target] h hnested h₂.tail) ?_)
          rintro ⟨v, s'⟩ ⟨_, rest⟩ - ⟨rfl, hrest⟩
          exact mirrors_pure ⟨rfl, hrest⟩

theorem Holds.operation (hts : (t :: ts).all (fun t => t.isOperand || t.operator?.isSome) = true) :
    Mirrors (Step.Safe all) (Reads all back) (operation nested s)
      (Statement.parseOperation nested' (t :: ts)) := by
  refine h.remaining.bind ?_
  rw [Statement.parseOperation, if_pos hts, if_pos (by simp [h.isEmpty, hts])]
  cases hcut : cutLoosest? (t :: ts) with
  | none => exact h.span.bind (mirrors_reject _)
  | some sides =>
    have hsides := (cutLoosest?_eq_some hcut).1
    have h' : s.Holds all back (sides.lhs ++ sides.site :: sides.rhs) := hsides ▸ h
    have hlhs : Within all back (t :: ts) sides.lhs
        ⟨s.tokens, s.position, s.position + sides.lhs.length⟩ :=
      h'.ahead.within [] (sides.site :: sides.rhs) hsides (.inr (by simp))
    have hrhs : Within all back (t :: ts) sides.rhs
        ⟨s.tokens, s.position + sides.lhs.length + 1, s.stop⟩ :=
      (h'.skip sides.lhs).tail.within (sides.lhs ++ [sides.site]) [] (by simp [hsides])
        (.inl (by simp))
    refine h.length.bind ?_
    rw [h.position_eq]
    refine h'.token.bind (mirrors_bind (h.operand hnested hlhs) ?_)
    rintro lhs _ - rfl
    refine mirrors_bind (h.operand hnested hrhs) ?_
    rintro rhs _ - rfl
    exact (h.liesIn.window h.atEnd.liesIn).bind
      ((yields_log (h.safe_move h.atEnd (Nat.zero_le _))).bind (mirrors_pure ⟨rfl, h.atEnd⟩))

omit hnested in
theorem Holds.declines_operation
    (hts : (t :: ts).all (fun t => t.isOperand || t.operator?.isSome) = false) :
    Declines all (Stream.operation nested) s := by
  refine ⟨s, h.remaining.then ?_⟩
  rw [if_neg (by simp [hts])]
  exact yields_pure _

end Rules

/-! ## Statements -/

/-- Trying the rules comes to the same end as a parser of statements. -/
def Tries (all back : List Token) (rules : List Rule) (s : Stream) (r : Parsed) : Prop :=
  Mirrors (Step.Safe all) (Leaves all back)
    (tryRules rules s >>= settle) r

theorem Holds.tries_nil (h : s.Holds all back ts) :
    Tries all back [] s (.error ⟨.noRuleMatches, Token.spanOf ts⟩) :=
  (yields_pure (none, s)).bind (h.span.bind (mirrors_reject _))

/-- The next rule is tried on the same stream. -/
theorem Declines.tries {rule : Rule} {rules : List Rule} {r : Parsed} (hrule : Declines all rule s)
    (h : Tries all back rules s r) : Tries all back (rule :: rules) s r := by
  obtain ⟨s', hs'⟩ := hrule
  have hattempt : Yields (Step.Safe all) (attempt rule s) (none, s) := hs'.then (yields_pure _)
  rw [Tries, tryRules, bind_assoc]
  exact hattempt.bind h

/-- The first rule that applies decides. Its statement takes a token at least. -/
theorem Holds.tries {rule : Rule} {rules : List Rule} {r : Parsed}
    (h : s.Holds all back (t :: ts)) (hrule : Mirrors (Step.Safe all) (Reads all back) (rule s) r)
    (hlen : ∀ statement rest, r = .ok (statement, rest) → rest.length ≤ ts.length) :
    Tries all back (rule :: rules) s r := by
  have hattempt : Mirrors (Step.Safe all) (Reads all back) (attempt rule s) r := by
    refine mirrors_then hrule ?_
    rintro ⟨_, trial⟩ ⟨statement, rest⟩ hr ⟨rfl, hrest⟩
    have hlt := Nat.lt_succ_of_le (hlen statement rest hr)
    exact (yields_log (h.safe_commit hrest hlt)).bind (mirrors_pure ⟨rfl, hrest⟩)
  rw [Tries, tryRules, bind_assoc]
  refine mirrors_then hattempt ?_
  rintro ⟨_, s'⟩ ⟨statement, rest⟩ - ⟨rfl, hrest⟩
  exact mirrors_pure ⟨rfl, hrest⟩

/-- Neither a literal nor a name is all there is. -/
theorem Holds.tries_lone {rules : List Rule} {r : Parsed} (h : s.Holds all back (t :: ts))
    (hliteral : ts ≠ [] ∨ t.isLiteral = false) (hidentifier : ts ≠ [] ∨ t.isIdentifier = false)
    (hrules : Tries all back rules s r) :
    Tries all back (Stream.lone .literal .literal :: Stream.lone .identifier .identifier :: rules)
      s r :=
  (h.declines_lone (p := .literal) hliteral).tries
    ((h.declines_lone (p := .identifier) hidentifier).tries hrules)

theorem Holds.tries_keyword {rules : List Rule} {r : Parsed} {word : Keyword}
    (h : s.Holds all back (t :: ts)) (ht : t.keyword? = some word)
    (hrules : Tries all back rules s r) :
    Tries all back (Stream.lone .literal .literal :: Stream.lone .identifier .identifier :: rules)
      s r := by
  have hkind := Token.kind_of_isKeyword (Token.isKeyword_iff.2 ht)
  exact h.tries_lone (.inr (by simp [Token.isLiteral, hkind]))
    (.inr (by simp [Token.isIdentifier, hkind])) hrules

section Statements

variable {nested : Stream → Work Block} {nested' : BlockParser}
  (h : s.Holds all back (t :: ts)) (hnested : Obeys all nested nested')

include h hnested

/-- The last rule. -/
theorem Holds.tries_operation :
    Tries all back [Stream.operation nested] s (Statement.parseOperation nested' (t :: ts)) := by
  cases hts : (t :: ts).all fun t => t.isOperand || t.operator?.isSome with
  | false =>
    rw [Statement.parseOperation, if_neg (by simp [hts])]
    exact (h.declines_operation hts).tries h.tries_nil
  | true =>
    refine h.tries (h.operation hnested hts) fun _ _ hr => ?_
    rw [Statement.parseOperation_length hr]
    exact Nat.zero_le _

/-- `INPUT` is a statement, or the operand that an operation begins with. -/
theorem Holds.tries_input (ht : t.isKeyword .INPUT = true) :
    Tries all back [Stream.input, Stream.operation nested] s
      (Statement.parseInput nested' t ts) := by
  rw [Statement.parseInput.eq_def]
  cases ts with
  | nil => exact h.tries (h.input ht (by simp)) fun _ _ hr => by cases hr; simp
  | cons u us =>
    cases hu : u.isPeriod with
    | true =>
      simp only [hu, if_true]
      exact h.tries (h.input ht (by simpa using hu)) fun _ _ hr => by cases hr; simp
    | false =>
      simp only [hu]
      exact (h.declines_input ht hu).tries (h.tries_operation hnested)

/-- The rules try what the parser of tokens tells by the first token. -/
theorem Holds.statement (hrounds : all.length < rounds) :
    Mirrors (Step.Safe all) (Leaves all back)
      (statement rounds nested s) (Statement.parseStatement nested' t ts) := by
  change Tries all back (rules rounds nested) s _
  -- The rules in front of the one that applies ask for other keywords.
  have hconditional (ht : t.keyword? ≠ some .IF) :
      Declines all (Stream.conditional rounds nested) s := h.declines .IF rfl ht
  have hloop (ht : t.keyword? ≠ some .WHILE) :
      Declines all (Stream.loop rounds nested) s := h.declines .WHILE rfl ht
  have hdisplay (ht : t.keyword? ≠ some .SHOW) :
      Declines all (Stream.display nested) s := h.declines .SHOW rfl ht
  have hassignment (ht : t.keyword? ≠ some .SET) :
      Declines all (Stream.assignment nested) s := h.declines .SET rfl ht
  unfold Statement.parseStatement
  split
  case h_1 hk =>
    refine h.tries_keyword hk ?_
    exact h.tries (h.conditional hnested (Token.isKeyword_iff.2 hk) hrounds)
      fun _ _ => Statement.parseConditional_length
  case h_2 hk =>
    refine h.tries_keyword hk ((hconditional (by simp [hk])).tries ?_)
    exact h.tries (h.loop hnested (Token.isKeyword_iff.2 hk) hrounds)
      fun _ _ => Statement.parseLoop_length
  case h_3 hk =>
    refine h.tries_keyword hk ((hconditional (by simp [hk])).tries
      ((hloop (by simp [hk])).tries ?_))
    exact h.tries (h.display hnested (Token.isKeyword_iff.2 hk))
      fun _ _ => Statement.parseDisplay_length
  case h_4 hk =>
    refine h.tries_keyword hk ((hconditional (by simp [hk])).tries
      ((hloop (by simp [hk])).tries ((hdisplay (by simp [hk])).tries ?_)))
    exact h.tries (h.assignment hnested (Token.isKeyword_iff.2 hk))
      fun _ _ => Statement.parseAssignment_length
  case h_5 hk =>
    exact h.tries_keyword hk ((hconditional (by simp [hk])).tries ((hloop (by simp [hk])).tries
      ((hdisplay (by simp [hk])).tries ((hassignment (by simp [hk])).tries
      (h.tries_input hnested (Token.isKeyword_iff.2 hk))))))
  case h_6 hif hwhile hshow hset hinput =>
    split
    · rename_i hliteral
      rw [Bool.and_eq_true, List.isEmpty_iff] at hliteral
      obtain ⟨rfl, hliteral⟩ := hliteral
      exact h.tries (h.lone (p := .literal) hliteral) fun _ _ hr => by cases hr; simp
    · rename_i hliteral
      split
      · rename_i hidentifier
        rw [Bool.and_eq_true, List.isEmpty_iff] at hidentifier
        obtain ⟨rfl, hidentifier⟩ := hidentifier
        have hother : t.isLiteral = false := by simpa using hliteral
        refine (h.declines_lone (p := .literal) (.inr hother)).tries ?_
        exact h.tries (h.lone (p := .identifier) hidentifier) fun _ _ hr => by cases hr; simp
      · rename_i hidentifier
        have hlone {c : Bool} (hc : ¬ (ts.isEmpty && c) = true) : ts ≠ [] ∨ c = false := by
          cases ts <;> simp_all
        exact h.tries_lone (hlone hliteral) (hlone hidentifier)
          ((hconditional hif).tries ((hloop hwhile).tries
          ((hdisplay hshow).tries ((hassignment hset).tries
          ((h.declines .INPUT rfl hinput).tries (h.tries_operation hnested))))))

end Statements

/-! ## Blocks -/

/-- A block takes as many rounds as it has statements, and one to find its end. -/
theorem Holds.block {read : Stream → Work (Statement × Stream)} {nested' : BlockParser}
    (h : s.Holds all back ts) (hrounds : ts.length < rounds)
    (hread : ∀ {t ts s}, s.Holds all back (t :: ts) →
      Mirrors (Step.Safe all) (Leaves all back) (read s)
        (Statement.parseStatement nested' t ts)) :
    Mirrors (Step.Safe all) Eq (block read rounds s) (Block.parse nested' ts) := by
  -- Every round takes a token, so the tokens that remain are fewer than the rounds.
  induction rounds generalizing s ts with
  | zero => exact absurd hrounds (Nat.not_lt_zero _)
  | succ rounds ih =>
    rw [Stream.block, h.isEmpty]
    cases ts with
    | nil =>
      rw [Block.parse]
      exact mirrors_pure rfl
    | cons t ts =>
      rw [Block.parse_cons_eq]
      refine mirrors_bind (hread h) ?_
      rintro ⟨first, s'⟩ ⟨_, rest⟩ hparse ⟨rfl, hrest⟩
      have hlt : rest.length < rounds :=
        Nat.lt_of_le_of_lt (Statement.parseStatement_length hparse) (Nat.lt_of_succ_lt_succ hrounds)
      exact mirrors_map (ih hrest hlt) fun _ _ _ hb => mirrors_pure (hb ▸ rfl)

/-- The parser of what is nested, with so many levels left. -/
def insideAt : Nat → BlockParser
  | 0 => fun ts => .error ⟨.nestingTooDeep Block.maxDepth, Token.spanOf ts⟩
  | levels + 1 => Block.parseAt levels

theorem parseAt_eq (levels : Nat) : Block.parseAt levels = Block.parse (insideAt levels) := by
  cases levels <;> rfl

theorem obeys_blockAt (hrounds : all.length < rounds) (levels : Nat) :
    Obeys all (blockAt rounds levels) (insideAt levels) := by
  induction levels with
  | zero => exact fun h => h.span.bind (mirrors_reject _)
  | succ levels ih =>
    intro back ts w h
    rw [insideAt, parseAt_eq]
    exact h.block (Nat.lt_of_le_of_lt h.length_le hrounds) fun h => h.statement ih hrounds

/-! ## Outcomes -/

/-- How work ends that does not fail otherwise than by rejecting the tokens. -/
def outcome {α : Type} (steps : List Step) :
    Except ParseError α → EStateM.Result Halt (List Step) α
  | .ok a => .ok a steps
  | .error e => .error (.rejected e) steps

theorem exists_outcome {α β : Type} {safe : Step → Prop} {rel : α → β → Prop} {m : Work α}
    {r : Except ParseError β} (h : Mirrors safe rel m r) :
    ∃ steps r', (∀ step ∈ steps, safe step) ∧ m [] = outcome steps r' ∧
      ∀ a, r' = .ok a → ∃ b, r = .ok b ∧ rel a b := by
  have h := h [] (List.forall_mem_nil _)
  generalize hm : m [] = x at h
  cases h with
  | @ok a b steps hab hsafe => exact ⟨steps, .ok a, hsafe, rfl, by rintro _ ⟨⟩; exact ⟨b, rfl, hab⟩⟩
  | @error e steps hsafe => exact ⟨steps, .error e, hsafe, rfl, nofun⟩

theorem exists_outcome_eq {α : Type} {safe : Step → Prop} {m : Work α} {r : Except ParseError α}
    (h : Mirrors safe Eq m r) :
    ∃ steps, (∀ step ∈ steps, safe step) ∧ m [] = outcome steps r := by
  have h := h [] (List.forall_mem_nil _)
  generalize hm : m [] = x at h
  cases h with
  | @ok a b steps hab hsafe => exact ⟨steps, hsafe, hab ▸ rfl⟩
  | @error e steps hsafe => exact ⟨steps, hsafe, rfl⟩

/-- The stream that a rule was tried on is replaced only if the rule applies. -/
theorem attempt_eq_none {rule : Rule} {s' : Stream} {steps steps' : List Step}
    (h : attempt rule s steps = .ok (none, s') steps') : s' = s := by
  change EStateM.bind (rule s) _ steps = _ at h
  unfold EStateM.bind at h
  split at h
  · rename_i r _ _
    obtain ⟨_ | statement, trial⟩ := r
    · cases h
      rfl
    · cases h
  · cases h

/-- Whatever the tokens are, parsing them by recursive descent comes to the end that parsing
    them as a list comes to. Every stream that is made or moved lies in the tokens, nothing is
    looked at out of bounds, only the place of a stream moves, and what is handed to another
    parser lies inside of the stream that it was cut from (`Step.Safe`).

    The same holds of a window of the tokens at any level: the block in it is read in no more
    rounds than there are tokens, and a statement that is read from it moves its stream ahead.
    A rule that does not apply leaves the stream as it was. -/
theorem parse_safe (ts : List Token) (rounds : Nat) (h : ts.length < rounds) :
    (ofTokens ts).LiesIn ts ∧
    (∃ steps, (∀ step ∈ steps, step.Safe ts) ∧
      parse rounds ts [] = outcome steps (Block.ofTokens ts)) ∧
    ∀ levels s, s.LiesIn ts →
      (∃ steps r, (∀ step ∈ steps, step.Safe ts) ∧ blockAt rounds levels s [] = outcome steps r) ∧
      (s.isEmpty = false →
        ∃ steps r, (∀ step ∈ steps, step.Safe ts) ∧
          statement rounds (blockAt rounds levels) s [] = outcome steps r ∧
          ∀ first s', r = .ok (first, s') →
            s'.LiesIn ts ∧ s'.stop = s.stop ∧ s.position < s'.position) ∧
      ∀ rule ∈ rules rounds (blockAt rounds levels), ∀ steps s' steps',
        attempt rule s steps = .ok (none, s') steps' → s' = s := by
  refine ⟨(holds_ofTokens ts).liesIn, ?_, fun levels s hs => ⟨?_, fun hne => ?_, ?_⟩⟩
  · exact exists_outcome_eq (obeys_blockAt h (Block.maxDepth + 1) (holds_ofTokens ts))
  · obtain ⟨steps, hsafe, hrun⟩ := exists_outcome_eq (obeys_blockAt h levels hs.holds)
    exact ⟨steps, _, hsafe, hrun⟩
  · have hholds := hs.holds
    rw [hholds.isEmpty] at hne
    cases hts : (ts.take s.stop).drop s.position with
    | nil => simp [hts] at hne
    | cons t us =>
      rw [hts] at hholds
      obtain ⟨steps, r, hsafe, hrun, hr⟩ :=
        exists_outcome (hholds.statement (obeys_blockAt h levels) h)
      refine ⟨steps, r, hsafe, hrun, fun first s' hok => ?_⟩
      obtain ⟨⟨_, rest⟩, hparse, -, hrest⟩ := hr _ hok
      have hlt := Nat.lt_succ_of_le (Statement.parseStatement_length hparse)
      exact (hholds.safe_commit hrest hlt).2
  · exact fun _ _ _ _ _ hattempt => attempt_eq_none hattempt

/-- A condition with an operation in one branch and none in the other. -/
theorem parse_safe_of_branches :
    let source : Source := ⟨"main.kode", "if input then show 1 + 2. else end. show 3.", 0⟩
    ∃ ts steps steps' first s', source.tokens = .ok ts ∧ ts.length < 20 ∧
      parse 20 ts [] = outcome steps (Block.ofTokens ts) ∧ (∀ step ∈ steps, step.Safe ts) ∧
      statement 20 (blockAt 20 3) (ofTokens ts) [] = .ok (first, s') steps' ∧
      0 < s'.position ∧ s'.stop = ts.length := by
  intro source
  obtain ⟨ts, hts, hall⟩ := Statement.eq_ok_of_any (show source.tokens.toOption.any (fun ts =>
    ts.length < 20 && !(ofTokens ts).isEmpty &&
      match statement 20 (blockAt 20 3) (ofTokens ts) [] with
      | .ok _ _ => true
      | .error _ _ => false) = true by decide +kernel)
  simp only [Bool.and_eq_true, decide_eq_true_iff, Bool.not_eq_true'] at hall
  obtain ⟨⟨hlen, hne⟩, hok⟩ := hall
  obtain ⟨hin, ⟨steps, hsafe, hrun⟩, hwindows⟩ := parse_safe ts 20 hlen
  obtain ⟨-, hstatement, -⟩ := hwindows 3 (ofTokens ts) hin
  obtain ⟨steps', r, -, hrun', hmoved⟩ := hstatement hne
  rw [hrun'] at hok
  cases r with
  | error e => exact absurd hok Bool.false_ne_true
  | ok m =>
    obtain ⟨-, hstop, hlt⟩ := hmoved m.1 m.2 rfl
    exact ⟨ts, steps, steps', m.1, m.2, hts, hlen, hrun, hsafe, hrun', hlt, hstop⟩

end Stream

end Kode
