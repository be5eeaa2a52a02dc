import Kode.Statement
import Kode.Statement.Window
import Kode.Token.Tokenize

/-!
# Parsing

From tokens to statements. The first token of a statement tells what it is;
where the statement ends is found by cutting (`Kode.Statement.Window`), and the
parts inside (values, conditions, bodies and operands) are blocks of their own,
parsed one level deeper. Levels are limited (`Block.maxDepth`), so parsing is a
recursion on the levels that are left (`Block.parseAt`), and within a level on
the tokens that are left (`Block.parse`): by `parseStatement_length` every
statement takes at least one.
-/

namespace Kode

/-- A parser of the blocks inside a statement. It has to use up all tokens. -/
abbrev BlockParser := List Token → Except ParseError Block

/-- A statement from the front of some tokens, and the tokens after it. -/
abbrev Parsed := Except ParseError (Statement × List Token)

namespace Statement

/-- The value that the tokens stand for: a single statement is the value
    itself. `anchor` is pointed at if there are no tokens. -/
def parseValue (nested : BlockParser) (anchor : Span) (ts : List Token) :
    Except ParseError Statement :=
  if ts.isEmpty then .error ⟨.expectedExpression, anchor⟩
  else (nested ts).map fun
    | [s] => s
    | body => .sequence body

/-- Cuts at the terminator of a part that begins after the token `opener`. -/
def cutTerminator (p : Token → Bool) (expected : Pattern) (opener : Token) (ts : List Token) :
    Except ParseError Cut :=
  match cutAt? p ts with
  | some c => .ok c
  | none => .error ⟨.missingTerminator expected, Token.spanOf (opener :: ts)⟩

/-- The value up to the first period. -/
def parseUpToPeriod (nested : BlockParser) (opener : Token) (ts : List Token) : Parsed := do
  let cut ← cutTerminator Token.isPeriod (.punctuation .period) opener ts
  let value ← parseValue nested opener.span cut.before
  return (value, cut.after)

/-- The tokens without a period in front. -/
def dropPeriod : List Token → List Token
  | t :: ts => if t.isPeriod then ts else t :: ts
  | [] => []

/-- The condition after `IF` or `WHILE`, up to the word that ends it. -/
def cutCondition (word : Keyword) (keyword : Token) (ts : List Token) : Except ParseError Cut :=
  cutTerminator (Token.isKeyword word) (.keyword word) keyword ts

/-- The body of a block, where `all` are the tokens of the whole statement and
    what follows it. -/
def cutBody (rule : ElseRule) (all ts : List Token) : Except ParseError Body :=
  match scanBody rule 0 ts with
  | .ok body => .ok body
  | .error .unclosed => .error ⟨.unclosedBlock, Token.spanOf all⟩
  | .error (.duplicateElse t) => .error ⟨.duplicateElse, t.span⟩

/-- What follows an `ELSE`, if there is one. -/
def parseElse (nested : BlockParser) : Option (List Token) → Except ParseError (Option Block)
  | some ts => (nested ts).map some
  | none => .ok none

/-- What follows an `IF`. -/
def parseConditional (nested : BlockParser) (keyword : Token) (ts : List Token) : Parsed := do
  let cut ← cutCondition .THEN keyword ts
  -- An `END` that is missing is reported before anything about the condition.
  let body ← cutBody .expected (keyword :: ts) cut.after
  let condition ← parseValue nested (keyword.span.merge cut.found.span) cut.before
  let pass ← nested body.pass
  let fail ← parseElse nested body.fail
  return (.conditional keyword.span condition pass fail body.close.span, dropPeriod body.rest)

/-- What follows a `WHILE`. -/
def parseLoop (nested : BlockParser) (keyword : Token) (ts : List Token) : Parsed := do
  let cut ← cutCondition .DO keyword ts
  let body ← cutBody .ignored (keyword :: ts) cut.after
  let condition ← parseValue nested (keyword.span.merge cut.found.span) cut.before
  let pass ← nested body.pass
  return (.loop keyword.span condition pass body.close.span, dropPeriod body.rest)

/-- What follows a `SHOW`. -/
def parseDisplay (nested : BlockParser) (keyword : Token) (ts : List Token) : Parsed := do
  let (value, rest) ← parseUpToPeriod nested keyword ts
  return (.display keyword.span value, rest)

/-- The span of the next token, or of the one before if there is none. -/
def nextSpan (last : Token) : List Token → Span
  | t :: _ => t.span
  | [] => last.span

/-- What follows a `SET`. -/
def parseAssignment (nested : BlockParser) (keyword : Token) (ts : List Token) : Parsed :=
  match ts with
  | target :: ts' =>
    if target.isIdentifier then
      match ts' with
      | word :: rest =>
        if word.isKeyword .TO then do
          let (value, rest) ← parseUpToPeriod nested word rest
          return (.assignment keyword.span target value, rest)
        else .error ⟨.expectedKeyword .TO, nextSpan target ts'⟩
      | [] => .error ⟨.expectedKeyword .TO, nextSpan target ts'⟩
    else .error ⟨.expectedIdentifier, nextSpan keyword ts⟩
  | [] => .error ⟨.expectedIdentifier, nextSpan keyword ts⟩

/-- One side of an operator. -/
def parseOperand (nested : BlockParser) (op : Operator) (site : Span) (ts : List Token) :
    Except ParseError Statement :=
  if ts.isEmpty then .error ⟨.missingOperand op, site⟩ else parseValue nested site ts

/-- Operands and operators, up to the end. -/
def parseOperation (nested : BlockParser) (ts : List Token) : Parsed :=
  if ts.all fun t => t.isOperand || t.operator?.isSome then
    match cutLoosest? ts with
    | none => .error ⟨.missingOperator, Token.spanOf ts⟩
    | some sides => do
      let lhs ← parseOperand nested sides.op sides.site.span sides.lhs
      let rhs ← parseOperand nested sides.op sides.site.span sides.rhs
      return (.operation lhs sides.op sides.site.span rhs, [])
  else .error ⟨.noRuleMatches, Token.spanOf ts⟩

/-- What begins with `INPUT`: a statement of its own, if nothing or a period
    follows, and else an operand. -/
def parseInput (nested : BlockParser) (keyword : Token) (ts : List Token) : Parsed :=
  match ts with
  | [] => .ok (.input keyword.span, [])
  | t :: rest =>
    if t.isPeriod then .ok (.input keyword.span, rest) else parseOperation nested (keyword :: ts)

/-- The statement that begins with the token `t`. A literal or a name is a
    statement of its own only at the very end. -/
def parseStatement (nested : BlockParser) (t : Token) (ts : List Token) : Parsed :=
  match t.keyword? with
  | some .IF => parseConditional nested t ts
  | some .WHILE => parseLoop nested t ts
  | some .SHOW => parseDisplay nested t ts
  | some .SET => parseAssignment nested t ts
  | some .INPUT => parseInput nested t ts
  | _ =>
    if ts.isEmpty && t.isLiteral then .ok (.literal t, [])
    else if ts.isEmpty && t.isIdentifier then .ok (.identifier t, [])
    else parseOperation nested (t :: ts)

end Statement

/-! ## Progress -/

namespace Statement

/-- If the second step follows the first, both have succeeded. -/
theorem bind_eq_ok {ε α β : Type} {x : Except ε α} {f : α → Except ε β} {b : β}
    (h : x >>= f = .ok b) : ∃ a, x = .ok a ∧ f a = .ok b := by
  cases x with
  | error e => exact absurd h (by simp [bind, Except.bind])
  | ok a => exact ⟨a, rfl, h⟩

/-- If a result is a changed one, there was one to change. -/
theorem map_eq_ok {ε α β : Type} {x : Except ε α} {f : α → β} {b : β} (h : x.map f = .ok b) :
    ∃ a, x = .ok a ∧ f a = b := by
  cases x with
  | error e => exact absurd h (by simp [Except.map])
  | ok a => exact ⟨a, rfl, Except.ok.inj h⟩

/-- If a result has a property, it is there. -/
theorem eq_ok_of_any {ε α : Type} {x : Except ε α} {p : α → Bool}
    (h : x.toOption.any p = true) : ∃ a, x = .ok a ∧ p a = true := by
  cases x with
  | error e => exact absurd h Bool.false_ne_true
  | ok a => exact ⟨a, rfl, h⟩

theorem cutTerminator_eq_ok {p : Token → Bool} {e : Pattern} {opener : Token} {ts : List Token}
    {c : Cut} (h : cutTerminator p e opener ts = .ok c) : cutAt? p ts = some c := by
  unfold cutTerminator at h
  split at h
  · rename_i d hd
    rw [hd, Except.ok.inj h]
  · exact absurd h (by simp)

theorem cutBody_eq_ok {rule : ElseRule} {all ts : List Token} {b : Body}
    (h : cutBody rule all ts = .ok b) : scanBody rule 0 ts = .ok b := by
  unfold cutBody at h
  split at h
  · rename_i c hc
    rw [hc, Except.ok.inj h]
  · exact absurd h (by simp)
  · exact absurd h (by simp)

theorem length_after_lt {p : Token → Bool} {ts : List Token} {c : Cut} (h : cutAt? p ts = some c) :
    c.after.length < ts.length := by
  rw [(cutAt?_eq_some h).1]
  simp
  omega

theorem length_dropPeriod_le (ts : List Token) : (dropPeriod ts).length ≤ ts.length := by
  unfold dropPeriod
  split
  · split <;> simp
  · simp

theorem parseUpToPeriod_length {nested : BlockParser} {opener : Token} {ts rest : List Token}
    {v : Statement} (h : parseUpToPeriod nested opener ts = .ok (v, rest)) :
    rest.length < ts.length := by
  obtain ⟨c, hc, h⟩ := bind_eq_ok h
  obtain ⟨_, _, h⟩ := bind_eq_ok h
  obtain ⟨rfl, rfl⟩ := Prod.mk.inj (Except.ok.inj h)
  exact length_after_lt (cutTerminator_eq_ok hc)

theorem parseOperation_length {nested : BlockParser} {ts rest : List Token} {s : Statement}
    (h : parseOperation nested ts = .ok (s, rest)) : rest = [] := by
  unfold parseOperation at h
  split at h
  · split at h
    · exact absurd h (by simp)
    · obtain ⟨_, _, h⟩ := bind_eq_ok h
      obtain ⟨_, _, h⟩ := bind_eq_ok h
      exact (Prod.mk.inj (Except.ok.inj h)).2.symm
  · exact absurd h (by simp)

theorem parseConditional_length {nested : BlockParser} {t : Token} {ts rest : List Token}
    {s : Statement} (h : parseConditional nested t ts = .ok (s, rest)) :
    rest.length ≤ ts.length := by
  obtain ⟨c, hc, h⟩ := bind_eq_ok h
  obtain ⟨b, hb, h⟩ := bind_eq_ok h
  obtain ⟨_, _, h⟩ := bind_eq_ok h
  obtain ⟨_, _, h⟩ := bind_eq_ok h
  obtain ⟨_, _, h⟩ := bind_eq_ok h
  obtain ⟨_, rfl⟩ := Prod.mk.inj (Except.ok.inj h)
  have h₁ := length_after_lt (cutTerminator_eq_ok hc)
  have h₂ := (scanBody_eq_ok (cutBody_eq_ok hb)).1.length_rest_lt
  have h₃ := length_dropPeriod_le b.rest
  omega

theorem parseLoop_length {nested : BlockParser} {t : Token} {ts rest : List Token}
    {s : Statement} (h : parseLoop nested t ts = .ok (s, rest)) : rest.length ≤ ts.length := by
  obtain ⟨c, hc, h⟩ := bind_eq_ok h
  obtain ⟨b, hb, h⟩ := bind_eq_ok h
  obtain ⟨_, _, h⟩ := bind_eq_ok h
  obtain ⟨_, _, h⟩ := bind_eq_ok h
  obtain ⟨_, rfl⟩ := Prod.mk.inj (Except.ok.inj h)
  have h₁ := length_after_lt (cutTerminator_eq_ok hc)
  have h₂ := (scanBody_eq_ok (cutBody_eq_ok hb)).1.length_rest_lt
  have h₃ := length_dropPeriod_le b.rest
  omega

theorem parseDisplay_length {nested : BlockParser} {t : Token} {ts rest : List Token}
    {s : Statement} (h : parseDisplay nested t ts = .ok (s, rest)) : rest.length ≤ ts.length := by
  obtain ⟨⟨v, r⟩, hv, h⟩ := bind_eq_ok h
  obtain ⟨_, rfl⟩ := Prod.mk.inj (Except.ok.inj h)
  exact Nat.le_of_lt (parseUpToPeriod_length hv)

theorem parseAssignment_length {nested : BlockParser} {t : Token} {ts rest : List Token}
    {s : Statement} (h : parseAssignment nested t ts = .ok (s, rest)) :
    rest.length ≤ ts.length := by
  unfold parseAssignment at h
  split at h
  · split at h
    · split at h
      · split at h
        · obtain ⟨⟨v, r⟩, hv, h⟩ := bind_eq_ok h
          obtain ⟨_, rfl⟩ := Prod.mk.inj (Except.ok.inj h)
          have := parseUpToPeriod_length hv
          simp
          omega
        · exact absurd h (by simp)
      · exact absurd h (by simp)
    · exact absurd h (by simp)
  · exact absurd h (by simp)

theorem parseInput_length {nested : BlockParser} {t : Token} {ts rest : List Token}
    {s : Statement} (h : parseInput nested t ts = .ok (s, rest)) : rest.length ≤ ts.length := by
  unfold parseInput at h
  split at h
  · obtain ⟨_, rfl⟩ := Prod.mk.inj (Except.ok.inj h)
    exact Nat.le_refl _
  · split at h
    · obtain ⟨_, rfl⟩ := Prod.mk.inj (Except.ok.inj h)
      exact Nat.le_succ _
    · rw [parseOperation_length h]
      exact Nat.zero_le _

/-- A statement takes the token it begins with. -/
theorem parseStatement_length {nested : BlockParser} {t : Token} {ts rest : List Token}
    {s : Statement} (h : parseStatement nested t ts = .ok (s, rest)) :
    rest.length ≤ ts.length := by
  unfold parseStatement at h
  split at h
  · exact parseConditional_length h
  · exact parseLoop_length h
  · exact parseDisplay_length h
  · exact parseAssignment_length h
  · exact parseInput_length h
  · split at h
    · obtain ⟨_, rfl⟩ := Prod.mk.inj (Except.ok.inj h)
      exact Nat.zero_le _
    · split at h
      · obtain ⟨_, rfl⟩ := Prod.mk.inj (Except.ok.inj h)
        exact Nat.zero_le _
      · rw [parseOperation_length h]
        exact Nat.zero_le _

end Statement

namespace Block

/-- The statements that the tokens make up, one after the other. -/
def parse (nested : BlockParser) : List Token → Except ParseError Block
  | [] => .ok []
  | t :: ts =>
    match _h : Statement.parseStatement nested t ts with
    | .error e => .error e
    | .ok (s, rest) => (parse nested rest).map (s :: ·)
termination_by ts => ts.length
decreasing_by
  have := Statement.parseStatement_length _h
  simp only [List.length_cons]
  omega

/-- The number of levels that values and bodies may be nested. -/
def maxDepth : Nat := 100

/-- The block that the tokens make up, with so many levels left to be nested. -/
def parseAt : Nat → BlockParser
  | 0 => parse fun ts => .error ⟨.nestingTooDeep maxDepth, Token.spanOf ts⟩
  | levels + 1 => parse (parseAt levels)

/-- The program that the tokens make up. -/
def ofTokens : BlockParser :=
  parseAt maxDepth

end Block

/-- The program that the source is the text of. -/
def Source.parse (s : Source) : Except ParseError Block := do
  Block.ofTokens (← s.tokens)

end Kode
