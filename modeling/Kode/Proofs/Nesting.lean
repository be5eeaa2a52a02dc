import Kode.Proofs.Parsing
import Kode.Proofs.Rejection
import Kode.Statement.Evaluate

/-!
# How deep programs are nested

The limit on nesting changes nothing but what is nested too deeply. A parser with
fewer levels does what one with more of them does, in the same order, until it has
none left, and then it says so (`Curtails`). So what the grammar derives is either
parsed to its tree, or rejected for its nesting and for nothing else.

The limit is one for the evaluation as well, which goes as deep as the tree
(`Statement.evalWithin`). Each value, condition, operand or body that is open while
another one is evaluated is a level of the tree; and the only other statements that
hold statements are the sequences, of which at most three can be open. For the value
of a sequence lacks the period, `THEN` or `DO` that ends it.

* `Block.curtails_parseAt`: parsers that differ in their levels;
* `Derives.groups_le`: how many sequences can be open;
* `Block.evalWithin_eq`: evaluation does not go deeper than the tree;
* `Source.nesting_limit`: what the limit does to a source.
-/

namespace Kode

/-! ## Parsers with fewer levels -/

/-- The first result is the second one, unless the nesting was too deep for it. -/
def Curtails {α : Type} (x y : Except ParseError α) : Prop :=
  x = y ∨ ∃ span, x = .error ⟨.nestingTooDeep Block.maxDepth, span⟩

namespace Curtails

variable {α β : Type} {x y : Except ParseError α}

theorem refl (x : Except ParseError α) : Curtails x x :=
  .inl rfl

theorem bind {f g : α → Except ParseError β} (h : Curtails x y)
    (hf : ∀ a, x = .ok a → Curtails (f a) (g a)) : Curtails (x >>= f) (y >>= g) := by
  rcases h with rfl | ⟨span, rfl⟩
  · cases x with
    | error e => exact refl _
    | ok a => exact hf a rfl
  · exact .inr ⟨span, rfl⟩

theorem map (h : Curtails x y) (f : α → β) : Curtails (x.map f) (y.map f) := by
  rcases h with rfl | ⟨span, rfl⟩
  · exact refl _
  · exact .inr ⟨span, rfl⟩

end Curtails

namespace Statement

variable {nested nested' : BlockParser} (h : ∀ ts, Curtails (nested ts) (nested' ts))

include h

theorem curtails_parseValue (anchor : Span) (ts : List Token) :
    Curtails (parseValue nested anchor ts) (parseValue nested' anchor ts) := by
  unfold parseValue
  split
  · exact .refl _
  · exact (h ts).map _

theorem curtails_parseUpToPeriod (opener : Token) (ts : List Token) :
    Curtails (parseUpToPeriod nested opener ts) (parseUpToPeriod nested' opener ts) :=
  (Curtails.refl _).bind fun _ _ => (curtails_parseValue h _ _).bind fun _ _ => .refl _

theorem curtails_parseElse (ts : Option (List Token)) :
    Curtails (parseElse nested ts) (parseElse nested' ts) := by
  cases ts with
  | none => exact .refl _
  | some ts => exact (h ts).map _

theorem curtails_parseConditional (keyword : Token) (ts : List Token) :
    Curtails (parseConditional nested keyword ts) (parseConditional nested' keyword ts) :=
  (Curtails.refl _).bind fun _ _ => (Curtails.refl _).bind fun body _ =>
    (curtails_parseValue h _ _).bind fun _ _ => (h body.pass).bind fun _ _ =>
      (curtails_parseElse h body.fail).bind fun _ _ => .refl _

theorem curtails_parseLoop (keyword : Token) (ts : List Token) :
    Curtails (parseLoop nested keyword ts) (parseLoop nested' keyword ts) :=
  (Curtails.refl _).bind fun _ _ => (Curtails.refl _).bind fun body _ =>
    (curtails_parseValue h _ _).bind fun _ _ => (h body.pass).bind fun _ _ => .refl _

theorem curtails_parseDisplay (keyword : Token) (ts : List Token) :
    Curtails (parseDisplay nested keyword ts) (parseDisplay nested' keyword ts) :=
  (curtails_parseUpToPeriod h keyword ts).bind fun _ _ => .refl _

theorem curtails_parseAssignment (keyword : Token) (ts : List Token) :
    Curtails (parseAssignment nested keyword ts) (parseAssignment nested' keyword ts) := by
  unfold parseAssignment
  split
  · split
    · split
      · split
        · exact (curtails_parseUpToPeriod h _ _).bind fun _ _ => .refl _
        · exact .refl _
      · exact .refl _
    · exact .refl _
  · exact .refl _

theorem curtails_parseOperand (op : Operator) (site : Span) (ts : List Token) :
    Curtails (parseOperand nested op site ts) (parseOperand nested' op site ts) := by
  unfold parseOperand
  split
  · exact .refl _
  · exact curtails_parseValue h site ts

theorem curtails_parseOperation (ts : List Token) :
    Curtails (parseOperation nested ts) (parseOperation nested' ts) := by
  unfold parseOperation
  split
  · split
    · exact .refl _
    · exact (curtails_parseOperand h _ _ _).bind fun _ _ =>
        (curtails_parseOperand h _ _ _).bind fun _ _ => .refl _
  · exact .refl _

theorem curtails_parseInput (keyword : Token) (ts : List Token) :
    Curtails (parseInput nested keyword ts) (parseInput nested' keyword ts) := by
  unfold parseInput
  split
  · exact .refl _
  · split
    · exact .refl _
    · exact curtails_parseOperation h _

theorem curtails_parseStatement (t : Token) (ts : List Token) :
    Curtails (parseStatement nested t ts) (parseStatement nested' t ts) := by
  unfold parseStatement
  split
  · exact curtails_parseConditional h t ts
  · exact curtails_parseLoop h t ts
  · exact curtails_parseDisplay h t ts
  · exact curtails_parseAssignment h t ts
  · exact curtails_parseInput h t ts
  · split
    · exact .refl _
    · split
      · exact .refl _
      · exact curtails_parseOperation h _

end Statement

namespace Block

theorem curtails_parse {nested nested' : BlockParser}
    (h : ∀ ts, Curtails (nested ts) (nested' ts)) (ts : List Token) :
    Curtails (parse nested ts) (parse nested' ts) := by
  induction hn : ts.length using Nat.strongRecOn generalizing ts with
  | ind n ih =>
    cases ts with
    | nil =>
      rw [parse.eq_def, parse.eq_def]
      exact .refl _
    | cons t ts =>
      rw [parse_cons_eq, parse_cons_eq]
      refine (Statement.curtails_parseStatement h t ts).bind fun p hp => ?_
      have hlt := Statement.parseStatement_length hp
      rw [List.length_cons] at hn
      exact (ih p.2.length (by omega) p.2 rfl).map _

/-- With fewer levels the parser does the same, until there are none left. -/
theorem curtails_parseAt {levels levels' : Nat} (h : levels ≤ levels') (ts : List Token) :
    Curtails (parseAt levels ts) (parseAt levels' ts) := by
  induction levels generalizing levels' ts with
  | zero =>
    cases levels' with
    | zero => exact .refl _
    | succ levels' => exact curtails_parse (fun us => .inr ⟨Token.spanOf us, rfl⟩) ts
  | succ levels ih =>
    obtain ⟨levels', rfl⟩ := Nat.exists_eq_add_of_le' h
    exact curtails_parse (ih (Nat.le_add_left _ _)) ts

/-- What is nested too deeply is rejected for that. -/
theorem ofTokens_of_lt_nesting {ts : List Token} {b : Block} (h : Derives ts b)
    (hn : maxDepth < nesting b) :
    ∃ span, ofTokens ts = .error ⟨.nestingTooDeep maxDepth, span⟩ := by
  refine (curtails_parseAt (Nat.le_of_lt hn) ts).resolve_left fun heq => ?_
  have hall := (accepts_parseAt (nesting b) ts b).2 ⟨h, Nat.lt_succ_self _⟩
  exact absurd (ofTokens_eq_ok_iff.1 (heq.trans hall)).2 (Nat.not_le.2 hn)

end Block

/-! ## Sequences in each other -/

mutual

/-- The number of sequences that lie in each other, where this is greatest. -/
def Statement.groups : Statement → Nat
  | .sequence body => Block.groups body + 1
  | .literal _ | .identifier _ | .input _ => 0
  | .assignment _ _ value => value.groups
  | .operation lhs _ _ rhs => max lhs.groups rhs.groups
  | .display _ value => value.groups
  | .conditional _ condition pass fail _ =>
    max condition.groups (max (Block.groups pass) (Block.groupsElse fail))
  | .loop _ condition body _ => max condition.groups (Block.groups body)

/-- The greatest number of them in any of the statements. -/
def Block.groups : List Statement → Nat
  | [] => 0
  | s :: ss => max s.groups (Block.groups ss)

/-- The same for what follows an `ELSE`, if there is one. -/
def Block.groupsElse : Option (List Statement) → Nat
  | none => 0
  | some body => Block.groups body

end

theorem Block.groups_value_le (b : Block) : b.value.groups ≤ Block.groups b + 1 := by
  match b with
  | [] => exact Nat.le_refl _
  | [s] =>
    rw [Block.value, Block.groups]
    omega
  | s :: s' :: ss => exact Nat.le_refl _

theorem Expression.groups_eq_zero {ts : List Token} {s : Statement} (h : Expression ts s) :
    s.groups = 0 := by
  induction h with
  | operand h => cases h <;> rfl
  | operation _ _ _ _ _ ihl ihr => rw [Statement.groups, ihl, ihr, Nat.max_self]

namespace Token

/-- What ends a value or a condition. -/
def terminators : List (Token → Bool) :=
  [isPeriod, isKeyword .THEN, isKeyword .DO]

/-- The number of different terminators among the tokens. -/
def terminated (ts : List Token) : Nat :=
  terminators.countP ts.any

theorem terminated_le_three (ts : List Token) : terminated ts ≤ 3 :=
  List.countP_le_length

theorem any_of_subset {us ts : List Token} (h : us ⊆ ts) {p : Token → Bool}
    (hp : us.any p = true) : ts.any p = true := by
  rw [List.any_eq_true] at hp ⊢
  exact hp.imp fun t ht => ht.imp_left (h ·)

theorem terminated_mono {us ts : List Token} (h : us ⊆ ts) : terminated us ≤ terminated ts :=
  List.countP_mono_left fun _ _ hp => any_of_subset h hp

/-- Tokens without a terminator have fewer of them than there are with it. -/
theorem terminated_lt {us ts : List Token} (h : us ⊆ ts) {p : Token → Bool} {t : Token}
    (hp : p ∈ terminators) (hus : ∀ u ∈ us, p u = false) (hmem : t ∈ ts) (ht : p t = true) :
    terminated us < terminated ts := by
  have hmono (ps : List (Token → Bool)) : ps.countP us.any ≤ ps.countP ts.any :=
    List.countP_mono_left fun _ _ hp => any_of_subset h hp
  obtain ⟨ps, qs, hterminators⟩ := List.append_of_mem hp
  have hps := hmono ps
  have hqs := hmono qs
  have hnone : ¬ us.any p = true := by simpa using hus
  have hsome : ts.any p = true := List.any_eq_true.2 ⟨t, hmem, ht⟩
  rw [terminated, terminated, hterminators, List.countP_append, List.countP_append,
    List.countP_cons_of_neg hnone, List.countP_cons_of_pos hsome]
  omega

end Token

/-- Every sequence is the value or the condition before some terminator, which none of the
    sequences in it has again. -/
theorem Derives.groups_le {ts : List Token} {b : Block} (h : Derives ts b) :
    Block.groups b ≤ Token.terminated ts := by
  have inside {v : Block} {us ts : List Token} (hv : Block.groups v ≤ Token.terminated us)
      (hts : us ⊆ ts) : Block.groups v ≤ Token.terminated ts :=
    Nat.le_trans hv (Token.terminated_mono hts)
  have ended {v : Block} {us ts : List Token} {p : Token → Bool} {t : Token}
      (hv : Block.groups v ≤ Token.terminated us) (hus : ∀ u ∈ us, p u = false) (ht : p t = true)
      (hp : p ∈ Token.terminators) (hts : us ⊆ ts) (hmem : t ∈ ts) :
      v.value.groups ≤ Token.terminated ts :=
    Nat.le_trans v.groups_value_le
      (Nat.le_trans (Nat.succ_le_succ hv) (Token.terminated_lt hts hp hus hmem ht))
  induction h with
  | nil => exact Nat.zero_le _
  | expression h =>
    rw [Block.groups, h.groups_eq_zero]
    exact Nat.zero_le _
  | display _ hp hvs _ _ _ ihv ih =>
    refine Nat.max_le.2 ⟨?_, inside ih fun u hu => by simp [hu]⟩
    exact ended ihv hvs hp (by simp [Token.terminators]) (fun u hu => by simp [hu]) (by simp)
  | assignment _ _ _ hp hvs _ _ _ ihv ih =>
    refine Nat.max_le.2 ⟨?_, inside ih fun u hu => by simp [hu]⟩
    exact ended ihv hvs hp (by simp [Token.terminators]) (fun u hu => by simp [hu]) (by simp)
  | input _ _ _ ih => exact Nat.max_le.2 ⟨Nat.zero_le _, inside ih fun u hu => by simp [hu]⟩
  | conditional _ hw _ _ hcs _ _ _ _ ihc ihp ih =>
    refine Nat.max_le.2 ⟨Nat.max_le.2 ⟨?_, ?_⟩, inside ih fun u hu => by simp [hu]⟩
    · exact ended ihc hcs hw (by simp [Token.terminators]) (fun u hu => by simp [hu]) (by simp)
    · exact Nat.max_le.2 ⟨inside ihp fun u hu => by simp [hu], Nat.zero_le _⟩
  | alternative _ hw _ _ _ hcs _ _ _ _ _ ihc ihp ihf ih =>
    refine Nat.max_le.2 ⟨Nat.max_le.2 ⟨?_, ?_⟩, inside ih fun u hu => by simp [hu]⟩
    · exact ended ihc hcs hw (by simp [Token.terminators]) (fun u hu => by simp [hu]) (by simp)
    · exact Nat.max_le.2
        ⟨inside ihp fun u hu => by simp [hu], inside ihf fun u hu => by simp [hu]⟩
  | loop _ hw _ _ hcs _ _ _ _ ihc ihp ih =>
    refine Nat.max_le.2 ⟨Nat.max_le.2 ⟨?_, ?_⟩, inside ih fun u hu => by simp [hu]⟩
    · exact ended ihc hcs hw (by simp [Token.terminators]) (fun u hu => by simp [hu]) (by simp)
    · exact inside ihp fun u hu => by simp [hu]

/-! ## Evaluation -/

/-- What happens if one more is to be opened and so many are left: `overflow` if there
    are none. -/
def Run.limited {α : Type} (overflow : Run α) : Nat → Run α → Run α
  | 0, _ => overflow
  | _ + 1, r => r

theorem Run.limited_of_lt {α : Type} {overflow : Run α} {m n : Nat} (h : m < n) (r : Run α) :
    limited overflow n r = r := by
  obtain ⟨k, rfl⟩ := Nat.exists_eq_succ_of_ne_zero (Nat.ne_zero_of_lt h)
  rfl

mutual

/-- Evaluates a statement with a stack that is limited: so many more values, conditions,
    operands and bodies as there are `levels`, and so many more sequences as there are
    `groups`, can be open at the same time. -/
def Statement.evalWithin (fuel : Nat) (overflow : Run Located) (levels groups : Nat) :
    Statement → Run Located
  | s@(.sequence body) =>
    Run.noted s <| Run.limited overflow groups <|
      Block.evalWithin fuel overflow levels (groups - 1) body .nothing
  | s@(.literal _) => s.eval fuel
  | s@(.identifier _) => s.eval fuel
  | s@(.assignment _ target value) =>
    Run.noted s do
      let l ← Run.limited overflow levels (value.evalWithin fuel overflow (levels - 1) groups)
      Run.assign target.text l
      return l.at s.span
  | s@(.operation lhs op _ rhs) =>
    Run.noted s do
      let l ← Run.limited overflow levels (lhs.evalWithin fuel overflow (levels - 1) groups)
      let r ← Run.limited overflow levels (rhs.evalWithin fuel overflow (levels - 1) groups)
      Run.operate op l r
  | s@(.display _ value) =>
    Run.noted s do
      let l ← Run.limited overflow levels (value.evalWithin fuel overflow (levels - 1) groups)
      Run.write l.value.shown
      return l
  | s@(.input _) => s.eval fuel
  | s@(.conditional _ condition pass fail _) =>
    Run.noted s do
      let l ← Run.framed do
        let l ← Run.limited overflow levels
          (condition.evalWithin fuel overflow (levels - 1) groups)
        if ← Run.decide l then
          Run.limited overflow levels
            (Block.evalWithin fuel overflow (levels - 1) groups pass .nothing)
        else
          Run.limited overflow levels (Block.evalElseWithin fuel overflow (levels - 1) groups fail)
      return l.at s.span
  | s@(.loop _ condition body _) =>
    Run.noted s do
      let l ← Run.framed <|
        Run.iterate
          (do
            let l ← Run.limited overflow levels
              (condition.evalWithin fuel overflow (levels - 1) groups)
            Run.decide l)
          (Run.limited overflow levels
            (Block.evalWithin fuel overflow (levels - 1) groups body .nothing))
          fuel .nothing
      return l.at s.span

/-- Evaluates statements one after the other with this stack. -/
def Block.evalWithin (fuel : Nat) (overflow : Run Located) (levels groups : Nat) :
    List Statement → Located → Run Located
  | [], last => return last
  | s :: ss, _ => do
    let l ← s.evalWithin fuel overflow levels groups
    Block.evalWithin fuel overflow levels groups ss l

/-- Evaluates what follows an `ELSE`, if there is one, with this stack. -/
def Block.evalElseWithin (fuel : Nat) (overflow : Run Located) (levels groups : Nat) :
    Option (List Statement) → Run Located
  | none => return .nothing
  | some body => Block.evalWithin fuel overflow levels groups body .nothing

end

section

variable {fuel : Nat} {overflow : Run Located}

mutual

/-- The stack does not overflow if there are as many levels and groups as the statement
    has. -/
theorem Statement.evalWithin_eq {levels groups : Nat} (s : Statement) (hl : s.nesting ≤ levels)
    (hg : s.groups ≤ groups) : s.evalWithin fuel overflow levels groups = s.eval fuel := by
  match s with
  | .literal _ | .identifier _ | .input _ => rfl
  | .sequence body =>
    rw [Statement.nesting] at hl
    rw [Statement.groups] at hg
    rw [Statement.evalWithin, Statement.eval, Run.limited_of_lt hg,
      Block.evalWithin_eq body hl (by omega)]
  | .assignment _ _ value | .display _ value =>
    rw [Statement.nesting] at hl
    rw [Statement.groups] at hg
    rw [Statement.evalWithin, Statement.eval, Run.limited_of_lt hl,
      value.evalWithin_eq (by omega) hg]
  | .operation lhs _ _ rhs =>
    rw [Statement.nesting] at hl
    rw [Statement.groups] at hg
    simp only [Statement.evalWithin, Statement.eval, Run.limited_of_lt hl]
    rw [lhs.evalWithin_eq (by omega) (by omega), rhs.evalWithin_eq (by omega) (by omega)]
  | .conditional _ condition pass fail _ =>
    rw [Statement.nesting] at hl
    rw [Statement.groups] at hg
    simp only [Statement.evalWithin, Statement.eval, Run.limited_of_lt hl]
    rw [condition.evalWithin_eq (by omega) (by omega),
      Block.evalWithin_eq pass (by omega) (by omega),
      Block.evalElseWithin_eq fail (by omega) (by omega)]
  | .loop _ condition body _ =>
    rw [Statement.nesting] at hl
    rw [Statement.groups] at hg
    simp only [Statement.evalWithin, Statement.eval, Run.limited_of_lt hl]
    rw [condition.evalWithin_eq (by omega) (by omega),
      Block.evalWithin_eq body (by omega) (by omega)]

theorem Block.evalWithin_eq {levels groups : Nat} (b : List Statement)
    (hl : Block.nesting b ≤ levels) (hg : Block.groups b ≤ groups) :
    Block.evalWithin fuel overflow levels groups b = Block.evalAfter fuel b := by
  match b with
  | [] => rfl
  | s :: ss =>
    rw [Block.nesting] at hl
    rw [Block.groups] at hg
    funext last
    rw [Block.evalWithin, Block.evalAfter, s.evalWithin_eq (by omega) (by omega),
      Block.evalWithin_eq ss (by omega) (by omega)]

theorem Block.evalElseWithin_eq {levels groups : Nat} (fail : Option (List Statement))
    (hl : Block.nestingElse fail ≤ levels) (hg : Block.groupsElse fail ≤ groups) :
    Block.evalElseWithin fuel overflow levels groups fail = Block.evalElse fuel fail := by
  match fail with
  | none => rfl
  | some body =>
    rw [Block.nestingElse] at hl
    rw [Block.groupsElse] at hg
    rw [Block.evalElseWithin, Block.evalElse, Block.evalWithin_eq body hl hg]

end

end

/-! ## Sources -/

/-- What the grammar makes of the tokens of a source is what the parser returns, if it
    is nested no deeper than the limit; and if it is, the parser says so, and points at
    something. So the evaluation of a program never has more levels open than the limit
    allows, and no more than three sequences besides. -/
theorem Source.nesting_limit (s : Source) :
    (∀ ts b, s.tokens = .ok ts → Derives ts b →
      (Block.nesting b ≤ Block.maxDepth → s.parse = .ok b) ∧
      (Block.maxDepth < Block.nesting b → ∃ e, s.parse = .error e ∧
        e.fault = .nestingTooDeep Block.maxDepth ∧ e.span.Marks s)) ∧
    ∀ b, s.parse = .ok b → ∀ (fuel : Nat) (overflow : Run Located),
      Block.evalWithin fuel overflow Block.maxDepth 3 b .nothing = Block.eval fuel b := by
  refine ⟨fun ts b hts hb => ⟨fun hn => ?_, fun hn => ?_⟩, fun b hb fuel overflow => ?_⟩
  · exact (parse_eq_ok_iff_of_tokens hts).2 ⟨hb, hn⟩
  · obtain ⟨span, hspan⟩ := Block.ofTokens_of_lt_nesting hb hn
    have herror : s.parse = .error ⟨.nestingTooDeep Block.maxDepth, span⟩ := by
      rw [Source.parse, hts]
      exact hspan
    exact ⟨_, herror, rfl, marks_of_parse_error herror⟩
  · obtain ⟨ts, -, hderives, hn⟩ := (parse_eq_ok_iff s b).1 hb
    have hgroups := Nat.le_trans hderives.groups_le (Token.terminated_le_three ts)
    rw [Block.evalWithin_eq b hn hgroups, Block.eval]

theorem Source.nesting_limit_of_sequence :
    ∃ (s : Source) (ts : List Token) (b : Block),
      s.text = "if while a do show b. end c then show a & b. end" ∧ s.tokens = .ok ts ∧
      Derives ts b ∧ Block.nesting b ≤ Block.maxDepth ∧ s.parse = .ok b ∧
      ∀ (fuel : Nat) (overflow : Run Located),
        Block.evalWithin fuel overflow Block.maxDepth 3 b .nothing = Block.eval fuel b := by
  obtain ⟨b, hb, -⟩ := Statement.eq_ok_of_any (show
    (⟨"main.kode", "if while a do show b. end c then show a & b. end", 0⟩ :
      Source).parse.toOption.any (fun _ => true) = true by decide +kernel)
  obtain ⟨ts, hts, hderives, hn⟩ := (Source.parse_eq_ok_iff _ b).1 hb
  have hlimit := Source.nesting_limit
    ⟨"main.kode", "if while a do show b. end c then show a & b. end", 0⟩
  have hparse := (hlimit.1 ts b hts hderives).1 hn
  exact ⟨_, ts, b, rfl, hts, hderives, hn, hparse, hlimit.2 b hparse⟩

end Kode
