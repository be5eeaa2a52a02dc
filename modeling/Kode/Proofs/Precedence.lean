import Kode.Proofs.Parsing
import Mathlib.Logic.ExistsUnique

/-!
# Precedence

The parser finds the tree of an expression from the root down: it cuts at the
operator that binds the least, the last one of these. By convention the tree is
said otherwise. Its operands and operators, from left to right, are the tokens
(`Traversal`), and at every operation the operator binds no tighter than the one
on its left and less than the one on its right (`Statement.Ranked`).

* `conventional_iff`: both mean the same tree, and so there is one at most;
* `climb?_eq_some_iff`: it is the tree that is found from left to right by
  *climbing*, where an operand goes to the operator before it unless the one
  behind it binds tighter;
* `Block.parse_conventional_iff`: the parser accepts a bare expression, at any
  level, just if it has such a tree that is not too high for the level.
-/

namespace Kode

/-! ## The conventional tree -/

namespace Statement

/-- The operator of an operation. -/
def root? : Statement → Option Operator
  | .operation _ op _ _ => some op
  | _ => none

/-- The number of operations on the longest way from the root to an operand. -/
def height : Statement → Nat
  | .operation lhs _ _ rhs => max lhs.height rhs.height + 1
  | _ => 0

/-- At every operation the operator on the left binds at least as tightly, and
    that on the right more tightly. -/
def Ranked : Statement → Prop
  | .operation lhs op _ rhs =>
    (∀ p ∈ lhs.root?, op.rank ≤ p.rank) ∧ (∀ p ∈ rhs.root?, op.rank < p.rank) ∧
      lhs.Ranked ∧ rhs.Ranked
  | _ => True

end Statement

/-- The tokens are the operands and operators of the tree, from left to right. -/
inductive Traversal : Statement → List Token → Prop
  | operand {t : Token} {s : Statement} : Operand t s → Traversal s [t]
  | operation {ls rs : List Token} {o : Token} {op : Operator} {l r : Statement} :
      Traversal l ls → o.operator? = some op → Traversal r rs →
      Traversal (.operation l op o.span r) (ls ++ o :: rs)

/-- The tree is the one that the ranks of the operators ask for. -/
structure Conventional (ts : List Token) (s : Statement) : Prop where
  traversal : Traversal s ts
  ranked : s.Ranked

theorem Operand.root?_eq {t : Token} {s : Statement} (h : Operand t s) : s.root? = none := by
  cases h <;> rfl

theorem Operand.ranked {t : Token} {s : Statement} (h : Operand t s) : s.Ranked := by
  cases h <;> trivial

theorem Operand.operators_eq {t : Token} {s : Statement} (h : Operand t s) :
    Token.operators [t] = [] := by
  rw [Token.operators_cons_of_none (Token.operator?_of_isOperand h.isOperand), Token.operators_nil]

/-- An operator binds no tighter than any below it, so a bound on the one at the
    root is one on all of them. -/
theorem Traversal.le_rank {s : Statement} {ts : List Token} (h : Traversal s ts) (hs : s.Ranked)
    {n : Nat} (hn : ∀ p ∈ s.root?, n ≤ p.rank) : ∀ p ∈ Token.operators ts, n ≤ p.rank := by
  induction h generalizing n with
  | operand h => simp [h.operators_eq]
  | @operation ls rs o op l r _ ho _ ihl ihr =>
    obtain ⟨hl, hr, hls, hrs⟩ := hs
    have hop : n ≤ op.rank := hn op rfl
    rw [Token.operators_append, Token.operators_cons_of_some ho]
    intro p hp
    rcases List.mem_append.1 hp with hp | hp
    · exact Nat.le_trans hop (ihl hls hl p hp)
    · rcases List.mem_cons.1 hp with rfl | hp
      · exact hop
      · exact Nat.le_trans hop (Nat.le_of_lt (ihr hrs hr p hp))

theorem Expression.root?_mem {ts : List Token} {s : Statement} (h : Expression ts s) :
    ∀ p ∈ s.root?, p ∈ Token.operators ts := by
  cases h with
  | operand h => simp [h.root?_eq]
  | operation _ ho =>
    intro p hp
    obtain rfl := Option.some.inj hp
    simp [Token.operators_cons_of_some ho]

/-- A tree of an expression is a conventional one. -/
theorem conventional_iff {ts : List Token} {s : Statement} :
    Conventional ts s ↔ Expression ts s := by
  constructor
  · rintro ⟨ht, hs⟩
    induction ht with
    | operand h => exact .operand h
    | operation hl ho hr ihl ihr =>
      obtain ⟨hle, hlt, hls, hrs⟩ := hs
      exact .operation (ihl hls) ho (ihr hrs) (hl.le_rank hls hle) (hr.le_rank hrs hlt)
  · intro h
    induction h with
    | operand h => exact ⟨.operand h, h.ranked⟩
    | operation hl ho hr hle hlt ihl ihr =>
      exact ⟨.operation ihl.traversal ho ihr.traversal, fun p hp => hle p (hl.root?_mem p hp),
        fun p hp => hlt p (hr.root?_mem p hp), ihl.ranked, ihr.ranked⟩

theorem Expression.unique {ts : List Token} {s s' : Statement} (h : Expression ts s)
    (h' : Expression ts s') : s = s' :=
  (List.cons.inj ((Derives.expression h).unique (.expression h'))).1

/-- In an expression only operations lie around a part. -/
theorem Expression.nesting_eq {ts : List Token} {s : Statement} (h : Expression ts s) :
    s.nesting = s.height := by
  induction h with
  | operand h => cases h <;> rfl
  | operation _ _ _ _ _ ihl ihr => rw [Statement.nesting, Statement.height, ihl, ihr]

/-! ## Climbing -/

/-- The statement that a single operand is. -/
def Token.operand? (t : Token) : Option Statement :=
  if t.isLiteral then some (.literal t)
  else if t.isIdentifier then some (.identifier t)
  else if t.isKeyword .INPUT then some (.input t.span)
  else none

theorem Token.operand?_eq_some_iff {t : Token} {s : Statement} :
    t.operand? = some s ↔ Operand t s := by
  constructor
  · intro h
    rw [operand?] at h
    split at h
    · rename_i ht
      obtain rfl := Option.some.inj h
      exact .literal ht
    · split at h
      · rename_i ht
        obtain rfl := Option.some.inj h
        exact .identifier ht
      · split at h
        · rename_i ht
          obtain rfl := Option.some.inj h
          exact .input ht
        · simp at h
  · intro h
    cases h with
    | literal h => simp [operand?, h]
    | identifier h => simp [operand?, isLiteral, isIdentifier, kind_of_isIdentifier h]
    | input h =>
      simp [operand?, isLiteral, isIdentifier, isKeyword, keyword?, kind_of_isKeyword h]

/-- The tree `lhs` together with as many operators behind it, and their operands,
    as bind with rank `least` at least, and the tokens that are left. The right
    operand of an operator takes in those behind it that bind more. -/
def climb (least : Nat) (lhs : Statement) (ts : List Token) :
    Statement × { rest : List Token // rest <:+ ts } :=
  match ts with
  | o :: t :: ts =>
    match o.operator?, t.operand? with
    | some op, some s =>
      if least ≤ op.rank then
        match climb (op.rank + 1) s ts with
        | (rhs, ⟨rest, h⟩) =>
          match climb least (.operation lhs op o.span rhs) rest with
          | (s, ⟨rest', h'⟩) => (s, ⟨rest', (h'.trans h).trans (List.suffix_append [o, t] ts)⟩)
      else (lhs, ⟨o :: t :: ts, List.suffix_rfl⟩)
    | _, _ => (lhs, ⟨o :: t :: ts, List.suffix_rfl⟩)
  | ts => (lhs, ⟨ts, List.suffix_rfl⟩)
termination_by ts.length
decreasing_by
  · simp only [List.length_cons]; omega
  · have := h.length_le
    simp only [List.length_cons]; omega

/-- The tree that climbing finds for all of the tokens. -/
def climb? : List Token → Option Statement
  | [] => none
  | t :: ts => t.operand?.bind fun s =>
    if (climb 0 s ts).2.1.isEmpty then some (climb 0 s ts).1 else none

/-- Every operator that comes next, with an operand behind it, has a rank that
    satisfies `p`. -/
def NextRank (p : Nat → Prop) (ts : List Token) : Prop :=
  ∀ o t us op s, ts = o :: t :: us → o.operator? = some op → Operand t s → p op.rank

/-- Climbing leaves the tokens from the first operator on that binds less than
    asked for, provided that no operator in the tree `lhs` binds less than the
    one behind it. -/
theorem climb_spec (least : Nat) {lhs : Statement} {ls ts : List Token} (hl : Expression ls lhs)
    (hinv : NextRank (fun n => ∀ p ∈ Token.operators ls, n ≤ p.rank) ts) :
    ∃ xs, ts = xs ++ (climb least lhs ts).2.1 ∧ Expression (ls ++ xs) (climb least lhs ts).1 ∧
      (∀ p ∈ Token.operators xs, least ≤ p.rank) ∧
      NextRank (· < least) (climb least lhs ts).2.1 := by
  fun_induction climb least lhs ts generalizing ls with
  | case1 least lhs o t us op s hs ho hle rhs rest hlen hrhs s' rest' hlen' hs' ihr ihl =>
    -- The right operand takes in what binds more, ...
    rw [Token.operand?_eq_some_iff] at hs
    obtain ⟨xs, hus, hr, hxs, hnext⟩ :=
      ihr (.operand hs) fun _ _ _ _ _ _ _ _ p hp => by simp [hs.operators_eq] at hp
    rw [hrhs] at hus hr hnext
    have hxs' : ∀ p ∈ Token.operators ([t] ++ xs), op.rank < p.rank := by
      rw [Token.operators_append, hs.operators_eq, List.nil_append]
      exact hxs
    have hls : ∀ p ∈ Token.operators ls, op.rank ≤ p.rank := hinv o t _ op s rfl ho hs
    -- ... so that what comes next binds no more than the new tree.
    obtain ⟨ys, hrest, he, hys, hnext'⟩ := ihl (.operation hl ho hr hls hxs')
      fun o' t' vs op' s'' hrest' ho' hs'' p hp => by
        have hop' : op'.rank ≤ op.rank := Nat.le_of_lt_succ (hnext o' t' vs op' s'' hrest' ho' hs'')
        rw [Token.operators_append, Token.operators_cons_of_some ho] at hp
        rcases List.mem_append.1 hp with hp | hp
        · exact Nat.le_trans hop' (hls p hp)
        · rcases List.mem_cons.1 hp with rfl | hp
          · exact hop'
          · exact Nat.le_trans hop' (Nat.le_of_lt (hxs' p hp))
    rw [hs'] at hrest he hnext'
    refine ⟨o :: ([t] ++ xs) ++ ys, ?_, ?_, ?_, hnext'⟩
    · simp [hus, hrest]
    · simpa using he
    · rw [Token.operators_append, Token.operators_cons_of_some ho]
      intro p hp
      rcases List.mem_append.1 hp with hp | hp
      · rcases List.mem_cons.1 hp with rfl | hp
        · exact hle
        · exact Nat.le_trans hle (Nat.le_of_lt (hxs' p hp))
      · exact hys p hp
  | case2 least lhs o t us op s hs ho hlt =>
    refine ⟨[], rfl, by simpa using hl, by simp, fun o' t' vs op' s' hts ho' _ => ?_⟩
    obtain ⟨rfl, -⟩ := List.cons.inj hts
    obtain rfl := Option.some.inj (ho.symm.trans ho')
    exact Nat.lt_of_not_le hlt
  | case3 least lhs o t us hno =>
    refine ⟨[], rfl, by simpa using hl, by simp, fun o' t' vs op' s' hts ho' hs' => ?_⟩
    obtain ⟨hoo, htt⟩ := List.cons.inj hts
    obtain ⟨rfl, -⟩ := List.cons.inj htt
    subst hoo
    exact (hno op' s' ho' (Token.operand?_eq_some_iff.2 hs')).elim
  | case4 least lhs ts hno =>
    exact ⟨[], rfl, by simpa using hl, by simp,
      fun o' t' vs op' s' hts _ _ => (hno o' t' vs hts).elim⟩

theorem Alternates.exists_head {t : Token} {ts : List Token} (h : Alternates (t :: ts)) :
    ∃ s, Operand t s := by
  cases ts with
  | nil => exact exists_operand h
  | cons => exact exists_operand h.1

/-- Behind an alternation goes on another one. -/
theorem Alternates.append_cases {ls rs : List Token} (hl : Alternates ls)
    (h : Alternates (ls ++ rs)) :
    rs = [] ∨ ∃ o t us op s, rs = o :: t :: us ∧ o.operator? = some op ∧ Operand t s := by
  fun_induction Alternates ls with
  | case1 => exact hl.elim
  | case2 t =>
    rcases rs with _ | ⟨o, _ | ⟨u, us⟩⟩
    · exact .inl rfl
    · exact h.2.2.elim
    · obtain ⟨op, ho⟩ := Option.isSome_iff_exists.1 h.2.1
      obtain ⟨s, hs⟩ := Alternates.exists_head h.2.2
      exact .inr ⟨o, u, us, op, s, rfl, ho, hs⟩
  | case3 t p ls ih => exact ih hl.2.2 h.2.2

/-- Climbing finds the tree of an expression, and of nothing else. -/
theorem climb?_eq_some_iff {ts : List Token} {s : Statement} :
    climb? ts = some s ↔ Expression ts s := by
  have hspec {t : Token} {l : Statement} (us : List Token) (hl : Operand t l) :
      ∃ xs, us = xs ++ (climb 0 l us).2.1 ∧ Expression ([t] ++ xs) (climb 0 l us).1 ∧
        (∀ p ∈ Token.operators xs, 0 ≤ p.rank) ∧ NextRank (· < 0) (climb 0 l us).2.1 :=
    climb_spec 0 (.operand hl) fun _ _ _ _ _ _ _ _ p hp => by simp [hl.operators_eq] at hp
  constructor
  · intro h
    rcases ts with _ | ⟨t, us⟩
    · simp [climb?] at h
    · obtain ⟨l, hl, h⟩ := Option.bind_eq_some_iff.1 h
      split at h
      · rename_i hrest
        obtain rfl := Option.some.inj h
        obtain ⟨xs, hus, he, -, -⟩ := hspec us (Token.operand?_eq_some_iff.1 hl)
        rw [List.isEmpty_iff.1 hrest, List.append_nil] at hus
        rwa [← hus] at he
      · simp at h
  · intro h
    obtain ⟨t, us, rfl⟩ := List.exists_cons_of_ne_nil h.ne_nil
    have halt := h.alternates
    obtain ⟨l, hl⟩ := halt.exists_head
    obtain ⟨xs, hus, he, -, hnext⟩ := hspec us hl
    -- No operator is left, for none binds less than 0.
    have hrest : (climb 0 l us).2.1 = [] := by
      rw [hus] at halt
      rcases he.alternates.append_cases halt with hnil | ⟨o, u, vs, op, s, hvs, ho, hs⟩
      · exact hnil
      · exact absurd (hnext o u vs op s hvs ho hs) (Nat.not_lt_zero _)
    rw [hrest, List.append_nil] at hus
    rw [climb?, Token.operand?_eq_some_iff.2 hl, Option.bind_some, hrest]
    rw [hus] at h
    rw [h.unique he]
    rfl

/-! ## Parsing expressions -/

namespace Block

/-- The parser of the blocks that lie `d` levels deep in a program. -/
def parseDeep (d : Nat) : BlockParser :=
  parseAt (maxDepth - d)

theorem parseDeep_zero : parseDeep 0 = ofTokens := rfl

/-- A block of operands and operators is an expression. -/
theorem parseDeep_eq_ok_iff {ts : List Token} (hne : ts ≠ [])
    (hts : ∀ t ∈ ts, t.inExpression = true) {d : Nat} {b : Block} :
    parseDeep d ts = .ok b ↔ ∃ s, b = [s] ∧ Expression ts s ∧ s.height ≤ maxDepth - d := by
  rw [parseDeep, accepts_parseAt, Nat.lt_succ_iff]
  constructor
  · rintro ⟨hd, hn⟩
    obtain ⟨s, rfl, hs⟩ := hd.expression_of_forall hne hts
    rw [nesting, nesting, Nat.max_zero, hs.nesting_eq] at hn
    exact ⟨s, rfl, hs, hn⟩
  · rintro ⟨s, rfl, hs, hn⟩
    rw [nesting, nesting, Nat.max_zero, hs.nesting_eq]
    exact ⟨.expression hs, hn⟩

/-- Operands and operators have a conventional tree just if they alternate, and
    then only one, which climbing finds. They are accepted, as a whole program
    or as a value that lies `d` levels deep, just if this tree leaves enough of
    the levels, and are parsed to it. -/
theorem parse_conventional_iff {ts : List Token} (hne : ts ≠ [])
    (hts : ∀ t ∈ ts, t.inExpression = true) :
    (Alternates ts ↔ ∃! s, Conventional ts s) ∧
    (∀ s, climb? ts = some s ↔ Conventional ts s) ∧
    (∀ (source : Source) (b : Block), source.tokens = .ok ts →
      (source.parse = .ok b ↔ ∃ s, b = [s] ∧ Conventional ts s ∧ s.height ≤ maxDepth)) ∧
    ∀ d ≤ maxDepth, ∀ (anchor : Span) (v : Statement),
      Statement.parseValue (parseDeep d) anchor ts = .ok v ↔
        Conventional ts v ∧ v.height ≤ maxDepth - d := by
  simp only [conventional_iff]
  refine ⟨?_, fun s => climb?_eq_some_iff, fun source b h => ?_, fun d _ anchor v => ?_⟩
  · rw [← exists_expression_iff]
    exact ⟨fun ⟨s, hs⟩ => ⟨s, hs, fun _ hs' => hs'.unique hs⟩, fun ⟨s, hs, _⟩ => ⟨s, hs⟩⟩
  · have hparse : source.parse = parseDeep 0 ts := by
      rw [Source.parse, h, parseDeep_zero]
      rfl
    rw [hparse, parseDeep_eq_ok_iff hne hts, Nat.sub_zero]
  · rw [Statement.parseValue, if_neg (by simpa using hne)]
    constructor
    · intro hv
      cases hb : parseDeep d ts with
      | error e => simp [hb, Except.map] at hv
      | ok b =>
        obtain ⟨s, rfl, hs⟩ := (parseDeep_eq_ok_iff hne hts).1 hb
        rw [hb] at hv
        obtain rfl := Except.ok.inj hv
        exact hs
    · intro hv
      rw [(parseDeep_eq_ok_iff hne hts).2 ⟨v, rfl, hv⟩]
      rfl

/-- Five operators of four ranks, with a minus sign among them. -/
theorem parse_conventional_of_chain :
    ∃ ts s, (⟨"main.kode", "a and b = 1 - -2 - input * c", 0⟩ : Source).tokens = .ok ts ∧
      climb? ts = some s ∧
      (⟨"main.kode", "a and b = 1 - -2 - input * c", 0⟩ : Source).parse = .ok [s] := by
  have hp : (match (⟨"main.kode", "a and b = 1 - -2 - input * c", 0⟩ : Source).tokens with
    | .ok ts => !ts.isEmpty && ts.all Token.inExpression &&
      (climb? ts).any fun s => s.height ≤ maxDepth
    | .error _ => false) = true := by decide +kernel
  split at hp
  · rename_i ts hts
    simp only [Bool.and_eq_true, Bool.not_eq_true', List.isEmpty_eq_false_iff, List.all_eq_true,
      Option.any_eq_true, decide_eq_true_eq] at hp
    obtain ⟨⟨hne, hin⟩, s, hs, hheight⟩ := hp
    obtain ⟨-, hclimb, hparse, -⟩ := parse_conventional_iff hne hin
    exact ⟨ts, s, hts, hs, (hparse _ _ hts).2 ⟨s, rfl, (hclimb s).1 hs, hheight⟩⟩
  · exact absurd hp (by simp)

end Block

end Kode
