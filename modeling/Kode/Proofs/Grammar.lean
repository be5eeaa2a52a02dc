import Kode.Statement.Parse

/-!
# The grammar

Which tokens make up a program, and which one. A *block* is a sequence of
statements; all of them but the last end by themselves, with a period or an
`END`, and the last one may also be a bare *expression*, operands with
operators between them (`Derives`). Values and conditions are blocks in turn.
The rules join the tokens of their parts in order, so a derivation uses up
every token once.

The operators of an expression determine its tree: at the root stands one that
binds no tighter than any other, and of several such ones the last
(`Expression`). Any strict alternation of operands and operators is an
expression (`exists_expression_iff`).

The rules set no limit to how deep values, conditions, bodies and operands are
nested in each other; `Block.nesting` measures that on the tree.
-/

namespace Kode

namespace Token

/-- The operators among the tokens, in order. -/
def operators (ts : List Token) : List Operator :=
  ts.filterMap operator?

@[simp] theorem operators_nil : operators [] = [] := rfl

@[simp] theorem operators_append (ts us : List Token) :
    operators (ts ++ us) = operators ts ++ operators us :=
  List.filterMap_append

theorem operators_cons_of_some {t : Token} {op : Operator} (h : t.operator? = some op)
    (ts : List Token) : operators (t :: ts) = op :: operators ts :=
  List.filterMap_cons_some h

theorem operators_cons_of_none {t : Token} (h : t.operator? = none) (ts : List Token) :
    operators (t :: ts) = operators ts :=
  List.filterMap_cons_none h

/-- Whether the token can occur in an expression. -/
def inExpression (t : Token) : Bool :=
  t.isOperand || t.operator?.isSome

theorem isKeyword_iff {word : Keyword} {t : Token} :
    t.isKeyword word = true ↔ t.keyword? = some word :=
  decide_eq_true_iff

theorem kind_of_isKeyword {word : Keyword} {t : Token} (h : t.isKeyword word = true) :
    t.kind = .keyword word := by
  rw [isKeyword_iff, keyword?] at h
  split at h
  · rename_i hk
    rw [hk, Option.some.inj h]
  · simp at h

theorem kind_of_isIdentifier {t : Token} (h : t.isIdentifier = true) : t.kind = .identifier :=
  of_decide_eq_true h

theorem kind_of_isPeriod {t : Token} (h : t.isPeriod = true) : t.kind = .punctuation .period :=
  of_decide_eq_true h

theorem isPeriod_of_isKeyword {word : Keyword} {t : Token} (h : t.isKeyword word = true) :
    t.isPeriod = false := by
  simp [isPeriod, kind_of_isKeyword h]

theorem isPeriod_of_isIdentifier {t : Token} (h : t.isIdentifier = true) : t.isPeriod = false := by
  simp [isPeriod, kind_of_isIdentifier h]

theorem isKeyword_eq_false_of_isPeriod {t : Token} (h : t.isPeriod = true) (word : Keyword) :
    t.isKeyword word = false := by
  simp [isKeyword, keyword?, kind_of_isPeriod h]

theorem inExpression_eq_false_of_isPeriod {t : Token} (h : t.isPeriod = true) :
    t.inExpression = false := by
  simp [inExpression, isOperand, isLiteral, isIdentifier, isKeyword, keyword?, operator?,
    kind_of_isPeriod h]

/-- `INPUT` is the only keyword in an expression. -/
theorem keyword?_of_inExpression {t : Token} (h : t.inExpression = true) :
    t.keyword? = none ∨ t.keyword? = some .INPUT := by
  cases hk : t.kind with
  | keyword word =>
    cases word <;>
      simp_all [inExpression, isOperand, isLiteral, isIdentifier, isKeyword, keyword?, operator?]
  | literal value => exact .inl (by simp [keyword?, hk])
  | operator op => exact .inl (by simp [keyword?, hk])
  | identifier => exact .inl (by simp [keyword?, hk])
  | punctuation mark => exact .inl (by simp [keyword?, hk])

theorem isPeriod_of_inExpression {t : Token} (h : t.inExpression = true) : t.isPeriod = false := by
  cases hp : t.isPeriod with
  | false => rfl
  | true => simp [inExpression_eq_false_of_isPeriod hp] at h

theorem operator?_of_isOperand {t : Token} (h : t.isOperand = true) : t.operator? = none := by
  cases hk : t.kind <;>
    simp_all [isOperand, isLiteral, isIdentifier, isKeyword, keyword?, operator?]

end Token

/-! ## Expressions -/

/-- A token that is an operand, and the statement it stands for. -/
inductive Operand : Token → Statement → Prop
  | literal {t : Token} : t.isLiteral = true → Operand t (.literal t)
  | identifier {t : Token} : t.isIdentifier = true → Operand t (.identifier t)
  | input {t : Token} : t.isKeyword .INPUT = true → Operand t (.input t.span)

/-- Tokens that make up an expression, and its tree: no operator of the left
    side binds its operands less than the one at the root, and all of the right
    side bind theirs more. -/
inductive Expression : List Token → Statement → Prop
  | operand {t : Token} {s : Statement} : Operand t s → Expression [t] s
  | operation {ls rs : List Token} {o : Token} {op : Operator} {l r : Statement} :
      Expression ls l → o.operator? = some op → Expression rs r →
      (∀ p ∈ Token.operators ls, op.rank ≤ p.rank) →
      (∀ p ∈ Token.operators rs, op.rank < p.rank) →
      Expression (ls ++ o :: rs) (.operation l op o.span r)

/-- Operands with one operator between any two neighbours. -/
def Alternates : List Token → Prop
  | [] => False
  | [t] => t.isOperand = true
  | t :: o :: ts => t.isOperand = true ∧ o.operator?.isSome = true ∧ Alternates ts

theorem Operand.isOperand {t : Token} {s : Statement} (h : Operand t s) : t.isOperand = true := by
  cases h with
  | literal h => simp [Token.isOperand, h]
  | identifier h => simp [Token.isOperand, h]
  | input h => simp [Token.isOperand, h]

theorem exists_operand {t : Token} (h : t.isOperand = true) : ∃ s, Operand t s := by
  rw [Token.isOperand, Bool.or_eq_true, Bool.or_eq_true] at h
  rcases h with (h | h) | h
  · exact ⟨_, .literal h⟩
  · exact ⟨_, .identifier h⟩
  · exact ⟨_, .input h⟩

theorem Expression.ne_nil {ts : List Token} {s : Statement} (h : Expression ts s) : ts ≠ [] := by
  cases h <;> simp

theorem Expression.inExpression {ts : List Token} {s : Statement} (h : Expression ts s) :
    ∀ t ∈ ts, t.inExpression = true := by
  induction h with
  | operand h => simp [Token.inExpression, h.isOperand]
  | operation _ ho _ _ _ ihl ihr =>
    intro t ht
    rcases List.mem_append.1 ht with ht | ht
    · exact ihl t ht
    · rcases List.mem_cons.1 ht with rfl | ht
      · simp [Token.inExpression, ho]
      · exact ihr t ht

/-- Without an operator there is a single operand. -/
theorem Expression.operand_of_operators {ts : List Token} {s : Statement} (h : Expression ts s)
    (hops : Token.operators ts = []) : ∃ t, ts = [t] ∧ Operand t s := by
  cases h with
  | operand h => exact ⟨_, rfl, h⟩
  | operation _ ho => simp [Token.operators_cons_of_some ho] at hops

theorem Alternates.append {ls rs : List Token} {o : Token} (hl : Alternates ls)
    (ho : o.operator?.isSome = true) (hr : Alternates rs) : Alternates (ls ++ o :: rs) := by
  fun_induction Alternates ls with
  | case1 => exact hl.elim
  | case2 t => exact ⟨hl, ho, hr⟩
  | case3 t p ls ih => exact ⟨hl.1, hl.2.1, ih hl.2.2⟩

/-- Cutting an alternation at an operator leaves two. -/
theorem Alternates.of_append {ls rs : List Token} {o : Token} {op : Operator}
    (h : Alternates (ls ++ o :: rs)) (ho : o.operator? = some op) :
    Alternates ls ∧ Alternates rs := by
  have hne {t : Token} (ht : t.isOperand = true) : t ≠ o := by
    rintro rfl
    simp [Token.operator?_of_isOperand ht] at ho
  fun_induction Alternates ls with
  | case1 =>
    -- Nothing begins with an operator.
    rcases rs with _ | ⟨t, rs⟩
    · exact absurd rfl (hne h)
    · exact absurd rfl (hne h.1)
  | case2 t => exact ⟨h.1, h.2.2⟩
  | case3 t p ls ih => exact ⟨⟨h.1, h.2.1, (ih h.2.2).1⟩, (ih h.2.2).2⟩

theorem Expression.alternates {ts : List Token} {s : Statement} (h : Expression ts s) :
    Alternates ts := by
  induction h with
  | operand h => exact h.isOperand
  | operation _ ho _ _ _ ihl ihr => exact ihl.append (by simp [ho]) ihr

/-! ## Where an expression is cut -/

theorem operators_of_cutLoosest?_eq_none {ts : List Token} (h : cutLoosest? ts = none) :
    Token.operators ts = [] := by
  induction ts with
  | nil => rfl
  | cons t ts ih =>
    rw [cutLoosest?] at h
    split at h
    · rename_i ht hu
      rw [Token.operators_cons_of_none ht, ih hu]
    · simp at h
    · simp at h
    · split at h <;> simp at h

/-- The operator at which the tokens are cut binds no tighter than those before
    it and less than those after it. -/
theorem cutLoosest?_rank {ts : List Token} {s : Sides} (h : cutLoosest? ts = some s) :
    (∀ p ∈ Token.operators s.lhs, s.op.rank ≤ p.rank) ∧
      ∀ p ∈ Token.operators s.rhs, s.op.rank < p.rank := by
  induction ts generalizing s with
  | nil => simp [cutLoosest?] at h
  | cons t ts ih =>
    rw [cutLoosest?] at h
    split at h
    · simp at h
    · rename_i u ht hu
      obtain rfl := Option.some.inj h
      simpa [Token.operators_cons_of_none ht] using ih hu
    · rename_i op ht hu
      obtain rfl := Option.some.inj h
      simp [operators_of_cutLoosest?_eq_none hu]
    · rename_i op u ht hu
      split at h
      · -- The new operator binds less than the one found in the rest, which is
        -- at most as tight as the others there.
        rename_i hlt
        obtain rfl := Option.some.inj h
        obtain ⟨hts, hop⟩ := cutLoosest?_eq_some hu
        obtain ⟨hl, hr⟩ := ih hu
        refine ⟨by simp, fun p hp => ?_⟩
        change p ∈ Token.operators ts at hp
        rw [hts, Token.operators_append, Token.operators_cons_of_some hop] at hp
        rcases List.mem_append.1 hp with hp | hp
        · exact Nat.lt_of_lt_of_le hlt (hl p hp)
        · rcases List.mem_cons.1 hp with rfl | hp
          · exact hlt
          · exact Nat.lt_trans hlt (hr p hp)
      · -- The place stays, with the new operator on its left.
        rename_i hlt
        obtain rfl := Option.some.inj h
        obtain ⟨hl, hr⟩ := ih hu
        refine ⟨fun p hp => ?_, hr⟩
        rw [Token.operators_cons_of_some ht] at hp
        rcases List.mem_cons.1 hp with rfl | hp
        · exact Nat.le_of_not_lt hlt
        · exact hl p hp

/-- There is only one such place. -/
theorem cutLoosest?_append {ls rs : List Token} {o : Token} {op : Operator}
    (ho : o.operator? = some op) (hl : ∀ p ∈ Token.operators ls, op.rank ≤ p.rank)
    (hr : ∀ p ∈ Token.operators rs, op.rank < p.rank) :
    cutLoosest? (ls ++ o :: rs) = some ⟨ls, o, op, rs⟩ := by
  induction ls with
  | nil =>
    -- Whatever is found on the right binds more, so it gives way.
    rw [List.nil_append, cutLoosest?, ho]
    cases hu : cutLoosest? rs with
    | none => rfl
    | some u =>
      obtain ⟨hts, hop⟩ := cutLoosest?_eq_some hu
      have : u.op ∈ Token.operators rs := by
        simp [hts, Token.operators_cons_of_some hop]
      simp [hr u.op this]
  | cons t ls ih =>
    rw [List.cons_append, cutLoosest?]
    cases ht : t.operator? with
    | none =>
      rw [Token.operators_cons_of_none ht] at hl
      rw [ih hl]
    | some p =>
      rw [Token.operators_cons_of_some ht, List.forall_mem_cons] at hl
      rw [ih hl.2]
      simp [Nat.not_lt.2 hl.1]

/-- The expressions are the alternations of operands and operators. -/
theorem exists_expression_iff {ts : List Token} : (∃ s, Expression ts s) ↔ Alternates ts := by
  refine ⟨fun ⟨_, h⟩ => h.alternates, fun h => ?_⟩
  induction hn : ts.length using Nat.strongRecOn generalizing ts with
  | ind n ih =>
    cases hc : cutLoosest? ts with
    | none =>
      -- Without an operator there is a single operand.
      have hops := operators_of_cutLoosest?_eq_none hc
      match ts, h with
      | [t], h =>
        obtain ⟨s, hs⟩ := exists_operand h
        exact ⟨s, .operand hs⟩
      | t :: o :: ts, h =>
        obtain ⟨p, hp⟩ := Option.isSome_iff_exists.1 h.2.1
        simp [Token.operators, Token.operator?_of_isOperand h.1, hp] at hops
    | some s =>
      obtain ⟨rfl, hop⟩ := cutLoosest?_eq_some hc
      obtain ⟨hl, hr⟩ := h.of_append hop
      have hlen : s.lhs.length < n ∧ s.rhs.length < n := by
        rw [← hn]
        simp
        omega
      obtain ⟨l, hl⟩ := ih _ hlen.1 hl rfl
      obtain ⟨r, hr⟩ := ih _ hlen.2 hr rfl
      obtain ⟨hle, hlt⟩ := cutLoosest?_rank hc
      exact ⟨_, .operation hl hop hr hle hlt⟩

/-! ## Blocks -/

/-- The value that a block is where a value is expected: its only statement, or
    all of them. -/
def Block.value : Block → Statement
  | [s] => s
  | b => .sequence b

/-- A period, or nothing. -/
inductive OptionalPeriod : List Token → Prop
  | absent : OptionalPeriod []
  | present {p : Token} : p.isPeriod = true → OptionalPeriod [p]

/-- The tokens make up the block: rule by rule, the statement in front and the
    block after it. -/
inductive Derives : List Token → Block → Prop
  | nil : Derives [] []
  /-- A bare expression ends its block. -/
  | expression {ts : List Token} {s : Statement} : Expression ts s → Derives ts [s]
  /-- `SHOW V .` -/
  | display {k p : Token} {vs ts : List Token} {v b : Block} :
      k.isKeyword .SHOW = true → p.isPeriod = true →
      (∀ t ∈ vs, t.isPeriod = false) → vs ≠ [] → Derives vs v → Derives ts b →
      Derives (k :: (vs ++ p :: ts)) (.display k.span v.value :: b)
  /-- `SET name TO V .` -/
  | assignment {k x w p : Token} {vs ts : List Token} {v b : Block} :
      k.isKeyword .SET = true → x.isIdentifier = true → w.isKeyword .TO = true →
      p.isPeriod = true → (∀ t ∈ vs, t.isPeriod = false) → vs ≠ [] → Derives vs v → Derives ts b →
      Derives (k :: x :: w :: (vs ++ p :: ts)) (.assignment k.span x v.value :: b)
  /-- `INPUT .` -/
  | input {k p : Token} {ts : List Token} {b : Block} :
      k.isKeyword .INPUT = true → p.isPeriod = true → Derives ts b →
      Derives (k :: p :: ts) (.input k.span :: b)
  /-- `IF C THEN block END`, perhaps with a period. -/
  | conditional {k w e : Token} {cs ps stop ts : List Token} {c pass b : Block} :
      k.isKeyword .IF = true → w.isKeyword .THEN = true → e.isKeyword .END = true →
      OptionalPeriod stop → (∀ t ∈ cs, t.isKeyword .THEN = false) → cs ≠ [] →
      Derives cs c → Derives ps pass → Derives ts b →
      Derives (k :: (cs ++ w :: (ps ++ e :: (stop ++ ts))))
        (.conditional k.span c.value pass none e.span :: b)
  /-- `IF C THEN block ELSE block END`, perhaps with a period. -/
  | alternative {k w m e : Token} {cs ps fs stop ts : List Token} {c pass fail b : Block} :
      k.isKeyword .IF = true → w.isKeyword .THEN = true → m.isKeyword .ELSE = true →
      e.isKeyword .END = true → OptionalPeriod stop → (∀ t ∈ cs, t.isKeyword .THEN = false) →
      cs ≠ [] → Derives cs c → Derives ps pass → Derives fs fail → Derives ts b →
      Derives (k :: (cs ++ w :: (ps ++ m :: (fs ++ e :: (stop ++ ts)))))
        (.conditional k.span c.value pass (some fail) e.span :: b)
  /-- `WHILE C DO block END`, perhaps with a period. -/
  | loop {k w e : Token} {cs ps stop ts : List Token} {c body b : Block} :
      k.isKeyword .WHILE = true → w.isKeyword .DO = true → e.isKeyword .END = true →
      OptionalPeriod stop → (∀ t ∈ cs, t.isKeyword .DO = false) → cs ≠ [] →
      Derives cs c → Derives ps body → Derives ts b →
      Derives (k :: (cs ++ w :: (ps ++ e :: (stop ++ ts))))
        (.loop k.span c.value body e.span :: b)

/-! ## Nesting -/

mutual

/-- The number of values, conditions, bodies and operands that lie around the
    innermost part of the statement. -/
def Statement.nesting : Statement → Nat
  | .sequence body => Block.nesting body
  | .literal _ | .identifier _ | .input _ => 0
  | .assignment _ _ value => value.nesting + 1
  | .operation lhs _ _ rhs => max lhs.nesting rhs.nesting + 1
  | .display _ value => value.nesting + 1
  | .conditional _ condition pass fail _ =>
    max condition.nesting (max (Block.nesting pass) (Block.nestingElse fail)) + 1
  | .loop _ condition body _ => max condition.nesting (Block.nesting body) + 1

/-- The greatest number of them in any of the statements. -/
def Block.nesting : List Statement → Nat
  | [] => 0
  | s :: ss => max s.nesting (Block.nesting ss)

/-- The same for what follows an `ELSE`, if there is one. -/
def Block.nestingElse : Option (List Statement) → Nat
  | none => 0
  | some body => Block.nesting body

end

@[simp] theorem Block.nesting_value (b : Block) : b.value.nesting = Block.nesting b := by
  match b with
  | [] => rfl
  | [s] => simp [Block.value, Block.nesting]
  | s :: s' :: ss => rfl

theorem Derives.eq_nil {b : Block} (h : Derives [] b) : b = [] := by
  cases h with
  | nil => rfl
  | expression h => exact absurd rfl h.ne_nil

/-- Tokens that can occur in an expression make up one, if they make up a block
    at all. -/
theorem Derives.expression_of_forall {ts : List Token} {b : Block} (h : Derives ts b)
    (hne : ts ≠ []) (hts : ∀ t ∈ ts, t.inExpression = true) :
    ∃ s, b = [s] ∧ Expression ts s := by
  -- Every other statement has a keyword or a period that no expression has.
  have keyword {t : Token} {word : Keyword} (ht : t ∈ ts) (hk : t.isKeyword word = true)
      (hw : word ≠ .INPUT) : False := by
    rcases Token.keyword?_of_inExpression (hts t ht) with h | h <;>
      rw [Token.isKeyword_iff.1 hk] at h <;> simp_all
  cases h with
  | nil => exact absurd rfl hne
  | expression h => exact ⟨_, rfl, h⟩
  | display hk => exact (keyword (by simp) hk (by simp)).elim
  | assignment hk => exact (keyword (by simp) hk (by simp)).elim
  | input hk hp =>
    have := hts _ (List.mem_cons_of_mem _ List.mem_cons_self)
    simp [Token.inExpression_eq_false_of_isPeriod hp] at this
  | conditional hk => exact (keyword (by simp) hk (by simp)).elim
  | alternative hk => exact (keyword (by simp) hk (by simp)).elim
  | loop hk => exact (keyword (by simp) hk (by simp)).elim

end Kode
