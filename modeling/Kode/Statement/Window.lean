import Kode.Token

/-!
# Cutting tokens

The end of a nested part is never found by parsing it. The tokens are cut
first: at the first `THEN`, `DO` or period (`cutAt?`), at the `END` that closes
a block (`scanBody`), at the operator that binds least (`cutLoosest?`). Each
part is then parsed on its own.

What is cut can be put together again:

* `cutAt?_eq_some`: the tokens before the cut, the one at it and those after it
  are all there is, and the cut is the first possible one;
* `scanBody_eq_ok`: so are the branches of a body, its `ELSE`, its `END` and
  what follows;
* `cutLoosest?_eq_some`: so are the two sides of an operator.
-/

namespace Kode

/-- The two sides of a token. -/
structure Cut where
  before : List Token
  found : Token
  after : List Token

/-- Cuts at the first token that satisfies `p`. -/
def cutAt? (p : Token → Bool) : List Token → Option Cut
  | [] => none
  | t :: ts =>
    if p t then some ⟨[], t, ts⟩
    else (cutAt? p ts).map fun c => { c with before := t :: c.before }

theorem cutAt?_eq_some {p : Token → Bool} {ts : List Token} {c : Cut} (h : cutAt? p ts = some c) :
    ts = c.before ++ c.found :: c.after ∧ p c.found = true ∧ ∀ t ∈ c.before, p t = false := by
  induction ts generalizing c with
  | nil => simp [cutAt?] at h
  | cons t ts ih =>
    rw [cutAt?] at h
    split at h
    · obtain rfl := Option.some.inj h
      simpa
    · obtain ⟨d, hd, rfl⟩ := Option.map_eq_some_iff.1 h
      obtain ⟨h₁, h₂, h₃⟩ := ih hd
      simp_all

theorem cutAt?_eq_none_iff {p : Token → Bool} {ts : List Token} :
    cutAt? p ts = none ↔ ∀ t ∈ ts, p t = false := by
  induction ts with
  | nil => simp [cutAt?]
  | cons t ts ih =>
    by_cases h : p t <;> simp [cutAt?, h, ih]

/-! ## Bodies -/

/-- What an `ELSE` means that stands in no inner block. -/
inductive ElseRule
  /-- It is a token like any other. -/
  | ignored
  /-- It separates the branches. -/
  | expected
  /-- It is one too many. -/
  | refused
deriving DecidableEq, Repr

/-- A block up to its `END`. -/
structure Body where
  pass : List Token
  /-- What follows the `ELSE`, if there is one. -/
  fail : Option (List Token)
  /-- The `END`. -/
  close : Token
  rest : List Token

/-- Why a block has no body. -/
inductive BodyFault
  /-- There is no `END` for it. -/
  | unclosed
  /-- This `ELSE` is one too many. -/
  | duplicateElse (token : Token)

namespace Body

/-- The body with one more token in front of the first branch. -/
def cons (t : Token) (b : Body) : Body :=
  { b with pass := t :: b.pass }

/-- The body in which `b` is what follows an `ELSE`. -/
def otherwise (b : Body) : Body :=
  { b with pass := [], fail := some b.pass }

end Body

/-- The body of a block, up to the `END` that closes it, where `depth` further
    blocks are open inside it. -/
def scanBody (rule : ElseRule) (depth : Nat) : List Token → Except BodyFault Body
  | [] => .error .unclosed
  | t :: ts =>
    match t.keyword? with
    | some .IF | some .WHILE => (scanBody rule (depth + 1) ts).map (Body.cons t)
    | some .END =>
      match depth with
      | 0 => .ok ⟨[], none, t, ts⟩
      | d + 1 => (scanBody rule d ts).map (Body.cons t)
    | some .ELSE =>
      match depth, rule with
      | 0, .expected => (scanBody .refused 0 ts).map Body.otherwise
      | 0, .refused => .error (.duplicateElse t)
      | _, _ => (scanBody rule depth ts).map (Body.cons t)
    | _ => (scanBody rule depth ts).map (Body.cons t)

/-- The tokens of a body, in order. -/
inductive Body.Spells (b : Body) : List Token → Prop
  /-- A single branch. -/
  | plain : b.fail = none → b.Spells (b.pass ++ b.close :: b.rest)
  /-- Two branches with an `ELSE` between them. -/
  | split {fail : List Token} {e : Token} : b.fail = some fail → e.keyword? = some .ELSE →
      b.Spells (b.pass ++ e :: fail ++ b.close :: b.rest)

theorem Body.Spells.cons {b : Body} {ts : List Token} (h : b.Spells ts) (t : Token) :
    (b.cons t).Spells (t :: ts) := by
  cases h with
  | plain h => exact .plain (b := b.cons t) h
  | split h he => exact .split (b := b.cons t) h he

theorem Body.Spells.length_rest_lt {b : Body} {ts : List Token} (h : b.Spells ts) :
    b.rest.length < ts.length := by
  cases h <;> simp <;> omega

/-- A body is made of the tokens it was cut from, and no branch is left over
    after a second `ELSE`. -/
theorem scanBody_eq_ok {rule : ElseRule} {depth : Nat} {ts : List Token} {b : Body}
    (h : scanBody rule depth ts = .ok b) :
    b.Spells ts ∧ (rule ≠ .expected → b.fail = none) ∧ b.close.keyword? = some .END := by
  have step {rule : ElseRule} {d : Nat} {t : Token} {ts : List Token} {b : Body}
      (ih : ∀ {b : Body}, scanBody rule d ts = .ok b →
        b.Spells ts ∧ (rule ≠ .expected → b.fail = none) ∧ b.close.keyword? = some .END)
      (h : (scanBody rule d ts).map (Body.cons t) = .ok b) :
      b.Spells (t :: ts) ∧ (rule ≠ .expected → b.fail = none) ∧ b.close.keyword? = some .END := by
    cases hc : scanBody rule d ts with
    | error e => simp [hc, Except.map] at h
    | ok c =>
      obtain rfl : c.cons t = b := by simpa [hc, Except.map] using h
      exact ⟨(ih hc).1.cons t, (ih hc).2⟩
  fun_induction scanBody rule depth ts generalizing b with
  | case1 => simp at h
  | case2 rule depth t ts hk ih => exact step ih h
  | case3 rule depth t ts hk ih => exact step ih h
  | case4 rule t ts hk =>
    obtain rfl := Except.ok.inj h
    exact ⟨.plain rfl, fun _ => rfl, hk⟩
  | case5 rule t ts hk d ih => exact step ih h
  | case6 t ts hk ih =>
    cases hc : scanBody .refused 0 ts with
    | error e => simp [hc, Except.map] at h
    | ok c =>
      obtain rfl : c.otherwise = b := by simpa [hc, Except.map] using h
      obtain ⟨hs, hf, hclose⟩ := ih hc
      refine ⟨?_, by simp, hclose⟩
      cases hs with
      | plain _ => exact .split (b := c.otherwise) rfl hk
      | split hsome _ => simp [hf (by simp)] at hsome
  | case7 t ts hk => simp at h
  | case8 rule depth t ts hk _ _ ih => exact step ih h
  | case9 rule depth t ts _ _ _ _ ih => exact step ih h

/-! ## Operations -/

/-- The two sides of an operator. -/
structure Sides where
  lhs : List Token
  site : Token
  op : Operator
  rhs : List Token

/-- Cuts at the operator that binds its operands the least; of several, at the
    last one, so that the others belong to its left side. -/
def cutLoosest? : List Token → Option Sides
  | [] => none
  | t :: ts =>
    match t.operator?, cutLoosest? ts with
    | none, none => none
    | none, some s => some { s with lhs := t :: s.lhs }
    | some op, none => some ⟨[], t, op, ts⟩
    | some op, some s =>
      if op.rank < s.op.rank then some ⟨[], t, op, ts⟩
      else some { s with lhs := t :: s.lhs }

theorem cutLoosest?_eq_some {ts : List Token} {s : Sides} (h : cutLoosest? ts = some s) :
    ts = s.lhs ++ s.site :: s.rhs ∧ s.site.operator? = some s.op := by
  induction ts generalizing s with
  | nil => simp [cutLoosest?] at h
  | cons t ts ih =>
    rw [cutLoosest?] at h
    split at h
    · simp at h
    · rename_i u ht hu
      obtain rfl := Option.some.inj h
      obtain ⟨h₁, h₂⟩ := ih hu
      exact ⟨by simp [h₁], h₂⟩
    · rename_i op ht hu
      obtain rfl := Option.some.inj h
      exact ⟨rfl, ht⟩
    · rename_i op u ht hu
      split at h
      · obtain rfl := Option.some.inj h
        exact ⟨rfl, ht⟩
      · obtain rfl := Option.some.inj h
        obtain ⟨h₁, h₂⟩ := ih hu
        exact ⟨by simp [h₁], h₂⟩

end Kode
