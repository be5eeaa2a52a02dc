import Kode.Statement.Evaluate

/-!
# What every run keeps

A run is put together from a handful of actions: a name is bound, a line is
written or read, the trace grows, a block is opened and closed. A relation
between states that all of these respect (`Invariant`) therefore holds between
the states before and after the evaluation of any statement
(`Statement.keeps_eval`) and of any block (`Block.keeps_eval`), whether it
comes to a result, fails, or runs out of fuel.

Only `SET` binds names and only `SHOW` writes. Where neither stands in a
statement (`Statement.hasEffect`), the relation need not respect these two
actions (`QuietInvariant`).
-/

namespace Kode

namespace Run

variable {α β : Type} {R : State → State → Prop}

/-- The state that the run leaves, however it ends. -/
def after (r : Run α) (st : State) : State :=
  match r st with
  | .ok _ st' => st'
  | .error _ st' => st'

/-- A relation between the states before and after a run that all single
    actions respect but those of `SET` and `SHOW`, and that passes from what
    happens in a block to the whole of it. -/
structure QuietInvariant (R : State → State → Prop) : Prop where
  refl : ∀ st, R st st
  trans : ∀ st st' st'', R st st' → R st' st'' → R st st''
  ask : ∀ st a rest, st.answers = a :: rest → R st { st with answers := rest }
  note : ∀ st add, R st { st with trace := st.trace.map add }
  framed : ∀ st st', R { st with scope := st.scope.push } st' →
    R st { st' with scope := st'.scope.pop }

/-- Such a relation that these two actions respect as well. -/
structure Invariant (R : State → State → Prop) : Prop extends QuietInvariant R where
  assign : ∀ st name value, R st { st with scope := st.scope.put name value }
  write : ∀ st text, R st { st with output := st.output ++ text }

/-- The relation holds between the states before and after the run. -/
def Keeps (R : State → State → Prop) (r : Run α) : Prop :=
  ∀ st, R st (r.after st)

theorem bind_eq_of_ok {r : Run α} {f : α → Run β} {st st' : State} {a : α}
    (h : r st = .ok a st') : (r >>= f) st = f a st' := by
  simp only [bind, EStateM.bind, h]

theorem after_bind (r : Run α) (f : α → Run β) (st : State) :
    (r >>= f).after st = match r st with
      | .ok a st' => (f a).after st'
      | .error _ st' => st' := by
  change after (EStateM.bind r f) st = _
  unfold after EStateM.bind
  cases r st <;> rfl

theorem after_framed (r : Run α) (st : State) :
    r.framed.after st =
      let st' := r.after { st with scope := st.scope.push }
      { st' with scope := st'.scope.pop } := by
  unfold after framed
  cases r { st with scope := st.scope.push } <;> rfl

theorem keeps_ite {r r' : Run α} (goOn : Bool) (hr : Keeps R r) (hr' : Keeps R r') :
    Keeps R (if goOn then r else r') := by
  cases goOn <;> assumption

theorem keeps_assign (h : Invariant R) (name : String) (value : Located) :
    Keeps R (assign name value) :=
  fun st => h.assign st name value

theorem keeps_write (h : Invariant R) (line : String) : Keeps R (write line) := by
  intro st
  have := h.write st (line ++ "\n")
  rwa [← String.append_assoc] at this

variable (h : QuietInvariant R)

include h

theorem keeps_pure (a : α) : Keeps R (pure a) :=
  h.refl

theorem keeps_throw (stop : Stop) : Keeps R (throw stop : Run α) :=
  h.refl

theorem keeps_bind {r : Run α} {f : α → Run β} (hr : Keeps R r) (hf : ∀ a, Keeps R (f a)) :
    Keeps R (r >>= f) := by
  intro st
  have hst := hr st
  rw [after_bind]
  rw [after] at hst
  cases he : r st with
  | ok a st' =>
    rw [he] at hst
    exact h.trans _ _ _ hst (hf a st')
  | error e st' =>
    rw [he] at hst
    exact hst

theorem keeps_framed {r : Run α} (hr : Keeps R r) : Keeps R r.framed := by
  intro st
  rw [after_framed]
  exact h.framed _ _ (hr _)

/-! ## Single actions -/

theorem keeps_lookUp (token : Token) : Keeps R (lookUp token) := by
  refine keeps_bind h h.refl fun st => ?_
  split
  · exact keeps_pure h _
  · exact keeps_throw h _

theorem keeps_ask : Keeps R ask := by
  rintro ⟨scope, output, answers, trace⟩
  rcases answers with _ | ⟨a, rest⟩
  · exact h.refl _
  · exact h.ask _ a rest rfl

theorem keeps_read (site : Span) : Keeps R (read site) := by
  refine keeps_bind h (keeps_ask h) fun a => ?_
  cases a with
  | line text => exact keeps_pure h _
  | endOfInput => exact keeps_throw h _
  | failure reason => exact keeps_throw h _

theorem keeps_operate (op : Operator) (l r : Located) : Keeps R (operate op l r) := by
  rw [operate]
  split
  · exact keeps_pure h _
  · exact keeps_throw h _

theorem keeps_decide (l : Located) : Keeps R (decide l) := by
  rw [decide]
  split
  · exact keeps_pure h _
  · exact keeps_throw h _

theorem keeps_noted {s : Statement} {r : Run Located} (hr : Keeps R r) :
    Keeps R (noted s r) := by
  refine keeps_bind h hr fun l => keeps_bind h ?_ fun _ => keeps_pure h l
  exact fun st => h.note st _

/-- A loop is as good as its condition and its body. -/
theorem keeps_iterate {c : Run Bool} {b : Run Located} (hc : Keeps R c) (hb : Keeps R b)
    (fuel : Nat) (last : Located) : Keeps R (iterate c b fuel last) := by
  induction fuel generalizing last with
  | zero => exact keeps_throw h _
  | succ fuel ih =>
    refine keeps_bind h hc fun goOn => ?_
    cases goOn with
    | false => exact keeps_pure h _
    | true => exact keeps_bind h hb ih

end Run

mutual

/-- Whether there is a `SET` or a `SHOW` in the statement. -/
def Statement.hasEffect : Statement → Bool
  | .sequence body => Block.hasEffect body
  | .literal _ | .identifier _ | .input _ => false
  | .assignment .. | .display .. => true
  | .operation lhs _ _ rhs => lhs.hasEffect || rhs.hasEffect
  | .conditional _ condition pass fail _ =>
    condition.hasEffect || Block.hasEffect pass || Block.hasEffectElse fail
  | .loop _ condition body _ => condition.hasEffect || Block.hasEffect body

/-- Whether there is one in any of the statements. -/
def Block.hasEffect : List Statement → Bool
  | [] => false
  | s :: ss => s.hasEffect || Block.hasEffect ss

/-- The same for what follows an `ELSE`, if there is one. -/
def Block.hasEffectElse : Option (List Statement) → Bool
  | none => false
  | some body => Block.hasEffect body

end

open Run

variable {R : State → State → Prop} (h : QuietInvariant R) (fuel : Nat)

include h

mutual

/-- What all single actions respect, the evaluation of every statement does. The
    actions of `SET` and `SHOW` count only if one of them is there. -/
theorem Statement.keeps_eval : (s : Statement) → (s.hasEffect = true → Invariant R) →
    Keeps R (s.eval fuel)
  | .sequence body, he => keeps_noted h (Block.keeps_evalAfter body he _)
  | .literal _, _ => keeps_noted h (by split <;> exact keeps_pure h _)
  | .identifier token, _ => keeps_noted h (keeps_lookUp h token)
  | .assignment _ target value, he =>
    keeps_noted h <| keeps_bind h (value.keeps_eval fun _ => he rfl) fun l =>
      keeps_bind h (keeps_assign (he rfl) target.text l) fun _ => keeps_pure h _
  | .operation lhs op _ rhs, he =>
    keeps_noted h <|
      keeps_bind h (lhs.keeps_eval fun hl => he (by simp [Statement.hasEffect, hl])) fun l =>
        keeps_bind h (rhs.keeps_eval fun hr => he (by simp [Statement.hasEffect, hr])) fun r =>
          keeps_operate h op l r
  | .display _ value, he =>
    keeps_noted h <| keeps_bind h (value.keeps_eval fun _ => he rfl) fun l =>
      keeps_bind h (keeps_write (he rfl) l.value.shown) fun _ => keeps_pure h l
  | .input keyword, _ => keeps_noted h (keeps_read h keyword)
  | .conditional _ condition pass fail _, he =>
    keeps_noted h <| keeps_bind h
      (keeps_framed h <|
        keeps_bind h (condition.keeps_eval fun hc => he (by simp [Statement.hasEffect, hc]))
          fun l => keeps_bind h (keeps_decide h l) fun goOn =>
            keeps_ite goOn
              (Block.keeps_evalAfter pass (fun hp => he (by simp [Statement.hasEffect, hp])) _)
              (Block.keeps_evalElse fail fun hf => he (by simp [Statement.hasEffect, hf])))
      fun _ => keeps_pure h _
  | .loop _ condition body _, he =>
    keeps_noted h <| keeps_bind h
      (keeps_framed h <| keeps_iterate h
        (keeps_bind h (condition.keeps_eval fun hc => he (by simp [Statement.hasEffect, hc]))
          fun l => keeps_decide h l)
        (Block.keeps_evalAfter body (fun hb => he (by simp [Statement.hasEffect, hb])) _) fuel _)
      fun _ => keeps_pure h _

theorem Block.keeps_evalAfter : (b : List Statement) → (Block.hasEffect b = true → Invariant R) →
    (last : Located) → Keeps R (Block.evalAfter fuel b last)
  | [], _, last => keeps_pure h last
  | s :: ss, he, _ =>
    keeps_bind h (s.keeps_eval fun hs => he (by simp [Block.hasEffect, hs])) fun l =>
      Block.keeps_evalAfter ss (fun hss => he (by simp [Block.hasEffect, hss])) l

theorem Block.keeps_evalElse : (b : Option (List Statement)) →
    (Block.hasEffectElse b = true → Invariant R) → Keeps R (Block.evalElse fuel b)
  | none, _ => keeps_pure h _
  | some body, he => Block.keeps_evalAfter body he _

end

omit h in
/-- The same of every block. -/
theorem Block.keeps_eval (h : Invariant R) (fuel : Nat) (b : Block) : Keeps R (b.eval fuel) :=
  Block.keeps_evalAfter h.toQuietInvariant fuel b (fun _ => h) _

omit h in
/-- The same of a condition that is decided. -/
theorem Statement.keeps_check (h : Invariant R) (fuel : Nat) (condition : Statement) :
    Keeps R (do decide (← condition.eval fuel)) :=
  keeps_bind h.toQuietInvariant (condition.keeps_eval h.toQuietInvariant fuel fun _ => h) fun l =>
    keeps_decide h.toQuietInvariant l

omit h in
/-- The same of a condition and the branch that follows it. -/
theorem Statement.keeps_choice (h : Invariant R) (fuel : Nat) (condition : Statement)
    (pass : List Statement) (fail : Option (List Statement)) :
    Keeps R (do
      if ← decide (← condition.eval fuel) then Block.evalAfter fuel pass .nothing
      else Block.evalElse fuel fail) :=
  have hquiet := h.toQuietInvariant
  keeps_bind hquiet (condition.keeps_eval hquiet fuel fun _ => h) fun l =>
    keeps_bind hquiet (keeps_decide hquiet l) fun goOn =>
      keeps_ite goOn (Block.keeps_evalAfter hquiet fuel pass (fun _ => h) _)
        (Block.keeps_evalElse hquiet fuel fail fun _ => h)

omit h in
/-- The same of the rounds of a loop. -/
theorem Statement.keeps_rounds (h : Invariant R) (fuel : Nat) (condition : Statement)
    (body : List Statement) (rounds : Nat) (last : Located) :
    Keeps R (iterate (do decide (← condition.eval fuel)) (Block.evalAfter fuel body .nothing)
      rounds last) :=
  keeps_iterate h.toQuietInvariant (condition.keeps_check h fuel) (Block.keeps_eval h fuel body)
    rounds last

end Kode
