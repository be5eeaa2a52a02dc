import Kode.Proofs.Interference
import Kode.Proofs.Session

/-!
# Loops unrolled

`WHILE c DO b END` comes to the same as `IF c THEN b. WHILE c DO b END END`. The rounds
after the first one then run in a further block, and what they are the first to bind is
dropped a little earlier. No statement can tell: what was bound before the loop is kept
in both, and nothing else is left at its end.

How much fuel there is must not be told by what a run does, either.

* `Statement.extends_eval`: with more fuel a run does the same, unless there was too
  little;
* `Run.resembles_framed_right`: a run and the same run in a block of its own leave the
  same values to the names that were bound before;
* `Statement.loop_unrolled`: a loop and the condition that it is unrolled to both run
  forever, or both end, in the same way and with the same effects.
-/

namespace Kode

namespace Run

variable {α β : Type}

/-! ## More fuel -/

/-- The second run does what the first one does, unless that one runs out of fuel. -/
def Extends (m m' : Run α) : Prop :=
  ∀ st, m.result st = .error .outOfFuel ∨
    m'.result st = m.result st ∧ m'.after st = m.after st

theorem extends_refl (m : Run α) : Extends m m :=
  fun _ => .inr ⟨rfl, rfl⟩

theorem extends_bind {m m' : Run α} {k k' : α → Run β} (hm : Extends m m')
    (hk : ∀ a, Extends (k a) (k' a)) : Extends (m >>= k) (m' >>= k') := by
  intro st
  rw [result_bind, result_bind, after_bind_result, after_bind_result]
  rcases hm st with h | ⟨hresult, hafter⟩
  · rw [h]
    exact .inl rfl
  · rw [hresult, hafter]
    rcases m.result st with e | a
    · exact .inr ⟨rfl, rfl⟩
    · exact hk a _

theorem extends_ite {m m' n n' : Run α} (goOn : Bool) (hm : Extends m m') (hn : Extends n n') :
    Extends (if goOn then m else n) (if goOn then m' else n') := by
  cases goOn <;> assumption

theorem extends_framed {m m' : Run α} (hm : Extends m m') : Extends m.framed m'.framed := by
  intro st
  rw [result_framed, result_framed, after_framed, after_framed]
  rcases hm { st with scope := st.scope.push } with h | ⟨hresult, hafter⟩
  · exact .inl h
  · exact .inr ⟨hresult, by rw [hafter]⟩

theorem extends_noted {s : Statement} {m m' : Run Located} (hm : Extends m m') :
    Extends (noted s m) (noted s m') :=
  extends_bind hm fun _ => extends_refl _

/-- A loop that is allowed more rounds, and whose parts have more fuel. -/
theorem extends_iterate {c c' : Run Bool} {b b' : Run Located} (hc : Extends c c')
    (hb : Extends b b') {rounds rounds' : Nat} (h : rounds ≤ rounds') (last : Located) :
    Extends (iterate c b rounds last) (iterate c' b' rounds' last) := by
  induction rounds generalizing rounds' last with
  | zero => exact fun _ => .inl rfl
  | succ rounds ih =>
    obtain ⟨k, rfl⟩ := Nat.exists_eq_add_one_of_ne_zero (Nat.ne_zero_of_lt h)
    exact extends_bind hc fun goOn =>
      extends_ite goOn (extends_bind hb fun l => ih (Nat.le_of_succ_le_succ h) l) (extends_refl _)

end Run

open Run

variable {fuel fuel' : Nat}

mutual

/-- With more fuel the evaluation of a statement does the same, unless there was too little. -/
theorem Statement.extends_eval (h : fuel ≤ fuel') :
    (s : Statement) → Extends (s.eval fuel) (s.eval fuel')
  | .sequence body => extends_noted (Block.extends_evalAfter h body .nothing)
  | .literal _ => extends_refl _
  | .identifier _ => extends_refl _
  | .assignment _ _ value =>
    extends_noted <| extends_bind (value.extends_eval h) fun _ => extends_refl _
  | .operation lhs _ _ rhs =>
    extends_noted <| extends_bind (lhs.extends_eval h) fun _ =>
      extends_bind (rhs.extends_eval h) fun _ => extends_refl _
  | .display _ value =>
    extends_noted <| extends_bind (value.extends_eval h) fun _ => extends_refl _
  | .input _ => extends_refl _
  | .conditional _ condition pass fail _ =>
    extends_noted <| extends_bind
      (extends_framed <| extends_bind (condition.extends_eval h) fun l =>
        extends_bind (extends_refl (decide l)) fun goOn =>
          extends_ite goOn (Block.extends_evalAfter h pass .nothing)
            (Block.extends_evalElse h fail))
      fun _ => extends_refl _
  | .loop _ condition body _ =>
    extends_noted <| extends_bind
      (extends_framed <| extends_iterate
        (extends_bind (condition.extends_eval h) fun l => extends_refl (decide l))
        (Block.extends_evalAfter h body .nothing) h .nothing)
      fun _ => extends_refl _

theorem Block.extends_evalAfter (h : fuel ≤ fuel') : (b : List Statement) → (last : Located) →
    Extends (Block.evalAfter fuel b last) (Block.evalAfter fuel' b last)
  | [], _ => extends_refl _
  | s :: ss, _ => extends_bind (s.extends_eval h) fun l => Block.extends_evalAfter h ss l

theorem Block.extends_evalElse (h : fuel ≤ fuel') : (b : Option (List Statement)) →
    Extends (Block.evalElse fuel b) (Block.evalElse fuel' b)
  | none => extends_refl _
  | some body => Block.extends_evalAfter h body .nothing

end

/-! ## Runs that are alike -/

/-- The states are the same as far as the names go that are bound in the scope. -/
structure State.SameAbout (s : Scope) (st st' : State) : Prop where
  answers : st.answers = st'.answers
  output : st.output = st'.output
  names : ∀ name, s.contains name → st.scope.AgreeOn st'.scope name

/-- The states are the same but for the frames in which the names stand, for the places
    that the values are attributed to, and for the trace. -/
structure State.Same (st st' : State) : Prop where
  answers : st.answers = st'.answers
  output : st.output = st'.output
  names : ∀ name, st.scope.AgreeOn st'.scope name
  depth : st.scope.depth = st'.scope.depth

namespace State.SameAbout

variable {s : Scope} {st st' st'' : State}

theorem refl (st : State) : SameAbout s st st :=
  ⟨rfl, rfl, fun _ _ => rfl⟩

theorem symm (h : SameAbout s st st') : SameAbout s st' st :=
  ⟨h.answers.symm, h.output.symm, fun name hn => (h.names name hn).symm⟩

theorem trans (h : SameAbout s st st') (h' : SameAbout s st' st'') : SameAbout s st st'' :=
  ⟨h.answers.trans h'.answers, h.output.trans h'.output,
    fun name hn => (h.names name hn).trans (h'.names name hn)⟩

theorem of_grows {st₀ st₁ : State} (h : SameAbout st₁.scope st st') (hgrows : Grows st₀ st₁) :
    SameAbout st₀.scope st st' := by
  obtain ⟨fresh, hgrows⟩ := hgrows
  refine ⟨h.answers, h.output, fun name hn => h.names name ?_⟩
  rw [hgrows.contains, hn, Bool.true_or]

/-- Where nothing else is bound, that is all. -/
theorem same (h : SameAbout s st st') (hst : Scope.GrowsBy [] s st.scope)
    (hst' : Scope.GrowsBy [] s st'.scope) : Same st st' := by
  refine ⟨h.answers, h.output, fun name => ?_, ?_⟩
  · cases hn : s.contains name with
    | true => exact h.names name hn
    | false =>
      have hnone := (hst.contains_eq name).trans hn
      have hnone' := (hst'.contains_eq name).trans hn
      rw [Scope.contains, Option.isSome_eq_false_iff, Option.isNone_iff_eq_none] at hnone hnone'
      rw [Scope.AgreeOn, hnone, hnone']
  · rw [Scope.depth, Scope.depth, hst.outer, hst'.outer]

end State.SameAbout

namespace Run

variable {α β : Type}

/-- How the run ends, whatever its value. -/
def ending (m : Run α) (st : State) : Except Stop Unit :=
  (m.result st).map fun _ => ()

/-- The two end in the same way, and what they leave is the same about the names that
    were bound before. -/
def Resembles (m m' : Run α) : Prop :=
  ∀ st, m.ending st = m'.ending st ∧ State.SameAbout st.scope (m.after st) (m'.after st)

theorem Meet.ends {Q : α → β → Prop} {R : State → State → Prop} {m : Run α} {m' : Run β}
    {st st' : State} (h : Meet Q R (m st) (m' st')) :
    m.ending st = m'.ending st' ∧ R (m.after st) (m'.after st') := by
  unfold ending result after
  generalize m st = x, m' st' = y at h
  cases h with
  | ok _ hR => exact ⟨rfl, hR⟩
  | error hR => exact ⟨rfl, hR⟩

theorem Extends.ending {m m' : Run α} (h : Extends m m') (st : State) :
    m.ending st = .error .outOfFuel ∨ m'.ending st = m.ending st ∧ m'.after st = m.after st := by
  rcases h st with h | ⟨hresult, hafter⟩
  · exact .inl (by rw [Run.ending, h]; rfl)
  · exact .inr ⟨by rw [Run.ending, Run.ending, hresult], hafter⟩

theorem exists_of_ne_outOfFuel {m : Run α} {st : State}
    (h : m.ending st ≠ .error .outOfFuel) :
    ∃ r : Except RuntimeError Unit, m.ending st = r.mapError .failed := by
  generalize m.ending st = x at h
  rcases x with (e | -) | -
  · exact ⟨.error e, rfl⟩
  · exact absurd rfl h
  · exact ⟨.ok (), rfl⟩

theorem resembles_refl (m : Run α) : Resembles m m :=
  fun _ => ⟨rfl, .refl _⟩

theorem Resembles.symm {m m' : Run α} (h : Resembles m m') : Resembles m' m :=
  fun st => ⟨(h st).1.symm, (h st).2.symm⟩

theorem Resembles.trans {m m' m'' : Run α} (h : Resembles m m') (h' : Resembles m' m'') :
    Resembles m m'' :=
  fun st => ⟨(h st).1.trans (h' st).1, (h st).2.trans (h' st).2⟩

/-- After the same run, what was bound before it still is. -/
theorem resembles_bind {m : Run α} {k k' : α → Run β} (hm : Keeps State.Grows m)
    (hk : ∀ a, Resembles (k a) (k' a)) : Resembles (m >>= k) (m >>= k') := by
  intro st
  have hgrows := hm st
  rw [ending, ending, result_bind, result_bind, after_bind_result, after_bind_result]
  rcases m.result st with e | a
  · exact ⟨rfl, .refl _⟩
  · obtain ⟨hending, hsame⟩ := hk a (m.after st)
    exact ⟨hending, hsame.of_grows hgrows⟩

theorem resembles_ite {m m' n n' : Run α} (goOn : Bool) (hm : Resembles m m')
    (hn : Resembles n n') :
    Resembles (if goOn then m else n) (if goOn then m' else n') := by
  cases goOn <;> assumption

theorem resembles_framed {m m' : Run α} (h : Resembles m m') (hgrows : Keeps State.Grows m)
    (hgrows' : Keeps State.Grows m') : Resembles m.framed m'.framed := by
  intro st
  obtain ⟨hending, hsame⟩ := h { st with scope := st.scope.push }
  obtain ⟨fresh, hgrown⟩ := hgrows { st with scope := st.scope.push }
  obtain ⟨fresh', hgrown'⟩ := hgrows' { st with scope := st.scope.push }
  rw [ending, ending, result_framed, result_framed, after_framed, after_framed]
  refine ⟨hending, hsame.answers, hsame.output, fun name hn => ?_⟩
  rw [Scope.AgreeOn, hgrown.get?_pop, hgrown'.get?_pop, if_pos hn, if_pos hn]
  exact hsame.names name hn

/-- A run and one beside it that has a block of its own. -/
theorem resembles_framed_right {m m' : Run α} {Q : α → α → Prop}
    (h : ∀ base base', Abreast Q (State.Alike (fun _ => True) base base') m m')
    (hgrows : Keeps State.Grows m') : Resembles m m'.framed := by
  intro st
  obtain ⟨hending, halike⟩ := (h st.scope st.scope st { st with scope := st.scope.push }
    ⟨rfl, rfl, fun _ _ => rfl, fun _ hn => absurd trivial hn⟩).ends
  obtain ⟨fresh, hgrown⟩ := hgrows { st with scope := st.scope.push }
  rw [ending, ending, result_framed, after_framed]
  refine ⟨hending, halike.answers, halike.output, fun name hn => ?_⟩
  rw [Scope.AgreeOn, hgrown.get?_pop, if_pos hn]
  exact halike.inside name trivial

/-- It makes no difference what the value is attributed to, nor that it is noted. -/
theorem resembles_noted (s : Statement) (m : Run Located) (site : Span) :
    Resembles (noted s do let l ← m; return l.at site) m := by
  intro st
  obtain ⟨trace, hafter⟩ := exists_after_noted s (do let l ← m; return l.at site) st
  rw [ending, ending, result_noted, hafter, result_bind, after_bind_result]
  rcases m.result st with e | l <;> exact ⟨rfl, rfl, rfl, fun _ _ => rfl⟩

end Run

/-! ## The first round apart -/

/-- The rounds of a loop in their block: at most so many, with so much fuel for the loops
    within it. -/
def Statement.rounds (condition : Statement) (body : List Statement) (fuel most : Nat) :
    Run Located :=
  framed <| iterate (do decide (← condition.eval fuel)) (Block.evalAfter fuel body .nothing) most
    .nothing

namespace Statement

variable (condition : Statement) (body : List Statement)

theorem extends_rounds {fuel fuel' most most' : Nat} (hfuel : fuel ≤ fuel')
    (hmost : most ≤ most') :
    Extends (condition.rounds body fuel most) (condition.rounds body fuel' most') :=
  extends_framed <| extends_iterate
    (extends_bind (condition.extends_eval hfuel) fun l => extends_refl (decide l))
    (Block.extends_evalAfter hfuel body .nothing) hmost .nothing

variable (keyword close : Span) (fuel : Nat)

theorem resembles_loop :
    Resembles ((loop keyword condition body close).eval fuel) (condition.rounds body fuel fuel) :=
  resembles_noted _ _ _

/-- Rounds in the block of those before them, and rounds in a block of their own. -/
theorem resembles_iterate (last : Located) :
    Resembles (iterate (do decide (← condition.eval fuel)) (Block.evalAfter fuel body .nothing)
      fuel last) ((loop keyword condition body close).eval fuel) := by
  have hcheck base base' : Abreast Eq (State.Alike (fun _ => True) base base')
      (do decide (← condition.eval fuel)) (do decide (← condition.eval fuel)) :=
    abreast_bind (condition.abreast_eval fuel fun _ _ _ _ => trivial) fun l l' hl =>
      hl ▸ abreast_decide l
  have hbody base base' : Abreast (fun _ _ => True) (State.Alike (fun _ => True) base base')
      (Block.evalAfter fuel body .nothing) (Block.evalAfter fuel body .nothing) :=
    abreast_mono (Block.abreast_evalAfter fuel body (fun _ _ _ _ => trivial) .nothing)
      fun _ _ _ => trivial
  have hrounds : Resembles (iterate (do decide (← condition.eval fuel))
      (Block.evalAfter fuel body .nothing) fuel last) (condition.rounds body fuel fuel) :=
    resembles_framed_right
      (fun base base' => abreast_iterate (hcheck base base') (hbody base base') fuel trivial)
      (condition.keeps_rounds Scope.growsBy_invariant fuel body fuel .nothing)
  exact hrounds.trans (condition.resembles_loop body keyword close fuel).symm

/-- The condition, the body and the loop again are one round more. -/
theorem resembles_unrolled (keyword' close' : Span) :
    Resembles ((conditional keyword' condition (body ++ [loop keyword condition body close]) none
      close').eval fuel) (condition.rounds body fuel (fuel + 1)) := by
  refine (resembles_noted _ _ _).trans (resembles_framed ?_
    (condition.keeps_choice Scope.growsBy_invariant fuel _ none)
    (condition.keeps_rounds Scope.growsBy_invariant fuel body (fuel + 1) .nothing))
  have hbody : Block.evalAfter fuel (body ++ [loop keyword condition body close]) .nothing =
      Block.evalAfter fuel body .nothing >>= fun _ =>
        (loop keyword condition body close).eval fuel := by
    rw [Block.evalAfter_append]
    exact congrArg _ (funext fun _ => bind_pure _)
  rw [hbody, ← bind_assoc]
  exact (resembles_bind (condition.keeps_check Scope.growsBy_invariant fuel) fun goOn =>
    resembles_ite goOn
      (resembles_bind (Block.keeps_eval Scope.growsBy_invariant fuel body) fun last =>
        condition.resembles_iterate body keyword close fuel last)
      (resembles_refl _)).symm

end Statement

/-! ## The whole loop -/

/-- No fuel is enough for the run to end. -/
def Run.Diverges {α : Type} (m : Nat → Run α) (st : State) : Prop :=
  ∀ fuel, (m fuel).ending st = .error .outOfFuel

/-- With enough fuel the run ends, well or with an error, and leaves this state. -/
def Run.Halts {α : Type} (m : Nat → Run α) (st : State) (r : Except RuntimeError Unit)
    (st' : State) : Prop :=
  ∃ enough, ∀ fuel, enough ≤ fuel →
    (m fuel).ending st = r.mapError .failed ∧ (m fuel).after st = st'

/-- Where more fuel makes no difference, a run that has ended once has ended for good. -/
theorem Run.halts_of_ending {α : Type} {m : Nat → Run α} {st : State}
    (hm : ∀ {fuel fuel'}, fuel ≤ fuel' → Extends (m fuel) (m fuel')) {enough : Nat}
    {r : Except RuntimeError Unit} (h : (m enough).ending st = r.mapError .failed) :
    Halts m st r ((m enough).after st) := by
  refine ⟨enough, fun fuel hfuel => ?_⟩
  rcases (hm hfuel).ending st with hnone | ⟨hending, hafter⟩
  · rw [h] at hnone
    cases r <;> exact absurd hnone nofun
  · exact ⟨hending.trans h, hafter⟩

/-- `WHILE c DO b END` and `IF c THEN b. WHILE c DO b END END` either both run forever, or
    both end well, or both end with the same error. If they end, the same names are bound
    to the same values, just as many blocks are open, and what was written and what is
    left of the input is the same. -/
theorem Statement.loop_unrolled (keyword close keyword' close' : Span) (condition : Statement)
    (body : List Statement) (st : State) :
    let loop : Statement := .loop keyword condition body close
    let unrolled : Statement := .conditional keyword' condition (body ++ [loop]) none close'
    (Diverges (fun fuel => loop.eval fuel) st ∧ Diverges (fun fuel => unrolled.eval fuel) st) ∨
    ∃ r st₁ st₂, Halts (fun fuel => loop.eval fuel) st r st₁ ∧
      Halts (fun fuel => unrolled.eval fuel) st r st₂ ∧ State.Same st₁ st₂ := by
  intro loop unrolled
  have hloop fuel := condition.resembles_loop body keyword close fuel st
  have hunrolled fuel := condition.resembles_unrolled body keyword close fuel keyword' close' st
  -- The unrolled loop has one round more than the loop, with the same fuel within them.
  have hmore (fuel : Nat) :=
    (condition.extends_rounds body fuel.le_refl fuel.le_succ).ending st
  have hfuel (fuel : Nat) :=
    (condition.extends_rounds body fuel.le_succ (fuel + 1).le_refl).ending st
  by_cases hends : ∃ enough, (condition.rounds body enough enough).ending st ≠ .error .outOfFuel
  · right
    obtain ⟨enough, hne⟩ := hends
    obtain ⟨r, hr⟩ := exists_of_ne_outOfFuel hne
    obtain ⟨hending, hafter⟩ := (hmore enough).resolve_left hne
    obtain ⟨hl, hlsame⟩ := hloop enough
    obtain ⟨hu, husame⟩ := hunrolled enough
    rw [hending] at hu
    rw [hafter] at husame
    exact ⟨r, _, _, halts_of_ending loop.extends_eval (hl.trans hr),
      halts_of_ending unrolled.extends_eval (hu.trans hr),
      (hlsame.trans husame.symm).same (growsBy_loop enough keyword condition body close st)
        (growsBy_conditional enough keyword' condition _ none close' st)⟩
  · left
    push Not at hends
    refine ⟨fun fuel => (hloop fuel).1.trans (hends fuel), fun fuel => (hunrolled fuel).1.trans ?_⟩
    rcases hfuel fuel with h | ⟨h, -⟩
    · exact h
    · exact h.symm.trans (hends (fuel + 1))

end Kode
