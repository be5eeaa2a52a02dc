import Kode.Proofs.Relocation
import Kode.Statement.Evaluate

/-!
# Evaluation in other places

Spans tell where results and errors come from, and nothing that a program does
depends on them, nor on how its literals are written. So to reword a program or to
relocate it and to evaluate can be done in either order (`Statement.carries_eval`,
`Block.reword_run`, `Block.relocate_run`): the program in its new place comes to the
same, and what comes of it points at the new place.

If the spans are taken away, what is left of an outcome is the outcome of the
program without spans (`Block.bare_run`). So two programs that differ by their
spans only come to the same, from states that differ by theirs
(`Block.bare_run_congr`): both use up their fuel, or both have the same result
or fail for the same reason, with the same names bound to the same values, the
same output and the same input left.

The trace shows where statements stand, so it is taken away, too.
-/

namespace Kode

/-! ## Outcomes without spans -/

/-- The value by itself. -/
def Located.bare (l : Located) : Located :=
  l.at .empty

/-- The scope with its values by themselves. -/
def Scope.bare (s : Scope) : Scope :=
  { s with values := s.values.map fun p => (p.1, p.2.bare) }

/-- The state without spans, and without a trace. -/
def State.bare (st : State) : State :=
  { st with scope := st.scope.bare, trace := none }

/-- What has gone wrong, without the places. -/
def RuntimeError.bare (e : RuntimeError) : RuntimeError :=
  ⟨e.fault, .empty, e.second.map fun _ => .empty⟩

/-- The reason to stop, without the places. -/
def Stop.bare : Stop → Stop
  | failed e => failed e.bare
  | outOfFuel => outOfFuel

/-- What a run comes to, without spans: those of a result are taken away by `f`. -/
def Run.bareResult {α : Type} (f : α → α) :
    EStateM.Result Stop State α → EStateM.Result Stop State α
  | .ok a st => .ok (f a) st.bare
  | .error stop st => .error stop.bare st.bare

/-- What a program comes to, without spans. -/
def Outcome.bare : Outcome → Outcome :=
  Run.bareResult Located.bare

/-! ## Outcomes in other places -/

section

variable (r : Relocation)

/-- The value, attributed to its new place. -/
def Located.relocate (l : Located) : Located :=
  l.at (r.move l.span)

/-- The scope with its values in their new places. -/
def Scope.relocate (s : Scope) : Scope :=
  { s with values := s.values.map fun p => (p.1, p.2.relocate r) }

/-- The state in its new place, without a trace. -/
def State.relocate (st : State) : State :=
  { st with scope := st.scope.relocate r, trace := none }

/-- The error in its new place. -/
def RuntimeError.relocate (e : RuntimeError) : RuntimeError :=
  ⟨e.fault, r.move e.span, e.second.map r.move⟩

/-- The reason to stop, in its new place. -/
def Stop.relocate : Stop → Stop
  | failed e => failed (e.relocate r)
  | outOfFuel => outOfFuel

/-- What a run comes to, in its new place: results are relocated by `f`. -/
def Run.relocateResult {α : Type} (f : α → α) :
    EStateM.Result Stop State α → EStateM.Result Stop State α
  | .ok a st => .ok (f a) (st.relocate r)
  | .error stop st => .error (stop.relocate r) (st.relocate r)

/-- What a program comes to, in its new place. -/
def Outcome.relocate : Outcome → Outcome :=
  Run.relocateResult r (Located.relocate r)

end

/-- To take the spans away is to relocate to nowhere. -/
theorem Outcome.relocate_forget (o : Outcome) : o.relocate .forget = o.bare := by
  cases o with
  | ok l st => rfl
  | error stop st => cases stop <;> rfl

/-- Nothing is left of the places when the spans are taken away. -/
theorem State.bare_relocate (r : Relocation) (st : State) : (st.relocate r).bare = st.bare := by
  simp only [bare, relocate, Scope.bare, Scope.relocate, List.map_map]
  rfl

@[simp] theorem State.relocate_initial (r : Relocation) (answers : List Answer) :
    (initial answers).relocate r = initial answers := rfl

variable {r : Relocation}

/-! ## Scopes -/

namespace Scope

theorem get?_relocate (s : Scope) (name : String) :
    (s.relocate r).get? name = (s.get? name).map (Located.relocate r) := by
  rw [get?, get?, relocate]
  induction s.values with
  | nil => rfl
  | cons p ps ih =>
    rw [List.map_cons, List.lookup_cons, List.lookup_cons]
    split <;> simp_all

theorem contains_relocate (s : Scope) (name : String) :
    (s.relocate r).contains name = s.contains name := by
  rw [contains, contains, get?_relocate, Option.isSome_map]

theorem update_relocate (name : String) (l : Located) (ps : List (String × Located)) :
    (update name l ps).map (fun p => (p.1, p.2.relocate r)) =
      update name (l.relocate r) (ps.map fun p => (p.1, p.2.relocate r)) := by
  induction ps with
  | nil => rfl
  | cons p ps ih =>
    rw [update, List.map_cons, update]
    split
    · rfl
    · rw [List.map_cons, ih]

theorem put_relocate (s : Scope) (name : String) (l : Located) :
    (s.put name l).relocate r = (s.relocate r).put name (l.relocate r) := by
  unfold put
  rw [contains_relocate]
  split
  · exact congrArg (fun values => Scope.mk values s.inner s.outer)
      (update_relocate name l s.values)
  · rfl

theorem pop_relocate (s : Scope) : s.pop.relocate r = (s.relocate r).pop := by
  obtain ⟨values, inner, outer⟩ := s
  cases outer with
  | nil => rfl
  | cons frame frames =>
    refine congrArg (fun values => Scope.mk values frame frames) ?_
    change (values.filter _).map _ = (values.map _).filter _
    rw [List.filter_map]
    rfl

end Scope

/-! ## Statements -/

variable {w : Rewording}

mutual

/-- The span of a statement goes with it. -/
theorem Statement.span_reword (s : Statement) : (s.reword w).span = w.move s.span := by
  match s with
  | .sequence body => exact Block.span_reword body
  | .literal _ | .identifier _ | .input _ => rfl
  | .conditional .. | .loop .. => exact (w.move_merge _ _).symm
  | .assignment _ _ value | .display _ value =>
    rw [Statement.reword, Statement.span, value.span_reword, Statement.span, w.move_merge]
  | .operation lhs _ _ rhs =>
    rw [Statement.reword, Statement.span, lhs.span_reword, rhs.span_reword, Statement.span,
      w.move_merge]

theorem Block.span_reword (b : List Statement) :
    Block.span (Block.reword w b) = w.move (Block.span b) := by
  match b with
  | [] => exact w.move_empty.symm
  | s :: ss =>
    rw [Block.reword, Block.span, s.span_reword, Block.span_reword ss, Block.span,
      w.move_merge]

end

theorem Located.relocate_nothing : nothing.relocate r = nothing :=
  congrArg (Located.mk .none) r.move_empty

/-! ## Runs -/

namespace Run

variable {α β : Type} {f : α → α} {g : β → β}

/-- The second run is the first one in its new place. -/
def Carries (r : Relocation) (f : α → α) (m m' : Run α) : Prop :=
  ∀ st, relocateResult r f (m st) = m' (st.relocate r)

theorem carries_pure (a : α) : Carries r f (pure a) (pure (f a)) :=
  fun _ => rfl

theorem carries_throw (stop : Stop) : Carries r f (throw stop) (throw (stop.relocate r)) :=
  fun _ => rfl

theorem carries_bind {m m' : Run α} {k k' : α → Run β} (hm : Carries r f m m')
    (hk : ∀ a, Carries r g (k a) (k' (f a))) : Carries r g (m >>= k) (m' >>= k') := by
  intro st
  have hst := hm st
  simp only [bind, EStateM.bind]
  rw [← hst]
  cases m st with
  | ok a st' => exact hk a st'
  | error stop st' => rfl

theorem carries_ite {m m' n n' : Run α} (goOn : Bool) (hm : Carries r f m m')
    (hn : Carries r f n n') :
    Carries r f (if goOn then m else n) (if goOn then m' else n') := by
  cases goOn <;> assumption

theorem carries_framed {m m' : Run α} (hm : Carries r f m m') :
    Carries r f m.framed m'.framed := by
  intro st
  have hst : relocateResult r f (m { st with scope := st.scope.push }) =
      m' { st.relocate r with scope := (st.relocate r).scope.push } := hm _
  have close (st' : State) : ({ st' with scope := st'.scope.pop } : State).relocate r =
      { st'.relocate r with scope := (st'.relocate r).scope.pop } := by
    simp only [State.relocate, Scope.pop_relocate]
  unfold framed
  rw [← hst]
  cases m { st with scope := st.scope.push } with
  | ok a st' => exact congrArg (EStateM.Result.ok (f a)) (close st')
  | error stop st' => exact congrArg (EStateM.Result.error (stop.relocate r)) (close st')

/-! ## Single actions -/

theorem carries_get : Carries r (State.relocate r) get get :=
  fun _ => rfl

theorem carries_lookUp (token : Token) :
    Carries r (Located.relocate r) (lookUp token) (lookUp (token.relocate r)) := by
  refine carries_bind carries_get fun st => ?_
  have hget : (st.relocate r).scope.get? (token.relocate r).text =
      (st.scope.get? token.text).map (Located.relocate r) := st.scope.get?_relocate token.text
  simp only [Scope.resolve, hget]
  cases st.scope.get? token.text with
  | some l => exact carries_pure (l.at token.span)
  | none => exact carries_throw (.failed (.single (.undefinedVariable token.text) token.span))

theorem carries_assign (name : String) (l : Located) :
    Carries r id (assign name l) (assign name (l.relocate r)) := by
  intro st
  refine congrArg (EStateM.Result.ok ()) ?_
  simp only [State.relocate, Scope.put_relocate]

theorem carries_write (line : String) : Carries r id (write line) (write line) :=
  fun _ => rfl

theorem carries_ask : Carries r id ask ask := by
  rintro ⟨scope, output, answers, trace⟩
  cases answers <;> rfl

theorem carries_read (site : Span) :
    Carries r (Located.relocate r) (read site) (read (r.move site)) := by
  refine carries_bind carries_ask fun a => ?_
  cases a with
  | line text => exact carries_pure (Located.mk (Value.ofInput text) site)
  | endOfInput => exact carries_throw (.failed (.single .inputExhausted site))
  | failure reason => exact carries_throw (.failed (.single (.inputFailed reason) site))

theorem relocate_ofFault (op : Operator) (l k : Located) (fault : Fault) :
    (RuntimeError.ofFault op l k fault).relocate r =
      .ofFault op (l.relocate r) (k.relocate r) fault := by
  cases fault with
  | unsupported => rfl
  | _ => exact congrArg (RuntimeError.single _) (r.move_merge l.span k.span)

theorem carries_operate (op : Operator) (l k : Located) :
    Carries r (Located.relocate r) (operate op l k)
      (operate op (l.relocate r) (k.relocate r)) := by
  intro st
  have happly : op.apply (l.relocate r).value (k.relocate r).value = op.apply l.value k.value :=
    rfl
  rw [operate, operate, happly]
  cases op.apply l.value k.value with
  | ok v =>
    exact congrArg (fun span => EStateM.Result.ok (Located.mk v span) (st.relocate r))
      (r.move_merge l.span k.span)
  | error e =>
    exact congrArg (fun e => EStateM.Result.error (Stop.failed e) (st.relocate r))
      (relocate_ofFault op l k e)

theorem carries_decide (l : Located) : Carries r id (decide l) (decide (l.relocate r)) := by
  obtain ⟨value, span⟩ := l
  cases value with
  | boolean b => exact carries_pure b
  | _ => exact carries_throw (.failed (.single (.nonBooleanCondition _) span))

theorem carries_noted {s s' : Statement} {m m' : Run Located}
    (hm : Carries r (Located.relocate r) m m') :
    Carries r (Located.relocate r) (noted s m) (noted s' m') :=
  carries_bind hm fun l => carries_bind (f := id) (fun _ => rfl) fun _ => carries_pure l

theorem carries_iterate {c c' : Run Bool} {b b' : Run Located} (hc : Carries r id c c')
    (hb : Carries r (Located.relocate r) b b') (fuel : Nat) (last : Located) :
    Carries r (Located.relocate r) (iterate c b fuel last)
      (iterate c' b' fuel (last.relocate r)) := by
  induction fuel generalizing last with
  | zero => exact carries_throw .outOfFuel
  | succ fuel ih =>
    refine carries_bind hc fun goOn => ?_
    cases goOn with
    | false => exact carries_pure last
    | true => exact carries_bind hb ih

/-- A result that is attributed to a statement. -/
theorem carries_at (s : Statement) (l : Located) :
    Carries w.toRelocation (Located.relocate w.toRelocation) (pure (l.at s.span))
      (pure ((l.relocate w.toRelocation).at (s.reword w).span)) := by
  rw [s.span_reword]
  exact carries_pure (l.at s.span)

end Run

open Run

variable (fuel : Nat)

mutual

/-- To evaluate a statement in its new place is to evaluate it and to relocate
    what comes of it. -/
theorem Statement.carries_eval : (s : Statement) →
    Carries w.toRelocation (Located.relocate w.toRelocation) (s.eval fuel) ((s.reword w).eval fuel)
  | .sequence body => carries_noted (Block.carries_evalBlock body)
  | .literal token => by
    refine carries_noted ?_
    have hkind : (token.reword w).kind = token.kind := rfl
    rw [hkind]
    cases token.kind <;> exact carries_pure (Located.mk _ token.span)
  | .identifier token => carries_noted (carries_lookUp token)
  | .assignment keyword target value =>
    carries_noted <| carries_bind value.carries_eval fun l =>
      carries_bind (carries_assign target.text l) fun _ =>
        carries_at (.assignment keyword target value) l
  | .operation lhs op _ rhs =>
    carries_noted <| carries_bind lhs.carries_eval fun l =>
      carries_bind rhs.carries_eval fun k => carries_operate op l k
  | .display _ value =>
    carries_noted <| carries_bind value.carries_eval fun l =>
      carries_bind (carries_write l.value.shown) fun _ => carries_pure l
  | .input keyword => carries_noted (carries_read keyword)
  | .conditional keyword condition pass fail close =>
    carries_noted <| carries_bind
      (carries_framed <| carries_bind condition.carries_eval fun l =>
        carries_bind (carries_decide l) fun goOn =>
          carries_ite goOn (Block.carries_evalBlock pass) (Block.carries_evalElse fail))
      fun l => carries_at (.conditional keyword condition pass fail close) l
  | .loop keyword condition body close =>
    carries_noted <| carries_bind
      (carries_framed <| by
        have hiterate := carries_iterate
          (carries_bind condition.carries_eval fun l => carries_decide l)
          (Block.carries_evalBlock body) fuel Located.nothing
        rwa [Located.relocate_nothing] at hiterate)
      fun l => carries_at (.loop keyword condition body close) l

theorem Block.carries_evalAfter : (b : List Statement) → (last : Located) →
    Carries w.toRelocation (Located.relocate w.toRelocation) (Block.evalAfter fuel b last)
      (Block.evalAfter fuel (Block.reword w b) (last.relocate w.toRelocation))
  | [], last => carries_pure last
  | s :: ss, _ => carries_bind s.carries_eval fun l => Block.carries_evalAfter ss l

theorem Block.carries_evalBlock (b : List Statement) :
    Carries w.toRelocation (Located.relocate w.toRelocation) (Block.evalAfter fuel b .nothing)
      (Block.evalAfter fuel (Block.reword w b) .nothing) := by
  have h := Block.carries_evalAfter b .nothing
  rwa [Located.relocate_nothing] at h

theorem Block.carries_evalElse : (b : Option (List Statement)) →
    Carries w.toRelocation (Located.relocate w.toRelocation) (Block.evalElse fuel b)
      (Block.evalElse fuel (Block.rewordElse w b))
  | none => by
    have h := carries_pure (r := w.toRelocation) (f := Located.relocate w.toRelocation)
      Located.nothing
    rwa [Located.relocate_nothing] at h
  | some body => Block.carries_evalBlock body

end

/-- To run a program with other words in its new place is to run it and to relocate the
    outcome. -/
theorem Block.reword_run (w : Rewording) (b : Block) (st : State) :
    (b.run fuel st).relocate w.toRelocation =
      Block.run fuel (Block.reword w b) (st.relocate w.toRelocation) :=
  Block.carries_evalBlock fuel b st

/-- To run a program in its new place is to run it and to relocate the outcome. -/
theorem Block.relocate_run (r : Relocation) (b : Block) (st : State) :
    (b.run fuel st).relocate r = Block.run fuel (Block.relocate r b) (st.relocate r) := by
  rw [← Block.reword_rewording]
  exact Block.reword_run fuel r.rewording b st

/-- To run a program without its spans is to run it and to take away the spans. -/
theorem Block.bare_run (b : Block) (st : State) :
    Outcome.bare (b.run fuel st) = Block.run fuel (Block.bare b) st.bare := by
  rw [← Outcome.relocate_forget, Block.relocate_run, Block.relocate_forget]
  rfl

/-- Programs that differ by spans only come to the same, up to spans. -/
theorem Block.bare_run_congr {b c : Block} (h : Block.bare b = Block.bare c) {st st' : State}
    (hst : st.bare = st'.bare) : Outcome.bare (b.run fuel st) = Outcome.bare (c.run fuel st') := by
  rw [Block.bare_run, Block.bare_run, h, hst]

end Kode
