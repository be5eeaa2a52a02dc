import Kode.Proofs.Invariant
import Mathlib.Data.List.TakeDrop

/-!
# What is seen of a run

While a program runs, two things are seen of it: it is given answers, and it writes
text (`Event`). What was written before the run makes no difference to it, and neither
does the input behind the last answer that it is given. So a run is described by the
events, in their order, by what it comes to and by the scope that it leaves: this is
its *deed* (`Deed`).

`Statement.deed` tells the deeds of a statement from those of its parts. It says in
which order the parts are evaluated: the left operand before the right one, which is
evaluated in any case, the condition before the branch or the body, and nothing behind
a part that stops.

* `Run.realises_andThen`, `Run.realises_rounds`: runs one after the other have the
  events of the one and then those of the other;
* `Statement.realises_deed`: to evaluate a statement is to do one of its deeds, and the
  answers that it is given decide which;
* `Block.run_framing`: so a run takes the first answers, as many as it asks for, and adds
  to the output; with the same answers it does the same, whatever comes behind them and
  whatever was written before.
-/

namespace Kode

/-- What is seen of a program while it runs. -/
inductive Event
  /-- The `INPUT` at this place was given an answer. -/
  | asked (site : Span) (answer : Answer)
  | wrote (text : String)

namespace Event

/-- The answers that were given. -/
def answers : List Event → List Answer
  | [] => []
  | asked _ a :: es => a :: answers es
  | wrote _ :: es => answers es

/-- All text that was written. -/
def written : List Event → String
  | [] => ""
  | asked _ _ :: es => written es
  | wrote text :: es => text ++ written es

@[simp] theorem answers_append (es es' : List Event) :
    answers (es ++ es') = answers es ++ answers es' := by
  induction es with
  | nil => rfl
  | cons e es ih => cases e <;> simp [answers, ih]

@[simp] theorem written_append (es es' : List Event) :
    written (es ++ es') = written es ++ written es' := by
  induction es with
  | nil => simp [written]
  | cons e es ih => cases e <;> simp [written, ih, String.append_assoc]

end Event

/-! ## Deeds -/

/-- What a run may do from a scope: what is seen of it, what it comes to, and the scope
    that it leaves. -/
abbrev Deed (α : Type) := Scope → List Event → Except Stop α → Scope → Prop

namespace Deed

variable {α β : Type}

/-- These events, with this result. -/
def act (es : List Event) (r : Scope → Except Stop α) (f : Scope → Scope) : Deed α :=
  fun s es' r' s' => es' = es ∧ r' = r s ∧ s' = f s

/-- Nothing is seen, and the scope stays as it is. -/
def settled (f : Scope → Except RuntimeError α) : Deed α :=
  act [] (fun s => (f s).mapError .failed) id

/-- There was no fuel left. -/
def exhausted : Deed α :=
  act [] (fun _ => .error .outOfFuel) id

/-- Binds a name. -/
def binds (name : String) (l : Located) : Deed Unit :=
  act [] (fun _ => .ok ()) (·.put name l)

/-- Writes a line. -/
def writes (line : String) : Deed Unit :=
  act [.wrote (line ++ "\n")] (fun _ => .ok ()) id

/-- Is given an answer, whatever it may be. -/
def asks (site : Span) : Deed Answer :=
  fun s es r s' => ∃ a, es = [.asked site a] ∧ r = .ok a ∧ s' = s

/-- The one and then what follows from its result. If the first one stops, nothing
    follows. -/
inductive andThen (d : Deed α) (k : α → Deed β) : Deed β
  | goOn {s s₁ s' : Scope} {es es' : List Event} {a : α} {r : Except Stop β} :
    d s es (.ok a) s₁ → k a s₁ es' r s' → andThen d k s (es ++ es') r s'
  | stop {s s' : Scope} {es : List Event} {e : Stop} :
    d s es (.error e) s' → andThen d k s es (.error e) s'

/-- The same in a block of its own. -/
def framed (d : Deed α) : Deed α :=
  fun s es r s' => ∃ s₁, d s.push es r s₁ ∧ s' = s₁.pop

/-- The condition, and as long as it holds the body and the condition again. -/
def rounds (condition : Deed Bool) (body : Deed Located) : Nat → Located → Deed Located
  | 0, _ => exhausted
  | fuel + 1, last => condition.andThen fun goOn =>
    if goOn then body.andThen (rounds condition body fuel) else settled fun _ => .ok last

end Deed

/-- The value of a literal. What is no literal has none. -/
def Token.constant (t : Token) : Located :=
  match t.kind with
  | .literal v => ⟨v, t.span⟩
  | _ => ⟨.none, t.span⟩

/-- The value that the `INPUT` at this place makes of an answer. -/
def Answer.given (site : Span) : Answer → Except RuntimeError Located
  | .line text => .ok ⟨Value.ofInput text, site⟩
  | .failure reason => .error (.single (.inputFailed reason) site)
  | .endOfInput => .error (.single .inputExhausted site)

/-- What the operator makes of its operands. -/
def Operator.join (op : Operator) (l r : Located) : Except RuntimeError Located :=
  match op.apply l.value r.value with
  | .ok v => .ok ⟨v, l.span.merge r.span⟩
  | .error f => .error (.ofFault op l r f)

/-- Whether a condition holds that has come to this. -/
def Located.truth (l : Located) : Except RuntimeError Bool :=
  match l.value with
  | .boolean b => .ok b
  | v => .error (.single (.nonBooleanCondition v.kind) l.span)

mutual

/-- The deeds of a statement, each loop of which may take `fuel` rounds. -/
def Statement.deed (fuel : Nat) : Statement → Deed Located
  | .sequence body => Block.deedAfter fuel body .nothing
  | .literal token => .settled fun _ => .ok token.constant
  | .identifier token => .settled fun s => (s.resolve token.text token.span).map (·.at token.span)
  | s@(.assignment _ target value) =>
    (value.deed fuel).andThen fun l => (Deed.binds target.text l).andThen fun _ =>
      .settled fun _ => .ok (l.at s.span)
  | .operation lhs op _ rhs =>
    (lhs.deed fuel).andThen fun l => (rhs.deed fuel).andThen fun r => .settled fun _ => op.join l r
  | .display _ value =>
    (value.deed fuel).andThen fun l => (Deed.writes l.value.shown).andThen fun _ =>
      .settled fun _ => .ok l
  | .input keyword => (Deed.asks keyword).andThen fun a => .settled fun _ => a.given keyword
  | s@(.conditional _ condition pass fail _) =>
    (Deed.framed <| ((condition.deed fuel).andThen fun l => .settled fun _ => l.truth).andThen
      fun goOn => if goOn then Block.deedAfter fuel pass .nothing
        else Block.deedElse fuel fail).andThen
      fun l => .settled fun _ => .ok (l.at s.span)
  | s@(.loop _ condition body _) =>
    (Deed.framed <| Deed.rounds ((condition.deed fuel).andThen fun l => .settled fun _ => l.truth)
      (Block.deedAfter fuel body .nothing) fuel .nothing).andThen
      fun l => .settled fun _ => .ok (l.at s.span)

/-- The deeds of statements one after the other. -/
def Block.deedAfter (fuel : Nat) : List Statement → Located → Deed Located
  | [], last => .settled fun _ => .ok last
  | s :: ss, _ => (s.deed fuel).andThen (Block.deedAfter fuel ss)

/-- The deeds of what follows an `ELSE`, if there is one. -/
def Block.deedElse (fuel : Nat) : Option (List Statement) → Deed Located
  | none => .settled fun _ => .ok .nothing
  | some body => Block.deedAfter fuel body .nothing

end

/-- The deeds of a program. -/
def Block.deed (fuel : Nat) (b : Block) : Deed Located :=
  Block.deedAfter fuel b .nothing

/-! ## Runs -/

/-- The first answers that an input gives, so many of them. Past its last one it has
    ended. -/
def Answer.first (k : Nat) (input : List Answer) : List Answer :=
  input.takeD k .endOfInput

theorem Answer.first_add (j k : Nat) (input : List Answer) :
    first (j + k) input = first j input ++ first k (input.drop j) := by
  unfold first
  induction j generalizing input with
  | zero => simp
  | succ j ih =>
    rw [Nat.succ_add, List.takeD_succ, List.takeD_succ, ih, List.cons_append, List.drop_tail]

/-- The answers in the events are those that the input gives. -/
def Event.Fit (input : List Answer) (es : List Event) : Prop :=
  Answer.first (answers es).length input = answers es

theorem Event.fit_append (input : List Answer) (es es' : List Event) :
    Fit input (es ++ es') ↔ Fit input es ∧ Fit (input.drop (answers es).length) es' := by
  rw [Fit, Fit, Fit, answers_append, List.length_append, Answer.first_add]
  refine ⟨fun h => List.append_inj h (List.takeD_length _ _ _), ?_⟩
  rintro ⟨hes, hes'⟩
  rw [hes, hes']

/-- In the second state the events are over: the answers have been taken, those behind
    them have not, and what was written stands behind what was there before. -/
structure State.Sees (st : State) (es : List Event) (st' : State) : Prop where
  answers : st'.answers = st.answers.drop (Event.answers es).length
  output : st'.output = st.output ++ Event.written es

namespace State.Sees

variable {st st₁ st' : State} {es es' : List Event}

theorem refl (st : State) : st.Sees [] st :=
  ⟨rfl, (String.append_empty).symm⟩

theorem trans (h : st.Sees es st₁) (h' : st₁.Sees es' st') : st.Sees (es ++ es') st' where
  answers := by
    rw [h'.answers, h.answers, List.drop_drop, Event.answers_append, List.length_append]
  output := by
    rw [h'.output, h.output, Event.written_append, String.append_assoc]

end State.Sees

namespace Run

variable {α β : Type}

/-- What the run comes to. -/
def result (m : Run α) (st : State) : Except Stop α :=
  match m st with
  | .ok a _ => .ok a
  | .error e _ => .error e

/-- The run has these events, this end, and leaves this scope. -/
structure Does (m : Run α) (st : State) (es : List Event) (r : Except Stop α) (s' : Scope) :
    Prop where
  result : m.result st = r
  scope : (m.after st).scope = s'
  sees : st.Sees es (m.after st)

/-- From every state the run does one of the deeds, and the answers that the input gives
    decide which. -/
structure Realises (m : Run α) (d : Deed α) : Prop where
  total : ∀ st : State, ∃ es r s', d st.scope es r s' ∧ Event.Fit st.answers es
  does : ∀ {st : State} {es r s'}, d st.scope es r s' → Event.Fit st.answers es →
    m.Does st es r s'
  unique : ∀ {st : State} {es r s' es' r' s''}, d st.scope es r s' → Event.Fit st.answers es →
    d st.scope es' r' s'' → Event.Fit st.answers es' → es = es'

theorem result_bind (m : Run α) (k : α → Run β) (st : State) :
    (m >>= k).result st = match m.result st with
      | .ok a => (k a).result (m.after st)
      | .error e => .error e := by
  change result (EStateM.bind m k) st = _
  unfold result after EStateM.bind
  cases m st <;> rfl

theorem after_bind_result (m : Run α) (k : α → Run β) (st : State) :
    (m >>= k).after st = match m.result st with
      | .ok a => (k a).after (m.after st)
      | .error _ => m.after st := by
  rw [after_bind]
  unfold result after
  cases m st <;> rfl

/-- A run that asks for nothing and has always the same events. -/
theorem realises_act {m : Run α} {es : List Event} {r : Scope → Except Stop α} {f : Scope → Scope}
    (hes : Event.answers es = []) (hm : ∀ st, m.Does st es (r st.scope) (f st.scope)) :
    Realises m (.act es r f) where
  total st := ⟨es, _, _, ⟨rfl, rfl, rfl⟩, by rw [Event.Fit, hes]; rfl⟩
  does {st _ _ _} := by
    rintro ⟨rfl, rfl, rfl⟩ -
    exact hm st
  unique := by
    rintro _ _ _ _ _ _ _ ⟨rfl, -⟩ - ⟨rfl, -⟩ -
    rfl

/-- A run that changes nothing, and in which nothing is seen. -/
theorem realises_settled {m : Run α} {f : Scope → Except RuntimeError α}
    (hm : ∀ st, m st = match f st.scope with
      | .ok a => .ok a st
      | .error e => .error (.failed e) st) : Realises m (.settled f) := by
  refine realises_act rfl fun st => ?_
  have hresult : m.result st = (f st.scope).mapError .failed := by
    rw [result, hm]
    cases f st.scope <;> rfl
  have hafter : m.after st = st := by
    rw [after, hm]
    cases f st.scope <;> rfl
  exact ⟨hresult, congrArg State.scope hafter, hafter.symm ▸ State.Sees.refl st⟩

theorem realises_pure (a : α) : Realises (pure a) (.settled fun _ => .ok a) :=
  realises_settled fun _ => rfl

theorem realises_exhausted : Realises (throw .outOfFuel : Run α) .exhausted :=
  realises_act rfl fun st => ⟨rfl, rfl, .refl st⟩

theorem realises_assign (name : String) (l : Located) :
    Realises (assign name l) (.binds name l) :=
  realises_act rfl fun _ => ⟨rfl, rfl, rfl, String.append_empty.symm⟩

theorem realises_write (line : String) : Realises (write line) (.writes line) := by
  refine realises_act rfl fun st => ⟨rfl, rfl, rfl, ?_⟩
  change st.output ++ line ++ "\n" = st.output ++ (line ++ "\n" ++ "")
  rw [String.append_empty, String.append_assoc]

/-- What is asked for is the first answer of the input. -/
theorem realises_ask (site : Span) : Realises ask (.asks site) where
  total st := ⟨_, _, _, ⟨st.answers.headD .endOfInput, rfl, rfl, rfl⟩, rfl⟩
  does {st es r s'} := by
    rintro ⟨a, rfl, rfl, rfl⟩ hfit
    obtain ⟨scope, output, answers, trace⟩ := st
    cases answers <;> obtain rfl := (List.cons.inj hfit).1 <;>
      exact ⟨rfl, rfl, rfl, String.append_empty.symm⟩
  unique := by
    rintro _ _ _ _ _ _ _ ⟨a, rfl, -⟩ hfit ⟨a', rfl, -⟩ hfit'
    rw [← (List.cons.inj hfit).1, ← (List.cons.inj hfit').1]

/-- The events of runs one after the other are those of the one and then those of the
    other. -/
theorem realises_andThen {m : Run α} {k : α → Run β} {d : Deed α} {d' : α → Deed β}
    (hm : Realises m d) (hk : ∀ a, Realises (k a) (d' a)) : Realises (m >>= k) (d.andThen d') where
  total st := by
    obtain ⟨es, r, s₁, hd, hfit⟩ := hm.total st
    cases r with
    | error e => exact ⟨es, .error e, s₁, .stop hd, hfit⟩
    | ok a =>
      obtain ⟨-, hscope, hsees⟩ := hm.does hd hfit
      obtain ⟨es', r, s', hd', hfit'⟩ := (hk a).total (m.after st)
      rw [hscope] at hd'
      rw [hsees.answers] at hfit'
      exact ⟨es ++ es', r, s', .goOn hd hd', (Event.fit_append _ _ _).2 ⟨hfit, hfit'⟩⟩
  does {st es r s'} := by
    rintro (⟨hd, hd'⟩ | hd) hfit
    · obtain ⟨hfit, hfit'⟩ := (Event.fit_append _ _ _).1 hfit
      obtain ⟨hresult, hscope, hsees⟩ := hm.does hd hfit
      rw [← hscope] at hd'
      rw [← hsees.answers] at hfit'
      obtain ⟨hresult', hscope', hsees'⟩ := (hk _).does hd' hfit'
      rw [← hresult', ← hscope']
      refine ⟨?_, ?_, ?_⟩
      · rw [result_bind, hresult]
      · rw [after_bind_result, hresult]
      · rw [after_bind_result, hresult]
        exact hsees.trans hsees'
    · obtain ⟨hresult, hscope, hsees⟩ := hm.does hd hfit
      refine ⟨?_, ?_, ?_⟩
      · rw [result_bind, hresult]
      · rw [after_bind_result, hresult]
        exact hscope
      · rw [after_bind_result, hresult]
        exact hsees
  unique {st es r s' es' r' s''} := by
    rintro (⟨hd, hk₁⟩ | hd) hfit (⟨hd', hk₂⟩ | hd') hfit'
    · obtain ⟨hfit, hrest⟩ := (Event.fit_append _ _ _).1 hfit
      obtain ⟨hfit', hrest'⟩ := (Event.fit_append _ _ _).1 hfit'
      -- The first run has the same events, so the same result decides what follows.
      obtain rfl := hm.unique hd hfit hd' hfit'
      obtain ⟨hresult, hscope, hsees⟩ := hm.does hd hfit
      obtain ⟨hresult', hscope', -⟩ := hm.does hd' hfit'
      obtain rfl := Except.ok.inj (hresult.symm.trans hresult')
      rw [← hscope] at hk₁
      rw [← hscope'] at hk₂
      rw [← hsees.answers] at hrest hrest'
      rw [(hk _).unique hk₁ hrest hk₂ hrest']
    · obtain ⟨hfit, -⟩ := (Event.fit_append _ _ _).1 hfit
      have hresult := (hm.does hd hfit).result.symm.trans (hm.does hd' hfit').result
      exact absurd hresult nofun
    · obtain ⟨hfit', -⟩ := (Event.fit_append _ _ _).1 hfit'
      have hresult := (hm.does hd hfit).result.symm.trans (hm.does hd' hfit').result
      exact absurd hresult nofun
    · exact hm.unique hd hfit hd' hfit'

theorem realises_ite {m m' : Run α} {d d' : Deed α} (goOn : Bool) (h : Realises m d)
    (h' : Realises m' d') :
    Realises (if goOn then m else m') (if goOn then d else d') := by
  cases goOn <;> assumption

theorem result_framed (m : Run α) (st : State) :
    m.framed.result st = m.result { st with scope := st.scope.push } := by
  unfold result framed
  cases m { st with scope := st.scope.push } <;> rfl

/-- A block of its own is not seen. -/
theorem realises_framed {m : Run α} {d : Deed α} (h : Realises m d) :
    Realises m.framed d.framed where
  total st := by
    obtain ⟨es, r, s', hd, hfit⟩ := h.total { st with scope := st.scope.push }
    exact ⟨es, r, s'.pop, ⟨s', hd, rfl⟩, hfit⟩
  does {st es r s'} := by
    rintro ⟨s₁, hd, rfl⟩ hfit
    have hd : d (State.scope { st with scope := st.scope.push }) es r s₁ := hd
    obtain ⟨hresult, hscope, hsees⟩ := h.does hd hfit
    refine ⟨(result_framed m st).trans hresult, ?_, ?_⟩
    · rw [after_framed, ← hscope]
    · rw [after_framed]
      exact ⟨hsees.answers, hsees.output⟩
  unique {st es r _ _ _ _} := by
    rintro ⟨s₁, hd, -⟩ hfit ⟨s₂, hd', -⟩ hfit'
    have hd : d (State.scope { st with scope := st.scope.push }) es r s₁ := hd
    exact h.unique hd hfit hd' hfit'

/-! ## Single actions -/

theorem realises_lookUp (token : Token) : Realises (lookUp token)
    (.settled fun s => (s.resolve token.text token.span).map (·.at token.span)) := by
  refine realises_settled fun st => ?_
  have hget : (get : Run State) st = .ok st st := rfl
  rw [lookUp, bind_eq_of_ok hget]
  cases st.scope.resolve token.text token.span <;> rfl

theorem realises_read (site : Span) :
    Realises (read site) ((Deed.asks site).andThen fun a => .settled fun _ => a.given site) := by
  refine realises_andThen (realises_ask site) fun a => ?_
  cases a <;> exact realises_settled fun _ => rfl

theorem realises_operate (op : Operator) (l r : Located) :
    Realises (operate op l r) (.settled fun _ => op.join l r) := by
  unfold operate Operator.join
  cases op.apply l.value r.value <;> exact realises_settled fun _ => rfl

theorem realises_decide (l : Located) : Realises (decide l) (.settled fun _ => l.truth) := by
  obtain ⟨value, span⟩ := l
  cases value <;> exact realises_settled fun _ => rfl

theorem result_noted (s : Statement) (m : Run Located) (st : State) :
    (noted s m).result st = m.result st := by
  rw [noted, result_bind]
  cases m.result st <;> rfl

/-- Only the trace is another one after it was added to. -/
theorem exists_after_noted (s : Statement) (m : Run Located) (st : State) :
    ∃ trace, (noted s m).after st = { m.after st with trace := trace } := by
  rw [noted, after_bind_result]
  cases m.result st <;> exact ⟨_, rfl⟩

/-- What is added to the trace is not seen. -/
theorem realises_noted {s : Statement} {m : Run Located} {d : Deed Located} (h : Realises m d) :
    Realises (noted s m) d where
  total := h.total
  does {st es r s'} := by
    intro hd hfit
    obtain ⟨hresult, hscope, hsees⟩ := h.does hd hfit
    obtain ⟨trace, hafter⟩ := exists_after_noted s m st
    refine ⟨(result_noted s m st).trans hresult, ?_, ?_⟩
    · rw [hafter]
      exact hscope
    · rw [hafter]
      exact ⟨hsees.answers, hsees.output⟩
  unique := h.unique

/-- In a loop the condition is evaluated first, and then the body before the condition
    again. -/
theorem realises_rounds {c : Run Bool} {b : Run Located} {dc : Deed Bool} {db : Deed Located}
    (hc : Realises c dc) (hb : Realises b db) (fuel : Nat) (last : Located) :
    Realises (iterate c b fuel last) (.rounds dc db fuel last) := by
  induction fuel generalizing last with
  | zero => exact realises_exhausted
  | succ fuel ih =>
    exact realises_andThen hc fun goOn =>
      realises_ite goOn (realises_andThen hb ih) (realises_pure last)

end Run

open Run

variable (fuel : Nat)

mutual

/-- To evaluate a statement is to do one of its deeds. -/
theorem Statement.realises_deed : (s : Statement) → Realises (s.eval fuel) (s.deed fuel)
  | .sequence body => realises_noted (Block.realises_deedAfter body .nothing)
  | .literal token => by
    refine realises_noted (realises_settled fun st => ?_)
    unfold Token.constant
    cases token.kind <;> rfl
  | .identifier token => realises_noted (realises_lookUp token)
  | .assignment _ target value =>
    realises_noted <| realises_andThen value.realises_deed fun l =>
      realises_andThen (realises_assign target.text l) fun _ => realises_pure _
  | .operation lhs op _ rhs =>
    realises_noted <| realises_andThen lhs.realises_deed fun l =>
      realises_andThen rhs.realises_deed fun r => realises_operate op l r
  | .display _ value =>
    realises_noted <| realises_andThen value.realises_deed fun l =>
      realises_andThen (realises_write l.value.shown) fun _ => realises_pure l
  | .input keyword => realises_noted (realises_read keyword)
  | .conditional _ condition pass fail _ =>
    realises_noted <| realises_andThen
      (realises_framed <| by
        have := realises_andThen
          (realises_andThen condition.realises_deed fun l => realises_decide l)
          fun goOn => realises_ite goOn (Block.realises_deedAfter pass .nothing)
            (Block.realises_deedElse fail)
        rwa [bind_assoc] at this)
      fun l => realises_pure _
  | .loop _ condition body _ =>
    realises_noted <| realises_andThen
      (realises_framed <| realises_rounds
        (realises_andThen condition.realises_deed fun l => realises_decide l)
        (Block.realises_deedAfter body .nothing) fuel .nothing)
      fun l => realises_pure _

theorem Block.realises_deedAfter : (b : List Statement) → (last : Located) →
    Realises (Block.evalAfter fuel b last) (Block.deedAfter fuel b last)
  | [], last => realises_pure last
  | s :: ss, _ => realises_andThen s.realises_deed fun l => Block.realises_deedAfter ss l

theorem Block.realises_deedElse : (b : Option (List Statement)) →
    Realises (Block.evalElse fuel b) (Block.deedElse fuel b)
  | none => realises_pure _
  | some body => Block.realises_deedAfter body .nothing

end

/-- From every state a program does one of its deeds, and its events are decided: it takes
    the first answers of the input, as many as it asks for, and no others, and what it
    writes stands behind what was written before. From a state with the same scope, and
    with an input that begins with the same answers, it does the same. -/
theorem Block.run_framing (b : Block) (st : State) :
    ∃ es, b.deed fuel st.scope es (result (b.run fuel) st) (after (b.run fuel) st).scope ∧
      Event.Fit st.answers es ∧ st.Sees es (after (b.run fuel) st) ∧
      (∀ es' r s', b.deed fuel st.scope es' r s' → Event.Fit st.answers es' → es' = es) ∧
      ∀ st' : State, st'.scope = st.scope →
        Answer.first (Event.answers es).length st'.answers =
          Answer.first (Event.answers es).length st.answers →
        result (b.run fuel) st' = result (b.run fuel) st ∧
        (after (b.run fuel) st').scope = (after (b.run fuel) st).scope ∧
        st'.Sees es (after (b.run fuel) st') := by
  have h : Realises (b.run fuel) (b.deed fuel) := Block.realises_deedAfter fuel b .nothing
  obtain ⟨es, r, s', hd, hfit⟩ := h.total st
  obtain ⟨rfl, rfl, hsees⟩ := h.does hd hfit
  refine ⟨es, hd, hfit, hsees, fun es' r s' hd' hfit' => h.unique hd' hfit' hd hfit, ?_⟩
  intro st' hscope hfirst
  rw [← hscope] at hd
  obtain ⟨hresult, hscope', hsees'⟩ := h.does hd (hfirst.trans hfit)
  exact ⟨hresult, hscope', hsees'⟩

/-- One line less another one: with no third line, and behind what was written before,
    the difference is the same. -/
theorem Block.run_framing_of_difference :
    let b : Block := [.display .empty (.operation (.input .empty) .subtract .empty (.input .empty))]
    let st : State := .initial [.line "5", .line "3", .line "left"]
    let st' : State := ⟨.empty, "before\n", [.line "5", .line "3"], none⟩
    ∃ es, Event.answers es = [.line "5", .line "3"] ∧ Event.written es = "2\n" ∧
      result (b.run 1) st' = result (b.run 1) st ∧ st'.Sees es (after (b.run 1) st') := by
  intro b st st'
  obtain ⟨es, -, hfit, hsees, -, hsame⟩ := Block.run_framing 1 b st
  have hleft : (after (b.run 1) st).answers = [.line "left"] := by decide +kernel
  have houtput : (after (b.run 1) st).output = "2\n" := by decide +kernel
  have hlength : (Event.answers es).length = 2 := by
    have h := congrArg List.length (hsees.answers.symm.trans hleft)
    rw [List.length_drop] at h
    change 3 - _ = 1 at h
    omega
  have hwritten := hsees.output.symm.trans houtput
  rw [Event.Fit, hlength] at hfit
  obtain ⟨hresult, -, hsees'⟩ := hsame st' rfl (by rw [hlength]; rfl)
  exact ⟨es, hfit.symm, by simpa [st, State.initial] using hwritten, hresult, hsees'⟩

end Kode
