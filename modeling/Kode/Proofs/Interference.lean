import Kode.Proofs.Events
import Kode.Proofs.Provenance
import Kode.Proofs.Scoping

/-!
# Names that do not matter

A program sees the variables through the names that it mentions, and of these it sees
whether they are bound and to which values. In which frame a name stands, where its
value came from, and what else is bound make no difference to it.

To show this, two runs of the same program are followed side by side, from scopes that
agree on the names that matter. All single actions keep them in agreement
(`Run.abreast_lookUp`, `Run.abreast_assign`, ...). At the end of a block the two scopes
may drop different frames, but of the names that matter they drop the same: those that
were not bound when the block was opened (`Run.abreast_framed`).

* `Statement.abreast_eval`: two runs that agree on all names in a statement stay in
  agreement, and have the same results;
* `Block.unmentioned_irrelevant`: so what a program does depends on no other name, and
  no other name is touched.
-/

namespace Kode

/-! ## Runs side by side -/

/-- The scope may have grown, and is otherwise the same up to values. -/
abbrev State.Grows (st st' : State) : Prop :=
  ∃ fresh, Scope.GrowsBy fresh st.scope st'.scope

/-- The two scopes have the same value for the name, or none. -/
def Scope.AgreeOn (s s' : Scope) (name : String) : Prop :=
  (s.get? name).map Located.value = (s'.get? name).map Located.value

instance (s s' : Scope) (name : String) : Decidable (s.AgreeOn s' name) :=
  inferInstanceAs (Decidable (_ = _))

/-- Two runs that set out from the scopes `base` and `base'` have come to these states.
    They agree on the names that matter, and all others have been left as they were. -/
structure State.Alike (matters : String → Prop) (base base' : Scope) (st st' : State) : Prop where
  answers : st.answers = st'.answers
  output : st.output = st'.output
  inside : ∀ name, matters name → st.scope.AgreeOn st'.scope name
  outside : ∀ name, ¬ matters name →
    st.scope.get? name = base.get? name ∧ st'.scope.get? name = base'.get? name

namespace Run

variable {α β γ δ : Type}

/-- Both runs have come to an end with such results, or both have stopped for the same
    reason, in such states. -/
inductive Meet (Q : α → β → Prop) (R : State → State → Prop) :
    EStateM.Result Stop State α → EStateM.Result Stop State β → Prop
  | ok {a : α} {b : β} {st st' : State} : Q a b → R st st' → Meet Q R (.ok a st) (.ok b st')
  | error {stop : Stop} {st st' : State} : R st st' → Meet Q R (.error stop st) (.error stop st')

/-- From such states the two runs come to such ends. -/
def Abreast (Q : α → β → Prop) (R : State → State → Prop) (m : Run α) (m' : Run β) : Prop :=
  ∀ st st', R st st' → Meet Q R (m st) (m' st')

section

variable {Q : α → β → Prop} {T : γ → δ → Prop} {R : State → State → Prop}

theorem abreast_mono {Q' : α → β → Prop} {m : Run α} {m' : Run β} (h : Abreast Q R m m')
    (hQ : ∀ a b, Q a b → Q' a b) : Abreast Q' R m m' := by
  intro st st' hR
  have hmeet := h st st' hR
  generalize m st = x, m' st' = y at hmeet ⊢
  cases hmeet with
  | ok hab hR => exact .ok (hQ _ _ hab) hR
  | error hR => exact .error hR

theorem abreast_pure {a : α} {b : β} (h : Q a b) : Abreast Q R (pure a) (pure b) :=
  fun _ _ hR => .ok h hR

theorem abreast_throw (stop : Stop) : Abreast Q R (throw stop) (throw stop) :=
  fun _ _ hR => .error hR

theorem abreast_bind {m : Run α} {m' : Run β} {k : α → Run γ} {k' : β → Run δ}
    (hm : Abreast Q R m m') (hk : ∀ a b, Q a b → Abreast T R (k a) (k' b)) :
    Abreast T R (m >>= k) (m' >>= k') := by
  intro st st' hR
  have hmeet := hm st st' hR
  change Meet T R (EStateM.bind m k st) (EStateM.bind m' k' st')
  unfold EStateM.bind
  generalize m st = x, m' st' = y at hmeet
  cases hmeet with
  | ok hab hR => exact hk _ _ hab _ _ hR
  | error hR => exact .error hR

theorem abreast_ite {m n : Run α} {m' n' : Run β} (goOn : Bool) (hm : Abreast Q R m m')
    (hn : Abreast Q R n n') :
    Abreast Q R (if goOn then m else n) (if goOn then m' else n') := by
  cases goOn <;> assumption

theorem abreast_operate (op : Operator) (l r : Located) :
    Abreast Eq R (operate op l r) (operate op l r) := by
  rw [operate]
  split
  · exact abreast_pure rfl
  · exact abreast_throw _

theorem abreast_decide (l : Located) : Abreast Eq R (decide l) (decide l) := by
  rw [decide]
  split
  · exact abreast_pure rfl
  · exact abreast_throw _

theorem abreast_iterate {c c' : Run Bool} {b b' : Run Located} {Q : Located → Located → Prop}
    (hc : Abreast Eq R c c') (hb : Abreast Q R b b') (fuel : Nat) {last last' : Located}
    (hlast : Q last last') :
    Abreast Q R (iterate c b fuel last) (iterate c' b' fuel last') := by
  induction fuel generalizing last last' with
  | zero => exact abreast_throw _
  | succ fuel ih =>
    refine abreast_bind hc fun goOn goOn' h => ?_
    subst h
    cases goOn with
    | false => exact abreast_pure hlast
    | true => exact abreast_bind hb fun _ _ hl => ih hl

end

/-! ## Scopes that agree on the names that matter -/

variable {matters : String → Prop} {base base' : Scope}

theorem abreast_get : Abreast (State.Alike matters base base') (State.Alike matters base base')
    (get : Run State) get :=
  fun _ _ hR => .ok hR hR

theorem abreast_lookUp {token : Token} (h : matters token.text) :
    Abreast Eq (State.Alike matters base base') (lookUp token) (lookUp token) := by
  refine abreast_bind abreast_get fun st st' hR => ?_
  have hagree := hR.inside _ h
  rw [Scope.AgreeOn] at hagree
  simp only [Scope.resolve]
  generalize st.scope.get? token.text = l?, st'.scope.get? token.text = l?' at hagree
  rcases l? with _ | l <;> rcases l?' with _ | l'
  · exact abreast_throw _
  · simp at hagree
  · simp at hagree
  · exact abreast_pure (congrArg (Located.mk · token.span) (Option.some.inj hagree))

theorem abreast_assign {name : String} (h : matters name) (l : Located) :
    Abreast Eq (State.Alike matters base base') (assign name l) (assign name l) := by
  refine fun st st' hR => .ok rfl ⟨hR.answers, hR.output, fun other ho => ?_, fun other ho => ?_⟩
  · have hagree := hR.inside other ho
    rw [Scope.AgreeOn, Scope.get?_put, Scope.get?_put]
    split
    · rfl
    · exact hagree
  · have hne : other ≠ name := by
      rintro rfl
      exact ho h
    rw [Scope.get?_put_of_ne _ _ hne, Scope.get?_put_of_ne _ _ hne]
    exact hR.outside other ho

theorem abreast_write (line : String) :
    Abreast Eq (State.Alike matters base base') (write line) (write line) :=
  fun _ _ hR =>
    .ok rfl ⟨hR.answers, congrArg (· ++ line ++ "\n") hR.output, hR.inside, hR.outside⟩

theorem abreast_ask : Abreast Eq (State.Alike matters base base') ask ask := by
  rintro ⟨scope, output, answers, trace⟩ ⟨scope', output', answers', trace'⟩ hR
  obtain rfl : answers = answers' := hR.answers
  cases answers with
  | nil => exact .ok rfl hR
  | cons a rest => exact .ok rfl ⟨rfl, hR.output, hR.inside, hR.outside⟩

theorem abreast_read (site : Span) :
    Abreast Eq (State.Alike matters base base') (read site) (read site) := by
  refine abreast_bind abreast_ask fun a a' h => ?_
  subst h
  cases a with
  | line text => exact abreast_pure rfl
  | endOfInput => exact abreast_throw _
  | failure reason => exact abreast_throw _

theorem abreast_noted {s s' : Statement} {Q : Located → Located → Prop} {m m' : Run Located}
    (hm : Abreast Q (State.Alike matters base base') m m') :
    Abreast Q (State.Alike matters base base') (noted s m) (noted s' m') :=
  abreast_bind hm fun _ _ hl => abreast_bind (Q := fun _ _ => True)
    (fun _ _ hR => .ok trivial ⟨hR.answers, hR.output, hR.inside, hR.outside⟩)
    fun _ _ _ => abreast_pure hl

end Run

/-- At the end of a block the names that were bound before it still agree, and of the others
    none is bound. -/
theorem State.Alike.pop {matters : String → Prop} {base base' : Scope} {st st' st₁ st₁' : State}
    (h : Alike matters base base' st st') (h₁ : Alike matters base base' st₁ st₁')
    (hgrows : Grows { st with scope := st.scope.push } st₁)
    (hgrows' : Grows { st' with scope := st'.scope.push } st₁') :
    Alike matters base base' { st₁ with scope := st₁.scope.pop }
      { st₁' with scope := st₁'.scope.pop } := by
  obtain ⟨fresh, hgrows⟩ := hgrows
  obtain ⟨fresh', hgrows'⟩ := hgrows'
  have hpop := hgrows.get?_pop
  have hpop' := hgrows'.get?_pop
  refine ⟨h₁.answers, h₁.output, fun name hn => ?_, fun name hn => ?_⟩
  · have hbound : st.scope.contains name = st'.scope.contains name := by
      have := congrArg Option.isSome (h.inside name hn)
      rwa [Option.isSome_map, Option.isSome_map] at this
    rw [Scope.AgreeOn, hpop, hpop', hbound]
    split
    · exact h₁.inside name hn
    · rfl
  · obtain ⟨hst, hst'⟩ := h.outside name hn
    obtain ⟨hst₁, hst₁'⟩ := h₁.outside name hn
    rw [hpop, hpop', hst₁, hst₁', Scope.contains, Scope.contains, hst, hst']
    constructor <;> split <;> simp_all

namespace Run

variable {α β : Type} {matters : String → Prop} {base base' : Scope}

theorem abreast_framed {Q : α → β → Prop} {m : Run α} {m' : Run β}
    (hm : Abreast Q (State.Alike matters base base') m m') (hgrows : Keeps State.Grows m)
    (hgrows' : Keeps State.Grows m') :
    Abreast Q (State.Alike matters base base') m.framed m'.framed := by
  intro st st' hR
  have hmeet := hm { st with scope := st.scope.push } { st' with scope := st'.scope.push }
    ⟨hR.answers, hR.output, hR.inside, hR.outside⟩
  have hgrown := hgrows { st with scope := st.scope.push }
  have hgrown' := hgrows' { st' with scope := st'.scope.push }
  unfold framed
  unfold after at hgrown hgrown'
  generalize m { st with scope := st.scope.push } = x,
    m' { st' with scope := st'.scope.push } = y at hmeet hgrown hgrown'
  cases hmeet with
  | ok hQ hR₁ => exact .ok hQ (hR.pop hR₁ hgrown hgrown')
  | error hR₁ => exact .error (hR.pop hR₁ hgrown hgrown')

end Run

/-! ## Programs -/

/-- The name that the statement itself reads or binds. -/
def Statement.name? : Statement → Option String
  | .identifier token => some token.text
  | .assignment _ target _ => some target.text
  | _ => none

/-- The name is read or bound somewhere in the program. -/
def Block.Mentions (b : Block) (name : String) : Prop :=
  ∃ n ∈ Block.nodes b, n.name? = some name

open Run

variable {matters : String → Prop} {base base' : Scope} (fuel : Nat)

mutual

/-- If all names matter that are mentioned in a statement, two runs of it that agree on
    them go on to do so. -/
theorem Statement.abreast_eval : (s : Statement) →
    (∀ n ∈ s.nodes, ∀ name ∈ n.name?, matters name) →
    Abreast Eq (State.Alike matters base base') (s.eval fuel) (s.eval fuel)
  | .sequence body, h =>
    abreast_noted (Block.abreast_evalAfter body (List.forall_mem_cons.1 h).2 .nothing)
  | .literal _, _ => abreast_noted (by split <;> exact abreast_pure rfl)
  | .identifier _, h => abreast_noted (abreast_lookUp (h _ List.mem_cons_self _ rfl))
  | .assignment _ target value, h =>
    abreast_noted <| abreast_bind (value.abreast_eval (List.forall_mem_cons.1 h).2) fun l l' hl => by
      subst hl
      exact abreast_bind (abreast_assign (h _ List.mem_cons_self _ rfl) l) fun _ _ _ =>
        abreast_pure rfl
  | .operation lhs op _ rhs, h => by
    rw [Statement.nodes, List.forall_mem_cons, List.forall_mem_append] at h
    refine abreast_noted <| abreast_bind (lhs.abreast_eval h.2.1) fun l l' hl =>
      abreast_bind (rhs.abreast_eval h.2.2) fun r r' hr => ?_
    subst hl hr
    exact abreast_operate op l r
  | .display _ value, h =>
    abreast_noted <| abreast_bind (value.abreast_eval (List.forall_mem_cons.1 h).2) fun l l' hl => by
      subst hl
      exact abreast_bind (abreast_write l.value.shown) fun _ _ _ => abreast_pure rfl
  | .input keyword, _ => abreast_noted (abreast_read keyword)
  | .conditional _ condition pass fail _, h => by
    rw [Statement.nodes, List.forall_mem_cons, List.forall_mem_append, List.forall_mem_append] at h
    have hgrows := condition.keeps_choice Scope.growsBy_invariant fuel pass fail
    refine abreast_noted <| abreast_bind (Q := Eq) (abreast_framed ?_ hgrows hgrows)
      fun l l' hl => abreast_pure (hl ▸ rfl)
    refine abreast_bind (condition.abreast_eval h.2.1) fun l l' hl => ?_
    subst hl
    refine abreast_bind (abreast_decide l) fun goOn goOn' hgo => ?_
    subst hgo
    exact abreast_ite goOn (Block.abreast_evalAfter pass h.2.2.1 _)
      (Block.abreast_evalElse fail h.2.2.2)
  | .loop _ condition body _, h => by
    rw [Statement.nodes, List.forall_mem_cons, List.forall_mem_append] at h
    have hgrows := condition.keeps_rounds Scope.growsBy_invariant fuel body fuel .nothing
    refine abreast_noted <| abreast_bind (Q := Eq) (abreast_framed ?_ hgrows hgrows)
      fun l l' hl => abreast_pure (hl ▸ rfl)
    exact abreast_iterate
      (abreast_bind (condition.abreast_eval h.2.1) fun l l' hl => hl ▸ abreast_decide l)
      (Block.abreast_evalAfter body h.2.2 _) fuel rfl

theorem Block.abreast_evalAfter : (b : List Statement) →
    (∀ n ∈ Block.nodes b, ∀ name ∈ n.name?, matters name) → (last : Located) →
    Abreast Eq (State.Alike matters base base') (Block.evalAfter fuel b last)
      (Block.evalAfter fuel b last)
  | [], _, _ => abreast_pure rfl
  | s :: ss, h, _ => by
    rw [Block.nodes, List.forall_mem_append] at h
    refine abreast_bind (s.abreast_eval h.1) fun l l' hl => ?_
    subst hl
    exact Block.abreast_evalAfter ss h.2 l

theorem Block.abreast_evalElse : (b : Option (List Statement)) →
    (∀ n ∈ Block.nodesElse b, ∀ name ∈ n.name?, matters name) →
    Abreast Eq (State.Alike matters base base') (Block.evalElse fuel b) (Block.evalElse fuel b)
  | none, _ => abreast_pure rfl
  | some body, h => Block.abreast_evalAfter body h _

end

/-- A program does the same from two scopes that agree on the names that it mentions, if it
    is given the same answers: it comes to the same, or stops for the same reason, has the
    same output, and takes the same answers. After it the two scopes agree on these names
    again, and all others are what they were. -/
theorem Block.unmentioned_irrelevant (b : Block) (st st' : State)
    (hanswers : st.answers = st'.answers) (houtput : st.output = st'.output)
    (hscope : ∀ name, b.Mentions name → st.scope.AgreeOn st'.scope name) :
    result (b.run fuel) st = result (b.run fuel) st' ∧
    (after (b.run fuel) st).output = (after (b.run fuel) st').output ∧
    (after (b.run fuel) st).answers = (after (b.run fuel) st').answers ∧
    (∀ name, b.Mentions name →
      (after (b.run fuel) st).scope.AgreeOn (after (b.run fuel) st').scope name) ∧
    ∀ name, ¬ b.Mentions name →
      (after (b.run fuel) st).scope.get? name = st.scope.get? name ∧
      (after (b.run fuel) st').scope.get? name = st'.scope.get? name := by
  have habreast : Abreast Eq (State.Alike b.Mentions st.scope st'.scope) (b.run fuel) (b.run fuel) :=
    Block.abreast_evalAfter fuel b (fun n hn name hname => ⟨n, hn, hname⟩) .nothing
  have hmeet := habreast st st' ⟨hanswers, houtput, hscope, fun _ _ => ⟨rfl, rfl⟩⟩
  unfold result after
  generalize b.run fuel st = x, b.run fuel st' = y at hmeet
  cases hmeet with
  | ok hl hR => exact ⟨congrArg Except.ok hl, hR.output, hR.answers, hR.inside, hR.outside⟩
  | error hR => exact ⟨rfl, hR.output, hR.answers, hR.inside, hR.outside⟩

/-- A loop that counts in a variable of the program, and with one of its own. Two blocks
    further in, beside another variable, and from a value that came from somewhere else, it
    does the same. -/
theorem Block.unmentioned_irrelevant_of_counting :
    let named (text : String) : Token := ⟨.identifier, text, .empty⟩
    let number (n : Int64) : Statement := .literal ⟨.literal (.integer n), "", .empty⟩
    let next : Statement := .operation (.identifier (named "x")) .add .empty (number 1)
    let b : Block := [.loop .empty (.operation (.identifier (named "x")) .less .empty (number 3))
      [.assignment .empty (named "y") next, .assignment .empty (named "x") (.identifier (named "y"))]
      .empty, .display .empty (.identifier (named "x"))]
    let one : Located := ⟨.integer 1, .empty⟩
    let far : Located := ⟨.integer 1, .located ⟨"u", "1", 0⟩ 0 1 (by decide)⟩
    let st : State := ⟨.put .empty "x" one, "", [], none⟩
    let st' : State := ⟨.put (.push (.put (.push .empty) "x" far)) "z" far, "", [], none⟩
    (after (b.run 3) st).output = "3\n" ∧ (after (b.run 3) st').output = "3\n" ∧
      (after (b.run 3) st').scope.get? "z" = some far := by
  intro named number next b one far st st'
  have hagree : ∀ name ∈ (Block.nodes b).filterMap Statement.name?,
      st.scope.AgreeOn st'.scope name := by decide +kernel
  obtain ⟨-, houtput, -, -, hrest⟩ := Block.unmentioned_irrelevant 3 b st st' rfl rfl
    fun name h => hagree name (List.mem_filterMap.2 h)
  have hz : ¬ b.Mentions "z" := by
    intro h
    have := List.mem_filterMap.2 h
    revert this
    decide +kernel
  have h : (after (b.run 3) st).output = "3\n" := by decide +kernel
  exact ⟨h, houtput.symm.trans h, (hrest "z" hz).2⟩

end Kode
