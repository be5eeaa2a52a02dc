import Kode.Console
import Kode.Proofs.Invariant
import Kode.Proofs.Parsing
import Kode.Proofs.Rejection

/-!
# Where results come from

A variable keeps the place of the value that it was bound to, perhaps in a source
that was run long before. Nothing of that place is seen again: what a statement
comes to is attributed to a part of the statement itself, and so is what it is
blamed for, whatever the variables hold when it is evaluated. For reading a
variable gives its value a new place, and so does leaving a block, even one that
was never run.

* `Derives.sited`: the statements of a program stand where their tokens do;
* `Statement.ends_eval`: a statement that stands somewhere has a result from
  there, or is blamed for something there;
* `Source.provenance`: so no source is mixed up with those that were run before.
-/

namespace Kode

variable {source : Source}

/-! ## Statements in a source -/

mutual

/-- The statement was written in the source, with the left side of every operator
    in front of the right one, and no value is made of nothing. -/
def Statement.Sited (source : Source) : Statement → Prop
  | .sequence body => body ≠ [] ∧ Block.Sited source body
  | .literal token | .identifier token => token.span.Marks source
  | .assignment keyword target value =>
    keyword.Marks source ∧ target.span.Marks source ∧ value.Sited source
  | .operation lhs _ site rhs =>
    lhs.Sited source ∧ site.Marks source ∧ rhs.Sited source ∧ lhs.span.stop ≤ rhs.span.start
  | .display keyword value => keyword.Marks source ∧ value.Sited source
  | .input keyword => keyword.Marks source
  | .conditional keyword condition pass fail close =>
    keyword.Marks source ∧ condition.Sited source ∧ Block.Sited source pass ∧
      Block.SitedElse source fail ∧ close.Marks source
  | .loop keyword condition body close =>
    keyword.Marks source ∧ condition.Sited source ∧ Block.Sited source body ∧ close.Marks source

/-- All of the statements were. -/
def Block.Sited (source : Source) : List Statement → Prop
  | [] => True
  | s :: ss => s.Sited source ∧ Block.Sited source ss

/-- The same for what follows an `ELSE`, if there is one. -/
def Block.SitedElse (source : Source) : Option (List Statement) → Prop
  | none => True
  | some body => Block.Sited source body

end

mutual

/-- The statement and all statements in it. -/
def Statement.nodes : Statement → List Statement
  | .sequence body => .sequence body :: Block.nodes body
  | .literal token => [.literal token]
  | .identifier token => [.identifier token]
  | .assignment keyword target value => .assignment keyword target value :: value.nodes
  | .operation lhs op site rhs => .operation lhs op site rhs :: (lhs.nodes ++ rhs.nodes)
  | .display keyword value => .display keyword value :: value.nodes
  | .input keyword => [.input keyword]
  | .conditional keyword condition pass fail close =>
    .conditional keyword condition pass fail close ::
      (condition.nodes ++ (Block.nodes pass ++ Block.nodesElse fail))
  | .loop keyword condition body close =>
    .loop keyword condition body close :: (condition.nodes ++ Block.nodes body)

/-- All of the statements and those in them. -/
def Block.nodes : List Statement → List Statement
  | [] => []
  | s :: ss => s.nodes ++ Block.nodes ss

/-- The same for what follows an `ELSE`, if there is one. -/
def Block.nodesElse : Option (List Statement) → List Statement
  | none => []
  | some body => Block.nodes body

end

/-- A value has the statements of its block, and perhaps itself, as the sequence of
    them all. -/
theorem Block.mem_nodes_value {b : Block} {n : Statement} (h : n ∈ b.value.nodes) :
    n ∈ Block.nodes b ∨ n = .sequence b ∧ b.value = n := by
  match b with
  | [s] => exact .inl (List.mem_append.2 (.inl h))
  | [] | s :: s' :: ss => exact (List.mem_cons.1 h).symm.imp_right fun hn => ⟨hn, hn.symm⟩

mutual

theorem Statement.Sited.marks_span {s : Statement} (h : s.Sited source) : s.span.Marks source := by
  match s, h with
  | .sequence _, h => exact Block.Sited.marks_span h.2 h.1
  | .literal _, h | .identifier _, h | .input _, h => exact h
  | .assignment _ _ _, h => exact h.1.merge h.2.2.marks_span
  | .operation _ _ _ _, h => exact h.1.marks_span.merge h.2.2.1.marks_span
  | .display _ _, h => exact h.1.merge h.2.marks_span
  | .conditional _ _ _ _ _, h => exact h.1.merge h.2.2.2.2
  | .loop _ _ _ _, h => exact h.1.merge h.2.2.2

theorem Block.Sited.marks_span {b : List Statement} (h : Block.Sited source b) (hne : b ≠ []) :
    (Block.span b).Marks source := by
  match b, h with
  | [], _ => exact absurd rfl hne
  | [s], h =>
    rw [Block.span, Block.span, Span.merge_empty]
    exact h.1.marks_span
  | s :: s' :: ss, h =>
    rw [Block.span]
    exact h.1.marks_span.merge (Block.Sited.marks_span h.2 (by simp))

end

mutual

/-- So was every statement in it. -/
theorem Statement.Sited.of_mem_nodes {s n : Statement} (h : s.Sited source) (hn : n ∈ s.nodes) :
    n.Sited source := by
  match s, h with
  | .literal _, h | .identifier _, h | .input _, h =>
    obtain rfl := List.mem_singleton.1 hn
    exact h
  | .sequence _, h =>
    rcases List.mem_cons.1 hn with rfl | hn
    · exact h
    · exact Block.Sited.of_mem_nodes h.2 hn
  | .assignment _ _ _, h =>
    rcases List.mem_cons.1 hn with rfl | hn
    · exact h
    · exact h.2.2.of_mem_nodes hn
  | .operation _ _ _ _, h =>
    rcases List.mem_cons.1 hn with rfl | hn
    · exact h
    · rcases List.mem_append.1 hn with hn | hn
      · exact h.1.of_mem_nodes hn
      · exact h.2.2.1.of_mem_nodes hn
  | .display _ _, h =>
    rcases List.mem_cons.1 hn with rfl | hn
    · exact h
    · exact h.2.of_mem_nodes hn
  | .conditional _ _ _ _ _, h =>
    rcases List.mem_cons.1 hn with rfl | hn
    · exact h
    · rcases List.mem_append.1 hn with hn | hn
      · exact h.2.1.of_mem_nodes hn
      · rcases List.mem_append.1 hn with hn | hn
        · exact Block.Sited.of_mem_nodes h.2.2.1 hn
        · exact Block.SitedElse.of_mem_nodes h.2.2.2.1 hn
  | .loop _ _ _ _, h =>
    rcases List.mem_cons.1 hn with rfl | hn
    · exact h
    · rcases List.mem_append.1 hn with hn | hn
      · exact h.2.1.of_mem_nodes hn
      · exact Block.Sited.of_mem_nodes h.2.2.1 hn

theorem Block.Sited.of_mem_nodes {b : List Statement} {n : Statement} (h : Block.Sited source b)
    (hn : n ∈ Block.nodes b) : n.Sited source := by
  match b, h with
  | [], _ => exact absurd hn List.not_mem_nil
  | s :: ss, h =>
    rcases List.mem_append.1 hn with hn | hn
    · exact h.1.of_mem_nodes hn
    · exact Block.Sited.of_mem_nodes h.2 hn

theorem Block.SitedElse.of_mem_nodes {b : Option (List Statement)} {n : Statement}
    (h : Block.SitedElse source b) (hn : n ∈ Block.nodesElse b) : n.Sited source := by
  match b, h with
  | none, _ => exact absurd hn List.not_mem_nil
  | some body, h => exact Block.Sited.of_mem_nodes (b := body) h hn

end

theorem Block.Sited.value {b : Block} (h : Block.Sited source b) (hne : b ≠ []) :
    b.value.Sited source := by
  match b, h with
  | [], _ => exact absurd rfl hne
  | [s], h => exact h.1
  | s :: s' :: ss, h => exact ⟨hne, h⟩

/-! ## Programs -/

/-- What holds of the spans of all tokens, and of what joins two spans, holds of
    the span of the expression. -/
theorem Expression.span_induction {P : Span → Prop} {ts : List Token} {s : Statement}
    (h : Expression ts s) (merge : ∀ s t, P s → P t → P (s.merge t)) (hts : ∀ t ∈ ts, P t.span) :
    P s.span := by
  induction h with
  | operand h => cases h <;> exact hts _ List.mem_cons_self
  | operation _ _ _ _ _ ihl ihr =>
    rw [List.forall_mem_append, List.forall_mem_cons] at hts
    exact merge _ _ (ihl hts.1) (ihr hts.2.2)

theorem Expression.stop_le {ts : List Token} {s : Statement} (h : Expression ts s)
    (hts : Token.AllMark source ts) {n : Nat} (hn : ∀ t ∈ ts, t.span.stop ≤ n) :
    s.span.stop ≤ n := by
  have hmerge (s t : Span) (hs : s.Marks source ∧ s.stop ≤ n) (ht : t.Marks source ∧ t.stop ≤ n) :
      (s.merge t).Marks source ∧ (s.merge t).stop ≤ n := by
    refine ⟨hs.1.merge ht.1, ?_⟩
    rw [hs.1.stop_merge ht.1]
    exact Nat.max_le.2 ⟨hs.2, ht.2⟩
  exact (h.span_induction hmerge fun t ht => ⟨hts t ht, hn t ht⟩).2

theorem Expression.le_start {ts : List Token} {s : Statement} (h : Expression ts s)
    (hts : Token.AllMark source ts) {n : Nat} (hn : ∀ t ∈ ts, n ≤ t.span.start) :
    n ≤ s.span.start := by
  have hmerge (s t : Span) (hs : s.Marks source ∧ n ≤ s.start) (ht : t.Marks source ∧ n ≤ t.start) :
      (s.merge t).Marks source ∧ n ≤ (s.merge t).start := by
    refine ⟨hs.1.merge ht.1, ?_⟩
    rw [hs.1.start_merge ht.1]
    exact Nat.le_min.2 ⟨hs.2, ht.2⟩
  exact (h.span_induction hmerge fun t ht => ⟨hts t ht, hn t ht⟩).2

theorem Expression.sited {ts : List Token} {s : Statement} (h : Expression ts s)
    (hts : Token.AllMark source ts)
    (hpair : ts.Pairwise fun t u => t.span.stop ≤ u.span.start) : s.Sited source := by
  induction h with
  | operand h => cases h <;> exact hts _ List.mem_cons_self
  | operation hl _ hr _ _ ihl ihr =>
    rw [Token.AllMark, List.forall_mem_append, List.forall_mem_cons] at hts
    obtain ⟨hls, ho, hrs⟩ := hts
    obtain ⟨hpl, hpr, hcross⟩ := List.pairwise_append.1 hpair
    obtain ⟨hor, hpr⟩ := List.pairwise_cons.1 hpr
    refine ⟨ihl hls hpl, ho, ihr hrs hpr, ?_⟩
    -- The operator stands between the sides.
    have h₁ := hl.stop_le hls fun t ht => hcross t ht _ List.mem_cons_self
    have h₂ := hr.le_start hrs hor
    have h₃ := ho.start_lt_stop
    omega

theorem Derives.ne_nil {ts : List Token} {b : Block} (h : Derives ts b) (hne : ts ≠ []) :
    b ≠ [] := by
  cases h with
  | nil => exact absurd rfl hne
  | _ => simp

/-- The statements of a program stand where its tokens do. -/
theorem Derives.sited {ts : List Token} {b : Block} (h : Derives ts b)
    (hts : Token.AllMark source ts)
    (hpair : ts.Pairwise fun t u => t.span.stop ≤ u.span.start) : Block.Sited source b := by
  have value {vs : List Token} {v : Block} (hv : Derives vs v) (hne : vs ≠ [])
      (h : Block.Sited source v) : v.value.Sited source :=
    h.value (hv.ne_nil hne)
  induction h with
  | nil => trivial
  | expression h => exact ⟨h.sited hts hpair, trivial⟩
  | display _ _ _ hne hv _ ihv ih =>
    simp only [Token.AllMark, List.forall_mem_cons, List.forall_mem_append] at hts
    obtain ⟨hk, hvs, -, hus⟩ := hts
    simp only [List.pairwise_cons, List.pairwise_append] at hpair
    exact ⟨⟨hk, value hv hne (ihv hvs hpair.2.1)⟩, ih hus hpair.2.2.1.2⟩
  | assignment _ _ _ _ _ hne hv _ ihv ih =>
    simp only [Token.AllMark, List.forall_mem_cons, List.forall_mem_append] at hts
    obtain ⟨hk, hx, -, hvs, -, hus⟩ := hts
    simp only [List.pairwise_cons, List.pairwise_append] at hpair
    obtain ⟨-, -, -, hpv, ⟨-, hpu⟩, -⟩ := hpair
    exact ⟨⟨hk, hx, value hv hne (ihv hvs hpv)⟩, ih hus hpu⟩
  | input _ _ _ ih =>
    simp only [Token.AllMark, List.forall_mem_cons] at hts
    simp only [List.pairwise_cons] at hpair
    exact ⟨hts.1, ih hts.2.2 hpair.2.2⟩
  | conditional _ _ _ _ _ hne hc _ _ ihc ihp ih =>
    simp only [Token.AllMark, List.forall_mem_cons, List.forall_mem_append] at hts
    obtain ⟨hk, hcs, -, hps, he, -, hus⟩ := hts
    simp only [List.pairwise_cons, List.pairwise_append] at hpair
    obtain ⟨-, hpc, ⟨-, hpp, ⟨-, -, hpu, -⟩, -⟩, -⟩ := hpair
    exact ⟨⟨hk, value hc hne (ihc hcs hpc), ihp hps hpp, trivial, he⟩, ih hus hpu⟩
  | alternative _ _ _ _ _ _ hne hc _ _ _ ihc ihp ihf ih =>
    simp only [Token.AllMark, List.forall_mem_cons, List.forall_mem_append] at hts
    obtain ⟨hk, hcs, -, hps, -, hfs, he, -, hus⟩ := hts
    simp only [List.pairwise_cons, List.pairwise_append] at hpair
    obtain ⟨-, hpc, ⟨-, hpp, ⟨-, hpf, ⟨-, -, hpu, -⟩, -⟩, -⟩, -⟩ := hpair
    exact ⟨⟨hk, value hc hne (ihc hcs hpc), ihp hps hpp, ihf hfs hpf, he⟩, ih hus hpu⟩
  | loop _ _ _ _ _ hne hc _ _ ihc ihp ih =>
    simp only [Token.AllMark, List.forall_mem_cons, List.forall_mem_append] at hts
    obtain ⟨hk, hcs, -, hps, he, -, hus⟩ := hts
    simp only [List.pairwise_cons, List.pairwise_append] at hpair
    obtain ⟨-, hpc, ⟨-, hpp, ⟨-, -, hpu, -⟩, -⟩, -⟩ := hpair
    exact ⟨⟨hk, value hc hne (ihc hcs hpc), ihp hps hpp, he⟩, ih hus hpu⟩

/-- The statements of a source stand in it. -/
theorem Source.sited_of_parse {b : Block} (h : source.parse = .ok b) : Block.Sited source b := by
  obtain ⟨ts, hts, -⟩ := Statement.bind_eq_ok h
  exact ((parse_eq_ok_iff_of_tokens hts).1 h).1.sited (marks_of_tokens hts) (pairwise_of_tokens hts)

/-! ## Runs -/

/-- Whether both operands are to blame. -/
def RuntimeFault.blamesBoth : RuntimeFault → Bool
  | unsupportedOperands .. => true
  | _ => false

/-- The error points at one part of the source, or at two of them, the one in
    front first, if both operands are to blame. -/
structure RuntimeError.Marks (source : Source) (e : RuntimeError) : Prop where
  first : e.span.Marks source
  second : ∀ t ∈ e.second, t.Marks source ∧ e.span.stop ≤ t.start
  isSome_second : e.second.isSome = e.fault.blamesBoth

theorem RuntimeError.marks_single {fault : RuntimeFault} {span : Span}
    (h : span.Marks source) (hf : fault.blamesBoth = false) :
    (single fault span).Marks source :=
  ⟨h, by simp [single], hf.symm⟩

theorem RuntimeError.Marks.of_mem_spans {e : RuntimeError} (h : e.Marks source) :
    ∀ t ∈ e.spans, t.Marks source :=
  List.forall_mem_cons.2 ⟨h.first, fun t ht => (h.second t (Option.mem_toList.1 ht)).1⟩

namespace Run

variable {α β : Type} {Q : α → Prop} {R : β → Prop}

/-- From every state the run comes to a result as required, points at parts of the
    source, or runs out of fuel. -/
def Ends (source : Source) (Q : α → Prop) (r : Run α) : Prop :=
  ∀ st, match r st with
    | .ok a _ => Q a
    | .error (.failed e) _ => e.Marks source
    | .error .outOfFuel _ => True

theorem ends_pure {a : α} (h : Q a) : Ends source Q (pure a) :=
  fun _ => h

theorem ends_fail {e : RuntimeError} (h : e.Marks source) : Ends source Q (fail e) :=
  fun _ => h

theorem ends_bind {r : Run α} {k : α → Run β} (hr : Ends source Q r)
    (hk : ∀ a, Q a → Ends source R (k a)) : Ends source R (r >>= k) := by
  intro st
  have hst := hr st
  simp only [bind, EStateM.bind]
  cases he : r st with
  | ok a st' =>
    rw [he] at hst
    exact hk a hst st'
  | error stop st' =>
    rw [he] at hst
    cases stop <;> exact hst

theorem ends_mono {Q' : α → Prop} {r : Run α} (hr : Ends source Q r) (h : ∀ a, Q a → Q' a) :
    Ends source Q' r := by
  intro st
  have hst := hr st
  cases he : r st with
  | ok a st' =>
    rw [he] at hst
    exact h a hst
  | error stop st' =>
    rw [he] at hst
    cases stop <;> exact hst

theorem ends_framed {r : Run α} (hr : Ends source Q r) : Ends source Q r.framed := by
  intro st
  have hst := hr { st with scope := st.scope.push }
  unfold framed
  cases he : r { st with scope := st.scope.push } with
  | ok a st' =>
    rw [he] at hst
    exact hst
  | error stop st' =>
    rw [he] at hst
    cases stop <;> exact hst

theorem ends_lookUp {token : Token} (h : token.span.Marks source) :
    Ends source (fun l => l.span = token.span) (lookUp token) := by
  refine ends_bind (Q := fun _ => True) (fun _ => trivial) fun st _ => ?_
  simp only [Scope.resolve]
  cases st.scope.get? token.text with
  | some l => exact ends_pure rfl
  | none => exact ends_fail (RuntimeError.marks_single h rfl)

theorem ends_read {site : Span} (h : site.Marks source) :
    Ends source (fun l => l.span = site) (read site) := by
  refine ends_bind (Q := fun _ => True) (fun st => ?_) fun a _ => ?_
  · obtain ⟨scope, output, answers, trace⟩ := st
    cases answers <;> trivial
  · cases a with
    | line text => exact ends_pure rfl
    | endOfInput => exact ends_fail (RuntimeError.marks_single h rfl)
    | failure reason => exact ends_fail (RuntimeError.marks_single h rfl)

/-- An operator points at its operands, or at all from the one to the other. -/
theorem ends_operate (op : Operator) {l r : Located} (hl : l.span.Marks source)
    (hr : r.span.Marks source) (hlr : l.span.stop ≤ r.span.start) :
    Ends source (fun x => x.span = l.span.merge r.span) (operate op l r) := by
  rw [operate]
  cases op.apply l.value r.value with
  | ok v => exact ends_pure rfl
  | error f =>
    cases f with
    | unsupported =>
      refine ends_fail ⟨hl, fun t ht => ?_, rfl⟩
      obtain rfl := Option.some.inj ht
      exact ⟨hr, hlr⟩
    | _ => exact ends_fail (RuntimeError.marks_single (hl.merge hr) rfl)

theorem ends_decide {l : Located} (h : l.span.Marks source) :
    Ends source (fun _ => True) (decide l) := by
  obtain ⟨value, span⟩ := l
  cases value with
  | boolean b => exact ends_pure trivial
  | _ => exact ends_fail (RuntimeError.marks_single h rfl)

theorem ends_noted {s : Statement} {Q : Located → Prop} {r : Run Located} (hr : Ends source Q r) :
    Ends source Q (noted s r) :=
  ends_bind hr fun _ hl => ends_bind (Q := fun _ => True) (fun _ => trivial) fun _ _ => ends_pure hl

theorem ends_iterate {c : Run Bool} {b : Run Located} (hc : Ends source (fun _ => True) c)
    (hb : Ends source (fun _ => True) b) (fuel : Nat) (last : Located) :
    Ends source (fun _ => True) (iterate c b fuel last) := by
  induction fuel generalizing last with
  | zero => exact fun _ => trivial
  | succ fuel ih =>
    refine ends_bind hc fun goOn _ => ?_
    cases goOn with
    | false => exact ends_pure trivial
    | true => exact ends_bind hb fun l _ => ih l

end Run

open Run

/-- Whether the statement attributes what it comes to to the whole of itself. -/
def Statement.ownsResult : Statement → Bool
  | .assignment .. | .conditional .. | .loop .. => true
  | _ => false

/-- The result comes from a part of the statement, or from all of it. -/
structure Statement.Gives (source : Source) (s : Statement) (l : Located) : Prop where
  marks : l.span.Marks source
  within : l.span.Within s.span
  span_eq : s.ownsResult = true → l.span = s.span

theorem Statement.Sited.gives {s : Statement} (h : s.Sited source) (l : Located) :
    s.Gives source (l.at s.span) :=
  ⟨h.marks_span, .refl _, fun _ => rfl⟩

variable (fuel : Nat)

mutual

/-- From every state, what a statement comes to is a part of the source that lies
    in it, and it is blamed for parts of this source only. -/
theorem Statement.ends_eval : (s : Statement) → s.Sited source →
    Ends source (s.Gives source) (s.eval fuel)
  | .sequence body, h => ends_noted <| ends_mono (Block.ends_evalAfter body h.2 .nothing)
      fun _ hl => ⟨(hl h.1).1, (hl h.1).2, by simp [Statement.ownsResult]⟩
  | .literal token, h => by
    refine ends_noted ?_
    have gives (v : Value) : (Statement.literal token).Gives source ⟨v, token.span⟩ :=
      ⟨h, .refl _, by simp [Statement.ownsResult]⟩
    split <;> exact ends_pure (gives _)
  | .identifier token, h => by
    refine ends_noted (ends_mono (ends_lookUp h) fun l hl => ?_)
    exact ⟨hl ▸ h, hl ▸ .refl _, by simp [Statement.ownsResult]⟩
  | .assignment _ _ value, h =>
    ends_noted <| ends_bind (value.ends_eval h.2.2) fun l _ =>
      ends_bind (Q := fun _ => True) (fun _ => trivial) fun _ _ =>
        ends_pure (Statement.Sited.gives (s := .assignment ..) h l)
  | .operation lhs op _ rhs, h =>
    ends_noted <| ends_bind (lhs.ends_eval h.1) fun l hl =>
      ends_bind (rhs.ends_eval h.2.2.1) fun r hr => by
        -- The results lie in the sides, so they stand in the same order.
        have hlr : l.span.stop ≤ r.span.start := by
          have h₁ := hl.within.stop_le
          have h₂ := hr.within.start_le
          have h₃ := h.2.2.2
          omega
        refine ends_mono (ends_operate op hl.marks hr.marks hlr) fun x hx => ?_
        refine ⟨hx ▸ hl.marks.merge hr.marks, hx ▸ ?_, by simp [Statement.ownsResult]⟩
        exact hl.marks.within_merge hr.marks h.1.marks_span h.2.2.1.marks_span hl.within hr.within
  | .display keyword value, h =>
    ends_noted <| ends_bind (value.ends_eval h.2) fun l hl =>
      ends_bind (Q := fun _ => True) (fun _ => trivial) fun _ _ =>
        ends_pure ⟨hl.marks, hl.within.trans (h.1.within_merge_right h.2.marks_span),
          by simp [Statement.ownsResult]⟩
  | .input keyword, h => by
    refine ends_noted (ends_mono (ends_read h) fun l hl => ?_)
    exact ⟨hl ▸ h, hl ▸ .refl _, by simp [Statement.ownsResult]⟩
  | .conditional _ condition pass fail _, h =>
    ends_noted <| ends_bind
      (ends_framed <| ends_bind (condition.ends_eval h.2.1) fun l hl =>
        ends_bind (ends_decide hl.marks) fun goOn _ => by
          cases goOn with
          | true => exact ends_mono (Block.ends_evalAfter pass h.2.2.1 .nothing) fun _ _ => trivial
          | false => exact Block.ends_evalElse fail h.2.2.2.1)
      fun l _ => ends_pure (Statement.Sited.gives (s := .conditional ..) h l)
  | .loop _ condition body _, h =>
    ends_noted <| ends_bind
      (ends_framed <| ends_iterate
        (ends_bind (condition.ends_eval h.2.1) fun _ hl => ends_decide hl.marks)
        (ends_mono (Block.ends_evalAfter body h.2.2.1 .nothing) fun _ _ => trivial) fuel _)
      fun l _ => ends_pure (Statement.Sited.gives (s := .loop ..) h l)

theorem Block.ends_evalAfter : (b : List Statement) → Block.Sited source b → (last : Located) →
    Ends source (fun l => b ≠ [] → l.span.Marks source ∧ l.span.Within (Block.span b))
      (Block.evalAfter fuel b last)
  | [], _, _ => ends_pure fun hne => absurd rfl hne
  | [s], h, _ => by
    refine ends_bind (s.ends_eval h.1) fun l hl => ends_pure fun _ => ?_
    rw [Block.span, Block.span, Span.merge_empty]
    exact ⟨hl.marks, hl.within⟩
  | s :: s' :: ss, h, _ =>
    ends_bind (s.ends_eval h.1) fun l _ =>
      ends_mono (Block.ends_evalAfter (s' :: ss) h.2 l) fun _ hl _ => by
        have hspan : (Block.span (s' :: ss)).Marks source := Block.Sited.marks_span h.2 (by simp)
        rw [Block.span]
        exact ⟨(hl (by simp)).1,
          (hl (by simp)).2.trans (h.1.marks_span.within_merge_right hspan)⟩

theorem Block.ends_evalElse : (b : Option (List Statement)) → Block.SitedElse source b →
    Ends source (fun _ => True) (Block.evalElse fuel b)
  | none, _ => ends_pure trivial
  | some body, h => ends_mono (Block.ends_evalAfter body h .nothing) fun _ _ => trivial

end

/-! ## Results and errors -/

variable {fuel}

theorem Run.exists_of_bind_eq_ok {α β : Type} {r : Run α} {k : α → Run β} {st st' : State} {b : β}
    (h : (r >>= k) st = .ok b st') : ∃ a st₁, r st = .ok a st₁ ∧ k a st₁ = .ok b st' := by
  simp only [bind, EStateM.bind] at h
  cases he : r st with
  | ok a st₁ =>
    rw [he] at h
    exact ⟨a, st₁, rfl, h⟩
  | error stop st₁ => simp [he] at h

theorem Run.exists_of_noted_eq_ok {s : Statement} {r : Run Located} {st st' : State} {l : Located}
    (h : noted s r st = .ok l st') : ∃ st₁, r st = .ok l st₁ := by
  obtain ⟨l', st₁, hr, h⟩ := exists_of_bind_eq_ok h
  obtain ⟨-, -, -, h⟩ := exists_of_bind_eq_ok h
  obtain ⟨rfl, -⟩ := EStateM.Result.ok.inj h
  exact ⟨st₁, hr⟩

theorem Run.span_of_operate {op : Operator} {l r x : Located} {st st' : State}
    (h : operate op l r st = .ok x st') : x.span = l.span.merge r.span := by
  rw [operate] at h
  cases ha : op.apply l.value r.value with
  | ok v =>
    rw [ha] at h
    obtain ⟨rfl, -⟩ := EStateM.Result.ok.inj h
    rfl
  | error f =>
    rw [ha] at h
    cases h

/-- An operator attributes its result to what its operands' results come from. -/
theorem Statement.span_of_operation {lhs rhs : Statement} {op : Operator} {site : Span}
    {st st' : State} {x : Located}
    (h : (Statement.operation lhs op site rhs).eval fuel st = .ok x st') :
    ∃ l st₁ r st₂, lhs.eval fuel st = .ok l st₁ ∧ rhs.eval fuel st₁ = .ok r st₂ ∧
      x.span = l.span.merge r.span := by
  rw [Statement.eval] at h
  obtain ⟨st₃, h⟩ := Run.exists_of_noted_eq_ok h
  obtain ⟨l, st₁, hl, h⟩ := Run.exists_of_bind_eq_ok h
  obtain ⟨r, st₂, hr, h⟩ := Run.exists_of_bind_eq_ok h
  exact ⟨l, st₁, r, st₂, hl, hr, Run.span_of_operate h⟩

/-- The result of the run is as required. -/
theorem Run.Ends.of_eq_ok {α : Type} {Q : α → Prop} {r : Run α} {st st' : State} {a : α}
    (h : Ends source Q r) (he : r st = .ok a st') : Q a := by
  have hst := h st
  rw [he] at hst
  exact hst

/-- The error of the run points at parts of the source. -/
theorem Run.Ends.of_eq_error {α : Type} {Q : α → Prop} {r : Run α} {st st' : State}
    {e : RuntimeError} (h : Ends source Q r) (he : r st = .error (.failed e) st') :
    e.Marks source := by
  have hst := h st
  rw [he] at hst
  exact hst

/-- The state after the sources were run, one after the other. What is no program
    is passed over, and what a program did before it failed stays done. -/
def State.session (fuel : Nat) : List Source → State → State
  | [], st => st
  | s :: ss, st =>
    State.session fuel ss <| match Execution.ofSource fuel s st with
      | .rejected _ => st
      | .ran outcome => Outcome.state outcome

/-- However many sources were run before, and whatever they have left behind, the
    next one is rejected for something in it, or it is a program. What a statement
    of this program comes to, in any state, is a part of this source that lies in
    the statement: all of it, if it is an assignment, a conditional or a loop, and
    what joins the results of the operands, if it is an operation. If a statement
    fails, it is for parts of this source. And so it is with the whole program,
    which is attributed to no source only if it is empty. -/
theorem Source.provenance (fuel : Nat) (earlier : List Source) (answers : List Answer)
    (source : Source) :
    (∀ e, source.parse = .error e → e.span.Marks source) ∧
    ∀ b, source.parse = .ok b →
      (∀ n ∈ Block.nodes b, ∀ st,
        (∀ l st', n.eval fuel st = .ok l st' → n.Gives source l ∧
          ∀ lhs op site rhs, n = .operation lhs op site rhs →
            ∃ x st₁ y st₂, lhs.eval fuel st = .ok x st₁ ∧ rhs.eval fuel st₁ = .ok y st₂ ∧
              l.span = x.span.merge y.span) ∧
        ∀ e st', n.eval fuel st = .error (.failed e) st' → ∀ t ∈ e.spans, t.Marks source) ∧
      (∀ l st', b.run fuel (.session fuel earlier (.initial answers)) = .ok l st' →
        if b = [] then l.span = .empty
        else l.span.Marks source ∧ l.span.Within (Block.span b)) ∧
      ∀ e st', b.run fuel (.session fuel earlier (.initial answers)) = .error (.failed e) st' →
        ∀ t ∈ e.spans, t.Marks source := by
  refine ⟨fun e he => marks_of_parse_error he, fun b hb => ?_⟩
  have hsited := sited_of_parse hb
  have hrun := Block.ends_evalAfter fuel b hsited .nothing
  refine ⟨fun n hn st => ?_, fun l st' hl => ?_, fun e st' he => ?_⟩
  · have hends := n.ends_eval fuel (hsited.of_mem_nodes hn)
    refine ⟨fun l st' hl => ⟨hends.of_eq_ok hl, ?_⟩, fun e st' he =>
      (hends.of_eq_error he).of_mem_spans⟩
    rintro lhs op site rhs rfl
    exact Statement.span_of_operation hl
  · split
    · rename_i hnil
      subst hnil
      obtain ⟨rfl, -⟩ := EStateM.Result.ok.inj hl
      rfl
    · rename_i hne
      exact hrun.of_eq_ok hl hne
  · exact (hrun.of_eq_error he).of_mem_spans

/-- A sum of a name that an earlier program has left behind before it failed. -/
theorem Source.provenance_of_session :
    ∃ b l st',
      (⟨"second", "SHOW x + 1. x + x", 1⟩ : Source).parse = .ok b ∧
      b.run 9 (.session 9 [⟨"first", "SET x TO 2. SHOW x - 'a'.", 0⟩] (.initial [])) = .ok l st' ∧
      l.span.Marks ⟨"second", "SHOW x + 1. x + x", 1⟩ := by
  have hp : ((⟨"second", "SHOW x + 1. x + x", 1⟩ : Source).parse.toOption.any fun b =>
      !b.isEmpty && (Outcome.stop? (b.run 9 (.session 9
        [⟨"first", "SET x TO 2. SHOW x - 'a'.", 0⟩] (.initial [])))).isNone) = true := by
    decide +kernel
  cases hb : (⟨"second", "SHOW x + 1. x + x", 1⟩ : Source).parse with
  | error e => simp [hb, Except.toOption] at hp
  | ok b =>
    rw [hb, Except.toOption, Option.any_some, Bool.and_eq_true] at hp
    obtain ⟨hne, hp⟩ := hp
    obtain ⟨-, hparsed⟩ := Source.provenance 9 [⟨"first", "SET x TO 2. SHOW x - 'a'.", 0⟩] []
      ⟨"second", "SHOW x + 1. x + x", 1⟩
    obtain ⟨-, hok, -⟩ := hparsed b hb
    cases hl : b.run 9 (.session 9 [⟨"first", "SET x TO 2. SHOW x - 'a'.", 0⟩] (.initial [])) with
    | error stop st' => simp [hl, Outcome.stop?] at hp
    | ok l st' =>
      have hspan := hok l st' hl
      rw [if_neg (by simpa using hne)] at hspan
      exact ⟨b, l, st', rfl, hl, hspan.1⟩

end Kode
