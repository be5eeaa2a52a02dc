import Kode.Proofs.Parsing
import Kode.Proofs.Provenance

/-!
# What a statement spans

A statement does not keep its span. It is joined again from keywords and parts of
the statement, and which ones depends on what kind of statement it is. All the same,
every span goes from the first to the last of the tokens that the statement was read
from, and leaves out the period behind them (`Token.Spans`). The parts have the spans
of stretches of these tokens, one after the other (`Token.Strung`).

* `Derives.laid`: so it is with a block and its statements;
* `Statement.ReadFrom.strung`: and so with each statement and its parts;
* `Derives.readIn`: each statement of a program was read from some of its tokens;
* `Source.spans_nested`: so the spans of a program are nested as its statements are.
-/

namespace Kode

variable {source : Source}

/-! ## Spans of tokens -/

namespace Token

/-- The tokens mark parts of the source, one after the other. -/
structure InOrder (source : Source) (ts : List Token) : Prop where
  marks : AllMark source ts
  pairwise : ts.Pairwise fun t u => t.span.stop ≤ u.span.start

/-- The span goes from the first of the tokens to the last of them, which is no
    period. -/
structure Fills (source : Source) (ts : List Token) (s : Span) : Prop where
  marks : s.Marks source
  first : ∃ t ∈ ts.head?, t.span.start = s.start
  last : ∃ t ∈ ts.getLast?, t.isPeriod = false ∧ t.span.stop = s.stop

/-- The same, but for a period that may stand behind the last of them. -/
def Spans (source : Source) (ts : List Token) (s : Span) : Prop :=
  ∃ core stop, ts = core ++ stop ∧ OptionalPeriod stop ∧ Fills source core s

/-- The spans are those of stretches of the tokens, one after the other. -/
inductive Strung (source : Source) : List Token → List Span → Prop
  | nil : Strung source [] []
  | skip {t : Token} {ts : List Token} {ps : List Span} :
      Strung source ts ps → Strung source (t :: ts) ps
  | part {us ts : List Token} {p : Span} {ps : List Span} :
      Fills source us p → Strung source ts ps → Strung source (us ++ ts) (p :: ps)

variable {ts us xs zs : List Token} {s t p : Span} {ps qs : List Span}

theorem InOrder.mono (h : InOrder source ts) (hus : us <:+: ts) : InOrder source us where
  marks t ht := h.marks t (hus.subset ht)
  pairwise := h.pairwise.sublist hus.sublist

theorem fills_singleton {t : Token} (h : t.span.Marks source) (hp : t.isPeriod = false) :
    Fills source [t] t.span :=
  ⟨h, ⟨t, rfl, rfl⟩, t, rfl, hp, rfl⟩

theorem Fills.stop_le_start (hs : Fills source xs s) (ht : Fills source zs t) (ys : List Token)
    (h : InOrder source (xs ++ (ys ++ zs))) : s.stop ≤ t.start := by
  obtain ⟨u, hu, -, hstop⟩ := hs.last
  obtain ⟨v, hv, hstart⟩ := ht.first
  obtain ⟨-, -, hcross⟩ := List.pairwise_append.1 h.pairwise
  rw [← hstop, ← hstart]
  exact hcross u (List.mem_of_getLast? hu) v (List.mem_append_right ys (List.mem_of_head? hv))

/-- What joins two such spans goes from the first token of the one to the last of
    the other. -/
theorem Fills.join (hs : Fills source xs s) (ht : Fills source zs t) (ys : List Token)
    (h : InOrder source (xs ++ (ys ++ zs))) : Fills source (xs ++ (ys ++ zs)) (s.merge t) := by
  have hle := hs.stop_le_start ht ys h
  have h₁ := hs.marks.start_lt_stop
  have h₂ := ht.marks.start_lt_stop
  obtain ⟨u, hu, hstart⟩ := hs.first
  obtain ⟨v, hv, hperiod, hstop⟩ := ht.last
  refine ⟨hs.marks.merge ht.marks, ⟨u, ?_, ?_⟩, v, ?_, hperiod, ?_⟩
  · simp [Option.mem_def.1 hu]
  · rw [hs.marks.start_merge ht.marks]
    omega
  · simp [Option.mem_def.1 hv]
  · rw [hs.marks.stop_merge ht.marks]
    omega

theorem Fills.spans (h : Fills source ts s) : Spans source ts s :=
  ⟨ts, [], by simp, .absent, h⟩

/-- Where no token is a period, the last one is not left out. -/
theorem Spans.fills (h : Spans source ts s) (hts : ∀ t ∈ ts, t.isPeriod = false) :
    Fills source ts s := by
  obtain ⟨core, stop, rfl, hstop, hcore⟩ := h
  cases hstop with
  | absent => rwa [List.append_nil]
  | present hp => simp [hts _ (List.mem_append_right core List.mem_cons_self)] at hp

/-- A stretch of the tokens that does not end with a period spans a part of what
    all of them do. -/
theorem Spans.within (h : Spans source ts s) (hts : InOrder source ts) (hus : us <:+: ts)
    (hp : Fills source us p) : p.Within s := by
  obtain ⟨core, stop, rfl, hstop, hcore⟩ := h
  obtain ⟨f, hf, hfirst⟩ := hcore.first
  obtain ⟨l, hl, -, hlast⟩ := hcore.last
  obtain ⟨u, hu, hstart⟩ := hp.first
  obtain ⟨v, hv, hperiod, hstop'⟩ := hp.last
  refine ⟨hp.marks.source?_eq.trans hcore.marks.source?_eq.symm, ?_, ?_⟩
  · obtain ⟨rest, rfl⟩ := List.head?_eq_some_iff.1 hf
    rw [← hfirst, ← hstart]
    have hmem : u ∈ f :: (rest ++ stop) := hus.subset (List.mem_of_head? hu)
    rcases List.mem_cons.1 hmem with rfl | hmem
    · exact Nat.le_refl _
    · have h₁ := (List.pairwise_cons.1 hts.pairwise).1 u hmem
      have h₂ := (hts.marks f List.mem_cons_self).start_lt_stop
      omega
  · obtain ⟨rest, rfl⟩ := List.getLast?_eq_some_iff.1 hl
    rw [← hlast, ← hstop']
    have hmem := hus.subset (List.mem_of_getLast? hv)
    rcases List.mem_append.1 hmem with hmem | hmem
    · rcases List.mem_append.1 hmem with hmem | hmem
      · obtain ⟨hpair, -⟩ := List.pairwise_append.1 hts.pairwise
        have h₁ := (List.pairwise_append.1 hpair).2.2 v hmem l (by simp)
        have h₂ := (hts.marks l (by simp)).start_lt_stop
        omega
      · rw [List.mem_singleton.1 hmem]
    · -- The period behind the last token ends no stretch.
      cases hstop with
      | absent => simp at hmem
      | present hp => simp [List.mem_singleton.1 hmem, hp] at hperiod

theorem strung_nil (ts : List Token) : Strung source ts [] := by
  induction ts with
  | nil => exact .nil
  | cons t ts ih => exact .skip ih

theorem Strung.append (h : Strung source ts ps) (h' : Strung source us qs) :
    Strung source (ts ++ us) (ps ++ qs) := by
  induction h with
  | nil => exact h'
  | skip _ ih => exact .skip ih
  | part hp _ ih =>
    rw [List.append_assoc]
    exact .part hp ih

theorem Spans.strung (h : Spans source ts s) : Strung source ts [s] := by
  obtain ⟨core, stop, rfl, -, hcore⟩ := h
  exact .part hcore (strung_nil stop)

theorem Fills.strung (h : Fills source ts s) : Strung source ts [s] :=
  h.spans.strung

theorem Strung.exists_of_mem (h : Strung source ts ps) (hp : p ∈ ps) :
    ∃ us, us <:+: ts ∧ Fills source us p := by
  induction h with
  | nil => simp at hp
  | skip _ ih =>
    obtain ⟨us, hus, hfills⟩ := ih hp
    exact ⟨us, hus.trans (List.suffix_cons _ _).isInfix, hfills⟩
  | part hq _ ih =>
    rcases List.mem_cons.1 hp with rfl | hp
    · exact ⟨_, (List.prefix_append _ _).isInfix, hq⟩
    · obtain ⟨us, hus, hfills⟩ := ih hp
      exact ⟨us, hus.trans (List.suffix_append _ _).isInfix, hfills⟩

theorem Strung.pairwise (h : Strung source ts ps) (hts : InOrder source ts) :
    ps.Pairwise fun p q => p.stop ≤ q.start := by
  induction h with
  | nil => exact .nil
  | skip _ ih => exact ih (hts.mono (List.suffix_cons _ _).isInfix)
  | part hp hrest ih =>
    refine List.pairwise_cons.2 ⟨fun q hq => ?_, ih (hts.mono (List.suffix_append _ _).isInfix)⟩
    obtain ⟨us, ⟨front, back, rfl⟩, hfills⟩ := hrest.exists_of_mem hq
    exact hp.stop_le_start hfills front (hts.mono ⟨[], back, by simp⟩)

end Token

open Token (InOrder Fills Spans Strung fills_singleton strung_nil)

/-! ## Blocks -/

theorem Expression.fills {ts : List Token} {s : Statement} (h : Expression ts s)
    (hts : InOrder source ts) : Fills source ts s.span := by
  induction h with
  | operand h =>
    have hp := (Expression.operand h).inExpression _ List.mem_cons_self
    cases h <;>
      exact fills_singleton (hts.marks _ List.mem_cons_self) (Token.isPeriod_of_inExpression hp)
  | @operation ls rs o _ _ _ _ _ _ _ _ ihl ihr =>
    have hls := ihl (hts.mono (List.prefix_append _ _).isInfix)
    have hrs := ihr (hts.mono ⟨ls ++ [o], [], by simp⟩)
    exact hls.join hrs [o] hts

@[simp] theorem Block.span_value (b : Block) : b.value.span = Block.span b := by
  match b with
  | [] => rfl
  | [s] => simp [Block.value, Block.span]
  | s :: s' :: ss => rfl

/-- The block goes from the first to the last of the tokens, and its statements
    stand one after the other. -/
structure Block.Laid (source : Source) (ts : List Token) (b : Block) : Prop where
  spans : ts ≠ [] → Spans source ts (Block.span b)
  strung : Strung source ts (b.map Statement.span)

/-- So it does with one more statement in front of it. -/
theorem Block.Laid.cons {core stop ts : List Token} {s : Statement} {b : Block}
    (hb : Block.Laid source ts b) (hd : Derives ts b) (hs : Fills source core s.span)
    (hstop : OptionalPeriod stop) (h : InOrder source (core ++ (stop ++ ts))) :
    Block.Laid source (core ++ (stop ++ ts)) (s :: b) where
  spans _ := by
    rw [Block.span]
    by_cases hne : ts = []
    · subst hne
      rw [hd.eq_nil, Block.span, Span.merge_empty, List.append_nil]
      exact ⟨core, stop, rfl, hstop, hs⟩
    · obtain ⟨core', stop', rfl, hstop', hcore'⟩ := hb.spans hne
      refine ⟨core ++ (stop ++ core'), stop', by simp, hstop', hs.join hcore' stop (h.mono ?_)⟩
      exact ⟨[], stop', by simp⟩
  strung := .part hs ((strung_nil stop).append hb.strung)

theorem Token.InOrder.fills_keyword {ts : List Token} {k : Token} {word : Keyword}
    (h : InOrder source ts) (hk : k.isKeyword word = true) (hmem : k ∈ ts) :
    Fills source [k] k.span :=
  fills_singleton (h.marks k hmem) (Token.isPeriod_of_isKeyword hk)

theorem Block.Laid.fills_value {vs : List Token} {v : Block} (h : Block.Laid source vs v)
    (hne : vs ≠ []) (hvs : ∀ t ∈ vs, t.isPeriod = false) : Fills source vs v.value.span := by
  rw [Block.span_value]
  exact (h.spans hne).fills hvs

/-- A statement from its keyword to its `END` goes in front of a block. -/
theorem Block.Laid.cons_closed {k e : Token} {stop ts : List Token} {s : Statement} {b : Block}
    (hb : Block.Laid source ts b) (hd : Derives ts b) (hk : Fills source [k] k.span)
    (he : Fills source [e] e.span) (hs : s.span = k.span.merge e.span) (hstop : OptionalPeriod stop)
    (us : List Token)
    (h : InOrder source (k :: (us ++ e :: (stop ++ ts)))) :
    Block.Laid source (k :: (us ++ e :: (stop ++ ts))) (s :: b) := by
  have hfills : Fills source (k :: (us ++ [e])) s.span := by
    rw [hs]
    exact hk.join he us (h.mono ⟨[], stop ++ ts, by simp⟩)
  simpa using hb.cons hd hfills hstop (by simpa using h)

theorem Derives.laid {ts : List Token} {b : Block} (h : Derives ts b)
    (hts : InOrder source ts) : Block.Laid source ts b := by
  induction h with
  | nil => exact ⟨fun hne => absurd rfl hne, .nil⟩
  | expression h =>
    have hs := (h.fills hts).spans
    refine ⟨fun _ => ?_, hs.strung⟩
    rwa [Block.span, Block.span, Span.merge_empty]
  | @display k p vs ts v _ hk hp hvs hne _ hb ihv ih =>
    have hv := (ihv (hts.mono ⟨[k], p :: ts, rfl⟩)).fills_value hne hvs
    have hs : Fills source (k :: vs) (Statement.display k.span v.value).span :=
      (hts.fills_keyword hk (by simp)).join hv [] (hts.mono ⟨[], p :: ts, by simp⟩)
    exact (ih (hts.mono ⟨k :: (vs ++ [p]), [], by simp⟩)).cons hb hs (.present hp) hts
  | @assignment k x w p vs ts v _ hk _ _ hp hvs hne _ hb ihv ih =>
    have hv := (ihv (hts.mono ⟨[k, x, w], p :: ts, rfl⟩)).fills_value hne hvs
    have hs : Fills source (k :: x :: w :: vs) (Statement.assignment k.span x v.value).span :=
      (hts.fills_keyword hk (by simp)).join hv [x, w] (hts.mono ⟨[], p :: ts, by simp⟩)
    exact (ih (hts.mono ⟨k :: x :: w :: (vs ++ [p]), [], by simp⟩)).cons hb hs (.present hp) hts
  | @input k p ts _ hk hp hb ih =>
    have hs : Fills source [k] (Statement.input k.span).span := hts.fills_keyword hk (by simp)
    exact (ih (hts.mono ⟨[k, p], [], by simp⟩)).cons hb hs (.present hp) hts
  | @conditional k w e cs ps stop ts _ _ _ hk _ he hstop _ _ _ _ hb _ _ ih =>
    have hb' := ih (hts.mono ⟨k :: (cs ++ w :: (ps ++ e :: stop)), [], by simp⟩)
    simpa using hb'.cons_closed hb (s := .conditional ..) (hts.fills_keyword hk (by simp))
      (hts.fills_keyword he (by simp)) rfl hstop (cs ++ w :: ps) (by simpa using hts)
  | @alternative k w m e cs ps fs stop ts _ _ _ _ hk _ _ he hstop _ _ _ _ _ hb _ _ _ ih =>
    have hb' := ih (hts.mono ⟨k :: (cs ++ w :: (ps ++ m :: (fs ++ e :: stop))), [], by simp⟩)
    simpa using hb'.cons_closed hb (s := .conditional ..) (hts.fills_keyword hk (by simp))
      (hts.fills_keyword he (by simp)) rfl hstop (cs ++ w :: (ps ++ m :: fs)) (by simpa using hts)
  | @loop k w e cs ps stop ts _ _ _ hk _ he hstop _ _ _ _ hb _ _ ih =>
    have hb' := ih (hts.mono ⟨k :: (cs ++ w :: (ps ++ e :: stop)), [], by simp⟩)
    simpa using hb'.cons_closed hb (s := .loop ..) (hts.fills_keyword hk (by simp))
      (hts.fills_keyword he (by simp)) rfl hstop (cs ++ w :: ps) (by simpa using hts)

/-! ## Statements and their parts -/

/-- The tokens make up the statement, perhaps with a period after it. -/
def Statement.ReadFrom (ts : List Token) (n : Statement) : Prop :=
  ts ≠ [] ∧ ∃ b, Derives ts b ∧ b.value = n

/-- Some of the tokens do, without a gap. -/
def Statement.ReadIn (ts : List Token) (n : Statement) : Prop :=
  ∃ run, run <:+: ts ∧ n.ReadFrom run

/-- What a statement was put together from, in the order in which it was written:
    its keywords, the target of a `SET`, values, conditions and operands, and the
    statements of its bodies. -/
def Statement.parts : Statement → List Span
  | .sequence body => body.map span
  | .literal _ | .identifier _ => []
  | .assignment keyword target value => [keyword, target.span, value.span]
  | .operation lhs _ site rhs => [lhs.span, site, rhs.span]
  | .display keyword value => [keyword, value.span]
  | .input keyword => [keyword]
  | .conditional keyword condition pass fail close =>
    keyword :: condition.span :: (pass.map span ++ ((fail.getD []).map span ++ [close]))
  | .loop keyword condition body close => keyword :: condition.span :: (body.map span ++ [close])

/-- The blocks in the statement. -/
def Statement.bodies : Statement → List Block
  | .sequence body | .loop _ _ body _ => [body]
  | .conditional _ _ pass fail _ => pass :: fail.toList
  | _ => []

theorem Statement.ReadIn.mono {ts us : List Token} {n : Statement} (h : n.ReadIn us)
    (hus : us <:+: ts) : n.ReadIn ts := by
  obtain ⟨run, hrun, hn⟩ := h
  exact ⟨run, hrun.trans hus, hn⟩

theorem Statement.ReadFrom.spans {ts : List Token} {n : Statement} (h : n.ReadFrom ts)
    (hts : InOrder source ts) : Spans source ts n.span := by
  obtain ⟨hne, b, hb, rfl⟩ := h
  rw [Block.span_value]
  exact (hb.laid hts).spans hne

theorem Expression.strung {ts : List Token} {s : Statement} (h : Expression ts s)
    (hts : InOrder source ts) : Strung source ts s.parts := by
  cases h with
  | @operand t _ h =>
    cases h with
    | literal _ | identifier _ => exact strung_nil [t]
    | input h => exact (hts.fills_keyword h List.mem_cons_self).spans.strung
  | @operation ls rs o op l r hl ho hr =>
    have hls := hl.fills (hts.mono (List.prefix_append _ _).isInfix)
    have hrs := hr.fills (hts.mono ⟨ls ++ [o], [], by simp⟩)
    have hop := Token.isPeriod_of_inExpression (t := o) (by simp [Token.inExpression, ho])
    have hos : Fills source [o] o.span := fills_singleton (hts.marks o (by simp)) hop
    exact hls.strung.append (hos.strung.append hrs.strung)

/-- The parts of a statement are stretches of the tokens that it was read from. -/
theorem Statement.ReadFrom.strung {ts : List Token} {n : Statement} (h : n.ReadFrom ts)
    (hts : InOrder source ts) : Strung source ts n.parts := by
  obtain ⟨hne, b, hb, rfl⟩ := h
  match b with
  | [] => exact absurd rfl (hb.ne_nil hne)
  | s :: s' :: ss => exact (hb.laid hts).strung
  | [s] =>
    change Strung source ts s.parts
    -- The condition, if there is one, and the bodies come to spans by themselves.
    have value {us : List Token} {v : Block} (hv : Derives us v) (hne : us ≠ [])
        (hus : us <:+: ts) : Strung source us [v.value.span] :=
      (Statement.ReadFrom.spans ⟨hne, v, hv, rfl⟩ (hts.mono hus)).strung
    have body {us : List Token} {v : Block} (hv : Derives us v) (hus : us <:+: ts) :
        Strung source us (v.map Statement.span) :=
      (hv.laid (hts.mono hus)).strung
    have keyword {k : Token} {word : Keyword} (hk : k.isKeyword word = true) (hmem : k ∈ ts) :
        Strung source [k] [k.span] :=
      (hts.fills_keyword hk hmem).strung
    cases hb with
    | expression h => exact h.strung hts
    | @display k p vs us _ _ hk _ _ hne' hv _ =>
      exact (keyword hk (by simp)).append
        ((value hv hne' ⟨[k], p :: us, rfl⟩).append (strung_nil (p :: us)))
    | @assignment k x w p vs us _ _ hk hx _ _ _ hne' hv _ =>
      have hx' : Fills source [x] x.span :=
        fills_singleton (hts.marks x (by simp)) (Token.isPeriod_of_isIdentifier hx)
      exact (keyword hk (by simp)).append (hx'.strung.append (.skip
        ((value hv hne' ⟨[k, x, w], p :: us, rfl⟩).append (strung_nil (p :: us)))))
    | @input k p us _ hk _ _ => exact (keyword hk (by simp)).append (strung_nil (p :: us))
    | @conditional k w e cs ps stop us _ _ _ hk _ he _ _ hne' hc hp _ =>
      have hend := (keyword he (by simp)).append (strung_nil (stop ++ us))
      have hbody := (body hp ⟨k :: (cs ++ [w]), e :: (stop ++ us), by simp⟩).append hend
      have hcond := value hc hne' ⟨[k], w :: (ps ++ e :: (stop ++ us)), rfl⟩
      exact (keyword hk (by simp)).append (hcond.append (.skip hbody))
    | @alternative k w m e cs ps fs stop us _ _ _ _ hk _ _ he _ _ hne' hc hp hf _ =>
      have hend := (keyword he (by simp)).append (strung_nil (stop ++ us))
      have hfail := (body hf ⟨k :: (cs ++ w :: (ps ++ [m])), e :: (stop ++ us), by simp⟩).append
        hend
      have hpass := (body hp ⟨k :: (cs ++ [w]), m :: (fs ++ e :: (stop ++ us)), by simp⟩).append
        (Strung.skip (t := m) hfail)
      have hcond := value hc hne' ⟨[k], w :: (ps ++ m :: (fs ++ e :: (stop ++ us))), rfl⟩
      exact (keyword hk (by simp)).append (hcond.append (.skip hpass))
    | @loop k w e cs ps stop us _ _ _ hk _ he _ _ hne' hc hp _ =>
      have hend := (keyword he (by simp)).append (strung_nil (stop ++ us))
      have hbody := (body hp ⟨k :: (cs ++ [w]), e :: (stop ++ us), by simp⟩).append hend
      have hcond := value hc hne' ⟨[k], w :: (ps ++ e :: (stop ++ us)), rfl⟩
      exact (keyword hk (by simp)).append (hcond.append (.skip hbody))

/-! ## Programs -/

theorem Expression.readIn {ts : List Token} {s : Statement} (h : Expression ts s) :
    ∀ n ∈ s.nodes, n.ReadIn ts := by
  have whole {us : List Token} {r : Statement} (h : Expression us r) : r.ReadIn us :=
    ⟨us, List.infix_rfl, h.ne_nil, [r], .expression h, rfl⟩
  induction h with
  | operand h =>
    intro n hn
    have hself := whole (.operand h)
    cases h <;>
      · obtain rfl := List.mem_singleton.1 hn
        exact hself
  | @operation ls rs o op l r hl ho hr hle hlt ihl ihr =>
    intro n hn
    simp only [Statement.nodes, List.mem_cons, List.mem_append] at hn
    rcases hn with rfl | hn | hn
    · exact whole (.operation hl ho hr hle hlt)
    · exact (ihl n hn).mono (List.prefix_append _ _).isInfix
    · exact (ihr n hn).mono ⟨ls ++ [o], [], by simp⟩

/-- Each statement of a block was read from some of its tokens, without a gap. -/
theorem Derives.readIn {ts : List Token} {b : Block} (h : Derives ts b) :
    ∀ n ∈ Block.nodes b, n.ReadIn ts := by
  have value {vs : List Token} {v : Block} (hv : Derives vs v) (hne : vs ≠ [])
      (ih : ∀ n ∈ Block.nodes v, n.ReadIn vs) (n : Statement) (hn : n ∈ v.value.nodes) :
      n.ReadIn vs := by
    rcases Block.mem_nodes_value hn with hn | ⟨-, hn⟩
    · exact ih n hn
    · exact ⟨vs, List.infix_rfl, hne, v, hv, hn⟩
  induction h with
  | nil => simp [Block.nodes]
  | expression h =>
    rw [Block.nodes, Block.nodes, List.append_nil]
    exact h.readIn
  | @display k p vs ts _ _ hk hp hvs hne hv _ ihv ih =>
    intro n hn
    simp only [Block.nodes, Statement.nodes, List.mem_cons, List.mem_append] at hn
    rcases hn with (rfl | hn) | hn
    · exact ⟨k :: (vs ++ [p]), ⟨[], ts, by simp⟩, by simp, _, .display hk hp hvs hne hv .nil, rfl⟩
    · exact (value hv hne ihv n hn).mono ⟨[k], p :: ts, rfl⟩
    · exact (ih n hn).mono ⟨k :: (vs ++ [p]), [], by simp⟩
  | @assignment k x w p vs ts _ _ hk hx hw hp hvs hne hv _ ihv ih =>
    intro n hn
    simp only [Block.nodes, Statement.nodes, List.mem_cons, List.mem_append] at hn
    rcases hn with (rfl | hn) | hn
    · exact ⟨k :: x :: w :: (vs ++ [p]), ⟨[], ts, by simp⟩, by simp, _,
        .assignment hk hx hw hp hvs hne hv .nil, rfl⟩
    · exact (value hv hne ihv n hn).mono ⟨[k, x, w], p :: ts, rfl⟩
    · exact (ih n hn).mono ⟨k :: x :: w :: (vs ++ [p]), [], by simp⟩
  | @input k p ts _ hk hp _ ih =>
    intro n hn
    simp only [Block.nodes, Statement.nodes, List.mem_append, List.mem_singleton] at hn
    rcases hn with rfl | hn
    · exact ⟨[k, p], ⟨[], ts, rfl⟩, by simp, _, .input hk hp .nil, rfl⟩
    · exact (ih n hn).mono ⟨[k, p], [], by simp⟩
  | @conditional k w e cs ps stop ts _ _ _ hk hw he hstop hcs hne hc hp _ ihc ihp ih =>
    intro n hn
    simp only [Block.nodes, Block.nodesElse, Statement.nodes, List.mem_cons, List.mem_append,
      List.append_nil] at hn
    rcases hn with (rfl | hn | hn) | hn
    · exact ⟨k :: (cs ++ w :: (ps ++ e :: (stop ++ []))), ⟨[], ts, by simp⟩, by simp, _,
        .conditional hk hw he hstop hcs hne hc hp .nil, rfl⟩
    · exact (value hc hne ihc n hn).mono ⟨[k], w :: (ps ++ e :: (stop ++ ts)), rfl⟩
    · exact (ihp n hn).mono ⟨k :: (cs ++ [w]), e :: (stop ++ ts), by simp⟩
    · exact (ih n hn).mono ⟨k :: (cs ++ w :: (ps ++ e :: stop)), [], by simp⟩
  | @alternative k w m e cs ps fs stop ts _ _ _ _ hk hw hm he hstop hcs hne hc hp hf _
      ihc ihp ihf ih =>
    intro n hn
    simp only [Block.nodes, Block.nodesElse, Statement.nodes, List.mem_cons,
      List.mem_append] at hn
    rcases hn with (rfl | hn | hn | hn) | hn
    · exact ⟨k :: (cs ++ w :: (ps ++ m :: (fs ++ e :: (stop ++ [])))), ⟨[], ts, by simp⟩, by simp,
        _, .alternative hk hw hm he hstop hcs hne hc hp hf .nil, rfl⟩
    · exact (value hc hne ihc n hn).mono ⟨[k], w :: (ps ++ m :: (fs ++ e :: (stop ++ ts))), rfl⟩
    · exact (ihp n hn).mono ⟨k :: (cs ++ [w]), m :: (fs ++ e :: (stop ++ ts)), by simp⟩
    · exact (ihf n hn).mono ⟨k :: (cs ++ w :: (ps ++ [m])), e :: (stop ++ ts), by simp⟩
    · exact (ih n hn).mono ⟨k :: (cs ++ w :: (ps ++ m :: (fs ++ e :: stop))), [], by simp⟩
  | @loop k w e cs ps stop ts _ _ _ hk hw he hstop hcs hne hc hp _ ihc ihp ih =>
    intro n hn
    simp only [Block.nodes, Statement.nodes, List.mem_cons, List.mem_append] at hn
    rcases hn with (rfl | hn | hn) | hn
    · exact ⟨k :: (cs ++ w :: (ps ++ e :: (stop ++ []))), ⟨[], ts, by simp⟩, by simp, _,
        .loop hk hw he hstop hcs hne hc hp .nil, rfl⟩
    · exact (value hc hne ihc n hn).mono ⟨[k], w :: (ps ++ e :: (stop ++ ts)), rfl⟩
    · exact (ihp n hn).mono ⟨k :: (cs ++ [w]), e :: (stop ++ ts), by simp⟩
    · exact (ih n hn).mono ⟨k :: (cs ++ w :: (ps ++ e :: stop)), [], by simp⟩

theorem Block.Sited.span_eq_empty_iff {b : List Statement} (h : Block.Sited source b) :
    Block.span b = .empty ↔ b = [] := by
  refine ⟨fun hspan => by_contra fun hne => ?_, fun hb => by rw [hb, Block.span]⟩
  simpa [hspan, Span.source?] using (h.marks_span hne).source?_eq

theorem Statement.Sited.of_mem_bodies {s : Statement} {b : Block} (h : s.Sited source)
    (hb : b ∈ s.bodies) : Block.Sited source b := by
  cases s with
  | sequence body =>
    obtain rfl := List.mem_singleton.1 hb
    exact h.2
  | conditional keyword condition pass fail close =>
    rcases List.mem_cons.1 hb with rfl | hb
    · exact h.2.2.1
    · obtain rfl := Option.mem_toList.1 hb
      exact h.2.2.2.1
  | loop keyword condition body close =>
    obtain rfl := List.mem_singleton.1 hb
    exact h.2.2.1
  | _ => exact absurd hb List.not_mem_nil

/-- The statement spans the tokens that it was read from, and its parts stand in
    its span one after the other. Only what was written nowhere has no span. -/
structure Statement.Nested (source : Source) (ts : List Token) (n : Statement) : Prop where
  marks : n.span.Marks source
  readIn : n.ReadIn ts
  spans : ∀ run, run <:+: ts → n.ReadFrom run → Spans source run n.span
  within : ∀ p ∈ n.parts, p.Marks source ∧ p.Within n.span
  pairwise : n.parts.Pairwise fun p q => p.stop ≤ q.start
  bodies : ∀ body ∈ n.bodies, Block.span body = .empty ↔ body = []

theorem Statement.ReadIn.nested {ts : List Token} {n : Statement} (h : n.ReadIn ts)
    (hts : InOrder source ts) (hn : n.Sited source) : n.Nested source ts where
  marks := hn.marks_span
  readIn := h
  spans _ hrun hfrom := hfrom.spans (hts.mono hrun)
  within p hp := by
    obtain ⟨run, hrun, hfrom⟩ := h
    obtain ⟨us, hus, hfills⟩ := (hfrom.strung (hts.mono hrun)).exists_of_mem hp
    exact ⟨hfills.marks, (hfrom.spans (hts.mono hrun)).within (hts.mono hrun) hus hfills⟩
  pairwise := by
    obtain ⟨run, hrun, hfrom⟩ := h
    exact (hfrom.strung (hts.mono hrun)).pairwise (hts.mono hrun)
  bodies _ hbody := (hn.of_mem_bodies hbody).span_eq_empty_iff

/-- The spans of a program are nested as its statements are: each goes from the
    first token of its statement to the last one, but for a closing period, and
    the parts stand in it one after the other, as the statements of the program
    do. No statement is without a span, and a block only if it is empty. -/
theorem Source.spans_nested {b : Block} (h : source.parse = .ok b) :
    ∃ ts, source.tokens = .ok ts ∧ Derives ts b ∧
      (∀ n ∈ Block.nodes b, n.Nested source ts) ∧
      (b.map Statement.span).Pairwise (fun p q => p.stop ≤ q.start) ∧
      (Block.span b = .empty ↔ b = []) := by
  obtain ⟨ts, hts, hb, -⟩ := (Source.parse_eq_ok_iff source b).1 h
  have horder : InOrder source ts := ⟨marks_of_tokens hts, pairwise_of_tokens hts⟩
  have hsited := hb.sited horder.marks horder.pairwise
  refine ⟨ts, hts, hb, fun n hn => ?_, ?_, hsited.span_eq_empty_iff⟩
  · exact (hb.readIn n hn).nested horder (hsited.of_mem_nodes hn)
  · exact (hb.laid horder).strung.pairwise horder

/-- A branch without statements, and a loop as the last statement of the other. -/
theorem Source.spans_nested_of_branch :
    ∃ b ts,
      (⟨"main.kode", "if a > 1 then else while b do set c to 2. end. end. input. c", 0⟩ :
        Source).parse = .ok b ∧
      (Block.nodes b).length = 10 ∧
      ∀ n ∈ Block.nodes b, n.Nested
        ⟨"main.kode", "if a > 1 then else while b do set c to 2. end. end. input. c", 0⟩ ts := by
  obtain ⟨b, hb, hlen⟩ := Statement.eq_ok_of_any (show
    (⟨"main.kode", "if a > 1 then else while b do set c to 2. end. end. input. c", 0⟩ :
      Source).parse.toOption.any (fun b => (Block.nodes b).length == 10) = true by decide +kernel)
  obtain ⟨ts, -, -, hnested, -⟩ := Source.spans_nested hb
  exact ⟨b, ts, hb, beq_iff_eq.1 hlen, hnested⟩

end Kode
