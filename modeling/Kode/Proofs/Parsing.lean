import Kode.Proofs.Grammar

/-!
# What the parser accepts

The parser finds the end of a part before it parses the part; the grammar
parses the part to find its end. They agree because every such search passes
over whole parts. A value has no period, and a condition has no `THEN` (or
`DO`), so the first one is the right one. In a body every `IF` and `WHILE`
comes with its own `END`, so counting them leads across any block to the place
behind it (`Derives.neutral`), with every `ELSE` inside a block of its own.

* `Block.ofTokens_eq_ok_iff`: the parser accepts exactly the tokens that the
  grammar derives, with the same tree, if that is not nested too deeply;
* `Derives.unique`: the grammar is unambiguous.
-/

namespace Kode

/-! ## Searching for a token -/

theorem cutAt?_append {p : Token → Bool} {ts us : List Token} {t : Token}
    (hts : ∀ u ∈ ts, p u = false) (ht : p t = true) :
    cutAt? p (ts ++ t :: us) = some ⟨ts, t, us⟩ := by
  induction ts with
  | nil => simp [cutAt?, ht]
  | cons u ts ih =>
    rw [List.forall_mem_cons] at hts
    simp [cutAt?, hts.1, ih hts.2]

/-! ## Searching for the end of a body -/

namespace Body

/-- The body with more tokens in front of the first branch. -/
def prepend (ts : List Token) (b : Body) : Body :=
  { b with pass := ts ++ b.pass }

end Body

/-- The search for the end of a body passes over the tokens and is left with as
    many open blocks as before, provided there are `m` of them. -/
def Neutral (m : Nat) (ts : List Token) : Prop :=
  ∀ rule depth us, m ≤ depth →
    scanBody rule depth (ts ++ us) = (scanBody rule depth us).map (Body.prepend ts)

theorem Except.map_map {ε α β γ : Type} (f : α → β) (g : β → γ) (x : Except ε α) :
    (x.map f).map g = x.map fun a => g (f a) := by
  cases x <;> rfl

namespace Neutral

theorem mono {m n : Nat} {ts : List Token} (h : Neutral m ts) (hmn : m ≤ n) : Neutral n ts :=
  fun rule depth us hd => h rule depth us (Nat.le_trans hmn hd)

theorem nil : Neutral 0 [] := by
  intro rule depth us _
  change scanBody rule depth us = _
  cases scanBody rule depth us <;> rfl

theorem append {m : Nat} {ts us : List Token} (ht : Neutral m ts) (hu : Neutral m us) :
    Neutral m (ts ++ us) := by
  intro rule depth vs hd
  rw [List.append_assoc, ht rule depth _ hd, hu rule depth _ hd, Except.map_map]
  congr 1
  funext b
  simp [Body.prepend]

theorem cons {m : Nat} {t : Token} {ts : List Token} (ht : Neutral m [t]) (h : Neutral m ts) :
    Neutral m (t :: ts) :=
  append ht h

/-- A token that neither opens nor closes anything. -/
theorem token {t : Token} (h : t.keyword? ≠ some .IF ∧ t.keyword? ≠ some .WHILE ∧
    t.keyword? ≠ some .ELSE ∧ t.keyword? ≠ some .END) : Neutral 0 [t] := by
  intro rule depth us _
  change scanBody rule depth (t :: us) = _
  rw [scanBody.eq_def]
  simp_all
  rfl

/-- Inside a block an `ELSE` is a token like any other. -/
theorem elseToken {t : Token} (h : t.isKeyword .ELSE = true) : Neutral 1 [t] := by
  intro rule depth us hd
  obtain ⟨d, rfl⟩ := Nat.exists_eq_add_of_le' hd
  rw [Token.isKeyword_iff] at h
  change scanBody rule (d + 1) (t :: us) = _
  rw [scanBody.eq_def]
  simp [h]
  rfl

/-- A block with its `END`. -/
theorem enclosed {k e : Token} {ts : List Token}
    (hk : k.keyword? = some .IF ∨ k.keyword? = some .WHILE) (h : Neutral 1 ts)
    (he : e.isKeyword .END = true) : Neutral 0 (k :: (ts ++ [e])) := by
  intro rule depth us _
  rw [Token.isKeyword_iff] at he
  -- The `END` leaves as many blocks open as there were in front of the block.
  have hclose : scanBody rule (depth + 1) (e :: us) =
      (scanBody rule depth us).map (Body.prepend [e]) := by
    rw [scanBody.eq_def]
    simp [he]
    rfl
  have hopen : scanBody rule depth (k :: (ts ++ [e] ++ us)) =
      (scanBody rule (depth + 1) (ts ++ e :: us)).map (Body.prepend [k]) := by
    rw [scanBody.eq_def]
    rcases hk with hk | hk <;> simp [hk] <;> rfl
  rw [List.cons_append, hopen, h rule _ _ (Nat.succ_pos depth), hclose, Except.map_map,
    Except.map_map]
  congr 1
  funext b
  simp [Body.prepend]

end Neutral

theorem Token.neutral_of_isKeyword {t : Token} {word : Keyword} (h : t.isKeyword word = true)
    (hw : word ≠ .IF ∧ word ≠ .WHILE ∧ word ≠ .ELSE ∧ word ≠ .END) : Neutral 0 [t] :=
  .token (by rw [Token.isKeyword_iff.1 h]; simp [hw])

theorem Token.neutral_of_isPeriod {t : Token} (h : t.isPeriod = true) : Neutral 0 [t] := by
  exact .token (by simp [Token.keyword?, Token.kind_of_isPeriod h])

theorem Token.neutral_of_isIdentifier {t : Token} (h : t.isIdentifier = true) : Neutral 0 [t] := by
  exact .token (by simp [Token.keyword?, Token.kind_of_isIdentifier h])

theorem OptionalPeriod.neutral {ts : List Token} (h : OptionalPeriod ts) : Neutral 0 ts := by
  cases h with
  | absent => exact .nil
  | present hp => exact Token.neutral_of_isPeriod hp

theorem neutral_of_inExpression {ts : List Token} (h : ∀ t ∈ ts, t.inExpression = true) :
    Neutral 0 ts := by
  induction ts with
  | nil => exact .nil
  | cons t ts ih =>
    rw [List.forall_mem_cons] at h
    refine .cons (.token ?_) (ih h.2)
    rcases Token.keyword?_of_inExpression h.1 with hk | hk <;> simp [hk]

/-- Across any block the search for an `END` finds as many as it finds `IF` and
    `WHILE`, and no `ELSE` outside of these. -/
theorem Derives.neutral {ts : List Token} {b : Block} (h : Derives ts b) : Neutral 0 ts := by
  have inside {us : List Token} (h : Neutral 0 us) : Neutral 1 us := h.mono (Nat.zero_le 1)
  induction h with
  | nil => exact .nil
  | expression h => exact neutral_of_inExpression h.inExpression
  | display hk hp _ _ _ _ ihv ih =>
    exact (Token.neutral_of_isKeyword hk (by simp)).append
      (ihv.append ((Token.neutral_of_isPeriod hp).append ih))
  | assignment hk hx hw hp _ _ _ _ ihv ih =>
    exact (Token.neutral_of_isKeyword hk (by simp)).append
      ((Token.neutral_of_isIdentifier hx).append
        ((Token.neutral_of_isKeyword hw (by simp)).append
          (ihv.append ((Token.neutral_of_isPeriod hp).append ih))))
  | input hk hp _ ih =>
    exact (Token.neutral_of_isKeyword hk (by simp)).append
      ((Token.neutral_of_isPeriod hp).append ih)
  | conditional hk hw he hs _ _ _ _ _ ihc ihp ih =>
    have hin := inside (ihc.append (.cons (Token.neutral_of_isKeyword hw (by simp)) ihp))
    simpa using (Neutral.enclosed (.inl (Token.isKeyword_iff.1 hk)) hin he).append
      (hs.neutral.append ih)
  | alternative hk hw hm he hs _ _ _ _ _ _ ihc ihp ihf ih =>
    -- Where the `ELSE` stands the block of its `IF` is open.
    have hin := (inside (ihc.append (.cons (Token.neutral_of_isKeyword hw (by simp)) ihp))).append
      ((Neutral.elseToken hm).cons (inside ihf))
    simpa using (Neutral.enclosed (.inl (Token.isKeyword_iff.1 hk)) hin he).append
      (hs.neutral.append ih)
  | loop hk hw he hs _ _ _ _ _ ihc ihp ih =>
    have hin := inside (ihc.append (.cons (Token.neutral_of_isKeyword hw (by simp)) ihp))
    simpa using (Neutral.enclosed (.inr (Token.isKeyword_iff.1 hk)) hin he).append
      (hs.neutral.append ih)

/-- The body of a loop, and of a condition without an `ELSE`. -/
theorem Derives.scanBody_close {ts us : List Token} {b : Block} (h : Derives ts b) {e : Token}
    (he : e.isKeyword .END = true) (rule : ElseRule) :
    scanBody rule 0 (ts ++ e :: us) = .ok ⟨ts, none, e, us⟩ := by
  rw [Token.isKeyword_iff] at he
  have hend : scanBody rule 0 (e :: us) = .ok ⟨[], none, e, us⟩ := by
    rw [scanBody.eq_def]
    simp [he]
  rw [h.neutral rule 0 _ (Nat.le_refl 0), hend]
  simp [Except.map, Body.prepend]

/-- The body of a condition with an `ELSE`. -/
theorem Derives.scanBody_else {ts fs us : List Token} {b f : Block} (h : Derives ts b)
    (hf : Derives fs f) {m e : Token} (hm : m.isKeyword .ELSE = true)
    (he : e.isKeyword .END = true) :
    scanBody .expected 0 (ts ++ m :: (fs ++ e :: us)) = .ok ⟨ts, some fs, e, us⟩ := by
  rw [Token.isKeyword_iff] at hm
  have helse : scanBody .expected 0 (m :: (fs ++ e :: us)) =
      (scanBody .refused 0 (fs ++ e :: us)).map Body.otherwise := by
    rw [scanBody.eq_def]
    simp [hm]
  rw [h.neutral .expected 0 _ (Nat.le_refl 0), helse, hf.scanBody_close he]
  simp [Except.map, Body.prepend, Body.otherwise]

/-! ## Statements -/

/-- The parser accepts what the grammar derives, if it is nested less than `n`
    levels deep, and gives it the same tree. -/
def Accepts (n : Nat) (nested : BlockParser) : Prop :=
  ∀ ts b, nested ts = .ok b ↔ Derives ts b ∧ Block.nesting b < n

/-- The statement stands at the front of the tokens and leaves those of `rest`
    to the block after it. -/
structure Heads (n : Nat) (ts : List Token) (s : Statement) (rest : List Token) : Prop where
  derives : ∀ b, Derives rest b → Derives ts (s :: b)
  nesting_le : s.nesting ≤ n

namespace Statement

variable {n : Nat} {nested : BlockParser} (h : Accepts n nested)

include h

theorem parseValue_eq_ok_iff {anchor : Span} {ts : List Token} {v : Statement} :
    parseValue nested anchor ts = .ok v ↔
      ts ≠ [] ∧ ∃ b, Derives ts b ∧ Block.nesting b < n ∧ v = b.value := by
  rw [parseValue]
  cases ts with
  | nil => simp
  | cons t ts =>
    rw [if_neg (by simp)]
    constructor
    · intro hv
      obtain ⟨b, hb, hv⟩ := map_eq_ok hv
      exact ⟨by simp, b, ((h _ _).1 hb).1, ((h _ _).1 hb).2, hv.symm⟩
    · rintro ⟨-, b, hb, hn, rfl⟩
      rw [(h _ _).2 ⟨hb, hn⟩]
      rfl

theorem parseUpToPeriod_eq_ok_iff {opener : Token} {ts rest : List Token} {v : Statement} :
    parseUpToPeriod nested opener ts = .ok (v, rest) ↔
      ∃ vs p b, ts = vs ++ p :: rest ∧ p.isPeriod = true ∧ (∀ t ∈ vs, t.isPeriod = false) ∧
        vs ≠ [] ∧ Derives vs b ∧ Block.nesting b < n ∧ v = b.value := by
  constructor
  · intro hv
    obtain ⟨c, hc, hv⟩ := bind_eq_ok hv
    obtain ⟨w, hw, hv⟩ := bind_eq_ok hv
    obtain ⟨rfl, rfl⟩ := Prod.mk.inj (Except.ok.inj hv)
    obtain ⟨hts, hp, hvs⟩ := cutAt?_eq_some (cutTerminator_eq_ok hc)
    obtain ⟨hne, b, hb, hn, rfl⟩ := (parseValue_eq_ok_iff h).1 hw
    exact ⟨c.before, c.found, b, hts, hp, hvs, hne, hb, hn, rfl⟩
  · rintro ⟨vs, p, b, rfl, hp, hvs, hne, hb, hn, rfl⟩
    have hv : parseValue nested opener.span vs = .ok b.value :=
      (parseValue_eq_ok_iff h).2 ⟨hne, b, hb, hn, rfl⟩
    unfold parseUpToPeriod cutTerminator
    rw [cutAt?_append hvs hp]
    simp [bind, Except.bind, hv, pure, Except.pure]

theorem parseOperand_eq_ok_iff {op : Operator} {site : Span} {ts : List Token} {v : Statement} :
    parseOperand nested op site ts = .ok v ↔
      ts ≠ [] ∧ ∃ b, Derives ts b ∧ Block.nesting b < n ∧ v = b.value := by
  rw [parseOperand]
  cases ts with
  | nil => simp
  | cons t ts =>
    rw [if_neg (by simp)]
    exact parseValue_eq_ok_iff h

/-- One side of an operator is an expression. -/
theorem parseOperand_eq_ok_iff_expression {op : Operator} {site : Span} {ts : List Token}
    {v : Statement} (hts : ∀ t ∈ ts, t.inExpression = true) :
    parseOperand nested op site ts = .ok v ↔ Expression ts v ∧ v.nesting < n := by
  rw [parseOperand_eq_ok_iff h]
  constructor
  · rintro ⟨hne, b, hb, hn, rfl⟩
    obtain ⟨s, rfl, hs⟩ := hb.expression_of_forall hne hts
    rw [← Block.nesting_value] at hn
    exact ⟨hs, hn⟩
  · rintro ⟨hv, hn⟩
    refine ⟨hv.ne_nil, [v], .expression hv, ?_, rfl⟩
    rwa [← Block.nesting_value]

/-- Of two operands or more, an expression is what the operation rule accepts. -/
theorem parseOperation_eq_ok_iff {ts rest : List Token} {s : Statement} :
    parseOperation nested ts = .ok (s, rest) ↔
      rest = [] ∧ Expression ts s ∧ s.nesting ≤ n ∧ Token.operators ts ≠ [] := by
  have hall : (ts.all fun t => t.isOperand || t.operator?.isSome) = true ↔
      ∀ t ∈ ts, t.inExpression = true := List.all_eq_true
  constructor
  · intro hs
    rw [parseOperation] at hs
    split at hs
    · rename_i hin
      rw [hall] at hin
      split at hs
      · exact absurd hs (by simp)
      · rename_i c hc
        obtain ⟨hts, hop⟩ := cutLoosest?_eq_some hc
        obtain ⟨hle, hlt⟩ := cutLoosest?_rank hc
        rw [hts, List.forall_mem_append, List.forall_mem_cons] at hin
        obtain ⟨l, hl, hs⟩ := bind_eq_ok hs
        obtain ⟨r, hr, hs⟩ := bind_eq_ok hs
        obtain ⟨rfl, rfl⟩ := Prod.mk.inj (Except.ok.inj hs)
        obtain ⟨hl, hln⟩ := (parseOperand_eq_ok_iff_expression h hin.1).1 hl
        obtain ⟨hr, hrn⟩ := (parseOperand_eq_ok_iff_expression h hin.2.2).1 hr
        refine ⟨rfl, hts ▸ .operation hl hop hr hle hlt, ?_, ?_⟩
        · rw [Statement.nesting]
          omega
        · simp [hts, Token.operators_cons_of_some hop]
    · exact absurd hs (by simp)
  · rintro ⟨rfl, hs, hn, hops⟩
    have hin := hs.inExpression
    cases hs with
    | operand ho => simp [Token.operators, Token.operator?_of_isOperand ho.isOperand] at hops
    | operation hl ho hr hle hlt =>
      rw [Statement.nesting] at hn
      rw [parseOperation]
      rw [if_pos (hall.2 hin), cutLoosest?_append ho hle hlt]
      rw [List.forall_mem_append, List.forall_mem_cons] at hin
      simp [(parseOperand_eq_ok_iff_expression h hin.1).2 ⟨hl, by omega⟩,
        (parseOperand_eq_ok_iff_expression h hin.2.2).2 ⟨hr, by omega⟩, bind, Except.bind, pure,
        Except.pure]

theorem heads_of_parseDisplay {t : Token} {ts rest : List Token} {s : Statement}
    (ht : t.isKeyword .SHOW = true) (hs : parseDisplay nested t ts = .ok (s, rest)) :
    Heads n (t :: ts) s rest := by
  obtain ⟨⟨v, r⟩, hv, hs⟩ := bind_eq_ok hs
  obtain ⟨rfl, rfl⟩ := Prod.mk.inj (Except.ok.inj hs)
  obtain ⟨vs, p, b, rfl, hp, hvs, hne, hb, hn, rfl⟩ := (parseUpToPeriod_eq_ok_iff h).1 hv
  refine ⟨fun c hc => .display ht hp hvs hne hb hc, ?_⟩
  rw [Statement.nesting, Block.nesting_value]
  omega

theorem heads_of_parseAssignment {t : Token} {ts rest : List Token} {s : Statement}
    (ht : t.isKeyword .SET = true) (hs : parseAssignment nested t ts = .ok (s, rest)) :
    Heads n (t :: ts) s rest := by
  unfold parseAssignment at hs
  split at hs
  · split at hs
    · rename_i x us hx
      split at hs
      · split at hs
        · rename_i w us hw
          obtain ⟨⟨v, r⟩, hv, hs⟩ := bind_eq_ok hs
          obtain ⟨rfl, rfl⟩ := Prod.mk.inj (Except.ok.inj hs)
          obtain ⟨vs, p, b, rfl, hp, hvs, hne, hb, hn, rfl⟩ := (parseUpToPeriod_eq_ok_iff h).1 hv
          refine ⟨fun c hc => .assignment ht hx hw hp hvs hne hb hc, ?_⟩
          rw [Statement.nesting, Block.nesting_value]
          omega
        · exact absurd hs (by simp)
      · exact absurd hs (by simp)
    · exact absurd hs (by simp)
  · exact absurd hs (by simp)

omit h in
/-- An expression ends its block. -/
theorem heads_of_expression {ts : List Token} {s : Statement} (hs : Expression ts s)
    (hn : s.nesting ≤ n) : Heads n ts s [] :=
  ⟨fun b hb => by rw [hb.eq_nil]; exact .expression hs, hn⟩

theorem heads_of_parseOperation {ts rest : List Token} {s : Statement}
    (hs : parseOperation nested ts = .ok (s, rest)) : Heads n ts s rest := by
  obtain ⟨rfl, hs, hn, -⟩ := (parseOperation_eq_ok_iff h).1 hs
  exact heads_of_expression hs hn

theorem heads_of_parseInput {t : Token} {ts rest : List Token} {s : Statement}
    (ht : t.isKeyword .INPUT = true) (hs : parseInput nested t ts = .ok (s, rest)) :
    Heads n (t :: ts) s rest := by
  unfold parseInput at hs
  split at hs
  · obtain ⟨rfl, rfl⟩ := Prod.mk.inj (Except.ok.inj hs)
    exact heads_of_expression (.operand (.input ht)) (Nat.zero_le n)
  · split at hs
    · rename_i hp
      obtain ⟨rfl, rfl⟩ := Prod.mk.inj (Except.ok.inj hs)
      exact ⟨fun b hb => .input ht hp hb, Nat.zero_le n⟩
    · exact heads_of_parseOperation h hs

omit h in
theorem optionalPeriod_dropPeriod (ts : List Token) :
    ∃ stop, OptionalPeriod stop ∧ ts = stop ++ dropPeriod ts := by
  unfold dropPeriod
  split
  · split
    · rename_i t us hp
      exact ⟨[t], .present hp, rfl⟩
    · exact ⟨[], .absent, rfl⟩
  · exact ⟨[], .absent, rfl⟩

theorem heads_of_parseConditional {t : Token} {ts rest : List Token} {s : Statement}
    (ht : t.isKeyword .IF = true) (hs : parseConditional nested t ts = .ok (s, rest)) :
    Heads n (t :: ts) s rest := by
  obtain ⟨c, hc, hs⟩ := bind_eq_ok hs
  obtain ⟨body, hbody, hs⟩ := bind_eq_ok hs
  obtain ⟨v, hv, hs⟩ := bind_eq_ok hs
  obtain ⟨pass, hpass, hs⟩ := bind_eq_ok hs
  obtain ⟨fail, hfail, hs⟩ := bind_eq_ok hs
  obtain ⟨rfl, rfl⟩ := Prod.mk.inj (Except.ok.inj hs)
  obtain ⟨rfl, hw, hcs⟩ := cutAt?_eq_some (cutTerminator_eq_ok hc)
  obtain ⟨hspells, -, hclose⟩ := scanBody_eq_ok (cutBody_eq_ok hbody)
  rw [← Token.isKeyword_iff] at hclose
  obtain ⟨hne, b, hb, hbn, rfl⟩ := (parseValue_eq_ok_iff h).1 hv
  obtain ⟨hp, hpn⟩ := (h _ _).1 hpass
  obtain ⟨stop, hstop, hrest⟩ := optionalPeriod_dropPeriod body.rest
  -- From here on the body is what the search for its `END` says it is.
  generalize c.after = after at hspells
  generalize dropPeriod body.rest = us at hrest
  cases hspells with
  | plain hf =>
    rw [hf] at hfail
    obtain rfl := Except.ok.inj hfail
    refine ⟨fun d hd => ?_, ?_⟩
    · rw [hrest]
      exact .conditional ht hw hclose hstop hcs hne hb hp hd
    · rw [Statement.nesting, Block.nesting_value, Block.nestingElse]
      omega
  | split hf hm =>
    rename_i fs m
    rw [hf, parseElse] at hfail
    obtain ⟨f, hfs, rfl⟩ := map_eq_ok hfail
    obtain ⟨hf', hfn⟩ := (h _ _).1 hfs
    refine ⟨fun d hd => ?_, ?_⟩
    · rw [hrest, List.append_assoc, List.cons_append]
      exact .alternative ht hw (Token.isKeyword_iff.2 hm) hclose hstop hcs hne hb hp hf' hd
    · rw [Statement.nesting, Block.nesting_value, Block.nestingElse]
      omega

theorem heads_of_parseLoop {t : Token} {ts rest : List Token} {s : Statement}
    (ht : t.isKeyword .WHILE = true) (hs : parseLoop nested t ts = .ok (s, rest)) :
    Heads n (t :: ts) s rest := by
  obtain ⟨c, hc, hs⟩ := bind_eq_ok hs
  obtain ⟨body, hbody, hs⟩ := bind_eq_ok hs
  obtain ⟨v, hv, hs⟩ := bind_eq_ok hs
  obtain ⟨pass, hpass, hs⟩ := bind_eq_ok hs
  obtain ⟨rfl, rfl⟩ := Prod.mk.inj (Except.ok.inj hs)
  obtain ⟨rfl, hw, hcs⟩ := cutAt?_eq_some (cutTerminator_eq_ok hc)
  obtain ⟨hspells, hplain, hclose⟩ := scanBody_eq_ok (cutBody_eq_ok hbody)
  rw [← Token.isKeyword_iff] at hclose
  obtain ⟨hne, b, hb, hbn, rfl⟩ := (parseValue_eq_ok_iff h).1 hv
  obtain ⟨hp, hpn⟩ := (h _ _).1 hpass
  obtain ⟨stop, hstop, hrest⟩ := optionalPeriod_dropPeriod body.rest
  generalize c.after = after at hspells
  generalize dropPeriod body.rest = us at hrest
  cases hspells with
  | plain hf =>
    refine ⟨fun d hd => ?_, ?_⟩
    · rw [hrest]
      exact .loop ht hw hclose hstop hcs hne hb hp hd
    · rw [Statement.nesting, Block.nesting_value]
      omega
  | split hf hm =>
    -- A loop refuses an `ELSE`.
    simp [hplain (by simp)] at hf

/-- The statement that is parsed is derived from the tokens that it took. -/
theorem heads_of_parseStatement {t : Token} {ts rest : List Token} {s : Statement}
    (hs : parseStatement nested t ts = .ok (s, rest)) : Heads n (t :: ts) s rest := by
  rw [parseStatement] at hs
  split at hs
  · rename_i hk
    exact heads_of_parseConditional h (Token.isKeyword_iff.2 hk) hs
  · rename_i hk
    exact heads_of_parseLoop h (Token.isKeyword_iff.2 hk) hs
  · rename_i hk
    exact heads_of_parseDisplay h (Token.isKeyword_iff.2 hk) hs
  · rename_i hk
    exact heads_of_parseAssignment h (Token.isKeyword_iff.2 hk) hs
  · rename_i hk
    exact heads_of_parseInput h (Token.isKeyword_iff.2 hk) hs
  · split at hs
    · rename_i hl
      rw [Bool.and_eq_true, List.isEmpty_iff] at hl
      obtain ⟨rfl, rfl⟩ := Prod.mk.inj (Except.ok.inj hs)
      rw [hl.1]
      exact heads_of_expression (.operand (.literal hl.2)) (Nat.zero_le n)
    · split at hs
      · rename_i hl
        rw [Bool.and_eq_true, List.isEmpty_iff] at hl
        obtain ⟨rfl, rfl⟩ := Prod.mk.inj (Except.ok.inj hs)
        rw [hl.1]
        exact heads_of_expression (.operand (.identifier hl.2)) (Nat.zero_le n)
      · exact heads_of_parseOperation h hs

theorem parseStatement_of_expression {t : Token} {ts : List Token} {s : Statement}
    (hs : Expression (t :: ts) s) (hn : s.nesting ≤ n) :
    parseStatement nested t ts = .ok (s, []) := by
  have hin := hs.inExpression
  rw [List.forall_mem_cons] at hin
  -- A single operand has rules of its own.
  by_cases hops : Token.operators (t :: ts) = []
  · obtain ⟨u, hu, ho⟩ := hs.operand_of_operators hops
    obtain ⟨rfl, rfl⟩ := List.cons.inj hu
    cases ho with
    | literal ht =>
      have hk : t.keyword? = none := by
        rw [Token.isLiteral] at ht
        rw [Token.keyword?]
        split at ht <;> simp_all
      simp [parseStatement, hk, ht]
    | identifier ht =>
      simp [parseStatement, Token.keyword?, Token.kind_of_isIdentifier ht, Token.isLiteral, ht]
    | input ht => simp [parseStatement, Token.isKeyword_iff.1 ht, parseInput]
  · have hop : parseOperation nested (t :: ts) = .ok (s, []) :=
      (parseOperation_eq_ok_iff h).2 ⟨rfl, hs, hn, hops⟩
    have hne : ts ≠ [] := by
      rintro rfl
      exact hops (by simp [Token.operators, Token.operator?_of_isOperand (t := t) hs.alternates])
    obtain ⟨u, us, rfl⟩ := List.exists_cons_of_ne_nil hne
    rcases Token.keyword?_of_inExpression hin.1 with hk | hk
    · simp [parseStatement, hk, hop]
    · -- The rule for `INPUT` passes it on, as no period follows.
      have hu := Token.isPeriod_of_inExpression (hin.2 u List.mem_cons_self)
      simp [parseStatement, hk, parseInput, hu, hop]

theorem parseUpToPeriod_append {opener p : Token} {vs ts : List Token} {v : Block}
    (hp : p.isPeriod = true) (hvs : ∀ t ∈ vs, t.isPeriod = false) (hne : vs ≠ [])
    (hv : Derives vs v) (hn : Block.nesting v < n) :
    parseUpToPeriod nested opener (vs ++ p :: ts) = .ok (v.value, ts) :=
  (parseUpToPeriod_eq_ok_iff h).2 ⟨vs, p, v, rfl, hp, hvs, hne, hv, hn, rfl⟩

theorem parseValue_of_derives {anchor : Span} {vs : List Token} {v : Block} (hne : vs ≠ [])
    (hv : Derives vs v) (hn : Block.nesting v < n) :
    parseValue nested anchor vs = .ok v.value :=
  (parseValue_eq_ok_iff h).2 ⟨hne, v, hv, hn, rfl⟩

omit h in
theorem cutCondition_append {word : Keyword} {k w : Token} {cs ts : List Token}
    (hw : w.isKeyword word = true) (hcs : ∀ t ∈ cs, t.isKeyword word = false) :
    cutCondition word k (cs ++ w :: ts) = .ok ⟨cs, w, ts⟩ := by
  rw [cutCondition, cutTerminator, cutAt?_append hcs hw]

omit h in
/-- No statement begins with a period. -/
theorem dropPeriod_append {stop ts : List Token} {b : Block} (hs : OptionalPeriod stop)
    (hb : Derives ts b) : dropPeriod (stop ++ ts) = ts := by
  cases hs with
  | present hp => simp [dropPeriod, hp]
  | absent =>
    cases hb with
    | nil => rfl
    | expression he =>
      obtain ⟨t, us, rfl⟩ := List.exists_cons_of_ne_nil he.ne_nil
      have ht := Token.isPeriod_of_inExpression (he.inExpression t List.mem_cons_self)
      simp [dropPeriod, ht]
    | display hk => simp [dropPeriod, Token.isPeriod_of_isKeyword hk]
    | assignment hk => simp [dropPeriod, Token.isPeriod_of_isKeyword hk]
    | input hk => simp [dropPeriod, Token.isPeriod_of_isKeyword hk]
    | conditional hk => simp [dropPeriod, Token.isPeriod_of_isKeyword hk]
    | alternative hk => simp [dropPeriod, Token.isPeriod_of_isKeyword hk]
    | loop hk => simp [dropPeriod, Token.isPeriod_of_isKeyword hk]

end Statement

namespace Block

variable {n : Nat} {nested : BlockParser} (h : Accepts n nested)

theorem parse_cons_eq (nested : BlockParser) (t : Token) (ts : List Token) :
    parse nested (t :: ts) =
      Statement.parseStatement nested t ts >>= fun p => (parse nested p.2).map (p.1 :: ·) := by
  rw [parse]
  split
  · rename_i e he
    rw [he]
    rfl
  · rename_i s rest hs
    rw [hs]
    rfl

theorem parse_cons {nested : BlockParser} {t : Token} {ts rest : List Token} {s : Statement}
    {b : Block} (hs : Statement.parseStatement nested t ts = .ok (s, rest))
    (hb : parse nested rest = .ok b) : parse nested (t :: ts) = .ok (s :: b) := by
  rw [parse_cons_eq, hs]
  exact congrArg (Except.map (s :: ·)) hb

include h

/-- The parser derives the tree that it returns. -/
theorem derives_of_parse {ts : List Token} {b : Block} (hb : parse nested ts = .ok b) :
    Derives ts b ∧ nesting b ≤ n := by
  fun_induction parse nested ts generalizing b with
  | case1 =>
    obtain rfl := Except.ok.inj hb
    exact ⟨.nil, Nat.zero_le n⟩
  | case2 => exact absurd hb (by simp)
  | case3 t ts s rest hs ih =>
    obtain ⟨c, hc, rfl⟩ := Statement.map_eq_ok hb
    obtain ⟨hd, hn⟩ := ih hc
    have hs := Statement.heads_of_parseStatement h hs
    refine ⟨hs.derives c hd, ?_⟩
    rw [nesting]
    exact Nat.max_le.2 ⟨hs.nesting_le, hn⟩

/-- The parser finds every derivation. -/
theorem parse_of_derives {ts : List Token} {b : Block} (hd : Derives ts b) (hn : nesting b ≤ n) :
    parse nested ts = .ok b := by
  -- Each search of the parser ends where the derivation has the part end.
  induction hd with
  | nil => rw [parse.eq_def]
  | expression he =>
    obtain ⟨t, us, rfl⟩ := List.exists_cons_of_ne_nil he.ne_nil
    rw [nesting, nesting] at hn
    exact parse_cons (Statement.parseStatement_of_expression h he (by omega))
      (by rw [parse.eq_def])
  | display hk hp hvs hne hv _ _ ih =>
    rw [nesting, Statement.nesting, nesting_value] at hn
    refine parse_cons ?_ (ih (by omega))
    simp [Statement.parseStatement, Token.isKeyword_iff.1 hk, Statement.parseDisplay,
      Statement.parseUpToPeriod_append h hp hvs hne hv (by omega), bind, Except.bind, pure,
      Except.pure]
  | assignment hk hx hw hp hvs hne hv _ _ ih =>
    rw [nesting, Statement.nesting, nesting_value] at hn
    refine parse_cons ?_ (ih (by omega))
    simp [Statement.parseStatement, Token.isKeyword_iff.1 hk, Statement.parseAssignment, hx, hw,
      Statement.parseUpToPeriod_append h hp hvs hne hv (by omega), bind, Except.bind, pure,
      Except.pure]
  | input hk hp _ ih =>
    rw [nesting, Statement.nesting] at hn
    refine parse_cons ?_ (ih (by omega))
    simp [Statement.parseStatement, Token.isKeyword_iff.1 hk, Statement.parseInput, hp]
  | conditional hk hw he hs hcs hne hc hpass hd _ _ ih =>
    rw [nesting, Statement.nesting, nesting_value, nestingElse] at hn
    refine parse_cons ?_ (ih (by omega))
    simp [Statement.parseStatement, Token.isKeyword_iff.1 hk, Statement.parseConditional,
      Statement.cutCondition_append hw hcs, Statement.cutBody, hpass.scanBody_close he,
      Statement.parseValue_of_derives h hne hc (by omega), (h _ _).2 ⟨hpass, by omega⟩,
      Statement.parseElse, Statement.dropPeriod_append hs hd, bind, Except.bind, pure, Except.pure]
  | alternative hk hw hm he hs hcs hne hc hpass hfail hd _ _ _ ih =>
    rw [nesting, Statement.nesting, nesting_value, nestingElse] at hn
    refine parse_cons ?_ (ih (by omega))
    simp [Statement.parseStatement, Token.isKeyword_iff.1 hk, Statement.parseConditional,
      Statement.cutCondition_append hw hcs, Statement.cutBody, hpass.scanBody_else hfail hm he,
      Statement.parseValue_of_derives h hne hc (by omega), (h _ _).2 ⟨hpass, by omega⟩,
      (h _ _).2 ⟨hfail, by omega⟩, Statement.parseElse, Statement.dropPeriod_append hs hd,
      Except.map, bind, Except.bind, pure, Except.pure]
  | loop hk hw he hs hcs hne hc hbody hd _ _ ih =>
    rw [nesting, Statement.nesting, nesting_value] at hn
    refine parse_cons ?_ (ih (by omega))
    simp [Statement.parseStatement, Token.isKeyword_iff.1 hk, Statement.parseLoop,
      Statement.cutCondition_append hw hcs, Statement.cutBody, hbody.scanBody_close he,
      Statement.parseValue_of_derives h hne hc (by omega), (h _ _).2 ⟨hbody, by omega⟩,
      Statement.dropPeriod_append hs hd, bind, Except.bind, pure, Except.pure]

theorem accepts_parse : Accepts (n + 1) (parse nested) := fun _ _ =>
  ⟨fun hb => (derives_of_parse h hb).imp_right Nat.lt_succ_of_le,
    fun hb => parse_of_derives h hb.1 (Nat.le_of_lt_succ hb.2)⟩

omit h in
/-- Each level that is left can be nested once. -/
theorem accepts_parseAt : ∀ levels, Accepts (levels + 1) (parseAt levels)
  | 0 => accepts_parse fun ts b => ⟨fun hb => absurd hb (by simp), fun hb => by omega⟩
  | levels + 1 => accepts_parse (accepts_parseAt levels)

omit h in
/-- The parser accepts what the grammar derives, up to its limit. -/
theorem ofTokens_eq_ok_iff {ts : List Token} {b : Block} :
    ofTokens ts = .ok b ↔ Derives ts b ∧ nesting b ≤ maxDepth := by
  rw [ofTokens, accepts_parseAt maxDepth ts b, Nat.lt_succ_iff]

end Block

/-- Tokens have one tree at most. -/
theorem Derives.unique {ts : List Token} {b c : Block} (hb : Derives ts b) (hc : Derives ts c) :
    b = c := by
  -- With enough levels the parser returns both.
  have hmax := Block.accepts_parseAt (max (Block.nesting b) (Block.nesting c)) ts
  have hb := (hmax b).2 ⟨hb, by omega⟩
  have hc := (hmax c).2 ⟨hc, by omega⟩
  exact Except.ok.inj (hb.symm.trans hc)

theorem Source.parse_eq_ok_iff_of_tokens {s : Source} {ts : List Token} {b : Block}
    (h : s.tokens = .ok ts) :
    s.parse = .ok b ↔ Derives ts b ∧ Block.nesting b ≤ Block.maxDepth := by
  rw [← Block.ofTokens_eq_ok_iff, Source.parse, h]
  rfl

/-- A source parses to a tree just if its tokens make up this tree, by the
    rules of the grammar, and it is nested no deeper than the limit. -/
theorem Source.parse_eq_ok_iff (s : Source) (b : Block) :
    s.parse = .ok b ↔
      ∃ ts, s.tokens = .ok ts ∧ Derives ts b ∧ Block.nesting b ≤ Block.maxDepth := by
  constructor
  · intro hb
    obtain ⟨ts, hts, -⟩ := Statement.bind_eq_ok hb
    exact ⟨ts, hts, (parse_eq_ok_iff_of_tokens hts).1 hb⟩
  · rintro ⟨ts, hts, hb⟩
    exact (parse_eq_ok_iff_of_tokens hts).2 hb

end Kode
