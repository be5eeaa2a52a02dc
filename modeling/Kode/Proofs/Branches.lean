import Kode.Proofs.Bodies
import Kode.Proofs.Provenance

/-!
# Branches

Every `ELSE` of a program parts the branches of the innermost block that is open where
it stands, and this block is a condition (`PartsInnermost`). For the parts of a statement
leave the same blocks open that they find (`Derives.openers_eq`), so between an `IF` and
its `ELSE` no other block is opened for good; and an `ELSE` inside of a part concerns
this part only, whatever is around it (`AllPart.extend`).

* `Derives.allPart`: so it is with every `ELSE` of a program;
* `Statement.bodies_end_and_part`: where bodies end and are parted.
-/

namespace Kode

/-! ## Open blocks -/

/-- The keywords that the open blocks begin with, the innermost first, behind the token. -/
def Token.openers (ks : List Token) (t : Token) : List Token :=
  match t.keyword? with
  | some .IF | some .WHILE => t :: ks
  | some .END => ks.tail
  | _ => ks

/-- The same behind the tokens, if those blocks are open in front of them. -/
def openers (ks ts : List Token) : List Token :=
  ts.foldl Token.openers ks

/-- An `ELSE` between the tokens parts the branches of the innermost block that is open
    there. This is a condition of the program: it begins with the `IF` of the block, its
    branches were read from the tokens directly before the `ELSE` and behind it, and it
    ends with the `END` behind these. -/
inductive PartsInnermost (b : Block) : (before after : List Token) → Prop
  | branches {k w e : Token} {outer cs ps fs rest : List Token} {c pass fail : Block} :
      k.isKeyword .IF = true → w.isKeyword .THEN = true → e.isKeyword .END = true →
      (openers [] (outer ++ k :: (cs ++ w :: ps))).head? = some k →
      Derives cs c → Derives ps pass → Derives fs fail →
      .conditional k.span c.value pass (some fail) e.span ∈ Block.nodes b →
      PartsInnermost b (outer ++ k :: (cs ++ w :: ps)) (fs ++ e :: rest)

section Openers

variable {t : Token} {ks : List Token}

theorem openers_append (ks ts us : List Token) :
    openers ks (ts ++ us) = openers (openers ks ts) us :=
  List.foldl_append

@[simp] theorem openers_nil (ks : List Token) : openers ks [] = ks := rfl

theorem openers_cons (ks : List Token) (t : Token) (ts : List Token) :
    openers ks (t :: ts) = openers (t.openers ks) ts := rfl

theorem Token.openers_of_opens (h : t.isKeyword .IF = true ∨ t.isKeyword .WHILE = true) :
    t.openers ks = t :: ks := by
  rcases h with h | h <;> simp [Token.openers, Token.isKeyword_iff.1 h]

theorem Token.openers_of_closes (h : t.isKeyword .END = true) : t.openers ks = ks.tail := by
  simp [Token.openers, Token.isKeyword_iff.1 h]

theorem Token.openers_of_keyword {word : Keyword} (h : t.isKeyword word = true)
    (hw : word ≠ .IF ∧ word ≠ .WHILE ∧ word ≠ .END) : t.openers ks = ks := by
  cases word <;> simp_all [Token.openers, Token.isKeyword_iff]

theorem Token.openers_of_none (h : t.keyword? = none) : t.openers ks = ks := by
  simp [Token.openers, h]

/-- What is open in front of the tokens remains open behind them, but for the innermost
    blocks that they close. -/
theorem exists_openers_eq (ks ts : List Token) :
    ∃ n, openers ks ts = openers [] ts ++ ks.drop n := by
  induction ts using List.reverseRecOn with
  | nil => exact ⟨0, rfl⟩
  | append_singleton ts t ih =>
    obtain ⟨n, ih⟩ := ih
    rw [openers_append, openers_append, ih, openers_cons, openers_cons, openers_nil, openers_nil]
    simp only [Token.openers]
    split
    · exact ⟨n, rfl⟩
    · exact ⟨n, rfl⟩
    · cases openers [] ts with
      | nil => exact ⟨n + 1, by simp⟩
      | cons k ks' => exact ⟨n, rfl⟩
    · exact ⟨n, rfl⟩

end Openers

theorem openers_of_inExpression {ks ts : List Token} (h : ∀ t ∈ ts, t.inExpression = true) :
    openers ks ts = ks := by
  induction ts with
  | nil => rfl
  | cons t ts ih =>
    rw [List.forall_mem_cons] at h
    rw [openers_cons, Token.openers]
    rcases Token.keyword?_of_inExpression h.1 with hk | hk <;> simpa [hk] using ih h.2

theorem OptionalPeriod.openers_eq {ts ks : List Token} (h : OptionalPeriod ts) :
    openers ks ts = ks := by
  cases h with
  | absent => rfl
  | present hp => simp [openers_cons, Token.openers, Token.keyword?, Token.kind_of_isPeriod hp]

/-- Behind a block the same blocks are open as in front of it. -/
theorem Derives.openers_eq {ts : List Token} {b : Block} (h : Derives ts b) (ks : List Token) :
    openers ks ts = ks := by
  have period {p : Token} (hp : p.isPeriod = true) (ks : List Token) : p.openers ks = ks :=
    Token.openers_of_none (by simp [Token.keyword?, Token.kind_of_isPeriod hp])
  induction h generalizing ks with
  | nil => rfl
  | expression h => exact openers_of_inExpression h.inExpression
  | display hk hp _ _ _ _ ihv ih =>
    rw [openers_cons, Token.openers_of_keyword hk (by simp), openers_append, ihv, openers_cons,
      period hp, ih]
  | assignment hk hx hw hp _ _ _ _ ihv ih =>
    rw [openers_cons, Token.openers_of_keyword hk (by simp), openers_cons,
      Token.openers_of_none (by simp [Token.keyword?, Token.kind_of_isIdentifier hx]),
      openers_cons, Token.openers_of_keyword hw (by simp), openers_append, ihv, openers_cons,
      period hp, ih]
  | input hk hp _ ih =>
    rw [openers_cons, Token.openers_of_keyword hk (by simp), openers_cons, period hp, ih]
  | conditional hk hw he hs _ _ _ _ _ ihc ihp ih =>
    rw [openers_cons, Token.openers_of_opens (.inl hk), openers_append, ihc, openers_cons,
      Token.openers_of_keyword hw (by simp), openers_append, ihp, openers_cons,
      Token.openers_of_closes he, List.tail_cons, openers_append, hs.openers_eq, ih]
  | alternative hk hw hm he hs _ _ _ _ _ _ ihc ihp ihf ih =>
    rw [openers_cons, Token.openers_of_opens (.inl hk), openers_append, ihc, openers_cons,
      Token.openers_of_keyword hw (by simp), openers_append, ihp, openers_cons,
      Token.openers_of_keyword hm (by simp), openers_append, ihf, openers_cons,
      Token.openers_of_closes he, List.tail_cons, openers_append, hs.openers_eq, ih]
  | loop hk hw he hs _ _ _ _ _ ihc ihp ih =>
    rw [openers_cons, Token.openers_of_opens (.inr hk), openers_append, ihc, openers_cons,
      Token.openers_of_keyword hw (by simp), openers_append, ihp, openers_cons,
      Token.openers_of_closes he, List.tail_cons, openers_append, hs.openers_eq, ih]

/-! ## Every `ELSE` of a program -/

/-- A longer program with the same condition, and with more around it. -/
theorem PartsInnermost.extend {b b' : Block} {before after : List Token}
    (h : PartsInnermost b before after) (hb : ∀ n ∈ Block.nodes b, n ∈ Block.nodes b')
    (left right : List Token) : PartsInnermost b' (left ++ before) (after ++ right) := by
  cases h with
  | @branches k w e outer cs ps fs rest c pass fail hk hw he hopen hc hp hf hmem =>
    have hopen' : (openers [] (left ++ outer ++ k :: (cs ++ w :: ps))).head? = some k := by
      obtain ⟨n, hn⟩ := exists_openers_eq (openers [] left) (outer ++ k :: (cs ++ w :: ps))
      rw [List.append_assoc, openers_append, hn, List.head?_append, hopen, Option.some_or]
    have hparts : PartsInnermost b' (left ++ outer ++ k :: (cs ++ w :: ps))
        (fs ++ e :: (rest ++ right)) := .branches hk hw he hopen' hc hp hf (hb _ hmem)
    simpa using hparts

/-- Every `ELSE` among the tokens `ts`, which stand between `left` and `right` in a
    program, parts the branches of the innermost block. -/
def AllPart (b : Block) (left ts right : List Token) : Prop :=
  ∀ before m after, ts = before ++ m :: after → m.isKeyword .ELSE = true →
    PartsInnermost b (left ++ before) (after ++ right)

namespace AllPart

variable {b b' : Block} {left right ts us : List Token} {t : Token}

theorem extend (h : AllPart b [] ts []) (hb : ∀ n ∈ Block.nodes b, n ∈ Block.nodes b') :
    AllPart b' left ts right := by
  intro before m after hts hm
  simpa using (h before m after hts hm).extend hb left right

theorem of_forall (h : ∀ t ∈ ts, t.isKeyword .ELSE = false) : AllPart b left ts right := by
  rintro before m after rfl hm
  simp [h m (by simp)] at hm

theorem append (ht : AllPart b left ts (us ++ right)) (hu : AllPart b (left ++ ts) us right) :
    AllPart b left (ts ++ us) right := by
  intro before m after h hm
  rcases List.append_eq_append_iff.1 h with ⟨mid, rfl, hmid⟩ | ⟨mid, rfl, hmid⟩
  · simpa using hu mid m after hmid hm
  · cases mid with
    | nil => simpa using hu [] m after hmid.symm hm
    | cons x mid =>
      obtain ⟨rfl, rfl⟩ := List.cons.inj hmid
      simpa using ht before m mid rfl hm

theorem cons (ht : t.isKeyword .ELSE = false) (h : AllPart b (left ++ [t]) ts right) :
    AllPart b left (t :: ts) right :=
  have htoken : AllPart b left [t] (ts ++ right) := of_forall (by simpa using ht)
  htoken.append h

theorem cons_else (ht : PartsInnermost b left (ts ++ right))
    (h : AllPart b (left ++ [t]) ts right) : AllPart b left (t :: ts) right := by
  intro before m after hts hm
  cases before with
  | nil =>
    obtain ⟨rfl, rfl⟩ := List.cons.inj hts
    simpa using ht
  | cons x before =>
    obtain ⟨rfl, rfl⟩ := List.cons.inj hts
    simpa using h before m after rfl hm

end AllPart

theorem Token.not_else_of_isKeyword {t : Token} {word : Keyword} (h : t.isKeyword word = true)
    (hw : word ≠ .ELSE) : t.isKeyword .ELSE = false := by
  simp [Token.isKeyword, Token.isKeyword_iff.1 h, hw]

theorem Token.not_else_of_inExpression {t : Token} (h : t.inExpression = true) :
    t.isKeyword .ELSE = false := by
  rcases Token.keyword?_of_inExpression h with hk | hk <;> simp [Token.isKeyword, hk]

theorem OptionalPeriod.not_else {ts : List Token} (h : OptionalPeriod ts) :
    ∀ t ∈ ts, t.isKeyword .ELSE = false := by
  cases h with
  | absent => simp
  | present hp => simpa using Token.isKeyword_eq_false_of_isPeriod hp .ELSE

theorem Block.mem_value_nodes {b : Block} {n : Statement} (h : n ∈ Block.nodes b) :
    n ∈ b.value.nodes := by
  match b with
  | [s] => simpa [Block.nodes, Block.value] using h
  | [] | s :: s' :: ss => exact List.mem_cons_of_mem _ h

/-- Every `ELSE` of a program parts the branches of the innermost block. -/
theorem Derives.allPart {ts : List Token} {b : Block} (h : Derives ts b) : AllPart b [] ts [] := by
  have keyword {t : Token} {word : Keyword} (h : t.isKeyword word = true)
      (hw : word ≠ .ELSE := by simp) : t.isKeyword .ELSE = false :=
    Token.not_else_of_isKeyword h hw
  have period {t : Token} (h : t.isPeriod = true) : t.isKeyword .ELSE = false :=
    Token.isKeyword_eq_false_of_isPeriod h .ELSE
  -- Each part of a statement stands in the context of what is around it.
  induction h with
  | nil => exact .of_forall (by simp)
  | expression h =>
    exact .of_forall fun t ht => Token.not_else_of_inExpression (h.inExpression t ht)
  | display hk hp _ _ _ _ ihv ih =>
    refine .cons (keyword hk) (.append (ihv.extend fun n hn => ?_)
      (.cons (period hp) (ih.extend fun n hn => ?_)))
    · simp [Block.nodes, Statement.nodes, Block.mem_value_nodes hn]
    · simp [Block.nodes, hn]
  | @assignment k x w p _ _ _ _ hk hx hw hp _ _ _ _ ihv ih =>
    have hx' : x.isKeyword .ELSE = false := by
      simp [Token.isKeyword, Token.keyword?, Token.kind_of_isIdentifier hx]
    refine .cons (keyword hk) (.cons hx' (.cons (keyword hw) (.append (ihv.extend fun n hn => ?_)
      (.cons (period hp) (ih.extend fun n hn => ?_)))))
    · simp [Block.nodes, Statement.nodes, Block.mem_value_nodes hn]
    · simp [Block.nodes, hn]
  | input hk hp _ ih =>
    refine .cons (keyword hk) (.cons (period hp) (ih.extend fun n hn => ?_))
    simp [Block.nodes, hn]
  | conditional hk hw he hs _ _ _ _ _ ihc ihp ih =>
    refine .cons (keyword hk) (.append (ihc.extend fun n hn => ?_) (.cons (keyword hw)
      (.append (ihp.extend fun n hn => ?_) (.cons (keyword he)
        (.append (.of_forall hs.not_else) (ih.extend fun n hn => ?_))))))
    · simp [Block.nodes, Statement.nodes, Block.mem_value_nodes hn]
    · simp [Block.nodes, Statement.nodes, hn]
    · simp [Block.nodes, hn]
  | @alternative k w m e cs ps fs stop ts c pass fail b hk hw hm he hs _ _ hc hp hf _
      ihc ihp ihf ih =>
    have hopen : (openers [] ([] ++ k :: (cs ++ w :: ps))).head? = some k := by
      rw [List.nil_append, openers_cons, Token.openers_of_opens (.inl hk), openers_append,
        hc.openers_eq, openers_cons, Token.openers_of_keyword hw (by simp), hp.openers_eq]
      rfl
    have hpart : PartsInnermost (.conditional k.span c.value pass (some fail) e.span :: b)
        ([] ++ k :: (cs ++ w :: ps)) (fs ++ e :: (stop ++ ts)) :=
      .branches hk hw he hopen hc hp hf (by simp [Block.nodes, Statement.nodes])
    refine .cons (keyword hk) (.append (ihc.extend fun n hn => ?_) (.cons (keyword hw)
      (.append (ihp.extend fun n hn => ?_) (.cons_else (by simpa using hpart)
        (.append (ihf.extend fun n hn => ?_) (.cons (keyword he)
          (.append (.of_forall hs.not_else) (ih.extend fun n hn => ?_))))))))
    · simp [Block.nodes, Statement.nodes, Block.mem_value_nodes hn]
    · simp [Block.nodes, Statement.nodes, hn]
    · simp [Block.nodes, Statement.nodes, Block.nodesElse, hn]
    · simp [Block.nodes, hn]
  | loop hk hw he hs _ _ _ _ _ ihc ihp ih =>
    refine .cons (keyword hk) (.append (ihc.extend fun n hn => ?_) (.cons (keyword hw)
      (.append (ihp.extend fun n hn => ?_) (.cons (keyword he)
        (.append (.of_forall hs.not_else) (ih.extend fun n hn => ?_))))))
    · simp [Block.nodes, Statement.nodes, Block.mem_value_nodes hn]
    · simp [Block.nodes, Statement.nodes, hn]
    · simp [Block.nodes, hn]

/-- The search for the end of a body, with an `ELSE` expected or not, comes to the first
    `END` behind which no block is open, and to the only `ELSE` in no inner block. It
    fails at a second such `ELSE`, if it comes to one, and else if there is no such `END`.
    So every `ELSE` of a program parts the branches of the innermost block that is open
    where it stands, and this block is a condition. -/
theorem Statement.bodies_end_and_part :
    (∀ rule all ts,
      (∀ b, cutBody rule all ts = .ok b ↔ b.ReadFrom rule 1 ts) ∧
      ((∃ b, cutBody rule all ts = .ok b) ↔
        (∃ n, ClosesAt 1 ts n) ∧ ∀ n, ¬ ExceedsAt rule 1 ts n) ∧
      ∀ e, cutBody rule all ts = .error e ↔
        (∃ n t, ExceedsAt rule 1 ts n ∧ ts[n]? = some t ∧ e = ⟨.duplicateElse, t.span⟩) ∨
        (∀ n, ¬ ExceedsAt rule 1 ts n) ∧ (∀ n, ¬ ClosesAt 1 ts n) ∧
          e = ⟨.unclosedBlock, Token.spanOf all⟩) ∧
    ∀ source b, Source.parse source = .ok b →
      ∃ ts, source.tokens = .ok ts ∧
        ∀ before m after, ts = before ++ m :: after → m.isKeyword .ELSE = true →
          PartsInnermost b before after := by
  refine ⟨fun rule all ts => ?_, fun source b hb => ?_⟩
  · have hok (b : Body) : cutBody rule all ts = .ok b ↔ b.ReadFrom rule 1 ts :=
      ⟨fun h => scanBody_eq_ok_iff.1 (cutBody_eq_ok h), fun h => by
        have hscan : scanBody rule 0 ts = .ok b := scanBody_eq_ok_iff.2 h
        rw [cutBody, hscan]⟩
    refine ⟨hok, ⟨?_, ?_⟩, fun e => ⟨fun he => ?_, ?_⟩⟩
    · rintro ⟨b, hb⟩
      exact ⟨((hok b).1 hb).exists_closesAt, ((hok b).1 hb).not_exceedsAt⟩
    · rintro ⟨⟨n, hn⟩, hexceed⟩
      cases hscan : scanBody rule 0 ts with
      | ok b => exact ⟨b, (hok b).2 (scanBody_eq_ok_iff.1 hscan)⟩
      | error fault =>
        cases fault with
        | unclosed => exact absurd hn ((scanBody_eq_unclosed_iff.1 hscan).1 n)
        | duplicateElse t =>
          obtain ⟨k, hk, -⟩ := scanBody_eq_duplicateElse_iff.1 hscan
          exact absurd hk (hexceed k)
    · unfold cutBody at he
      split at he
      · simp at he
      · rename_i hscan
        obtain ⟨hclose, hexceed⟩ := scanBody_eq_unclosed_iff.1 hscan
        exact .inr ⟨hexceed, hclose, (Except.error.inj he).symm⟩
      · rename_i t hscan
        obtain ⟨n, hn, ht⟩ := scanBody_eq_duplicateElse_iff.1 hscan
        exact .inl ⟨n, t, hn, ht, (Except.error.inj he).symm⟩
    · rintro (⟨n, t, hn, ht, rfl⟩ | ⟨hexceed, hclose, rfl⟩)
      · have hscan : scanBody rule 0 ts = .error (.duplicateElse t) :=
          scanBody_eq_duplicateElse_iff.2 ⟨n, hn, ht⟩
        rw [cutBody, hscan]
      · have hscan : scanBody rule 0 ts = .error .unclosed :=
          scanBody_eq_unclosed_iff.2 ⟨hclose, hexceed⟩
        rw [cutBody, hscan]
  · obtain ⟨ts, hts, hd, -⟩ := (Source.parse_eq_ok_iff source b).1 hb
    exact ⟨ts, hts, fun before m after h hm => by simpa using hd.allPart before m after h hm⟩

/-- The second of two `ELSE`, behind a condition that has the first one. -/
theorem Statement.bodies_end_and_part_of_inner :
    let source : Source :=
      ⟨"main.kode", "if a then if b then show 1. else show 2. end. else while c do end. end.", 0⟩
    ∃ (b : Block) (ts : List Token) (m : Token), source.parse = .ok b ∧ ts[15]? = some m ∧
      m.isKeyword .ELSE = true ∧ PartsInnermost b (ts.take 15) (ts.drop 16) := by
  intro source
  obtain ⟨-, hparts⟩ := Statement.bodies_end_and_part
  obtain ⟨b, hb, -⟩ := Statement.eq_ok_of_any (p := fun _ => true)
    (show source.parse.toOption.any _ = true by decide +kernel)
  obtain ⟨ts, hts, hparts⟩ := hparts source b hb
  obtain ⟨ts', hts', helse⟩ := Statement.eq_ok_of_any (show source.tokens.toOption.any
    (fun ts => ts[15]?.any (Token.isKeyword .ELSE)) = true by decide +kernel)
  obtain rfl : ts = ts' := Except.ok.inj (hts.symm.trans hts')
  obtain ⟨m, hm, helse⟩ := (Option.any_eq_true _ _).1 helse
  refine ⟨b, ts, m, hb, hm, helse, hparts _ m _ ?_ helse⟩
  obtain ⟨hlt, rfl⟩ := List.getElem?_eq_some_iff.1 hm
  rw [← List.drop_eq_getElem_cons hlt, List.take_append_drop]

end Kode
