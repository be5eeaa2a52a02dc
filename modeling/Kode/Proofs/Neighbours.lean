import Kode.Proofs.Printing

/-!
# Neighbours

Two words of an operator that stand side by side are read as this operator, even
where each of them was meant by itself (`Token.Phrase`). In a program two names
never stand side by side, and `TO` stands only behind the name that is assigned
to. So there is a single danger, a name that makes an operator together with
`TO`.

* `Derives.isChain_iff`: it shows in the names that the program assigns to,
  whatever else there is and however the program is laid out;
* `Derives.isIdentifier_of_mem_targets`: these are names, indeed.
-/

namespace Kode

mutual

/-- The names that the statement assigns to. -/
def Statement.targets : Statement → List Token
  | .sequence body => Block.targets body
  | .literal _ | .identifier _ | .input _ => []
  | .operation lhs _ _ rhs => lhs.targets ++ rhs.targets
  | .assignment _ target value => target :: value.targets
  | .display _ value => value.targets
  | .conditional _ condition pass fail _ =>
    condition.targets ++ (Block.targets pass ++ Block.targetsElse fail)
  | .loop _ condition body _ => condition.targets ++ Block.targets body

/-- The names that the statements assign to. -/
def Block.targets : List Statement → List Token
  | [] => []
  | s :: ss => s.targets ++ Block.targets ss

/-- The same for what follows an `ELSE`, if there is one. -/
def Block.targetsElse : Option (List Statement) → List Token
  | none => []
  | some body => Block.targets body

end

@[simp] theorem Block.targets_value (b : Block) : b.value.targets = Block.targets b := by
  match b with
  | [] => rfl
  | [s] => simp [Block.value, Block.targets]
  | s :: s' :: ss => rfl

mutual

theorem Statement.targets_bare (s : Statement) : s.bare.targets = s.targets.map Token.bare := by
  match s with
  | .sequence body => exact Block.targets_bare body
  | .literal _ | .identifier _ | .input _ => rfl
  | .assignment _ _ value =>
    simp only [Statement.bare, Statement.targets, value.targets_bare, List.map_cons]
  | .operation lhs _ _ rhs =>
    simp only [Statement.bare, Statement.targets, lhs.targets_bare, rhs.targets_bare,
      List.map_append]
  | .display _ value => simp only [Statement.bare, Statement.targets, value.targets_bare]
  | .conditional _ condition pass fail _ =>
    simp only [Statement.bare, Statement.targets, condition.targets_bare, Block.targets_bare pass,
      Block.targetsElse_bare fail, List.map_append]
  | .loop _ condition body _ =>
    simp only [Statement.bare, Statement.targets, condition.targets_bare, Block.targets_bare body,
      List.map_append]

theorem Block.targets_bare (b : List Statement) :
    Block.targets (Block.bare b) = (Block.targets b).map Token.bare := by
  match b with
  | [] => rfl
  | s :: ss =>
    simp only [Block.bare, Block.targets, s.targets_bare, Block.targets_bare ss, List.map_append]

theorem Block.targetsElse_bare (b : Option (List Statement)) :
    Block.targetsElse (Block.bareElse b) = (Block.targetsElse b).map Token.bare := by
  match b with
  | none => rfl
  | some body => exact Block.targets_bare body

end

/-! ## Side by side -/

/-- In a program no name can stand before this token to make an operator. -/
theorem Token.isChain_cons {k : Token} (hk : k.isIdentifier = false) (ts : List Token) :
    ((k :: ts).IsChain fun t u => ¬ t.Phrase u) ↔ ts.IsChain fun t u => ¬ t.Phrase u := by
  rw [List.isChain_cons]
  refine ⟨fun h => h.2, fun h => ⟨fun u _ hp => ?_, h⟩⟩
  rw [hp.1] at hk
  simp at hk

/-- A token that is neither a name nor a `TO` separates what is on its sides. -/
theorem Token.isChain_append_cons {p : Token} (hp : p.isIdentifier = false)
    (hto : p.isKeyword .TO = false) (ts us : List Token) :
    ((ts ++ p :: us).IsChain fun t u => ¬ t.Phrase u) ↔
      (ts.IsChain fun t u => ¬ t.Phrase u) ∧ us.IsChain fun t u => ¬ t.Phrase u := by
  rw [List.isChain_append, isChain_cons hp]
  refine ⟨fun h => ⟨h.1, h.2.1⟩, fun h => ⟨h.1, h.2, fun t _ u hu hphrase => ?_⟩⟩
  obtain rfl := Option.some.inj hu
  -- It would have to be the second word.
  rcases hphrase.2.1 with hk | hk
  · simp [hto] at hk
  · simp [hp] at hk

/-- A keyword is spelled by its word, in some letter case. -/
theorem Token.Spelled.toUpper_text {t : Token} {word : Keyword} (h : t.Spelled)
    (ht : t.isKeyword word = true) : t.text.toUpper = word.word := by
  obtain ⟨l, taken, hr, htexts⟩ := h
  rw [Token.kind_of_isKeyword ht] at hr
  generalize hn : taken.length = n at hr
  cases hr with
  | keyword _ _ _ hword =>
    obtain rfl := List.length_eq_zero_iff.1 hn
    have hl : l.text.toList = t.text.toList := by
      rw [← Lexeme.flatten_groups t.text.toList, ← htexts]
      simp [Lexeme.texts]
    rw [← String.toList_injective hl]
    exact Keyword.toUpper_of_ofWord? hword

theorem Token.phrase_iff_ofKeyword {x w : Token} (h : w.Spelled) (hw : w.isKeyword .TO = true) :
    x.Phrase w ↔ x.Phrase (ofKeyword .TO) := by
  have hop : Operator.ofPhrase? x.text w.text = Operator.ofPhrase? x.text "TO" := by
    have hto : "TO".toUpper = Keyword.TO.word := by decide +kernel
    rw [Operator.ofPhrase?, Operator.ofPhrase?, h.toUpper_text hw, hto]
  exact ⟨fun hp => ⟨hp.1, .inl (isKeyword_ofKeyword .TO), hop ▸ hp.2.2⟩,
    fun hp => ⟨hp.1, .inl hw, hop ▸ hp.2.2⟩⟩

theorem Token.isIdentifier_of_isKeyword {t : Token} {word : Keyword} (h : t.isKeyword word = true) :
    t.isIdentifier = false := by
  simp [isIdentifier, kind_of_isKeyword h]

theorem Token.isKeyword_of_ne {t : Token} {word word' : Keyword} (h : t.isKeyword word = true)
    (hne : word ≠ word') : t.isKeyword word' = false := by
  simp [isKeyword, isKeyword_iff.1 h, hne]

theorem Token.isIdentifier_of_isPeriod {t : Token} (h : t.isPeriod = true) :
    t.isIdentifier = false := by
  simp [isIdentifier, kind_of_isPeriod h]

theorem Token.isIdentifier_of_operator? {t : Token} {op : Operator} (h : t.operator? = some op) :
    t.isIdentifier = false := by
  cases hx : t.isIdentifier with
  | false => rfl
  | true => simp [operator?_of_isOperand (t := t) (by simp [isOperand, hx])] at h

theorem Token.isKeyword_of_operator? {t : Token} {op : Operator} (h : t.operator? = some op)
    (word : Keyword) : t.isKeyword word = false := by
  cases hk : t.isKeyword word with
  | false => rfl
  | true => simp [operator?, kind_of_isKeyword hk] at h

theorem Expression.targets_eq {ts : List Token} {s : Statement} (h : Expression ts s) :
    s.targets = [] := by
  induction h with
  | operand h => cases h <;> rfl
  | operation _ _ _ _ _ ihl ihr => rw [Statement.targets, ihl, ihr, List.append_nil]

theorem Expression.isChain {ts : List Token} {s : Statement} (h : Expression ts s) :
    ts.IsChain fun t u => ¬ t.Phrase u := by
  induction h with
  | operand => exact .singleton _
  | operation _ ho _ _ _ ihl ihr =>
    refine (Token.isChain_append_cons ?_ ?_ _ _).2 ⟨ihl, ihr⟩
    · exact Token.isIdentifier_of_operator? ho
    · exact Token.isKeyword_of_operator? ho .TO

/-- The tokens of a program are read one by one if no name that it assigns to
    makes an operator together with `TO`. -/
theorem Derives.isChain_iff {ts : List Token} {b : Block} (h : Derives ts b)
    (hts : ∀ t ∈ ts, t.Spelled) :
    (ts.IsChain fun t u => ¬ t.Phrase u) ↔
      ∀ x ∈ Block.targets b, ¬ x.Phrase (.ofKeyword .TO) := by
  -- Keywords and periods separate the parts of a statement.
  have first {k : Token} {word : Keyword} (hk : k.isKeyword word = true) (us : List Token) :=
    Token.isChain_cons (Token.isIdentifier_of_isKeyword hk) us
  have keyword {w : Token} {word : Keyword} (hw : w.isKeyword word = true) (hne : word ≠ .TO)
      (us vs : List Token) :=
    Token.isChain_append_cons (Token.isIdentifier_of_isKeyword hw) (Token.isKeyword_of_ne hw hne)
      us vs
  have period {p : Token} (hp : p.isPeriod = true) (us vs : List Token) :=
    Token.isChain_append_cons (Token.isIdentifier_of_isPeriod hp)
      (Token.isKeyword_eq_false_of_isPeriod hp .TO) us vs
  have stop {us : List Token} (hs : OptionalPeriod us) (vs : List Token) :
      ((us ++ vs).IsChain fun t u => ¬ t.Phrase u) ↔ vs.IsChain fun t u => ¬ t.Phrase u := by
    cases hs with
    | absent => rfl
    | present hp => exact Token.isChain_cons (Token.isIdentifier_of_isPeriod hp) vs
  induction h with
  | nil => simp [Block.targets]
  | expression h => simp [Block.targets, h.targets_eq, h.isChain]
  | display hk hp _ _ _ _ ihv ih =>
    simp only [List.forall_mem_cons, List.forall_mem_append] at hts
    obtain ⟨-, hvs, -, hts⟩ := hts
    simp only [first hk, period hp, ihv hvs, ih hts]
    simp [Block.targets, Statement.targets, or_imp, forall_and]
  | assignment hk hx hw hp _ _ _ _ ihv ih =>
    simp only [List.forall_mem_cons, List.forall_mem_append] at hts
    obtain ⟨-, -, hto, hvs, -, hts⟩ := hts
    simp only [first hk, List.isChain_cons_cons, first hw, period hp, ihv hvs, ih hts,
      Token.phrase_iff_ofKeyword hto hw]
    simp [Block.targets, Statement.targets, or_imp, forall_and]
  | input hk hp _ ih =>
    simp only [List.forall_mem_cons] at hts
    simp only [first hk, Token.isChain_cons (Token.isIdentifier_of_isPeriod hp), ih hts.2.2]
    simp [Block.targets, Statement.targets]
  | conditional hk hw he hs _ _ _ _ _ ihc ihp ih =>
    simp only [List.forall_mem_cons, List.forall_mem_append] at hts
    obtain ⟨-, hcs, -, hps, -, -, hts⟩ := hts
    simp only [first hk, keyword hw (by simp), keyword he (by simp), stop hs, ihc hcs, ihp hps,
      ih hts]
    simp [Block.targets, Block.targetsElse, Statement.targets, or_imp, forall_and]
  | alternative hk hw hm he hs _ _ _ _ _ _ ihc ihp ihf ih =>
    simp only [List.forall_mem_cons, List.forall_mem_append] at hts
    obtain ⟨-, hcs, -, hps, -, hfs, -, -, hts⟩ := hts
    simp only [first hk, keyword hw (by simp), keyword hm (by simp), keyword he (by simp), stop hs,
      ihc hcs, ihp hps, ihf hfs, ih hts]
    simp [Block.targets, Block.targetsElse, Statement.targets, or_imp, forall_and]
  | loop hk hw he hs _ _ _ _ _ ihc ihp ih =>
    simp only [List.forall_mem_cons, List.forall_mem_append] at hts
    obtain ⟨-, hcs, -, hps, -, -, hts⟩ := hts
    simp only [first hk, keyword hw (by simp), keyword he (by simp), stop hs, ihc hcs, ihp hps,
      ih hts]
    simp [Block.targets, Statement.targets, or_imp, forall_and]

/-- A program assigns to names only. -/
theorem Derives.isIdentifier_of_mem_targets {ts : List Token} {b : Block} (h : Derives ts b) :
    ∀ x ∈ Block.targets b, x.isIdentifier = true := by
  induction h with
  | nil => simp [Block.targets]
  | expression h => simp [Block.targets, h.targets_eq]
  | display _ _ _ _ _ _ ihv ih =>
    simp only [Block.targets, Statement.targets, Block.targets_value, List.forall_mem_append]
    exact ⟨ihv, ih⟩
  | assignment _ hx _ _ _ _ _ _ ihv ih =>
    simp only [Block.targets, Statement.targets, Block.targets_value, List.forall_mem_append,
      List.forall_mem_cons]
    exact ⟨⟨hx, ihv⟩, ih⟩
  | input _ _ _ ih => simpa [Block.targets, Statement.targets] using ih
  | conditional _ _ _ _ _ _ _ _ _ ihc ihp ih =>
    simp only [Block.targets, Statement.targets, Block.targets_value, List.forall_mem_append]
    exact ⟨⟨ihc, ihp, by simp [Block.targetsElse]⟩, ih⟩
  | alternative _ _ _ _ _ _ _ _ _ _ _ ihc ihp ihf ih =>
    simp only [Block.targets, Statement.targets, Block.targets_value, List.forall_mem_append]
    exact ⟨⟨ihc, ihp, ihf⟩, ih⟩
  | loop _ _ _ _ _ _ _ _ _ ihc ihp ih =>
    simp only [Block.targets, Statement.targets, Block.targets_value, List.forall_mem_append]
    exact ⟨⟨ihc, ihp⟩, ih⟩

end Kode
