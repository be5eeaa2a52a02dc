import Kode.Proofs.Erasure
import Kode.Proofs.RoundTrip

/-!
# Formatted programs that can be read

The formatted text of a program need not parse. If it does, it is the same
program, and it does the same.

What could be read wrongly is a condition whose periods are missing. Two things
show that they are. A value ends at a period and nowhere else, so behind a `SHOW`
or a `SET` no `THEN` or `DO` may come that belongs to an earlier `IF` or `WHILE`.
And behind an `INPUT` no statement begins. To check this takes only to count the
conditions that were opened since the value began (`Readable`); it does not
matter to the count that words may become an operator when they are read.

* `Derives.readable`: the tokens of a program pass;
* `Derives.printable_of_readable`: the lines of a program pass only if it is
  printable;
* `Source.format_faithful`: so a formatted text that parses is the same program.
-/

namespace Kode

/-- Where a token stands: in no value, or in one in which so many conditions are
    open. -/
inductive Context
  | statement
  | value (conditions : Nat)
deriving DecidableEq, Repr

namespace Context

/-- The place behind a `SHOW` or a `SET`. -/
def enter? : Context → Option Context
  | statement => some (value 0)
  | value _ => none

/-- The place behind an `IF` or a `WHILE`. -/
def openCondition : Context → Context
  | statement => statement
  | value n => value (n + 1)

/-- The place behind a `THEN` or a `DO`. In a value there has to be a condition
    that it ends. -/
def closeCondition? : Context → Option Context
  | statement => some statement
  | value 0 => none
  | value (n + 1) => some (value n)

/-- The place behind the token, if it can stand here. -/
def next? (p : Context) (t : Token) : Option Context :=
  if t.isPeriod then some statement
  else match t.keyword? with
    | some .SHOW | some .SET => p.enter?
    | some .IF | some .WHILE => some p.openCondition
    | some .THEN | some .DO => p.closeCondition?
    | _ => some p

@[simp] theorem closeCondition?_openCondition (p : Context) :
    p.openCondition.closeCondition? = some p := by
  cases p <;> rfl

theorem next?_of_isPeriod {t : Token} (h : t.isPeriod = true) (p : Context) :
    p.next? t = some statement :=
  if_pos h

theorem next?_of_isKeyword {word : Keyword} {t : Token} (h : t.isKeyword word = true)
    (p : Context) : p.next? t = p.next? (.ofKeyword word) := by
  rw [next?, next?, Token.isPeriod_of_isKeyword h, Token.isKeyword_iff.1 h,
    Token.isPeriod_ofKeyword, Token.keyword?_ofKeyword]

theorem next?_of_inExpression {t : Token} (h : t.inExpression = true) (p : Context) :
    p.next? t = some p := by
  rw [next?, Token.isPeriod_of_inExpression h, if_neg (by simp)]
  rcases Token.keyword?_of_inExpression h with hk | hk <;> rw [hk]

theorem next?_bare (p : Context) (t : Token) : p.next? t.bare = p.next? t := rfl

end Context

/-- Whether the token can stand behind an operand. -/
def Token.isDelimiter (t : Token) : Bool :=
  t.isPeriod || t.operator?.isSome || t.isKeyword .THEN || t.isKeyword .DO || t.isKeyword .ELSE ||
    t.isKeyword .END

/-- Tokens that can stand behind an operand, or that can when they are read. -/
inductive Continues : List Token → Prop
  | nil : Continues []
  | delimiter {t : Token} {ts : List Token} : t.isDelimiter = true → Continues (t :: ts)
  | phrase {t u : Token} {ts : List Token} : t.Phrase u → Continues (t :: u :: ts)

/-- Whether all values that begin among the tokens can end where they should, and
    no statement begins behind an `INPUT`. -/
def Readable (p : Context) : List Token → Prop
  | [] => True
  | t :: ts =>
    (t.isKeyword .INPUT = true → Continues ts) ∧ ∃ q, p.next? t = some q ∧ Readable q ts

variable {p q : Context} {t : Token} {ts us : List Token}

@[simp] theorem readable_nil : Readable p [] := trivial

theorem readable_cons (hi : t.isKeyword .INPUT = false) (hq : p.next? t = some q) :
    Readable p (t :: ts) ↔ Readable q ts := by
  simp [Readable, hi, hq]

theorem not_readable_cons (hq : p.next? t = none) : ¬ Readable p (t :: ts) := by
  simp [Readable, hq]

theorem readable_cons_of_isKeyword {word : Keyword} (h : t.isKeyword word = true)
    (hw : word ≠ .INPUT) (hq : p.next? (.ofKeyword word) = some q) :
    Readable p (t :: ts) ↔ Readable q ts :=
  readable_cons (Token.isKeyword_of_ne h hw) ((p.next?_of_isKeyword h).trans hq)

theorem readable_cons_of_isPeriod (h : t.isPeriod = true) :
    Readable p (t :: ts) ↔ Readable .statement ts :=
  readable_cons (Token.isKeyword_eq_false_of_isPeriod h .INPUT) (p.next?_of_isPeriod h)

theorem readable_cons_of_isInput (h : t.isKeyword .INPUT = true) :
    Readable p (t :: ts) ↔ Continues ts ∧ Readable p ts := by
  have hq : p.next? t = some p := p.next?_of_isKeyword h
  simp [Readable, h, hq]

theorem readable_cons_of_isIdentifier (h : t.isIdentifier = true) :
    Readable p (t :: ts) ↔ Readable p ts := by
  have he : t.inExpression = true := by simp [Token.inExpression, Token.isOperand, h]
  refine readable_cons ?_ (p.next?_of_inExpression he)
  simp [Token.isKeyword, Token.keyword?, Token.kind_of_isIdentifier h]

theorem readable_cons_of_operator? {op : Operator} (h : t.operator? = some op) :
    Readable p (t :: ts) ↔ Readable p ts :=
  readable_cons (Token.isKeyword_of_operator? h .INPUT)
    (p.next?_of_inExpression (by simp [Token.inExpression, h]))

theorem readable_cons_of_isLiteral (h : t.isLiteral = true) :
    Readable p (t :: ts) ↔ Readable p ts := by
  have he : t.inExpression = true := by simp [Token.inExpression, Token.isOperand, h]
  refine readable_cons ?_ (p.next?_of_inExpression he)
  cases hk : t.isKeyword .INPUT with
  | false => rfl
  | true => simp [Token.isLiteral, Token.kind_of_isKeyword hk] at h

/-! ## Reading -/

theorem Token.phrase_bare {t u : Token} : t.bare.Phrase u.bare ↔ t.Phrase u := Iff.rfl

theorem Token.not_phrase_of_isKeyword {word : Keyword} {t : Token} (h : t.isKeyword word = true)
    (hw : word ≠ .TO) (x : Token) : ¬ x.Phrase t := by
  rintro ⟨-, hto | hx, -⟩
  · simp [isKeyword_of_ne h hw] at hto
  · simp [isIdentifier_of_isKeyword h] at hx

theorem Token.not_phrase_of_operator? {op : Operator} {t : Token} (h : t.operator? = some op)
    (x : Token) : ¬ x.Phrase t := by
  rintro ⟨-, hto | hx, -⟩
  · simp [isKeyword_of_operator? h] at hto
  · simp [isIdentifier_of_operator? h] at hx

theorem Token.not_phrase_ofKeyword {word : Keyword} (hw : word ≠ .TO) (us : List Token) :
    ∀ u ∈ (ofKeyword word :: us).head?, ∀ x : Token, ¬ x.Phrase u := by
  intro u hu
  obtain rfl := Option.some.inj hu
  exact not_phrase_of_isKeyword (isKeyword_ofKeyword word) hw

theorem Continues.of_fuses (h : Fuses ts us) (hus : Continues us) : Continues ts := by
  cases h with
  | nil => exact .nil
  | fuse hp => exact .phrase hp
  | keep hb h =>
    cases hus with
    | delimiter hd =>
      refine .delimiter ?_
      exact (congrArg Token.isDelimiter hb).symm.trans hd
    | phrase hp =>
      cases h with
      | keep hb' =>
        refine .phrase (Token.phrase_bare.1 ?_)
        rw [← hb, ← hb']
        exact hp
      | fuse _ hu =>
        obtain ⟨op, ho⟩ := Option.isSome_iff_exists.1 hu
        exact absurd hp (Token.not_phrase_of_operator? ho _)

/-- What is readable after it was read was so before. -/
theorem Readable.of_fuses (h : Fuses ts us) (hus : Readable p us) : Readable p ts := by
  induction h generalizing p with
  | nil => exact trivial
  | @keep t u _ _ hb h ih =>
    obtain ⟨hi, q, hq, hus⟩ := hus
    have hk : u.isKeyword .INPUT = t.isKeyword .INPUT := by
      rw [← Token.isKeyword_bare, hb, Token.isKeyword_bare]
    refine ⟨fun ht => (hi (hk.trans ht)).of_fuses h, q, ?_, ih hus⟩
    rw [← p.next?_bare, ← hb, p.next?_bare, hq]
  | fuse hp hu _ ih =>
    -- Neither the operator nor any of its words leads to another place.
    obtain ⟨op, ho⟩ := Option.isSome_iff_exists.1 hu
    have hts := ih ((readable_cons_of_operator? ho).1 hus)
    refine (readable_cons_of_isIdentifier hp.1).2 ?_
    rcases hp.2.1 with hto | hx
    · exact (readable_cons_of_isKeyword hto (by simp) rfl).2 hts
    · exact (readable_cons_of_isIdentifier hx).2 hts

theorem Expression.readable {s : Statement} (h : Expression ts s) (hc : Continues us)
    (hus : Readable p us) : Readable p (ts ++ us) := by
  induction h generalizing us with
  | operand h =>
    cases h with
    | literal h => exact (readable_cons_of_isLiteral h).2 hus
    | identifier h => exact (readable_cons_of_isIdentifier h).2 hus
    | input h => exact (readable_cons_of_isInput h).2 ⟨hc, hus⟩
  | operation _ ho _ _ _ ihl ihr =>
    rw [List.append_assoc]
    refine ihl (.delimiter ?_) ((readable_cons_of_operator? ho).2 (ihr hc hus))
    simp [Token.isDelimiter, ho]

/-- The tokens of a program are readable, and those of a value are so wherever
    they stand. -/
theorem Derives.readable {b : Block} (h : Derives ts b)
    (hp : p = .statement ∨ ∀ t ∈ ts, t.isPeriod = false) (hc : Continues us)
    (hus : Readable p us) : Readable p (ts ++ us) := by
  have keyword {word : Keyword} {t : Token} (ht : t.isKeyword word = true)
      (hw : word = .THEN ∨ word = .DO ∨ word = .ELSE ∨ word = .END) (us : List Token) :
      Continues (t :: us) := by
    refine .delimiter ?_
    rcases hw with rfl | rfl | rfl | rfl <;> simp [Token.isDelimiter, ht]
  have period {t : Token} (ht : t.isPeriod = true) (us : List Token) : Continues (t :: us) :=
    .delimiter (by simp [Token.isDelimiter, ht])
  have optional {p : Context} {stop us : List Token} (hs : OptionalPeriod stop)
      (hp : p = .statement ∨ ∀ t ∈ stop, t.isPeriod = false) (hus : Readable p us) :
      Readable p (stop ++ us) := by
    cases hs with
    | absent => exact hus
    | present ht =>
      obtain rfl := hp.resolve_right fun h => by simp [h] at ht
      exact (readable_cons_of_isPeriod ht).2 hus
  induction h generalizing p us with
  | nil => exact hus
  | expression h => exact h.readable hc hus
  | @display k p' _ _ _ _ hk ht hvs hne hv _ ihv ih =>
    obtain rfl := hp.resolve_right fun h => by simp [h p'] at ht
    rw [List.cons_append, List.append_assoc]
    refine (readable_cons_of_isKeyword hk (by simp) rfl).2 (ihv (.inr hvs) (period ht _) ?_)
    exact (readable_cons_of_isPeriod ht).2 (ih (.inl rfl) hc hus)
  | @assignment k x w p' _ _ _ _ hk hx hw ht hvs hne hv _ ihv ih =>
    obtain rfl := hp.resolve_right fun h => by simp [h p'] at ht
    simp only [List.cons_append, List.append_assoc]
    refine (readable_cons_of_isKeyword hk (by simp) rfl).2 ?_
    refine (readable_cons_of_isIdentifier hx).2 ?_
    refine (readable_cons_of_isKeyword hw (by simp) rfl).2 (ihv (.inr hvs) (period ht _) ?_)
    exact (readable_cons_of_isPeriod ht).2 (ih (.inl rfl) hc hus)
  | @input k p' _ _ hk ht _ ih =>
    obtain rfl := hp.resolve_right fun h => by simp [h p'] at ht
    refine (readable_cons_of_isInput hk).2 ⟨period ht _, ?_⟩
    exact (readable_cons_of_isPeriod ht).2 (ih (.inl rfl) hc hus)
  | conditional hk hw he hs _ _ _ _ _ ihc ihp ih =>
    simp only [List.forall_mem_cons, List.forall_mem_append] at hp
    simp only [List.cons_append, List.append_assoc]
    have hts := ih (hp.imp_right fun h => h.2.2.2.2.2.2) hc hus
    have hend := optional hs (hp.imp_right fun h => h.2.2.2.2.2.1) hts
    have hps := ihp (hp.imp_right fun h => h.2.2.2.1) (keyword he (by simp) _)
      ((readable_cons_of_isKeyword he (by simp) rfl).2 hend)
    refine (readable_cons_of_isKeyword hk (by simp) rfl).2 ?_
    refine ihc (hp.imp (congrArg Context.openCondition) fun h => h.2.1) (keyword hw (by simp) _) ?_
    exact (readable_cons_of_isKeyword hw (by simp) p.closeCondition?_openCondition).2 hps
  | alternative hk hw hm he hs _ _ _ _ _ _ ihc ihp ihf ih =>
    simp only [List.forall_mem_cons, List.forall_mem_append] at hp
    simp only [List.cons_append, List.append_assoc]
    have hts := ih (hp.imp_right fun h => h.2.2.2.2.2.2.2.2) hc hus
    have hend := optional hs (hp.imp_right fun h => h.2.2.2.2.2.2.2.1) hts
    have hfs := ihf (hp.imp_right fun h => h.2.2.2.2.2.1) (keyword he (by simp) _)
      ((readable_cons_of_isKeyword he (by simp) rfl).2 hend)
    have hps := ihp (hp.imp_right fun h => h.2.2.2.1) (keyword hm (by simp) _)
      ((readable_cons_of_isKeyword hm (by simp) rfl).2 hfs)
    refine (readable_cons_of_isKeyword hk (by simp) rfl).2 ?_
    refine ihc (hp.imp (congrArg Context.openCondition) fun h => h.2.1) (keyword hw (by simp) _) ?_
    exact (readable_cons_of_isKeyword hw (by simp) p.closeCondition?_openCondition).2 hps
  | loop hk hw he hs _ _ _ _ _ ihc ihp ih =>
    simp only [List.forall_mem_cons, List.forall_mem_append] at hp
    simp only [List.cons_append, List.append_assoc]
    have hts := ih (hp.imp_right fun h => h.2.2.2.2.2.2) hc hus
    have hend := optional hs (hp.imp_right fun h => h.2.2.2.2.2.1) hts
    have hps := ihp (hp.imp_right fun h => h.2.2.2.1) (keyword he (by simp) _)
      ((readable_cons_of_isKeyword he (by simp) rfl).2 hend)
    refine (readable_cons_of_isKeyword hk (by simp) rfl).2 ?_
    refine ihc (hp.imp (congrArg Context.openCondition) fun h => h.2.1) (keyword hw (by simp) _) ?_
    exact (readable_cons_of_isKeyword hw (by simp) p.closeCondition?_openCondition).2 hps

/-! ## Printed tokens -/

theorem readable_ofKeyword {word : Keyword} (hw : word ≠ .INPUT)
    (hq : p.next? (.ofKeyword word) = some q) :
    Readable p (.ofKeyword word :: us) ↔ Readable q us :=
  readable_cons_of_isKeyword (Token.isKeyword_ofKeyword word) hw hq

/-- What is printed of an expression leads nowhere. -/
theorem Expression.readable_words {s : Statement} (h : Expression ts s)
    (hus : Readable p (s.words ++ us)) : Readable p us := by
  induction h generalizing us with
  | operand h =>
    cases h with
    | literal h => exact (readable_cons_of_isLiteral ((Token.isLiteral_bare _).trans h)).1 hus
    | identifier h =>
      exact (readable_cons_of_isIdentifier ((Token.isIdentifier_bare _).trans h)).1 hus
    | input h => exact ((readable_cons_of_isInput (Token.isKeyword_ofKeyword .INPUT)).1 hus).2
  | operation _ _ _ _ _ ihl ihr =>
    rw [Statement.words, List.append_assoc] at hus
    exact ihr ((readable_cons_of_operator? (Token.operator?_ofOperator _)).1 (ihl hus))

/-- In a value, what is printed of a block leads nowhere. -/
theorem Derives.readable_words_value {b : Block} (h : Derives ts b) {n : Nat}
    (hus : Readable (.value n) (Block.words b ++ us)) : Readable (.value n) us := by
  induction h generalizing n us with
  | nil => exact hus
  | expression h =>
    rw [Block.words, Block.words, List.append_nil] at hus
    exact h.readable_words hus
  | display => exact absurd hus (not_readable_cons rfl)
  | assignment => exact absurd hus (not_readable_cons rfl)
  | input _ _ _ ih =>
    exact ih ((readable_cons_of_isInput (Token.isKeyword_ofKeyword .INPUT)).1 hus).2
  | conditional _ _ _ _ _ _ _ _ _ ihc ihp ih =>
    simp only [Block.words, Block.wordsElse, Statement.words, Block.words_value, List.cons_append,
      List.append_assoc, List.nil_append] at hus
    have hthen := ihc ((readable_ofKeyword (by simp) rfl).1 hus)
    have hend := ihp ((readable_ofKeyword (by simp) rfl).1 hthen)
    exact ih ((readable_ofKeyword (by simp) rfl).1 hend)
  | alternative _ _ _ _ _ _ _ _ _ _ _ ihc ihp ihf ih =>
    simp only [Block.words, Block.wordsElse, Statement.words, Block.words_value, List.cons_append,
      List.append_assoc, List.nil_append] at hus
    have hthen := ihc ((readable_ofKeyword (by simp) rfl).1 hus)
    have helse := ihp ((readable_ofKeyword (by simp) rfl).1 hthen)
    have hend := ihf ((readable_ofKeyword (by simp) rfl).1 helse)
    exact ih ((readable_ofKeyword (by simp) rfl).1 hend)
  | loop _ _ _ _ _ _ _ _ _ ihc ihp ih =>
    simp only [Block.words, Statement.words, Block.words_value, List.cons_append,
      List.append_assoc, List.nil_append] at hus
    have hdo := ihc ((readable_ofKeyword (by simp) rfl).1 hus)
    have hend := ihp ((readable_ofKeyword (by simp) rfl).1 hdo)
    exact ih ((readable_ofKeyword (by simp) rfl).1 hend)

theorem Operand.exists_words {s : Statement} (h : Operand t s) :
    ∃ u, s.words = [u] ∧ u.isOperand = true := by
  cases h with
  | literal h => exact ⟨t.bare, rfl, by simp [Token.isOperand, h]⟩
  | identifier h => exact ⟨t.bare, rfl, by simp [Token.isOperand, h]⟩
  | input h => exact ⟨.ofKeyword .INPUT, rfl, by simp [Token.isOperand]⟩

theorem Token.isDelimiter_of_isOperand (h : t.isOperand = true) : t.isDelimiter = false := by
  have he : t.inExpression = true := by simp [inExpression, h]
  have hw (word : Keyword) (hne : word ≠ .INPUT) : t.isKeyword word = false := by
    rcases keyword?_of_inExpression he with hk | hk <;> simp [isKeyword, hk, hne.symm]
  simp [isDelimiter, isPeriod_of_inExpression he, operator?_of_isOperand h, hw]

/-- An expression cannot stand behind an operand. -/
theorem Expression.not_continues {s : Statement} (h : Expression ts s)
    (hus : ∀ u ∈ us.head?, ∀ x : Token, ¬ x.Phrase u) : ¬ Continues (s.words ++ us) := by
  induction h generalizing us with
  | operand h =>
    obtain ⟨t, ht, hoperand⟩ := h.exists_words
    rw [ht]
    rintro (_ | hd | hp)
    · simp [Token.isDelimiter_of_isOperand hoperand] at hd
    · exact hus _ rfl _ hp
  | operation _ _ _ _ _ ihl _ =>
    rw [Statement.words, List.append_assoc]
    exact ihl fun u hu x => by
      obtain rfl := Option.some.inj hu
      exact Token.not_phrase_of_operator? (Token.operator?_ofOperator _) x

/-- No statement can. -/
theorem Derives.not_continues {b : Block} (h : Derives ts b) (hb : b ≠ [])
    (hus : ∀ u ∈ us.head?, ∀ x : Token, ¬ x.Phrase u) : ¬ Continues (Block.words b ++ us) := by
  have keyword (word : Keyword) (us : List Token)
      (hw : (Token.ofKeyword word).isDelimiter = false) : ¬ Continues (.ofKeyword word :: us) := by
    rintro (_ | hd | ⟨hx, -⟩)
    · simp [hw] at hd
    · simp [Token.isIdentifier_of_isKeyword (Token.isKeyword_ofKeyword word)] at hx
  cases h with
  | nil => exact absurd rfl hb
  | expression h =>
    rw [Block.words, Block.words, List.append_nil]
    exact h.not_continues hus
  | display => exact keyword .SHOW _ rfl
  | assignment => exact keyword .SET _ rfl
  | input => exact keyword .INPUT _ rfl
  | conditional => exact keyword .IF _ rfl
  | alternative => exact keyword .IF _ rfl
  | loop => exact keyword .WHILE _ rfl

/-- A condition does not lead into a value, for its `THEN` or `DO` could not stand
    there. -/
theorem readable_of_condition {c : Prop} {word : Keyword} (hw : word = .THEN ∨ word = .DO)
    (h : (c ∧ Readable .statement (.ofKeyword word :: us)) ∨
      Readable (.value 0) (.ofKeyword word :: us)) : c ∧ Readable .statement us := by
  rcases hw with rfl | rfl
  · exact (h.resolve_right (not_readable_cons rfl)).imp_right (readable_ofKeyword (by simp) rfl).1
  · exact (h.resolve_right (not_readable_cons rfl)).imp_right (readable_ofKeyword (by simp) rfl).1

/-- In statement position, what is printed of a block on one line leads nowhere
    if the block is inlinable, and else into a value. -/
theorem Derives.readable_words {b : Block} (h : Derives ts b)
    (hphrase : ∀ u ∈ us.head?, ∀ x : Token, ¬ x.Phrase u)
    (hus : Readable .statement (Block.words b ++ us)) :
    (Block.inlinable b = true ∧ Readable .statement us) ∨ Readable (.value 0) us := by
  induction h generalizing us with
  | nil => exact .inl ⟨rfl, hus⟩
  | expression h =>
    rw [Block.words, Block.words, List.append_nil] at hus
    exact .inl ⟨by simp [Block.inlinable, h.inlinable], h.readable_words hus⟩
  | display _ _ _ _ hv hd =>
    simp only [Block.words, Statement.words, Block.words_value, List.cons_append,
      List.append_assoc] at hus
    have hvs := hv.readable_words_value ((readable_ofKeyword (by simp) rfl).1 hus)
    exact .inr (hd.readable_words_value hvs)
  | assignment _ hx _ _ _ _ hv hd =>
    simp only [Block.words, Statement.words, Block.words_value, List.cons_append,
      List.append_assoc] at hus
    have hto := (readable_cons_of_isIdentifier ((Token.isIdentifier_bare _).trans hx)).1
      ((readable_ofKeyword (by simp) rfl).1 hus)
    have hvs := hv.readable_words_value ((readable_ofKeyword (by simp) rfl).1 hto)
    exact .inr (hd.readable_words_value hvs)
  | @input _ _ _ b _ _ hd ih =>
    have hus := (readable_cons_of_isInput (Token.isKeyword_ofKeyword .INPUT)).1 hus
    cases b with
    | nil => exact .inl ⟨rfl, hus.2⟩
    | cons s ss => exact absurd hus.1 (hd.not_continues (by simp) hphrase)
  | conditional _ _ _ _ _ _ _ hp hd ihc ihp ih =>
    simp only [Block.words, Block.wordsElse, Statement.words, Block.words_value, List.cons_append,
      List.append_assoc, List.nil_append] at hus
    obtain ⟨hbc, hps⟩ := readable_of_condition (.inl rfl)
      (ihc (Token.not_phrase_ofKeyword (by simp) _) ((readable_ofKeyword (by simp) rfl).1 hus))
    rcases ihp (Token.not_phrase_ofKeyword (by simp) _) hps with ⟨hbp, hend⟩ | hend
    · rw [readable_ofKeyword (by simp) rfl] at hend
      refine (ih hphrase hend).imp_left fun ⟨hb, hus⟩ => ⟨?_, hus⟩
      simp [Block.inlinable, Block.inlinableElse, Statement.inlinable, Statement.isInput, hbc, hbp,
        hb]
    · exact .inr (hd.readable_words_value ((readable_ofKeyword (by simp) rfl).1 hend))
  | alternative _ _ _ _ _ _ _ _ _ hf hd ihc ihp ihf ih =>
    simp only [Block.words, Block.wordsElse, Statement.words, Block.words_value, List.cons_append,
      List.append_assoc, List.nil_append] at hus
    obtain ⟨hbc, hps⟩ := readable_of_condition (.inl rfl)
      (ihc (Token.not_phrase_ofKeyword (by simp) _) ((readable_ofKeyword (by simp) rfl).1 hus))
    rcases ihp (Token.not_phrase_ofKeyword (by simp) _) hps with ⟨hbp, helse⟩ | helse
    · rw [readable_ofKeyword (by simp) rfl] at helse
      rcases ihf (Token.not_phrase_ofKeyword (by simp) _) helse with ⟨hbf, hend⟩ | hend
      · rw [readable_ofKeyword (by simp) rfl] at hend
        refine (ih hphrase hend).imp_left fun ⟨hb, hus⟩ => ⟨?_, hus⟩
        simp [Block.inlinable, Block.inlinableElse, Statement.inlinable, Statement.isInput, hbc,
          hbp, hbf, hb]
      · exact .inr (hd.readable_words_value ((readable_ofKeyword (by simp) rfl).1 hend))
    · have hend := hf.readable_words_value ((readable_ofKeyword (by simp) rfl).1 helse)
      exact .inr (hd.readable_words_value ((readable_ofKeyword (by simp) rfl).1 hend))
  | loop _ _ _ _ _ _ _ hp hd ihc ihp ih =>
    simp only [Block.words, Statement.words, Block.words_value, List.cons_append,
      List.append_assoc, List.nil_append] at hus
    obtain ⟨hbc, hps⟩ := readable_of_condition (.inr rfl)
      (ihc (Token.not_phrase_ofKeyword (by simp) _) ((readable_ofKeyword (by simp) rfl).1 hus))
    rcases ihp (Token.not_phrase_ofKeyword (by simp) _) hps with ⟨hbp, hend⟩ | hend
    · rw [readable_ofKeyword (by simp) rfl] at hend
      refine (ih hphrase hend).imp_left fun ⟨hb, hus⟩ => ⟨?_, hus⟩
      simp [Block.inlinable, Statement.inlinable, Statement.isInput, hbc, hbp, hb]
    · exact .inr (hd.readable_words_value ((readable_ofKeyword (by simp) rfl).1 hend))

/-- A condition can be read from one line only if it is inlinable. -/
theorem Derives.readable_condition {c : Block} (h : Derives ts c) {word : Keyword}
    (hw : word = .THEN ∨ word = .DO)
    (hus : Readable .statement (Block.words c ++ .ofKeyword word :: us)) :
    Block.inlinable c = true ∧ Readable .statement us := by
  refine readable_of_condition hw (h.readable_words (Token.not_phrase_ofKeyword ?_ us) hus)
  rcases hw with rfl | rfl <;> simp

/-- The lines of a program are readable only if it is printable. -/
theorem Derives.printable_of_readable {b : Block} (h : Derives ts b)
    (hus : Readable .statement (Block.lines b ++ us)) :
    Block.printable b = true ∧ Readable .statement us := by
  have stop {p : Context} {us : List Token} (h : Readable p (.stop :: us)) :
      Readable .statement us :=
    (readable_cons_of_isPeriod Token.isPeriod_stop).1 h
  induction h generalizing us with
  | nil => exact ⟨rfl, hus⟩
  | expression h =>
    refine ⟨by simp [Block.printable, h.printable], ?_⟩
    cases h with
    | operand h =>
      cases h with
      | literal h => exact (Expression.operand (.literal h)).readable_words hus
      | identifier h => exact (Expression.operand (.identifier h)).readable_words hus
      | input h =>
        exact stop ((readable_cons_of_isInput (Token.isKeyword_ofKeyword .INPUT)).1 hus).2
    | operation hl ho hr hle hlt =>
      rw [Block.lines, Block.lines, List.append_nil] at hus
      exact (Expression.operation hl ho hr hle hlt).readable_words hus
  | display _ _ _ _ hv _ _ ih =>
    simp only [Block.lines, Statement.lines, Statement.words, Block.words_value, List.cons_append,
      List.append_assoc, List.nil_append] at hus
    have hvs := hv.readable_words_value ((readable_ofKeyword (by simp) rfl).1 hus)
    refine (ih (stop hvs)).imp_left fun hb => ?_
    simp [Block.printable, Statement.printable, hb]
  | assignment _ hx _ _ _ _ hv _ _ ih =>
    simp only [Block.lines, Statement.lines, Statement.words, Block.words_value, List.cons_append,
      List.append_assoc, List.nil_append] at hus
    have hto := (readable_cons_of_isIdentifier ((Token.isIdentifier_bare _).trans hx)).1
      ((readable_ofKeyword (by simp) rfl).1 hus)
    have hvs := hv.readable_words_value ((readable_ofKeyword (by simp) rfl).1 hto)
    refine (ih (stop hvs)).imp_left fun hb => ?_
    simp [Block.printable, Statement.printable, hb]
  | input _ _ _ ih =>
    have hstop := ((readable_cons_of_isInput (Token.isKeyword_ofKeyword .INPUT)).1 hus).2
    refine (ih (stop hstop)).imp_left fun hb => ?_
    simp [Block.printable, Statement.printable, hb]
  | conditional _ _ _ _ _ _ hc _ _ _ ihp ih =>
    simp only [Block.lines, Block.linesElse, Statement.lines, Block.words_value, List.cons_append,
      List.append_assoc, List.nil_append] at hus
    rw [readable_ofKeyword (by simp) rfl] at hus
    obtain ⟨hbc, hps⟩ := hc.readable_condition (.inl rfl) hus
    obtain ⟨hbp, hend⟩ := ihp hps
    refine (ih (stop ((readable_ofKeyword (by simp) rfl).1 hend))).imp_left fun hb => ?_
    simp [Block.printable, Block.printableElse, Statement.printable, hbc, hbp, hb]
  | alternative _ _ _ _ _ _ _ hc _ _ _ _ ihp ihf ih =>
    simp only [Block.lines, Block.linesElse, Statement.lines, Block.words_value, List.cons_append,
      List.append_assoc, List.nil_append] at hus
    rw [readable_ofKeyword (by simp) rfl] at hus
    obtain ⟨hbc, hps⟩ := hc.readable_condition (.inl rfl) hus
    obtain ⟨hbp, helse⟩ := ihp hps
    obtain ⟨hbf, hend⟩ := ihf ((readable_ofKeyword (by simp) rfl).1 helse)
    refine (ih (stop ((readable_ofKeyword (by simp) rfl).1 hend))).imp_left fun hb => ?_
    simp [Block.printable, Block.printableElse, Statement.printable, hbc, hbp, hbf, hb]
  | loop _ _ _ _ _ _ hc _ _ _ ihp ih =>
    simp only [Block.lines, Statement.lines, Block.words_value, List.cons_append,
      List.append_assoc, List.nil_append] at hus
    rw [readable_ofKeyword (by simp) rfl] at hus
    obtain ⟨hbc, hps⟩ := hc.readable_condition (.inr rfl) hus
    obtain ⟨hbp, hend⟩ := ihp hps
    refine (ih (stop ((readable_ofKeyword (by simp) rfl).1 hend))).imp_left fun hb => ?_
    simp [Block.printable, Statement.printable, hbc, hbp, hb]

/-! ## Formatted programs -/

/-- The tokens of a printable program are read again as they are written. -/
theorem Derives.map_bare_of_printable {b : Block} (h : Derives ts b) (hts : ∀ t ∈ ts, t.Spelled)
    (hchain : ts.IsChain fun t u => ¬ t.Phrase u) (hb : Block.printable b = true)
    (hus : Fuses (Block.lines b) us) (hlines : ∀ t ∈ Block.lines b, t.Spelled) :
    us.map Token.bare = (Block.lines b).map Token.bare := by
  refine hus.map_bare_of_isChain (((h.lines_of_printable hb).isChain_iff hlines).2 fun x hx => ?_)
  -- The names that are assigned to are the same.
  rw [Block.targets_bare] at hx
  obtain ⟨y, hy, rfl⟩ := List.mem_map.1 hx
  exact (h.isChain_iff hts).1 hchain y hy

/-- If the formatted text of a program parses, it parses to the same program, up
    to spans. So it does the same, whatever it is given to read: with any fuel
    both run out of it, or both come to the same result or the same error, with
    the same bindings, the same output and the same lines left. -/
theorem Source.format_faithful {s s' : Source} {b c : Block} (hb : s.parse = .ok b)
    (hs' : s'.text = Block.format b) (hc : s'.parse = .ok c) :
    Block.bare c = Block.bare b ∧ ∀ (fuel : Nat) (answers : List Answer),
      Outcome.bare (c.run fuel (.initial answers)) =
        Outcome.bare (b.run fuel (.initial answers)) := by
  obtain ⟨ts, hts, -⟩ := Statement.bind_eq_ok hb
  have hd := ((parse_eq_ok_iff_of_tokens hts).1 hb).1
  obtain ⟨hspelled, hchain⟩ := s.spelled_of_tokens hts
  have hspells : Spells s'.text.toList (Block.lines b) := by
    rw [hs']
    exact Block.spells_format b (hd.spelled hspelled)
  obtain ⟨us, hus, hfuses⟩ := s'.exists_tokens hspells
  have hc := ((parse_eq_ok_iff_of_tokens hus).1 hc).1
  have hreadable : Readable .statement us := by
    simpa using hc.readable (.inl rfl) .nil (readable_nil (p := .statement))
  have hprintable : Block.printable b = true := by
    have hlines := hreadable.of_fuses hfuses
    rw [← List.append_nil (Block.lines b)] at hlines
    exact (hd.printable_of_readable hlines).1
  have hmap := hd.map_bare_of_printable hspelled hchain hprintable hfuses hspells.spelled
  obtain ⟨d, hd', hdb⟩ := (hd.lines_of_printable hprintable).transfer hmap
  have hbare : Block.bare c = Block.bare b := by
    rw [hc.unique hd', hdb, Block.bare_bare]
  exact ⟨hbare, fun fuel answers => Block.bare_run_congr fuel hbare rfl⟩

/-- A loop that counts down from what is read, with a conditional for a value. -/
theorem Source.format_faithful_of_loop :
    ∃ b c,
      (⟨"main.kode",
        "set n to input. while n > 0 do show if n equal  to 1 then 'x' end.set n to n - 1.end", 0⟩ :
        Source).parse = .ok b ∧
      (⟨"main.kode", Block.format b, 1⟩ : Source).parse = .ok c ∧
      Block.bare c = Block.bare b ∧ ∀ (fuel : Nat) (answers : List Answer),
        Outcome.bare (c.run fuel (.initial answers)) =
          Outcome.bare (b.run fuel (.initial answers)) := by
  have hp : (match (⟨"main.kode",
      "set n to input. while n > 0 do show if n equal  to 1 then 'x' end.set n to n - 1.end", 0⟩ :
      Source).parse with
    | .ok b => match (⟨"main.kode", Block.format b, 1⟩ : Source).parse with
      | .ok _ => true
      | .error _ => false
    | .error _ => false) = true := by decide +kernel
  split at hp
  · rename_i b hb
    split at hp
    · rename_i c hc
      exact ⟨b, c, hb, hc, Source.format_faithful hb rfl hc⟩
    · exact absurd hp (by simp)
  · exact absurd hp (by simp)

end Kode
