import Kode.Proofs.Spelling
import Kode.Statement.Format

/-!
# What is printed

The formatter writes tokens: those of a statement on one line, all periods left
out (`Statement.words`), or those of a block on lines of their own, with a period
after each statement that needs one (`Block.lines`). Keywords and operators are
written in their own spelling, literals and names as they were.

* `Derives.words_eq`: on one line stand the tokens that the block was parsed
  from, but for the periods;
* `Block.spells_format`: the formatted text of a program spells its lines.
-/

namespace Kode

namespace Token

/-- The keyword as it is printed. -/
def ofKeyword (word : Keyword) : Token :=
  ⟨.keyword word, word.word, .empty⟩

/-- The operator as it is printed. -/
def ofOperator (op : Operator) : Token :=
  ⟨if op = .subtract then .punctuation .minus else .operator op, op.symbol, .empty⟩

/-- The period at the end of a statement. -/
def stop : Token :=
  ⟨.punctuation .period, ".", .empty⟩

/-- The token as it is printed. -/
def canonical (t : Token) : Token :=
  match t.keyword?, t.operator? with
  | some word, _ => ofKeyword word
  | none, some op => ofOperator op
  | none, none => t.bare

/-- The tokens as they are printed on one line. -/
def printed (ts : List Token) : List Token :=
  (ts.filter fun t => !t.isPeriod).map canonical

end Token

mutual

/-- The tokens of the statement on one line. -/
def Statement.words : Statement → List Token
  | .sequence body => Block.words body
  | .literal token => [token.bare]
  | .identifier token => [token.bare]
  | .assignment _ target value => .ofKeyword .SET :: target.bare :: .ofKeyword .TO :: value.words
  | .operation lhs op _ rhs => lhs.words ++ .ofOperator op :: rhs.words
  | .display _ value => .ofKeyword .SHOW :: value.words
  | .input _ => [.ofKeyword .INPUT]
  | .conditional _ condition pass fail _ =>
    .ofKeyword .IF :: (condition.words ++ .ofKeyword .THEN :: (Block.words pass ++
      (Block.wordsElse fail ++ [.ofKeyword .END])))
  | .loop _ condition body _ =>
    .ofKeyword .WHILE :: (condition.words ++ .ofKeyword .DO :: (Block.words body ++
      [.ofKeyword .END]))

/-- The tokens of the statements on one line. -/
def Block.words : List Statement → List Token
  | [] => []
  | s :: ss => s.words ++ Block.words ss

/-- The same with an `ELSE` in front, if there is one. -/
def Block.wordsElse : Option (List Statement) → List Token
  | none => []
  | some body => .ofKeyword .ELSE :: Block.words body

end

mutual

/-- The tokens of the statement on lines of its own. -/
def Statement.lines : Statement → List Token
  | .sequence body => Block.lines body
  | .conditional _ condition pass fail _ =>
    .ofKeyword .IF :: (condition.words ++ .ofKeyword .THEN :: (Block.lines pass ++
      (Block.linesElse fail ++ [.ofKeyword .END, .stop])))
  | .loop _ condition body _ =>
    .ofKeyword .WHILE :: (condition.words ++ .ofKeyword .DO :: (Block.lines body ++
      [.ofKeyword .END, .stop]))
  | .display keyword value => (Statement.display keyword value).words ++ [.stop]
  | .assignment keyword target value => (Statement.assignment keyword target value).words ++ [.stop]
  | .input keyword => (Statement.input keyword).words ++ [.stop]
  | .literal token => (Statement.literal token).words
  | .identifier token => (Statement.identifier token).words
  | .operation lhs op site rhs => (Statement.operation lhs op site rhs).words

/-- The tokens of the statements on lines of their own. -/
def Block.lines : List Statement → List Token
  | [] => []
  | s :: ss => s.lines ++ Block.lines ss

/-- The same with an `ELSE` in front, if there is one. -/
def Block.linesElse : Option (List Statement) → List Token
  | none => []
  | some body => .ofKeyword .ELSE :: Block.lines body

end

@[simp] theorem Block.words_value (b : Block) : b.value.words = Block.words b := by
  match b with
  | [] => rfl
  | [s] => simp [Block.value, Block.words]
  | s :: s' :: ss => rfl

/-! ## Printing does not depend on spans -/

mutual

theorem Statement.words_bare (s : Statement) : s.bare.words = s.words := by
  match s with
  | .sequence body => exact Block.words_bare body
  | .literal _ | .identifier _ | .input _ => rfl
  | .assignment _ _ value =>
    simp only [Statement.bare, Statement.words, value.words_bare, Token.bare_bare]
  | .operation lhs _ _ rhs =>
    simp only [Statement.bare, Statement.words, lhs.words_bare, rhs.words_bare]
  | .display _ value => simp only [Statement.bare, Statement.words, value.words_bare]
  | .conditional _ condition pass fail _ =>
    simp only [Statement.bare, Statement.words, condition.words_bare, Block.words_bare pass,
      Block.wordsElse_bare fail]
  | .loop _ condition body _ =>
    simp only [Statement.bare, Statement.words, condition.words_bare, Block.words_bare body]

theorem Block.words_bare (b : List Statement) : Block.words (Block.bare b) = Block.words b := by
  match b with
  | [] => rfl
  | s :: ss => simp only [Block.bare, Block.words, s.words_bare, Block.words_bare ss]

theorem Block.wordsElse_bare (b : Option (List Statement)) :
    Block.wordsElse (Block.bareElse b) = Block.wordsElse b := by
  match b with
  | none => rfl
  | some body => simp only [Block.bareElse, Block.wordsElse, Block.words_bare body]

end

mutual

theorem Statement.lines_bare (s : Statement) : s.bare.lines = s.lines := by
  match s with
  | .sequence body => exact Block.lines_bare body
  | .literal _ | .identifier _ | .input _ => rfl
  | .assignment _ _ value =>
    simp only [Statement.bare, Statement.lines, Statement.words, value.words_bare,
      Token.bare_bare]
  | .operation lhs _ _ rhs =>
    simp only [Statement.bare, Statement.lines, Statement.words, lhs.words_bare, rhs.words_bare]
  | .display _ value =>
    simp only [Statement.bare, Statement.lines, Statement.words, value.words_bare]
  | .conditional _ condition pass fail _ =>
    simp only [Statement.bare, Statement.lines, condition.words_bare, Block.lines_bare pass,
      Block.linesElse_bare fail]
  | .loop _ condition body _ =>
    simp only [Statement.bare, Statement.lines, condition.words_bare, Block.lines_bare body]

theorem Block.lines_bare (b : List Statement) : Block.lines (Block.bare b) = Block.lines b := by
  match b with
  | [] => rfl
  | s :: ss => simp only [Block.bare, Block.lines, s.lines_bare, Block.lines_bare ss]

theorem Block.linesElse_bare (b : Option (List Statement)) :
    Block.linesElse (Block.bareElse b) = Block.linesElse b := by
  match b with
  | none => rfl
  | some body => simp only [Block.bareElse, Block.linesElse, Block.lines_bare body]

end

/-! ## Printed tokens -/

namespace Token

@[simp] theorem keyword?_ofKeyword (word : Keyword) : (ofKeyword word).keyword? = some word := rfl

@[simp] theorem isKeyword_ofKeyword (word : Keyword) : (ofKeyword word).isKeyword word = true :=
  decide_eq_true rfl

@[simp] theorem span_ofKeyword (word : Keyword) : (ofKeyword word).span = .empty := rfl

@[simp] theorem isPeriod_ofKeyword (word : Keyword) : (ofKeyword word).isPeriod = false := rfl

@[simp] theorem operator?_ofOperator (op : Operator) : (ofOperator op).operator? = some op := by
  cases op <;> rfl

@[simp] theorem keyword?_ofOperator (op : Operator) : (ofOperator op).keyword? = none := by
  cases op <;> rfl

@[simp] theorem isPeriod_ofOperator (op : Operator) : (ofOperator op).isPeriod = false := by
  cases op <;> rfl

@[simp] theorem isPeriod_stop : stop.isPeriod = true := rfl

theorem canonical_of_isKeyword {word : Keyword} {t : Token} (h : t.isKeyword word = true) :
    t.canonical = ofKeyword word := by
  rw [canonical, isKeyword_iff.1 h]

theorem canonical_of_operator? {op : Operator} {t : Token} (h : t.operator? = some op) :
    t.canonical = ofOperator op := by
  have hk : t.keyword? = none := by
    rw [operator?] at h
    rw [keyword?]
    split at h <;> simp_all
  rw [canonical, hk, h]

theorem canonical_of_isIdentifier {t : Token} (h : t.isIdentifier = true) :
    t.canonical = t.bare := by
  simp [canonical, keyword?, operator?, kind_of_isIdentifier h]

theorem canonical_of_isLiteral {t : Token} (h : t.isLiteral = true) : t.canonical = t.bare := by
  rw [isLiteral] at h
  split at h
  · rename_i hk
    simp [canonical, keyword?, operator?, hk]
  · simp at h

@[simp] theorem keyword?_canonical (t : Token) : t.canonical.keyword? = t.keyword? := by
  rw [canonical]
  split <;> simp_all

@[simp] theorem operator?_canonical (t : Token) : t.canonical.operator? = t.operator? := by
  rw [canonical]
  split
  · rename_i word _ hk
    have hkind := kind_of_isKeyword (isKeyword_iff.2 hk)
    simp [ofKeyword, operator?, hkind]
  · simp_all
  · simp_all

@[simp] theorem isPeriod_canonical (t : Token) : t.canonical.isPeriod = t.isPeriod := by
  rw [canonical]
  split
  · rename_i word _ hk
    rw [isPeriod_ofKeyword, isPeriod_of_isKeyword (isKeyword_iff.2 hk)]
  · rename_i op _ ho
    rw [isPeriod_ofOperator, isPeriod_of_inExpression (by simp [inExpression, ho])]
  · simp_all

@[simp] theorem printed_append (ts us : List Token) :
    printed (ts ++ us) = printed ts ++ printed us := by
  simp [printed]

theorem printed_cons_of_isPeriod {t : Token} (h : t.isPeriod = true) (ts : List Token) :
    printed (t :: ts) = printed ts := by
  simp [printed, h]

theorem printed_cons {t : Token} (h : t.isPeriod = false) (ts : List Token) :
    printed (t :: ts) = t.canonical :: printed ts := by
  simp [printed, h]

theorem printed_cons_of_isKeyword {word : Keyword} {t : Token} (h : t.isKeyword word = true)
    (ts : List Token) : printed (t :: ts) = ofKeyword word :: printed ts := by
  rw [printed_cons (isPeriod_of_isKeyword h), canonical_of_isKeyword h]

theorem isPeriod_of_mem_printed {t : Token} {ts : List Token} (h : t ∈ printed ts) :
    t.isPeriod = false := by
  obtain ⟨u, hu, rfl⟩ := List.mem_map.1 h
  simpa using (List.mem_filter.1 hu).2

@[simp] theorem wordCount_printed (ts : List Token) : wordCount (printed ts) = wordCount ts := by
  induction ts with
  | nil => rfl
  | cons t ts ih =>
    cases ht : t.isPeriod with
    | false => simp [printed_cons ht, wordCount_cons, ih]
    | true => simp [printed_cons_of_isPeriod ht, wordCount_cons, ih, ht]

end Token

theorem OptionalPeriod.printed_eq {ts : List Token} (h : OptionalPeriod ts) :
    Token.printed ts = [] := by
  cases h with
  | absent => rfl
  | present hp => exact Token.printed_cons_of_isPeriod hp []

/-! ## Words -/

theorem Operand.words_eq {t : Token} {s : Statement} (h : Operand t s) :
    s.words = Token.printed [t] := by
  cases h with
  | literal h =>
    have hp := Token.isPeriod_of_inExpression (t := t)
      (by simp [Token.inExpression, Token.isOperand, h])
    rw [Token.printed_cons hp, Token.canonical_of_isLiteral h]
    rfl
  | identifier h =>
    rw [Token.printed_cons (Token.isPeriod_of_isIdentifier h), Token.canonical_of_isIdentifier h]
    rfl
  | input h =>
    rw [Token.printed_cons_of_isKeyword h]
    rfl

theorem Expression.words_eq {ts : List Token} {s : Statement} (h : Expression ts s) :
    s.words = Token.printed ts := by
  induction h with
  | operand h => exact h.words_eq
  | @operation _ _ o _ _ _ _ ho _ _ _ ihl ihr =>
    have hp := Token.isPeriod_of_inExpression (t := o) (by simp [Token.inExpression, ho])
    rw [Statement.words, ihl, ihr, Token.printed_append, Token.printed_cons hp,
      Token.canonical_of_operator? ho]

/-- On one line a block is printed with the tokens that it was parsed from,
    without the periods. -/
theorem Derives.words_eq {ts : List Token} {b : Block} (h : Derives ts b) :
    Block.words b = Token.printed ts := by
  induction h with
  | nil => rfl
  | expression h => simp [Block.words, h.words_eq]
  | display hk hp _ _ _ _ ihv ih =>
    simp [Block.words, Statement.words, Token.printed_cons_of_isKeyword hk,
      Token.printed_cons_of_isPeriod hp, ihv, ih]
  | assignment hk hx hw hp _ _ _ _ ihv ih =>
    simp [Block.words, Statement.words, Token.printed_cons_of_isKeyword hk,
      Token.printed_cons (Token.isPeriod_of_isIdentifier hx), Token.canonical_of_isIdentifier hx,
      Token.printed_cons_of_isKeyword hw, Token.printed_cons_of_isPeriod hp, ihv, ih]
  | input hk hp _ ih =>
    simp [Block.words, Statement.words, Token.printed_cons_of_isKeyword hk,
      Token.printed_cons_of_isPeriod hp, ih]
  | conditional hk hw he hs _ _ _ _ _ ihc ihp ih =>
    simp [Block.words, Block.wordsElse, Statement.words, Token.printed_cons_of_isKeyword hk,
      Token.printed_cons_of_isKeyword hw, Token.printed_cons_of_isKeyword he, hs.printed_eq, ihc,
      ihp, ih]
  | alternative hk hw hm he hs _ _ _ _ _ _ ihc ihp ihf ih =>
    simp [Block.words, Block.wordsElse, Statement.words, Token.printed_cons_of_isKeyword hk,
      Token.printed_cons_of_isKeyword hw, Token.printed_cons_of_isKeyword hm,
      Token.printed_cons_of_isKeyword he, hs.printed_eq, ihc, ihp, ihf, ih]
  | loop hk hw he hs _ _ _ _ _ ihc ihp ih =>
    simp [Block.words, Statement.words, Token.printed_cons_of_isKeyword hk,
      Token.printed_cons_of_isKeyword hw, Token.printed_cons_of_isKeyword he, hs.printed_eq, ihc,
      ihp, ih]

/-- On lines of its own a block has as many tokens that are no periods. -/
theorem Derives.wordCount_lines {ts : List Token} {b : Block} (h : Derives ts b) :
    Token.wordCount (Block.lines b) = Token.wordCount ts := by
  have keyword {t : Token} {word : Keyword} (ht : t.isKeyword word = true) :=
    Token.isPeriod_of_isKeyword ht
  have words {vs : List Token} {v : Block} (hv : Derives vs v) :
      Token.wordCount (Block.words v) = Token.wordCount vs := by
    rw [hv.words_eq, Token.wordCount_printed]
  have stop {us : List Token} (hs : OptionalPeriod us) : Token.wordCount us = 0 := by
    rw [← Token.wordCount_printed, hs.printed_eq, Token.wordCount_nil]
  induction h with
  | nil => rfl
  | expression h =>
    -- On a line of its own an `INPUT` gets a period, which does not count.
    have hw : Token.wordCount (Block.words _) = _ := words (.expression h)
    cases h with
    | operand ho =>
      cases ho <;>
        simpa [Block.lines, Statement.lines, Block.words, Token.wordCount_cons] using hw
    | operation => simpa [Block.lines, Statement.lines, Block.words] using hw
  | display hk hp _ _ hv _ _ ih =>
    simp [Block.lines, Statement.lines, Statement.words, Token.wordCount_cons, keyword hk, hp, ih,
      words hv]
  | assignment hk hx hw hp _ _ hv _ _ ih =>
    simp [Block.lines, Statement.lines, Statement.words, Token.wordCount_cons, keyword hk,
      keyword hw, Token.isPeriod_of_isIdentifier hx, hp, ih, words hv]
  | input hk hp _ ih =>
    simp [Block.lines, Statement.lines, Statement.words, Token.wordCount_cons, keyword hk, hp, ih]
  | conditional hk hw he hs _ _ hc _ _ _ ihp ih =>
    simp [Block.lines, Block.linesElse, Statement.lines, Token.wordCount_cons, keyword hk,
      keyword hw, keyword he, stop hs, words hc, ihp, ih]
  | alternative hk hw hm he hs _ _ hc _ _ _ _ ihp ihf ih =>
    simp [Block.lines, Block.linesElse, Statement.lines, Token.wordCount_cons, keyword hk,
      keyword hw, keyword hm, keyword he, stop hs, words hc, ihp, ihf, ih]
  | loop hk hw he hs _ _ hc _ _ _ ihp ih =>
    simp [Block.lines, Statement.lines, Token.wordCount_cons, keyword hk, keyword hw, keyword he,
      stop hs, words hc, ihp, ih]

/-! ## Texts -/

theorem Token.spelled_of_reads_alone {t : Token} (h : Lexeme.Reads ⟨0, t.text⟩ [] t.kind 0)
    (hg : [t.text.toList] = Lexeme.groups t.text.toList) : t.Spelled :=
  ⟨⟨0, t.text⟩, [], h, hg⟩

theorem Token.spelled_ofKeyword (word : Keyword) : (ofKeyword word).Spelled := by
  refine spelled_of_reads_alone (.keyword ?_ ?_ ?_ (Keyword.ofWord?_word word)) ?_ <;>
    cases word <;> decide +kernel

theorem Token.spelled_ofOperator (op : Operator) : (ofOperator op).Spelled := by
  by_cases hop : op = .subtract
  · subst hop
    exact spelled_of_reads_alone (.punctuation (by decide) (by decide)) (by decide)
  · refine spelled_of_reads_alone ?_ ?_
    · change Lexeme.Reads _ _ (if op = .subtract then _ else _) _
      rw [if_neg hop]
      refine .operator ?_ ?_ ?_ <;> cases op <;> first | decide +kernel | exact absurd rfl hop
    · cases op <;> decide

theorem Token.spelled_stop : stop.Spelled :=
  spelled_of_reads_alone (.punctuation (by decide +kernel) (by decide)) (by decide)

theorem Token.Spelled.bare {t : Token} (h : t.Spelled) : t.bare.Spelled := h

theorem Token.Spelled.canonical {t : Token} (h : t.Spelled) : t.canonical.Spelled := by
  rw [Token.canonical]
  split
  · exact spelled_ofKeyword _
  · exact spelled_ofOperator _
  · exact h.bare

/-- A program is printed with tokens that can be read again. -/
theorem Derives.spelled {ts : List Token} {b : Block} (h : Derives ts b)
    (hts : ∀ t ∈ ts, t.Spelled) : ∀ t ∈ Block.words b, t.Spelled := by
  rw [h.words_eq]
  intro t ht
  obtain ⟨u, hu, rfl⟩ := List.mem_map.1 ht
  exact (hts u (List.mem_filter.1 hu).1).canonical

theorem Spells.space {cs : List Char} {ts : List Token} (h : Spells cs ts) :
    Spells (' ' :: cs) ts :=
  h.cons (by decide)

theorem Spells.newline {cs : List Char} {ts : List Token} (h : Spells cs ts) :
    Spells ('\n' :: cs) ts :=
  h.cons (by decide)

theorem Apart.space {cs : List Char} : Apart (' ' :: cs) :=
  .blank (by decide)

theorem Apart.newline {cs : List Char} : Apart ('\n' :: cs) :=
  .blank (by decide)

/-- A period in front of a gap. -/
theorem Apart.stop {c : Char} (hc : Text.isBlank c = true) (cs : List Char) :
    Apart ('.' :: c :: cs) := by
  refine .period fun d hd => ?_
  obtain rfl := Option.some.inj hd
  exact hc

/-- The texts with a blank in front of each. -/
def spaced (xs : List String) : String :=
  String.join (xs.map (" " ++ ·))

theorem toList_spaced_cons (x : String) (xs : List String) :
    (spaced (x :: xs)).toList = ' ' :: (x.toList ++ (spaced xs).toList) := by
  simp [spaced, String.toList_join]

theorem intercalate_blank (x : String) (xs : List String) :
    " ".intercalate (x :: xs) = x ++ spaced xs := by
  refine String.toList_injective ?_
  induction xs generalizing x with
  | nil => simp [spaced]
  | cons y ys ih =>
    rw [String.intercalate_cons_cons, String.toList_append, String.toList_append, ih,
      String.toList_append, String.toList_append, toList_spaced_cons]
    simp

theorem Apart.spaced {cs : List Char} (h : Apart cs) (xs : List String) :
    Apart ((Kode.spaced xs).toList ++ cs) := by
  cases xs with
  | nil => simpa [Kode.spaced] using h
  | cons x xs =>
    rw [toList_spaced_cons]
    exact .space

/-- The text after an `ELSE` on the same line. -/
def Block.inlineElse : Option (List Statement) → String
  | none => ""
  | some body => " ELSE" ++ spaced (Block.inlines body)

theorem Statement.inline_conditional (keyword : Span) (condition : Statement)
    (pass : List Statement) (fail : Option (List Statement)) (close : Span) :
    (Statement.conditional keyword condition pass fail close).inline =
      "IF " ++ condition.inline ++ " THEN" ++ spaced (Block.inlines pass) ++
        Block.inlineElse fail ++ " END" := by
  cases fail <;> rfl

theorem Apart.inlineElse {cs : List Char} (h : Apart cs) (fail : Option (List Statement)) :
    Apart ((Block.inlineElse fail).toList ++ cs) := by
  cases fail with
  | none => simpa [Block.inlineElse] using h
  | some body =>
    rw [Block.inlineElse, String.toList_append]
    exact .space

mutual

/-- A statement on one line spells its words. -/
theorem Statement.spells_inline (s : Statement) {cs : List Char} {ts : List Token}
    (hs : ∀ t ∈ s.words, t.Spelled) (ha : Apart cs) (h : Spells cs ts) :
    Spells (s.inline.toList ++ cs) (s.words ++ ts) := by
  match s with
  | .sequence [] => simpa [Statement.inline, Statement.words, Block.inlines, Block.words] using h
  | .sequence (s :: ss) =>
    simp only [Statement.words, Block.words, List.forall_mem_append] at hs
    have := s.spells_inline hs.1 (ha.spaced _) (Block.spells_spaced ss hs.2 ha h)
    simpa [Statement.inline, Statement.words, Block.words, Block.inlines, intercalate_blank]
      using this
  | .literal t => exact .word (hs t.bare (by simp [Statement.words])) ha h
  | .identifier t => exact .word (hs t.bare (by simp [Statement.words])) ha h
  | .assignment _ x v =>
    simp only [Statement.words, List.forall_mem_cons] at hs
    obtain ⟨hset, hx, hto, hv⟩ := hs
    have := Spells.word hset .space (.space (.word hx .space (.space (.word hto .space
      (.space (v.spells_inline hv ha h))))))
    simpa [Statement.inline, Statement.words, Token.ofKeyword, Keyword.word] using this
  | .operation l op _ r =>
    simp only [Statement.words, List.forall_mem_append, List.forall_mem_cons] at hs
    have := l.spells_inline hs.1 .space (.space (.word hs.2.1 .space
      (.space (r.spells_inline hs.2.2 ha h))))
    simpa [Statement.inline, Statement.words, Token.ofOperator] using this
  | .display _ v =>
    simp only [Statement.words, List.forall_mem_cons] at hs
    have := Spells.word hs.1 .space (.space (v.spells_inline hs.2 ha h))
    simpa [Statement.inline, Statement.words, Token.ofKeyword, Keyword.word] using this
  | .input _ =>
    simp only [Statement.words, List.forall_mem_cons] at hs
    exact .word hs.1 ha h
  | .conditional _ c p f _ =>
    simp only [Statement.words, List.forall_mem_append, List.forall_mem_cons] at hs
    obtain ⟨hif, hc, hthen, hp, hf, hend, -⟩ := hs
    -- From the end of the text to its beginning.
    have hend := (Spells.word hend ha h).space
    have hfail := Block.spells_inlineElse f hf .space hend
    have hpass := Block.spells_spaced p hp (.inlineElse .space f) hfail
    have hthen := (Spells.word hthen (.spaced (.inlineElse .space f) _) hpass).space
    have := Spells.word hif .space (c.spells_inline hc .space hthen).space
    rw [Statement.inline_conditional]
    simpa [Statement.words, Token.ofKeyword, Keyword.word] using this
  | .loop _ c b _ =>
    simp only [Statement.words, List.forall_mem_append, List.forall_mem_cons] at hs
    obtain ⟨hwhile, hc, hdo, hb, hend, -⟩ := hs
    have hend := (Spells.word hend ha h).space
    have hbody := Block.spells_spaced b hb .space hend
    have hdo := (Spells.word hdo (.spaced .space _) hbody).space
    have := Spells.word hwhile .space (c.spells_inline hc .space hdo).space
    simpa [Statement.inline, Statement.words, Token.ofKeyword, Keyword.word, spaced] using this

theorem Block.spells_spaced (b : List Statement) {cs : List Char} {ts : List Token}
    (hb : ∀ t ∈ Block.words b, t.Spelled) (ha : Apart cs) (h : Spells cs ts) :
    Spells ((spaced (Block.inlines b)).toList ++ cs) (Block.words b ++ ts) := by
  match b with
  | [] => simpa [spaced, Block.inlines, Block.words] using h
  | s :: ss =>
    simp only [Block.words, List.forall_mem_append] at hb
    have := s.spells_inline hb.1 (ha.spaced _) (Block.spells_spaced ss hb.2 ha h)
    rw [Block.inlines, toList_spaced_cons, Block.words]
    simpa using this.space

theorem Block.spells_inlineElse (b : Option (List Statement)) {cs : List Char} {ts : List Token}
    (hb : ∀ t ∈ Block.wordsElse b, t.Spelled) (ha : Apart cs) (h : Spells cs ts) :
    Spells ((Block.inlineElse b).toList ++ cs) (Block.wordsElse b ++ ts) := by
  match b with
  | none => simpa [Block.inlineElse, Block.wordsElse] using h
  | some body =>
    simp only [Block.wordsElse, List.forall_mem_cons] at hb
    have hbody := Block.spells_spaced body hb.2 ha h
    have := (Spells.word hb.1 (ha.spaced _) hbody).space
    simpa [Block.inlineElse, Block.wordsElse, Token.ofKeyword, Keyword.word] using this

end

/-! ## Lines -/

theorem Spells.indentation {cs : List Char} {ts : List Token} (h : Spells cs ts) (depth : Nat) :
    Spells ((Kode.indentation depth).toList ++ cs) ts := by
  rw [Kode.indentation, String.toList_ofList]
  induction depth with
  | zero => exact h
  | succ depth ih =>
    rw [List.replicate_succ, List.cons_append]
    exact ih.cons (by decide)

/-- A period at the end of a line. -/
theorem Spells.stop {cs : List Char} {ts : List Token} (h : Spells cs ts) :
    Spells ('.' :: '\n' :: cs) (.stop :: ts) :=
  .word Token.spelled_stop .newline h.newline

/-- A statement on a line, with or without a period. -/
theorem Statement.spells_line (s : Statement) {cs : List Char} {ts : List Token}
    (hs : ∀ t ∈ s.words, t.Spelled) (h : Spells cs ts) (depth : Nat) :
    Spells ((indentation depth ++ s.inline ++ "\n").toList ++ cs) (s.words ++ ts) := by
  have := (s.spells_inline hs .newline h.newline).indentation depth
  simpa using this

theorem Statement.spells_stopped (s : Statement) {cs : List Char} {ts : List Token}
    (hs : ∀ t ∈ s.words, t.Spelled) (h : Spells cs ts) (depth : Nat) :
    Spells ((indentation depth ++ s.inline ++ ".\n").toList ++ cs) (s.words ++ .stop :: ts) := by
  have := (s.spells_inline hs (.stop (by decide) cs) h.stop).indentation depth
  simpa using this

/-- What follows the first branch of a condition, up to its `END`. -/
def Block.formatElse (depth : Nat) : Option (List Statement) → String
  | none => ""
  | some body => indentation depth ++ "ELSE\n" ++ Block.formatAt (depth + 1) body

theorem Statement.formatAt_conditional (depth : Nat) (keyword : Span) (condition : Statement)
    (pass : List Statement) (fail : Option (List Statement)) (close : Span) :
    (Statement.conditional keyword condition pass fail close).formatAt depth =
      indentation depth ++ "IF " ++ condition.inline ++ " THEN\n" ++
        Block.formatAt (depth + 1) pass ++ Block.formatElse depth fail ++
        indentation depth ++ "END.\n" := by
  cases fail <;> rfl

theorem spells_end {cs : List Char} {ts : List Token} (h : Spells cs ts) (depth : Nat) :
    Spells ((indentation depth).toList ++ ("END.\n".toList ++ cs))
      (.ofKeyword .END :: .stop :: ts) :=
  (Spells.word (Token.spelled_ofKeyword .END) (.stop (by decide) cs) h.stop).indentation depth

mutual

/-- A statement on lines of its own spells its lines. -/
theorem Statement.spells_formatAt (s : Statement) {cs : List Char} {ts : List Token}
    (hs : ∀ t ∈ s.words, t.Spelled) (h : Spells cs ts) (depth : Nat) :
    Spells ((s.formatAt depth).toList ++ cs) (s.lines ++ ts) := by
  match s with
  | .sequence b => exact Block.spells_formatAt b hs h depth
  | .conditional _ c p f _ =>
    simp only [Statement.words, List.forall_mem_append, List.forall_mem_cons] at hs
    obtain ⟨hif, hc, hthen, hp, hf, hend, -⟩ := hs
    have hfail := Block.spells_formatElse f hf (spells_end h depth) depth
    have hpass := Block.spells_formatAt p hp hfail (depth + 1)
    have hthen := (Spells.word hthen .newline hpass.newline).space
    have := (Spells.word hif .space (c.spells_inline hc .space hthen).space).indentation depth
    rw [Statement.formatAt_conditional]
    simpa [Statement.lines, Token.ofKeyword, Keyword.word] using this
  | .loop _ c b _ =>
    simp only [Statement.words, List.forall_mem_append, List.forall_mem_cons] at hs
    obtain ⟨hwhile, hc, hdo, hb, hend, -⟩ := hs
    have hbody := Block.spells_formatAt b hb (spells_end h depth) (depth + 1)
    have hdo := (Spells.word hdo .newline hbody.newline).space
    have := (Spells.word hwhile .space (c.spells_inline hc .space hdo).space).indentation depth
    simpa [Statement.formatAt, Statement.lines, Token.ofKeyword, Keyword.word] using this
  | .display k v =>
    simpa [Statement.formatAt, Statement.lines] using
      (Statement.display k v).spells_stopped hs h depth
  | .assignment k x v =>
    simpa [Statement.formatAt, Statement.lines] using
      (Statement.assignment k x v).spells_stopped hs h depth
  | .input k =>
    simpa [Statement.formatAt, Statement.lines] using
      (Statement.input k).spells_stopped hs h depth
  | .literal t => exact (Statement.literal t).spells_line hs h depth
  | .identifier t => exact (Statement.identifier t).spells_line hs h depth
  | .operation l op site r => exact (Statement.operation l op site r).spells_line hs h depth

theorem Block.spells_formatAt (b : List Statement) {cs : List Char} {ts : List Token}
    (hb : ∀ t ∈ Block.words b, t.Spelled) (h : Spells cs ts) (depth : Nat) :
    Spells ((Block.formatAt depth b).toList ++ cs) (Block.lines b ++ ts) := by
  match b with
  | [] => simpa [Block.formatAt, Block.lines] using h
  | s :: ss =>
    simp only [Block.words, List.forall_mem_append] at hb
    have := s.spells_formatAt hb.1 (Block.spells_formatAt ss hb.2 h depth) depth
    simpa [Block.formatAt, Block.lines] using this

theorem Block.spells_formatElse (b : Option (List Statement)) {cs : List Char} {ts : List Token}
    (hb : ∀ t ∈ Block.wordsElse b, t.Spelled) (h : Spells cs ts) (depth : Nat) :
    Spells ((Block.formatElse depth b).toList ++ cs) (Block.linesElse b ++ ts) := by
  match b with
  | none => simpa [Block.formatElse, Block.linesElse] using h
  | some body =>
    simp only [Block.wordsElse, List.forall_mem_cons] at hb
    have hbody := Block.spells_formatAt body hb.2 h (depth + 1)
    have := (Spells.word hb.1 .newline hbody.newline).indentation depth
    simpa [Block.formatElse, Block.linesElse, Token.ofKeyword, Keyword.word] using this

end

/-- The formatted text of a program spells its lines. -/
theorem Block.spells_format (b : Block) (hb : ∀ t ∈ Block.words b, t.Spelled) :
    Spells (Block.format b).toList (Block.lines b) := by
  simpa [Block.format] using Block.spells_formatAt b hb .nil 0

end Kode
