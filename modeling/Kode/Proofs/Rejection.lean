import Kode.Proofs.Marks
import Kode.Statement.Parse

/-!
# What is pointed at in a text that is no program

Whatever the parser rejects, it points at something that can be seen: at a token,
or at several. The spans of its errors are joined from those of tokens, and none
of them is joined from no token at all. For that an empty value has to be told
from one that is nested too deeply, and the levels have to be used up by a
condition before they are by a body, which may well be empty.

* `Block.pointed_parseAt`: the parser of each level points at something, if it
  takes no block;
* `Source.marks_of_parse_error`: so does every parse error.
-/

namespace Kode

/-- The result is as required, or the error marks a part of the source. -/
def Pointed {α : Type} (source : Source) (Q : α → Prop) : Except ParseError α → Prop
  | .ok a => Q a
  | .error e => e.span.Marks source

/-- All of the tokens mark parts of the source. -/
abbrev Token.AllMark (source : Source) (ts : List Token) : Prop :=
  ∀ t ∈ ts, t.span.Marks source

namespace Pointed

variable {α β : Type} {source : Source} {Q : α → Prop} {R : β → Prop}

theorem bind {r : Except ParseError α} {f : α → Except ParseError β} (hr : Pointed source Q r)
    (hf : ∀ a, Q a → Pointed source R (f a)) : Pointed source R (r >>= f) := by
  cases r with
  | ok a => exact hf a hr
  | error e => exact hr

theorem map {r : Except ParseError α} {f : α → β} (hr : Pointed source Q r)
    (hf : ∀ a, Q a → R (f a)) : Pointed source R (r.map f) := by
  cases r with
  | ok a => exact hf a hr
  | error e => exact hr

theorem mono {Q' : α → Prop} {r : Except ParseError α} (hr : Pointed source Q r)
    (h : ∀ a, Q a → Q' a) : Pointed source Q' r := by
  cases r with
  | ok a => exact h a hr
  | error e => exact hr

end Pointed

/-- The parser points at something if there is something. That it takes one block
    means that it would take the empty one. -/
structure Pointing (source : Source) (nested : BlockParser) : Prop where
  pointed : ∀ ts, ts ≠ [] → Token.AllMark source ts → Pointed source (fun _ => True) (nested ts)
  nil_of_ok : ∀ ts b, nested ts = .ok b → nested [] = .ok []

/-! ## Cutting -/

theorem pointed_cutTerminator {source : Source} (p : Token → Bool) (expected : Pattern)
    {opener : Token} {ts : List Token} (ho : opener.span.Marks source)
    (hts : Token.AllMark source ts) :
    Pointed source (fun c => Token.AllMark source c.before ∧ c.found.span.Marks source ∧
      Token.AllMark source c.after) (Statement.cutTerminator p expected opener ts) := by
  rw [Statement.cutTerminator]
  cases hc : cutAt? p ts with
  | none => exact Token.marks_spanOf (by simp) (List.forall_mem_cons.2 ⟨ho, hts⟩)
  | some c =>
    rw [(cutAt?_eq_some hc).1, Token.AllMark, List.forall_mem_append, List.forall_mem_cons] at hts
    exact hts

/-- The `ELSE` that is one too many is among the tokens. -/
theorem mem_of_duplicateElse {rule : ElseRule} {depth : Nat} {ts : List Token} {t : Token}
    (h : scanBody rule depth ts = .error (.duplicateElse t)) : t ∈ ts := by
  have step {f : Body → Body} {r : Except BodyFault Body} {u : Token} {us : List Token}
      (ih : r = .error (.duplicateElse t) → t ∈ us) (h : r.map f = .error (.duplicateElse t)) :
      t ∈ u :: us := by
    cases r with
    | ok b => simp [Except.map] at h
    | error e => exact List.mem_cons_of_mem _ (ih h)
  fun_induction scanBody rule depth ts with
  | case1 => simp at h
  | case2 rule depth u us hk ih => exact step ih h
  | case3 rule depth u us hk ih => exact step ih h
  | case4 rule u us hk => simp at h
  | case5 rule u us hk d ih => exact step ih h
  | case6 u us hk ih => exact step ih h
  | case7 u us hk =>
    obtain rfl := BodyFault.duplicateElse.inj (Except.error.inj h)
    exact List.mem_cons_self
  | case8 rule depth u us hk _ _ ih => exact step ih h
  | case9 rule depth u us _ _ _ _ ih => exact step ih h

theorem pointed_cutBody {source : Source} (rule : ElseRule) {all ts : List Token}
    (hne : all ≠ []) (hall : Token.AllMark source all) (hts : Token.AllMark source ts) :
    Pointed source (fun b => Token.AllMark source b.pass ∧
      (∀ fail ∈ b.fail, Token.AllMark source fail) ∧ b.close.span.Marks source ∧
      Token.AllMark source b.rest) (Statement.cutBody rule all ts) := by
  rw [Statement.cutBody]
  cases hb : scanBody rule 0 ts with
  | ok b =>
    cases (scanBody_eq_ok hb).1 with
    | plain hf =>
      rw [Token.AllMark, List.forall_mem_append, List.forall_mem_cons] at hts
      exact ⟨hts.1, by simp [hf], hts.2⟩
    | split hf hm =>
      simp only [Token.AllMark, List.forall_mem_append, List.forall_mem_cons] at hts
      refine ⟨hts.1.1, ?_, hts.2⟩
      intro fail hfail
      rw [hf] at hfail
      obtain rfl := Option.some.inj hfail
      exact hts.1.2.2
  | error e =>
    cases e with
    | unclosed => exact Token.marks_spanOf hne hall
    | duplicateElse t => exact hts t (mem_of_duplicateElse hb)

/-! ## Statements -/

namespace Statement

variable {source : Source} {nested : BlockParser} (h : Pointing source nested)

include h

theorem pointed_parseValue {anchor : Span} {ts : List Token} (ha : anchor.Marks source)
    (hts : Token.AllMark source ts) :
    Pointed source (fun _ => nested [] = .ok []) (parseValue nested anchor ts) := by
  rw [parseValue]
  cases ts with
  | nil => exact ha
  | cons t ts =>
    rw [if_neg (by simp)]
    have hp := h.pointed (t :: ts) (by simp) hts
    cases hb : nested (t :: ts) with
    | ok b => exact h.nil_of_ok _ _ hb
    | error e =>
      rw [hb] at hp
      exact hp

omit h in
/-- A block that may be empty is parsed after one that has been taken. -/
theorem pointed_body (h : Pointing source nested) (hnil : nested [] = .ok []) {ts : List Token}
    (hts : Token.AllMark source ts) : Pointed source (fun _ => True) (nested ts) := by
  cases ts with
  | nil =>
    rw [hnil]
    trivial
  | cons t ts => exact h.pointed _ (by simp) hts

theorem pointed_parseElse (hnil : nested [] = .ok []) {ts : Option (List Token)}
    (hts : ∀ fail ∈ ts, Token.AllMark source fail) :
    Pointed source (fun _ => True) (parseElse nested ts) := by
  cases ts with
  | none => trivial
  | some fail => exact (pointed_body h hnil (hts fail rfl)).map fun _ _ => trivial

theorem pointed_parseUpToPeriod {opener : Token} {ts : List Token}
    (ho : opener.span.Marks source) (hts : Token.AllMark source ts) :
    Pointed source (fun p => Token.AllMark source p.2) (parseUpToPeriod nested opener ts) :=
  (pointed_cutTerminator _ _ ho hts).bind fun _ ⟨hbefore, _, hafter⟩ =>
    (pointed_parseValue h ho hbefore).bind fun _ _ => hafter

omit h in
theorem allMark_dropPeriod {ts : List Token} (hts : Token.AllMark source ts) :
    Token.AllMark source (dropPeriod ts) := by
  unfold dropPeriod
  split
  · split
    · exact (List.forall_mem_cons.1 hts).2
    · exact hts
  · exact hts

theorem pointed_parseConditional {keyword : Token} {ts : List Token}
    (hk : keyword.span.Marks source) (hts : Token.AllMark source ts) :
    Pointed source (fun p => Token.AllMark source p.2) (parseConditional nested keyword ts) := by
  refine (pointed_cutTerminator _ _ hk hts).bind fun cut ⟨hbefore, hfound, hafter⟩ => ?_
  refine (pointed_cutBody _ (by simp) (List.forall_mem_cons.2 ⟨hk, hts⟩) hafter).bind
    fun body ⟨hpass, hfail, _, hrest⟩ => ?_
  refine (pointed_parseValue h (hk.merge hfound) hbefore).bind fun _ hnil => ?_
  refine (pointed_body h hnil hpass).bind fun _ _ => ?_
  exact (pointed_parseElse h hnil hfail).bind fun _ _ => allMark_dropPeriod hrest

theorem pointed_parseLoop {keyword : Token} {ts : List Token}
    (hk : keyword.span.Marks source) (hts : Token.AllMark source ts) :
    Pointed source (fun p => Token.AllMark source p.2) (parseLoop nested keyword ts) := by
  refine (pointed_cutTerminator _ _ hk hts).bind fun cut ⟨hbefore, hfound, hafter⟩ => ?_
  refine (pointed_cutBody _ (by simp) (List.forall_mem_cons.2 ⟨hk, hts⟩) hafter).bind
    fun body ⟨hpass, _, _, hrest⟩ => ?_
  refine (pointed_parseValue h (hk.merge hfound) hbefore).bind fun _ hnil => ?_
  exact (pointed_body h hnil hpass).bind fun _ _ => allMark_dropPeriod hrest

theorem pointed_parseDisplay {keyword : Token} {ts : List Token}
    (hk : keyword.span.Marks source) (hts : Token.AllMark source ts) :
    Pointed source (fun p => Token.AllMark source p.2) (parseDisplay nested keyword ts) :=
  (pointed_parseUpToPeriod h hk hts).bind fun _ hrest => hrest

omit h in
theorem marks_nextSpan {last : Token} {ts : List Token} (hl : last.span.Marks source)
    (hts : Token.AllMark source ts) : (nextSpan last ts).Marks source := by
  cases ts with
  | nil => exact hl
  | cons t ts => exact hts t List.mem_cons_self

theorem pointed_parseAssignment {keyword : Token} {ts : List Token}
    (hk : keyword.span.Marks source) (hts : Token.AllMark source ts) :
    Pointed source (fun p => Token.AllMark source p.2) (parseAssignment nested keyword ts) := by
  unfold parseAssignment
  split
  · rename_i target ts'
    obtain ⟨ht, hts'⟩ := List.forall_mem_cons.1 hts
    split
    · split
      · rename_i word rest
        obtain ⟨hw, hrest⟩ := List.forall_mem_cons.1 hts'
        split
        · exact (pointed_parseUpToPeriod h hw hrest).bind fun _ hrest => hrest
        · exact marks_nextSpan ht hts'
      · exact marks_nextSpan ht hts'
    · exact marks_nextSpan hk hts
  · exact marks_nextSpan hk hts

theorem pointed_parseOperand (op : Operator) {site : Span} {ts : List Token}
    (hs : site.Marks source) (hts : Token.AllMark source ts) :
    Pointed source (fun _ => True) (parseOperand nested op site ts) := by
  rw [parseOperand]
  split
  · exact hs
  · exact (pointed_parseValue h hs hts).mono fun _ _ => trivial

theorem pointed_parseOperation {ts : List Token} (hne : ts ≠ []) (hts : Token.AllMark source ts) :
    Pointed source (fun p => Token.AllMark source p.2) (parseOperation nested ts) := by
  have hspan := Token.marks_spanOf hne hts
  unfold parseOperation
  split
  · split
    · exact hspan
    · rename_i sides hs
      rw [(cutLoosest?_eq_some hs).1, Token.AllMark, List.forall_mem_append,
        List.forall_mem_cons] at hts
      obtain ⟨hl, hsite, hr⟩ := hts
      refine (pointed_parseOperand h _ hsite hl).bind fun _ _ => ?_
      refine (pointed_parseOperand h _ hsite hr).bind fun _ _ => ?_
      exact fun t ht => absurd ht List.not_mem_nil
  · exact hspan

theorem pointed_parseInput {keyword : Token} {ts : List Token}
    (hk : keyword.span.Marks source) (hts : Token.AllMark source ts) :
    Pointed source (fun p => Token.AllMark source p.2) (parseInput nested keyword ts) := by
  unfold parseInput
  split
  · exact hts
  · split
    · exact (List.forall_mem_cons.1 hts).2
    · exact pointed_parseOperation h (by simp) (List.forall_mem_cons.2 ⟨hk, hts⟩)

theorem pointed_parseStatement {t : Token} {ts : List Token} (ht : t.span.Marks source)
    (hts : Token.AllMark source ts) :
    Pointed source (fun p => Token.AllMark source p.2) (parseStatement nested t ts) := by
  unfold parseStatement
  split
  · exact pointed_parseConditional h ht hts
  · exact pointed_parseLoop h ht hts
  · exact pointed_parseDisplay h ht hts
  · exact pointed_parseAssignment h ht hts
  · exact pointed_parseInput h ht hts
  · split
    · exact fun u hu => absurd hu List.not_mem_nil
    · split
      · exact fun u hu => absurd hu List.not_mem_nil
      · exact pointed_parseOperation h (by simp) (List.forall_mem_cons.2 ⟨ht, hts⟩)

end Statement

/-! ## Blocks -/

namespace Block

variable {source : Source} {nested : BlockParser}

theorem pointed_parse (h : Pointing source nested) {ts : List Token}
    (hts : Token.AllMark source ts) : Pointed source (fun _ => True) (parse nested ts) := by
  fun_induction parse nested ts with
  | case1 => trivial
  | case2 t ts e he =>
    obtain ⟨ht, hts⟩ := List.forall_mem_cons.1 hts
    have hs := Statement.pointed_parseStatement h ht hts
    rw [he] at hs
    exact hs
  | case3 t ts s rest hs ih =>
    obtain ⟨ht, hts⟩ := List.forall_mem_cons.1 hts
    have hrest := Statement.pointed_parseStatement h ht hts
    rw [hs] at hrest
    exact (ih hrest).map fun _ _ => trivial

theorem pointing_parse (h : Pointing source nested) : Pointing source (parse nested) :=
  ⟨fun _ _ hts => pointed_parse h hts, fun _ _ _ => by rw [parse.eq_def]⟩

/-- Where no level is left the parser points at all tokens, and takes no block at
    all. -/
theorem pointing_tooDeep (source : Source) :
    Pointing source fun ts => .error ⟨.nestingTooDeep maxDepth, Token.spanOf ts⟩ :=
  ⟨fun _ hne hts => Token.marks_spanOf hne hts, fun _ _ hb => by simp at hb⟩

theorem pointing_parseAt : ∀ levels, Pointing source (parseAt levels)
  | 0 => pointing_parse (pointing_tooDeep source)
  | levels + 1 => pointing_parse (pointing_parseAt levels)

/-- The parser of each level points at something, if it takes no block. -/
theorem pointed_parseAt (levels : Nat) {ts : List Token} (hts : Token.AllMark source ts) :
    Pointed source (fun _ => True) (parseAt levels ts) := by
  refine Statement.pointed_body (pointing_parseAt levels) ?_ hts
  cases levels <;> rw [parseAt, parse.eq_def]

end Block

/-- A text that is rejected is blamed for something that can be seen in it. -/
theorem Source.marks_of_parse_error {s : Source} {e : ParseError} (h : s.parse = .error e) :
    e.span.Marks s := by
  have htokens : Pointed s (Token.AllMark s) s.tokens := by
    cases hts : s.tokens with
    | error e => exact marks_of_tokens_error hts
    | ok ts => exact marks_of_tokens hts
  have hparse : Pointed s (fun _ => True) s.parse :=
    htokens.bind fun _ hts => Block.pointed_parseAt _ hts
  rw [h] at hparse
  exact hparse

end Kode
