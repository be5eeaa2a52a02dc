import Kode.Token.Cursor

/-!
# Streams

A *stream* is a cursor as bare numbers: nothing in it keeps the place within the window,
or the window within the tokens. Work on streams is done step by step, and every stream
that is made or moved is entered in a log (`Step`). It fails if it looks at tokens out of
bounds, or if a loop takes more rounds than it may (`Halt`): to show that it never does
is left to the proofs.

In bounds a stream does what a cursor does (`Cursor.advance_stream`,
`Cursor.takeUntil_stream`).
-/

namespace Kode

/-- A place in a window of some tokens. -/
structure Stream where
  tokens : List Token
  /-- The number of tokens in front of the place. -/
  position : Nat
  /-- The end of the window. -/
  stop : Nat

/-- What is done with streams. -/
inductive Step
  /-- The window `w` is made of the tokens of `s`. -/
  | cut (s w : Stream)
  /-- The place of a stream moves. -/
  | move (s s' : Stream)
  /-- While a statement is read from `s`, the window `w` is handed to a parser of its own. -/
  | enter (s w : Stream)
  /-- A statement was read from a copy of `s`, which `s` is replaced by. -/
  | commit (s s' : Stream)

/-- Why work on streams stops. -/
inductive Halt
  /-- What was looked at is out of bounds, or a number fell below zero. -/
  | outOfBounds
  /-- A loop took more rounds than it may. -/
  | outOfRounds
  | rejected (e : ParseError)

/-- Work on streams, and the log of its steps. -/
abbrev Work (α : Type) := EStateM Halt (List Step) α

namespace Work

def log (step : Step) : Work Unit :=
  modify fun steps => steps ++ [step]

def reject {α : Type} (e : ParseError) : Work α :=
  throw (.rejected e)

end Work

namespace Stream

open Work

/-- The stream in front of all tokens. -/
def ofTokens (ts : List Token) : Stream :=
  ⟨ts, 0, ts.length⟩

/-- The stream `n` tokens ahead. -/
def skip (s : Stream) (n : Nat) : Stream :=
  { s with position := s.position + n }

/-- The number of tokens that remain. -/
def length (s : Stream) : Work Nat :=
  if s.position ≤ s.stop then return s.stop - s.position else throw .outOfBounds

/-- The tokens that remain. -/
def remaining (s : Stream) : Work (List Token) :=
  if s.position ≤ s.stop ∧ s.stop ≤ s.tokens.length then
    return (s.tokens.take s.stop).drop s.position
  else throw .outOfBounds

/-- Whether no token remains. -/
def isEmpty (s : Stream) : Bool :=
  s.stop ≤ s.position

def peek (s : Stream) : Work (Option Token) := do
  return (← s.remaining).head?

/-- The token `n` places ahead. -/
def token (s : Stream) (n : Nat) : Work Token := do
  match (← s.remaining)[n]? with
  | some t => return t
  | none => throw .outOfBounds

/-- The least span that covers the tokens that remain. -/
def span (s : Stream) : Work Span := do
  return Token.spanOf (← s.remaining)

/-- The next token, and the stream behind it. -/
def advance (s : Stream) : Work (Option (Token × Stream)) := do
  match ← s.peek with
  | some t =>
    log (.move s (s.skip 1))
    return some (t, s.skip 1)
  | none => return none

/-- The same, if the token is what the pattern asks for. -/
def advanceIf (s : Stream) (p : Pattern) : Work (Option (Token × Stream)) := do
  match ← s.peek with
  | some t => if p.isMetBy t then s.advance else return none
  | none => return none

/-- The window between two places of the tokens. -/
def window (s : Stream) (start stop : Nat) : Work Stream := do
  log (.cut s ⟨s.tokens, start, stop⟩)
  return ⟨s.tokens, start, stop⟩

/-- The window of the tokens in front of the first one that the pattern asks for, and the
    stream before that one, or behind it. -/
def takeUntil (s : Stream) (p : Pattern) (inclusive : Bool) : Work (Stream × Stream) := do
  match (← s.remaining).findIdx? p.isMetBy with
  | some n =>
    let s' := s.skip (if inclusive then n + 1 else n)
    log (.move s s')
    let w ← s'.window s.position (s.position + n)
    return (w, s')
  | none =>
    let s' : Stream := { s with position := s.stop }
    log (.move s s')
    let w ← s'.window (s.position - 1) s'.stop
    reject ⟨.missingTerminator p, ← w.span⟩

end Stream

/-! ## Streams in bounds -/

/-- The stream of a cursor. -/
def Cursor.stream (c : Cursor) : Stream :=
  ⟨c.tokens, c.position, c.stop⟩

/-- The stream of tokens stands in its window, and the window in the tokens. -/
structure Stream.LiesIn (all : List Token) (s : Stream) : Prop where
  tokens_eq : s.tokens = all
  position_le : s.position ≤ s.stop
  stop_le : s.stop ≤ all.length

/-- The streams of a step lie in the tokens. A place moves ahead, and the end of its window
    stays; behind a statement it has moved. What is handed to another parser lies inside of
    the stream that it was cut from, and is shorter. -/
def Step.Safe (all : List Token) : Step → Prop
  | .cut s w => s.LiesIn all ∧ w.LiesIn all
  | .move s s' => s.LiesIn all ∧ s'.LiesIn all ∧ s'.stop = s.stop ∧ s.position ≤ s'.position
  | .enter s w => s.LiesIn all ∧ w.LiesIn all ∧ s.position ≤ w.position ∧ w.stop ≤ s.stop ∧
    w.stop - w.position < s.stop - s.position
  | .commit s s' => s.LiesIn all ∧ s'.LiesIn all ∧ s'.stop = s.stop ∧ s.position < s'.position

/-! ## Work that mirrors a parser of tokens -/

/-- Some work has come to the same end as a parser of tokens, by safe steps. -/
inductive Concurs {α β : Type} (safe : Step → Prop) (rel : α → β → Prop) :
    EStateM.Result Halt (List Step) α → Except ParseError β → Prop
  | ok {a : α} {b : β} {steps : List Step} : rel a b → (∀ step ∈ steps, safe step) →
      Concurs safe rel (.ok a steps) (.ok b)
  | error {e : ParseError} {steps : List Step} : (∀ step ∈ steps, safe step) →
      Concurs safe rel (.error (.rejected e) steps) (.error e)

/-- The work takes safe steps only, and comes to the same end as a parser of tokens. So it
    does not fail otherwise than by rejecting the tokens. -/
def Mirrors {α β : Type} (safe : Step → Prop) (rel : α → β → Prop) (m : Work α)
    (r : Except ParseError β) : Prop :=
  ∀ steps, (∀ step ∈ steps, safe step) → Concurs safe rel (m steps) r

/-- The work takes safe steps only, and its result is this one. -/
def Yields {α : Type} (safe : Step → Prop) (m : Work α) (a : α) : Prop :=
  Mirrors safe (fun a' _ => a' = a) m (.ok ())

section Mirrors

variable {α β γ δ : Type} {safe : Step → Prop} {rel : α → β → Prop} {rel' : γ → δ → Prop}
  {m : Work α} {r : Except ParseError β}

theorem mirrors_pure {a : α} {b : β} (h : rel a b) : Mirrors safe rel (pure a) (.ok b) :=
  fun _ hsafe => .ok h hsafe

theorem mirrors_reject (e : ParseError) : Mirrors safe rel (Work.reject e) (.error e) :=
  fun _ hsafe => .error hsafe

theorem mirrors_bind {k : α → Work γ} {k' : β → Except ParseError δ} (hm : Mirrors safe rel m r)
    (hk : ∀ a b, r = .ok b → rel a b → Mirrors safe rel' (k a) (k' b)) :
    Mirrors safe rel' (m >>= k) (r >>= k') := by
  intro steps hsafe
  have h := hm steps hsafe
  change Concurs safe rel' (EStateM.bind m k steps) (r.bind k')
  unfold EStateM.bind
  generalize m steps = x at h
  cases h with
  | ok hab hsafe => exact hk _ _ rfl hab _ hsafe
  | error hsafe => exact .error hsafe

theorem mirrors_map {k : α → Work γ} {f : β → δ} (hm : Mirrors safe rel m r)
    (hk : ∀ a b, r = .ok b → rel a b → Mirrors safe rel' (k a) (.ok (f b))) :
    Mirrors safe rel' (m >>= k) (r.map f) := by
  have hr : r.map f = r >>= fun b => .ok (f b) := by cases r <;> rfl
  exact hr ▸ mirrors_bind hm hk

theorem mirrors_error {e : ParseError} {k : α → Work γ} (hm : Mirrors safe rel m (.error e)) :
    Mirrors safe rel' (m >>= k) (.error e) :=
  show Mirrors safe rel' (m >>= k) (.error e >>= fun _ => .error e) from
    mirrors_bind hm fun _ _ h => nomatch h

/-- The parser has its result before the work is done. -/
theorem mirrors_then {rel' : γ → β → Prop} {k : α → Work γ} (hm : Mirrors safe rel m r)
    (hk : ∀ a b, r = .ok b → rel a b → Mirrors safe rel' (k a) (.ok b)) :
    Mirrors safe rel' (m >>= k) r := by
  have h := mirrors_bind hm hk
  exact bind_pure r ▸ h

/-- The work is done before the parser has its result. -/
theorem mirrors_map_pure {rel' : α → δ → Prop} {f : β → δ} (hm : Mirrors safe rel m r)
    (hf : ∀ a b, rel a b → rel' a (f b)) : Mirrors safe rel' m (r.map f) :=
  bind_pure m ▸ mirrors_map hm fun a b _ hab => mirrors_pure (hf a b hab)

theorem yields_pure (a : α) : Yields safe (pure a) a :=
  mirrors_pure rfl

theorem yields_log {step : Step} (h : safe step) : Yields safe (Work.log step) () :=
  fun _ hsafe => .ok rfl (List.forall_mem_append.2 ⟨hsafe, by simpa using h⟩)

/-- Behind work whose result is known goes on what mirrors the parser. -/
theorem Yields.bind {a : α} {k : α → Work γ} {r : Except ParseError δ} (hm : Yields safe m a)
    (hk : Mirrors safe rel' (k a) r) : Mirrors safe rel' (m >>= k) r :=
  show Mirrors safe rel' (m >>= k) (.ok () >>= fun _ => r) from
    mirrors_bind hm fun _ _ _ h => h ▸ hk

theorem Yields.then {a : α} {c : γ} {k : α → Work γ} (hm : Yields safe m a)
    (hk : Yields safe (k a) c) : Yields safe (m >>= k) c :=
  Yields.bind hm hk

end Mirrors

/-! ## Streams and the tokens that remain -/

namespace Stream

/-- The tokens `ts` remain in the stream, and behind its window come the tokens `back`,
    which end all tokens. -/
structure Holds (all back ts : List Token) (s : Stream) : Prop where
  tokens_eq : s.tokens = all
  suffix : ts ++ back <:+ all
  position_eq : s.position + ts.length = s.stop
  stop_eq : s.stop + back.length = all.length

variable {all back ts us : List Token} {t : Token} {s : Stream}

theorem holds_ofTokens (ts : List Token) : (ofTokens ts).Holds ts [] ts :=
  ⟨rfl, by simp, Nat.zero_add _, rfl⟩

theorem Holds.liesIn (h : s.Holds all back ts) : s.LiesIn all :=
  ⟨h.tokens_eq, Nat.le.intro h.position_eq, Nat.le.intro h.stop_eq⟩

theorem LiesIn.holds (h : s.LiesIn all) :
    s.Holds all (all.drop s.stop) ((all.take s.stop).drop s.position) where
  tokens_eq := h.tokens_eq
  suffix := by
    have hstop : all.drop s.stop = (all.drop s.position).drop (s.stop - s.position) := by
      rw [List.drop_drop, Nat.add_sub_cancel' h.position_le]
    rw [hstop, List.drop_take, List.take_append_drop]
    exact List.drop_suffix _ _
  position_eq := by
    have h₁ := h.position_le
    have h₂ := h.stop_le
    rw [List.length_drop, List.length_take]
    omega
  stop_eq := by
    have := h.stop_le
    rw [List.length_drop]
    omega

/-- The stream that has passed the first tokens. -/
theorem Holds.skip (us : List Token) (h : s.Holds all back (us ++ ts)) :
    (s.skip us.length).Holds all back ts where
  tokens_eq := h.tokens_eq
  suffix := (List.suffix_append us _).trans (by simpa using h.suffix)
  position_eq := by
    have := h.position_eq
    rw [List.length_append] at this
    simp only [Stream.skip]
    omega
  stop_eq := h.stop_eq

theorem Holds.tail (h : s.Holds all back (t :: ts)) : (s.skip 1).Holds all back ts :=
  h.skip [t]

/-- The stream that has passed all tokens. -/
theorem Holds.atEnd (h : s.Holds all back ts) :
    (⟨s.tokens, s.stop, s.stop⟩ : Stream).Holds all back [] :=
  ⟨h.tokens_eq, (List.suffix_append ts back).trans h.suffix, rfl, h.stop_eq⟩

/-- The window of the first tokens. -/
theorem Holds.ahead (h : s.Holds all back (us ++ ts)) :
    (⟨s.tokens, s.position, s.position + us.length⟩ : Stream).Holds all (ts ++ back) us where
  tokens_eq := h.tokens_eq
  suffix := by simpa using h.suffix
  position_eq := rfl
  stop_eq := by
    have h₁ := h.position_eq
    have h₂ := h.stop_eq
    rw [List.length_append] at h₁ ⊢
    simp only
    omega

theorem Holds.isEmpty (h : s.Holds all back ts) : s.isEmpty = ts.isEmpty := by
  have := h.position_eq
  cases ts <;> simp [Stream.isEmpty] at * <;> omega

/-- The tokens of a stream in bounds. -/
theorem Holds.take_drop (h : s.Holds all back ts) :
    (s.tokens.take s.stop).drop s.position = ts := by
  obtain ⟨front, hall⟩ := h.suffix
  have h₁ := h.position_eq
  have h₂ := h.stop_eq
  have hlen := congrArg List.length hall
  simp only [List.length_append] at hlen
  rw [h.tokens_eq, ← hall, show s.position = front.length by omega,
    show s.stop = front.length + ts.length by omega, List.take_append, List.drop_append]
  simp

variable {safe : Step → Prop}

theorem Holds.remaining (h : s.Holds all back ts) : Yields safe s.remaining ts := by
  rw [Stream.remaining, if_pos ⟨h.liesIn.position_le, h.tokens_eq ▸ h.liesIn.stop_le⟩,
    h.take_drop]
  exact yields_pure ts

theorem Holds.length (h : s.Holds all back ts) : Yields safe s.length ts.length := by
  rw [Stream.length, if_pos h.liesIn.position_le,
    Nat.sub_eq_of_eq_add (Nat.add_comm _ _ ▸ h.position_eq.symm)]
  exact yields_pure _

theorem Holds.peek (h : s.Holds all back ts) : Yields safe s.peek ts.head? :=
  h.remaining.then (yields_pure _)

theorem Holds.token (h : s.Holds all back (us ++ t :: ts)) :
    Yields safe (s.token us.length) t := by
  refine h.remaining.then ?_
  simp only [List.getElem?_append_right (Nat.le_refl _), Nat.sub_self, List.getElem?_cons_zero]
  exact yields_pure t

theorem Holds.span (h : s.Holds all back ts) : Yields safe s.span (Token.spanOf ts) :=
  h.remaining.then (yields_pure _)

/-! ## Safe steps -/

theorem Holds.safe_move {s' : Stream} (h : s.Holds all back ts) (h' : s'.Holds all back us)
    (hlen : us.length ≤ ts.length) : Step.Safe all (.move s s') := by
  have h₁ := h.position_eq
  have h₂ := h.stop_eq
  have h₁' := h'.position_eq
  have h₂' := h'.stop_eq
  exact ⟨h.liesIn, h'.liesIn, by omega, by omega⟩

theorem Holds.safe_commit {s' : Stream} (h : s.Holds all back ts) (h' : s'.Holds all back us)
    (hlen : us.length < ts.length) : Step.Safe all (.commit s s') := by
  have h₁ := h.position_eq
  have h₂ := h.stop_eq
  have h₁' := h'.position_eq
  have h₂' := h'.stop_eq
  exact ⟨h.liesIn, h'.liesIn, by omega, by omega⟩

/-- What comes before and behind the window handed over is outside of it. -/
theorem Holds.safe_enter {w : Stream} {front rest : List Token} (h : s.Holds all back ts)
    (hw : w.Holds all (rest ++ back) us) (hts : ts = front ++ us ++ rest)
    (hlt : us.length < ts.length) : Step.Safe all (.enter s w) := by
  have h₁ := h.position_eq
  have h₂ := h.stop_eq
  have h₁' := hw.position_eq
  have h₂' := hw.stop_eq
  have hlen := congrArg List.length hts
  simp only [List.length_append] at hlen h₂'
  exact ⟨h.liesIn, hw.liesIn, by omega, by omega, by omega⟩

/-! ## Reading -/

theorem Holds.advance (h : s.Holds all back (t :: ts)) :
    Yields (Step.Safe all) s.advance (some (t, s.skip 1)) :=
  h.peek.then ((yields_log (h.safe_move h.tail (Nat.le_succ _))).then (yields_pure _))

theorem Holds.advance_nil (h : s.Holds all back []) : Yields (Step.Safe all) s.advance none :=
  h.peek.then (yields_pure _)

theorem Holds.advanceIf {p : Pattern} (h : s.Holds all back (t :: ts)) (ht : p.isMetBy t = true) :
    Yields (Step.Safe all) (s.advanceIf p) (some (t, s.skip 1)) := by
  refine h.peek.then ?_
  simp only [List.head?_cons, ht, if_true]
  exact h.advance

theorem Holds.advanceIf_cons {p : Pattern} (h : s.Holds all back (t :: ts))
    (ht : p.isMetBy t = false) : Yields (Step.Safe all) (s.advanceIf p) none := by
  refine h.peek.then ?_
  simp only [List.head?_cons, ht]
  exact yields_pure _

theorem Holds.advanceIf_nil {p : Pattern} (h : s.Holds all back []) :
    Yields (Step.Safe all) (s.advanceIf p) none :=
  h.peek.then (yields_pure _)

theorem LiesIn.window {start stop : Nat} (h : s.LiesIn all)
    (hw : (⟨s.tokens, start, stop⟩ : Stream).LiesIn all) :
    Yields (Step.Safe all) (s.window start stop) ⟨s.tokens, start, stop⟩ :=
  (yields_log ⟨h, hw⟩).then (yields_pure _)

/-- Taking tokens is cutting them: at the same token, or with the same error, which also
    points at the token in front of the stream. -/
theorem Holds.takeUntil {p : Pattern} {inclusive : Bool} {opener : Token}
    (h : s.Holds all back ts) (hopener : opener :: (ts ++ back) <:+ all) :
    Mirrors (Step.Safe all)
      (fun m c => m.1.Holds all (c.found :: (c.after ++ back)) c.before ∧
        m.2.Holds all back (if inclusive then c.after else c.found :: c.after))
      (s.takeUntil p inclusive) (Statement.cutTerminator p.isMetBy p opener ts) := by
  refine h.remaining.bind ?_
  rw [Statement.cutTerminator]
  cases hcut : cutAt? p.isMetBy ts with
  | some c =>
    obtain ⟨hts, hfound, hbefore⟩ := cutAt?_eq_some hcut
    have hidx : ts.findIdx? p.isMetBy = some c.before.length := by
      rw [hts, List.findIdx?_append, List.findIdx?_eq_none_iff.2 hbefore, List.findIdx?_cons,
        if_pos hfound]
      simp
    have hs : s.Holds all back (c.before ++ c.found :: c.after) := hts ▸ h
    have hmoved : (s.skip (if inclusive then c.before.length + 1 else c.before.length)).Holds all
        back (if inclusive then c.after else c.found :: c.after) := by
      cases inclusive with
      | false => exact hs.skip c.before
      | true =>
        have hs' : s.Holds all back ((c.before ++ [c.found]) ++ c.after) := by simpa using hs
        simpa using hs'.skip (c.before ++ [c.found])
    simp only [hidx]
    refine (yields_log (h.safe_move hmoved ?_)).bind ((hmoved.liesIn.window hs.ahead.liesIn).bind
      (mirrors_pure ⟨hs.ahead, hmoved⟩))
    rw [hts]
    split <;> simp only [List.length_append, List.length_cons] <;> omega
  | none =>
    have hidx : ts.findIdx? p.isMetBy = none :=
      List.findIdx?_eq_none_iff.2 (cutAt?_eq_none_iff.1 hcut)
    have hend := h.atEnd
    have hwhole : (⟨s.tokens, s.position - 1, s.stop⟩ : Stream).Holds all back (opener :: ts) := by
      refine ⟨h.tokens_eq, hopener, ?_, h.stop_eq⟩
      have h₁ := h.position_eq
      have h₂ := h.stop_eq
      have h₃ := hopener.length_le
      simp only [List.length_cons, List.length_append] at h₃ ⊢
      omega
    simp only [hidx]
    have hwindow := hend.liesIn.window hwhole.liesIn
    exact (yields_log (h.safe_move hend (Nat.zero_le _))).bind
      (hwindow.bind (hwhole.span.bind (mirrors_reject _)))

end Stream

/-! ## Cursors -/

namespace Cursor

variable (c : Cursor)

theorem liesIn_stream : c.stream.LiesIn c.tokens :=
  ⟨rfl, c.position_le, c.stop_le⟩

theorem holds_stream : c.stream.Holds c.tokens (c.tokens.drop c.stop) c.remaining :=
  c.liesIn_stream.holds

/-- As long as it does not come to the end of the window, a cursor is moved by counting. -/
theorem stream_skip {n : Nat} (h : n ≤ c.remaining.length) :
    (c.skip n).stream = c.stream.skip n := by
  have hle : c.position + n ≤ c.stop := by
    have := c.position_le
    rw [length_remaining, Cursor.length] at h
    omega
  simp [stream, skip, Stream.skip, Nat.min_eq_left hle]

/-- Reading from a stream is reading from a cursor. -/
theorem advance_stream :
    Yields (Step.Safe c.tokens) c.stream.advance (c.next?.map fun r => (r.1, r.2.stream)) := by
  have h := c.holds_stream
  cases hts : c.remaining with
  | nil =>
    rw [hts] at h
    simpa [next?, peek?, hts] using h.advance_nil
  | cons t ts =>
    rw [hts] at h
    have hskip := c.stream_skip (n := 1) (by simp [hts])
    simpa [next?, peek?, hts, hskip] using h.advance

/-- Moving ahead in the window is safe. -/
theorem safe_move (n : Nat) : Step.Safe c.tokens (.move c.stream (c.skip n).stream) :=
  ⟨c.liesIn_stream, (c.skip n).liesIn_stream, rfl,
    Nat.le_min.2 ⟨Nat.le_add_right _ _, c.position_le⟩⟩

/-- Taking from a stream is taking from a cursor. -/
theorem takeUntil_stream (p : Pattern) (inclusive : Bool) :
    Mirrors (Step.Safe c.tokens)
      (fun m w => m.1 = w.stream ∧ m.2 = (c.takeUntil p inclusive).2.stream)
      (c.stream.takeUntil p inclusive) (c.takeUntil p inclusive).1 := by
  rw [takeUntil]
  refine c.holds_stream.remaining.bind ?_
  cases hidx : c.remaining.findIdx? p.isMetBy with
  | some n =>
    obtain ⟨hn, -⟩ := List.findIdx?_eq_some_iff_getElem.1 hidx
    have hskip := c.stream_skip (n := if inclusive then n + 1 else n) (by split <;> omega)
    have hahead : (⟨c.tokens, c.position, c.position + n⟩ : Stream) = (c.ahead n).stream := by
      have hle : c.position + n ≤ c.stop := by
        rw [length_remaining, Cursor.length] at hn
        omega
      simp [stream, ahead, Nat.min_eq_left hle]
    simp only [← hskip]
    refine (yields_log (c.safe_move _)).bind ?_
    have hwindow := (c.skip (if inclusive then n + 1 else n)).liesIn_stream.window
      (hahead ▸ (c.ahead n).liesIn_stream)
    exact hwindow.bind (mirrors_pure ⟨hahead, rfl⟩)
  | none =>
    have hend : (⟨c.tokens, c.stop, c.stop⟩ : Stream) = (c.skip c.length).stream := by
      rw [c.stream_skip (by simp)]
      simp [stream, Stream.skip, Cursor.length, Nat.add_sub_cancel' c.position_le]
    have hmove := c.safe_move c.length
    rw [← hend] at hmove
    have hwindow : Yields (Step.Safe c.tokens)
        (Stream.window ⟨c.tokens, c.stop, c.stop⟩ (c.position - 1) c.stop) c.back.stream :=
      Stream.LiesIn.window ⟨rfl, Nat.le_refl _, c.stop_le⟩ c.back.liesIn_stream
    exact (yields_log hmove).bind
      (hwindow.bind (c.back.holds_stream.span.bind (mirrors_reject _)))

end Cursor

end Kode
