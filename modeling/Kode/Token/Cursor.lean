import Kode.Statement.Parse

/-!
# Cursors

A cursor reads tokens one by one. It stands between two of them, and it may be
confined to a *window* of the tokens, which it does not leave. Windows are
given by places in the list of all tokens, so a window can also reach out of
the one that it is taken from.

A cursor never stands outside the tokens (`position_le`, `stop_le`).

* `remaining_next?`: reading takes the first of the remaining tokens;
* `remaining_takeUntil`: what is taken up to some token and what remains are
  the tokens that remained before.
-/

namespace Kode

/-- A place in a window of some tokens. -/
structure Cursor where
  tokens : List Token
  /-- The number of tokens in front of the cursor. -/
  position : Nat
  /-- The end of the window. -/
  stop : Nat
  position_le : position ≤ stop
  stop_le : stop ≤ tokens.length

namespace Cursor

/-- The cursor in front of all tokens. -/
def ofTokens (ts : List Token) : Cursor :=
  ⟨ts, 0, ts.length, Nat.zero_le _, Nat.le_refl _⟩

/-- The number of tokens that remain in the window. -/
def length (c : Cursor) : Nat :=
  c.stop - c.position

/-- Whether no token remains. -/
def isEmpty (c : Cursor) : Bool :=
  c.stop ≤ c.position

/-- The tokens that remain in the window. -/
def remaining (c : Cursor) : List Token :=
  (c.tokens.take c.stop).drop c.position

/-- The next token. -/
def peek? (c : Cursor) : Option Token :=
  c.remaining.head?

/-- Whether the next token is what the pattern asks for. -/
def sees (c : Cursor) (p : Pattern) : Bool :=
  match c.peek? with
  | some t => p.isMetBy t
  | none => false

@[simp] theorem length_remaining (c : Cursor) : c.remaining.length = c.length := by
  simp [remaining, length, Nat.min_eq_left c.stop_le]

/-- The window between two places of the list of all tokens, if it lies within
    the list. -/
def window? (c : Cursor) (start stop : Nat) : Option Cursor :=
  if h : start ≤ stop ∧ stop ≤ c.tokens.length then some ⟨c.tokens, start, stop, h.1, h.2⟩
  else none

/-- Moves `n` tokens ahead, or to the end of the window if that is nearer. -/
def skip (c : Cursor) (n : Nat) : Cursor :=
  { c with
    position := min (c.position + n) c.stop
    position_le := Nat.min_le_right _ _ }

/-- The next token, and the cursor after it. -/
def next? (c : Cursor) : Option (Token × Cursor) :=
  c.peek?.map fun t => (t, c.skip 1)

/-- The next token and the cursor after it, if the token is what the pattern
    asks for. -/
def nextIf? (c : Cursor) (p : Pattern) : Option (Token × Cursor) :=
  if c.sees p then c.next? else none

/-- The least span that covers all remaining tokens. -/
def span (c : Cursor) : Span :=
  Token.spanOf c.remaining

/-- The window of the next `n` tokens. -/
def ahead (c : Cursor) (n : Nat) : Cursor :=
  { c with
    stop := min (c.position + n) c.stop
    position_le := Nat.le_min.2 ⟨Nat.le_add_right _ _, c.position_le⟩
    stop_le := Nat.le_trans (Nat.min_le_right _ _) c.stop_le }

/-- The cursor one token back, if there is one. -/
def back (c : Cursor) : Cursor :=
  { c with
    position := c.position - 1
    position_le := Nat.le_trans (Nat.sub_le _ _) c.position_le }

/-- The window of the tokens in front of the first one that the pattern asks
    for, and the cursor before that one, or after it if it is to be taken as
    well. If there is none, the cursor goes to the end of the window, and the
    error points at all that it has passed, and at the token before. -/
def takeUntil (c : Cursor) (p : Pattern) (inclusive : Bool) : Except ParseError Cursor × Cursor :=
  match c.remaining.findIdx? p.isMetBy with
  | some n => (.ok (c.ahead n), c.skip (if inclusive then n + 1 else n))
  | none => (.error ⟨.missingTerminator p, c.back.span⟩, c.skip c.length)

/-- The program that the remaining tokens make up. -/
def parse (c : Cursor) : Except ParseError Block :=
  Block.ofTokens c.remaining

/-! ## What remains -/

@[simp] theorem remaining_ofTokens (ts : List Token) : (ofTokens ts).remaining = ts := by
  simp [ofTokens, remaining]

theorem remaining_skip (c : Cursor) (n : Nat) : (c.skip n).remaining = c.remaining.drop n := by
  have hl : (c.tokens.take c.stop).length = c.stop := by simp [c.stop_le]
  simp only [remaining, skip, List.drop_drop]
  rcases Nat.le_total (c.position + n) c.stop with h | h
  · rw [Nat.min_eq_left h]
  · rw [Nat.min_eq_right h, List.drop_eq_nil_of_le (by omega), List.drop_eq_nil_of_le (by omega)]

theorem remaining_ahead (c : Cursor) (n : Nat) : (c.ahead n).remaining = c.remaining.take n := by
  simp [remaining, ahead, List.take_drop, List.take_take]

/-- Reading takes the first of the remaining tokens. -/
theorem remaining_next? {c d : Cursor} {t : Token} (h : c.next? = some (t, d)) :
    c.remaining = t :: d.remaining := by
  obtain ⟨u, hu, he⟩ := Option.map_eq_some_iff.1 h
  obtain ⟨rfl, rfl⟩ := Prod.mk.inj he
  obtain ⟨us, hus⟩ := List.head?_eq_some_iff.1 hu
  rw [remaining_skip, hus, List.drop_one, List.tail_cons]

/-- What is taken and what remains are what remained before. -/
theorem remaining_takeUntil {c d e : Cursor} {p : Pattern} (h : c.takeUntil p false = (.ok d, e)) :
    d.remaining ++ e.remaining = c.remaining := by
  unfold takeUntil at h
  split at h
  · obtain ⟨h₁, rfl⟩ := Prod.mk.inj h
    obtain rfl := Except.ok.inj h₁
    rw [remaining_ahead, remaining_skip]
    simp
  · simp at h

end Cursor

end Kode
