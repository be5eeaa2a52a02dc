import Kode.Source

/-!
# Spans

A *span* is a range of byte offsets of one source; everything that can be
pointed at, from a single word to a whole program, has one. A range may be
empty and still lie in a source, between two characters. The *empty span* is
another thing: it belongs to no source, and it is what a statement has that
was written nowhere.

Spans are joined by `Span.merge`, which covers both and what lies between
them:

* `merge_empty`, `empty_merge`: the empty span adds nothing;
* `merge_assoc`: the order in which spans are joined does not matter;
* `merge_self`: joining a span with itself does nothing.

Where the two belong to different sources the offsets are taken to be of the
first one's source.
-/

namespace Kode

/-- A range of byte offsets of a source, or the span of nothing. -/
inductive Span
  /-- The span that belongs to no source. -/
  | empty
  /-- The offsets from `start`, included, to `stop`, excluded. -/
  | located (source : Source) (start stop : Nat) (ordered : start ≤ stop)
deriving DecidableEq

namespace Span

/-- The span from `start` to `stop`, if these are in order. -/
def of? (source : Source) (start stop : Nat) : Option Span :=
  if h : start ≤ stop then some (located source start stop h) else none

/-- The offset of the first byte. -/
def start : Span → Nat
  | empty => 0
  | located _ start _ _ => start

/-- The offset after the last byte. -/
def stop : Span → Nat
  | empty => 0
  | located _ _ stop _ => stop

/-- The number of bytes covered. -/
def length (s : Span) : Nat :=
  s.stop - s.start

/-- Whether no byte is covered. -/
def isEmpty (s : Span) : Bool :=
  s.start == s.stop

/-- The source, if there is one. -/
def source? : Span → Option Source
  | empty => none
  | located source _ _ _ => some source

/-- The name of the source; no name for the empty span. -/
def unit : Span → String
  | empty => ""
  | located source _ _ _ => source.name

/-- The text that is covered. -/
def text : Span → String
  | empty => ""
  | located source start stop _ => source.slice start stop

/-- The least span that covers both, in the source of the first. -/
def merge : Span → Span → Span
  | empty, t => t
  | s, empty => s
  | located source a b h, located _ a' b' _ =>
    located source (min a a') (max b b') (by omega)

/-- The least span that covers all of the list. -/
def mergeAll (spans : List Span) : Span :=
  spans.foldl merge empty

/-- Whether the spans cover the same offsets of sources that read the same. -/
def sameAs : Span → Span → Bool
  | empty, empty => true
  | located s a b _, located s' a' b' _ =>
    s.name == s'.name && s.text == s'.text && a == a' && b == b'
  | _, _ => false

/-- The position of the start, as shown to people: the name of the source, the
    line and the column. -/
def place : Span → String
  | empty => "<empty>"
  | located source start _ _ =>
    let p := source.position start
    source.name ++ ":" ++ toString p.line ++ ":" ++ toString p.column

/-- The bare offsets, as in dumps of a tree. -/
def offsets (s : Span) : String :=
  toString s.start ++ ".." ++ toString s.stop

theorem start_le_stop (s : Span) : s.start ≤ s.stop := by
  cases s with
  | empty => exact Nat.le_refl 0
  | located _ _ _ h => exact h

@[simp] theorem empty_merge (s : Span) : empty.merge s = s := by
  cases s <;> rfl

@[simp] theorem merge_empty (s : Span) : s.merge empty = s := by
  cases s <;> rfl

@[simp] theorem merge_self (s : Span) : s.merge s = s := by
  cases s with
  | empty => rfl
  | located => simp [merge]

theorem merge_assoc (s t u : Span) : (s.merge t).merge u = s.merge (t.merge u) := by
  cases s with
  | empty => simp
  | located =>
    cases t with
    | empty => simp
    | located =>
      cases u with
      | empty => simp
      | located => simp [merge, Nat.min_assoc, Nat.max_assoc]

@[simp] theorem mergeAll_nil : mergeAll [] = empty := rfl

theorem foldl_merge (s : Span) (spans : List Span) :
    spans.foldl merge s = s.merge (mergeAll spans) := by
  unfold mergeAll
  induction spans generalizing s with
  | nil => simp
  | cons t spans ih =>
    rw [List.foldl_cons, List.foldl_cons, ih, ih (empty.merge t), empty_merge, merge_assoc]

@[simp] theorem mergeAll_cons (s : Span) (spans : List Span) :
    mergeAll (s :: spans) = s.merge (mergeAll spans) := by
  rw [mergeAll, List.foldl_cons, foldl_merge, empty_merge]

end Span

end Kode
