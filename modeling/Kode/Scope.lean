import Kode.Value

/-!
# Scopes

The variables of a running program. Values are kept in one list for all
variables; beside it stands, for every block that is being executed, the frame
of the names that were first bound in it. When a block ends its frame goes, and
with it the values of exactly these names. A name that is bound again keeps its
place: setting an outer variable inside a block is seen after the block.

There is always an innermost frame, that of the program itself if no block is
open; it is not dropped.

* `get?_put_self`, `get?_put_of_ne`: binding a name changes that name only;
* `pop_push`: opening and closing a block changes nothing.
-/

namespace Kode

/-- The bindings of a running program. -/
structure Scope where
  /-- The names that are bound, with their values. -/
  values : List (String × Located)
  /-- The names first bound in the innermost block. -/
  inner : List String
  /-- Those first bound in the blocks around it, from the inside out. -/
  outer : List (List String)

namespace Scope

/-- No names, and no block open. -/
def empty : Scope := ⟨[], [], []⟩

/-- The number of frames. -/
def depth (s : Scope) : Nat :=
  s.outer.length + 1

/-- The value that the name is bound to. -/
def get? (s : Scope) (name : String) : Option Located :=
  s.values.lookup name

/-- Whether the name is bound. -/
def contains (s : Scope) (name : String) : Bool :=
  (s.get? name).isSome

/-- Opens a block. -/
def push (s : Scope) : Scope :=
  { s with inner := [], outer := s.inner :: s.outer }

/-- Closes the innermost block, if one is open. -/
def pop (s : Scope) : Scope :=
  match s.outer with
  | [] => s
  | frame :: frames =>
    { values := s.values.filter fun p => p.1 ∉ s.inner, inner := frame, outer := frames }

/-- Replaces the value of a name. -/
def update (name : String) (value : Located) : List (String × Located) → List (String × Located)
  | [] => []
  | p :: ps => if p.1 = name then (name, value) :: ps else p :: update name value ps

/-- Binds the name: a new one in the innermost block, and any other where it
    was bound before. -/
def put (s : Scope) (name : String) (value : Located) : Scope :=
  if s.contains name then { s with values := update name value s.values }
  else { s with values := (name, value) :: s.values, inner := name :: s.inner }

theorem lookup_update {name : String} {value : Located} {ps : List (String × Located)}
    (other : String) (h : (ps.lookup name).isSome) :
    (update name value ps).lookup other = if other = name then some value else ps.lookup other := by
  induction ps with
  | nil => simp at h
  | cons p ps ih =>
    obtain ⟨k, v⟩ := p
    by_cases hk : k = name
    · subst hk
      by_cases ho : other = k
      · simp [update, ho]
      · have : (other == k) = false := by simpa using ho
        simp [update, List.lookup_cons, ho, this]
    · have hn : (name == k) = false := by simpa using Ne.symm hk
      rw [List.lookup_cons, hn] at h
      by_cases ho : other = k
      · subst ho
        simp [update, hk]
      · have : (other == k) = false := by simpa using ho
        simp [update, List.lookup_cons, hk, this, ih h]

theorem get?_put (s : Scope) (name : String) (value : Located) (other : String) :
    (s.put name value).get? other = if other = name then some value else s.get? other := by
  unfold put
  split
  · rename_i h
    exact lookup_update other h
  · by_cases ho : other = name
    · simp [get?, ho]
    · have : (other == name) = false := by simpa using ho
      simp [get?, List.lookup_cons, ho, this]

@[simp] theorem get?_put_self (s : Scope) (name : String) (value : Located) :
    (s.put name value).get? name = some value := by
  simp [get?_put]

theorem get?_put_of_ne (s : Scope) {name other : String} (value : Located) (h : other ≠ name) :
    (s.put name value).get? other = s.get? other := by
  simp [get?_put, h]

/-- Opening and closing a block changes nothing. -/
@[simp] theorem pop_push (s : Scope) : s.push.pop = s := by
  obtain ⟨values, inner, outer⟩ := s
  have h : values.filter (fun p => p.1 ∉ ([] : List String)) = values :=
    List.filter_eq_self.2 (by simp)
  exact congrArg (fun kept => Scope.mk kept inner outer) h

@[simp] theorem depth_push (s : Scope) : s.push.depth = s.depth + 1 := by
  simp [push, depth]

@[simp] theorem depth_put (s : Scope) (name : String) (value : Located) :
    (s.put name value).depth = s.depth := by
  unfold put
  split <;> rfl

end Scope

end Kode
