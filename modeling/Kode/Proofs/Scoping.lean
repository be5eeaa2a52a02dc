import Kode.Proofs.Invariant

/-!
# Blocks and names

What evaluation does to the scope. All it does to the frames is to add names to
the innermost one, and only names that were not bound at the time
(`Scope.GrowsBy`); the frames of the blocks that it opens are gone again when
it stops, whatever made it stop. As the names in a frame that was opened empty
were all unbound before, dropping them restores exactly the names that were
bound (`Scope.GrowsBy.pop`).

* `Scope.growsBy_invariant`: evaluation lets the innermost frame grow;
* `run_scoping`: so a run changes no other frame and loses no name, and a
  condition or a loop neither adds a name nor takes one away.
-/

namespace Kode

namespace Scope

/-- The second scope is the first one after the names `fresh`, unbound before,
    were bound in the innermost block. Values may have changed. -/
structure GrowsBy (fresh : List String) (s s' : Scope) : Prop where
  outer : s'.outer = s.outer
  inner : s'.inner = fresh ++ s.inner
  unbound : ∀ name ∈ fresh, s.contains name = false
  contains : ∀ name, s'.contains name = (s.contains name || fresh.contains name)

@[simp] theorem contains_push (s : Scope) (name : String) :
    s.push.contains name = s.contains name := rfl

theorem contains_put (s : Scope) (name : String) (value : Located) (other : String) :
    (s.put name value).contains other = (other == name || s.contains other) := by
  unfold contains
  rw [get?_put]
  by_cases h : other = name <;> simp [h]

/-- Entries are dropped by their names, so a name that is kept has the value it
    had. -/
theorem lookup_filter (keep : String → Bool) (ps : List (String × Located)) (name : String) :
    (ps.filter fun p => keep p.1).lookup name = if keep name then ps.lookup name else none := by
  induction ps with
  | nil => simp
  | cons p ps ih =>
    obtain ⟨k, v⟩ := p
    rw [List.filter_cons]
    by_cases hm : name = k
    · subst hm
      cases hk : keep name <;> simp [hk, ih]
    · have hne : (name == k) = false := beq_eq_false_iff_ne.2 hm
      cases hk : keep k <;> simp [List.lookup_cons, hne, ih]

theorem contains_pop {s : Scope} (h : s.outer ≠ []) (name : String) :
    s.pop.contains name = (s.contains name && !s.inner.contains name) := by
  rw [pop]
  split
  · contradiction
  · simp only [contains, get?, lookup_filter fun n => decide (n ∉ s.inner)]
    by_cases hn : name ∈ s.inner <;> simp [hn]

theorem GrowsBy.refl (s : Scope) : GrowsBy [] s s :=
  ⟨rfl, rfl, by simp, by simp⟩

theorem GrowsBy.trans {s s' s'' : Scope} {fresh fresh' : List String} (h : GrowsBy fresh s s')
    (h' : GrowsBy fresh' s' s'') : GrowsBy (fresh' ++ fresh) s s'' where
  outer := h'.outer.trans h.outer
  inner := by rw [h'.inner, h.inner, List.append_assoc]
  unbound name hn := by
    rcases List.mem_append.1 hn with hn | hn
    · have := h'.unbound name hn
      rw [h.contains, Bool.or_eq_false_iff] at this
      exact this.1
    · exact h.unbound name hn
  contains name := by
    rw [h'.contains, h.contains, List.contains_append, Bool.or_assoc,
      Bool.or_comm (fresh.contains name)]

theorem growsBy_put (s : Scope) (name : String) (value : Located) :
    ∃ fresh, GrowsBy fresh s (s.put name value) := by
  cases h : s.contains name with
  | true =>
    refine ⟨[], by simp [put, h], by simp [put, h], by simp, fun other => ?_⟩
    rw [contains_put]
    by_cases ho : other = name <;> simp [ho, h]
  | false =>
    refine ⟨[name], by simp [put, h], by simp [put, h], by simpa using h, fun other => ?_⟩
    rw [contains_put, Bool.or_comm, List.contains_cons, List.contains_nil, Bool.or_false]

/-- What happened in a block is undone at its end: the names that were bound
    in it were not bound before. -/
theorem GrowsBy.pop {s s' : Scope} {fresh : List String} (h : GrowsBy fresh s.push s') :
    GrowsBy [] s s'.pop := by
  have ho : s'.outer = s.inner :: s.outer := h.outer
  have hi : s'.inner = fresh := by rw [h.inner]; simp [push]
  refine ⟨by simp [Scope.pop, ho], by simp [Scope.pop, ho], by simp, fun name => ?_⟩
  rw [contains_pop (by simp [ho]), h.contains, hi, contains_push]
  cases hf : fresh.contains name with
  | true =>
    have := h.unbound name (List.contains_iff_mem.1 hf)
    rw [contains_push] at this
    simp [this]
  | false => simp

/-- After a block the names that were bound before it have the values that they had at
    its end, and no others are bound. -/
theorem GrowsBy.get?_pop {s s' : Scope} {fresh : List String} (h : GrowsBy fresh s.push s')
    (name : String) : s'.pop.get? name = if s.contains name then s'.get? name else none := by
  have ho : s'.outer = s.inner :: s.outer := h.outer
  have hi : s'.inner = fresh := by rw [h.inner]; simp [push]
  have hc := h.contains name
  rw [contains_push] at hc
  rw [Scope.pop, ho, hi]
  change (s'.values.filter fun p => p.1 ∉ fresh).lookup name = _
  rw [lookup_filter fun n => decide (n ∉ fresh)]
  by_cases hf : name ∈ fresh
  · have hunbound := h.unbound name hf
    rw [contains_push] at hunbound
    simp [hf, hunbound]
  · cases hs : s.contains name with
    | true => simp [hf, get?]
    | false =>
      rw [hs, Bool.false_or, List.contains_eq_mem, decide_eq_false hf] at hc
      rw [Scope.contains, Option.isSome_eq_false_iff, Option.isNone_iff_eq_none] at hc
      rw [if_pos (by simpa using hf), if_neg Bool.false_ne_true]
      exact hc

/-- Every evaluation lets the innermost frame grow and does nothing else to the
    frames. -/
theorem growsBy_invariant :
    Run.Invariant fun st st' => ∃ fresh, GrowsBy fresh st.scope st'.scope where
  refl _ := ⟨[], .refl _⟩
  trans _ _ _ := fun ⟨_, h⟩ ⟨_, h'⟩ => ⟨_, h.trans h'⟩
  assign st name value := growsBy_put st.scope name value
  write _ _ := ⟨[], .refl _⟩
  ask _ _ _ _ := ⟨[], .refl _⟩
  note _ _ := ⟨[], .refl _⟩
  framed _ _ := fun ⟨_, h⟩ => ⟨[], h.pop⟩

end Scope

open Run

theorem Run.scope_after_noted (s : Statement) (r : Run Located) (st : State) :
    ((noted s r).after st).scope = (r.after st).scope := by
  rw [noted]
  rw [after_bind]
  rw [after]
  cases r st <;> rfl

/-- A run in a block of its own leaves the names that it found. -/
theorem Run.growsBy_framed {r : Run Located}
    (h : Keeps (fun st st' => ∃ fresh, Scope.GrowsBy fresh st.scope st'.scope) r) (s : Statement)
    (site : Span) (st : State) :
    Scope.GrowsBy [] st.scope
      ((noted s do let l ← framed r; return l.at site).after st).scope := by
  obtain ⟨fresh, hg⟩ := h { st with scope := st.scope.push }
  have hf : Scope.GrowsBy [] st.scope (r.framed.after st).scope := by
    rw [after_framed]
    exact hg.pop
  rw [scope_after_noted, after_bind]
  rw [after] at hf
  cases he : r.framed st <;> rw [he] at hf <;> exact hf

theorem Statement.growsBy_conditional (fuel : Nat) (keyword : Span) (condition : Statement)
    (pass : List Statement) (fail : Option (List Statement)) (close : Span) (st : State) :
    Scope.GrowsBy [] st.scope
      (after ((Statement.conditional keyword condition pass fail close).eval fuel) st).scope :=
  growsBy_framed (condition.keeps_choice Scope.growsBy_invariant fuel pass fail) _ _ st

theorem Statement.growsBy_loop (fuel : Nat) (keyword : Span) (condition : Statement)
    (body : List Statement) (close : Span) (st : State) :
    Scope.GrowsBy [] st.scope
      (after ((Statement.loop keyword condition body close).eval fuel) st).scope :=
  growsBy_framed (condition.keeps_rounds Scope.growsBy_invariant fuel body fuel .nothing) _ _ st

theorem Scope.GrowsBy.contains_eq {s s' : Scope} (h : GrowsBy [] s s') (name : String) :
    s'.contains name = s.contains name := by
  rw [h.contains, List.contains_nil, Bool.or_false]

/-- A run leaves the depth of the scope and every frame around the innermost
    one as they were, and every name that was bound stays bound. A condition
    and a loop leave exactly the names bound that were bound before. All this
    holds from every state, and whether the run comes to its end or stops on
    the way. -/
theorem run_scoping (fuel : Nat) (b : Block) (st : State) :
    (after (b.run fuel) st).scope.depth = st.scope.depth ∧
    (after (b.run fuel) st).scope.outer = st.scope.outer ∧
    (∀ name, st.scope.contains name → (after (b.run fuel) st).scope.contains name) ∧
    (∀ keyword condition pass fail close st' name,
      (after ((Statement.conditional keyword condition pass fail close).eval fuel)
        st').scope.contains name = st'.scope.contains name) ∧
    (∀ keyword condition body close st' name,
      (after ((Statement.loop keyword condition body close).eval fuel) st').scope.contains name =
        st'.scope.contains name) := by
  obtain ⟨fresh, h⟩ := Block.keeps_eval Scope.growsBy_invariant fuel b st
  refine ⟨congrArg (fun frames => frames.length + 1) h.outer, h.outer, fun name hn => ?_, ?_, ?_⟩
  · have := h.contains name
    rw [hn, Bool.true_or] at this
    exact this
  · intro keyword condition pass fail close st' name
    have := Statement.growsBy_conditional fuel keyword condition pass fail close st'
    exact this.contains_eq name
  · intro keyword condition body close st' name
    have := Statement.growsBy_loop fuel keyword condition body close st'
    exact this.contains_eq name

/-- A branch that stops at an undefined name: what it had bound is dropped, and
    what was bound outside is kept. -/
theorem run_scoping_of_undefined_name :
    let st : State := ⟨⟨[("x", .nothing)], [], [["x"]]⟩, "", [], none⟩
    let b : Block := [.conditional .empty (.literal ⟨.literal (.boolean true), "TRUE", .empty⟩)
      [.assignment .empty ⟨.identifier, "t", .empty⟩
          (.literal ⟨.literal (.boolean false), "FALSE", .empty⟩),
        .identifier ⟨.identifier, "z", .empty⟩] none .empty]
    st.scope.contains "x" = true ∧ (after (b.run 1) st).scope.contains "x" = true ∧
      (after (b.run 1) st).scope.contains "t" = false :=
  ⟨rfl, (run_scoping 1 _ _).2.2.1 "x" rfl, rfl⟩

end Kode
