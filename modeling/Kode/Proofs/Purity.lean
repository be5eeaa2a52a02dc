import Kode.Proofs.Provenance

/-!
# Values only read

A value may hold whole conditions and loops, but no `SET` and no `SHOW`
(`Derives.hasEffect_of_mem_nodes`): it ends at the first period, and each of
these needs a period of its own. So to evaluate a value does nothing but read
lines (`State.OnlyReads`): what blocks it opens are closed again, and nothing is
bound in them.

* `Statement.onlyReads_eval`: a statement without `SET` and `SHOW` only reads;
* `Source.values_only_read`: so do the values of `SET` and `SHOW`, and so does a
  `SET` or `SHOW` that fails, as it is its value that fails.
-/

namespace Kode

/-- The value of a `SET` or a `SHOW`. -/
def Statement.value? : Statement → Option Statement
  | .assignment _ _ value | .display _ value => some value
  | _ => none

/-! ## What stands in a value -/

mutual

/-- A statement without `SET` and `SHOW` has none of them among its parts. -/
theorem Statement.value?_of_mem_nodes {s n : Statement} (h : s.hasEffect = false)
    (hn : n ∈ s.nodes) : n.value? = none := by
  match s with
  | .sequence body =>
    rcases List.mem_cons.1 hn with rfl | hn
    · rfl
    · exact Block.value?_of_mem_nodes h hn
  | .literal _ | .identifier _ | .input _ =>
    obtain rfl := List.mem_singleton.1 hn
    rfl
  | .assignment .. | .display .. => simp [Statement.hasEffect] at h
  | .operation lhs _ _ rhs =>
    rw [Statement.hasEffect, Bool.or_eq_false_iff] at h
    rcases List.mem_cons.1 hn with rfl | hn
    · rfl
    · rcases List.mem_append.1 hn with hn | hn
      · exact lhs.value?_of_mem_nodes h.1 hn
      · exact rhs.value?_of_mem_nodes h.2 hn
  | .conditional _ condition pass fail _ =>
    rw [Statement.hasEffect, Bool.or_eq_false_iff, Bool.or_eq_false_iff] at h
    rcases List.mem_cons.1 hn with rfl | hn
    · rfl
    · rcases List.mem_append.1 hn with hn | hn
      · exact condition.value?_of_mem_nodes h.1.1 hn
      · rcases List.mem_append.1 hn with hn | hn
        · exact Block.value?_of_mem_nodes h.1.2 hn
        · exact Block.value?_of_mem_nodesElse h.2 hn
  | .loop _ condition body _ =>
    rw [Statement.hasEffect, Bool.or_eq_false_iff] at h
    rcases List.mem_cons.1 hn with rfl | hn
    · rfl
    · rcases List.mem_append.1 hn with hn | hn
      · exact condition.value?_of_mem_nodes h.1 hn
      · exact Block.value?_of_mem_nodes h.2 hn

theorem Block.value?_of_mem_nodes {b : List Statement} {n : Statement}
    (h : Block.hasEffect b = false) (hn : n ∈ Block.nodes b) : n.value? = none := by
  match b with
  | [] => simp [Block.nodes] at hn
  | s :: ss =>
    rw [Block.hasEffect, Bool.or_eq_false_iff] at h
    rcases List.mem_append.1 hn with hn | hn
    · exact s.value?_of_mem_nodes h.1 hn
    · exact Block.value?_of_mem_nodes h.2 hn

theorem Block.value?_of_mem_nodesElse {b : Option (List Statement)} {n : Statement}
    (h : Block.hasEffectElse b = false) (hn : n ∈ Block.nodesElse b) : n.value? = none := by
  match b with
  | none => simp [Block.nodesElse] at hn
  | some body => exact Block.value?_of_mem_nodes (b := body) h hn

end

@[simp] theorem Block.hasEffect_value (b : Block) : b.value.hasEffect = Block.hasEffect b := by
  match b with
  | [] => rfl
  | [s] => simp [Block.value, Block.hasEffect]
  | s :: s' :: ss => rfl

theorem Expression.hasEffect_eq_false {ts : List Token} {s : Statement} (h : Expression ts s) :
    s.hasEffect = false := by
  induction h with
  | operand h => cases h <;> rfl
  | operation _ _ _ _ _ ihl ihr => simp [Statement.hasEffect, ihl, ihr]

/-- Without a period there is no `SET` and no `SHOW`. -/
theorem Derives.hasEffect_eq_false {ts : List Token} {b : Block} (h : Derives ts b)
    (hts : ∀ t ∈ ts, t.isPeriod = false) : Block.hasEffect b = false := by
  have period {p : Token} {us : List Token} (hp : p.isPeriod = true) (hmem : p ∈ us)
      (hus : ∀ t ∈ us, t.isPeriod = false) : False := by
    simp [hus p hmem] at hp
  induction h with
  | nil => rfl
  | expression h => simp [Block.hasEffect, h.hasEffect_eq_false]
  | display _ hp => exact (period hp (by simp) hts).elim
  | assignment _ _ _ hp => exact (period hp (by simp) hts).elim
  | input _ hp => exact (period hp (by simp) hts).elim
  | conditional _ _ _ _ _ _ _ _ _ ihc ihp ih =>
    simp only [List.forall_mem_cons, List.forall_mem_append] at hts
    obtain ⟨-, hcs, -, hps, -, -, hus⟩ := hts
    simp [Block.hasEffect, Block.hasEffectElse, Statement.hasEffect, ihc hcs, ihp hps, ih hus]
  | alternative _ _ _ _ _ _ _ _ _ _ _ ihc ihp ihf ih =>
    simp only [List.forall_mem_cons, List.forall_mem_append] at hts
    obtain ⟨-, hcs, -, hps, -, hfs, -, -, hus⟩ := hts
    simp [Block.hasEffect, Block.hasEffectElse, Statement.hasEffect, ihc hcs, ihp hps, ihf hfs,
      ih hus]
  | loop _ _ _ _ _ _ _ _ _ ihc ihp ih =>
    simp only [List.forall_mem_cons, List.forall_mem_append] at hts
    obtain ⟨-, hcs, -, hps, -, -, hus⟩ := hts
    simp [Block.hasEffect, Statement.hasEffect, ihc hcs, ihp hps, ih hus]

/-- No value of a `SET` or `SHOW` has another one in it. -/
theorem Derives.hasEffect_of_mem_nodes {ts : List Token} {b : Block} (h : Derives ts b) :
    ∀ n ∈ Block.nodes b, ∀ value, n.value? = some value → value.hasEffect = false := by
  have part {c : Block}
      (ih : ∀ n ∈ Block.nodes c, ∀ value, n.value? = some value → value.hasEffect = false) :
      ∀ n ∈ c.value.nodes, ∀ value, n.value? = some value → value.hasEffect = false := by
    intro n hn value hv
    rcases Block.mem_nodes_value hn with hn | ⟨rfl, -⟩
    · exact ih n hn value hv
    · simp [Statement.value?] at hv
  induction h with
  | nil => simp [Block.nodes]
  | expression h =>
    intro n hn value hv
    rw [Block.nodes, Block.nodes, List.append_nil] at hn
    simp [Statement.value?_of_mem_nodes h.hasEffect_eq_false hn] at hv
  | display _ _ hvs _ hd _ ihv ih =>
    simp only [Block.nodes, Statement.nodes, List.forall_mem_append, List.forall_mem_cons]
    refine ⟨⟨fun value hv => ?_, part ihv⟩, ih⟩
    obtain rfl := Option.some.inj hv
    rw [Block.hasEffect_value, hd.hasEffect_eq_false hvs]
  | assignment _ _ _ _ hvs _ hd _ ihv ih =>
    simp only [Block.nodes, Statement.nodes, List.forall_mem_append, List.forall_mem_cons]
    refine ⟨⟨fun value hv => ?_, part ihv⟩, ih⟩
    obtain rfl := Option.some.inj hv
    rw [Block.hasEffect_value, hd.hasEffect_eq_false hvs]
  | input _ _ _ ih =>
    simp only [Block.nodes, Statement.nodes, List.forall_mem_append, List.forall_mem_cons]
    exact ⟨⟨by simp [Statement.value?], by simp⟩, ih⟩
  | conditional _ _ _ _ _ _ _ _ _ ihc ihp ih =>
    simp only [Block.nodes, Block.nodesElse, Statement.nodes, List.forall_mem_append,
      List.forall_mem_cons]
    exact ⟨⟨by simp [Statement.value?], part ihc, ihp, by simp⟩, ih⟩
  | alternative _ _ _ _ _ _ _ _ _ _ _ ihc ihp ihf ih =>
    simp only [Block.nodes, Block.nodesElse, Statement.nodes, List.forall_mem_append,
      List.forall_mem_cons]
    exact ⟨⟨by simp [Statement.value?], part ihc, ihp, ihf⟩, ih⟩
  | loop _ _ _ _ _ _ _ _ _ ihc ihp ih =>
    simp only [Block.nodes, Statement.nodes, List.forall_mem_append, List.forall_mem_cons]
    exact ⟨⟨by simp [Statement.value?], part ihc, ihp⟩, ih⟩

/-! ## What a value does -/

/-- The second state is the first one after some lines were read. All bindings
    and frames are what they were, and so is the output. A trace may have grown. -/
structure State.OnlyReads (st st' : State) : Prop where
  scope : st'.scope = st.scope
  output : st'.output = st.output
  answers : st'.answers <:+ st.answers
  trace : st.trace = none → st'.trace = none

theorem State.onlyReads_invariant : Run.QuietInvariant State.OnlyReads where
  refl _ := ⟨rfl, rfl, List.suffix_rfl, id⟩
  trans _ _ _ h h' := ⟨h'.scope.trans h.scope, h'.output.trans h.output,
    h'.answers.trans h.answers, fun hnone => h'.trace (h.trace hnone)⟩
  ask _ a rest h := ⟨rfl, rfl, h ▸ List.suffix_cons a rest, id⟩
  note _ _ := ⟨rfl, rfl, List.suffix_rfl, fun hnone => by rw [hnone]; rfl⟩
  -- A block that was opened is closed on the same names.
  framed st st' h := ⟨by rw [h.scope, Scope.pop_push], h.output, h.answers, h.trace⟩

/-- Where there is no `SET` and no `SHOW`, evaluation only reads. -/
theorem Statement.onlyReads_eval {s : Statement} (h : s.hasEffect = false) (fuel : Nat) :
    Run.Keeps State.OnlyReads (s.eval fuel) :=
  s.keeps_eval State.onlyReads_invariant fuel (by simp [h])

/-- What comes after a step cannot be what failed, if it never fails. -/
theorem Run.eq_error_of_bind {α β : Type} {r : Run α} {k : α → Run β} {st st' : State}
    {stop : Stop} (h : (r >>= k) st = .error stop st')
    (hk : ∀ a st₁, ∃ b st₂, k a st₁ = .ok b st₂) : r st = .error stop st' := by
  simp only [bind, EStateM.bind] at h
  cases he : r st with
  | ok a st₁ =>
    obtain ⟨b, st₂, hb⟩ := hk a st₁
    simp [he, hb] at h
  | error stop₁ st₁ =>
    rw [he] at h
    obtain ⟨rfl, rfl⟩ := EStateM.Result.error.inj h
    rfl

theorem Run.eq_error_of_noted {s : Statement} {r : Run Located} {st st' : State} {stop : Stop}
    (h : noted s r st = .error stop st') : r st = .error stop st' :=
  eq_error_of_bind h fun l _ => ⟨l, _, rfl⟩

/-- A `SET` or a `SHOW` that fails, fails in its value. -/
theorem Statement.eval_value_of_error {n value : Statement} (hv : n.value? = some value)
    {fuel : Nat} {st st' : State} {stop : Stop} (h : n.eval fuel st = .error stop st') :
    value.eval fuel st = .error stop st' := by
  cases n with
  | assignment keyword target v =>
    obtain rfl := Option.some.inj hv
    exact Run.eq_error_of_bind (Run.eq_error_of_noted h) fun _ _ => ⟨_, _, rfl⟩
  | display keyword v =>
    obtain rfl := Option.some.inj hv
    exact Run.eq_error_of_bind (Run.eq_error_of_noted h) fun _ _ => ⟨_, _, rfl⟩
  | _ => simp [Statement.value?] at hv

/-- Whatever the program, the value of a `SET` or `SHOW` has no `SET` and no
    `SHOW` in it, and to evaluate it only reads lines, from any state and however
    it ends. So a `SET` or `SHOW` that stops has done nothing but that. -/
theorem Source.values_only_read {s : Source} {b : Block} (hb : s.parse = .ok b)
    {n value : Statement} (hn : n ∈ Block.nodes b) (hv : n.value? = some value) :
    (∀ m ∈ value.nodes, m.value? = none) ∧
    (∀ fuel st, State.OnlyReads st (Run.after (value.eval fuel) st)) ∧
    ∀ fuel st stop st', n.eval fuel st = .error stop st' → State.OnlyReads st st' := by
  obtain ⟨ts, -, hd, -⟩ := (s.parse_eq_ok_iff b).1 hb
  have hpure := hd.hasEffect_of_mem_nodes n hn value hv
  have heval := fun fuel => Statement.onlyReads_eval hpure fuel
  refine ⟨fun m hm => Statement.value?_of_mem_nodes hpure hm, heval, fun fuel st stop st' h => ?_⟩
  have hst := heval fuel st
  rwa [Run.after, Statement.eval_value_of_error hv h] at hst

/-- A value that opens a block, reads a line and then fails. -/
theorem Source.values_only_read_of_loop :
    ∃ b n value stop st',
      (⟨"main.kode", "SET y TO WHILE INPUT = 1 DO z END.", 0⟩ : Source).parse = .ok b ∧
      n ∈ Block.nodes b ∧ n.value? = some value ∧
      n.eval 9 (.initial [.line "1", .line "2"]) = .error stop st' ∧
      State.OnlyReads (.initial [.line "1", .line "2"]) st' := by
  obtain ⟨b, hb, hp⟩ := Statement.eq_ok_of_any (show
    (⟨"main.kode", "SET y TO WHILE INPUT = 1 DO z END.", 0⟩ :
      Source).parse.toOption.any (fun b => (Block.nodes b).any fun n => n.value?.isSome &&
        (Outcome.stop? (n.eval 9 (.initial [.line "1", .line "2"]))).isSome) = true by
    decide +kernel)
  obtain ⟨n, hn, hp⟩ := List.any_eq_true.1 hp
  obtain ⟨hv, hstop⟩ := Bool.and_eq_true_iff.1 hp
  obtain ⟨value, hv⟩ := Option.isSome_iff_exists.1 hv
  cases he : n.eval 9 (.initial [.line "1", .line "2"]) with
  | ok l st' =>
    rw [he] at hstop
    exact absurd hstop Bool.false_ne_true
  | error stop st' =>
    exact ⟨b, n, value, stop, st', hb, hn, hv, he,
      (Source.values_only_read hb hn hv).2.2 9 _ stop st' he⟩

end Kode
