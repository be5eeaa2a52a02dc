import Kode.Proofs.Grammar
import Mathlib.Algebra.Order.Ring.Int

/-!
# The bodies of blocks

The body of a block is found by counting. Behind the keyword that opens the block one
block is open; every `IF` and `WHILE` opens another one and every `END` closes one
(`openBlocks`). The body ends at the first `END` behind which none is open
(`ClosesAt`). An `ELSE` is one of the block itself if nothing but this block is open in
front of it (`DividesAt`); the body has one at most (`ExceedsAt`).

The search goes from token to token, so the laws of these counts are stated for the
first token and those behind it. Every token is passed over but the `ELSE` and the `END`
of the block itself (`Settles.cons`, `Settles.otherwise`).

* `settles_scanBody`: what the search comes to;
* `Body.ReadFrom.unique`, `Body.ReadFrom.not_exceedsAt`: no tokens allow for two outcomes;
* `scanBody_eq_ok_iff`, `scanBody_eq_duplicateElse_iff`, `scanBody_eq_unclosed_iff`: so
  each outcome has one cause.
-/

namespace Kode

/-- How many more blocks are open behind the token than in front of it. -/
def Token.opens (t : Token) : Int :=
  match t.keyword? with
  | some .IF | some .WHILE => 1
  | some .END => -1
  | _ => 0

/-- How many blocks are open behind the tokens, if so many are in front of them. -/
def openBlocks (before : Int) (ts : List Token) : Int :=
  before + (ts.map Token.opens).sum

/-- Up to the place some block is open. -/
def StaysOpen (before : Int) (ts : List Token) (n : Nat) : Prop :=
  ∀ k ≤ n, 1 ≤ openBlocks before (ts.take k)

/-- The token at the place is the first one behind which no block is open. -/
structure ClosesAt (before : Int) (ts : List Token) (n : Nat) : Prop where
  lt_length : n < ts.length
  openBlocks_eq : openBlocks before (ts.take (n + 1)) = 0
  staysOpen : StaysOpen before ts n

/-- The token at the place is an `ELSE` in no inner block. -/
def DividesAt (before : Int) (ts : List Token) (n : Nat) : Prop :=
  (∃ t ∈ ts[n]?, t.isKeyword .ELSE = true) ∧ openBlocks before (ts.take n) = 1

/-- The token at the place is an `ELSE` too many: with an `ELSE` expected the second one
    in no inner block, with none expected the first one. -/
structure ExceedsAt (rule : ElseRule) (before : Int) (ts : List Token) (n : Nat) : Prop where
  dividesAt : DividesAt before ts n
  staysOpen : StaysOpen before ts n
  earlier : match rule with
    | .ignored => False
    | .expected => ∃ i < n, ∀ k < n, DividesAt before ts k ↔ k = i
    | .refused => ∀ k < n, ¬ DividesAt before ts k

/-- The body is what the tokens begin with: it ends at the first `END` behind which no
    block is open, and is parted at its only `ELSE` in no inner block, if one is
    expected. -/
inductive Body.ReadFrom (rule : ElseRule) (before : Int) (ts : List Token) : Body → Prop
  | plain {pass rest : List Token} {e : Token} :
      ts = pass ++ e :: rest → e.isKeyword .END = true → ClosesAt before ts pass.length →
      (rule ≠ .ignored → ∀ i < pass.length, ¬ DividesAt before ts i) →
      Body.ReadFrom rule before ts ⟨pass, none, e, rest⟩
  | parted {pass fail rest : List Token} {m e : Token} :
      rule = .expected → ts = pass ++ m :: (fail ++ e :: rest) → m.isKeyword .ELSE = true →
      e.isKeyword .END = true → ClosesAt before ts (pass ++ m :: fail).length →
      (∀ i < (pass ++ m :: fail).length, DividesAt before ts i ↔ i = pass.length) →
      Body.ReadFrom rule before ts ⟨pass, some fail, e, rest⟩

/-! ## Behind the first token -/

section Cons

variable {rule : ElseRule} {c : Int} {t : Token} {ts : List Token} {n : Nat}

@[simp] theorem openBlocks_nil (c : Int) : openBlocks c [] = c :=
  Int.add_zero c

@[simp] theorem openBlocks_cons (c : Int) (t : Token) (ts : List Token) :
    openBlocks c (t :: ts) = openBlocks (c + t.opens) ts := by
  simp [openBlocks, Int.add_assoc]

theorem openBlocks_append (c : Int) (ts us : List Token) :
    openBlocks c (ts ++ us) = openBlocks (openBlocks c ts) us := by
  simp [openBlocks, Int.add_assoc]

theorem staysOpen_zero : StaysOpen c ts 0 ↔ 1 ≤ c := by
  simp [StaysOpen]

theorem staysOpen_cons : StaysOpen c (t :: ts) (n + 1) ↔ 1 ≤ c ∧ StaysOpen (c + t.opens) ts n := by
  constructor
  · intro h
    refine ⟨by simpa using h 0 (Nat.zero_le _), fun k hk => ?_⟩
    simpa using h (k + 1) (Nat.succ_le_succ hk)
  · rintro ⟨hc, h⟩ (_ | k) hk
    · simpa using hc
    · simpa using h k (Nat.le_of_succ_le_succ hk)

theorem closesAt_cons_zero : ClosesAt c (t :: ts) 0 ↔ 1 ≤ c ∧ c + t.opens = 0 := by
  constructor
  · exact fun h => ⟨staysOpen_zero.1 h.staysOpen, by simpa using h.openBlocks_eq⟩
  · exact fun h => ⟨by simp, by simpa using h.2, staysOpen_zero.2 h.1⟩

theorem closesAt_cons_succ :
    ClosesAt c (t :: ts) (n + 1) ↔ 1 ≤ c ∧ ClosesAt (c + t.opens) ts n := by
  constructor
  · rintro ⟨hlt, heq, hopen⟩
    obtain ⟨hc, hopen⟩ := staysOpen_cons.1 hopen
    exact ⟨hc, by simpa using hlt, by simpa using heq, hopen⟩
  · rintro ⟨hc, hlt, heq, hopen⟩
    exact ⟨by simpa using hlt, by simpa using heq, staysOpen_cons.2 ⟨hc, hopen⟩⟩

theorem dividesAt_cons_zero : DividesAt c (t :: ts) 0 ↔ t.isKeyword .ELSE = true ∧ c = 1 := by
  simp [DividesAt]

theorem dividesAt_cons_succ : DividesAt c (t :: ts) (n + 1) ↔ DividesAt (c + t.opens) ts n := by
  simp [DividesAt]

/-- No `ELSE` exceeds what is expected before a token that divides nothing. -/
theorem exceedsAt_cons (hc : 1 ≤ c) (ht : rule ≠ .ignored → ¬ DividesAt c (t :: ts) 0) :
    ExceedsAt rule c (t :: ts) n ↔ ∃ k, n = k + 1 ∧ ExceedsAt rule (c + t.opens) ts k := by
  cases rule with
  | ignored => exact ⟨fun h => h.earlier.elim, fun ⟨_, _, h⟩ => h.earlier.elim⟩
  | expected =>
    have hzero := ht (by simp)
    constructor
    · rintro ⟨hdiv, hopen, hone⟩
      cases n with
      | zero => exact absurd hdiv hzero
      | succ n =>
        refine ⟨n, rfl, dividesAt_cons_succ.1 hdiv, (staysOpen_cons.1 hopen).2, ?_⟩
        obtain ⟨i, hi, hone⟩ := hone
        rw [Nat.forall_lt_succ_left] at hone
        cases i with
        | zero => exact absurd (hone.1.2 rfl) hzero
        | succ i =>
          exact ⟨i, Nat.lt_of_succ_lt_succ hi, fun k hk => by
            simpa [dividesAt_cons_succ] using hone.2 k hk⟩
    · rintro ⟨n, rfl, hdiv, hopen, i, hi, hone⟩
      refine ⟨dividesAt_cons_succ.2 hdiv, staysOpen_cons.2 ⟨hc, hopen⟩, i + 1,
        Nat.succ_lt_succ hi, Nat.forall_lt_succ_left.2 ⟨by simp [hzero], fun k hk => ?_⟩⟩
      simpa [dividesAt_cons_succ] using hone k hk
  | refused =>
    have hzero := ht (by simp)
    constructor
    · rintro ⟨hdiv, hopen, hnone⟩
      cases n with
      | zero => exact absurd hdiv hzero
      | succ n =>
        rw [Nat.forall_lt_succ_left] at hnone
        exact ⟨n, rfl, dividesAt_cons_succ.1 hdiv, (staysOpen_cons.1 hopen).2, fun k hk => by
          simpa [dividesAt_cons_succ] using hnone.2 k hk⟩
    · rintro ⟨n, rfl, hdiv, hopen, hnone⟩
      refine ⟨dividesAt_cons_succ.2 hdiv, staysOpen_cons.2 ⟨hc, hopen⟩,
        Nat.forall_lt_succ_left.2 ⟨hzero, fun k hk => ?_⟩⟩
      simpa [dividesAt_cons_succ] using hnone k hk

/-- Behind the `ELSE` that is expected none is. -/
theorem exceedsAt_cons_else (ht : t.isKeyword .ELSE = true) :
    ExceedsAt .expected 1 (t :: ts) n ↔ ∃ k, n = k + 1 ∧ ExceedsAt .refused 1 ts k := by
  have hopens : (1 : Int) + t.opens = 1 := by
    simp [Token.opens, Token.isKeyword_iff.1 ht]
  have hzero : DividesAt 1 (t :: ts) 0 := dividesAt_cons_zero.2 ⟨ht, rfl⟩
  have hsucc (k : Nat) : DividesAt 1 (t :: ts) (k + 1) ↔ DividesAt 1 ts k := by
    rw [dividesAt_cons_succ, hopens]
  have hopen (k : Nat) : StaysOpen 1 (t :: ts) (k + 1) ↔ StaysOpen 1 ts k := by
    simp [staysOpen_cons, hopens]
  constructor
  · rintro ⟨hdiv, hstays, i, hi, hone⟩
    obtain ⟨n, rfl⟩ := Nat.exists_eq_add_of_lt (Nat.zero_lt_of_lt hi)
    rw [Nat.zero_add] at *
    obtain rfl : 0 = i := (hone 0 (Nat.succ_pos _)).1 hzero
    refine ⟨n, rfl, (hsucc n).1 hdiv, (hopen n).1 hstays, fun k hk hk' => ?_⟩
    exact absurd ((hone (k + 1) (Nat.succ_lt_succ hk)).1 ((hsucc k).2 hk')) (Nat.succ_ne_zero k)
  · rintro ⟨n, rfl, hdiv, hstays, hnone⟩
    refine ⟨(hsucc n).2 hdiv, (hopen n).2 hstays, 0, Nat.succ_pos n,
      Nat.forall_lt_succ_left.2 ⟨by simp [hzero], fun k hk => ?_⟩⟩
    simpa [hsucc] using hnone k hk

theorem Body.ReadFrom.cons {b : Body} (hc : 1 ≤ c)
    (ht : rule ≠ .ignored → ¬ DividesAt c (t :: ts) 0) (h : b.ReadFrom rule (c + t.opens) ts) :
    (b.cons t).ReadFrom rule c (t :: ts) := by
  cases h with
  | plain hts he hclose hnone =>
    refine .plain (congrArg (t :: ·) hts) he (closesAt_cons_succ.2 ⟨hc, hclose⟩) fun hr => ?_
    refine Nat.forall_lt_succ_left.2 ⟨ht hr, fun i hi => ?_⟩
    rw [dividesAt_cons_succ]
    exact hnone hr i hi
  | @parted pass fail rest m e hr hts hm he hclose hone =>
    have hts' : t :: ts = (t :: pass) ++ m :: (fail ++ e :: rest) := congrArg (t :: ·) hts
    refine .parted hr hts' hm he (closesAt_cons_succ.2 ⟨hc, hclose⟩) ?_
    refine Nat.forall_lt_succ_left.2 ⟨by simp [ht (by simp [hr])], fun i hi => ?_⟩
    simpa [dividesAt_cons_succ] using hone i hi

end Cons

/-! ## The search -/

/-- What the search for the end of a body comes to. -/
def Settles (rule : ElseRule) (c : Int) (ts : List Token) : Except BodyFault Body → Prop
  | .ok b => b.ReadFrom rule c ts
  | .error .unclosed => (∀ n, ¬ ClosesAt c ts n) ∧ ∀ n, ¬ ExceedsAt rule c ts n
  | .error (.duplicateElse t) => ∃ n, ExceedsAt rule c ts n ∧ ts[n]? = some t

section Search

variable {rule : ElseRule} {c : Int} {t : Token} {ts : List Token}

/-- A token that neither closes the body nor divides it is passed over. -/
theorem Settles.cons {r : Except BodyFault Body} (hc : 1 ≤ c) (hopen : 1 ≤ c + t.opens)
    (ht : rule ≠ .ignored → ¬ DividesAt c (t :: ts) 0) (h : Settles rule (c + t.opens) ts r) :
    Settles rule c (t :: ts) (r.map (Body.cons t)) := by
  match r, h with
  | .ok b, h => exact Body.ReadFrom.cons hc ht h
  | .error .unclosed, ⟨hclose, hexceed⟩ =>
    refine ⟨fun n hn => ?_, fun n hn => ?_⟩
    · cases n with
      | zero => exact absurd (closesAt_cons_zero.1 hn).2 (by omega)
      | succ n => exact hclose n (closesAt_cons_succ.1 hn).2
    · obtain ⟨k, -, hk⟩ := (exceedsAt_cons hc ht).1 hn
      exact hexceed k hk
  | .error (.duplicateElse u), ⟨n, hexceed, hu⟩ =>
    exact ⟨n + 1, (exceedsAt_cons hc ht).2 ⟨n, rfl, hexceed⟩, hu⟩

/-- The `ELSE` that is expected parts the body. -/
theorem Settles.otherwise {r : Except BodyFault Body} (ht : t.isKeyword .ELSE = true)
    (h : Settles .refused 1 ts r) :
    Settles .expected 1 (t :: ts) (r.map Body.otherwise) := by
  have hopens : (1 : Int) + t.opens = 1 := by
    simp [Token.opens, Token.isKeyword_iff.1 ht]
  match r, h with
  | .ok b, h =>
    change b.ReadFrom .refused 1 ts at h
    cases h with
    | parted hr => simp at hr
    | @plain fail rest e hts he hclose hnone =>
      have hts' : t :: ts = [] ++ t :: (fail ++ e :: rest) := congrArg (t :: ·) hts
      refine .parted rfl hts' ht he
        (closesAt_cons_succ.2 ⟨Int.le_refl 1, hopens.symm ▸ hclose⟩) ?_
      refine Nat.forall_lt_succ_left.2 ⟨by simp [dividesAt_cons_zero, ht], fun i hi => ?_⟩
      simpa [dividesAt_cons_succ, hopens] using hnone (by simp) i hi
  | .error .unclosed, ⟨hclose, hexceed⟩ =>
    refine ⟨fun n hn => ?_, fun n hn => ?_⟩
    · cases n with
      | zero => exact absurd (closesAt_cons_zero.1 hn).2 (by omega)
      | succ n => exact hclose n (hopens ▸ (closesAt_cons_succ.1 hn).2)
    · obtain ⟨k, -, hk⟩ := (exceedsAt_cons_else ht).1 hn
      exact hexceed k hk
  | .error (.duplicateElse u), ⟨n, hexceed, hu⟩ =>
    exact ⟨n + 1, (exceedsAt_cons_else ht).2 ⟨n, rfl, hexceed⟩, hu⟩

/-- The search counts the open blocks: `depth` further ones inside the body. -/
theorem settles_scanBody (rule : ElseRule) (depth : Nat) (ts : List Token) :
    Settles rule (depth + 1) ts (scanBody rule depth ts) := by
  have hc (depth : Nat) : (1 : Int) ≤ depth + 1 := by omega
  -- Every token but an `ELSE` of the body itself, and its `END`, is passed over.
  have step {rule : ElseRule} {depth depth' : Nat} {t : Token} {ts : List Token}
      (hopens : (depth : Int) + 1 + t.opens = depth' + 1)
      (ht : rule ≠ .ignored → ¬ (t.isKeyword .ELSE = true ∧ depth = 0))
      (ih : Settles rule (depth' + 1) ts (scanBody rule depth' ts)) :
      Settles rule (depth + 1) (t :: ts) ((scanBody rule depth' ts).map (Body.cons t)) := by
    refine Settles.cons (hc depth) (by omega) (fun hr hdiv => ht hr ?_) (hopens ▸ ih)
    rw [dividesAt_cons_zero] at hdiv
    exact ⟨hdiv.1, by omega⟩
  fun_induction scanBody rule depth ts with
  | case1 rule depth =>
    exact ⟨fun n hn => absurd hn.lt_length (Nat.not_lt_zero n),
      fun n hn => by obtain ⟨t, ht, -⟩ := hn.dividesAt.1; simp at ht⟩
  | case2 rule depth t ts hk ih =>
    exact step (by simp [Token.opens, hk]) (by simp [Token.isKeyword, hk]) ih
  | case3 rule depth t ts hk ih =>
    exact step (by simp [Token.opens, hk]) (by simp [Token.isKeyword, hk]) ih
  | case4 rule t ts hk =>
    refine .plain rfl (Token.isKeyword_iff.2 hk) (closesAt_cons_zero.2 ⟨hc 0, ?_⟩) fun _ i hi => ?_
    · simp [Token.opens, hk]
    · exact absurd hi (Nat.not_lt_zero i)
  | case5 rule t ts hk d ih =>
    refine step ?_ (by simp [Token.isKeyword, hk]) ih
    simp only [Token.opens, hk]
    omega
  | case6 t ts hk ih => exact Settles.otherwise (Token.isKeyword_iff.2 hk) ih
  | case7 t ts hk =>
    refine ⟨0, ⟨dividesAt_cons_zero.2 ⟨Token.isKeyword_iff.2 hk, rfl⟩, staysOpen_zero.2 (hc 0),
      fun k hk => absurd hk (Nat.not_lt_zero k)⟩, rfl⟩
  | case8 rule depth t ts hk hexpected hrefused ih =>
    refine step (by simp [Token.opens, hk]) (fun hr helse => ?_) ih
    cases rule with
    | ignored => exact hr rfl
    | expected => exact hexpected helse.2 rfl
    | refused => exact hrefused helse.2 rfl
  | case9 rule depth t ts hif hwhile hend helse ih =>
    refine step ?_ (fun _ h => helse (Token.isKeyword_iff.1 h.1)) ih
    rw [Token.opens]
    split <;> simp_all

/-! ## Only one outcome -/

theorem ClosesAt.unique {n n' : Nat} (h : ClosesAt c ts n) (h' : ClosesAt c ts n') : n = n' := by
  have hle {n n' : Nat} (h : ClosesAt c ts n) (h' : ClosesAt c ts n') : n' ≤ n := by
    by_contra hlt
    have := h'.staysOpen (n + 1) (by omega)
    rw [h.openBlocks_eq] at this
    omega
  exact Nat.le_antisymm (hle h' h) (hle h h')

/-- The second `ELSE` is one, as is the first. -/
theorem ExceedsAt.unique {n n' : Nat} (h : ExceedsAt rule c ts n) (h' : ExceedsAt rule c ts n') :
    n = n' := by
  have hle {n n' : Nat} (h : ExceedsAt rule c ts n) (h' : ExceedsAt rule c ts n') : n' ≤ n := by
    by_contra hlt
    rw [Nat.not_le] at hlt
    obtain ⟨hdiv, -, hearlier⟩ := h
    obtain ⟨-, -, hearlier'⟩ := h'
    cases rule with
    | ignored => exact hearlier
    | refused => exact hearlier' n hlt hdiv
    | expected =>
      -- The one before the first of them would be before the second as well.
      obtain ⟨i, hi, hone⟩ := hearlier
      obtain ⟨i', -, hone'⟩ := hearlier'
      have hn := (hone' n hlt).1 hdiv
      have hi' := (hone' i (hi.trans hlt)).1 ((hone i hi).2 rfl)
      omega
  exact Nat.le_antisymm (hle h' h) (hle h h')

variable {b b' : Body}

/-- Behind an `ELSE` the body is still open. -/
theorem DividesAt.openBlocks_succ {n : Nat} (h : DividesAt c ts n) :
    openBlocks c (ts.take (n + 1)) = 1 := by
  obtain ⟨⟨t, ht, helse⟩, hopen⟩ := h
  rw [List.take_add_one, Option.mem_def.1 ht, Option.toList_some, openBlocks_append, hopen]
  simp [Token.opens, Token.isKeyword_iff.1 helse]

theorem ExceedsAt.lt_of_closesAt {n m : Nat} (h : ExceedsAt rule c ts n) (hm : ClosesAt c ts m) :
    n < m := by
  by_contra hle
  have hdiv := h.dividesAt.openBlocks_succ
  have hzero := hm.openBlocks_eq
  rcases Nat.eq_or_lt_of_le (Nat.not_lt.1 hle) with rfl | hlt
  · omega
  · have : 1 ≤ openBlocks c (ts.take (m + 1)) := h.staysOpen _ hlt
    omega

theorem Body.ReadFrom.exists_closesAt (h : b.ReadFrom rule c ts) : ∃ n, ClosesAt c ts n := by
  cases h with
  | plain _ _ hclose _ => exact ⟨_, hclose⟩
  | parted _ _ _ _ hclose _ => exact ⟨_, hclose⟩

/-- No `ELSE` of a body is one too many. -/
theorem Body.ReadFrom.not_exceedsAt (h : b.ReadFrom rule c ts) (n : Nat) :
    ¬ ExceedsAt rule c ts n := by
  intro hn
  cases h with
  | plain _ _ hclose hnone =>
    have hlt := hn.lt_of_closesAt hclose
    cases rule with
    | ignored => exact hn.earlier
    | expected => exact hnone (by simp) n hlt hn.dividesAt
    | refused => exact hnone (by simp) n hlt hn.dividesAt
  | parted hr _ _ _ hclose hone =>
    subst hr
    have hlt := hn.lt_of_closesAt hclose
    obtain ⟨i, hi, hearlier⟩ := hn.earlier
    have hn' := (hone n hlt).1 hn.dividesAt
    have hi' := (hone i (hi.trans hlt)).1 ((hearlier i hi).2 rfl)
    omega

theorem Body.ReadFrom.unique (h : b.ReadFrom rule c ts) (h' : b'.ReadFrom rule c ts) : b = b' := by
  cases h with
  | plain hts he hclose hnone =>
    cases h' with
    | plain hts' _ hclose' _ =>
      obtain ⟨rfl, hrest⟩ := List.append_inj (hts.symm.trans hts') (hclose.unique hclose')
      obtain ⟨rfl, rfl⟩ := List.cons.inj hrest
      rfl
    | parted hr hts' _ _ hclose' hone =>
      have hlen := hclose.unique hclose'
      exact absurd ((hone _ (by simp)).2 rfl) (hnone (by simp [hr]) _ (by simp [hlen]))
  | parted hr hts _ _ hclose hone =>
    cases h' with
    | plain hts' _ hclose' hnone =>
      have hlen := hclose'.unique hclose
      exact absurd ((hone _ (by simp)).2 rfl) (hnone (by simp [hr]) _ (by simp [hlen]))
    | parted _ hts' _ _ hclose' hone' =>
      have hlen := hclose.unique hclose'
      have hpass := (hone' _ (by rw [← hlen]; simp)).1 ((hone _ (by simp)).2 rfl)
      obtain ⟨rfl, htail⟩ := List.append_inj (hts.symm.trans hts') hpass
      obtain ⟨-, hfail⟩ := List.cons.inj htail
      obtain ⟨rfl, hrest⟩ := List.append_inj hfail (by simpa using hlen)
      obtain ⟨rfl, rfl⟩ := List.cons.inj hrest
      rfl

end Search

variable {rule : ElseRule} {depth : Nat} {ts : List Token}

theorem scanBody_eq_ok_iff {b : Body} :
    scanBody rule depth ts = .ok b ↔ b.ReadFrom rule (depth + 1) ts := by
  have hsettles := settles_scanBody rule depth ts
  refine ⟨fun h => by rwa [h] at hsettles, fun h => ?_⟩
  cases hscan : scanBody rule depth ts with
  | ok b' =>
    rw [hscan] at hsettles
    rw [Body.ReadFrom.unique hsettles h]
  | error fault =>
    rw [hscan] at hsettles
    obtain ⟨m, hm⟩ := h.exists_closesAt
    cases fault with
    | unclosed => exact absurd hm (hsettles.1 m)
    | duplicateElse t =>
      obtain ⟨n, hn, -⟩ := hsettles
      exact absurd hn (h.not_exceedsAt n)

theorem scanBody_eq_unclosed_iff :
    scanBody rule depth ts = .error .unclosed ↔
      (∀ n, ¬ ClosesAt (depth + 1) ts n) ∧ ∀ n, ¬ ExceedsAt rule (depth + 1) ts n := by
  have hsettles := settles_scanBody rule depth ts
  refine ⟨fun h => by rwa [h] at hsettles, fun ⟨hclose, hexceed⟩ => ?_⟩
  cases hscan : scanBody rule depth ts with
  | ok b =>
    obtain ⟨m, hm⟩ := (scanBody_eq_ok_iff.1 hscan).exists_closesAt
    exact absurd hm (hclose m)
  | error fault =>
    rw [hscan] at hsettles
    cases fault with
    | unclosed => rfl
    | duplicateElse t =>
      obtain ⟨n, hn, -⟩ := hsettles
      exact absurd hn (hexceed n)

theorem scanBody_eq_duplicateElse_iff {t : Token} :
    scanBody rule depth ts = .error (.duplicateElse t) ↔
      ∃ n, ExceedsAt rule (depth + 1) ts n ∧ ts[n]? = some t := by
  have hsettles := settles_scanBody rule depth ts
  refine ⟨fun h => by rwa [h] at hsettles, fun ⟨n, hn, ht⟩ => ?_⟩
  cases hscan : scanBody rule depth ts with
  | ok b => exact absurd hn ((scanBody_eq_ok_iff.1 hscan).not_exceedsAt n)
  | error fault =>
    rw [hscan] at hsettles
    cases fault with
    | unclosed => exact absurd hn (hsettles.2 n)
    | duplicateElse u =>
      obtain ⟨n', hn', hu⟩ := hsettles
      rw [hn.unique hn', hu] at ht
      rw [Option.some.inj ht]

end Kode
