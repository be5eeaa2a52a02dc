import Kode.Proofs.Marks
import Mathlib.Order.Bounds.Basic

/-!
# What spans are joined to

Joining spans is associative, and the empty span is its unit. So the empty spans in a
list add nothing, wherever they stand. The others, if all are of one source, are joined
to their *cover* (`Span.Covers`): it begins where the first of them begins and ends
where the last one ends. A span that covers no character counts like any other.

* `Covers.merge`: what joins two covers covers what both of them cover;
* `Covers.unique`: there is one cover only, so it does not matter in which order the
  spans are joined;
* `merge_laws`: the laws of joining, and the cover of a list.
-/

namespace Kode.Span

variable {source : Source} {s t : Span} {ss ts : List Span}

/-- The span is one of the source, from the least of the starts of the spans to the
    greatest of their ends. It lies in every span of the source in which they all lie. -/
structure Covers (source : Source) (ss : List Span) (s : Span) : Prop where
  source?_eq : s.source? = some source
  start_isLeast : IsLeast {a | ∃ u ∈ ss, u.start = a} s.start
  stop_isGreatest : IsGreatest {b | ∃ u ∈ ss, u.stop = b} s.stop
  within : ∀ t, t.source? = some source → (∀ u ∈ ss, u.Within t) → s.Within t

/-- Within a source, a span is known by its ends. -/
theorem eq_of_source? (hs : s.source? = some source) (ht : t.source? = some source)
    (hstart : s.start = t.start) (hstop : s.stop = t.stop) : s = t := by
  cases s with
  | empty => simp [source?] at hs
  | located source₁ a b hab =>
    cases t with
    | empty => simp [source?] at ht
    | located source₂ a' b' hab' =>
      obtain rfl : source₁ = source := Option.some.inj hs
      obtain rfl : source₂ = source₁ := Option.some.inj ht
      obtain rfl : a = a' := hstart
      obtain rfl : b = b' := hstop
      rfl

theorem merge_of_source? (hs : s.source? = some source) (ht : t.source? = some source) :
    (s.merge t).source? = some source ∧ (s.merge t).start = min s.start t.start ∧
      (s.merge t).stop = max s.stop t.stop := by
  cases s with
  | empty => simp [source?] at hs
  | located =>
    cases t with
    | empty => simp [source?] at ht
    | located => exact ⟨hs, rfl, rfl⟩

/-- Two spans of one source are joined in either order. -/
theorem merge_comm (h : s.source? = t.source?) : s.merge t = t.merge s := by
  cases ht : t.source? with
  | none =>
    cases t with
    | empty => simp
    | located => simp [source?] at ht
  | some source =>
    obtain ⟨hsource, hstart, hstop⟩ := merge_of_source? (h.trans ht) ht
    obtain ⟨hsource', hstart', hstop'⟩ := merge_of_source? ht (h.trans ht)
    refine eq_of_source? hsource hsource' ?_ ?_
    · rw [hstart, hstart', Nat.min_comm]
    · rw [hstop, hstop', Nat.max_comm]

/-- Empty spans add nothing. -/
theorem mergeAll_filter (ss : List Span) : mergeAll (ss.filter (· ≠ .empty)) = mergeAll ss := by
  induction ss with
  | nil => rfl
  | cons s ss ih => cases s <;> simp_all

/-! ## Covers -/

theorem covers_singleton (hs : s.source? = some source) : Covers source [s] s where
  source?_eq := hs
  start_isLeast := ⟨⟨s, by simp, rfl⟩, by simp [lowerBounds]⟩
  stop_isGreatest := ⟨⟨s, by simp, rfl⟩, by simp [upperBounds]⟩
  within t _ h := h s (by simp)

theorem Covers.merge (hs : Covers source ss s) (ht : Covers source ts t) :
    Covers source (ss ++ ts) (s.merge t) := by
  obtain ⟨hsource, hstart, hstop⟩ := merge_of_source? hs.source?_eq ht.source?_eq
  have hstarts : {a | ∃ u ∈ ss ++ ts, u.start = a} =
      {a | ∃ u ∈ ss, u.start = a} ∪ {a | ∃ u ∈ ts, u.start = a} := by
    ext a
    simp [or_and_right, exists_or]
  have hstops : {b | ∃ u ∈ ss ++ ts, u.stop = b} =
      {b | ∃ u ∈ ss, u.stop = b} ∪ {b | ∃ u ∈ ts, u.stop = b} := by
    ext b
    simp [or_and_right, exists_or]
  refine ⟨hsource, ?_, ?_, fun u hu h => ?_⟩
  · rw [hstart, hstarts]
    exact hs.start_isLeast.union ht.start_isLeast
  · rw [hstop, hstops]
    exact hs.stop_isGreatest.union ht.stop_isGreatest
  · rw [List.forall_mem_append] at h
    have hsu := hs.within u hu h.1
    have htu := ht.within u hu h.2
    refine ⟨hsource.trans hu.symm, ?_, ?_⟩
    · rw [hstart]
      exact Nat.le_min.2 ⟨hsu.start_le, htu.start_le⟩
    · rw [hstop]
      exact Nat.max_le.2 ⟨hsu.stop_le, htu.stop_le⟩

/-- The order of the spans does not matter. -/
theorem Covers.perm (h : Covers source ss s) (hp : ss.Perm ts) : Covers source ts s where
  source?_eq := h.source?_eq
  start_isLeast := by simpa only [hp.mem_iff] using h.start_isLeast
  stop_isGreatest := by simpa only [hp.mem_iff] using h.stop_isGreatest
  within t ht hts := h.within t ht fun u hu => hts u (hp.mem_iff.1 hu)

theorem Covers.unique (hs : Covers source ss s) (ht : Covers source ss t) : s = t :=
  eq_of_source? hs.source?_eq ht.source?_eq (hs.start_isLeast.unique ht.start_isLeast)
    (hs.stop_isGreatest.unique ht.stop_isGreatest)

/-- Spans of one source are joined to their cover. -/
theorem covers_mergeAll (hne : ss ≠ []) (hss : ∀ s ∈ ss, s.source? = some source) :
    Covers source ss (mergeAll ss) := by
  induction ss with
  | nil => exact absurd rfl hne
  | cons s ss ih =>
    rw [List.forall_mem_cons] at hss
    have hs := covers_singleton hss.1
    rw [mergeAll_cons]
    cases ss with
    | nil => simpa using hs
    | cons t ss => exact hs.merge (ih (by simp) hss.2)

/-- Joining spans is associative, with the empty span as its unit; for spans of one
    source it is also commutative and idempotent. A list of some spans of one source, in
    any order and with empty spans between them, is joined to the cover of these spans. -/
theorem merge_laws :
    (∀ s t u : Span, (s.merge t).merge u = s.merge (t.merge u)) ∧
    (∀ s : Span, empty.merge s = s ∧ s.merge empty = s) ∧
    (∀ s t : Span, s.source? = t.source? → s.merge t = t.merge s) ∧
    (∀ s : Span, s.merge s = s) ∧
    ∀ (source : Source) (located spans : List Span), located ≠ [] →
      (∀ s ∈ located, s.source? = some source) →
      (spans.filter (· ≠ .empty)).Perm located →
      Covers source located (mergeAll spans) ∧ mergeAll spans = mergeAll located := by
  refine ⟨merge_assoc, fun s => ⟨empty_merge s, merge_empty s⟩, fun s t => merge_comm, merge_self,
    fun source located spans hne hsource hperm => ?_⟩
  have hne' : spans.filter (· ≠ .empty) ≠ [] := fun hnil => by
    rw [hnil] at hperm
    exact hne hperm.nil_eq.symm
  have hcover : Covers source located (mergeAll spans) := by
    rw [← mergeAll_filter]
    exact (covers_mergeAll hne' fun s hs => hsource s (hperm.mem_iff.1 hs)).perm hperm
  exact ⟨hcover, hcover.unique (covers_mergeAll hne hsource)⟩

/-- The last span first, empty spans around it, and a span without characters that lies
    between the others. -/
theorem merge_laws_of_disorder :
    ∃ source : Source, source.text = "SHOW 1 + 2." ∧
      Covers source
        [located source 5 6 (by decide), located source 7 7 (by decide),
          located source 9 10 (by decide)]
        (mergeAll [empty, located source 9 10 (by decide), empty, located source 7 7 (by decide),
          located source 5 6 (by decide), empty]) ∧
      mergeAll [empty, located source 9 10 (by decide), empty, located source 7 7 (by decide),
        located source 5 6 (by decide), empty] = located source 5 10 (by decide) := by
  obtain ⟨-, -, -, -, hlist⟩ := merge_laws
  exact ⟨⟨"main.kode", "SHOW 1 + 2.", 0⟩, rfl,
    (hlist _ _ _ (by decide) (by decide) (by decide)).1, rfl⟩

end Kode.Span
