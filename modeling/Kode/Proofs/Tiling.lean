import Kode.Lexeme
import Mathlib.Data.List.SplitBy

/-!
# Cutting apart and putting together

The groups that a text is cut into are the longest runs of neighbours that
belong together (`Lexeme.groups_eq_splitBy`). So whether some lists of characters
are the groups of a text can be told from them alone, and groups that stand
side by side in one text are the groups of the text between their ends
(`Lexeme.Tiling.mono`, `Lexeme.Tiling.groups_flatten`).

* `Lexeme.groups_append`: two texts can be cut one after the other if the
  characters where they meet do not join;
* `Lexeme.groups_append_mark`: so a mark is always cut out.
-/

namespace Kode.Lexeme

/-- Groups that may stand side by side: runs of characters that join, between
    which no characters join. -/
structure Tiling (gs : List (List Char)) : Prop where
  nonempty : [] ∉ gs
  joined : ∀ g ∈ gs, g.IsChain fun c d => joins c d = true
  apart : gs.IsChain fun g h => ∃ hg hh, joins (g.getLast hg) (h.head hh) = false

theorem Tiling.glue {gs : List (List Char)} (h : Tiling gs) (c : Char) : Tiling (glue c gs) := by
  fun_cases Lexeme.glue c gs with
  | case1 d ds gs hj =>
    have hd := h.joined (d :: ds) List.mem_cons_self
    refine ⟨by simpa using h.nonempty, fun g hg => ?_, ?_⟩
    · rcases List.mem_cons.1 hg with rfl | hg
      · exact List.isChain_cons_cons.2 ⟨hj, hd⟩
      · exact h.joined g (List.mem_cons_of_mem _ hg)
    · -- The first group ends as it did before.
      rw [List.isChain_cons]
      obtain ⟨hnext, hgs⟩ := List.isChain_cons.1 h.apart
      refine ⟨fun g hg => ?_, hgs⟩
      obtain ⟨_, hne, hlast⟩ := hnext g hg
      exact ⟨by simp, hne, by rwa [List.getLast_cons (by simp)]⟩
  | case2 d ds gs hj =>
    refine ⟨by simpa using h.nonempty, fun g hg => ?_, ?_⟩
    · rcases List.mem_cons.1 hg with rfl | hg
      · exact .singleton c
      · exact h.joined g hg
    · rw [List.isChain_cons_cons]
      exact ⟨⟨by simp, by simp, by simpa using hj⟩, h.apart⟩
  | case3 gs hne =>
    cases gs with
    | nil => exact ⟨by simp, by simp, .singleton _⟩
    | cons g gs =>
      cases g with
      | nil => exact absurd List.mem_cons_self h.nonempty
      | cons d ds => exact absurd rfl (hne d ds gs)

theorem tiling_groups (cs : List Char) : Tiling (groups cs) := by
  induction cs with
  | nil => exact ⟨by simp, by simp, .nil⟩
  | cons c cs ih => exact ih.glue c

/-- The groups are the longest runs of characters that join. -/
theorem groups_eq_splitBy (cs : List Char) : groups cs = cs.splitBy joins := by
  symm
  rw [List.splitBy_eq_iff]
  have h := tiling_groups cs
  exact ⟨(flatten_groups cs).symm, h.nonempty, h.joined, h.apart⟩

theorem groups_append {cs ds : List Char}
    (h : ∀ c ∈ cs.getLast?, ∀ d ∈ ds.head?, joins c d = false) :
    groups (cs ++ ds) = groups cs ++ groups ds := by
  rw [groups_eq_splitBy, groups_eq_splitBy, groups_eq_splitBy]
  exact List.splitBy_append h

/-- A mark stands alone. -/
theorem joins_of_mark {c d : Char} (h : role c = .mark ∨ role d = .mark) : joins c d = false := by
  rw [joins, decide_eq_false_iff_not]
  rintro ⟨hcd, hm⟩
  exact h.elim hm fun hd => hm (hcd.trans hd)

/-- A mark is cut out of the text around it. -/
theorem groups_append_mark {c : Char} (hc : role c = .mark) (cs ds : List Char) :
    groups (cs ++ c :: ds) = groups cs ++ [c] :: groups ds := by
  have hd : groups (c :: ds) = [c] :: groups ds := by
    change groups ([c] ++ ds) = groups [c] ++ groups ds
    refine groups_append fun c' hc' d _ => joins_of_mark (.inl ?_)
    rwa [← Option.some.inj hc']
  rw [groups_append, hd]
  exact fun c' _ d hd => joins_of_mark (.inr (by rwa [← Option.some.inj hd]))

theorem groups_mark_cons {c : Char} (hc : role c = .mark) (cs : List Char) :
    groups (c :: cs) = [c] :: groups cs :=
  groups_append_mark hc [] cs

theorem Tiling.mono {gs hs : List (List Char)} (h : Tiling gs) (hi : hs <:+: gs) :
    Tiling hs :=
  ⟨fun hn => h.nonempty (hi.subset hn), fun g hg => h.joined g (hi.subset hg),
    List.IsChain.infix h.apart hi⟩

theorem Tiling.groups_flatten {gs : List (List Char)} (h : Tiling gs) : groups gs.flatten = gs := by
  rw [groups_eq_splitBy]
  exact List.splitBy_flatten h.nonempty h.joined h.apart

end Kode.Lexeme
