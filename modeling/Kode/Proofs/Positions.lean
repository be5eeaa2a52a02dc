import Kode.Proofs.Marks
import Mathlib.Data.List.DropRight
import Mathlib.Data.Prod.Lex
import Mathlib.Data.Set.Function
import Mathlib.Order.Monotone.Basic

/-!
# Positions

A position is reached from the start of the text character by character. Each step
leads to a greater one in the order of positions, the line first (`lt_advance`): so
offsets between two characters are told apart by their positions, which come in the
order of the offsets.

Conversely, a position leads to a place in the text once this is split at its newlines:
down to the line, and ahead as many characters as the column says (`Source.offsetAt?`).

* `foldl_advance`: the line counts the newlines passed, the column the characters since
  the last of them;
* `locate_eq_some_iff`: the place at which so many newlines and characters are passed;
* `Source.positions_identify`: positions and offsets correspond.
-/

namespace Kode

open Text (byteLength byteLength_append byteLength_cons)

namespace Position

/-- The line, and within a line the column. -/
def key (p : Position) : Nat ×ₗ Nat :=
  toLex (p.line, p.column)

/-- Every character leads ahead. -/
theorem lt_advance (p : Position) (c : Char) : p.key < (p.advance c).key := by
  rw [key, key, Prod.Lex.toLex_lt_toLex, advance]
  split
  · exact .inl (Nat.lt_succ_self _)
  · exact .inr ⟨rfl, Nat.lt_succ_self _⟩

theorem lt_foldl_advance (p : Position) {cs : List Char} (hne : cs ≠ []) :
    p.key < (cs.foldl advance p).key := by
  induction cs generalizing p with
  | nil => exact absurd rfl hne
  | cons c cs ih =>
    rw [List.foldl_cons]
    cases cs with
    | nil => exact p.lt_advance c
    | cons d cs => exact (p.lt_advance c).trans (ih (p.advance c) (by simp))

/-- The newlines passed, and the characters since the last of them. -/
theorem foldl_advance (cs : List Char) :
    cs.foldl advance origin = ⟨cs.count '\n' + 1, (cs.rtakeWhile (· ≠ '\n')).length + 1⟩ := by
  induction cs using List.reverseRecOn with
  | nil => rfl
  | append_singleton cs c ih =>
    rw [List.foldl_append, ih, List.foldl_cons, List.foldl_nil, advance, List.count_append]
    split
    · rename_i hc
      subst hc
      rw [List.rtakeWhile_concat_neg _ _ _ (by simp)]
      rfl
    · rename_i hc
      rw [List.rtakeWhile_concat_pos _ _ _ (by simpa using hc)]
      simp [hc]

end Position

/-! ## From positions to offsets -/

/-- The offset of the place behind so many lines and, on the next one, so many
    characters. Between two lines stands a newline. -/
def locate : List (List Char) → Nat → Nat → Option Nat
  | [], _, _ => none
  | row :: _, 0, column =>
    if column ≤ row.length then some (byteLength (row.take column)) else none
  | row :: rows, line + 1, column =>
    (locate rows line column).map fun offset => byteLength row + '\n'.utf8Size + offset

/-- The offset that the position is the one of, if it is in the text. -/
def Source.offsetAt? (s : Source) : Position → Option Nat
  | ⟨line + 1, column + 1⟩ => locate (s.text.toList.splitOn '\n') line column
  | _ => none

/-- What stands before the newline of a line tells nothing of the column on a later one. -/
theorem rtakeWhile_append_newline (row cs : List Char) :
    (row ++ '\n' :: cs).rtakeWhile (· ≠ '\n') = cs.rtakeWhile (· ≠ '\n') := by
  induction cs using List.reverseRecOn with
  | nil => exact List.rtakeWhile_concat_neg _ _ _ (by simp)
  | append_singleton cs c ih =>
    rw [← List.cons_append, ← List.append_assoc, List.rtakeWhile_concat, List.rtakeWhile_concat, ih]

/-- What can stand in front of a place in some lines: a part of the first line, or all of it
    and what stands in front of a place in the others. -/
theorem prefix_intercalate_cons {row front : List Char} {rows : List (List Char)} :
    front <+: ['\n'].intercalate (row :: rows) ↔
      front <+: row ∨ rows ≠ [] ∧
        ∃ front', front = row ++ '\n' :: front' ∧ front' <+: ['\n'].intercalate rows := by
  cases rows with
  | nil => simp
  | cons row' rows =>
    rw [List.intercalate_cons_cons, List.append_assoc, List.singleton_append]
    constructor
    · intro h
      rcases List.prefix_or_prefix_of_prefix h (List.prefix_append row _) with h' | ⟨rest, rfl⟩
      · exact .inl h'
      · rw [List.prefix_append_right_inj, List.prefix_cons_iff] at h
        rcases h with rfl | ⟨front', rfl, h⟩
        · exact .inl (by simp)
        · exact .inr ⟨by simp, front', rfl, h⟩
    · rintro (h | ⟨-, front', rfl, h⟩)
      · exact h.trans (List.prefix_append row _)
      · rw [List.prefix_append_right_inj, List.cons_prefix_cons]
        exact ⟨rfl, h⟩

/-- The lines have the place exactly if so many newlines, and so many characters after the
    last of them, stand in front of it. -/
theorem locate_eq_some_iff {rows : List (List Char)} (hne : rows ≠ [])
    (hrows : ∀ row ∈ rows, '\n' ∉ row) {line column offset : Nat} :
    locate rows line column = some offset ↔
      ∃ front, front <+: ['\n'].intercalate rows ∧ byteLength front = offset ∧
        front.count '\n' = line ∧ (front.rtakeWhile (· ≠ '\n')).length = column := by
  -- A part of the first line has no newline, so it is all that counts for the column.
  have first {row front : List Char} (hrow : '\n' ∉ row) (hfront : front <+: row) :
      front.count '\n' = 0 ∧ front.rtakeWhile (· ≠ '\n') = front := by
    have hmem : '\n' ∉ front := fun h => hrow (hfront.subset h)
    refine ⟨List.count_eq_zero.2 hmem, List.rtakeWhile_eq_self_iff.2 fun c hc => ?_⟩
    simpa using fun h : c = '\n' => hmem (h ▸ hc)
  have later (row front : List Char) :
      (row ++ '\n' :: front).count '\n' = row.count '\n' + (front.count '\n' + 1) := by
    rw [List.count_append, List.count_cons_self]
  induction rows generalizing line offset with
  | nil => exact absurd rfl hne
  | cons row rows ih =>
    rw [List.forall_mem_cons] at hrows
    simp only [prefix_intercalate_cons]
    cases line with
    | zero =>
      rw [locate]
      constructor
      · intro h
        split at h
        · rename_i hle
          have hfront := List.take_prefix column row
          refine ⟨row.take column, .inl hfront, Option.some.inj h, (first hrows.1 hfront).1, ?_⟩
          rw [(first hrows.1 hfront).2, List.length_take_of_le hle]
        · simp at h
      · rintro ⟨front, hfront | ⟨-, front', rfl, -⟩, rfl, hcount, rfl⟩
        · rw [(first hrows.1 hfront).2, if_pos hfront.length_le,
            ← List.prefix_iff_eq_take.1 hfront]
        · rw [later] at hcount
          omega
    | succ line =>
      rw [locate, Option.map_eq_some_iff]
      constructor
      · rintro ⟨offset', h, rfl⟩
        have hne' : rows ≠ [] := by
          rintro rfl
          simp [locate] at h
        obtain ⟨front, hfront, rfl, hcount, hlen⟩ := (ih hne' hrows.2).1 h
        refine ⟨row ++ '\n' :: front, .inr ⟨hne', front, rfl, hfront⟩, ?_, ?_, ?_⟩
        · rw [byteLength_append, byteLength_cons, Nat.add_assoc]
        · rw [later, List.count_eq_zero.2 hrows.1, hcount, Nat.zero_add]
        · rw [rtakeWhile_append_newline, hlen]
      · rintro ⟨front, hfront | ⟨hne', front', rfl, hfront⟩, rfl, hcount, hlen⟩
        · rw [(first hrows.1 hfront).1] at hcount
          omega
        · rw [later, List.count_eq_zero.2 hrows.1] at hcount
          rw [rtakeWhile_append_newline] at hlen
          refine ⟨byteLength front', (ih hne' hrows.2).2 ⟨front', hfront, rfl, by omega, hlen⟩, ?_⟩
          rw [byteLength_append, byteLength_cons, Nat.add_assoc]

theorem newline_not_mem_of_mem_splitOn {cs row : List Char} (h : row ∈ cs.splitOn '\n') :
    '\n' ∉ row := by
  induction cs generalizing row with
  | nil =>
    obtain rfl := List.mem_singleton.1 h
    exact List.not_mem_nil
  | cons c cs ih =>
    rw [List.splitOn_cons_eq_if_modifyHead] at h
    split at h
    · rcases List.mem_cons.1 h with rfl | h
      · exact List.not_mem_nil
      · exact ih h
    · rename_i hc
      obtain ⟨head, rows, hrows⟩ := List.exists_cons_of_ne_nil (List.splitOn_ne_nil '\n' cs)
      rw [hrows, List.modifyHead_cons] at h
      rw [hrows, List.forall_mem_cons] at ih
      rcases List.mem_cons.1 h with rfl | h
      · rw [List.mem_cons, not_or]
        exact ⟨fun h => hc (by rw [h, beq_self_eq_true]), ih.1⟩
      · exact ih.2 row h

/-! ## The positions of a source -/

namespace Source

variable {s : Source}

theorem boundary_iff {offset : Nat} :
    s.Boundary offset ↔ ∃ front, front <+: s.text.toList ∧ byteLength front = offset :=
  ⟨fun ⟨front, back, htext, hlen⟩ => ⟨front, ⟨back, htext.symm⟩, hlen⟩,
    fun ⟨front, ⟨back, htext⟩, hlen⟩ => ⟨front, back, htext.symm, hlen⟩⟩

/-- The position between two characters. -/
theorem position_byteLength {front : List Char} (h : front <+: s.text.toList) :
    s.position (byteLength front) = front.foldl Position.advance Position.origin := by
  obtain ⟨back, htext⟩ := h
  rw [position, before, s.takeWhile_chars htext.symm, Text.map_snd_withOffsets]

/-- An offset past the end stands for the end. -/
theorem position_of_size_le {offset : Nat} (h : s.size ≤ offset) :
    s.position offset = s.position s.size := by
  have before_eq {n : Nat} (hn : s.size ≤ n) : s.before n = s.text.toList := by
    rw [before, List.takeWhile_eq_self_iff.2 fun x hx => ?_, chars, Text.map_snd_withOffsets]
    have hlt := Text.withOffsets_lt_byteLength x hx
    rw [Text.byteLength_toList] at hlt
    exact decide_eq_true (Nat.lt_of_lt_of_le hlt hn)
  rw [position, position, before_eq h, before_eq (Nat.le_refl _)]

/-- Positions come in the order of the offsets. -/
theorem strictMonoOn_position :
    StrictMonoOn (fun offset => (s.position offset).key) {offset | s.Boundary offset} := by
  intro offset ho offset' ho' hlt
  obtain ⟨front, hfront, rfl⟩ := boundary_iff.1 ho
  obtain ⟨front', hfront', rfl⟩ := boundary_iff.1 ho'
  rcases List.prefix_or_prefix_of_prefix hfront hfront' with ⟨mid, rfl⟩ | ⟨mid, rfl⟩
  · have hne : mid ≠ [] := by
      rintro rfl
      simp at hlt
    change (s.position _).key < (s.position _).key
    rw [position_byteLength hfront, position_byteLength hfront', List.foldl_append]
    exact Position.lt_foldl_advance _ hne
  · rw [byteLength_append] at hlt
    omega

/-- The place that a position leads to is the one of which it is the position. -/
theorem offsetAt?_eq_some_iff {p : Position} {offset : Nat} :
    s.offsetAt? p = some offset ↔ s.Boundary offset ∧ s.position offset = p := by
  have counted (n : Nat) : 0 < (s.position n).line ∧ 0 < (s.position n).column := by
    rw [position, Position.foldl_advance]
    exact ⟨Nat.succ_pos _, Nat.succ_pos _⟩
  obtain ⟨line, column⟩ := p
  cases line with
  | zero => exact ⟨by simp [offsetAt?], fun h => absurd (counted offset).1 (by simp [h.2])⟩
  | succ line =>
    cases column with
    | zero => exact ⟨by simp [offsetAt?], fun h => absurd (counted offset).2 (by simp [h.2])⟩
    | succ column =>
      rw [offsetAt?, locate_eq_some_iff (List.splitOn_ne_nil _ _)
        fun row => newline_not_mem_of_mem_splitOn, List.intercalate_splitOn, boundary_iff]
      constructor
      · rintro ⟨front, hfront, rfl, rfl, rfl⟩
        exact ⟨⟨front, hfront, rfl⟩, by rw [position_byteLength hfront, Position.foldl_advance]⟩
      · rintro ⟨⟨front, hfront, rfl⟩, h⟩
        rw [position_byteLength hfront, Position.foldl_advance, Position.mk.injEq] at h
        exact ⟨front, hfront, rfl, Nat.succ.inj h.1, Nat.succ.inj h.2⟩

/-- Positions identify the places between two characters: they come in the order of the
    offsets, and lead back to them once the text is split at its newlines. The line counts
    the newlines in front, the column the characters behind the last of these. All
    offsets past the end have the position of the end. -/
theorem positions_identify (s : Source) :
    StrictMonoOn (fun offset => (s.position offset).key) {offset | s.Boundary offset} ∧
    Set.InjOn s.position {offset | s.Boundary offset} ∧
    (∀ offset, s.size ≤ offset → s.position offset = s.position s.size) ∧
    (∀ offset, s.position offset = ⟨(s.before offset).count '\n' + 1,
      ((s.before offset).rtakeWhile (· ≠ '\n')).length + 1⟩) ∧
    ∀ p offset, s.offsetAt? p = some offset ↔ s.Boundary offset ∧ s.position offset = p := by
  refine ⟨strictMonoOn_position, fun offset h offset' h' heq => ?_,
    fun offset => position_of_size_le,
    fun offset => Position.foldl_advance _, fun p offset => offsetAt?_eq_some_iff⟩
  exact strictMonoOn_position.injOn h h' (congrArg Position.key heq)

/-- A newline that ends a line of characters of two and three bytes, an empty line, and an
    offset behind the end. -/
theorem positions_identify_of_accents :
    let s : Source := ⟨"main.kode", "é€\n\nx", 0⟩
    s.Boundary 5 ∧ s.Boundary 6 ∧ (s.position 5).key < (s.position 6).key ∧
      s.size ≤ 100 ∧ s.position 100 = ⟨3, 2⟩ ∧
      s.offsetAt? ⟨1, 3⟩ = some 5 ∧ s.offsetAt? ⟨2, 1⟩ = some 6 := by
  intro s
  obtain ⟨hmono, -, hend, -, hback⟩ := positions_identify s
  have hfive : s.Boundary 5 := ⟨['é', '€'], ['\n', '\n', 'x'], by decide, by decide⟩
  have hsix : s.Boundary 6 := ⟨['é', '€', '\n'], ['\n', 'x'], by decide, by decide⟩
  have hsize : s.size ≤ 100 := by decide
  exact ⟨hfive, hsix, hmono hfive hsix (by decide), hsize, (hend 100 hsize).trans (by decide),
    (hback _ 5).2 ⟨hfive, by decide⟩, (hback _ 6).2 ⟨hsix, by decide⟩⟩

end Source

end Kode
