import Kode.Proofs.Pictures

/-!
# Places in a report

A span that covers no character stands at a place between two of them, on one line
of its source (`Source.OnLine`). A report of it shows this line only, with a single
caret: under the character behind the place, or under the last one where the line
ends (`Report.pointed`).

A carriage return at the end of a line is pointed at like any other character,
though it is not shown. So nothing at all is shown of a place directly before such
a carriage return, or behind it (`Report.Hidden`).

* `Source.Boundary.exists_onLine`: every place is on a line;
* `Report.showSource_place`: no other line is shown;
* `Report.showLine_point`: a line of which one character is pointed at;
* `Report.render_place`: the report of a place.
-/

namespace Kode

open Text (byteLength byteLength_append withOffsets withOffsets_append withOffsets_lt)

/-- A place between two characters, and the line that it is on: the characters of the
    line before the place and behind it. A newline is on no line. -/
structure Source.OnLine (source : Source) (site : Nat) (above left right below : List Char) :
    Prop where
  text : source.text.toList = above ++ (left ++ right ++ below)
  site_eq : byteLength (above ++ left) = site
  above_end : ∀ c ∈ above.getLast?, c = '\n'
  newline_not_mem : '\n' ∉ left ++ right
  below_start : ∀ c ∈ below.head?, c = '\n'

theorem Source.Boundary.exists_onLine {source : Source} {site : Nat} (h : source.Boundary site) :
    ∃ above left right below, source.OnLine site above left right below := by
  obtain ⟨front, back, htext, rfl⟩ := h
  have hfront : front.rdropWhile (· ≠ '\n') ++ front.rtakeWhile (· ≠ '\n') = front :=
    List.rdropWhile_append_rtakeWhile
  refine ⟨front.rdropWhile (· ≠ '\n'), front.rtakeWhile (· ≠ '\n'), back.takeWhile (· ≠ '\n'),
    back.dropWhile (· ≠ '\n'), ?_, by rw [hfront], fun c hc => ?_, fun hmem => ?_, fun c hc => ?_⟩
  · rw [List.append_assoc, List.takeWhile_append_dropWhile, ← List.append_assoc, hfront, htext]
  · have hne : front.rdropWhile (· ≠ '\n') ≠ [] := by
      intro hnil
      rw [hnil] at hc
      simp at hc
    have hlast := List.rdropWhile_last_not _ _ hne
    rw [List.getLast?_eq_some_getLast hne] at hc
    obtain rfl := Option.some.inj hc
    simpa using hlast
  · rcases List.mem_append.1 hmem with hmem | hmem
    · simpa using List.mem_rtakeWhile_imp hmem
    · simpa using List.mem_takeWhile_imp hmem
  · have hhead := List.head?_dropWhile_not (fun c : Char => decide (c ≠ '\n')) back
    rw [Option.mem_def.1 hc] at hhead
    simpa using hhead

namespace Report

variable {source : Source} {site : Nat} {above left right below : List Char}

/-! ## The line of a place -/

/-- The characters of a line that are shown: not a carriage return at its end. -/
def shorn (line : List Char) : List Char :=
  if line.getLast? = some '\r' then line.dropLast else line

/-- The characters on a line up to the one that a place on it is shown at. -/
def column (left right : List Char) : Nat :=
  if right = [] then left.length else left.length + 1

/-- A place on a line is not shown: a carriage return at the end of the line stands directly
    behind the place or before it, or nothing is on the line. -/
def Hidden (left right : List Char) : Prop :=
  right = ['\r'] ∨ right = [] ∧ (left = [] ∨ left.getLast? = some '\r')

instance (left right : List Char) : Decidable (Hidden left right) :=
  inferInstanceAs (Decidable (_ ∨ _))

/-- What is shown of a line in one column of which a caret stands. -/
def pointed (source : Source) (number column : Nat) (line : List Char) : String :=
  label source number column ++
    String.ofList (line.map fun c => if c = '\t' then ' ' else c) ++ "\n|" ++
    (String.ofList (List.replicate ((label source number column).length - 1) ' ') ++
      (String.ofList (List.replicate (column - 1) ' ') ++ "^")) ++ "\n"

theorem withoutReturn_withOffsets (start : Nat) (line : List Char) :
    withoutReturn (withOffsets start line) = withOffsets start (shorn line) := by
  rcases line.eq_nil_or_concat' with rfl | ⟨line, c, rfl⟩
  · rfl
  · by_cases hc : c = '\r' <;> simp [withoutReturn, shorn, hc]

theorem shorn_append {line : List Char} (hne : line ≠ []) (cs : List Char) :
    shorn (cs ++ line) = cs ++ shorn line := by
  rw [shorn, shorn, List.getLast?_append_of_ne_nil _ hne, List.dropLast_append_of_ne_nil hne]
  split <;> rfl

theorem exists_shorn_eq (cs : List Char) {c : Char} {rest : List Char}
    (h : ¬ (c = '\r' ∧ rest = [])) : ∃ rest', shorn (cs ++ c :: rest) = cs ++ c :: rest' := by
  rw [shorn_append (List.cons_ne_nil c rest)]
  by_cases hrest : rest = []
  · subst hrest
    refine ⟨[], ?_⟩
    simp [shorn, show c ≠ '\r' by simpa using h]
  · exact ⟨shorn rest, congrArg (cs ++ ·) (shorn_append hrest [c])⟩

theorem length_lines (cells : List Cell) :
    (lines cells).length = (cells.map Prod.snd).count '\n' + 1 := by
  induction cells with
  | nil => rfl
  | cons x cells ih =>
    rw [lines_cons]
    split
    · rename_i hx
      simp [ih, hx]
    · rename_i hx
      simp [ih, hx]

/-- The lines in front of a place are those of the text above its line. -/
theorem exists_lines_above (habove : ∀ c ∈ above.getLast?, c = '\n') :
    ∃ up, (∀ cells, lines (withOffsets 0 above ++ cells) = up ++ lines cells) ∧
      up.length = above.count '\n' ∧ ∀ line ∈ up, ∀ x ∈ line, x.1 + 1 < byteLength above := by
  rcases above.eq_nil_or_concat' with rfl | ⟨front, c, rfl⟩
  · exact ⟨[], fun _ => rfl, rfl, by simp⟩
  · obtain rfl := habove c (by simp)
    refine ⟨lines (withOffsets 0 front), fun cells => ?_, ?_, fun line hline x hx => ?_⟩
    · rw [lines_eq_splitOnP, lines_eq_splitOnP, lines_eq_splitOnP, withOffsets_append,
        List.append_assoc]
      exact List.splitOnP_append_cons _ _ (by simp)
    · simp [length_lines]
    · have hlt := Text.withOffsets_lt_byteLength x (mem_and_ne_newline_of_mem_lines hline x hx).1
      have hnewline : byteLength ['\n'] = 1 := rfl
      rw [byteLength_append, hnewline]
      omega

/-- The lines behind it begin after the newline that ends it. -/
theorem exists_lines_below {cells : List Cell} (hcells : ∀ x ∈ cells, x.2 ≠ '\n')
    (hbelow : ∀ c ∈ below.head?, c = '\n') (start : Nat) :
    ∃ down, lines (cells ++ withOffsets start below) = cells :: down ∧
      ∀ line ∈ down, ∀ x ∈ line, start < x.1 := by
  have hsingle : lines cells = [cells] := by
    rw [lines_eq_splitOnP]
    exact List.splitOnP_eq_singleton fun x hx => decide_eq_false (hcells x hx)
  cases below with
  | nil => exact ⟨[], by simpa using hsingle, by simp⟩
  | cons c rest =>
    obtain rfl := hbelow c rfl
    refine ⟨lines (withOffsets (start + '\n'.utf8Size) rest), ?_, fun line hline x hx => ?_⟩
    · rw [lines_eq_splitOnP] at hsingle
      rw [lines_eq_splitOnP, lines_eq_splitOnP, Text.withOffsets_cons,
        List.splitOnP_append_cons _ _ (by simp), hsingle]
      rfl
    · have hle := (withOffsets_lt (mem_and_ne_newline_of_mem_lines hline x hx).1).1
      have hnewline : '\n'.utf8Size = 1 := rfl
      omega

/-- The place is shown at a character of its line, if there is one: the one behind it,
    or the last one at the end of the line. -/
theorem exists_pointed (h : source.OnLine site above left right below)
    (hne : left ++ right ≠ []) :
    ∃ cs c rest, left ++ right = cs ++ c :: rest ∧ column left right = cs.length + 1 ∧
      pointOffset source site = byteLength above + byteLength cs ∧
      (Hidden left right ↔ c = '\r' ∧ rest = []) := by
  have htext := h.text
  cases right with
  | cons c rest =>
    have hc : c ≠ '\n' := by
      rintro rfl
      exact h.newline_not_mem (by simp)
    refine ⟨left, c, rest, rfl, by simp [column], ?_, by simp [Hidden]⟩
    rw [← byteLength_append, ← h.site_eq]
    exact pointOffset_ahead (by simpa using htext) hc
  | nil =>
    rcases left.eq_nil_or_concat' with rfl | ⟨cs, c, rfl⟩
    · exact absurd rfl hne
    · refine ⟨cs, c, [], by simp, by simp [column], ?_, by simp [Hidden]⟩
      rw [← byteLength_append]
      refine pointOffset_of_points (.behind (c := c) (by simpa using htext) h.below_start ?_)
      rw [← h.site_eq, List.append_assoc]

theorem pointOffset_bounds (h : source.OnLine site above left right below) :
    byteLength above ≤ pointOffset source site + 1 ∧
      pointOffset source site ≤ byteLength (above ++ (left ++ right)) := by
  by_cases hne : left ++ right = []
  · -- The line is empty, so the place is shown at the newline above it.
    obtain ⟨rfl, rfl⟩ := List.append_eq_nil_iff.1 hne
    have hpoint := pointOffset_lineEnd (by simpa using h.text) h.below_start
    rw [← h.site_eq, List.append_nil, hpoint]
    rcases above.eq_nil_or_concat' with rfl | ⟨front, c, rfl⟩
    · simp
    · obtain rfl := h.above_end c (by simp)
      have hnewline : '\n'.utf8Size = 1 := rfl
      simp [hnewline]
  · obtain ⟨cs, c, rest, hline, -, hpoint, -⟩ := exists_pointed h hne
    rw [hpoint, hline]
    simp only [byteLength_append]
    omega

/-- No other line than that of the place is shown. -/
theorem showSource_place (h : source.OnLine site above left right below) :
    showSource [.located source site site (Nat.le_refl site)] source =
      showLine source [(pointOffset source site, pointOffset source site + 1)]
        (above.count '\n' + 1) (withOffsets (byteLength above) (shorn (left ++ right))) := by
  obtain ⟨hlo, hhi⟩ := pointOffset_bounds h
  have hranges : [Span.located source site site (Nat.le_refl site)].filterMap (range? source) =
      [(pointOffset source site, pointOffset source site + 1)] := by
    simp [range?]
  have hline : ∀ x ∈ withOffsets (byteLength above) (left ++ right), x.2 ≠ '\n' := by
    intro x hx hnewline
    have hmem : x.2 ∈ left ++ right := by
      rw [← Text.map_snd_withOffsets (byteLength above) (left ++ right)]
      exact List.mem_map_of_mem hx
    exact h.newline_not_mem (hnewline ▸ hmem)
  obtain ⟨up, hup, hcount, hfront⟩ := exists_lines_above h.above_end
  obtain ⟨down, hdown, hback⟩ :=
    exists_lines_below hline h.below_start (byteLength (above ++ (left ++ right)))
  have hlines : lines source.chars =
      up ++ withOffsets (byteLength above) (left ++ right) :: down := by
    rw [← hdown, ← hup, Source.chars, h.text, withOffsets_append, withOffsets_append,
      byteLength_append]
    simp
  -- The other lines end before the character that is pointed at, or begin behind it.
  have hnothing (ls : List (List Cell)) (number : Nat → Nat)
      (hls : ∀ line ∈ ls, ∀ x ∈ line, x.1 ≠ pointOffset source site) :
      String.join (ls.mapIdx fun i line => showLine source
        [(pointOffset source site, pointOffset source site + 1)] (number i) (withoutReturn line)) =
          "" :=
    join_mapIdx_eq_empty fun i line hl => showLine_of_unmarked (number i) fun x hx => by
      have := hls line hl x (withoutReturn_subset line hx)
      simp [isMarked]
      omega
  have habove := hnothing up (· + 1) fun line hl x hx => by
    have := hfront line hl x hx
    omega
  have hbelow := hnothing down (· + 1 + up.length + 1) fun line hl x hx => by
    have := hback line hl x hx
    omega
  rw [showSource, hranges, hlines, List.mapIdx_append, List.mapIdx_cons, String.join_append,
    String.join_cons, habove, hbelow, withoutReturn_withOffsets, String.empty_append,
    String.append_empty, Nat.zero_add, hcount]

/-! ## The caret -/

theorem carets_single (m n : Nat) :
    carets (List.replicate m false ++ true :: List.replicate n false) =
      String.ofList (List.replicate m ' ') ++ "^" := by
  rw [carets, List.reverse_append, List.reverse_cons, List.append_assoc, List.reverse_replicate,
    List.dropWhile_append_of_pos (by simp)]
  simp

theorem isMarked_before (start : Nat) (cs : List Char) :
    ∀ y ∈ withOffsets start cs,
      isMarked [(start + byteLength cs, start + byteLength cs + 1)] y.1 = false :=
  isMarked_eq_false (n := start + byteLength cs) (by simp) fun _ hy => (withOffsets_lt hy).2

theorem isMarked_behind (start : Nat) (cs : List Char) {offset : Nat} (h : offset < start) :
    ∀ y ∈ withOffsets start cs, isMarked [(offset, offset + 1)] y.1 = false := by
  intro y hy
  have hle := (withOffsets_lt hy).1
  simp [isMarked]
  omega

theorem lineText_withOffsets (start : Nat) (cs : List Char) :
    lineText (withOffsets start cs) =
      String.ofList (cs.map fun c => if c = '\t' then ' ' else c) := by
  conv_rhs => rw [← Text.map_snd_withOffsets start cs, List.map_map]
  rfl

/-- A line one character of which is marked is shown with one caret beneath it. -/
theorem showLine_point (source : Source) (number start : Nat) (cs : List Char) (c : Char)
    (rest : List Char) :
    showLine source [(start + byteLength cs, start + byteLength cs + 1)] number
        (withOffsets start (cs ++ c :: rest)) =
      pointed source number (cs.length + 1) (cs ++ c :: rest) := by
  have hleft := isMarked_before start cs
  have hright := isMarked_behind (start + byteLength cs + c.utf8Size) rest
    (Nat.lt_add_of_pos_right c.utf8Size_pos)
  have hself : isMarked [(start + byteLength cs, start + byteLength cs + 1)]
      (start + byteLength cs) = true := by
    simp [isMarked]
  have hmarks : (withOffsets start (cs ++ c :: rest)).map (fun y =>
      isMarked [(start + byteLength cs, start + byteLength cs + 1)] y.1) =
      List.replicate cs.length false ++ true :: List.replicate rest.length false := by
    rw [withOffsets_append, Text.withOffsets_cons, List.map_append, List.map_cons, hself,
      List.map_eq_replicate_iff.2 hleft, List.map_eq_replicate_iff.2 hright,
      Text.length_withOffsets, Text.length_withOffsets]
  have htext := lineText_withOffsets start (cs ++ c :: rest)
  rw [withOffsets_append, Text.withOffsets_cons] at htext hmarks ⊢
  rw [showLine_of_marked source number _ hleft hself, htext, hmarks, carets_single,
    Text.length_withOffsets]
  rfl

/-- The report of a place tells its line, and beneath it stands one caret, unless the line
    is empty, or a carriage return at its end stands directly before or behind the place.
    Then there is only the header. -/
theorem render_place (title message : String) (h : source.Boundary site) :
    (∃ above left right below, source.OnLine site above left right below) ∧
    ∀ above left right below, source.OnLine site above left right below →
      render title message [.located source site site (Nat.le_refl site)] =
        "|\n| " ++ title ++ ": " ++ message ++ "\n|\n" ++
          if Hidden left right then ""
          else pointed source (above.count '\n' + 1) (column left right)
            (shorn (left ++ right)) := by
  refine ⟨h.exists_onLine, fun above left right below hon => ?_⟩
  have hsources : sources [.located source site site (Nat.le_refl site)] = [source] := rfl
  rw [render, hsources, List.map_singleton, String.join_cons, String.join_nil, String.append_empty,
    showSource_place hon]
  congr 1
  by_cases hne : left ++ right = []
  · obtain ⟨rfl, rfl⟩ := List.append_eq_nil_iff.1 hne
    rfl
  obtain ⟨cs, c, rest, hline, hcolumn, hpoint, hhidden⟩ := exists_pointed hon hne
  rw [hpoint, hline, hcolumn]
  split
  · rename_i hreturn
    obtain ⟨rfl, rfl⟩ := hhidden.1 hreturn
    have hshorn : shorn (cs ++ ['\r']) = cs := by simp [shorn]
    rw [hshorn]
    exact showLine_of_unmarked _ (isMarked_before (byteLength above) cs)
  · rename_i hreturn
    obtain ⟨rest', hrest⟩ := exists_shorn_eq cs (mt hhidden.2 hreturn)
    rw [hrest, showLine_point]

/-- The end of a text, behind a tab and a character of two bytes. -/
theorem render_place_of_textEnd :
    let source : Source := ⟨"ü", "a\r\né\tb", 0⟩
    source.Boundary 7 ∧ source.OnLine 7 ['a', '\r', '\n'] ['é', '\t', 'b'] [] [] ∧
      render "E" "m" [.located source 7 7 (Nat.le_refl 7)] =
        "|\n| E: m\n|\n| (ü:2:3) é b\n|           ^\n" := by
  intro source
  have htext : source.text.toList = ['a', '\r', '\n', 'é', '\t', 'b'] := by decide +kernel
  have hplace : source.Boundary 7 := ⟨['a', '\r', '\n', 'é', '\t', 'b'], [], htext, rfl⟩
  have hline : source.OnLine 7 ['a', '\r', '\n'] ['é', '\t', 'b'] [] [] :=
    ⟨htext, rfl, by simp, by decide, by simp⟩
  refine ⟨hplace, hline, ((render_place "E" "m" hplace).2 _ _ _ _ hline).trans ?_⟩
  decide +kernel

/-- At the end of a line that a carriage return and a newline end, nothing is shown,
    whatever else is on the line. -/
theorem not_render_place_of_carriageReturn :
    let source : Source := ⟨"u", "a\r\n", 0⟩
    source.Boundary 1 ∧ source.OnLine 1 [] ['a'] ['\r'] ['\n'] ∧
      ∀ number column line, render "E" "m" [.located source 1 1 (Nat.le_refl 1)] ≠
        "|\n| E: m\n|\n" ++ pointed source number column line := by
  intro source
  have htext : source.text.toList = ['a', '\r', '\n'] := by decide +kernel
  refine ⟨⟨['a'], ['\r', '\n'], htext, rfl⟩, ⟨htext, rfl, by simp, by decide, by simp⟩,
    fun number column line hrender => ?_⟩
  have hheader : render "E" "m" [.located source 1 1 (Nat.le_refl 1)] = "|\n| E: m\n|\n" := by
    decide +kernel
  have hempty := congrArg String.toList (hheader.symm.trans hrender)
  simp [pointed, label] at hempty

end Report

end Kode
