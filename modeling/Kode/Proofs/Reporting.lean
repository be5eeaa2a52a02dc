import Kode.Proofs.Provenance
import Mathlib.Data.List.TakeWhile

/-!
# What a report shows

A report about spans that mark something begins, after its header, with the line
in which the first of them begins; in front of it stands the position of this
span, and beneath it at least one caret. For a line is shown only if a character
of it is marked, the first such character of the line is told by its column, and
no span begins before the first one.

* `Report.exists_lines_eq`: a character in the lines of the text, and its
  position;
* `Report.locates_render`: the first line of a report;
* `Source.failure_points`: so every failure of a program is shown where it is.
-/

namespace Kode

/-- The report begins, after the header, with a line in front of which the
    position of the span stands, and with carets in the line beneath. -/
def Report.Locates (title message : String) (s : Span) (report : String) : Prop :=
  ∃ line carets rest,
    report = "|\n| " ++ title ++ ": " ++ message ++ "\n|\n" ++
      ("| (" ++ s.place ++ ") " ++ line ++ "\n|" ++ carets ++ "\n" ++ rest) ∧
    '\n' ∉ line.toList ∧ '\n' ∉ carets.toList ∧ '^' ∈ carets.toList

namespace Report

/-! ## Lines -/

theorem lines_ne_nil (cells : List Cell) : lines cells ≠ [] := by
  fun_cases lines cells <;> simp_all

theorem lines_cons (x : Cell) (cells : List Cell) :
    lines (x :: cells) =
      if x.2 = '\n' then [] :: lines cells else (lines cells).modifyHead (x :: ·) := by
  rw [lines]
  split
  · rfl
  · obtain ⟨line, rest, h⟩ := List.exists_cons_of_ne_nil (lines_ne_nil cells)
    rw [h]
    rfl

/-- A line consists of characters of the text, and does not reach past a newline. -/
theorem mem_and_ne_newline_of_mem_lines {cells line : List Cell} (h : line ∈ lines cells) :
    ∀ x ∈ line, x ∈ cells ∧ x.2 ≠ '\n' := by
  induction cells generalizing line with
  | nil =>
    obtain rfl := List.mem_singleton.1 h
    simp
  | cons y cells ih =>
    have hrest : ∀ l ∈ lines cells, ∀ x ∈ l, x ∈ y :: cells ∧ x.2 ≠ '\n' :=
      fun l hl x hx => ⟨List.mem_cons_of_mem _ (ih hl x hx).1, (ih hl x hx).2⟩
    rw [lines_cons] at h
    split at h
    · rcases List.mem_cons.1 h with rfl | h
      · simp
      · exact hrest line h
    · rename_i hy
      obtain ⟨first, rest, hlines⟩ := List.exists_cons_of_ne_nil (lines_ne_nil cells)
      rw [hlines] at h hrest
      rcases List.mem_cons.1 h with rfl | h
      · exact List.forall_mem_cons.2 ⟨⟨List.mem_cons_self, hy⟩, hrest first List.mem_cons_self⟩
      · exact hrest line (List.mem_cons_of_mem _ h)

/-- A character of a text stands in one of its lines, and its position tells in
    which and where. What stands before it in this line or in a line above stands
    before it in the text. -/
theorem exists_lines_eq (pre post : List Cell) {x : Cell} (hx : x.2 ≠ '\n') :
    ∃ above left right below,
      lines (pre ++ x :: post) = above ++ (left ++ x :: right) :: below ∧
      (∀ line ∈ above, line ⊆ pre) ∧ left ⊆ pre ∧
      ∀ p, (pre.map Prod.snd).foldl Position.advance p =
        ⟨p.line + above.length, (if above = [] then p.column else 1) + left.length⟩ := by
  induction pre with
  | nil =>
    obtain ⟨line, below, hl⟩ := List.exists_cons_of_ne_nil (lines_ne_nil post)
    refine ⟨[], [], line, below, ?_, by simp, by simp, fun p => rfl⟩
    simp [lines, hx, hl]
  | cons y pre ih =>
    obtain ⟨above, left, right, below, hlines, habove, hleft, hpos⟩ := ih
    by_cases hy : y.2 = '\n'
    · refine ⟨[] :: above, left, right, below, ?_, ?_, fun z hz => .tail _ (hleft hz), ?_⟩
      · simp [lines, hy, hlines]
      · intro line hline
        rcases List.mem_cons.1 hline with rfl | hline
        · simp
        · exact fun z hz => .tail _ (habove line hline hz)
      · intro p
        rw [List.map_cons, List.foldl_cons, hpos, Position.advance, if_pos hy]
        simp
        omega
    · -- The character is put in front of the first line.
      have hadvance (p : Position) : p.advance y.2 = ⟨p.line, p.column + 1⟩ := if_neg hy
      cases above with
      | nil =>
        refine ⟨[], y :: left, right, below, ?_, by simp, ?_, ?_⟩
        · simp [lines, hy, hlines]
        · exact List.cons_subset_cons y hleft
        · intro p
          rw [List.map_cons, List.foldl_cons, hpos, hadvance]
          simp
          omega
      | cons line above =>
        refine ⟨(y :: line) :: above, left, right, below, ?_, ?_, fun z hz => .tail _ (hleft hz),
          ?_⟩
        · simp [lines, hy, hlines]
        · intro l hl
          rcases List.mem_cons.1 hl with rfl | hl
          · exact List.cons_subset_cons y (habove line List.mem_cons_self)
          · exact fun z hz => .tail _ (habove l (List.mem_cons_of_mem _ hl) hz)
        · intro p
          rw [List.map_cons, List.foldl_cons, hpos, hadvance]
          simp

/-- Only what follows a character can be a carriage return that is left out. -/
theorem exists_withoutReturn_eq (left right : List Cell) {x : Cell} (hx : x.2 ≠ '\r') :
    ∃ right', withoutReturn (left ++ x :: right) = left ++ x :: right' ∧ right' ⊆ right := by
  rw [withoutReturn]
  split
  · rename_i h
    cases right with
    | nil => simp [hx] at h
    | cons y right =>
      refine ⟨(y :: right).dropLast, ?_, List.dropLast_subset _⟩
      rw [List.dropLast_append_of_ne_nil (by simp), List.dropLast_cons_of_ne_nil (by simp)]
  · exact ⟨right, rfl, List.Subset.refl _⟩

theorem withoutReturn_subset (line : List Cell) : withoutReturn line ⊆ line := by
  rw [withoutReturn]
  split
  · exact List.dropLast_subset _
  · exact List.Subset.refl _

/-! ## Marks -/

theorem mem_carets {marked : List Bool} (h : true ∈ marked) : '^' ∈ (carets marked).toList := by
  rw [carets, String.toList_ofList, List.mem_map]
  refine ⟨true, ?_, rfl⟩
  rw [List.mem_reverse]
  -- Only what is not marked is dropped at the end.
  have hmem : true ∈ marked.reverse.takeWhile (!·) ++ marked.reverse.dropWhile (!·) := by
    rw [List.takeWhile_append_dropWhile]
    exact List.mem_reverse.2 h
  rcases List.mem_append.1 hmem with hmem | hmem
  · simpa using List.mem_takeWhile_imp hmem
  · exact hmem

theorem newline_not_mem_carets (marked : List Bool) : '\n' ∉ (carets marked).toList := by
  rw [carets, String.toList_ofList, List.mem_map]
  rintro ⟨m, -, hm⟩
  cases m <;> simp at hm

variable {source : Source} {ranges : List (Nat × Nat)} {n : Nat}

/-- There are no marks in front of all spans. -/
theorem isMarked_eq_false (hranges : ∀ r ∈ ranges, n ≤ r.1) {cells : List Cell}
    (hcells : ∀ x ∈ cells, x.1 < n) : ∀ x ∈ cells, isMarked ranges x.1 = false := by
  intro x hx
  rw [isMarked, List.any_eq_false]
  intro r hr
  have h₁ := hranges r hr
  have h₂ := hcells x hx
  simp
  omega

/-- Nothing is shown of a line without a mark. -/
theorem showLine_of_unmarked {line : List Cell} (number : Nat)
    (hline : ∀ x ∈ line, isMarked ranges x.1 = false) :
    showLine source ranges number line = "" := by
  have hfind : (line.map fun x => isMarked ranges x.1).findIdx? id = none := by
    rw [List.findIdx?_eq_none_iff]
    intro m hm
    obtain ⟨x, hx, rfl⟩ := List.mem_map.1 hm
    exact hline x hx
  rw [showLine]
  simp only [hfind]

/-- What stands in front of a line: its number, and the column of its first mark. -/
def label (source : Source) (number column : Nat) : String :=
  "| (" ++ (source.name ++ ":" ++ toString number ++ ":" ++ toString column) ++ ") "

/-- The first marked character of a line is told by its column. The carets begin where
    the line does. -/
theorem showLine_of_marked (source : Source) (number : Nat) {left : List Cell} {x : Cell}
    (right : List Cell) (hleft : ∀ y ∈ left, isMarked ranges y.1 = false)
    (hx : isMarked ranges x.1 = true) :
    showLine source ranges number (left ++ x :: right) =
      label source number (left.length + 1) ++ lineText (left ++ x :: right) ++ "\n|" ++
        (String.ofList (List.replicate ((label source number (left.length + 1)).length - 1) ' ') ++
          carets ((left ++ x :: right).map fun y => isMarked ranges y.1)) ++ "\n" := by
  have hfind : ((left ++ x :: right).map fun y => isMarked ranges y.1).findIdx? id =
      some left.length := by
    have hnone : (left.map fun y => isMarked ranges y.1).findIdx? id = none := by
      rw [List.findIdx?_eq_none_iff]
      intro m hm
      obtain ⟨y, hy, rfl⟩ := List.mem_map.1 hm
      exact hleft y hy
    rw [List.map_append, List.findIdx?_append, hnone, List.map_cons, List.findIdx?_cons, id, hx]
    simp
  have hwidth : (label source number (left.length + 1)).length - 1 =
      ("(" ++ source.name ++ ":" ++ toString number ++ ":" ++ toString (left.length + 1) ++
        ")").length + 2 := by
    have hopen : "| (".length = "(".length + 2 := rfl
    have hclose : ") ".length = ")".length + 1 := rfl
    simp only [label, String.length_append]
    omega
  rw [showLine, hwidth, ← String.toList_inj]
  simp only [hfind]
  simp [label, List.replicate_succ']

theorem exists_showLine_eq (source : Source) (number : Nat) {left : List Cell} {x : Cell}
    (right : List Cell) (hleft : ∀ y ∈ left, isMarked ranges y.1 = false)
    (hx : isMarked ranges x.1 = true) :
    ∃ cs, showLine source ranges number (left ++ x :: right) =
        label source number (left.length + 1) ++ lineText (left ++ x :: right) ++ "\n|" ++ cs ++
          "\n" ∧
      '\n' ∉ cs.toList ∧ '^' ∈ cs.toList := by
  have hmem : true ∈ (left ++ x :: right).map fun y => isMarked ranges y.1 :=
    List.mem_map.2 ⟨x, by simp, hx⟩
  refine ⟨_, showLine_of_marked source number right hleft hx, ?_, ?_⟩
  · simp [newline_not_mem_carets]
  · rw [String.toList_append]
    exact List.mem_append_right _ (mem_carets hmem)

theorem newline_not_mem_lineText {line : List Cell} (h : ∀ x ∈ line, x.2 ≠ '\n') :
    '\n' ∉ (lineText line).toList := by
  rw [lineText, String.toList_ofList, List.mem_map]
  rintro ⟨x, hx, hn⟩
  split at hn
  · simp at hn
  · exact h x hx hn

/-! ## Sources -/

/-- A span that marks something covers what it marks. -/
theorem range?_of_marks {s : Span} (h : s.Marks source) :
    range? source s = some (s.start, s.stop) := by
  obtain ⟨start, stop, _, rfl⟩ := h.exists_eq
  have hne : start ≠ stop := Nat.ne_of_lt h.start_lt_stop
  simp [range?, hne, Span.start, Span.stop]

theorem place_of_marks {s : Span} (h : s.Marks source) :
    s.place = source.name ++ ":" ++ toString (source.position s.start).line ++ ":" ++
      toString (source.position s.start).column := by
  obtain ⟨_, _, _, rfl⟩ := h.exists_eq
  rfl

theorem join_mapIdx_eq_empty {ls : List (List Cell)} {f : Nat → List Cell → String}
    (h : ∀ i, ∀ line ∈ ls, f i line = "") : String.join (ls.mapIdx f) = "" := by
  induction ls generalizing f with
  | nil => rfl
  | cons line ls ih =>
    rw [List.mapIdx_cons, h 0 line List.mem_cons_self, String.join_cons, String.empty_append]
    exact ih fun i l hl => h (i + 1) l (List.mem_cons_of_mem _ hl)

/-- The character that a span begins with stands in one of the lines, where the
    position of the span says. -/
theorem exists_lines_of_marks {s : Span} (h : s.Marks source) :
    ∃ above left x right below,
      lines source.chars = above ++ (left ++ x :: right) :: below ∧
      x.1 = s.start ∧ x.2 ≠ '\r' ∧
      (∀ line ∈ above, ∀ y ∈ line, y.1 < s.start) ∧ (∀ y ∈ left, y.1 < s.start) ∧
      s.place = source.name ++ ":" ++ toString (above.length + 1) ++ ":" ++
        toString (left.length + 1) := by
  obtain ⟨front, c, back, htext, hlen, hc⟩ := h.shows
  have hchars : source.chars = Text.withOffsets 0 front ++
      (s.start, c) :: Text.withOffsets (s.start + c.utf8Size) back := by
    rw [source.chars_append htext, Text.withOffsets_cons, hlen]
  have hfront : ∀ y ∈ Text.withOffsets 0 front, y.1 < s.start :=
    hlen ▸ Text.withOffsets_lt_byteLength
  have hnewline : c ≠ '\n' := by
    rintro rfl
    exact absurd hc (by decide)
  have hreturn : c ≠ '\r' := by
    rintro rfl
    exact absurd hc (by decide)
  obtain ⟨above, left, right, below, hlines, habove, hleft, hpos⟩ := exists_lines_eq
    (Text.withOffsets 0 front) (Text.withOffsets (s.start + c.utf8Size) back)
    (x := (s.start, c)) hnewline
  refine ⟨above, left, (s.start, c), right, below, hchars ▸ hlines, rfl, hreturn,
    fun line hl y hy => hfront y (habove line hl hy), fun y hy => hfront y (hleft hy), ?_⟩
  have hbefore : source.before s.start = (Text.withOffsets 0 front).map Prod.snd := by
    rw [Source.before, ← hlen, source.takeWhile_chars htext]
  rw [place_of_marks h, Source.position, hbefore, hpos]
  simp [Position.origin, Nat.add_comm]

/-- Of a source the line is shown first in which the first span begins. -/
theorem exists_showSource_eq {spans : List Span} {s : Span} (hs : s ∈ spans)
    (hspans : ∀ t ∈ spans, t.Marks source ∧ s.start ≤ t.start) :
    ∃ line cs rest,
      showSource spans source =
        "| (" ++ s.place ++ ") " ++ line ++ "\n|" ++ cs ++ "\n" ++ rest ∧
      '\n' ∉ line.toList ∧ '\n' ∉ cs.toList ∧ '^' ∈ cs.toList := by
  obtain ⟨hmarks, -⟩ := hspans s hs
  have hranges : ∀ r ∈ spans.filterMap (range? source), s.start ≤ r.1 := by
    intro r hr
    obtain ⟨t, ht, hr⟩ := List.mem_filterMap.1 hr
    rw [range?_of_marks (hspans t ht).1] at hr
    obtain rfl := Option.some.inj hr
    exact (hspans t ht).2
  have hmarked : isMarked (spans.filterMap (range? source)) s.start = true := by
    rw [isMarked, List.any_eq_true]
    refine ⟨(s.start, s.stop), List.mem_filterMap.2 ⟨s, hs, range?_of_marks hmarks⟩, ?_⟩
    simpa using hmarks.start_lt_stop
  obtain ⟨above, left, x, right, below, hlines, hx, hreturn, habove, hleft, hplace⟩ :=
    exists_lines_of_marks hmarks
  obtain ⟨right', hline, hright⟩ := exists_withoutReturn_eq left right hreturn
  obtain ⟨cs, hshow, hcs, hcaret⟩ :=
    exists_showLine_eq source (above.length + 1) right' (isMarked_eq_false hranges hleft)
      (hx ▸ hmarked)
  have hnothing : String.join (above.mapIdx fun i line =>
      showLine source (spans.filterMap (range? source)) (i + 1) (withoutReturn line)) = "" :=
    join_mapIdx_eq_empty fun i line hl => showLine_of_unmarked (i + 1) <|
      isMarked_eq_false hranges fun y hy => habove line hl y (withoutReturn_subset line hy)
  have hrest : ∃ rest, showSource spans source =
      showLine source (spans.filterMap (range? source)) (above.length + 1)
        (left ++ x :: right') ++ rest := by
    simp only [showSource, hlines, List.mapIdx_append, List.mapIdx_cons, String.join_append,
      String.join_cons, hnothing, String.empty_append, Nat.zero_add, hline]
    exact ⟨_, rfl⟩
  obtain ⟨rest, hrest⟩ := hrest
  refine ⟨lineText (left ++ x :: right'), cs, rest, ?_, ?_, hcs, hcaret⟩
  · rw [hrest, hshow, label, hplace]
  · refine newline_not_mem_lineText fun y hy => ?_
    have hmem : left ++ x :: right ∈ lines source.chars := by
      rw [hlines]
      exact List.mem_append_right _ List.mem_cons_self
    refine (mem_and_ne_newline_of_mem_lines hmem y ?_).2
    rcases List.mem_append.1 hy with hy | hy
    · exact List.mem_append_left _ hy
    · rcases List.mem_cons.1 hy with rfl | hy
      · simp
      · exact List.mem_append_right _ (.tail _ (hright hy))

/-- Spans of one source are shown in this source. -/
theorem sources_eq {spans : List Span} (hne : spans ≠ [])
    (hspans : ∀ t ∈ spans, t.Marks source) : sources spans = [source] := by
  obtain ⟨s, spans, rfl⟩ := List.exists_cons_of_ne_nil hne
  rw [List.forall_mem_cons] at hspans
  rw [sources, List.filterMap_cons, hspans.1.source?_eq, List.eraseDups_cons]
  have hnil : (spans.filterMap Span.source?).filter (fun x => !x == source) = [] := by
    rw [List.filter_eq_nil_iff]
    intro x hx
    obtain ⟨t, ht, hx⟩ := List.mem_filterMap.1 hx
    rw [(hspans.2 t ht).source?_eq] at hx
    obtain rfl := Option.some.inj hx
    simp
  rw [hnil]
  rfl

/-- The report about a span that marks something, and others behind it, shows first
    where this one is. -/
theorem locates_render (source : Source) (title message : String) {s : Span} {spans : List Span}
    (hspans : ∀ t ∈ s :: spans, t.Marks source ∧ s.start ≤ t.start) :
    Locates title message s (render title message (s :: spans)) := by
  obtain ⟨line, cs, rest, hshow, hline, hcs, hcaret⟩ :=
    exists_showSource_eq List.mem_cons_self hspans
  refine ⟨line, cs, rest, ?_, hline, hcs, hcaret⟩
  rw [render, sources_eq (by simp) fun t ht => (hspans t ht).1, List.map_singleton,
    String.join_cons, hshow]
  simp [String.join]

end Report

/-! ## Failures -/

/-- Why a source was not run to its end. -/
inductive Failure
  /-- It is not a program. -/
  | rejected (error : ParseError)
  /-- The program has failed. -/
  | failed (error : RuntimeError)

namespace Failure

/-- What is said above the message. -/
def title : Failure → String
  | rejected _ => "ParseError"
  | failed _ => "InterpreterError"

/-- The message for people. -/
def message : Failure → String
  | rejected e => e.fault.message
  | failed e => e.fault.message

/-- The places that it points at. -/
def spans : Failure → List Span
  | rejected e => [e.span]
  | failed e => e.spans

/-- The failure as a report. -/
def report : Failure → String
  | rejected e => e.report
  | failed e => e.report

/-- Whether both operands of an operator are to blame. -/
def blamesBoth : Failure → Bool
  | rejected _ => false
  | failed e => e.fault.blamesBoth

end Failure

/-- Why there is no result, unless the fuel was used up. -/
def Execution.failure? : Execution → Option Failure
  | .rejected e => some (.rejected e)
  | .ran (.error (.failed e) _) => some (.failed e)
  | .ran _ => none

theorem ParseError.locates_report {e : ParseError} (h : e.span.Marks source) :
    Report.Locates "ParseError" e.fault.message e.span e.report := by
  refine Report.locates_render source _ _ fun t ht => ?_
  obtain rfl := List.mem_singleton.1 ht
  exact ⟨h, Nat.le_refl _⟩

theorem RuntimeError.Marks.locates_report {e : RuntimeError} (h : e.Marks source) :
    Report.Locates "InterpreterError" e.fault.message e.span e.report := by
  refine Report.locates_render source _ _ fun t ht => ?_
  rcases List.mem_cons.1 ht with rfl | ht
  · exact ⟨h.first, Nat.le_refl _⟩
  · -- The second operand stands behind the first one.
    obtain ⟨hmarks, hle⟩ := h.second t (Option.mem_toList.1 ht)
    exact ⟨hmarks, Nat.le_trans e.span.start_le_stop hle⟩

theorem RuntimeError.Marks.length_spans {e : RuntimeError} (h : e.Marks source) :
    e.spans.length = if e.fault.blamesBoth then 2 else 1 := by
  rw [← h.isSome_second, spans]
  cases e.second <;> rfl

/-- A failure points at one part of the source, or at two of them, if an operator
    does not take its operands. The report begins with the line in which the first
    one begins, and has a caret beneath. -/
theorem Source.failure_points {source : Source} {fuel : Nat} {answers : List Answer} {f : Failure}
    (h : (Execution.ofSource fuel source (.initial answers)).failure? = some f) :
    f.spans.length = (if f.blamesBoth then 2 else 1) ∧
    (∀ t ∈ f.spans, t.Marks source ∧ t.stop ≤ source.size) ∧
    ∃ s ∈ f.spans.head?, Report.Locates f.title f.message s f.report := by
  cases hp : source.parse with
  | error e =>
    rw [Execution.ofSource, hp] at h
    obtain rfl := Option.some.inj h
    have hmarks := marks_of_parse_error hp
    refine ⟨rfl, fun t ht => ?_, e.span, rfl, ParseError.locates_report hmarks⟩
    obtain rfl := List.mem_singleton.1 ht
    exact ⟨hmarks, hmarks.boundary.le_size⟩
  | ok b =>
    rw [Execution.ofSource, hp] at h
    have hends := Block.ends_evalAfter fuel b (sited_of_parse hp) .nothing
    cases hr : b.run fuel (.initial answers) with
    | ok l st => simp [hr, Execution.failure?] at h
    | error stop st =>
      cases stop with
      | outOfFuel => simp [hr, Execution.failure?] at h
      | failed e =>
        simp only [hr, Execution.failure?] at h
        obtain rfl := Option.some.inj h
        have hmarks := hends.of_eq_error hr
        refine ⟨hmarks.length_spans, fun t ht => ?_, e.span, rfl, hmarks.locates_report⟩
        have ht := hmarks.of_mem_spans t ht
        exact ⟨ht, ht.boundary.le_size⟩

/-- An operator that does not take a text and what a loop comes to that was never
    run. -/
theorem Source.failure_points_of_loop :
    ∃ f,
      (Execution.ofSource 9 ⟨"main.kode", "SET x TO WHILE FALSE DO END.\n SHOW 'é' - x.", 0⟩
        (.initial [])).failure? = some f ∧
      f.spans.length = 2 ∧ ∃ s ∈ f.spans.head?, Report.Locates f.title f.message s f.report := by
  have hp : (match (Execution.ofSource 9
      ⟨"main.kode", "SET x TO WHILE FALSE DO END.\n SHOW 'é' - x.", 0⟩ (.initial [])).failure? with
    | some f => f.blamesBoth
    | none => false) = true := by decide +kernel
  split at hp
  · rename_i f hf
    obtain ⟨hlen, -, hshown⟩ := Source.failure_points hf
    rw [if_pos hp] at hlen
    exact ⟨f, hf, hlen, hshown⟩
  · exact absurd hp (by simp)

end Kode
