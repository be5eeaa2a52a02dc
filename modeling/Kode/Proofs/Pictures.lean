import Kode.Proofs.Reporting
import Mathlib.Data.List.DropRight
import Mathlib.Data.List.Forall2

/-!
# Every line of a report

What a report consists of, told without the report: which lines of which sources are
shown (`Report.FirstMentions`, `Source.rows`), in which of their characters something is
marked (`Span.Touches`), and what is drawn of such a line (`Report.Draws`).

A carriage return at the end of a line is never shown. It is no matter whether a newline
follows it: the last line of a text may end in one, too.

* `Report.pointOffset_eq_iff`: where a span is drawn that covers no character;
* `Report.isMarked_iff`: a character is marked if a span touches it;
* `Report.render_exact`: a report is its header, and what is drawn of each line.
-/

namespace Kode

open Text (byteLength byteLength_append byteLength_cons withOffsets withOffsets_lt)

/-! ## What is marked -/

/-- The span lies in its source, and begins and ends between two characters. -/
def Span.Fits : Span → Prop
  | .empty => True
  | .located source start stop _ => source.Boundary start ∧ source.Boundary stop

/-- The character at which a place between two characters is shown. -/
inductive Source.Points (s : Source) (site : Nat) : Nat → Prop
  /-- It is the one behind the place. -/
  | ahead {front back : List Char} {c : Char} : s.text.toList = front ++ c :: back → c ≠ '\n' →
      byteLength front = site → Points s site site
  /-- At the end of a line it is the one before, even if that is a newline itself. -/
  | behind {front back : List Char} {c : Char} : s.text.toList = front ++ c :: back →
      (∀ d ∈ back.head?, d = '\n') → byteLength (front ++ [c]) = site →
      Points s site (byteLength front)

/-- The span marks the character of the source that begins at the offset. -/
inductive Span.Touches (source : Source) (offset : Nat) : Span → Prop
  | covers {start stop : Nat} {ordered : start ≤ stop} : start ≤ offset → offset < stop →
      Touches source offset (.located source start stop ordered)
  /-- It covers no character, and is shown at this one. -/
  | points {site : Nat} {ordered : site ≤ site} : source.Points site offset →
      Touches source offset (.located source site site ordered)

namespace Report

variable {source : Source} {spans : List Span}

/-- The character at the offset is marked by one of the spans. -/
def Touched (spans : List Span) (source : Source) (offset : Nat) : Prop :=
  ∃ s ∈ spans, s.Touches source offset

theorem find?_chars {front back : List Char} (h : source.text.toList = front ++ back) :
    (source.chars.find? fun x => byteLength front ≤ x.1) =
      back.head?.map fun c => (byteLength front, c) := by
  have hnone : ((withOffsets 0 front).find? fun x => byteLength front ≤ x.1) = none :=
    List.find?_eq_none.2 fun x hx => by simpa using Text.withOffsets_lt_byteLength x hx
  rw [source.chars_append h, List.find?_append, hnone]
  cases back <;> simp

theorem pointOffset_ahead {front back : List Char} {c : Char}
    (h : source.text.toList = front ++ c :: back) (hc : c ≠ '\n') :
    pointOffset source (byteLength front) = byteLength front := by
  rw [pointOffset, find?_chars h]
  simp [hc]

theorem pointOffset_lineEnd {front back : List Char} (h : source.text.toList = front ++ back)
    (hback : ∀ d ∈ back.head?, d = '\n') :
    pointOffset source (byteLength front) =
      ((withOffsets 0 front).getLast?.map Prod.fst).getD (byteLength front) := by
  have hprevious : pointOffset.previous source (byteLength front) =
      ((withOffsets 0 front).getLast?.map Prod.fst).getD (byteLength front) := by
    rw [pointOffset.previous, source.takeWhile_chars h]
    cases (withOffsets 0 front).getLast? <;> rfl
  rw [pointOffset, find?_chars h, ← hprevious]
  cases back with
  | nil => rfl
  | cons d back =>
    obtain rfl := hback d rfl
    rfl

theorem pointOffset_of_points {site offset : Nat} (h : source.Points site offset) :
    pointOffset source site = offset := by
  cases h with
  | ahead htext hc hsite => exact hsite ▸ pointOffset_ahead htext hc
  | @behind front back c htext hback hsite =>
    rw [← hsite, pointOffset_lineEnd (by simpa using htext) hback]
    simp

/-- Of the characters in a line, a span that covers none is drawn at the one that it
    points at. -/
theorem pointOffset_eq_iff {site : Nat} (h : source.Boundary site) {x : Cell}
    (hx : x ∈ source.chars) (hnewline : x.2 ≠ '\n') :
    pointOffset source site = x.1 ↔ source.Points site x.1 := by
  refine ⟨fun hpoint => ?_, pointOffset_of_points⟩
  obtain ⟨front, back, htext, rfl⟩ := h
  rw [← hpoint]
  by_cases hback : ∀ d ∈ back.head?, d = '\n'
  · rw [pointOffset_lineEnd htext hback] at hpoint ⊢
    rcases front.eq_nil_or_concat with rfl | ⟨front, c, rfl⟩
    · -- There is no character before it, and the one behind it is no character of a line.
      exfalso
      rw [source.chars_append htext] at hx
      cases back with
      | nil => simp at hx
      | cons d back =>
        obtain rfl := hback d rfl
        rcases List.mem_cons.1 hx with rfl | hx
        · exact hnewline rfl
        · have := (withOffsets_lt hx).1
          have hpos := '\n'.utf8Size_pos
          simp at hpoint this
          omega
    · have hpoints := Source.Points.behind (by simpa using htext) hback rfl
      simpa using hpoints
  · push Not at hback
    obtain ⟨c, hc, hne⟩ := hback
    obtain ⟨back, rfl⟩ := List.head?_eq_some_iff.1 hc
    rw [pointOffset_ahead htext hne]
    exact .ahead htext hne rfl

theorem touches_located_iff {source' : Source} {start stop offset : Nat}
    {ordered : start ≤ stop} :
    (Span.located source' start stop ordered).Touches source offset ↔
      source' = source ∧
        (start ≤ offset ∧ offset < stop ∨ start = stop ∧ source.Points start offset) := by
  constructor
  · rintro (⟨hle, hlt⟩ | hpoints)
    · exact ⟨rfl, .inl ⟨hle, hlt⟩⟩
    · exact ⟨rfl, .inr ⟨rfl, hpoints⟩⟩
  · rintro ⟨rfl, ⟨hle, hlt⟩ | ⟨rfl, hpoints⟩⟩
    · exact .covers hle hlt
    · exact .points hpoints

/-- A span marks what it covers, or else what it points at. -/
theorem range?_iff {s : Span} (h : s.Fits) {x : Cell} (hx : x ∈ source.chars)
    (hnewline : x.2 ≠ '\n') :
    (∃ r ∈ range? source s, r.1 ≤ x.1 ∧ x.1 < r.2) ↔ s.Touches source x.1 := by
  rcases s with _ | ⟨source', start, stop, ordered⟩
  · constructor
    · rintro ⟨r, hr, -⟩
      cases hr
    · rintro ⟨⟩
  rw [touches_located_iff, range?]
  split
  · rename_i hsource
    constructor
    · rintro ⟨r, hr, -⟩
      cases hr
    · rintro ⟨rfl, -⟩
      exact absurd rfl hsource
  rename_i hsource
  obtain rfl := of_not_not hsource
  split
  · rename_i hempty
    subst hempty
    have hpoint := pointOffset_eq_iff h.1 hx hnewline
    constructor
    · rintro ⟨r, hr, hle, hlt⟩
      obtain rfl := Option.some.inj hr
      exact ⟨rfl, .inr ⟨rfl, hpoint.1 (by omega)⟩⟩
    · rintro ⟨-, ⟨hle, hlt⟩ | ⟨-, hpoints⟩⟩
      · omega
      · have := hpoint.2 hpoints
        exact ⟨_, rfl, by omega, by omega⟩
  · rename_i hne
    constructor
    · rintro ⟨r, hr, hcovers⟩
      obtain rfl := Option.some.inj hr
      exact ⟨rfl, .inl hcovers⟩
    · rintro ⟨-, hcovers | ⟨hempty, -⟩⟩
      · exact ⟨_, rfl, hcovers⟩
      · exact absurd hempty hne

theorem isMarked_iff (h : ∀ s ∈ spans, s.Fits) {x : Cell} (hx : x ∈ source.chars)
    (hnewline : x.2 ≠ '\n') :
    isMarked (spans.filterMap (range? source)) x.1 = true ↔ Touched spans source x.1 := by
  have hrange : isMarked (spans.filterMap (range? source)) x.1 = true ↔
      ∃ s ∈ spans, ∃ r ∈ range? source s, r.1 ≤ x.1 ∧ x.1 < r.2 := by
    simp only [isMarked, List.any_eq_true, List.mem_filterMap, Bool.and_eq_true,
      decide_eq_true_eq]
    constructor
    · rintro ⟨r, ⟨s, hs, hr⟩, hle⟩
      exact ⟨s, hs, r, hr, hle⟩
    · rintro ⟨s, hs, r, hr, hle⟩
      exact ⟨r, ⟨s, hs, hr⟩, hle⟩
  rw [hrange, Touched]
  exact exists_congr fun s => and_congr_right fun hs => range?_iff (h s hs) hx hnewline

/-! ## What is drawn -/

/-- A line of a source: its number, and its characters up to the newline. -/
structure Row where
  source : Source
  number : Nat
  line : List Cell

/-- What is shown of a line: all of it but a carriage return at its end. -/
inductive Shorn : List Cell → List Cell → Prop
  | carriageReturn {cells : List Cell} {offset : Nat} : Shorn (cells ++ [(offset, '\r')]) cells
  | whole {cells : List Cell} : (∀ x ∈ cells.getLast?, x.2 ≠ '\r') → Shorn cells cells

/-- What stands beneath a line: a caret under each character that is marked, and else
    blanks, but none behind the last caret. -/
structure Underlines (marked : Cell → Prop) (cells : List Cell) (carets : List Char) : Prop where
  caret : ∀ i : Nat, carets[i]? = some '^' ↔ ∃ x ∈ cells[i]?, marked x
  blank : ∀ c ∈ carets, c = '^' ∨ c = ' '
  last : carets.getLast? = some '^'

/-- What is drawn of the row, of which these characters are shown. -/
inductive Draws (spans : List Span) (row : Row) (cells : List Cell) : String → Prop
  /-- Two lines: a label that tells the number of the row and the column of the first marked
      character, and the text; beneath, the carets, which begin where the text does. -/
  | shown {left right : List Cell} {x : Cell} {carets : List Char} :
      cells = left ++ x :: right → (∀ y ∈ left, ¬ Touched spans row.source y.1) →
      Touched spans row.source x.1 →
      Underlines (fun y => Touched spans row.source y.1) cells carets →
      Draws spans row cells
        (label row.source row.number (left.length + 1) ++
          String.ofList (cells.map fun y => if y.2 = '\t' then ' ' else y.2) ++ "\n|" ++
          (String.ofList (List.replicate
              ((label row.source row.number (left.length + 1)).length - 1) ' ') ++
            String.ofList carets) ++ "\n")
  /-- Nothing, if no character is marked. -/
  | hidden : (∀ x ∈ cells, ¬ Touched spans row.source x.1) → Draws spans row cells ""

theorem shorn_withoutReturn (line : List Cell) : Shorn line (withoutReturn line) := by
  rw [withoutReturn]
  split
  · rename_i h
    obtain ⟨x, hx, hreturn⟩ := Option.map_eq_some_iff.1 h
    obtain ⟨front, rfl⟩ := List.getLast?_eq_some_iff.1 hx
    obtain ⟨offset, c⟩ := x
    obtain rfl : c = '\r' := hreturn
    rw [List.dropLast_concat]
    exact .carriageReturn
  · rename_i h
    refine .whole fun x hx hreturn => h ?_
    rw [Option.mem_def.1 hx, Option.map_some, hreturn]

theorem carets_eq (marked : List Bool) : carets marked =
    String.ofList ((marked.rdropWhile (!·)).map fun m => if m then '^' else ' ') :=
  rfl

/-- Nothing that is marked stands behind the last caret. -/
theorem getElem?_rdropWhile (marked : List Bool) (i : Nat) :
    (marked.rdropWhile (!·))[i]? = some true ↔ marked[i]? = some true := by
  have happend : marked.rdropWhile (!·) ++ marked.rtakeWhile (!·) = marked :=
    List.rdropWhile_append_rtakeWhile
  conv_rhs => rw [← happend, List.getElem?_append]
  split
  · rfl
  · rename_i hi
    rw [List.getElem?_eq_none (Nat.le_of_not_lt hi)]
    refine ⟨nofun, fun h => ?_⟩
    exact absurd (List.mem_rtakeWhile_imp (List.mem_of_getElem? h)) (by simp)

theorem underlines_rdropWhile {marked : Cell → Prop} {p : Cell → Bool} {cells : List Cell}
    (hp : ∀ x ∈ cells, p x = true ↔ marked x) (hsome : ∃ x ∈ cells, marked x) :
    Underlines marked cells
      (((cells.map p).rdropWhile (!·)).map fun m => if m then '^' else ' ') where
  caret i := by
    calc
      _ ↔ ((cells.map p).rdropWhile (!·))[i]? = some true := by
        rw [List.getElem?_map, Option.map_eq_some_iff]
        refine ⟨fun ⟨m, hm, hcaret⟩ => ?_, fun h => ⟨true, h, rfl⟩⟩
        cases m with
        | true => exact hm
        | false => exact absurd hcaret (by decide)
      _ ↔ ∃ x ∈ cells[i]?, p x = true := by
        rw [getElem?_rdropWhile, List.getElem?_map, Option.map_eq_some_iff]
        rfl
      _ ↔ ∃ x ∈ cells[i]?, marked x :=
        exists_congr fun x => and_congr_right fun hx => hp x (List.mem_of_getElem? hx)
  blank c hc := by
    obtain ⟨m, -, rfl⟩ := List.mem_map.1 hc
    cases m
    · exact .inr rfl
    · exact .inl rfl
  last := by
    obtain ⟨x, hx, hmarked⟩ := hsome
    have hne : (cells.map p).rdropWhile (!·) ≠ [] := by
      intro hnil
      have := List.rdropWhile_eq_nil_iff.1 hnil _ (List.mem_map_of_mem hx)
      rw [(hp x hx).2 hmarked] at this
      exact absurd this (by decide)
    have hlast := List.rdropWhile_last_not _ _ hne
    rw [List.getLast?_map, List.getLast?_eq_some_getLast hne]
    simp at hlast
    simp [hlast]

/-! ## Lines and sources -/

theorem lines_eq_splitOnP (cells : List Cell) : lines cells = cells.splitOnP (·.2 = '\n') := by
  induction cells with
  | nil => rfl
  | cons x cells ih =>
    rw [lines_cons, List.splitOnP_cons_eq_if_modifyHead, ih]
    simp

/-- The rows of a source: what stands between its newlines, numbered from one. -/
def rows (source : Source) : List Row :=
  (source.chars.splitOnP (·.2 = '\n')).mapIdx fun i line => ⟨source, i + 1, line⟩

/-- These are the sources that the spans lie in, each once, in the order in which the spans
    first mention them. -/
structure FirstMentions (spans : List Span) (mentioned : List Source) : Prop where
  mem_iff : ∀ source, source ∈ mentioned ↔ ∃ s ∈ spans, s.source? = some source
  ordered : mentioned.Pairwise fun d d' =>
    (spans.filterMap Span.source?).idxOf d < (spans.filterMap Span.source?).idxOf d'

theorem idxOf_lt_of_filter {α : Type} [DecidableEq α] {a x y : α} (hx : x ≠ a) (hy : y ≠ a)
    {l : List α} (h : (l.filter (!· == a)).idxOf x < (l.filter (!· == a)).idxOf y) :
    l.idxOf x < l.idxOf y := by
  induction l with
  | nil => exact h
  | cons b l ih =>
    by_cases hb : b = a
    · subst hb
      have hfilter : (b :: l).filter (!· == b) = l.filter (!· == b) := by simp
      rw [List.idxOf_cons_ne _ hx.symm, List.idxOf_cons_ne _ hy.symm]
      exact Nat.succ_lt_succ (ih (hfilter ▸ h))
    · have hfilter : (b :: l).filter (!· == a) = b :: l.filter (!· == a) := by simp [hb]
      rw [hfilter, List.idxOf_cons, List.idxOf_cons] at h
      rw [List.idxOf_cons, List.idxOf_cons]
      generalize (b == x) = isX, (b == y) = isY at h ⊢
      cases isX <;> cases isY
      · exact Nat.succ_lt_succ (ih (Nat.lt_of_succ_lt_succ h))
      · exact absurd h (Nat.not_lt_zero _)
      · exact Nat.succ_pos _
      · exact h

/-- Of what stands in a list twice only the first is kept. -/
theorem pairwise_idxOf_eraseDups {α : Type} [DecidableEq α] (l : List α) :
    l.eraseDups.Pairwise fun x y => l.idxOf x < l.idxOf y := by
  cases l with
  | nil => exact .nil
  | cons a l =>
    have hrest : ∀ x ∈ (l.filter (!· == a)).eraseDups, x ≠ a := by
      intro x hx
      simpa using (List.mem_filter.1 (List.mem_eraseDups.1 hx)).2
    rw [List.eraseDups_cons]
    refine .cons (fun x hx => ?_) ?_
    · rw [List.idxOf_cons_self, List.idxOf_cons_ne _ (hrest x hx).symm]
      exact Nat.succ_pos _
    · refine (pairwise_idxOf_eraseDups (l.filter (!· == a))).imp_of_mem fun hx hy h => ?_
      rw [List.idxOf_cons_ne _ (hrest _ hx).symm, List.idxOf_cons_ne _ (hrest _ hy).symm]
      exact Nat.succ_lt_succ (idxOf_lt_of_filter (hrest _ hx) (hrest _ hy) h)
termination_by l.length
decreasing_by exact Nat.lt_succ_of_le (List.length_filter_le _ _)

theorem firstMentions_sources (spans : List Span) : FirstMentions spans (sources spans) where
  mem_iff source := by
    rw [sources, List.mem_eraseDups, List.mem_filterMap]
  ordered := pairwise_idxOf_eraseDups _

/-! ## The whole report -/

/-- What is shown of a row. -/
def Row.picture (spans : List Span) (row : Row) : String :=
  showLine row.source (spans.filterMap (range? row.source)) row.number (withoutReturn row.line)

theorem showSource_eq (spans : List Span) (source : Source) :
    showSource spans source = String.join ((rows source).map (Row.picture spans)) := by
  have hmap : (rows source).map (Row.picture spans) = (lines source.chars).mapIdx fun i line =>
      showLine source (spans.filterMap (range? source)) (i + 1) (withoutReturn line) := by
    rw [rows, ← lines_eq_splitOnP]
    refine List.ext_getElem? fun i => ?_
    rw [List.getElem?_map, List.getElem?_mapIdx, List.getElem?_mapIdx, Option.map_map]
    rfl
  rw [hmap]
  rfl

theorem draws_picture (h : ∀ s ∈ spans, s.Fits) {row : Row} (hrow : row ∈ rows source) :
    Draws spans row (withoutReturn row.line) (row.picture spans) := by
  rw [rows, ← lines_eq_splitOnP] at hrow
  obtain ⟨i, hi, rfl⟩ := List.mem_mapIdx.1 hrow
  have hline := List.getElem_mem hi
  generalize (lines source.chars)[i] = line at hline
  have hmarked : ∀ x ∈ withoutReturn line,
      isMarked (spans.filterMap (range? source)) x.1 = true ↔ Touched spans source x.1 := by
    intro x hx
    obtain ⟨hmem, hnewline⟩ :=
      mem_and_ne_newline_of_mem_lines hline x (withoutReturn_subset line hx)
    exact isMarked_iff h hmem hnewline
  rw [Row.picture]
  dsimp only
  generalize withoutReturn line = cells at hmarked
  by_cases hsome : ∃ x ∈ cells, isMarked (spans.filterMap (range? source)) x.1 = true
  · obtain ⟨x, hfind⟩ := Option.isSome_iff_exists.1 (List.find?_isSome.2 hsome)
    obtain ⟨hx, left, right, rfl, hleft⟩ := List.find?_eq_some_iff_append.1 hfind
    have hleft : ∀ y ∈ left, isMarked (spans.filterMap (range? source)) y.1 = false := by
      simpa using hleft
    have htouched := (hmarked x (by simp)).1 hx
    rw [showLine_of_marked source (i + 1) right hleft hx, lineText, carets_eq]
    refine .shown rfl (fun y hy => ?_) htouched
      (underlines_rdropWhile hmarked ⟨x, by simp, htouched⟩)
    rw [← hmarked y (List.mem_append_left _ hy), hleft y hy]
    exact Bool.false_ne_true
  · have hnone : ∀ x ∈ cells, isMarked (spans.filterMap (range? source)) x.1 = false := by
      simpa using hsome
    rw [showLine_of_unmarked (i + 1) hnone]
    refine .hidden fun x hx => ?_
    rw [← hmarked x hx, hnone x hx]
    exact Bool.false_ne_true

theorem join_map_join (ls : List (List String)) :
    String.join (ls.map String.join) = String.join ls.flatten := by
  induction ls with
  | nil => rfl
  | cons l ls ih =>
    rw [List.map_cons, String.join_cons, ih, List.flatten_cons, String.join_append]

/-- A report is a header, and then what is drawn of the rows of each source that the spans
    mention. A row is shown if one of its characters is marked, and else not; a carriage
    return at its end does not count. -/
theorem render_exact (title message : String) (spans : List Span) (h : ∀ s ∈ spans, s.Fits) :
    ∃ mentioned pictures, FirstMentions spans mentioned ∧
      List.Forall₂ (fun row picture => ∃ cells, Shorn row.line cells ∧
        Draws spans row cells picture) (mentioned.flatMap rows) pictures ∧
      render title message spans =
        "|\n| " ++ title ++ ": " ++ message ++ "\n|\n" ++ String.join pictures := by
  refine ⟨sources spans, ((sources spans).flatMap rows).map (Row.picture spans),
    firstMentions_sources spans, ?_, ?_⟩
  · rw [List.forall₂_map_right_iff, List.forall₂_same]
    intro row hrow
    obtain ⟨source, -, hrow⟩ := List.mem_flatMap.1 hrow
    exact ⟨_, shorn_withoutReturn row.line, draws_picture h hrow⟩
  · have hsources : (sources spans).map (showSource spans) =
        ((sources spans).map fun source => (rows source).map (Row.picture spans)).map
          String.join := by
      rw [List.map_map]
      exact List.map_congr_left fun source _ => showSource_eq spans source
    rw [render, hsources, join_map_join, List.map_flatMap, List.flatMap_def]

/-- A tab, a carriage return and a character of two bytes; the second span covers nothing
    and stands at the end of the text. -/
theorem render_exact_of_two_rows :
    let source : Source := ⟨"ü", "é\tx\r\ny", 0⟩
    let spans : List Span :=
      [.located source 2 4 (by decide), .empty, .located source 7 7 (by decide)]
    (∀ s ∈ spans, s.Fits) ∧ ∃ mentioned pictures, FirstMentions spans mentioned ∧
      List.Forall₂ (fun row picture => ∃ cells, Shorn row.line cells ∧
        Draws spans row cells picture) (mentioned.flatMap rows) pictures ∧
      "|\n| E: m\n|\n" ++ String.join pictures =
        "|\n| E: m\n|\n| (ü:1:2) é x\n|          ^^\n| (ü:2:1) y\n|         ^\n" := by
  intro source spans
  have hfits : ∀ s ∈ spans, s.Fits := by
    intro s hs
    simp only [spans, List.mem_cons, List.not_mem_nil, or_false] at hs
    rcases hs with rfl | rfl | rfl
    · exact ⟨⟨['é'], ['\t', 'x', '\r', '\n', 'y'], by decide +kernel, rfl⟩,
        ⟨['é', '\t', 'x'], ['\r', '\n', 'y'], by decide +kernel, rfl⟩⟩
    · trivial
    · exact ⟨⟨_, [], (List.append_nil _).symm, by decide +kernel⟩,
        ⟨_, [], (List.append_nil _).symm, by decide +kernel⟩⟩
  obtain ⟨mentioned, pictures, hmentions, hdraws, hrender⟩ := render_exact "E" "m" spans hfits
  refine ⟨hfits, mentioned, pictures, hmentions, hdraws, hrender.symm.trans ?_⟩
  decide +kernel

/-- Even where no newline follows it, a carriage return at the end of a line does not
    count: nothing is shown of a span that covers it alone. -/
theorem not_render_exact_of_carriageReturn :
    let source : Source := ⟨"u", "a\r", 0⟩
    let spans : List Span := [.located source 1 2 (by decide)]
    (∀ s ∈ spans, s.Fits) ∧ '\n' ∉ source.text.toList ∧
      ¬ ∃ pictures,
        List.Forall₂ (fun row picture => Draws spans row row.line picture) (rows source) pictures ∧
        render "E" "m" spans = "|\n| E: m\n|\n" ++ String.join pictures := by
  intro source spans
  refine ⟨?_, by decide +kernel, ?_⟩
  · intro s hs
    obtain rfl := List.mem_singleton.1 hs
    exact ⟨⟨['a'], ['\r'], by decide +kernel, rfl⟩,
      ⟨_, [], (List.append_nil _).symm, by decide +kernel⟩⟩
  · rintro ⟨pictures, hdraws, hrender⟩
    have hlines : lines source.chars = [[(0, 'a'), (1, '\r')]] := by decide +kernel
    have hheader : render "E" "m" spans = "|\n| E: m\n|\n" := by decide +kernel
    rw [rows, ← lines_eq_splitOnP, hlines] at hdraws
    obtain ⟨picture, _, hdraw, hrest, rfl⟩ := List.forall₂_cons_left_iff.1 hdraws
    obtain rfl := List.forall₂_nil_left_iff.1 hrest
    have hempty : picture.toList = [] := by
      have := congrArg String.toList (hheader.symm.trans hrender)
      simpa using this
    cases hdraw with
    | shown => simp [label] at hempty
    | hidden h =>
      have hcovers : (Span.located source 1 2 (Nat.le_succ 1)).Touches source 1 :=
        .covers (Nat.le_refl 1) (Nat.lt_succ_self 1)
      exact h (1, '\r') (by simp) ⟨_, List.mem_cons_self, hcovers⟩

end Report

end Kode
