import Kode.Proofs.Blessing

/-!
# Disks without links

On a disk without links a path spells the place that it leads to (`Path.placeFrom`), as
far as it leads anywhere. So a program and its golden file are in the directory that was
named, under names of their own, and golden files are apart (`Golden.apart_of_unlinked`):
every file has its name from its program alone, and none is named like a program.

* `Disk.Unlinked.locate`: where paths lead to;
* `Path.placeFrom_pathIn`: the path of something in a directory;
* `Golden.program_locate`, `Golden.GoldenAt.beside`: where programs and golden files are.
-/

namespace Kode

open Golden (pathIn stem? programEnding goldenEnding)

/-! ## Paths -/

namespace Path

variable {path : Path} {piece : List UInt8}

theorem pieces_ne_nil (bs : Path) : pieces bs ≠ [] := by
  fun_cases pieces bs <;> simp

/-- At a slash a path is cut in two. -/
theorem pieces_append (bs cs : Path) : pieces (bs ++ slash :: cs) = pieces bs ++ pieces cs := by
  induction bs with
  | nil => rfl
  | cons b bs ih =>
    rw [List.cons_append, pieces, pieces, ih]
    split
    · rfl
    · cases hpieces : pieces bs with
      | nil => exact absurd hpieces (pieces_ne_nil bs)
      | cons first rest => rfl

theorem pieces_of_not_mem (h : slash ∉ piece) : pieces piece = [piece] := by
  induction piece with
  | nil => rfl
  | cons b bs ih =>
    rw [List.mem_cons, not_or] at h
    rw [pieces, if_neg (Ne.symm h.1), ih h.2]

theorem steps_append (path : Path) (h : slash ∉ piece) :
    steps (path ++ slash :: piece) = steps path ++ [Step.ofPiece piece] := by
  rw [steps, pieces_append, pieces_of_not_mem h, List.map_append, List.map_singleton]
  rfl

/-- The place behind the step, if it is not that of a link. -/
def Step.after (p : Place) : Step → Place
  | .blank => p
  | .stay => p
  | .up => p.dropLast
  | .into name => p ++ [name]

/-- The place that is spelled by the path. -/
def placeFrom (base : Place) (path : Path) : Place :=
  path.steps.foldl Step.after (if path.isAbsolute then [] else base)

/-- The path of something in a directory spells the place of the directory first. -/
theorem placeFrom_pathIn (base : Place) (hpath : path ≠ []) (h : slash ∉ piece) :
    placeFrom base (pathIn path piece) = (Step.ofPiece piece).after (placeFrom base path) := by
  have habsolute (rest : Path) : isAbsolute (path ++ rest) = isAbsolute path := by
    rw [isAbsolute, isAbsolute, List.head?_append_of_ne_nil _ hpath]
  unfold pathIn
  split
  · -- Behind the slash at the end there is nothing, and the piece takes its place.
    rename_i hlast
    obtain ⟨front, rfl⟩ := List.getLast?_eq_some_iff.1 (hlast.resolve_left hpath)
    have hslash : (slash : UInt8) ∉ ([] : List UInt8) := List.not_mem_nil
    rw [placeFrom, placeFrom, habsolute, List.append_assoc, List.singleton_append,
      steps_append front h, steps_append front hslash, List.foldl_append, List.foldl_append]
    rfl
  · rw [placeFrom, placeFrom, habsolute, steps_append path h, List.foldl_append]
    rfl

end Path

/-! ## Disks -/

/-- Whether this is a link, or one more name of something. -/
def Entry.isLink : Entry → Bool
  | link _ => true
  | same _ => true
  | _ => false

namespace Disk

variable {d : Disk} {p q : Place} {path : Path}

/-- Everything has one name, and no path is taken in its stead. -/
def Unlinked (d : Disk) : Prop :=
  ∀ e ∈ d.entries, e.2.isLink = false

instance (d : Disk) : Decidable d.Unlinked :=
  inferInstanceAs (Decidable (∀ e ∈ d.entries, e.2.isLink = false))

namespace Unlinked

theorem isLink (h : d.Unlinked) {e : Entry} (he : d.get? p = some e) : e.isLink = false := by
  rcases mem_of_get? he with ⟨rights, rfl⟩ | hmem
  · rfl
  · exact h _ hmem

theorem step (h : d.Unlinked) {s : Path.Step} {way : Way} (hstep : d.step p s = .ok way) :
    way = .place (s.after p) := by
  cases s with
  | blank =>
    obtain ⟨rights, -, hstep⟩ := Statement.bind_eq_ok hstep
    exact (Except.ok.inj hstep).symm
  | into name =>
    obtain ⟨rights, -, hstep⟩ := Statement.bind_eq_ok hstep
    obtain ⟨-, -, hstep⟩ := Statement.bind_eq_ok hstep
    split at hstep
    · cases hstep
    split at hstep
    · rename_i hlink
      cases h.isLink hlink
    · rename_i hsame
      cases h.isLink hsame
    · exact (Except.ok.inj hstep).symm
  | _ =>
    obtain ⟨rights, -, hstep⟩ := Statement.bind_eq_ok hstep
    obtain ⟨-, -, hstep⟩ := Statement.bind_eq_ok hstep
    exact (Except.ok.inj hstep).symm

theorem advance (h : d.Unlinked) {follow : Place → Path → List Path.Step → Except DiskFault Place}
    {steps : List Path.Step} (hq : d.advance follow p steps = .ok q) :
    q = steps.foldl Path.Step.after p := by
  induction steps generalizing p with
  | nil => exact (Except.ok.inj hq).symm
  | cons s rest ih =>
    obtain ⟨way, hstep, hq⟩ := Statement.bind_eq_ok hq
    obtain rfl := h.step hstep
    exact ih hq

/-- A path leads to the place that it spells. -/
theorem locate (h : d.Unlinked) (hp : d.locate path = .ok p) :
    path ≠ [] ∧ p = path.placeFrom d.here := by
  obtain ⟨base, hbase, hp⟩ := Statement.bind_eq_ok hp
  rw [start] at hbase
  split at hbase
  · cases hbase
  split at hbase
  · cases hbase
  cases hbase
  exact ⟨by assumption, h.advance hp⟩

end Unlinked

end Disk

/-! ## Programs -/

namespace Golden

variable {fuel : Nat} {d : Disk} {p : Place} {directories : List String} {x y : Program}
  {name : List UInt8}

theorem eq_of_stem? {stem : List UInt8} (h : stem? name = some stem) :
    name = stem ++ programEnding ∧ stem ≠ [] := by
  unfold stem? at h
  split at h
  · rename_i hprogram
    obtain ⟨hsuffix, hlength⟩ := Bool.and_eq_true_iff.1 hprogram
    obtain ⟨front, rfl⟩ := List.isSuffixOf_iff_suffix.1 hsuffix
    obtain rfl := Option.some.inj h
    rw [List.length_append, Nat.add_sub_cancel, List.take_left]
    refine ⟨rfl, ?_⟩
    rintro rfl
    simp at hlength
  · cases h

/-- No golden file is named like a program. -/
theorem append_goldenEnding_ne (stem stem' : List UInt8) :
    stem ++ goldenEnding ≠ stem' ++ programEnding := by
  intro h
  have hlast := congrArg List.getLast? h
  rw [List.getLast?_append_of_ne_nil _ (by decide), List.getLast?_append_of_ne_nil _ (by decide)]
    at hlast
  exact absurd hlast (by decide)

theorem stem?_append_goldenEnding (stem : List UInt8) : stem? (stem ++ goldenEnding) = none := by
  cases h : stem? (stem ++ goldenEnding) with
  | none => rfl
  | some stem' => exact absurd (eq_of_stem? h).1 (append_goldenEnding_ne stem stem')

/-- The step of a name. -/
theorem ofPiece_bytes (name : FileName) : Path.Step.ofPiece name.bytes = .into name :=
  dif_pos ⟨name.not_slash, name.not_step⟩

/-- The name of a golden file is one. -/
theorem exists_ofPiece_goldenEnding {stem : List UInt8} (h : slash ∉ stem) :
    ∃ name : FileName, name.bytes = stem ++ goldenEnding ∧
      Path.Step.ofPiece (stem ++ goldenEnding) = .into name := by
  have hslash : slash ∉ stem ++ goldenEnding := by
    rw [List.mem_append, not_or]
    exact ⟨h, by decide⟩
  have hstep : stem ++ goldenEnding ∉ [[], [point], [point, point]] := by
    intro hmem
    have hlength : 4 ≤ (stem ++ goldenEnding).length := by
      rw [List.length_append]
      exact Nat.le_add_left _ _
    simp only [List.mem_cons, List.not_mem_nil, or_false] at hmem
    rcases hmem with hmem | hmem | hmem <;>
      · rw [hmem] at hlength
        exact absurd hlength (by decide)
  exact ⟨⟨_, hslash, hstep⟩, rfl, dif_pos ⟨hslash, hstep⟩⟩

/-- The directory of a program, and the name that the program has in it. -/
theorem exists_name (hx : x ∈ found d x.directory) :
    ∃ ns rights, ∃ name : FileName, d.locate (.ofText x.directory) = .ok ns ∧
      d.get? ns = some (.directory rights) ∧ name.bytes = x.name := by
  obtain ⟨hnames, ns, name, hns, -, hstem⟩ := mem_found_iff.1 hx
  obtain ⟨ns', rights, hns', hdirectory, -⟩ := Disk.exists_names_iff.1 hnames
  obtain rfl := Except.ok.inj (hns.symm.trans hns')
  exact ⟨ns, rights, name, hns, hdirectory, (eq_of_stem? hstem).1⟩

theorem program_locate (h : d.Unlinked) (hx : x ∈ found d x.directory)
    (hp : d.locate x.path = .ok p) : ∃ ns name, d.locate (.ofText x.directory) = .ok ns ∧
      p = ns ++ [name] ∧ name.bytes = x.name := by
  obtain ⟨ns, rights, name, hns, -, hname⟩ := exists_name hx
  obtain ⟨hpath, hplace⟩ := h.locate hns
  refine ⟨ns, name, hns, ?_, hname⟩
  rw [(h.locate hp).2, Program.path, ← hname, Path.placeFrom_pathIn _ hpath name.not_slash,
    ofPiece_bytes, ← hplace]
  rfl

/-- The place is in the directory of the program, under the name of the program with its
    ending replaced. -/
def Beside (d : Disk) (x : Program) (p : Place) : Prop :=
  ∃ ns name, d.locate (.ofText x.directory) = .ok ns ∧ p = ns ++ [name] ∧
    name.bytes = x.stem ++ goldenEnding

theorem GoldenAt.beside (h : d.Unlinked) (hx : x ∈ found d x.directory) (hp : GoldenAt d x p) :
    Beside d x p := by
  obtain ⟨ns, rights, name, hns, hdirectory, hname⟩ := exists_name hx
  obtain ⟨hpath, hplace⟩ := h.locate hns
  have hstem : slash ∉ x.stem := fun hmem =>
    name.not_slash (hname ▸ List.mem_append_left _ hmem)
  have hp' := (h.locate hp.locate).2
  rw [Program.golden] at hp'
  split at hp'
  · -- The path leads up to a directory, and there is no golden file.
    rw [Path.placeFrom_pathIn _ hpath (by decide), ← hplace] at hp'
    obtain ⟨rights, hup⟩ := Disk.exists_directory (Option.isSome_of_eq_some hdirectory)
    have hplace' : p = ns.dropLast := hp'
    cases hp.free _ (hplace' ▸ hup)
  · obtain ⟨golden, hgolden, hinto⟩ := exists_ofPiece_goldenEnding hstem
    have hslash : slash ∉ x.stem ++ goldenEnding := hgolden ▸ golden.not_slash
    rw [Path.placeFrom_pathIn _ hpath hslash, hinto, ← hplace] at hp'
    exact ⟨ns, golden, hns, hp', hgolden⟩

/-- Without links golden files are apart. -/
theorem apart_of_unlinked (fuel : Nat) (h : d.Unlinked) (directories : List String) :
    Apart fuel d directories where
  program x y p hx hy hgolden hp := by
    obtain ⟨ns, name, -, rfl, hname⟩ := hgolden.beside h hx.2
    obtain ⟨ns', name', -, hsame, hname'⟩ := program_locate h hy.2 hp
    obtain ⟨-, heq⟩ := List.append_inj' hsame rfl
    rw [List.singleton_inj.1 heq, hname'] at hname
    exact append_goldenEnding_ne _ _ hname.symm
  shared x y p text text' hx hy hgolden hgolden' hread hread' := by
    obtain ⟨ns, name, hns, rfl, hname⟩ := hgolden.beside h hx.2
    obtain ⟨ns', name', hns', hsame, hname'⟩ := hgolden'.beside h hy.2
    obtain ⟨rfl, heq⟩ := List.append_inj' hsame rfl
    rw [List.singleton_inj.1 heq, hname'] at hname
    have hstem : y.stem = x.stem := List.append_cancel_right hname
    have hpname : x.name = y.name := by rw [Program.name, Program.name, hstem]
    -- The programs have one name in one directory, so that they are one file.
    obtain ⟨p, f, hp, hentry, -, hcontent⟩ := Disk.readText_eq_ok_iff.1 hread
    obtain ⟨p', f', hp', hentry', -, hcontent'⟩ := Disk.readText_eq_ok_iff.1 hread'
    obtain ⟨ms, prog, hms, rfl, hprog⟩ := program_locate h hx.2 hp
    obtain ⟨ms', prog', hms', rfl, hprog'⟩ := program_locate h hy.2 hp'
    obtain rfl := Except.ok.inj (hns.symm.trans hms)
    obtain rfl := Except.ok.inj (hns'.symm.trans hms')
    have hfile : prog = prog' := by
      cases prog
      cases prog'
      simp only [FileName.mk.injEq] at *
      exact hprog.trans (hpname.trans hprog'.symm)
    subst hfile
    obtain rfl := Entry.file.inj (Option.some.inj (hentry.symm.trans hentry'))
    rw [hcontent] at hcontent'
    rw [Program.transcript, Program.transcript, hpname, String.toByteArray_inj.1 hcontent']
  made x p name hx hgolden _ _ := by
    obtain ⟨ns, name', -, hsame, hname⟩ := hgolden.beside h hx.2
    obtain ⟨-, heq⟩ := List.append_inj' hsame rfl
    rw [List.singleton_inj.1 heq, hname, stem?_append_goldenEnding]

end Golden

end Kode
