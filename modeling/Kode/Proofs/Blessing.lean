import Kode.Proofs.Disks
import Kode.Proofs.Golden

/-!
# Blessing

To bless directories is to write the transcripts of their programs into golden files. A
golden file is wherever its path leads to (`GoldenAt`), and with links on the disk that
can be anywhere: two programs may share a golden file, or it may be a program itself.

Whatever the disk is, blessing changes nothing but the golden files of programs that are
in the directories then (`Blessed`). If the golden files are apart from each other and
from the programs (`Apart`), and if what is written into them can be read from them, then
a golden file that has been written stays right, whatever is blessed afterwards
(`Settled`).

* `blessed_replayAll`, `blessed_testDirectory`, `blessed_test`: what blessing changes;
* `Apart.found_iff`, `Apart.readText_iff`: what it leaves alone, if golden files are apart;
* `Apart.settled_replayAll`, `Apart.settled_testDirectory`, `Apart.settled_test`: what has
  been blessed is right.
-/

namespace Kode

namespace Golden

open World

variable {fuel : Nat} {passed : Bool} {d d' d'' : Disk} {p : Place} {directory : String}
  {directories : List String} {x y : Program} {xs : List Program} {P Q : Program → Prop}
  {w : World}

/-! ## Programs -/

/-- The programs in a directory. -/
def found (d : Disk) (directory : String) : List Program :=
  match d.names (.ofText directory) with
  | .ok names => programs directory names
  | .error _ => []

/-- The program is in its directory, which is one of these. -/
def Found (d : Disk) (directories : List String) (x : Program) : Prop :=
  x.directory ∈ directories ∧ x ∈ found d x.directory

theorem found_of_ok {names : List FileName} (h : d.names (.ofText directory) = .ok names) :
    found d directory = programs directory names := by
  rw [found, h]

theorem directory_of_mem (h : x ∈ found d directory) : x.directory = directory := by
  unfold found at h
  split at h
  · obtain ⟨name, -, hx⟩ := List.mem_filterMap.1 h
    obtain ⟨stem, -, rfl⟩ := Option.map_eq_some_iff.1 hx
    rfl
  · cases h

/-- A program is in a directory if it can be listed, and if something is found under the
    name of the program. -/
theorem mem_found_iff : x ∈ found d x.directory ↔
    (∃ names, d.names (.ofText x.directory) = .ok names) ∧
      ∃ p name, d.locate (.ofText x.directory) = .ok p ∧
        (d.get? (p ++ [name])).isSome = true ∧ stem? name.bytes = some x.stem := by
  cases hnames : d.names (.ofText x.directory) with
  | error f => simp [found, hnames]
  | ok names =>
    have hmem : x ∈ programs x.directory names ↔
        ∃ name ∈ names, stem? name.bytes = some x.stem := by
      obtain ⟨directory, stem⟩ := x
      simp [programs]
    rw [found_of_ok hnames, hmem]
    simp only [Disk.mem_names_iff hnames]
    constructor
    · rintro ⟨name, ⟨p, hp, hsome⟩, hstem⟩
      exact ⟨⟨names, rfl⟩, p, name, hp, hsome, hstem⟩
    · rintro ⟨-, p, name, hp, hsome, hstem⟩
      exact ⟨name, ⟨p, hp, hsome⟩, hstem⟩

/-! ## Golden files -/

/-- The golden file of the program is at this place, or would be made there. -/
structure GoldenAt (d : Disk) (x : Program) (p : Place) : Prop where
  locate : d.locate x.golden = .ok p
  free : ∀ e, d.get? p = some e → e.isFile = true

theorem GoldenAt.of_sameWays (h : GoldenAt d x p) (hways : d.SameWays d') : GoldenAt d' x p := by
  refine ⟨hways.locate.1 h.locate, fun e he => ?_⟩
  by_contra hfile
  rw [Bool.not_eq_true] at hfile
  exact absurd (h.free e ((hways.get? p e hfile).2 he)) (Bool.eq_false_iff.1 hfile)

/-- Nothing changes but the golden files of these programs. -/
structure Blessed (P : Program → Prop) (d d' : Disk) : Prop where
  sameWays : d.SameWays d'
  lasting : ∀ p, d.Lasting p → d'.Lasting p
  stays : ∀ p, (d.get? p).isSome = true → (d'.get? p).isSome = true
  changes : ∀ p, d'.get? p ≠ d.get? p → ∃ x, P x ∧ GoldenAt d x p

namespace Blessed

theorem refl : Blessed P d d :=
  ⟨.refl, fun _ h => h, fun _ h => h, fun _ h => absurd rfl h⟩

theorem mono (h : Blessed P d d') (hPQ : ∀ x, P x → Q x) : Blessed Q d d' := by
  refine ⟨h.sameWays, h.lasting, h.stays, fun p hp => ?_⟩
  obtain ⟨x, hx, hgolden⟩ := h.changes p hp
  exact ⟨x, hPQ x hx, hgolden⟩

theorem trans (h : Blessed P d d') (h' : Blessed P d' d'') : Blessed P d d'' := by
  refine ⟨h.sameWays.trans h'.sameWays, fun p hp => h'.lasting p (h.lasting p hp),
    fun p hp => h'.stays p (h.stays p hp), fun p hp => ?_⟩
  by_cases hkept : d'.get? p = d.get? p
  · obtain ⟨x, hx, hgolden⟩ := h'.changes p (hkept ▸ hp)
    exact ⟨x, hx, hgolden.of_sameWays h.sameWays.symm⟩
  · exact h.changes p hkept

/-- A program that was in its directory is still there. -/
theorem mem_found (h : Blessed P d d') (hx : x ∈ found d x.directory) :
    x ∈ found d' x.directory := by
  obtain ⟨hnames, p, name, hp, hsome, hstem⟩ := mem_found_iff.1 hx
  exact mem_found_iff.2 ⟨h.sameWays.exists_names.1 hnames, p, name, h.sameWays.locate.1 hp,
    h.stays _ hsome, hstem⟩

end Blessed

/-! ## What blessing changes -/

theorem blessed_of_written {f : File} (hgolden : d.locate x.golden = .ok p)
    (h : d.Written p f d') : Blessed (· = x) d d' := by
  refine ⟨h.sameWays, fun q => h.lasting_of, fun q => h.get?_isSome, fun q hq => ?_⟩
  rw [h.get? q] at hq
  split at hq
  · subst q
    exact ⟨x, rfl, hgolden, h.free⟩
  · exact absurd rfl hq

/-- To bless a program changes nothing but its golden file. -/
theorem Replayed.blessed_of (h : Replayed fuel x d true passed d') : Blessed (· = x) d d' := by
  cases h with
  | unreadable => exact .refl
  | unwritable => exact .refl
  | blessed hread hwrite =>
    obtain ⟨p, f, hp, hwritten, -⟩ := Disk.of_write_eq_ok hwrite
    exact blessed_of_written hp hwritten

theorem blessed_replayAll (fuel : Nat) (xs : List Program) (w : World) :
    Blessed (· ∈ xs) w.disk
      (xs.foldl (fun w x => afterProgram fuel true x w) w).disk := by
  induction xs generalizing w with
  | nil => exact .refl
  | cons x xs ih =>
    obtain ⟨passed, d', h⟩ := exists_replayed fuel x w.disk true
    have hblessed := h.blessed_of
    rw [← h.afterProgram_disk] at hblessed
    refine (hblessed.mono fun y hy => ?_).trans ((ih _).mono fun y => List.mem_cons_of_mem x)
    exact hy ▸ List.mem_cons_self

theorem blessed_testDirectory (fuel : Nat) (directory : String) (w : World) :
    Blessed (· ∈ found w.disk directory) w.disk (afterDirectory fuel true directory w).disk := by
  cases hnames : w.disk.names (.ofText directory) with
  | error f => exact afterDirectory_disk_of_error fuel true hnames ▸ .refl
  | ok names =>
    rw [afterDirectory_disk_of_ok fuel true hnames, found_of_ok hnames]
    exact blessed_replayAll fuel _ w

/-- The programs whose golden files change are in the directories afterwards. -/
theorem blessed_test (fuel : Nat) (directories : List String) (w : World) :
    let d' :=
      (directories.foldl (fun w directory => afterDirectory fuel true directory w) w).disk
    Blessed (Found d' directories) w.disk d' := by
  induction directories generalizing w with
  | nil => exact .refl
  | cons directory rest ih =>
    have hrest := ih (afterDirectory fuel true directory w)
    have hblessed := blessed_testDirectory fuel directory w
    refine (hblessed.mono fun x hx => ?_).trans (hrest.mono fun x hx => ?_)
    · obtain rfl := directory_of_mem hx
      exact ⟨List.mem_cons_self, hrest.mem_found (hblessed.mem_found hx)⟩
    · exact ⟨List.mem_cons_of_mem _ hx.1, hx.2⟩

/-! ## Golden files apart -/

/-- The golden files of the programs in the directories are apart. -/
structure Apart (fuel : Nat) (d : Disk) (directories : List String) : Prop where
  /-- No golden file is a program. -/
  program : ∀ x y p, Found d directories x → Found d directories y → GoldenAt d x p →
    d.locate y.path ≠ .ok p
  /-- Programs that share a golden file have the same transcript. -/
  shared : ∀ x y p text text', Found d directories x → Found d directories y →
    GoldenAt d x p → GoldenAt d y p → d.readText x.path = .ok text →
    d.readText y.path = .ok text' → x.transcript fuel text = y.transcript fuel text'
  /-- No golden file is made under the name of a program in these directories. -/
  made : ∀ x p name, Found d directories x → GoldenAt d x (p ++ [name]) →
    d.get? (p ++ [name]) = none →
    (∃ directory ∈ directories, d.locate (.ofText directory) = .ok p) → stem? name.bytes = none

/-- What is written into the golden files of the programs in the directories can be read
    from them. -/
def Lasting (d : Disk) (directories : List String) : Prop :=
  ∀ x p, Found d directories x → GoldenAt d x p → d.Lasting p

/-- The golden file of the program holds its transcript. -/
def Settled (fuel : Nat) (d : Disk) (x : Program) : Prop :=
  ∃ text, d.readText x.path = .ok text ∧ d.readText x.golden = .ok (x.transcript fuel text)

namespace Apart

variable {d₀ : Disk} (h : Apart fuel d₀ directories) (hlasting : Lasting d₀ directories)

section
include h

/-- Blessing adds no program. -/
theorem found_iff (hblessed : Blessed (Found d₀ directories) d₀ d)
    (hx : x.directory ∈ directories) :
    x ∈ found d x.directory ↔ x ∈ found d₀ x.directory := by
  refine ⟨fun hfound => ?_, hblessed.mem_found⟩
  obtain ⟨hnames, p, name, hp, hsome, hstem⟩ := mem_found_iff.1 hfound
  have hp₀ := hblessed.sameWays.locate.2 hp
  refine mem_found_iff.2 ⟨hblessed.sameWays.exists_names.2 hnames, p, name, hp₀, ?_, hstem⟩
  by_contra hnone
  rw [Bool.not_eq_true, Option.isSome_eq_false_iff, Option.isNone_iff_eq_none] at hnone
  have hne : d.get? (p ++ [name]) ≠ d₀.get? (p ++ [name]) := by
    intro heq
    rw [heq, hnone] at hsome
    cases hsome
  obtain ⟨y, hy, hgolden⟩ := hblessed.changes _ hne
  rw [h.made y p name hy hgolden hnone ⟨_, hx, hp₀⟩] at hstem
  cases hstem

/-- Blessing changes no program. -/
theorem readText_iff (hblessed : Blessed (Found d₀ directories) d₀ d)
    (hx : Found d₀ directories x) {text : String} :
    d.readText x.path = .ok text ↔ d₀.readText x.path = .ok text := by
  simp only [Disk.readText_eq_ok_iff, ← hblessed.sameWays.locate]
  refine exists_congr fun p => exists_congr fun f => and_congr_right fun hp => ?_
  have hkept : d.get? p = d₀.get? p := by
    by_contra hne
    obtain ⟨y, hy, hgolden⟩ := hblessed.changes p hne
    exact h.program y x p hy hx hgolden hp
  rw [hkept]

theorem blessed_afterDirectory (hblessed : Blessed (Found d₀ directories) d₀ w.disk)
    (hdirectory : directory ∈ directories) :
    Blessed (Found d₀ directories) d₀ (afterDirectory fuel true directory w).disk := by
  refine hblessed.trans ((blessed_testDirectory fuel directory w).mono fun x hx => ?_)
  obtain rfl := directory_of_mem hx
  exact ⟨hdirectory, (h.found_iff hblessed hdirectory).1 hx⟩

theorem blessed_afterDirectories {ds : List String}
    (hblessed : Blessed (Found d₀ directories) d₀ w.disk)
    (hds : ∀ directory ∈ ds, directory ∈ directories) :
    Blessed (Found d₀ directories) d₀
      (ds.foldl (fun w directory => afterDirectory fuel true directory w) w).disk := by
  induction ds generalizing w with
  | nil => exact hblessed
  | cons directory rest ih =>
    obtain ⟨hdirectory, hrest⟩ := List.forall_mem_cons.1 hds
    exact ih (h.blessed_afterDirectory hblessed hdirectory) hrest

end

include h hlasting

/-- A golden file that is written holds the transcript of its program, and what has been
    settled before remains so. -/
theorem settled_of_write (hblessed : Blessed (Found d₀ directories) d₀ d)
    (hx : Found d₀ directories x) {text : String} (hread : d.readText x.path = .ok text)
    (hwrite : d.write x.golden (x.transcript fuel text).toUTF8 = .ok d') :
    Settled fuel d' x ∧
      ∀ y, Found d₀ directories y → Settled fuel d y → Settled fuel d' y := by
  obtain ⟨p, f, hp, hwritten, hcontent⟩ := Disk.of_write_eq_ok hwrite
  have hgolden : GoldenAt d₀ x p :=
    GoldenAt.of_sameWays ⟨hp, hwritten.free⟩ hblessed.sameWays.symm
  have hlast : d.Lasting p := hblessed.lasting p (hlasting x p hx hgolden)
  have hwrote {path : Path} (hpath : d.locate path = .ok p) :
      d'.readText path = .ok (x.transcript fuel text) :=
    hwritten.readText hpath (hwritten.lasting hlast) (hcontent hlast)
  have hprogram {y : Program} (hy : Found d₀ directories y) {text : String}
      (hread : d.readText y.path = .ok text) : d'.readText y.path = .ok text := by
    refine (hwritten.readText_of_ne fun hq => ?_).2 hread
    exact h.program x y p hx hy hgolden (hblessed.sameWays.locate.2 hq)
  refine ⟨⟨text, hprogram hx hread, hwrote hp⟩, ?_⟩
  rintro y hy ⟨text', hread', hgolden'⟩
  refine ⟨text', hprogram hy hread', ?_⟩
  by_cases hq : d.locate y.golden = .ok p
  · -- The two share a golden file, which now holds the transcript of the other one.
    have hy' : GoldenAt d₀ y p :=
      GoldenAt.of_sameWays ⟨hq, hwritten.free⟩ hblessed.sameWays.symm
    rw [← h.shared x y p text text' hx hy hgolden hy' ((h.readText_iff hblessed hx).1 hread)
      ((h.readText_iff hblessed hy).1 hread')]
    exact hwrote hq
  · exact (hwritten.readText_of_ne hq).2 hgolden'

theorem settled_replayAll (hblessed : Blessed (Found d₀ directories) d₀ w.disk)
    (hxs : ∀ x ∈ xs, Found d₀ directories x)
    (hpass : ¬ AtTurn (afterProgram fuel true) (ProgramFails fuel true) xs w) :
    let d' := (xs.foldl (fun w x => afterProgram fuel true x w) w).disk
    (∀ x ∈ xs, Settled fuel d' x) ∧
      ∀ y, Found d₀ directories y → Settled fuel w.disk y → Settled fuel d' y := by
  induction xs generalizing w with
  | nil => exact ⟨nofun, fun y _ hy => hy⟩
  | cons x xs ih =>
    obtain ⟨hx, hrest⟩ := List.forall_mem_cons.1 hxs
    rw [AtTurn.cons_iff, not_or] at hpass
    obtain ⟨passed, d', hreplayed⟩ := exists_replayed fuel x w.disk true
    have hone := hreplayed.blessed_of
    rw [← hreplayed.afterProgram_disk] at hone
    cases hreplayed with
    | unreadable hread => exact absurd (.unreadable hread) hpass.1
    | unwritable hread hwrite => exact absurd (.unwritable hread hwrite) hpass.1
    | blessed hread hwrite =>
      have hdisk := (Replayed.blessed hread hwrite).afterProgram_disk
      obtain ⟨hself, hkept⟩ := h.settled_of_write hlasting hblessed hx hread hwrite
      rw [← hdisk] at hself hkept
      obtain ⟨hall, hstay⟩ := ih (hblessed.trans (hone.mono fun y hy => hy ▸ hx)) hrest hpass.2
      exact ⟨List.forall_mem_cons.2 ⟨hstay x hx hself, hall⟩,
        fun y hy hsettled => hstay y hy (hkept y hy hsettled)⟩

/-- To bless a directory that does not fail settles its programs. -/
theorem settled_testDirectory (hblessed : Blessed (Found d₀ directories) d₀ w.disk)
    (hdirectory : directory ∈ directories) (hpass : ¬ DirectoryFails fuel true directory w) :
    let d' := (afterDirectory fuel true directory w).disk
    ((∃ names, d'.names (.ofText directory) = .ok names) ∧
      ∀ x ∈ found d₀ directory, Settled fuel d' x) ∧
      ∀ y, Found d₀ directories y → Settled fuel w.disk y → Settled fuel d' y := by
  cases hnames : w.disk.names (.ofText directory) with
  | error f => exact absurd (.unreadable hnames) hpass
  | ok names =>
    have hfound {x : Program} : x ∈ programs directory names ↔ x ∈ found d₀ directory := by
      rw [← found_of_ok hnames]
      constructor
      all_goals
        intro hx
        obtain rfl := directory_of_mem hx
      · exact (h.found_iff hblessed hdirectory).1 hx
      · exact (h.found_iff hblessed hdirectory).2 hx
    have hxs : ∀ x ∈ programs directory names, Found d₀ directories x := by
      intro x hx
      obtain rfl := directory_of_mem (hfound.1 hx)
      exact ⟨hdirectory, hfound.1 hx⟩
    have hways := (blessed_testDirectory fuel directory w).sameWays
    obtain ⟨hall, hstay⟩ := h.settled_replayAll hlasting hblessed hxs
      fun hfails => hpass (.program hnames hfails)
    rw [← afterDirectory_disk_of_ok fuel true hnames] at hall hstay
    exact ⟨⟨hways.exists_names.1 ⟨names, hnames⟩, fun x hx => hall x (hfound.2 hx)⟩, hstay⟩

theorem settled_test {ds : List String} (hblessed : Blessed (Found d₀ directories) d₀ w.disk)
    (hds : ∀ directory ∈ ds, directory ∈ directories)
    (hpass : ¬ AtTurn (afterDirectory fuel true) (DirectoryFails fuel true) ds w) :
    let d' := (ds.foldl (fun w directory => afterDirectory fuel true directory w) w).disk
    (∀ directory ∈ ds, (∃ names, d'.names (.ofText directory) = .ok names) ∧
      ∀ x ∈ found d₀ directory, Settled fuel d' x) ∧
      ∀ y, Found d₀ directories y → Settled fuel w.disk y → Settled fuel d' y := by
  induction ds generalizing w with
  | nil => exact ⟨nofun, fun y _ hy => hy⟩
  | cons directory rest ih =>
    obtain ⟨hdirectory, hrest⟩ := List.forall_mem_cons.1 hds
    rw [AtTurn.cons_iff, not_or] at hpass
    have hone := h.blessed_afterDirectory hblessed hdirectory
    have hall := h.blessed_afterDirectories hone hrest
    obtain ⟨⟨hnames, hself⟩, hkept⟩ :=
      h.settled_testDirectory hlasting hblessed hdirectory hpass.1
    obtain ⟨hsettled, hstay⟩ := ih hone hrest hpass.2
    have hways := hone.sameWays.symm.trans hall.sameWays
    refine ⟨List.forall_mem_cons.2 ⟨⟨hways.exists_names.1 hnames, fun x hx => ?_⟩, hsettled⟩,
      fun y hy hy' => hstay y hy (hkept y hy hy')⟩
    obtain rfl := directory_of_mem hx
    exact hstay x ⟨hdirectory, hx⟩ (hself x hx)

end Apart

end Golden

end Kode
