import Kode.Proofs.Exits
import Kode.Proofs.Unlinked

/-!
# Regression suites

A test passes if its directories can be listed and the golden file of each of their
programs holds its transcript (`Golden.test_passes_iff`). It does not write.

So directories that have been blessed pass the test that follows, provided that their
golden files are apart (`Golden.Apart`) and that what is written into them can be read
from them (`Golden.Lasting`). Without links golden files are always apart.

* `CommandLine.bless_settles`: what to bless directories does, and what it does not;
* `CommandLine.not_bless_settles_of_links`: suites that are not settled by it.
-/

namespace Kode

namespace Golden

open World

variable {fuel : Nat} {directory : String} {x : Program} {w : World}

/-! ## What a test finds -/

theorem disk_foldl {α : Type} {f : World → α → World} (h : ∀ w x, (f w x).disk = w.disk)
    (xs : List α) (w : World) : (xs.foldl f w).disk = w.disk := by
  induction xs generalizing w with
  | nil => rfl
  | cons x xs ih => exact (ih _).trans (h w x)

theorem afterProgram_disk (fuel : Nat) (x : Program) (w : World) :
    (afterProgram fuel false x w).disk = w.disk := by
  obtain ⟨passed, d', h⟩ := exists_replayed fuel x w.disk false
  rw [h.afterProgram_disk, h.disk_eq (.inl rfl)]

/-- A program passes if its golden file holds its transcript. -/
theorem settled_iff : Settled fuel w.disk x ↔ ¬ ProgramFails fuel false x w := by
  constructor
  · rintro ⟨text, hread, hgolden⟩ (hread' | ⟨-, hgolden'⟩ | ⟨hread', hgolden', hne⟩)
    · rw [hread] at hread'
      cases hread'
    · rw [hgolden] at hgolden'
      cases hgolden'
    · obtain rfl := Except.ok.inj (hread.symm.trans hread')
      exact hne (Except.ok.inj (hgolden'.symm.trans hgolden))
  · intro hpass
    obtain ⟨passed, d', h⟩ := exists_replayed fuel x w.disk false
    cases h with
    | agrees hread hgolden => exact ⟨_, hread, hgolden⟩
    | unreadable hread => exact absurd (.unreadable hread) hpass
    | unknown hread hgolden => exact absurd (.unknown hread hgolden) hpass
    | differs hread hgolden hne => exact absurd (.differs hread hgolden hne) hpass

/-- A directory passes if it can be listed and all of its programs pass. -/
theorem directory_passes_iff : ¬ DirectoryFails fuel false directory w ↔
    (∃ names, w.disk.names (.ofText directory) = .ok names) ∧
      ∀ x ∈ found w.disk directory, Settled fuel w.disk x := by
  have hexists {xs : List Program} :
      AtTurn (afterProgram fuel false) (ProgramFails fuel false) xs w ↔
        ∃ x ∈ xs, ProgramFails fuel false x w :=
    AtTurn.iff_exists fun x y w => by rw [ProgramFails, ProgramFails, afterProgram_disk]
  cases hnames : w.disk.names (.ofText directory) with
  | error f =>
    refine iff_of_false (fun hpass => hpass (.unreadable hnames)) ?_
    rintro ⟨⟨names, h⟩, -⟩
    cases h
  | ok names =>
    rw [found_of_ok hnames]
    simp only [settled_iff]
    constructor
    · exact fun hpass => ⟨⟨names, rfl⟩, fun x hx hfails =>
        hpass (.program hnames (hexists.2 ⟨x, hx, hfails⟩))⟩
    · rintro ⟨-, hall⟩ (h | ⟨h, hfails⟩)
      · rw [hnames] at h
        cases h
      · rw [hnames] at h
        obtain ⟨x, hx, hfails⟩ := hexists.1 (Except.ok.inj h ▸ hfails)
        exact hall x hx hfails

theorem afterDirectory_disk (fuel : Nat) (directory : String) (w : World) :
    (afterDirectory fuel false directory w).disk = w.disk := by
  cases hnames : w.disk.names (.ofText directory) with
  | error f => exact afterDirectory_disk_of_error fuel false hnames
  | ok names =>
    rw [afterDirectory_disk_of_ok fuel false hnames]
    exact disk_foldl (fun w x => afterProgram_disk fuel x w) _ w

theorem test_passes_iff {directories : List String} :
    ¬ AtTurn (afterDirectory fuel false) (DirectoryFails fuel false) directories w ↔
      ∀ directory ∈ directories, (∃ names, w.disk.names (.ofText directory) = .ok names) ∧
        ∀ x ∈ found w.disk directory, Settled fuel w.disk x := by
  have hiff (directory : String) (w w' : World) (h : w'.disk = w.disk) :
      DirectoryFails fuel false directory w' ↔ DirectoryFails fuel false directory w := by
    rw [← not_iff_not, directory_passes_iff, directory_passes_iff, h]
  rw [AtTurn.iff_exists fun _ _ w => hiff _ _ _ (afterDirectory_disk fuel _ w)]
  simp only [not_exists, not_and, directory_passes_iff]

end Golden

/-! ## What a test does not do -/

/-- The console with another way to write files. -/
abbrev Console.withWrite {m : Type → Type} (c : Console m)
    (write : Path → String → m (Except DiskFault Unit)) : Console m :=
  { c with writeText := write }

namespace Golden

section

variable {m : Type → Type} [Monad m] (c : Console m)
  (write : Path → String → m (Except DiskFault Unit)) (fuel : Nat)

theorem replay_withWrite (x : Program) :
    @replay m _ (c.withWrite write) fuel false x = @replay m _ c fuel false x :=
  rfl

theorem replayAll_withWrite (xs : List Program) :
    @replayAll m _ (c.withWrite write) fuel false xs = @replayAll m _ c fuel false xs := by
  induction xs with
  | nil => rfl
  | cons x xs ih => simp only [replayAll, replay_withWrite, ih]

theorem testDirectory_withWrite (directory : String) :
    @testDirectory m _ (c.withWrite write) fuel false directory =
      @testDirectory m _ c fuel false directory := by
  simp only [testDirectory, replayAll_withWrite]
  rfl

theorem test_withWrite (directories : List String) :
    @test m _ (c.withWrite write) fuel false directories =
      @test m _ c fuel false directories := by
  induction directories with
  | nil => rfl
  | cons directory rest ih => simp only [test, testDirectory_withWrite, ih]

end

end Golden

/-! ## Command lines -/

namespace CommandLine

/-- No test writes, whatever its arguments are. -/
theorem perform_withWrite {m : Type → Type} [Monad m] (c : Console m)
    (write : Path → String → m (Except DiskFault Unit)) (fuel : Nat) {arguments : List String}
    (h : "--bless" ∉ arguments) :
    @perform m _ (c.withWrite write) fuel ("test" :: arguments) =
      @perform m _ c fuel ("test" :: arguments) := by
  have hplain : (arguments.filter isFlag).contains "--bless" = false := by
    rw [contains_filter_isFlag (by decide)]
    simpa using h
  simp only [perform, hplain, Golden.test_withWrite]
  rfl

section

variable {directories : List String} (flags : List String) (blessing : Bool)
  (hdirectories : ∀ directory ∈ directories, isFlag directory = false)
  (hflags : ∀ f ∈ flags, isFlag f = true ∧ isKnownFlag f = true)
  (hblessing : flags.contains "--bless" = blessing)
include hdirectories hflags hblessing

/-- What becomes of directories that stand in front of the flags. -/
theorem perform_directories (fuel : Nat) (hne : directories ≠ []) (w : World) :
    let result := (perform fuel ("test" :: (directories ++ flags)) : StateM World Exit) w
    (result.1.code = 0 ↔ ¬ AtTurn (Golden.afterDirectory fuel blessing)
      (Golden.DirectoryFails fuel blessing) directories w) ∧
    result.2 = directories.foldl
      (fun w directory => Golden.afterDirectory fuel blessing directory w) w := by
  have hfiles : files ("test" :: (directories ++ flags)) = directories := by
    have hall : directories.filter (fun a => !isFlag a) = directories :=
      List.filter_eq_self.2 fun a ha => by simp [hdirectories a ha]
    have hnone : flags.filter (fun a => !isFlag a) = [] :=
      List.filter_eq_nil_iff.2 fun a ha => by simp [hflags a ha]
    rw [files, List.tail_cons, List.filter_append, hall, hnone, List.append_nil]
  have hcontains : (directories ++ flags).contains "--bless" = blessing := by
    have hdirectory : "--bless" ∉ directories := fun hmem =>
      absurd (hdirectories _ hmem) (by decide)
    rw [← hblessing]
    simp [hdirectory]
  have hready : Ready "test" (directories ++ flags) := by
    refine ⟨by decide, fun f hf hisFlag => ?_, by rwa [hfiles]⟩
    rcases List.mem_append.1 hf with hmem | hmem
    · simp [hdirectories f hmem] at hisFlag
    · exact (hflags f hmem).2
  obtain ⟨husable, hfails, hleft⟩ := hready.perform_test_apply fuel w
  rw [hcontains, hfiles] at hfails hleft
  refine ⟨?_, hleft⟩
  rw [← hfails]
  cases hexit : ((perform fuel ("test" :: (directories ++ flags)) : StateM World Exit) w).1 <;>
    simp_all [Exit.code]

end

/-! ## Single directories -/

/-- If the directory can be blessed, it passes the test that follows. -/
def PassesOnceBlessed (fuel : Nat) (directory : String) (w : World) : Prop :=
  let blessed := (perform fuel ["test", directory, "--bless"] : StateM World Exit) w
  blessed.1.code = 0 →
    ((perform fuel ["test", directory] : StateM World Exit) blessed.2).1.code = 0

section

variable {fuel : Nat} {directory : String} {names : List FileName} {w : World}
  (hdirectory : isFlag directory = false)
  (hnames : w.disk.names (.ofText directory) = .ok names)
include hdirectory hnames

/-- To bless a directory is to bless its programs. -/
theorem bless_directory :
    let result :=
      (Golden.replayAll fuel true (Golden.programs directory names) : StateM World Nat) w
    let blessed := (perform fuel ["test", directory, "--bless"] : StateM World Exit) w
    (result.1 = 0 → blessed.1.code = 0) ∧ blessed.2.disk = result.2.disk := by
  have hdirectories : ∀ d ∈ [directory], isFlag d = false :=
    List.forall_mem_singleton.2 hdirectory
  obtain ⟨hpassed, hleft⟩ :=
    perform_directories ["--bless"] true hdirectories (by decide) rfl fuel (by simp) w
  simp only [List.singleton_append] at hpassed hleft
  refine ⟨fun hzero => hpassed.2 ?_, ?_⟩
  · rw [AtTurn.cons_iff, not_or]
    refine ⟨?_, AtTurn.not_nil⟩
    rintro (hnames' | ⟨hnames', hfails⟩)
    · rw [hnames] at hnames'
      cases hnames'
    · rw [hnames] at hnames'
      exact Golden.replayAll_eq_zero_iff.1 hzero (Except.ok.inj hnames' ▸ hfails)
  · rw [hleft, List.foldl_cons, List.foldl_nil,
      Golden.afterDirectory_disk_of_ok fuel true hnames, Golden.replayAll_snd]

/-- A directory does not pass if a program is in it then that fails. -/
theorem not_passesOnceBlessed {p : Place} (hp : w.disk.locate (.ofText directory) = .ok p)
    (stem : List UInt8) :
    let result :=
      (Golden.replayAll fuel true (Golden.programs directory names) : StateM World Nat) w
    result.1 = 0 →
    stem ∈ (result.2.disk.namesAt p).filterMap (fun name => Golden.stem? name.bytes) →
    ((Golden.replay fuel false ⟨directory, stem⟩ : StateM World Bool) result.2).1 = false →
    ¬ PassesOnceBlessed fuel directory w := by
  intro result hzero hstem hfails hpasses
  have hdirectories : ∀ d ∈ [directory], isFlag d = false :=
    List.forall_mem_singleton.2 hdirectory
  obtain ⟨hcode, hdisk⟩ := bless_directory hdirectory hnames
  obtain ⟨htest, -⟩ := perform_directories [] false hdirectories nofun rfl fuel (by simp)
    ((perform fuel ["test", directory, "--bless"] : StateM World Exit) w).2
  have hpass := Golden.test_passes_iff.1 (htest.1 (hpasses (hcode hzero)))
  obtain ⟨hlisted, hsettled⟩ := hpass directory List.mem_cons_self
  rw [hdisk] at hlisted hsettled
  refine Golden.settled_iff.1 (hsettled ⟨directory, stem⟩ ?_)
    (Golden.replay_eq_false_iff.1 hfails)
  obtain ⟨name, hname, hprogram⟩ := List.mem_filterMap.1 hstem
  have hways := (Golden.blessed_replayAll fuel (Golden.programs directory names) w).sameWays
  rw [← Golden.replayAll_snd] at hways
  exact Golden.mem_found_iff.2
    ⟨hlisted, p, name, hways.locate.1 hp, Disk.mem_namesAt_iff.1 hname, hprogram⟩

end

/-! ## Blessing and testing -/

/-- If directories could be blessed, they pass the test that follows, which writes nothing:
    provided that their golden files are apart, and that what is written into them can be
    read from them. Without links golden files are apart, and each of them is beside its
    program. Whatever the disk is, blessing changes nothing but golden files of programs that
    are in the directories then, and no test writes. -/
theorem bless_settles (fuel : Nat) {directories : List String}
    (hdirectories : ∀ directory ∈ directories, isFlag directory = false) (w : World) :
    let blessed := (perform fuel ("test" :: (directories ++ ["--bless"])) : StateM World Exit) w
    (Golden.Apart fuel w.disk directories → Golden.Lasting w.disk directories →
      blessed.1.code = 0 → ∀ w' : World, w'.disk = blessed.2.disk →
        let tested := (perform fuel ("test" :: directories) : StateM World Exit) w'
        tested.1.code = 0 ∧ tested.2.disk = w'.disk) ∧
    (w.disk.Unlinked → Golden.Apart fuel w.disk directories ∧
      ∀ x p, Golden.Found w.disk directories x → Golden.GoldenAt w.disk x p →
        Golden.Beside w.disk x p) ∧
    (∀ p, blessed.2.disk.get? p ≠ w.disk.get? p →
      ∃ x, Golden.Found blessed.2.disk directories x ∧ Golden.GoldenAt w.disk x p) ∧
    (Golden.Apart fuel w.disk directories →
      ∀ x, Golden.Found blessed.2.disk directories x ↔ Golden.Found w.disk directories x) ∧
    ∀ (m : Type → Type) [Monad m] (c : Console m)
      (write : Path → String → m (Except DiskFault Unit)) (arguments : List String),
      "--bless" ∉ arguments →
      @perform m _ (c.withWrite write) fuel ("test" :: arguments) =
        @perform m _ c fuel ("test" :: arguments) := by
  have hunlinked (h : w.disk.Unlinked) := And.intro
    (Golden.apart_of_unlinked fuel h directories)
    fun x p (hx : Golden.Found w.disk directories x) (hp : Golden.GoldenAt w.disk x p) =>
      hp.beside h hx.2
  by_cases hne : directories = []
  · -- There is nothing to bless, and the command line cannot be used.
    subst hne
    exact ⟨fun _ _ hcode => absurd hcode (by change 2 ≠ 0; decide), hunlinked,
      fun p hp => absurd rfl hp, fun _ x => Iff.rfl,
      fun m _ c write arguments h => perform_withWrite c write fuel h⟩
  obtain ⟨hpassed, hleft⟩ :=
    perform_directories ["--bless"] true hdirectories (by decide) rfl fuel hne w
  have hblessed := Golden.blessed_test fuel directories w
  have hadded (hapart : Golden.Apart fuel w.disk directories) :=
    hapart.blessed_afterDirectories .refl fun _ h => h
  dsimp only at hpassed hleft hblessed ⊢
  rw [← hleft] at hblessed hadded
  refine ⟨fun hapart hlasting hcode w' hdisk => ?_, hunlinked, hblessed.changes,
    fun hapart x => ?_, fun m _ c write arguments h => perform_withWrite c write fuel h⟩
  · obtain ⟨htest, hkept⟩ := perform_directories [] false hdirectories nofun rfl fuel hne w'
    rw [List.append_nil] at htest hkept
    obtain ⟨hsettled, -⟩ := hapart.settled_test hlasting .refl (fun _ h => h) (hpassed.1 hcode)
    rw [← hleft, ← hdisk] at hsettled
    rw [htest, hkept,
      Golden.disk_foldl fun w directory => Golden.afterDirectory_disk fuel directory w]
    refine ⟨Golden.test_passes_iff.2 fun directory hmem => ⟨(hsettled directory hmem).1,
      fun x hx => ?_⟩, rfl⟩
    obtain rfl := Golden.directory_of_mem hx
    rw [hdisk, hapart.found_iff (hadded hapart) hmem] at hx
    exact (hsettled _ hmem).2 x hx
  · exact and_congr_right fun hmem => hapart.found_iff (hadded hapart) hmem

/-- A file with this text. -/
def textFile (text : String) : Entry :=
  .file { content := text.toUTF8 }

/-- A directory with these names in it, beside the working directory. -/
def suite (entries : List (String × Entry)) : World :=
  .ofDisk (.ofPaths "/home/work" (entries.map fun e => ("/home/suite/" ++ e.1, e.2))) []

/-- A directory of two programs, of which one fails. -/
theorem bless_settles_of_failing :
    let w := suite [("fails.kode", textFile "SHOW it."), ("shows.kode", textFile "SHOW 1.")]
    let blessed := (perform 1 ["test", "../suite", "--bless"] : StateM World Exit) w
    w.disk.Unlinked ∧ Golden.Lasting w.disk ["../suite"] ∧ blessed.1.code = 0 ∧
      ((perform 1 ["test", "../suite"] : StateM World Exit) blessed.2).1.code = 0 := by
  intro w blessed
  have hdirectories : ∀ directory ∈ ["../suite"], isFlag directory = false := by decide
  have hunlinked : w.disk.Unlinked := by decide +kernel
  have hlasting : Golden.Lasting w.disk ["../suite"] := by
    refine fun x p _ _ => Disk.lasting_of_forall rfl ?_ p
    intro e he f hf
    simp only [w, suite, textFile, World.ofDisk, Disk.ofPaths, List.map_cons, List.map_nil,
      List.mem_cons, List.not_mem_nil, or_false] at he
    rcases he with rfl | rfl <;> exact Entry.file.inj hf ▸ ⟨rfl, rfl⟩
  have hp : w.disk.locate (.ofText "../suite") = .ok (Path.ofText "/home/suite").place := by
    decide +kernel
  have hnames := Disk.names_of_pairwise hp (by decide +kernel) (by decide +kernel)
  have hcode : blessed.1.code = 0 := by
    refine (bless_directory (hdirectories _ List.mem_cons_self) hnames).1 ?_
    decide +kernel
  obtain ⟨hsettles, hwithout, -⟩ := bless_settles 1 hdirectories w
  exact ⟨hunlinked, hlasting, hcode,
    (hsettles (hwithout hunlinked).1 hlasting hcode blessed.2 rfl).1⟩

/-- Suites that fail right after they were blessed. -/
theorem not_bless_settles_of_links :
    -- Two programs share a golden file.
    ¬ PassesOnceBlessed 1 "../suite" (suite [("a.kode", textFile "SHOW 1."),
      ("a.out", textFile ""), ("b.kode", textFile "SHOW 2."),
      ("b.out", .same (Path.ofText "/home/suite/a.out").place)]) ∧
    -- The golden file of one program is the other program.
    ¬ PassesOnceBlessed 1 "../suite" (suite [("a.kode", textFile "SHOW 1."),
      ("b.kode", textFile "SHOW 2."), ("b.out", .link (.ofText "a.kode"))]) ∧
    -- The golden file is made under the name of a program.
    ¬ PassesOnceBlessed 1 "../suite" (suite [("a.kode", textFile "SHOW 1."),
      ("a.out", .link (.ofText "b.kode"))]) ∧
    -- The golden file can be written, but not read.
    ¬ PassesOnceBlessed 1 "../suite" (suite [("a.kode", textFile "SHOW 1."),
      ("a.out", .file { content := .empty, rights := ⟨.error .denied, .ok (), .ok ()⟩ })]) ∧
    -- The golden file is a device, which does not keep what is written into it.
    ¬ PassesOnceBlessed 1 "../suite" (suite [("a.kode", textFile "SHOW 1."),
      ("a.out", .file { content := .empty, keeps := false })]) := by
  have hsuite : isFlag "../suite" = false := by decide
  let p := (Path.ofText "/home/suite").place
  have hfails {w : World} (stem : List UInt8)
      (hp : w.disk.locate (.ofText "../suite") = .ok p)
      (hread : ((w.disk.directory p).bind Rights.read) = .ok ())
      (hsorted : (w.disk.namesAt p).Pairwise fun a b => a.le b = true) :=
    @not_passesOnceBlessed 1 _ _ _ hsuite (Disk.names_of_pairwise hp hread hsorted) p hp stem
  refine ⟨?_, ?_, ?_, ?_, ?_⟩
  · apply hfails (Text.bytes "a") <;> decide +kernel
  · apply hfails (Text.bytes "a") <;> decide +kernel
  · apply hfails (Text.bytes "b") <;> decide +kernel
  · apply hfails (Text.bytes "a") <;> decide +kernel
  · apply hfails (Text.bytes "a") <;> decide +kernel

end CommandLine

end Kode
