import Kode.Golden

/-!
# Taking turns

Files are taken one after the other, and so are directories, and the programs in a
directory. What is done to one of them may change what the next one finds, so that
what becomes of it is decided when its turn comes (`AtTurn`).

On a console that is all data (`World`) this module says what becomes of a program
that is tested or blessed, of a directory and of all of them.

* `Golden.Replayed`: what becomes of a program, in all cases that there are;
* `Golden.replay_eq_false_iff`, `Golden.testDirectory_eq_false_iff`,
  `Golden.test_eq_false_iff`: why a program, a directory and a list of them fails;
* `Golden.replayAll_snd`, `Golden.test_snd`: one that fails does not keep the others
  from being taken.
-/

namespace Kode

/-! ## Turns -/

/-- At the turn of one of the items something holds of it and of the state that the items
    in front of it have left. -/
inductive AtTurn {α σ : Type} (next : α → σ → σ) (P : α → σ → Prop) : List α → σ → Prop
  | now {x : α} {xs : List α} {s : σ} : P x s → AtTurn next P (x :: xs) s
  | later {x : α} {xs : List α} {s : σ} : AtTurn next P xs (next x s) → AtTurn next P (x :: xs) s

namespace AtTurn

variable {α σ : Type} {next : α → σ → σ} {P : α → σ → Prop} {x : α} {xs : List α} {s : σ}

theorem not_nil : ¬ AtTurn next P [] s :=
  nofun

theorem cons_iff : AtTurn next P (x :: xs) s ↔ P x s ∨ AtTurn next P xs (next x s) := by
  constructor
  · rintro (h | h)
    · exact .inl h
    · exact .inr h
  · rintro (h | h)
    · exact .now h
    · exact .later h

theorem congr {next' : α → σ → σ} {P' : α → σ → Prop} (hnext : ∀ x ∈ xs, next x = next' x)
    (hP : ∀ x ∈ xs, ∀ s, P x s ↔ P' x s) : AtTurn next P xs s ↔ AtTurn next' P' xs s := by
  induction xs generalizing s with
  | nil => simp only [not_nil]
  | cons x xs ih =>
    obtain ⟨hx, hnext⟩ := List.forall_mem_cons.1 hnext
    obtain ⟨hPx, hP⟩ := List.forall_mem_cons.1 hP
    rw [cons_iff, cons_iff, hPx, hx, ih hnext hP]

/-- If a turn does not change what matters to the others, the order is of no account. -/
theorem iff_exists (hnext : ∀ x y s, P y (next x s) ↔ P y s) :
    AtTurn next P xs s ↔ ∃ x ∈ xs, P x s := by
  induction xs generalizing s with
  | nil => simp [not_nil]
  | cons x xs ih => simp [cons_iff, ih, hnext]

end AtTurn

/-! ## The console that is all data -/

namespace World

variable {α β : Type}

@[simp] theorem bind_apply (x : StateM World α) (f : α → StateM World β) (w : World) :
    (x >>= f) w = f (x w).1 (x w).2 :=
  rfl

@[simp] theorem pure_apply (a : α) (w : World) : (pure a : StateM World α) w = (a, w) :=
  rfl

@[simp] theorem map_apply (f : α → β) (x : StateM World α) (w : World) :
    (f <$> x) w = (f (x w).1, (x w).2) :=
  rfl

@[simp] theorem readText_apply (path : Path) (w : World) :
    (Console.readText path : StateM World _) w = (w.disk.readText path, w) :=
  rfl

@[simp] theorem names_apply (path : Path) (w : World) :
    (Console.names path : StateM World _) w = (w.disk.names path, w) :=
  rfl

@[simp] theorem complain_apply (text : String) (w : World) :
    (Console.complain text : StateM World _) w =
      ((), { w with complaints := w.complaints ++ text }) :=
  rfl

@[simp] theorem writeText_apply (path : Path) (text : String) (w : World) :
    (Console.writeText path text : StateM World _) w = w.writeText path text :=
  rfl

theorem writeText_of_ok {path : Path} {text : String} {w : World} {d : Disk}
    (h : w.disk.write path text.toUTF8 = .ok d) :
    w.writeText path text = (.ok (), { w with disk := d }) := by
  rw [writeText, h]

theorem writeText_of_error {path : Path} {text : String} {w : World} {f : DiskFault}
    (h : w.disk.write path text.toUTF8 = .error f) : w.writeText path text = (.error f, w) := by
  rw [writeText, h]

end World

namespace Golden

open World

variable {fuel : Nat} {blessing passed : Bool} {directory : String} {x : Program} {d d' : Disk}
  {w : World}

/-! ## Programs -/

/-- What becomes of a program: whether it passes, and the disk that is left. -/
inductive Replayed (fuel : Nat) (x : Program) (d : Disk) : Bool → Bool → Disk → Prop
  | unreadable {blessing : Bool} {f : DiskFault} :
      d.readText x.path = .error f → Replayed fuel x d blessing false d
  /-- There is no golden file, or none that can be read. -/
  | unknown {text : String} {f : DiskFault} :
      d.readText x.path = .ok text → d.readText x.golden = .error f →
      Replayed fuel x d false false d
  | differs {text expected : String} :
      d.readText x.path = .ok text → d.readText x.golden = .ok expected →
      expected ≠ x.transcript fuel text → Replayed fuel x d false false d
  | agrees {text : String} :
      d.readText x.path = .ok text → d.readText x.golden = .ok (x.transcript fuel text) →
      Replayed fuel x d false true d
  | unwritable {text : String} {f : DiskFault} :
      d.readText x.path = .ok text →
      d.write x.golden (x.transcript fuel text).toUTF8 = .error f →
      Replayed fuel x d true false d
  | blessed {text : String} {d' : Disk} :
      d.readText x.path = .ok text → d.write x.golden (x.transcript fuel text).toUTF8 = .ok d' →
      Replayed fuel x d true true d'

theorem exists_replayed (fuel : Nat) (x : Program) (d : Disk) (blessing : Bool) :
    ∃ passed d', Replayed fuel x d blessing passed d' := by
  cases hread : d.readText x.path with
  | error f => exact ⟨_, _, .unreadable hread⟩
  | ok text =>
    cases blessing with
    | true =>
      cases hwrite : d.write x.golden (x.transcript fuel text).toUTF8 with
      | error f => exact ⟨_, _, .unwritable hread hwrite⟩
      | ok d' => exact ⟨_, _, .blessed hread hwrite⟩
    | false =>
      cases hgolden : d.readText x.golden with
      | error f => exact ⟨_, _, .unknown hread hgolden⟩
      | ok expected =>
        by_cases hsame : expected = x.transcript fuel text
        · exact ⟨_, _, .agrees hread (hsame ▸ hgolden)⟩
        · exact ⟨_, _, .differs hread hgolden hsame⟩

/-- Nothing but the disk changes, and what has been said. -/
theorem Replayed.replay_apply (h : Replayed fuel x w.disk blessing passed d') :
    ∃ line, (replay fuel blessing x : StateM World Bool) w =
      (passed, { w with disk := d', complaints := w.complaints ++ line }) := by
  cases h with
  | unreadable hread => exact ⟨_, by simp [replay, remark, hread]; rfl⟩
  | unknown hread hgolden => exact ⟨_, by simp [replay, compare, remark, hread, hgolden]; rfl⟩
  | differs hread hgolden hne =>
    exact ⟨_, by simp [replay, compare, remark, hread, hgolden, hne]; rfl⟩
  | agrees hread hgolden => exact ⟨_, by simp [replay, compare, remark, hread, hgolden]; rfl⟩
  | unwritable hread hwrite =>
    exact ⟨_, by simp [replay, bless, remark, hread, writeText_of_error hwrite]; rfl⟩
  | blessed hread hwrite =>
    exact ⟨"", by simp [replay, bless, hread, writeText_of_ok hwrite]⟩

/-- A program that fails leaves the disk as it is, and so does any test. -/
theorem Replayed.disk_eq (h : Replayed fuel x d blessing passed d')
    (hfails : blessing = false ∨ passed = false) : d' = d := by
  cases h with
  | blessed => simp at hfails
  | _ => rfl

/-- A program fails its test, or cannot be blessed. -/
def ProgramFails (fuel : Nat) (blessing : Bool) (x : Program) (w : World) : Prop :=
  Replayed fuel x w.disk blessing false w.disk

theorem replay_eq_false_iff :
    ((replay fuel blessing x : StateM World Bool) w).1 = false ↔
      ProgramFails fuel blessing x w := by
  constructor
  · intro hfails
    obtain ⟨passed, d', h⟩ := exists_replayed fuel x w.disk blessing
    obtain ⟨line, happly⟩ := h.replay_apply
    rw [happly] at hfails
    subst hfails
    rwa [h.disk_eq (.inr rfl)] at h
  · intro h
    obtain ⟨line, happly⟩ := Replayed.replay_apply h
    rw [happly]

/-- The console that is left when a program has had its turn. -/
def afterProgram (fuel : Nat) (blessing : Bool) (x : Program) (w : World) : World :=
  ((replay fuel blessing x : StateM World Bool) w).2

theorem Replayed.afterProgram_disk (h : Replayed fuel x w.disk blessing passed d') :
    (afterProgram fuel blessing x w).disk = d' := by
  obtain ⟨line, happly⟩ := h.replay_apply
  rw [afterProgram, happly]

/-! ## Directories -/

/-- Why a directory fails its test, or cannot be blessed. -/
inductive DirectoryFails (fuel : Nat) (blessing : Bool) (directory : String) (w : World) : Prop
  | unreadable {f : DiskFault} :
      w.disk.names (.ofText directory) = .error f → DirectoryFails fuel blessing directory w
  | program {names : List FileName} :
      w.disk.names (.ofText directory) = .ok names →
      AtTurn (afterProgram fuel blessing) (ProgramFails fuel blessing)
        (programs directory names) w →
      DirectoryFails fuel blessing directory w

theorem replayAll_eq_zero_iff {xs : List Program} :
    ((replayAll fuel blessing xs : StateM World Nat) w).1 = 0 ↔
      ¬ AtTurn (afterProgram fuel blessing) (ProgramFails fuel blessing) xs w := by
  induction xs generalizing w with
  | nil => simp [replayAll, AtTurn.not_nil]
  | cons x xs ih =>
    rw [AtTurn.cons_iff, not_or, ← ih, ← replay_eq_false_iff, Bool.not_eq_false]
    simp only [replayAll, bind_apply, afterProgram]
    split <;> simp [*]

theorem replayAll_snd {xs : List Program} :
    ((replayAll fuel blessing xs : StateM World Nat) w).2 =
      xs.foldl (fun w x => afterProgram fuel blessing x w) w := by
  induction xs generalizing w with
  | nil => rfl
  | cons x xs ih => exact ih

theorem testDirectory_eq_false_iff :
    ((testDirectory fuel blessing directory : StateM World Bool) w).1 = false ↔
      DirectoryFails fuel blessing directory w := by
  cases hnames : w.disk.names (.ofText directory) with
  | error f =>
    refine iff_of_true ?_ (.unreadable hnames)
    simp [testDirectory, hnames]
  | ok names =>
    have hzero : ((testDirectory fuel blessing directory : StateM World Bool) w).1 = false ↔
        ((replayAll fuel blessing (programs directory names) : StateM World Nat) w).1 ≠ 0 := by
      simp [testDirectory, hnames]
    rw [hzero, ne_eq, replayAll_eq_zero_iff, Classical.not_not]
    constructor
    · exact .program hnames
    · rintro (hunreadable | ⟨hnames', h⟩)
      · rw [hnames] at hunreadable
        exact absurd hunreadable nofun
      · rw [hnames] at hnames'
        rwa [Except.ok.inj hnames']

/-- The console that is left when a directory has had its turn. -/
def afterDirectory (fuel : Nat) (blessing : Bool) (directory : String) (w : World) : World :=
  ((testDirectory fuel blessing directory : StateM World Bool) w).2

theorem afterDirectory_disk_of_error (fuel : Nat) (blessing : Bool) {f : DiskFault}
    (h : w.disk.names (.ofText directory) = .error f) :
    (afterDirectory fuel blessing directory w).disk = w.disk := by
  simp [afterDirectory, testDirectory, remark, h]

/-- The names in a directory are looked up before any of the programs is taken. -/
theorem afterDirectory_disk_of_ok (fuel : Nat) (blessing : Bool) {names : List FileName}
    (h : w.disk.names (.ofText directory) = .ok names) :
    (afterDirectory fuel blessing directory w).disk = ((programs directory names).foldl
      (fun w x => afterProgram fuel blessing x w) w).disk := by
  rw [← replayAll_snd]
  simp [afterDirectory, testDirectory, remark, h]

theorem test_eq_false_iff {directories : List String} :
    ((test fuel blessing directories : StateM World Bool) w).1 = false ↔
      AtTurn (afterDirectory fuel blessing) (DirectoryFails fuel blessing) directories w := by
  induction directories generalizing w with
  | nil => simp [test, AtTurn.not_nil]
  | cons directory rest ih =>
    rw [AtTurn.cons_iff, ← ih, ← testDirectory_eq_false_iff]
    simp only [test, bind_apply, pure_apply, afterDirectory, Bool.and_eq_false_iff]

theorem test_snd {directories : List String} :
    ((test fuel blessing directories : StateM World Bool) w).2 =
      directories.foldl (fun w directory => afterDirectory fuel blessing directory w) w := by
  induction directories generalizing w with
  | nil => rfl
  | cons directory rest ih => exact ih

end Golden

end Kode
