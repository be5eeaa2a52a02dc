import Kode.CommandLine
import Kode.Proofs.Golden
import Mathlib.Data.List.Basic

/-!
# Exit codes

The exit code tells whether the command line cannot be used (`Unusable`), whether
something is wrong with one of the files (`Fails`), or neither. There is one
exception: the word of the command is only looked at when a file has been read, so
that a word that is none goes unnoticed if no file can be read (`Overlooked`).

* `CommandLine.exit_iff`: the three codes; and a command line does to its files what
  one command line for each of them would do, one after the other, so that a file
  that fails does not keep the others from being taken.
-/

namespace Kode

namespace CommandLine

open World

/-! ## Command lines -/

/-- The words of the commands. -/
def words : List String :=
  ["run", "ast", "fmt", "check", "test"]

/-- The arguments that are files or directories. -/
def files (args : List String) : List String :=
  args.tail.filter fun a => !isFlag a

/-- The same command, with the same flags, for one file. -/
def only (args : List String) (path : String) : List String :=
  args.take 1 ++ (args.tail.filter isFlag ++ [path])

/-- Why a command line cannot be used. -/
inductive Unusable (args : List String) : Prop
  | noCommand : args = [] → Unusable args
  | help : args.head? = some "--help" ∨ args.head? = some "-h" → Unusable args
  | flag {f : String} : f ∈ args.tail → isFlag f = true → isKnownFlag f = false → Unusable args
  | noFile : files args = [] → Unusable args
  | command {word : String} : args.head? = some word → word ∉ words → Unusable args

/-- Nothing is wrong but the word of the command, and no file can be read. -/
structure Overlooked (d : Disk) (args : List String) : Prop where
  command : ∃ word, args.head? = some word ∧ word ∉ "--help" :: "-h" :: words
  flag : ∀ f ∈ args.tail, isFlag f = true → isKnownFlag f = true
  file : files args ≠ []
  unreadable : ∀ path ∈ files args, ∃ f, d.readText (.ofText path) = .error f

/-- Why something is wrong with a file, or with a directory that is tested. -/
inductive Fails (fuel : Nat) (args : List String) (path : String) (w : World) : Prop
  | tested :
      args.head? = some "test" → Golden.DirectoryFails fuel (args.tail.contains "--bless") path w →
      Fails fuel args path w
  /-- There is no such file, or none that can be read, or its bytes are not text. -/
  | unreadable {f : DiskFault} :
      args.head? ≠ some "test" → w.disk.readText (.ofText path) = .error f → Fails fuel args path w
  | rejected {text : String} {e : ParseError} :
      args.head? ≠ some "test" → w.disk.readText (.ofText path) = .ok text →
      (⟨path, text, 0⟩ : Source).parse = .error e → Fails fuel args path w
  /-- The program fails, or does not come to its end. -/
  | stopped {text : String} {b : Block} {stop : Stop} :
      args.head? = some "run" → w.disk.readText (.ofText path) = .ok text →
      (⟨path, text, 0⟩ : Source).parse = .ok b →
      Outcome.stop? (b.run fuel (.start (args.tail.contains "--debug") w.answers)) = some stop →
      Fails fuel args path w
  | unformatted {text : String} {b : Block} :
      args.head? = some "check" → w.disk.readText (.ofText path) = .ok text →
      (⟨path, text, 0⟩ : Source).parse = .ok b → b.format ≠ text → Fails fuel args path w

/-- The console that is left when a file has had its turn. -/
def afterFile (fuel : Nat) (args : List String) (path : String) (w : World) : World :=
  ((perform fuel (only args path) : StateM World Exit) w).2

/-! ## Programs -/

theorem ofWord?_isSome_iff {word : String} :
    (Command.ofWord? word).isSome = true ↔ word ∈ words ∧ word ≠ "test" := by
  simp only [Command.ofWord?, words, List.mem_cons, List.not_mem_nil, or_false]
  grind

theorem ofWord?_eq_run_iff {word : String} : Command.ofWord? word = some .run ↔ word = "run" := by
  grind [Command.ofWord?]

theorem ofWord?_eq_check_iff {word : String} :
    Command.ofWord? word = some .check ↔ word = "check" := by
  grind [Command.ofWord?]

variable {fuel : Nat} {traced failed : Bool} {word path : String} {c : Command} {w : World}

/-- Why something is wrong with a program. -/
theorem perform_eq_false_iff {s : Source} :
    ((c.perform fuel traced s : StateM World Bool) w).1 = false ↔
      (∃ e, s.parse = .error e) ∨ ∃ b, s.parse = .ok b ∧
        (c = .run ∧ (∃ stop, Outcome.stop? (b.run fuel (.start traced w.answers)) = some stop) ∨
          c = .check ∧ b.format ≠ s.text) := by
  cases hparse : s.parse with
  | error e => simp [Command.perform, hparse]
  | ok b =>
    cases c with
    | run =>
      have hstop : ((Console.execute fuel traced b : StateM World (Option Stop)) w).1 =
          Outcome.stop? (b.run fuel (.start traced w.answers)) := rfl
      simp only [Command.perform, hparse, Command.runProgram, bind_apply, hstop]
      cases hrun : Outcome.stop? (b.run fuel (.start traced w.answers)) with
      | none => simp [hrun]
      | some stop => cases stop <;> simp [hrun]
    | outline => simp [Command.perform, hparse]
    | format => simp [Command.perform, hparse]
    | check => simp [Command.perform, hparse, Command.checkProgram]

/-! ## Files at their turn -/

/-- A file is taken by itself, and then the rest of them. -/
theorem onFiles_cons (hc : Command.ofWord? word = some c) (rest : List String) :
    (onFiles fuel traced word failed (path :: rest) : StateM World Exit) w =
      let one := (onFiles fuel traced word false [path] : StateM World Exit) w
      (onFiles fuel traced word (failed || one.1 == .failure) rest : StateM World Exit) one.2 := by
  cases hread : w.disk.readText (.ofText path) with
  | error f => simp [onFiles, hread]
  | ok text =>
    simp only [onFiles, bind_apply, readText_apply, hread, hc]
    cases ((c.perform fuel traced ⟨path, text, 0⟩ : StateM World Bool) w).1 <;> rfl

theorem onFiles_eq_failure_iff (hc : Command.ofWord? word = some c) (paths : List String) :
    ((onFiles fuel traced word failed paths : StateM World Exit) w).1 = .failure ↔
      failed = true ∨ AtTurn
        (fun path w => ((onFiles fuel traced word false [path] : StateM World Exit) w).2)
        (fun path w => ((onFiles fuel traced word false [path] : StateM World Exit) w).1 = .failure)
        paths w := by
  induction paths generalizing failed w with
  | nil => cases failed <;> simp [onFiles, AtTurn.not_nil]
  | cons path rest ih =>
    rw [onFiles_cons hc, AtTurn.cons_iff]
    dsimp only
    rw [ih, Bool.or_eq_true, beq_iff_eq, or_assoc]

theorem onFiles_snd (hc : Command.ofWord? word = some c) (paths : List String) :
    ((onFiles fuel traced word failed paths : StateM World Exit) w).2 = paths.foldl
      (fun w path => ((onFiles fuel traced word false [path] : StateM World Exit) w).2) w := by
  induction paths generalizing failed w with
  | nil => cases failed <;> rfl
  | cons path rest ih =>
    rw [onFiles_cons hc]
    exact ih

theorem onFiles_ne_unusable (hc : Command.ofWord? word = some c) (paths : List String) :
    ((onFiles fuel traced word failed paths : StateM World Exit) w).1 ≠ .unusable := by
  induction paths generalizing failed w with
  | nil => cases failed <;> simp [onFiles]
  | cons path rest ih =>
    rw [onFiles_cons hc]
    exact ih

theorem onFiles_single_eq_failure_iff (hc : Command.ofWord? word = some c) :
    ((onFiles fuel traced word false [path] : StateM World Exit) w).1 = .failure ↔
      (∃ f, w.disk.readText (.ofText path) = .error f) ∨
        ∃ text, w.disk.readText (.ofText path) = .ok text ∧
          ((c.perform fuel traced ⟨path, text, 0⟩ : StateM World Bool) w).1 = false := by
  cases hread : w.disk.readText (.ofText path) with
  | error f => simp [onFiles, hread]
  | ok text => simp [onFiles, hread, hc]

/-- The word is only looked at when a file has been read. -/
theorem onFiles_of_none (hc : Command.ofWord? word = none) (paths : List String) :
    ((onFiles fuel traced word failed paths : StateM World Exit) w).1 =
      if ∀ path ∈ paths, (w.disk.readText (.ofText path)).isOk = false then
        if failed = true ∨ paths ≠ [] then .failure else .success
      else .unusable := by
  induction paths generalizing failed w with
  | nil => cases failed <;> simp [onFiles]
  | cons path rest ih =>
    cases hread : w.disk.readText (.ofText path) with
    | error f => simp [onFiles, hread, ih, Except.isOk, Except.toBool]
    | ok text => simp [onFiles, hread, hc, reject, Except.isOk, Except.toBool]

/-! ## From the arguments to the files -/

variable {arguments : List String}

/-- Neither a flag nor a lack of files is in the way of the command. -/
structure Ready (word : String) (arguments : List String) : Prop where
  help : word ≠ "--help" ∧ word ≠ "-h"
  flag : ∀ f ∈ arguments, isFlag f = true → isKnownFlag f = true
  file : files (word :: arguments) ≠ []

theorem contains_filter_isFlag {flag : String} (hflag : isFlag flag = true) :
    (arguments.filter isFlag).contains flag = arguments.contains flag := by
  rw [Bool.eq_iff_iff]
  simp [hflag]

theorem isFlag_of_mem_files {args : List String} (h : path ∈ files args) : isFlag path = false := by
  simpa using (List.mem_filter.1 h).2

namespace Ready

section

variable {m : Type → Type} [Monad m] [Console m]

/-- What is left to do. -/
theorem perform_cons (fuel : Nat) (h : Ready word arguments) :
    (perform fuel (word :: arguments) : m Exit) =
      if word = "test" then do
        let passed ← Golden.test fuel (arguments.contains "--bless") (files (word :: arguments))
        return if passed then .success else .failure
      else
        onFiles fuel (arguments.contains "--debug") word false (files (word :: arguments)) := by
  have hfind : (arguments.filter isFlag).find? (fun f => !isKnownFlag f) = none := by
    simpa using h.flag
  have hfiles : files (word :: arguments) = arguments.filter fun a => !isFlag a := rfl
  have hfile := h.file
  rw [hfiles, ne_eq, ← List.isEmpty_iff] at hfile
  rw [perform, if_neg (by simp [h.help]), hfind]
  dsimp only
  rw [if_neg hfile, contains_filter_isFlag (by decide), contains_filter_isFlag (by decide), hfiles]

theorem perform_only (fuel : Nat) (h : Ready word arguments) (hpath : isFlag path = false) :
    (perform fuel (only (word :: arguments) path) : m Exit) =
      if word = "test" then do
        let passed ← Golden.test fuel (arguments.contains "--bless") [path]
        return if passed then .success else .failure
      else onFiles fuel (arguments.contains "--debug") word false [path] := by
  have hone : only (word :: arguments) path = word :: (arguments.filter isFlag ++ [path]) := rfl
  have hfiles : files (word :: (arguments.filter isFlag ++ [path])) = [path] := by
    simp [files, hpath]
  have hready : Ready word (arguments.filter isFlag ++ [path]) :=
    ⟨h.help, by simpa [hpath, or_imp, forall_and] using h.flag, by simp [hfiles]⟩
  have hcontains {flag : String} (hflag : isFlag flag = true) :
      (arguments.filter isFlag ++ [path]).contains flag = arguments.contains flag := by
    rw [← contains_filter_isFlag hflag, ← contains_filter_isFlag hflag]
    simp [hpath, hflag]
  rw [hone, hready.perform_cons, hfiles, hcontains (by decide), hcontains (by decide)]

end

theorem afterFile_test (h : Ready "test" arguments) (hpath : path ∈ files ("test" :: arguments)) :
    afterFile fuel ("test" :: arguments) path =
      Golden.afterDirectory fuel (arguments.contains "--bless") path := by
  funext w
  rw [afterFile, h.perform_only fuel (isFlag_of_mem_files hpath), if_pos rfl]
  rfl

theorem afterFile_of_ne (h : Ready word arguments) (hword : word ≠ "test")
    (hpath : path ∈ files (word :: arguments)) :
    afterFile fuel (word :: arguments) path = fun w =>
      ((onFiles fuel (arguments.contains "--debug") word false [path] :
        StateM World Exit) w).2 := by
  funext w
  rw [afterFile, h.perform_only fuel (isFlag_of_mem_files hpath), if_neg hword]

end Ready

/-! ## Why a file fails -/

theorem fails_test_iff :
    Fails fuel ("test" :: arguments) path w ↔
      Golden.DirectoryFails fuel (arguments.contains "--bless") path w := by
  constructor
  · rintro (⟨-, h⟩ | ⟨h, -⟩ | ⟨h, -⟩ | ⟨h, -⟩ | ⟨h, -⟩)
    · exact h
    all_goals simp at h
  · exact fun h => .tested rfl h

theorem fails_iff (hc : Command.ofWord? word = some c) :
    Fails fuel (word :: arguments) path w ↔
      ((onFiles fuel (arguments.contains "--debug") word false [path] : StateM World Exit) w).1 =
        .failure := by
  have hword : word ≠ "test" := (ofWord?_isSome_iff.1 (by simp [hc])).2
  have hrun : c = .run ↔ word = "run" := by rw [← ofWord?_eq_run_iff, hc, Option.some_inj]
  have hcheck : c = .check ↔ word = "check" := by
    rw [← ofWord?_eq_check_iff, hc, Option.some_inj]
  simp only [onFiles_single_eq_failure_iff hc, perform_eq_false_iff, hrun, hcheck]
  constructor
  · rintro (⟨h, -⟩ | ⟨-, hread⟩ | ⟨-, hread, hparse⟩ | ⟨h, hread, hparse, hstop⟩ |
      ⟨h, hread, hparse, hne⟩)
    · exact absurd (Option.some.inj h) hword
    · exact .inl ⟨_, hread⟩
    · exact .inr ⟨_, hread, .inl ⟨_, hparse⟩⟩
    · exact .inr ⟨_, hread, .inr ⟨_, hparse, .inl ⟨Option.some.inj h, _, hstop⟩⟩⟩
    · exact .inr ⟨_, hread, .inr ⟨_, hparse, .inr ⟨Option.some.inj h, hne⟩⟩⟩
  · have hhead : (word :: arguments).head? ≠ some "test" := by simpa using hword
    rintro (⟨f, hread⟩ | ⟨text, hread, ⟨e, hparse⟩ | ⟨b, hparse, ⟨h, stop, hstop⟩ | ⟨h, hne⟩⟩⟩)
    · exact .unreadable hhead hread
    · exact .rejected hhead hread hparse
    · exact .stopped (congrArg some h) hread hparse hstop
    · exact .unformatted (congrArg some h) hread hparse hne

/-! ## Exit codes -/

theorem ready_of_usable (h : ¬ Unusable (word :: arguments)) :
    Ready word arguments ∧ word ∈ words := by
  refine ⟨⟨not_or.1 fun hword => h (.help ?_), fun f hf hisFlag => ?_,
    fun hnil => h (.noFile hnil)⟩, ?_⟩
  · simpa using hword
  · by_contra hknown
    exact h (.flag hf hisFlag (Bool.eq_false_iff.2 hknown))
  · by_contra hword
    exact h (.command rfl hword)

/-- What becomes of directories that are tested or blessed. -/
theorem Ready.perform_test_apply (fuel : Nat) (h : Ready "test" arguments) (w : World) :
    let blessing := arguments.contains "--bless"
    let result := (perform fuel ("test" :: arguments) : StateM World Exit) w
    result.1 ≠ .unusable ∧
    (result.1 = .failure ↔ AtTurn (Golden.afterDirectory fuel blessing)
      (Golden.DirectoryFails fuel blessing) (files ("test" :: arguments)) w) ∧
    result.2 = (files ("test" :: arguments)).foldl
      (fun w directory => Golden.afterDirectory fuel blessing directory w) w := by
  dsimp only
  rw [h.perform_cons, if_pos rfl, ← Golden.test_eq_false_iff, ← Golden.test_snd]
  simp only [bind_apply, pure_apply]
  generalize ((Golden.test fuel (arguments.contains "--bless") (files ("test" :: arguments)) :
    StateM World Bool) w) = tested
  obtain ⟨passed, w'⟩ := tested
  cases passed <;> simp

/-- What becomes of a command line that can be used. -/
theorem perform_of_usable (fuel : Nat) {args : List String} (w : World) (h : ¬ Unusable args) :
    let result := (perform fuel args : StateM World Exit) w
    result.1 ≠ .unusable ∧
    (result.1 = .failure ↔ AtTurn (afterFile fuel args) (Fails fuel args) (files args) w) ∧
    result.2 = (files args).foldl (fun w path => afterFile fuel args path w) w := by
  cases args with
  | nil => exact absurd (.noCommand rfl) h
  | cons word arguments =>
    obtain ⟨hready, hword⟩ := ready_of_usable h
    by_cases htest : word = "test"
    · subst htest
      obtain ⟨hne, hfails, hleft⟩ := hready.perform_test_apply fuel w
      have hafter : ∀ path ∈ files ("test" :: arguments),
          afterFile fuel ("test" :: arguments) path =
            Golden.afterDirectory fuel (arguments.contains "--bless") path :=
        fun path hmem => hready.afterFile_test hmem
      refine ⟨hne, hfails.trans ?_, hleft.trans ?_⟩
      · rw [AtTurn.congr hafter fun path _ w => fails_test_iff]
      · exact (List.foldl_ext _ _ _ fun w path hmem => congrFun (hafter path hmem) w).symm
    · obtain ⟨c, hc⟩ := Option.isSome_iff_exists.1 (ofWord?_isSome_iff.2 ⟨hword, htest⟩)
      have hafter : ∀ path ∈ files (word :: arguments),
          afterFile fuel (word :: arguments) path = _ :=
        fun path hmem => hready.afterFile_of_ne htest hmem
      dsimp only
      rw [hready.perform_cons, if_neg htest]
      refine ⟨onFiles_ne_unusable hc _, ?_, (onFiles_snd hc _).trans ?_⟩
      · rw [onFiles_eq_failure_iff hc, AtTurn.congr hafter fun path _ w => fails_iff hc]
        simp only [Bool.false_eq_true, false_or]
      · exact (List.foldl_ext _ _ _ fun w path hmem => congrFun (hafter path hmem) w).symm

theorem Overlooked.unusable {d : Disk} {args : List String} (h : Overlooked d args) :
    Unusable args := by
  obtain ⟨word, hhead, hword⟩ := h.command
  exact .command hhead fun hmem => hword (List.mem_cons_of_mem _ (List.mem_cons_of_mem _ hmem))

theorem isOk_eq_false_iff {α ε : Type} {r : Except ε α} : r.isOk = false ↔ ∃ e, r = .error e := by
  cases r <;> simp [Except.isOk, Except.toBool]

theorem Overlooked.perform_eq_failure {args : List String} (h : Overlooked w.disk args) :
    ((perform fuel args : StateM World Exit) w).1 = .failure := by
  obtain ⟨⟨word, hhead, hword⟩, hflag, hfile, hunreadable⟩ := h
  obtain ⟨arguments, rfl⟩ := List.head?_eq_some_iff.1 hhead
  rw [List.tail_cons] at hflag
  simp only [words, List.mem_cons, not_or] at hword
  have hc : Command.ofWord? word = none := by grind [Command.ofWord?]
  have hready : Ready word arguments := ⟨⟨hword.1, hword.2.1⟩, hflag, hfile⟩
  rw [hready.perform_cons, if_neg (by simp [hword]), onFiles_of_none hc,
    if_pos fun path hmem => isOk_eq_false_iff.2 (hunreadable path hmem), if_pos (.inr hfile)]

theorem Unusable.perform_eq_unusable {args : List String} (h : Unusable args)
    (hseen : ¬ Overlooked w.disk args) :
    ((perform fuel args : StateM World Exit) w).1 = .unusable := by
  cases args with
  | nil => rfl
  | cons word arguments =>
    by_cases hhelp : word = "--help" ∨ word = "-h"
    · simp [perform, hhelp, reject]
    cases hfind : (arguments.filter isFlag).find? fun f => !isKnownFlag f with
    | some flag => simp [perform, hhelp, hfind, reject]
    | none =>
      have hflag : ∀ f ∈ arguments, isFlag f = true → isKnownFlag f = true := by
        simpa using hfind
      by_cases hfile : files (word :: arguments) = []
      · have hempty : (arguments.filter fun a => !isFlag a) = [] := hfile
        simp [perform, hhelp, hfind, hempty, reject]
      · have hword : word ∉ words := by
          rcases h with h | h | ⟨h, hisFlag, hknown⟩ | h | ⟨hhead, hword⟩
          · cases h
          · exact absurd (by simpa using h) hhelp
          · exact absurd hknown (by simp [hflag _ h hisFlag])
          · exact absurd h hfile
          · rwa [Option.some.inj hhead]
        have hc : Command.ofWord? word = none := by
          rw [← Option.not_isSome_iff_eq_none, ofWord?_isSome_iff]
          exact fun h => hword h.1
        have hready : Ready word arguments := ⟨not_or.1 hhelp, hflag, hfile⟩
        rw [hready.perform_cons, if_neg, onFiles_of_none hc, if_neg]
        · intro hunreadable
          refine hseen ⟨⟨word, rfl, ?_⟩, hflag, hfile, fun path hmem =>
            isOk_eq_false_iff.1 (hunreadable path hmem)⟩
          rw [List.mem_cons, List.mem_cons, ← or_assoc]
          exact not_or.2 ⟨hhelp, hword⟩
        · rintro rfl
          exact hword (by decide)

/-- The exit codes are those that the command line deserves, except for a word that goes
    unnoticed. Whether a file fails is decided at its turn, and all of them get one: what
    is left is what command lines for single files leave one after the other. -/
theorem exit_iff (fuel : Nat) (args : List String) (w : World) :
    let result := (perform fuel args : StateM World Exit) w
    (result.1.code = 2 ↔ Unusable args ∧ ¬ Overlooked w.disk args) ∧
    (result.1.code = 1 ↔ Overlooked w.disk args ∨ ¬ Unusable args ∧
      AtTurn (afterFile fuel args) (Fails fuel args) (files args) w) ∧
    (result.1.code = 0 ↔ ¬ Unusable args ∧
      ¬ AtTurn (afterFile fuel args) (Fails fuel args) (files args) w) ∧
    (¬ Unusable args →
      result.2 = (files args).foldl (fun w path => afterFile fuel args path w) w) := by
  dsimp only
  by_cases hoverlooked : Overlooked w.disk args
  · simp [hoverlooked.perform_eq_failure, hoverlooked, hoverlooked.unusable, Exit.code]
  by_cases hunusable : Unusable args
  · simp [hunusable.perform_eq_unusable hoverlooked, hunusable, hoverlooked, Exit.code]
  · obtain ⟨hne, hfailure, hsnd⟩ := perform_of_usable fuel w hunusable
    refine ⟨?_, ?_, ?_, fun _ => hsnd⟩
    all_goals
      simp only [hunusable, hoverlooked, ← hfailure]
      cases hexit : ((perform fuel args : StateM World Exit) w).1 <;> simp_all [Exit.code]

/-- A file that is missing, and one beside the working directory that is run in spite of
    that. -/
theorem exit_iff_of_missing :
    let w := World.ofDisk
      (.ofPaths "/home/work" [("/home/hello.kode", .file { content := "SHOW 1.".toUTF8 })]) []
    let result := (perform 1 ["run", "missing.kode", "../hello.kode"] : StateM World Exit) w
    result.1.code = 1 ∧ result.2.printed = "1\n" := by
  intro w result
  have husable : ¬ Unusable ["run", "missing.kode", "../hello.kode"] := by
    rintro (h | h | ⟨h, hflag, -⟩ | h | ⟨h, hword⟩)
    · cases h
    · simp at h
    · rcases List.mem_pair.1 h with rfl | rfl <;> exact absurd hflag (by decide)
    · exact absurd h (by decide)
    · exact hword (Option.some.inj h ▸ by decide)
  obtain ⟨-, hfails, -, hleft⟩ := exit_iff 1 ["run", "missing.kode", "../hello.kode"] w
  refine ⟨hfails.2 (.inr ⟨husable, .now (.unreadable (f := .notFound) (by decide) ?_)⟩), ?_⟩
  · decide +kernel
  · rw [hleft husable]
    decide +kernel

/-- A word that is no command, and a file that is missing. -/
theorem not_exit_iff_of_missing :
    ¬ ∀ (fuel : Nat) (args : List String) (w : World),
      ((perform fuel args : StateM World Exit) w).1.code = 2 ↔ Unusable args := by
  intro h
  have hcode := (h 1 ["frobnicate", "missing.kode"] (.ofDisk (.ofPaths "/work" []) [])).2
    (.command rfl (by decide))
  revert hcode
  decide +kernel

end CommandLine

end Kode
