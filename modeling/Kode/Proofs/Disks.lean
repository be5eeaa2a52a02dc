import Kode.Golden
import Mathlib.Data.List.Basic

/-!
# What is found on a disk

All that is seen of a disk is what is found at its places (`Disk.get?`). To write a
file changes that at one place only (`Disk.Written`), and no path leads elsewhere after
it: files are not in the way to anything (`Disk.SameWays`).

* `Disk.of_write_eq_ok`: what becomes of a disk when a file is written;
* `Disk.Written.sameWays`, `Disk.SameWays.locate`: every path leads to the same place;
* `Disk.Written.readText_of_ne`, `Disk.Written.readText`: paths to other places are read
  as before, and those to this place give what has been written;
* `Disk.mem_namesAt_iff`: the names in a directory are those under which something is
  found.
-/

namespace Kode

/-- Whether this is a file. -/
def Entry.isFile : Entry → Bool
  | file _ => true
  | _ => false

theorem Entry.isFile_iff {e : Entry} : e.isFile = true ↔ ∃ f, e = file f := by
  cases e <;> simp [isFile]

/-- What is written into the file can be read from it. -/
structure File.Lasting (f : File) : Prop where
  read : f.rights.read = .ok ()
  keeps : f.keeps = true

namespace Disk

variable {d d' : Disk} {p q : Place} {path : Path} {name : FileName} {f : File}

/-! ## Places -/

theorem isAbove_iff :
    d.isAbove p = true ↔ p <+: d.here ∨ ∃ e ∈ d.entries, p <+: e.1 ∧ p ≠ e.1 := by
  simp [isAbove]

/-- What is listed is found, but where there has to be a directory. -/
theorem get?_eq (d : Disk) (p : Place) :
    d.get? p =
      match d.entries.lookup p with
      | some (.directory rights) => some (.directory rights)
      | listed => if d.isAbove p then some (.directory .all) else listed :=
  rfl

/-- What is found at a place is listed there, or it is a directory. -/
theorem mem_of_get? {e : Entry} (h : d.get? p = some e) :
    (∃ rights, e = .directory rights) ∨ (p, e) ∈ d.entries := by
  rw [get?_eq] at h
  split at h
  · exact .inl ⟨_, (Option.some.inj h).symm⟩
  · split at h
    · exact .inl ⟨_, (Option.some.inj h).symm⟩
    · obtain ⟨front, back, hentries, -⟩ := List.lookup_eq_some_iff.1 h
      rw [hentries]
      exact .inr (List.mem_append_cons_self)

/-- Something is found at a place if something is known to be at it or below it. -/
theorem get?_isSome_iff : (d.get? p).isSome = true ↔ ∃ q ∈ d.places, p <+: q := by
  have hlisted : (d.entries.lookup p).isSome = true ↔ ∃ e ∈ d.entries, p = e.1 := by
    simp [List.lookup_isSome_iff]
  have hfound : (d.get? p).isSome = true ↔
      (d.entries.lookup p).isSome = true ∨ d.isAbove p = true := by
    rw [get?_eq]
    split
    · rename_i hlookup
      simp [hlookup]
    · split <;> simp [*]
  rw [hfound, hlisted, isAbove_iff, places, List.exists_mem_cons_iff]
  simp only [List.mem_map, exists_exists_and_eq_and]
  constructor
  · rintro (⟨e, he, rfl⟩ | hhere | ⟨e, he, hp, -⟩)
    · exact .inr ⟨e, he, List.prefix_rfl⟩
    · exact .inl hhere
    · exact .inr ⟨e, he, hp⟩
  · rintro (hhere | ⟨e, he, hp⟩)
    · exact .inr (.inl hhere)
    · by_cases heq : p = e.1
      · exact .inl ⟨e, he, heq⟩
      · exact .inr (.inr ⟨e, he, hp, heq⟩)

theorem get?_of_isAbove (h : d.isAbove p = true) :
    ∃ rights, d.get? p = some (.directory rights) := by
  rw [get?_eq]
  split
  · exact ⟨_, rfl⟩
  · exact ⟨_, if_pos h⟩

/-- What is found somewhere is found in a directory. -/
theorem exists_directory (h : (d.get? p).isSome = true) :
    ∃ rights, d.get? p.dropLast = some (.directory rights) := by
  obtain ⟨q, hq, hpq⟩ := get?_isSome_iff.1 h
  refine get?_of_isAbove (isAbove_iff.2 ?_)
  have hbelow : p.dropLast <+: q := (List.dropLast_prefix p).trans hpq
  rcases List.mem_cons.1 hq with rfl | hq
  · exact .inl hbelow
  obtain ⟨e, he, rfl⟩ := List.mem_map.1 hq
  by_cases hroot : p = []
  · -- The root is above everything, the working directory included.
    subst hroot
    exact .inl (List.nil_prefix)
  · refine .inr ⟨e, he, hbelow, fun heq => ?_⟩
    have hlength := hpq.length_le
    rw [← heq, List.length_dropLast] at hlength
    have := List.length_pos_iff.2 hroot
    omega

theorem nameIn?_eq_some_iff : nameIn? p q = some name ↔ p ++ [name] <+: q := by
  unfold nameIn?
  constructor
  · intro h
    obtain ⟨rest, hrest, hhead⟩ := Option.bind_eq_some_iff.1 h
    obtain ⟨rest, rfl⟩ := List.head?_eq_some_iff.1 hhead
    rw [← List.isPrefixOf?_eq_some_iff_append_eq.1 hrest]
    exact ⟨rest, by simp⟩
  · rintro ⟨rest, rfl⟩
    rw [List.append_assoc, List.isPrefixOf?_eq_some_iff_append_eq.2 rfl]
    rfl

/-- The names in a directory are those under which something is found. -/
theorem mem_namesAt_iff : name ∈ d.namesAt p ↔ (d.get? (p ++ [name])).isSome = true := by
  rw [namesAt, List.mem_eraseDups, List.mem_filterMap, get?_isSome_iff]
  simp only [nameIn?_eq_some_iff]

theorem directory_eq_ok_iff {rights : Rights} :
    d.directory p = .ok rights ↔ d.get? p = some (.directory rights) := by
  unfold directory
  split <;> simp_all

/-! ## Reading -/

theorem decode_eq_ok_iff {content : ByteArray} {text : String} :
    decode content = .ok text ↔ content = text.toUTF8 := by
  unfold decode
  rw [String.fromUTF8?]
  by_cases hvalid : content.IsValidUTF8
  · rw [dif_pos hvalid, Except.ok.injEq, ← String.toByteArray_inj]
    exact Iff.rfl
  · rw [dif_neg hvalid]
    exact iff_of_false nofun fun h => hvalid (h ▸ text.isValidUTF8)

/-- A text is read from a file that the path leads to and that can be read. -/
theorem readText_eq_ok_iff {text : String} :
    d.readText path = .ok text ↔ ∃ p f, d.locate path = .ok p ∧ d.get? p = some (.file f) ∧
      f.rights.read = .ok () ∧ f.content = text.toUTF8 := by
  constructor
  · intro h
    obtain ⟨content, hread, hdecode⟩ := Statement.bind_eq_ok h
    obtain ⟨p, hp, hentry⟩ := Statement.bind_eq_ok hread
    split at hentry
    · obtain ⟨⟨⟩, hrights, hcontent⟩ := Statement.bind_eq_ok hentry
      cases hcontent
      exact ⟨p, _, hp, by assumption, hrights, decode_eq_ok_iff.1 hdecode⟩
    · obtain ⟨-, -, hfault⟩ := Statement.bind_eq_ok hentry
      cases hfault
    · cases hentry
  · rintro ⟨p, f, hp, hentry, hrights, hcontent⟩
    have hread : d.read path = .ok f.content := by
      rw [read, hp]
      simp only [bind, Except.bind, hentry, hrights]
      rfl
    rw [readText, hread]
    exact decode_eq_ok_iff.2 hcontent

/-- A directory is listed if the path leads to it and it can be read. -/
theorem names_eq_ok_iff {found : List FileName} : d.names path = .ok found ↔
    ∃ p rights, d.locate path = .ok p ∧ d.get? p = some (.directory rights) ∧
      rights.read = .ok () ∧ (d.namesAt p).mergeSort FileName.le = found := by
  constructor
  · intro h
    obtain ⟨p, hp, h⟩ := Statement.bind_eq_ok h
    obtain ⟨rights, hdirectory, h⟩ := Statement.bind_eq_ok h
    obtain ⟨⟨⟩, hread, h⟩ := Statement.bind_eq_ok h
    exact ⟨p, rights, hp, directory_eq_ok_iff.1 hdirectory, hread, Except.ok.inj h⟩
  · rintro ⟨p, rights, hp, hdirectory, hread, rfl⟩
    rw [names, hp]
    simp only [bind, Except.bind, directory_eq_ok_iff.2 hdirectory, hread]
    rfl

theorem exists_names_iff : (∃ found, d.names path = .ok found) ↔
    ∃ p rights, d.locate path = .ok p ∧ d.get? p = some (.directory rights) ∧
      rights.read = .ok () := by
  simp [names_eq_ok_iff]

/-- Names that are in order are given as they are. -/
theorem names_of_pairwise (hp : d.locate path = .ok p)
    (hread : ((d.directory p).bind Rights.read) = .ok ())
    (hsorted : (d.namesAt p).Pairwise fun a b => a.le b = true) :
    d.names path = .ok (d.namesAt p) := by
  obtain ⟨rights, hdirectory, hread⟩ := Statement.bind_eq_ok hread
  exact names_eq_ok_iff.2 ⟨p, rights, hp, directory_eq_ok_iff.1 hdirectory, hread,
    List.mergeSort_of_pairwise hsorted⟩

theorem mem_names_iff {found : List FileName} (h : d.names path = .ok found) :
    name ∈ found ↔
      ∃ p, d.locate path = .ok p ∧ (d.get? (p ++ [name])).isSome = true := by
  obtain ⟨p, rights, hp, -, -, rfl⟩ := names_eq_ok_iff.1 h
  rw [List.mem_mergeSort, mem_namesAt_iff]
  simp [hp]

/-! ## Ways -/

/-- The two disks differ by files only, which no path leads through. -/
structure SameWays (d d' : Disk) : Prop where
  here : d.here = d'.here
  get? : ∀ p e, e.isFile = false → (d.get? p = some e ↔ d'.get? p = some e)

namespace SameWays

theorem refl : d.SameWays d :=
  ⟨rfl, fun _ _ _ => Iff.rfl⟩

theorem symm (h : d.SameWays d') : d'.SameWays d :=
  ⟨h.here.symm, fun p e he => (h.get? p e he).symm⟩

theorem trans {d'' : Disk} (h : d.SameWays d') (h' : d'.SameWays d'') : d.SameWays d'' :=
  ⟨h.here.trans h'.here, fun p e he => (h.get? p e he).trans (h'.get? p e he)⟩

theorem directory {rights : Rights} (h : d.SameWays d') (hp : d.directory p = .ok rights) :
    d'.directory p = .ok rights := by
  rw [directory_eq_ok_iff] at hp ⊢
  exact (h.get? p _ rfl).1 hp

theorem step {s : Path.Step} {way : Way} (h : d.SameWays d') (hstep : d.step p s = .ok way) :
    d'.step p s = .ok way := by
  cases s with
  | into name =>
    obtain ⟨rights, hdirectory, hstep⟩ := Statement.bind_eq_ok hstep
    rw [Disk.step, h.directory hdirectory]
    obtain ⟨⟨⟩, hpass, hstep⟩ := Statement.bind_eq_ok hstep
    simp only [bind, Except.bind, hpass]
    split at hstep
    · cases hstep
    rw [if_neg (by assumption)]
    -- Neither kind of link is a file, so that the two disks have the same ones.
    have hlink (path : Path) := h.get? (p ++ [name]) (.link path) rfl
    have hsame (q : Place) := h.get? (p ++ [name]) (.same q) rfl
    split at hstep
    · rw [(hlink _).1 (by assumption)]
      exact hstep
    · rw [(hsame _).1 (by assumption)]
      exact hstep
    · rename_i hnolink hnosame
      split
      · exact absurd ((hlink _).2 (by assumption)) (hnolink _)
      · exact absurd ((hsame _).2 (by assumption)) (hnosame _)
      · exact hstep
  | _ =>
    obtain ⟨rights, hdirectory, hstep⟩ := Statement.bind_eq_ok hstep
    rw [Disk.step, h.directory hdirectory]
    exact hstep

theorem advance {follow follow' : Place → Path → List Path.Step → Except DiskFault Place}
    (h : d.SameWays d')
    (hfollow : ∀ p path rest q, follow p path rest = .ok q → follow' p path rest = .ok q)
    {steps : List Path.Step} (hp : d.advance follow p steps = .ok q) :
    d'.advance follow' p steps = .ok q := by
  induction steps generalizing p with
  | nil => exact hp
  | cons s rest ih =>
    obtain ⟨way, hstep, hp⟩ := Statement.bind_eq_ok hp
    rw [Disk.advance, h.step hstep]
    cases way with
    | place p' => exact ih hp
    | link path => exact hfollow p path rest q hp

theorem walk (h : d.SameWays d') {n : Nat} {steps : List Path.Step}
    (hp : d.walk n p steps = .ok q) : d'.walk n p steps = .ok q := by
  induction n generalizing p q steps with
  | zero => exact h.advance (fun _ _ _ _ hq => by cases hq) hp
  | succ n ih =>
    refine h.advance (fun p path rest q hq => ?_) hp
    obtain ⟨base, hbase, hq⟩ := Statement.bind_eq_ok hq
    rw [hbase]
    exact ih hq

/-- Every path leads to the same place. -/
theorem locate (h : d.SameWays d') : d.locate path = .ok p ↔ d'.locate path = .ok p := by
  have hone {d d' : Disk} (h : d.SameWays d') (hp : d.locate path = .ok p) :
      d'.locate path = .ok p := by
    obtain ⟨base, hbase, hp⟩ := Statement.bind_eq_ok hp
    rw [Disk.locate, ← h.here, hbase]
    exact h.walk hp
  exact ⟨hone h, hone h.symm⟩

/-- The same directories can be listed. -/
theorem exists_names (h : d.SameWays d') :
    (∃ found, d.names path = .ok found) ↔ ∃ found, d'.names path = .ok found := by
  have hdirectory (p : Place) (rights : Rights) := h.get? p (.directory rights) rfl
  simp only [exists_names_iff, h.locate, hdirectory]

end SameWays

/-! ## Writing -/

/-- What is written into the file at the place, or into one that is made there, can be
    read from it. -/
def Lasting (d : Disk) (p : Place) : Prop :=
  match d.get? p with
  | some (.file f) => f.Lasting
  | _ => d.fresh.read = .ok ()

theorem lasting_of_forall (hfresh : d.fresh.read = .ok ())
    (hfiles : ∀ e ∈ d.entries, ∀ f, e.2 = .file f → f.Lasting) (p : Place) : d.Lasting p := by
  rw [Lasting]
  split
  · rename_i f hentry
    rcases mem_of_get? hentry with ⟨rights, hdirectory⟩ | hmem
    · cases hdirectory
    · exact hfiles _ hmem f rfl
  · exact hfresh

/-- The disk is left with this file at the place, where there was a file or nothing, and
    is otherwise the same. -/
structure Written (d : Disk) (p : Place) (f : File) (d' : Disk) : Prop where
  here : d.here = d'.here
  fresh : d.fresh = d'.fresh
  free : ∀ e, d.get? p = some e → e.isFile = true
  get? : ∀ q, d'.get? q = if q = p then some (.file f) else d.get? q
  lasting : d.Lasting p → f.Lasting

theorem lookup_filter_ne (h : q ≠ p) (es : List (Place × Entry)) :
    (es.filter fun e => e.1 ≠ p).lookup q = es.lookup q := by
  induction es with
  | nil => rfl
  | cons e es ih =>
    obtain ⟨place, found⟩ := e
    by_cases hplace : place = p
    · subst hplace
      simp only [List.filter_cons, ne_eq, not_true_eq_false, decide_false, Bool.false_eq_true,
        if_false, List.lookup_cons, beq_eq_false_iff_ne.2 h, ih]
    · simp only [List.filter_cons, ne_eq, hplace, not_false_eq_true, decide_true, if_true,
        List.lookup_cons, ih]

theorem isAbove_set_iff :
    (d.set p f).isAbove q = true ↔ d.isAbove q = true ∨ q <+: p ∧ q ≠ p := by
  simp only [isAbove_iff, set, List.exists_mem_cons_iff, List.mem_filter, decide_eq_true_eq]
  constructor
  · rintro (hhere | hp | ⟨e, ⟨he, -⟩, hq⟩)
    · exact .inl (.inl hhere)
    · exact .inr hp
    · exact .inl (.inr ⟨e, he, hq⟩)
  · rintro ((hhere | ⟨e, he, hq⟩) | hp)
    · exact .inl hhere
    · by_cases heq : e.1 = p
      · exact .inr (.inl (heq ▸ hq))
      · exact .inr (.inr ⟨e, ⟨he, heq⟩, hq⟩)
    · exact .inr (.inl hp)

theorem prefix_dropLast (h : q <+: p) (hne : q ≠ p) : q <+: p.dropLast := by
  rcases List.eq_nil_or_concat p with rfl | ⟨front, last, rfl⟩
  · exact absurd (List.prefix_nil.1 h) hne
  · rw [List.concat_eq_append] at h hne ⊢
    rw [List.dropLast_concat]
    exact (List.prefix_concat_iff.1 h).resolve_left hne

/-- On the way to a directory every place is above something, unless a directory is
    listed there. -/
theorem isAbove_of_directory {rights : Rights} (h : d.get? p = some (.directory rights))
    (hq : q <+: p) (hlisted : ∀ rights, d.entries.lookup q ≠ some (.directory rights)) :
    d.isAbove q = true := by
  by_cases heq : q = p
  · subst heq
    rw [get?_eq] at h
    split at h
    · exact absurd (by assumption) (hlisted _)
    · by_contra hnone
      rw [if_neg hnone] at h
      exact hlisted _ h
  · obtain ⟨r, hr, hpr⟩ := get?_isSome_iff.1 (Option.isSome_of_eq_some h)
    refine isAbove_iff.2 ?_
    rcases List.mem_cons.1 hr with rfl | hr
    · exact .inl (hq.trans hpr)
    · obtain ⟨e, he, rfl⟩ := List.mem_map.1 hr
      refine .inr ⟨e, he, hq.trans hpr, fun hqe => heq ?_⟩
      exact hq.eq_of_length_le (hqe ▸ hpr.length_le)

/-- To put a file where there is one, or into a directory, changes nothing else. -/
theorem get?_set (hfree : ∀ e, d.get? p = some e → e.isFile = true) {rights : Rights}
    (hdirectory : d.get? p.dropLast = some (.directory rights)) (f : File) (q : Place) :
    (d.set p f).get? q = if q = p then some (.file f) else d.get? q := by
  by_cases hq : q = p
  · subst hq
    have hnone : ¬ (d.set q f).isAbove q = true := by
      rw [isAbove_set_iff]
      rintro (habove | ⟨-, hne⟩)
      · obtain ⟨rights, hentry⟩ := get?_of_isAbove habove
        exact absurd (hfree _ hentry) nofun
      · exact hne rfl
    have hlookup : (d.set q f).entries.lookup q = some (.file f) := by simp [set]
    rw [get?_eq, hlookup, if_pos rfl]
    exact if_neg hnone
  · have hlookup : (d.set p f).entries.lookup q = d.entries.lookup q := by
      rw [set, List.lookup_cons, beq_eq_false_iff_ne.2 hq]
      exact lookup_filter_ne hq _
    rw [get?_eq, hlookup, get?_eq, if_neg hq]
    split
    · rfl
    · rename_i hlisted
      have habove : (d.set p f).isAbove q = d.isAbove q := by
        rw [Bool.eq_iff_iff, isAbove_set_iff]
        refine ⟨fun h => h.elim id fun hp => ?_, .inl⟩
        exact isAbove_of_directory hdirectory (prefix_dropLast hp.1 hp.2) hlisted
      rw [habove]

theorem written_set (hfree : ∀ e, d.get? p = some e → e.isFile = true) {rights : Rights}
    (hdirectory : d.get? p.dropLast = some (.directory rights))
    (hlasting : d.Lasting p → f.Lasting) : d.Written p f (d.set p f) :=
  ⟨rfl, rfl, hfree, get?_set hfree hdirectory f, hlasting⟩

/-- What becomes of a disk when a file is written. -/
theorem of_write_eq_ok {content : ByteArray} (h : d.write path content = .ok d') :
    ∃ p f, d.locate path = .ok p ∧ d.Written p f d' ∧ (d.Lasting p → f.content = content) := by
  obtain ⟨p, hp, h⟩ := Statement.bind_eq_ok h
  split at h
  · rename_i f hentry
    obtain ⟨-, -, h⟩ := Statement.bind_eq_ok h
    have hlasting : d.Lasting p ↔ f.Lasting := by rw [Lasting, hentry]
    obtain ⟨rights, hdirectory⟩ := exists_directory (Option.isSome_of_eq_some hentry)
    refine ⟨p, f.put content, hp, Except.ok.inj h ▸ written_set ?_ hdirectory ?_, fun hlast => ?_⟩
    · exact fun e he => Entry.isFile_iff.2 ⟨f, Option.some.inj (he.symm.trans hentry)⟩
    · exact fun hlast => ⟨(hlasting.1 hlast).read, (hlasting.1 hlast).keeps⟩
    · rw [File.put, (hlasting.1 hlast).keeps]
      rfl
  · cases h
  · rename_i hentry
    obtain ⟨rights, hdirectory, h⟩ := Statement.bind_eq_ok h
    obtain ⟨-, -, h⟩ := Statement.bind_eq_ok h
    rw [directory_eq_ok_iff] at hdirectory
    refine ⟨p, _, hp, Except.ok.inj h ▸ written_set ?_ hdirectory ?_, fun _ => rfl⟩
    · exact fun e he => absurd (he.symm.trans hentry) nofun
    · intro hlast
      rw [Lasting, hentry] at hlast
      exact ⟨hlast, rfl⟩

namespace Written

variable (h : d.Written p f d')
include h

/-- No path leads elsewhere. -/
theorem sameWays : d.SameWays d' := by
  refine ⟨h.here, fun q e he => ?_⟩
  rw [h.get? q]
  split
  · subst q
    refine iff_of_false (fun hp => ?_) fun hp => ?_
    · rw [h.free e hp] at he
      cases he
    · rw [← Option.some.inj hp] at he
      cases he
  · exact Iff.rfl

theorem lasting_of (hq : d.Lasting q) : d'.Lasting q := by
  rw [Lasting, h.get? q, ← h.fresh]
  split
  · rename_i g hg
    split at hg
    · subst q
      cases hg
      exact h.lasting hq
    · rwa [Lasting, hg] at hq
  · rename_i hnofile
    split at hnofile
    · exact absurd rfl (hnofile f)
    · rw [Lasting] at hq
      split at hq
      · rename_i g hg
        exact absurd hg (hnofile g)
      · exact hq

theorem get?_isSome (hq : (d.get? q).isSome = true) : (d'.get? q).isSome = true := by
  rw [h.get? q]
  split
  · rfl
  · exact hq

/-- A path that leads elsewhere is read as before. -/
theorem readText_of_ne (hne : d.locate path ≠ .ok p) {text : String} :
    d'.readText path = .ok text ↔ d.readText path = .ok text := by
  simp only [readText_eq_ok_iff, ← h.sameWays.locate]
  refine exists_congr fun q => exists_congr fun g => and_congr_right fun hq => ?_
  rw [h.get? q, if_neg]
  rintro rfl
  exact hne hq

/-- A path that leads to the file gives its content. -/
theorem readText (hp : d.locate path = .ok p) {text : String} (hf : f.Lasting)
    (hcontent : f.content = text.toUTF8) : d'.readText path = .ok text :=
  readText_eq_ok_iff.2 ⟨p, f, h.sameWays.locate.1 hp, by rw [h.get? p, if_pos rfl], hf.read,
    hcontent⟩

end Written

end Disk

end Kode
