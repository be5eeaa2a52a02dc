import Kode.Proofs.Scoping
import Mathlib.Data.List.Nodup
import Mathlib.Logic.Function.Basic

/-!
# Scopes as stacks of dictionaries

The plain picture of nested blocks is a stack of dictionaries, one for every
block (`Dictionaries`). A scope keeps one list of values for all blocks instead,
and beside it the names that every block has bound. The two cannot be told apart
by what is asked of them (`Scope.refines_dictionaries`).

The dictionary of a block is the list of values, restricted to the names of its
frame (`Scope.dictionary`). That this picture is right rests on what the two
halves of a scope have to do with each other (`Scope.Recorded`): every name that
has a value stands in one frame, once, and every name in a frame has a value.

* `Scope.Recorded.reached`: so it is after any requests;
* `Scope.dictionaries_push`, `Scope.dictionaries_pop`, `Scope.dictionaries_put`:
  and then every operation on a scope is the one on its dictionaries.
-/

namespace Kode

/-- The values of the names that are bound in a block. -/
abbrev Dictionary := String → Option Located

namespace Dictionary

/-- Whether the name is bound. -/
def binds (d : Dictionary) (name : String) : Bool :=
  (d name).isSome

/-- The dictionary in which the name has this value. -/
def bind (d : Dictionary) (name : String) (value : Located) : Dictionary :=
  Function.update d name (some value)

/-- Binds the name again in the first of the dictionaries that binds it. -/
def rebind (name : String) (value : Located) : List Dictionary → List Dictionary
  | [] => []
  | d :: ds => if d.binds name then d.bind name value :: ds else d :: rebind name value ds

end Dictionary

/-- The dictionaries of the blocks that are being executed. -/
structure Dictionaries where
  /-- That of the innermost block, or of the program if no block is open. -/
  top : Dictionary
  /-- Those of the blocks around it, from the inside out. -/
  below : List Dictionary

namespace Dictionaries

/-- No names, and no block open. -/
def empty : Dictionaries := ⟨fun _ => none, []⟩

/-- The number of dictionaries. -/
def depth (s : Dictionaries) : Nat :=
  s.below.length + 1

/-- The value of the name in the innermost dictionary that binds it. -/
def get? (s : Dictionaries) (name : String) : Option Located :=
  (s.top :: s.below).findSome? fun d => d name

/-- Opens a block. -/
def push (s : Dictionaries) : Dictionaries :=
  ⟨fun _ => none, s.top :: s.below⟩

/-- Drops the top dictionary, unless it is the only one. -/
def pop (s : Dictionaries) : Dictionaries :=
  match s.below with
  | [] => s
  | d :: ds => ⟨d, ds⟩

/-- Binds the name where it is bound already, or else in the top dictionary. -/
def put (s : Dictionaries) (name : String) (value : Located) : Dictionaries :=
  if !s.top.binds name && s.below.any fun d => d.binds name then
    { s with below := Dictionary.rebind name value s.below }
  else { s with top := s.top.bind name value }

/-- The value of a name that is used at this place. -/
def resolve (s : Dictionaries) (name : String) (site : Span) : Except RuntimeError Located :=
  match s.get? name with
  | some l => .ok l
  | none => .error (.single (.undefinedVariable name) site)

end Dictionaries

/-! ## Requests -/

/-- What can be asked of the variables of a program. -/
inductive Request
  | push
  | pop
  | put (name : String) (value : Located)
  /-- The value of a name that is used at this place. -/
  | get (name : String) (site : Span)
  | contains (name : String)
  | depth

/-- What is answered. -/
inductive Reply
  | done
  | found (result : Except RuntimeError Located)
  | contained (bound : Bool)
  | depth (frames : Nat)

/-- A way to keep the variables of a program. -/
structure Bindings (σ : Type) where
  push : σ → σ
  pop : σ → σ
  put : σ → String → Located → σ
  resolve : σ → String → Span → Except RuntimeError Located
  contains : σ → String → Bool
  depth : σ → Nat

namespace Bindings

variable {σ : Type} (B : Bindings σ)

/-- The variables after a request. -/
def serve (s : σ) : Request → σ
  | .push => B.push s
  | .pop => B.pop s
  | .put name value => B.put s name value
  | .get .. | .contains _ | .depth => s

/-- The answer to a request. -/
def reply (s : σ) : Request → Reply
  | .push | .pop | .put .. => .done
  | .get name site => .found (B.resolve s name site)
  | .contains name => .contained (B.contains s name)
  | .depth => .depth (B.depth s)

/-- The variables after the requests. -/
def reached (s : σ) (rs : List Request) : σ :=
  rs.foldl B.serve s

/-- The answers to the requests, one after the other. -/
def replies (s : σ) : List Request → List Reply
  | [] => []
  | r :: rs => B.reply s r :: replies (B.serve s r) rs

end Bindings

/-- Variables in a scope. -/
def Scope.bindings : Bindings Scope :=
  ⟨push, pop, put, resolve, contains, depth⟩

/-- Variables in a stack of dictionaries. -/
def Dictionaries.bindings : Bindings Dictionaries :=
  ⟨push, pop, put, resolve, fun s name => (s.get? name).isSome, depth⟩

/-! ## What the frames record -/

namespace Scope

/-- The frames, from the inside out. -/
def frames (s : Scope) : List (List String) :=
  s.inner :: s.outer

/-- The names in the frames are the names with values, each of them once. -/
structure Recorded (s : Scope) : Prop where
  nodup : s.frames.flatten.Nodup
  mem_iff : ∀ name, name ∈ s.frames.flatten ↔ s.contains name = true

theorem recorded_empty : Recorded empty :=
  ⟨by simp [frames, empty], by simp [frames, empty, contains, get?]⟩

/-- A name of the innermost frame stands in no other. -/
theorem Recorded.not_mem_outer {s : Scope} (h : s.Recorded) {name : String}
    (hn : name ∈ s.inner) : name ∉ s.outer.flatten :=
  fun ho => (List.nodup_append.1 h.nodup).2.2 name hn name ho rfl

theorem Recorded.push {s : Scope} (h : s.Recorded) : s.push.Recorded :=
  ⟨h.nodup, h.mem_iff⟩

/-- What stands in the frame that is dropped stands in no other. -/
theorem Recorded.pop {s : Scope} (h : s.Recorded) : s.pop.Recorded := by
  obtain ⟨values, inner, outer⟩ := s
  cases outer with
  | nil => exact h
  | cons frame frames =>
    refine ⟨(List.nodup_append.1 h.nodup).2.1, fun name => ?_⟩
    rw [contains_pop (by simp), Bool.and_eq_true, ← h.mem_iff]
    have hmem : name ∈ inner ++ (frame :: frames).flatten ↔
        name ∈ inner ∨ name ∈ (frame :: frames).flatten := List.mem_append
    constructor
    · intro hn
      have hinner : name ∉ inner := fun hi => h.not_mem_outer hi hn
      exact ⟨hmem.2 (.inr hn), by simpa using hinner⟩
    · rintro ⟨hn, hinner⟩
      exact (hmem.1 hn).resolve_left (by simpa using hinner)

theorem inner_put (s : Scope) (name : String) (value : Located) :
    (s.put name value).inner = if s.contains name then s.inner else name :: s.inner := by
  rw [put]
  split <;> rfl

theorem outer_put (s : Scope) (name : String) (value : Located) :
    (s.put name value).outer = s.outer := by
  rw [put]
  split <;> rfl

/-- A name that is bound again keeps its record, and a new one gets its first. -/
theorem Recorded.put {s : Scope} (h : s.Recorded) (name : String) (value : Located) :
    (s.put name value).Recorded := by
  cases hc : s.contains name with
  | true =>
    have hframes : (s.put name value).frames = s.frames := by
      rw [frames, inner_put, outer_put, if_pos hc, frames]
    refine ⟨hframes ▸ h.nodup, fun other => ?_⟩
    rw [hframes, h.mem_iff, contains_put]
    by_cases ho : other = name <;> simp [ho, hc]
  | false =>
    have hnew : name ∉ s.frames.flatten := by simp [h.mem_iff, hc]
    have hframes : (s.put name value).frames.flatten = name :: s.frames.flatten := by
      rw [frames, inner_put, outer_put, if_neg (by simp [hc]), frames]
      rfl
    refine ⟨hframes ▸ List.nodup_cons.2 ⟨hnew, h.nodup⟩, fun other => ?_⟩
    rw [hframes, List.mem_cons, h.mem_iff, contains_put]
    simp

theorem Recorded.serve {s : Scope} (h : s.Recorded) (r : Request) :
    (bindings.serve s r).Recorded := by
  cases r with
  | push => exact h.push
  | pop => exact h.pop
  | put name value => exact h.put name value
  | get | contains | depth => exact h

/-- The names in the frames are the names with values, whatever was asked. -/
theorem Recorded.reached {s : Scope} (h : s.Recorded) (rs : List Request) :
    (bindings.reached s rs).Recorded := by
  induction rs generalizing s with
  | nil => exact h
  | cons r rs ih => exact ih (h.serve r)

/-- A name that has a value stands in one frame, once. -/
theorem Recorded.exists_frame {s : Scope} (h : s.Recorded) {name : String}
    (hn : s.contains name = true) :
    ∃ inside frame outside, s.frames = inside ++ frame :: outside ∧ frame.count name = 1 ∧
      ∀ other ∈ inside ++ outside, name ∉ other := by
  obtain ⟨frame, hframe, hname⟩ := List.mem_flatten.1 ((h.mem_iff name).2 hn)
  obtain ⟨inside, outside, hframes⟩ := List.append_of_mem hframe
  refine ⟨inside, frame, outside, hframes, ?_⟩
  -- All frames together have the name once, and this one has it.
  have hcount := List.count_eq_one_of_mem h.nodup ((h.mem_iff name).2 hn)
  rw [hframes, List.flatten_append, List.flatten_cons, List.count_append, List.count_append]
    at hcount
  have hpos := List.count_pos_iff.2 hname
  refine ⟨by omega, fun other hother hn => ?_⟩
  have hrest : 0 < (inside ++ outside).flatten.count name :=
    List.count_pos_iff.2 (List.mem_flatten.2 ⟨other, hother, hn⟩)
  rw [List.flatten_append, List.count_append] at hrest
  omega

/-! ## The dictionaries of a scope -/

/-- The values of the names of a frame. -/
def dictionary (s : Scope) (frame : List String) : Dictionary :=
  fun name => if name ∈ frame then s.get? name else none

/-- The dictionaries that the scope stands for. -/
def dictionaries (s : Scope) : Dictionaries :=
  ⟨s.dictionary s.inner, s.outer.map s.dictionary⟩

theorem findSome?_dictionary (s : Scope) (name : String) (frames : List (List String)) :
    (frames.map s.dictionary).findSome? (fun d => d name) =
      if name ∈ frames.flatten then s.get? name else none := by
  induction frames with
  | nil => rfl
  | cons frame frames ih =>
    rw [List.map_cons, List.findSome?_cons, ih, dictionary]
    by_cases hf : name ∈ frame
    · cases s.get? name <;> simp [hf]
    · simp [hf]

/-- The dictionaries have the values of the scope. -/
theorem Recorded.get?_dictionaries {s : Scope} (h : s.Recorded) (name : String) :
    s.dictionaries.get? name = s.get? name := by
  refine (findSome?_dictionary s name s.frames).trans ?_
  split
  · rfl
  · rename_i hn
    rw [h.mem_iff, contains, Bool.not_eq_true, Option.isSome_eq_false_iff,
      Option.isNone_iff_eq_none] at hn
    exact hn.symm

theorem Recorded.binds_dictionary {s : Scope} (h : s.Recorded) {frame : List String}
    (hframe : frame ∈ s.frames) (name : String) :
    (s.dictionary frame).binds name = decide (name ∈ frame) := by
  rw [Dictionary.binds, dictionary]
  by_cases hn : name ∈ frame
  · have hbound := (h.mem_iff name).1 (List.mem_flatten.2 ⟨frame, hframe, hn⟩)
    rw [contains] at hbound
    simpa [hn] using hbound
  · simp [hn]

theorem dictionaries_push (s : Scope) : s.push.dictionaries = s.dictionaries.push := by
  have hempty : s.push.dictionary [] = fun _ => none := by
    funext name
    simp [dictionary]
  exact congrArg (fun top => Dictionaries.mk top (s.frames.map s.dictionary)) hempty

/-- The names that are kept have the values they had. -/
theorem Recorded.dictionaries_pop {s : Scope} (h : s.Recorded) :
    s.pop.dictionaries = s.dictionaries.pop := by
  obtain ⟨values, inner, outer⟩ := s
  cases outer with
  | nil => rfl
  | cons frame frames =>
    have hkept : ∀ f ∈ frame :: frames,
        (Scope.mk values inner (frame :: frames)).pop.dictionary f =
          (Scope.mk values inner (frame :: frames)).dictionary f := by
      intro f hf
      funext name
      rw [dictionary, dictionary]
      split
      · rename_i hn
        have hinner : name ∉ inner := fun hi =>
          h.not_mem_outer hi (List.mem_flatten.2 ⟨f, hf, hn⟩)
        rw [Scope.pop, get?, lookup_filter fun n => decide (n ∉ inner)]
        simp [hinner, get?]
      · rfl
    have hmap := List.map_congr_left hkept
    rw [List.map_cons, List.map_cons] at hmap
    exact congrArg₂ Dictionaries.mk (List.cons.inj hmap).1 (List.cons.inj hmap).2

theorem dictionary_put_of_not_mem (s : Scope) {name : String} (value : Located)
    {frame : List String} (hn : name ∉ frame) :
    (s.put name value).dictionary frame = s.dictionary frame := by
  funext other
  rw [dictionary, dictionary]
  split
  · rename_i ho
    exact s.get?_put_of_ne value (ne_of_mem_of_not_mem ho hn)
  · rfl

theorem dictionary_put_of_mem (s : Scope) {name : String} (value : Located)
    {frame : List String} (hn : name ∈ frame) :
    (s.put name value).dictionary frame = (s.dictionary frame).bind name value := by
  funext other
  rw [Dictionary.bind, Function.update_apply, dictionary, dictionary, get?_put]
  by_cases ho : other = name <;> simp [ho, hn]

theorem dictionary_put_cons (s : Scope) (name : String) (value : Located) (frame : List String) :
    (s.put name value).dictionary (name :: frame) = (s.dictionary frame).bind name value := by
  funext other
  rw [Dictionary.bind, Function.update_apply, dictionary, dictionary, get?_put]
  by_cases ho : other = name <;> simp [ho]

/-- A name that is bound changes no dictionary of frames that do not have it. -/
theorem map_dictionary_put (s : Scope) {name : String} (value : Located)
    {frames : List (List String)} (hn : name ∉ frames.flatten) :
    frames.map (s.put name value).dictionary = frames.map s.dictionary :=
  List.map_congr_left fun frame hframe => s.dictionary_put_of_not_mem value fun hname =>
    hn (List.mem_flatten.2 ⟨frame, hframe, hname⟩)

/-- Of frames that have no name twice, only one has the dictionary in which the
    name is bound again. -/
theorem Recorded.rebind_dictionary {s : Scope} (h : s.Recorded) (name : String) (value : Located)
    {frames : List (List String)} (hframes : frames <:+ s.frames) :
    Dictionary.rebind name value (frames.map s.dictionary) =
      frames.map (s.put name value).dictionary := by
  induction frames with
  | nil => rfl
  | cons frame frames ih =>
    have hnodup : (frame :: frames).flatten.Nodup := by
      obtain ⟨front, hfront⟩ := hframes
      have := h.nodup
      rw [← hfront, List.flatten_append] at this
      exact (List.nodup_append.1 this).2.1
    rw [List.map_cons, List.map_cons, Dictionary.rebind,
      h.binds_dictionary (hframes.subset List.mem_cons_self)]
    by_cases hn : name ∈ frame
    · have hrest : name ∉ frames.flatten := fun hn' =>
        (List.nodup_append.1 hnodup).2.2 name hn name hn' rfl
      rw [if_pos (by simpa using hn), s.dictionary_put_of_mem value hn,
        s.map_dictionary_put value hrest]
    · rw [if_neg (by simpa using hn), s.dictionary_put_of_not_mem value hn,
        ih ((List.suffix_cons frame frames).trans hframes)]

/-- To bind a name is to bind it in the dictionaries. -/
theorem Recorded.dictionaries_put {s : Scope} (h : s.Recorded) (name : String) (value : Located) :
    (s.put name value).dictionaries = s.dictionaries.put name value := by
  have htop : s.dictionaries.top.binds name = decide (name ∈ s.inner) :=
    h.binds_dictionary List.mem_cons_self name
  have hbelow : (s.dictionaries.below.any fun d => d.binds name) =
      decide (name ∈ s.outer.flatten) := by
    rw [Bool.eq_iff_iff, dictionaries, List.any_map, List.any_eq_true, decide_eq_true_eq,
      List.mem_flatten]
    refine exists_congr fun frame => and_congr_right fun hframe => ?_
    rw [Function.comp_apply, h.binds_dictionary (List.mem_cons_of_mem _ hframe),
      decide_eq_true_eq]
  have hmem : s.contains name = true ↔ name ∈ s.inner ∨ name ∈ s.outer.flatten := by
    rw [← h.mem_iff, frames, List.flatten_cons, List.mem_append]
  rw [Dictionaries.put, htop, hbelow, dictionaries, inner_put, outer_put]
  by_cases hi : name ∈ s.inner
  · have hrest := s.map_dictionary_put value (h.not_mem_outer hi)
    simp [hmem.2 (.inl hi), hi, s.dictionary_put_of_mem value hi, hrest, dictionaries]
  · by_cases ho : name ∈ s.outer.flatten
    · have hrest := h.rebind_dictionary name value (List.suffix_cons s.inner s.outer)
      simp [hmem.2 (.inr ho), hi, ho, s.dictionary_put_of_not_mem value hi, dictionaries, hrest]
    · -- The name is new, and gets its record in the innermost frame.
      have hc : s.contains name = false := by
        rw [← Bool.not_eq_true, hmem]
        exact not_or.2 ⟨hi, ho⟩
      have hrest := s.map_dictionary_put value ho
      simp [hc, hi, ho, dictionary_put_cons, hrest, dictionaries]

theorem depth_dictionaries (s : Scope) : s.dictionaries.depth = s.depth := by
  simp [Dictionaries.depth, dictionaries, depth]

theorem Recorded.resolve_dictionaries {s : Scope} (h : s.Recorded) (name : String) (site : Span) :
    s.dictionaries.resolve name site = s.resolve name site := by
  rw [Dictionaries.resolve, h.get?_dictionaries]
  rfl

/-! ## Requests to a scope and to its dictionaries -/

theorem Recorded.serve_dictionaries {s : Scope} (h : s.Recorded) (r : Request) :
    (bindings.serve s r).dictionaries = Dictionaries.bindings.serve s.dictionaries r := by
  cases r with
  | push => exact s.dictionaries_push
  | pop => exact h.dictionaries_pop
  | put name value => exact h.dictionaries_put name value
  | get | contains | depth => rfl

theorem Recorded.reply_dictionaries {s : Scope} (h : s.Recorded) (r : Request) :
    Dictionaries.bindings.reply s.dictionaries r = bindings.reply s r := by
  cases r with
  | push | pop | put => rfl
  | get name site => exact congrArg Reply.found (h.resolve_dictionaries name site)
  | contains name =>
    exact congrArg (fun l => Reply.contained (Option.isSome l)) (h.get?_dictionaries name)
  | depth => exact congrArg Reply.depth s.depth_dictionaries

/-- Whatever is asked of a scope is answered as its dictionaries answer it. -/
theorem Recorded.replies_dictionaries {s : Scope} (h : s.Recorded) (rs : List Request) :
    Dictionaries.bindings.replies s.dictionaries rs = bindings.replies s rs := by
  induction rs generalizing s with
  | nil => rfl
  | cons r rs ih =>
    rw [Bindings.replies, Bindings.replies, h.reply_dictionaries, ← h.serve_dictionaries,
      ih (h.serve r)]

theorem dictionaries_empty : empty.dictionaries = .empty := by
  refine congrArg (fun top => Dictionaries.mk top []) ?_
  funext name
  simp [dictionary, empty]

/-- From the start, no requests tell a scope from a stack of dictionaries. And
    whatever was asked, every name that has a value stands in one frame, once,
    and every name in a frame has a value. -/
theorem refines_dictionaries (rs : List Request) :
    bindings.replies .empty rs = Dictionaries.bindings.replies .empty rs ∧
    (∀ name, (bindings.reached .empty rs).contains name = true →
      ∃ inside frame outside, (bindings.reached .empty rs).frames = inside ++ frame :: outside ∧
        frame.count name = 1 ∧ ∀ other ∈ inside ++ outside, name ∉ other) ∧
    ∀ frame ∈ (bindings.reached .empty rs).frames, ∀ name ∈ frame,
      (bindings.reached .empty rs).contains name = true := by
  have hreached := recorded_empty.reached rs
  refine ⟨?_, fun name => hreached.exists_frame, fun frame hframe name hname => ?_⟩
  · rw [← dictionaries_empty, recorded_empty.replies_dictionaries]
  · exact (hreached.mem_iff name).1 (List.mem_flatten.2 ⟨frame, hframe, hname⟩)

end Scope

end Kode
