/-!
# Keywords

The reserved words, which give statements their shape. They may be written in
any mixture of upper and lower case.
-/

namespace Kode

/-- A reserved word. -/
inductive Keyword
  | IF | THEN | ELSE | END | WHILE | DO | SET | TO | SHOW | INPUT
deriving DecidableEq, Repr

namespace Keyword

/-- All reserved words. -/
def all : List Keyword :=
  [IF, THEN, ELSE, END, WHILE, DO, SET, TO, SHOW, INPUT]

/-- The word itself, in upper case. -/
def word : Keyword → String
  | IF => "IF"
  | THEN => "THEN"
  | ELSE => "ELSE"
  | END => "END"
  | WHILE => "WHILE"
  | DO => "DO"
  | SET => "SET"
  | TO => "TO"
  | SHOW => "SHOW"
  | INPUT => "INPUT"

/-- The keyword that is spelled so, in any case. -/
def ofWord? (w : String) : Option Keyword :=
  all.find? fun k => k.word == w.toUpper

/-- A keyword is spelled by its own word. -/
@[simp] theorem ofWord?_word (k : Keyword) : ofWord? k.word = some k := by
  cases k <;> decide +kernel

end Keyword

end Kode
