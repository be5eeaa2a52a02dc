/-!
# Digits

Runs of the digits from `0` to `9` and the numbers they denote. Digits of
other scripts are not digits here.

* `valueFrom_append`: a run is read on from where it was read to.
-/

namespace Kode.Text

/-- Whether the characters are one digit or more, and nothing else. -/
def isDigits (cs : List Char) : Bool :=
  !cs.isEmpty && cs.all Char.isDigit

/-- The number that a digit stands for. -/
def digitValue (c : Char) : Nat :=
  c.toNat - 48

/-- The number that a run of digits denotes, after `n` has been read. -/
def valueFrom (n : Nat) (cs : List Char) : Nat :=
  cs.foldl (fun n c => 10 * n + digitValue c) n

/-- The number that a run of digits denotes. -/
def value (cs : List Char) : Nat :=
  valueFrom 0 cs

/-- The characters without a minus sign in front, and whether there was one. -/
def splitSign : List Char → Bool × List Char
  | '-' :: cs => (true, cs)
  | cs => (false, cs)

@[simp] theorem valueFrom_nil (n : Nat) : valueFrom n [] = n := rfl

@[simp] theorem valueFrom_cons (n : Nat) (c : Char) (cs : List Char) :
    valueFrom n (c :: cs) = valueFrom (10 * n + digitValue c) cs :=
  List.foldl_cons ..

theorem valueFrom_append (n : Nat) (cs ds : List Char) :
    valueFrom n (cs ++ ds) = valueFrom (valueFrom n cs) ds :=
  List.foldl_append

end Kode.Text
