import Kode.Lexeme
import Kode.ParseError
import Kode.Value.Literal

/-!
# From lexemes to tokens

Every lexeme that is not blank begins a token, and some tokens take in the
lexemes after it: a quoted text everything up to the next quote of its kind, a
number its sign and its fraction, an operator of two words the blank and the
second word.

What a lexeme begins is settled by the first rule that applies: a literal,
punctuation, an operator, a keyword, a name. Literals come first, so that a
minus directly before digits is a sign; operators come before keywords, so
that the `TO` of `EQUAL TO` is none.

A lexeme that begins none of these ends the work with an error, and so do a
quote without a second one and a number out of range.
-/

namespace Kode

namespace Lexeme

/-- Whether the text of the lexeme is a run of digits. -/
def isDigits (l : Lexeme) : Bool :=
  Text.isDigits l.text.toList

/-- Whether the lexeme is a quote. -/
def isQuote (l : Lexeme) : Bool :=
  l.text = "\"" || l.text = "'"

/-- Whether the lexeme is a minus. -/
def isMinus (l : Lexeme) : Bool :=
  l.text = "-"

/-- Whether the lexeme is a period. -/
def isPeriod (l : Lexeme) : Bool :=
  l.text = "."

/-- Whether the text is a name: a letter or an underscore, and then letters,
    digits and underscores, all of ASCII. -/
def isName (l : Lexeme) : Bool :=
  match l.text.toList with
  | [] => false
  | c :: cs => (c.isAlpha || c = '_') && cs.all fun d => d.isAlphanum || d = '_'

/-- The number of lexemes after the digits of a number that are its fraction:
    a period and digits, without a gap. -/
def fractionLength : List Lexeme → Nat
  | point :: digits :: _ => if point.isPeriod && digits.isDigits then 2 else 0
  | _ => 0

/-- How far a literal reaches that may begin with some lexeme. -/
inductive Extent
  /-- No literal begins there. -/
  | absent
  /-- A quoted text begins there and does not end. -/
  | unterminated
  /-- So many lexemes after the first one belong to the literal. -/
  | further (n : Nat)
deriving DecidableEq, Repr

/-- How far the literal reaches that may begin with the lexeme `l`. -/
def literalExtent (l : Lexeme) (rest : List Lexeme) : Extent :=
  if l.isQuote then
    match rest.findIdx? fun r => r.text = l.text with
    | some n => .further (n + 1)
    | none => .unterminated
  else if l.isDigits then .further (fractionLength rest)
  else if l.isMinus then
    match rest with
    | digits :: more => if digits.isDigits then .further (1 + fractionLength more) else .absent
    | [] => .absent
  else if (Value.ofWord? l.text).isSome then .further 0
  else .absent

/-- The operator that begins with the lexeme `l`, and the number of further
    lexemes that belong to it. -/
def operator? (l : Lexeme) (rest : List Lexeme) : Option (Operator × Nat) :=
  let phrase? : Option Operator := match rest with
    | gap :: second :: _ =>
      if gap.isBlank then Operator.ofPhrase? l.text second.text else none
    | _ => none
  match phrase? with
  | some op => some (op, 2)
  | none => (Operator.ofWord? l.text).map fun op => (op, 0)

/-- The text that the lexemes make up together. -/
def join (ls : List Lexeme) : String :=
  String.join (ls.map Lexeme.text)

/-- The span of the lexeme `l` and those that belong to it. -/
def cover (source : Source) (l : Lexeme) (taken : List Lexeme) : Span :=
  .located source l.start (l.start + (join (l :: taken)).utf8ByteSize) (Nat.le_add_right _ _)

/-- The token of the given kind that the lexeme `l` and those that belong to
    it make up. -/
def token (source : Source) (kind : TokenKind) (l : Lexeme) (taken : List Lexeme) : Token :=
  ⟨kind, join (l :: taken), cover source l taken⟩

/-- The token that begins with the lexeme `l`, and the number of further
    lexemes that belong to it. -/
def recognise (source : Source) (l : Lexeme) (rest : List Lexeme) :
    Except ParseError (Token × Nat) :=
  match literalExtent l rest with
  | .unterminated => .error ⟨.unterminatedString, cover source l []⟩
  | .further n =>
    match Value.ofLiteral? (join (l :: rest.take n)) with
    | some v => .ok (token source (.literal v) l (rest.take n), n)
    | none => .error ⟨.invalidLiteral, cover source l (rest.take n)⟩
  | .absent =>
    match Punctuation.ofText? l.text with
    | some mark => .ok (token source (.punctuation mark) l [], 0)
    | none =>
      match operator? l rest with
      | some (op, n) => .ok (token source (.operator op) l (rest.take n), n)
      | none =>
        match Keyword.ofWord? l.text with
        | some word => .ok (token source (.keyword word) l [], 0)
        | none =>
          if l.isName then .ok (token source .identifier l [], 0)
          else .error ⟨.unrecognizedToken, cover source l []⟩

/-- The tokens that the lexemes make up. -/
def tokens (source : Source) : List Lexeme → Except ParseError (List Token)
  | [] => .ok []
  | l :: rest =>
    if l.isBlank then tokens source rest
    else
      match recognise source l rest with
      | .error e => .error e
      | .ok (t, n) => (tokens source (rest.drop n)).map (t :: ·)
termination_by ls => ls.length
decreasing_by
  all_goals simp only [List.length_drop, List.length_cons]; omega

end Lexeme

/-- The tokens of a source. -/
def Source.tokens (s : Source) : Except ParseError (List Token) :=
  Lexeme.tokens s s.lexemes

end Kode
