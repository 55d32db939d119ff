import CompactType.Toml.Reader

/-!
# Tokens of a TOML document

A document is cut into words, quoted strings, punctuation, blanks and ends of lines. Words and
strings are taken as they are written; whether they mean anything is left to their readers.
-/

set_option autoImplicit false

namespace CompactType.Toml

/-- How a string is quoted: double quotes allow escapes, and three quotes allow several lines. -/
structure Quote where
  escapes : Bool
  lines : Bool
deriving DecidableEq, Repr

/-- A word or a quoted string. A string that is not closed has no content. -/
inductive Atom where
  | word (written : List Char)
  | quoted (quote : Quote) (content : Option (List Char))
deriving DecidableEq, Repr

namespace Atom

/-- Stands where a part of a key or a value is missing. -/
def missing : Atom := word []

end Atom

inductive Token where
  | dot
  | equals
  | comma
  | openBracket
  | closeBracket
  | openBrace
  | closeBrace
  | blank (written : List Char)
  | newline
  | atom (a : Atom)
deriving DecidableEq, Repr

namespace Token

def isBlank : Token → Bool
  | blank _ => true
  | _ => false

/-- Whether a token only sets others apart where ends of lines mean nothing. -/
def isSpace : Token → Bool
  | blank _ | newline => true
  | _ => false

def ofMark? : Char → Option Token
  | '.' => some dot
  | '=' => some equals
  | ',' => some comma
  | '[' => some openBracket
  | ']' => some closeBracket
  | '{' => some openBrace
  | '}' => some closeBrace
  | _ => none

end Token

def isBlankChar (c : Char) : Bool := c == ' ' || c == '\t'

/-- Characters that may stand in comments and in strings of one line: all but controls, the tab
excepted. -/
def isPlainChar (c : Char) : Bool := c == '\t' || (0x20 ≤ c.toNat && c.toNat ≠ 0x7f)

/-- Characters of words. Quotes are among them, although no word begins with one. -/
def isWordChar (c : Char) : Bool :=
  !(isBlankChar c || c == '#' || c == '\r' || c == '\n' || (Token.ofMark? c).isSome)

namespace Quote

def mark (q : Quote) : Char := if q.escapes then '"' else '\''

def marks (q : Quote) : List Char := List.replicate (if q.lines then 3 else 1) q.mark

/-- How many marks right before the closing ones belong to a string on several lines. -/
def marksInside (q : Quote) (text : List Char) : Nat :=
  if q.lines then (((text.drop 3).take 2).takeWhile (· == q.mark)).length else 0

/-- The content of a string up to its closing marks, and what follows them. What was read of the
content before comes with the last character first. A string on one line ends with the line even
if it is not closed. An escaped mark does not close a string. -/
def content (q : Quote) (before : List Char) : List Char → Option (List Char) × List Char
  | [] => (none, [])
  | c :: rest =>
    if q.marks.isPrefixOf (c :: rest) then
      let inside := q.marksInside (c :: rest)
      (some (before.reverse ++ List.replicate inside q.mark),
        (c :: rest).drop (inside + q.marks.length))
    else if !q.lines && c == '\n' then (none, c :: rest)
    else
      match rest with
      | [] => (none, [])
      | e :: rest =>
        if q.escapes && c == '\\' && (e == '\\' || e == '"') then content q (e :: c :: before) rest
        else content q (c :: before) (e :: rest)

/-- All ways to quote a string, those of several lines first, as their marks begin with the marks
of the others. -/
def all : List Quote := [⟨true, true⟩, ⟨false, true⟩, ⟨true, false⟩, ⟨false, false⟩]

def of? (text : List Char) : Option Quote := all.find? fun q => q.marks.isPrefixOf text

end Quote

namespace Token

/-- A line ends with a line feed, before which a carriage return may stand. -/
def eatNewline : Reader Char Bool := do
  if ← Reader.eat ['\n'] then return true
  Reader.eat ['\r', '\n']

def comment : Reader Char Token := do
  let written ← Reader.takeWhile isPlainChar
  match ← get with
  | [] | '\n' :: _ | '\r' :: '\n' :: _ => return blank written
  | _ => failure

def next? : Reader Char (Option Token) := do
  let text ← get
  match text with
  | [] => return none
  | c :: rest =>
    if let some token := ofMark? c then
      set rest
      return some token
    else if isBlankChar c then return some (blank (← Reader.takeWhile isBlankChar))
    else if c == '#' then return some (← comment)
    else if ← eatNewline then return some newline
    else if let some quote := Quote.of? text then
      let (content, rest) := quote.content [] (text.drop quote.marks.length)
      set rest
      return some (atom (.quoted quote content))
    else
      let written ← Reader.takeWhile isWordChar
      if written.isEmpty then failure
      return some (atom (.word written))

/-- The tokens of a document. A byte order mark in front is skipped. -/
def ofDocument : Reader Char (List Token) := do
  let _ ← Reader.eat ['\ufeff']
  Reader.collect next?

end Token

end CompactType.Toml
