import CompactType.Toml.Numeral
import CompactType.Toml.Token

/-!
# Quoted strings

What the content of a quoted string stands for. Double quotes allow escapes.
-/

set_option autoImplicit false

namespace CompactType.Toml

/-- The character with the given code in hexadecimal. Surrogates are no characters. -/
def codePoint? (digits : List Char) : Option Char := do
  let n ← numeral? 16 digits
  if n.isValidChar then some (Char.ofNat n) else none

def escape? : Char → Option Char
  | 'b' => some '\x08'
  | 't' => some '\t'
  | 'n' => some '\n'
  | 'f' => some '\x0c'
  | 'r' => some '\r'
  | 'e' => some '\x1b'
  | '"' => some '"'
  | '\\' => some '\\'
  | _ => none

def readEscape : Reader Char Char := do
  let text ← get
  let numbered := fun (length : Nat) (rest : List Char) => do
    set (rest.drop length)
    if rest.length < length then failure
    (codePoint? (rest.take length) : Option Char)
  match text with
  | 'x' :: rest => numbered 2 rest
  | 'u' :: rest => numbered 4 rest
  | 'U' :: rest => numbered 8 rest
  | c :: rest => do
    set rest
    (escape? c : Option Char)
  | [] => failure

def plainChar : Reader Char Char := do
  match ← get with
  | c :: rest =>
    unless isPlainChar c do failure
    set rest
    return c
  | [] => failure

def dropBlankLines : List Char → List Char
  | [] => []
  | '\n' :: rest => dropBlankLines rest
  | '\r' :: '\n' :: rest => dropBlankLines rest
  | c :: rest => if isBlankChar c then dropBlankLines rest else c :: rest

/-- What a backslash stands for in a string on several lines. At the end of a line it stands for
nothing, and takes the blank lines and the blanks after it along. -/
def foldOrEscape : Reader Char (List Char) := do
  let text ← get
  Reader.skipWhile isBlankChar
  if ← Token.eatNewline then
    modify dropBlankLines
    return []
  set text
  return [← readEscape]

/-- A stretch of a string, unless it is at its end: an end of line as it is written, what a
backslash stands for, or a character. -/
def stretch? (q : Quote) : Reader Char (Option (List Char)) := do
  if (← get).isEmpty then return none
  if q.lines then
    if ← Reader.eat ['\n'] then return some ['\n']
    if ← Reader.eat ['\r', '\n'] then return some ['\r', '\n']
  if q.escapes then
    if ← Reader.eat ['\\'] then
      return some (← if q.lines then foldOrEscape else (return [← readEscape]))
  return some [← plainChar]

/-- The text that a string stands for, given its content. An end of line in front of several lines
does not belong to them. -/
def Quote.text? (q : Quote) (content : List Char) : Option String := do
  let stretches : Reader Char (List (List Char)) := do
    if q.lines then
      let _ ← Token.eatNewline
    Reader.collect (stretch? q)
  return String.ofList (← stretches.whole? content).flatten

end CompactType.Toml
