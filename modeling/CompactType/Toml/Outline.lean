import CompactType.Toml.Token

/-!
# Outlines

The tokens of a document are grouped into key-value pairs and the sections below headers, before
any word or string in them is looked at. A document with tokens in the wrong places is refused as
a whole.
-/

set_option autoImplicit false

namespace CompactType.Toml

open Reader

abbrev Key := List Atom

inductive Phrase where
  | atom (a : Atom)
  | array (items : List Phrase)
  | table (pairs : List (Key × Phrase))
deriving Repr, Inhabited

abbrev Pair := Key × Phrase

/-- A header and the pairs below it. A section that grows adds a table to an array. -/
structure Section where
  grows : Bool
  key : Key
  pairs : List Pair
deriving Repr

structure Outline where
  pairs : List Pair
  sections : List Section
deriving Repr

def maxNesting : Nat := 80

namespace Key

def takes : Token → Bool
  | .dot | .blank _ | .atom _ => true
  | _ => false

def ofTokens? : List Token → Option Key
  | [] => some [.missing]
  | [.atom a] => some [a]
  | .dot :: rest => (.missing :: ·) <$> ofTokens? rest
  | .atom a :: .dot :: rest => (a :: ·) <$> ofTokens? rest
  | _ => none

/-- A key, of which parts may be missing. Blanks may stand around each part. -/
def read : Reader Token Key := do
  let tokens ← takeWhile takes
  (ofTokens? (tokens.filter fun t => !t.isBlank) : Option Key)

end Key

namespace Phrase

/-- The words and dots that belong to an unquoted value, and what follows them. Blanks belong to
it if a word follows. -/
def spanWords : List Token → List Char × List Token
  | .dot :: rest =>
    let (written, rest) := spanWords rest
    ('.' :: written, rest)
  | .atom (.word w) :: rest =>
    let (written, rest) := spanWords rest
    (w ++ written, rest)
  | .blank b :: .atom (.word w) :: rest =>
    let (written, rest) := spanWords rest
    (b ++ w ++ written, rest)
  | rest => ([], rest)

def simple : Reader Token Phrase := do
  match ← get with
  | .atom (.quoted quote content) :: rest =>
    set rest
    return .atom (.quoted quote content)
  | .atom (.word _) :: _ | .dot :: _ => return .atom (.word (← modifyGet spanWords))
  | _ => failure

/-- Reads items up to a closing token. Commas separate them, and one may follow the last. -/
def items {α : Type} (item : Reader Token α) (closing : Token) : Reader Token (List α) := do
  skipWhile Token.isSpace
  collect do
    if ← eat [closing] then return none
    let a ← item
    skipWhile Token.isSpace
    if ← eat [.comma] then skipWhile Token.isSpace
    else unless (← get).head? == some closing do failure
    return some a

def inlinePair (value : Reader Token Phrase) : Reader Token Pair := do
  let key ← Key.read
  skipWhile Token.isSpace
  expect [.equals]
  skipWhile Token.isSpace
  return (key, ← value)

def within : Nat → Reader Token Phrase
  | 0 => simple
  | depth + 1 => do
    if ← eat [.openBracket] then return .array (← items (within depth) .closeBracket)
    if ← eat [.openBrace] then return .table (← items (inlinePair (within depth)) .closeBrace)
    simple

/-- A value, which may be missing at the end of the line. -/
def read : Reader Token Phrase := do
  match ← get with
  | [] | .newline :: _ => return .atom .missing
  | _ => within maxNesting

end Phrase

namespace Outline

def endLine : Reader Token Unit := do
  skipWhile Token.isBlank
  unless (← get).isEmpty do expect [.newline]

/-- A pair on a line of its own, unless a header or the end of the document comes next. -/
def pair? : Reader Token (Option Pair) := do
  skipWhile Token.isSpace
  match ← get with
  | [] | .openBracket :: _ => return none
  | _ =>
    let key ← Key.read
    expect [.equals]
    skipWhile Token.isBlank
    let value ← Phrase.read
    endLine
    return some (key, value)

def section? : Reader Token (Option Section) := do
  if (← get).isEmpty then return none
  expect [.openBracket]
  let grows ← eat [.openBracket]
  let key ← Key.read
  expect (if grows then [.closeBracket, .closeBracket] else [.closeBracket])
  endLine
  return some { grows, key, pairs := ← collect pair? }

def read : Reader Token Outline := return ⟨← collect pair?, ← collect section?⟩

def ofDocument? (document : String) : Option Outline := do
  read.whole? (← Token.ofDocument.whole? document.toList)

end Outline

end CompactType.Toml
