import DotGraph.Text.Hex

namespace DotGraph

/-! TOML documents of one entry a line: keys with a string, a boolean or an integer, at the top or
in a table. -/

inductive Toml.Value where
  | string (text : String)
  | bool (value : Bool)
  | integer
deriving DecidableEq, Repr

inductive Toml.Line where
  | blank
  | header (name : String)
  | entry (key : String) (value : Toml.Value)
deriving DecidableEq, Repr

structure Toml.Entry where
  table : Option String
  key : String
  value : Toml.Value
deriving DecidableEq, Repr

structure Toml where
  tables : List String
  entries : List Toml.Entry
deriving DecidableEq, Repr

namespace Toml

def isBlank (c : Char) : Bool :=
  c = ' ' || c = '\t'

/-- Comments and strings hold no control characters but tabs. -/
def isPlain (c : Char) : Bool :=
  c = '\t' || (0x20 ≤ c.toNat && c ≠ '\x7f')

def isBareKeyChar (c : Char) : Bool :=
  c.isAlphanum || c = '-' || c = '_'

def skipBlanks (text : List Char) : List Char :=
  text.dropWhile isBlank

/-- The lines of a text, the first of which has begun already.  A carriage return belongs to the
line feed behind it. -/
def linesFrom (line : List Char) : List Char → List (List Char)
  | [] => [line.reverse]
  | '\n' :: rest => line.reverse :: linesFrom [] rest
  | '\r' :: '\n' :: rest => line.reverse :: linesFrom [] rest
  | c :: rest => linesFrom (c :: line) rest

/-- Whether nothing but a comment follows. -/
def isLineEnd (text : List Char) : Bool :=
  match skipBlanks text with
  | [] => true
  | '#' :: comment => comment.all isPlain
  | _ => false

def escaped? (c : Char) : Option Char :=
  if c = '"' ∨ c = '\\' then some c
  else if c = 'b' then some '\x08'
  else if c = 't' then some '\t'
  else if c = 'n' then some '\n'
  else if c = 'f' then some '\x0c'
  else if c = 'r' then some '\r'
  else none

/-- The character with a number of that many hexadecimal digits. -/
def charOfHex? (width : Nat) (digits : List Char) : Option Char := do
  if digits.length < width then none
  else
    let code ← digits.foldlM (fun code c => return code * 16 + (← Text.hexValue? c)) 0
    if h : code.isValidChar then some (Char.ofNatAux code h) else none

/-- Reads up to the closing quote, with escapes. -/
def basicString (read : List Char) : List Char → Option (String × List Char)
  | [] => none
  | '"' :: rest => some (String.ofList read.reverse, rest)
  | '\\' :: 'u' :: rest => do
      let c ← charOfHex? 4 (rest.take 4)
      basicString (c :: read) (rest.drop 4)
  | '\\' :: 'U' :: rest => do
      let c ← charOfHex? 8 (rest.take 8)
      basicString (c :: read) (rest.drop 8)
  | '\\' :: c :: rest => do
      let c ← escaped? c
      basicString (c :: read) rest
  | c :: rest => if isPlain c && c ≠ '\\' then basicString (c :: read) rest else none
termination_by text => text.length

/-- Reads up to the closing quote, character by character. -/
def literalString (read : List Char) : List Char → Option (String × List Char)
  | [] => none
  | '\x27' :: rest => some (String.ofList read.reverse, rest)
  | c :: rest => if isPlain c then literalString (c :: read) rest else none

def readName (text : List Char) : Option (String × List Char) :=
  match text with
  | '"' :: rest => basicString [] rest
  | '\x27' :: rest => literalString [] rest
  | text =>
      let name := text.takeWhile isBareKeyChar
      if name.isEmpty then none
      else some (String.ofList name, text.dropWhile isBareKeyChar)

/-- A run of digits that has a digit at both ends and no two underscores together. -/
def areDigits (isDigit : Char → Bool) : List Char → Bool
  | [] => false
  | [c] => isDigit c
  | c :: '_' :: rest => isDigit c && areDigits isDigit rest
  | c :: rest => isDigit c && areDigits isDigit rest

/-- Integers have 64 bits with a sign. -/
def fits (base : Nat) (isNegative : Bool) (digits : List Char) : Bool :=
  let size := digits.foldl (fun size c => size * base + (Text.hexValue? c).getD 0) 0
  if isNegative then size ≤ Nat.pow 2 63 else size < Nat.pow 2 63

def isDecimal (isNegative : Bool) (digits : List Char) : Bool :=
  areDigits Char.isDigit digits && (digits.head? ≠ some '0' || digits.length = 1) &&
    fits 10 isNegative (digits.filter Char.isDigit)

def isBased (base : Nat) (digits : List Char) : Bool :=
  areDigits (fun c => (Text.hexValue? c).any (· < base)) digits &&
    fits base false (digits.filter (· ≠ '_'))

def isInteger : List Char → Bool
  | '-' :: digits => isDecimal true digits
  | '+' :: digits => isDecimal false digits
  | '0' :: 'x' :: digits => isBased 16 digits
  | '0' :: 'o' :: digits => isBased 8 digits
  | '0' :: 'b' :: digits => isBased 2 digits
  | digits => isDecimal false digits

def readValue (text : List Char) : Option (Value × List Char) :=
  match text with
  | '"' :: rest => (basicString [] rest).map fun read => (.string read.1, read.2)
  | '\x27' :: rest => (literalString [] rest).map fun read => (.string read.1, read.2)
  | text =>
      let isWordChar := fun c => isBareKeyChar c || c = '+'
      let word := text.takeWhile isWordChar
      let rest := text.dropWhile isWordChar
      if word = ['t', 'r', 'u', 'e'] then some (.bool true, rest)
      else if word = ['f', 'a', 'l', 's', 'e'] then some (.bool false, rest)
      else if isInteger word then some (.integer, rest)
      else none

def readHeader (text : List Char) : Option Line := do
  let (name, rest) ← readName (skipBlanks text)
  match skipBlanks rest with
  | ']' :: rest => if isLineEnd rest then some (.header name) else none
  | _ => none

def readEntry (text : List Char) : Option Line := do
  let (key, rest) ← readName text
  match skipBlanks rest with
  | '=' :: rest =>
      let (value, rest) ← readValue (skipBlanks rest)
      if isLineEnd rest then some (.entry key value) else none
  | _ => none

def Line.ofText? (text : List Char) : Option Line :=
  if isLineEnd text then some .blank
  else
    match skipBlanks text with
    | '[' :: rest => readHeader rest
    | text => readEntry text

def has (document : Toml) (table : Option String) (key : String) : Bool :=
  document.entries.any fun entry => entry.table = table && entry.key = key

/-- The lines below a header belong to its table.  No table and no key is there twice, and none
is a table and a key at once. -/
def addLines (table : Option String) : List Line → Toml → Option Toml
  | [], document => some document
  | .blank :: lines, document => addLines table lines document
  | .header name :: lines, document =>
      if document.tables.contains name || document.has none name then none
      else addLines (some name) lines { document with tables := document.tables ++ [name] }
  | .entry key value :: lines, document =>
      if document.has table key then none
      else
        addLines table lines
          { document with entries := document.entries ++ [⟨table, key, value⟩] }

/-- A mark of the byte order in front of the text is no part of it. -/
def withoutMark : List Char → List Char
  | '\ufeff' :: text => text
  | text => text

def ofText? (text : String) : Option Toml := do
  let lines ← (linesFrom [] (withoutMark text.toList)).mapM Line.ofText?
  addLines none lines ⟨[], []⟩

end Toml

end DotGraph
