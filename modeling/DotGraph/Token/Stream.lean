import DotGraph.Text.Utf8
import DotGraph.Token.Lexeme

namespace DotGraph

/-! All the tokens of a text, at once or one call at a time. -/

/-- The tokens of a text, and the end of input behind them. -/
structure TokenStream where
  tokens : List Lexeme
  finish : Lexeme

namespace TokenStream

def readFrom (cursor : Cursor) (before : Array Lexeme) : TokenStream :=
  let read := Lexeme.read cursor
  if _h : read.1.isEnd then ⟨before.toList, read.1⟩
  else readFrom read.2 (before.push read.1)
termination_by cursor.unread
decreasing_by exact Lexeme.read_unread_lt cursor (by simpa using _h)

def ofText (filename : String) (text : List Char) : TokenStream :=
  readFrom (.start filename text) #[]

def ofBytes (filename : String) (bytes : ByteArray) : TokenStream :=
  ofText filename (Text.decodeLossy bytes)

/-- The tokens with the end of input as the last one. -/
def lexemes (stream : TokenStream) : List Lexeme :=
  stream.tokens ++ [stream.finish]

def faults (stream : TokenStream) : List (Located LexFault) :=
  stream.lexemes.filterMap Lexeme.fault

end TokenStream

/-- The tokens before the end of input, and what is wrong with the text. -/
def tokenize (filename : String) (bytes : ByteArray) :
    List (Located Token) × List Diagnostic :=
  let stream := TokenStream.ofBytes filename bytes
  (stream.tokens.map fun lexeme => ⟨lexeme.position, lexeme.token⟩,
    stream.faults.map LexFault.diagnostic)

/-- A reader of tokens that holds the faults met so far until they are taken from it. -/
structure Scanner where
  cursor : Cursor
  faults : List (Located LexFault)
  isFinished : Bool

namespace Scanner

def ofText (filename : String) (text : List Char) : Scanner :=
  ⟨.start filename text, [], false⟩

def ofBytes (filename : String) (bytes : ByteArray) : Scanner :=
  ofText filename (Text.decodeLossy bytes)

/-- Reads the next token; past the last one that is the end of input, time and again. -/
def nextToken (scanner : Scanner) : Located Token × Scanner :=
  let (lexeme, next) := Lexeme.read scanner.cursor
  (⟨lexeme.position, lexeme.token⟩,
    ⟨next, scanner.faults ++ lexeme.fault.toList, scanner.isFinished⟩)

/-- Reads the next token before the end of input.  Once there is none, nothing is read any more. -/
def next? (scanner : Scanner) : Option (Located Token) × Scanner :=
  if scanner.isFinished then (none, scanner)
  else
    let (token, scanner) := scanner.nextToken
    if token.value.kind = .endOfInput then (none, { scanner with isFinished := true })
    else (some token, scanner)

def diagnostics (scanner : Scanner) : List Diagnostic :=
  scanner.faults.map LexFault.diagnostic

def takeDiagnostics (scanner : Scanner) : List Diagnostic × Scanner :=
  (scanner.diagnostics, { scanner with faults := [] })

end Scanner

end DotGraph
