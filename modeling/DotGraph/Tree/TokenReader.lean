import DotGraph.Token.Stream
import DotGraph.Tree

namespace DotGraph

/-! Reading tokens with one token of look-ahead.  What does not fit is noted, and reading goes on
with what follows. -/

inductive ParseFault where
  | expected (wanted got : Token.Kind)
  | missingHeader (got : Token.Kind)
  | unexpectedToken (got : Token.Kind)
  | expectedIdent (got : Token.Kind)
  | missingAssignedValue
  | missingAttributeValue
  | missingEndpoint
  | nestingTooDeep
deriving DecidableEq, Repr

namespace ParseFault

def message : ParseFault → String
  | expected wanted got => "expected " ++ wanted.name ++ ", got " ++ got.name
  | missingHeader got => "expected 'graph' or 'digraph', got " ++ got.name
  | unexpectedToken got => "unexpected token " ++ got.name ++ " in statement"
  | expectedIdent got => "expected identifier, got " ++ got.name
  | missingAssignedValue => "expected identifier after '='"
  | missingAttributeValue => "expected value after '='"
  | missingEndpoint => "expected node ID or subgraph after edge operator"
  | nestingTooDeep => "nesting too deep"

def diagnostic (fault : Located ParseFault) : Diagnostic :=
  ⟨.parse, fault.position, fault.value.message⟩

end ParseFault

/-- What is left of the tokens, the look-ahead token first.  Past the last token the look-ahead is
the end of input, however often it is asked for; `pulled` counts every time.  `depth` counts the
blocks that are open. -/
structure TokenReader where
  unread : List Lexeme
  finish : Position
  pulled : Nat
  faults : Array (Located ParseFault)
  depth : Nat

namespace TokenReader

def start (stream : TokenStream) : TokenReader :=
  ⟨stream.tokens, stream.finish.position, 1, #[], 0⟩

def size (reader : TokenReader) : Nat :=
  reader.unread.length

def kind (reader : TokenReader) : Token.Kind :=
  match reader.unread with
  | [] => .endOfInput
  | lexeme :: _ => lexeme.token.kind

def position (reader : TokenReader) : Position :=
  match reader.unread with
  | [] => reader.finish
  | lexeme :: _ => lexeme.position

def text (reader : TokenReader) : String :=
  match reader.unread with
  | [] => ""
  | lexeme :: _ => lexeme.token.text

def advance (reader : TokenReader) : TokenReader :=
  { reader with unread := reader.unread.tail, pulled := reader.pulled + 1 }

def reportAt (reader : TokenReader) (position : Position) (fault : ParseFault) : TokenReader :=
  { reader with faults := reader.faults.push ⟨position, fault⟩ }

def report (reader : TokenReader) (fault : ParseFault) : TokenReader :=
  reader.reportAt reader.position fault

/-- Goes into a block. -/
def enter (reader : TokenReader) : TokenReader :=
  { reader with depth := reader.depth + 1 }

/-- Goes out of a block. -/
def leave (reader : TokenReader) : TokenReader :=
  { reader with depth := reader.depth - 1 }

/-- Goes over the look-ahead token, whether it is the one that belongs here or not. -/
def expect (reader : TokenReader) (wanted : Token.Kind) : Position × TokenReader :=
  (reader.position,
    (if reader.kind = wanted then reader
      else reader.report (.expected wanted reader.kind)).advance)

def skipOver (reader : TokenReader) (kinds : List Token.Kind) : TokenReader :=
  if reader.kind ∈ kinds then reader.advance else reader

theorem size_advance_le (reader : TokenReader) : reader.advance.size ≤ reader.size := by
  simp [advance, size]

theorem size_advance_lt {reader : TokenReader} (h : reader.kind ≠ .endOfInput) :
    reader.advance.size < reader.size := by
  unfold kind at h
  split at h
  · exact absurd rfl h
  · rename_i hunread
    simp [advance, size, hunread]

@[simp] theorem size_reportAt (reader : TokenReader) (position : Position) (fault : ParseFault) :
    (reader.reportAt position fault).size = reader.size := rfl

@[simp] theorem size_report (reader : TokenReader) (fault : ParseFault) :
    (reader.report fault).size = reader.size := rfl

@[simp] theorem size_enter (reader : TokenReader) : reader.enter.size = reader.size := rfl

@[simp] theorem size_leave (reader : TokenReader) : reader.leave.size = reader.size := rfl

theorem size_expect_le (reader : TokenReader) (wanted : Token.Kind) :
    (reader.expect wanted).2.size ≤ reader.size := by
  unfold expect
  split
  · exact size_advance_le _
  · exact size_advance_le (reader.report _)

theorem size_expect_lt {reader : TokenReader} (wanted : Token.Kind)
    (h : reader.kind ≠ .endOfInput) : (reader.expect wanted).2.size < reader.size := by
  unfold expect
  split
  · exact size_advance_lt h
  · exact @size_advance_lt (reader.report _) h

theorem size_skipOver_le (reader : TokenReader) (kinds : List Token.Kind) :
    (reader.skipOver kinds).size ≤ reader.size := by
  unfold skipOver
  split
  · exact size_advance_le _
  · exact Nat.le_refl _

end TokenReader

theorem Token.Kind.ne_endOfInput_of_isId {kind : Token.Kind} (h : kind.isId) :
    kind ≠ .endOfInput := by
  rintro rfl
  exact absurd h (by decide)

theorem Token.Kind.ne_endOfInput_of_isEdgeOp {kind : Token.Kind} (h : kind.isEdgeOp) :
    kind ≠ .endOfInput := by
  rintro rfl
  exact absurd h (by decide)

end DotGraph
