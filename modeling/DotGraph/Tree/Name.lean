import DotGraph.Tree.TokenReader

namespace DotGraph.TokenReader

/-! The flat parts of statements: identifiers, node ids with their ports, attribute lists. -/

open DotGraph.Tree

def flavour? : Token.Kind → Option Flavour
  | .ident => some .bare
  | .quoted => some .quoted
  | .html => some .html
  | _ => none

def ident (reader : TokenReader) : Ident × TokenReader :=
  match flavour? reader.kind with
  | some flavour => (⟨reader.position, reader.text, flavour⟩, reader.advance)
  | none =>
      (⟨reader.position, "", .bare⟩, (reader.report (.expectedIdent reader.kind)).advance)

def ident? (reader : TokenReader) : Option Ident × TokenReader :=
  if reader.kind.isId then
    let (ident, reader) := reader.ident
    (some ident, reader)
  else (none, reader)

def compass? (reader : TokenReader) : Option Ident × TokenReader :=
  if reader.kind = .colon then reader.advance.ident? else (none, reader)

/-- A port reads `: name`, `: name : compass`, or either without the names. -/
def port (reader : TokenReader) : Port × TokenReader :=
  let (position, reader) := reader.expect .colon
  let (name, reader) := reader.ident?
  let (compass, reader) := reader.compass?
  (⟨position, name, compass⟩, reader)

def port? (reader : TokenReader) : Option Port × TokenReader :=
  if reader.kind = .colon then
    let (port, reader) := reader.port
    (some port, reader)
  else (none, reader)

def nodeId (reader : TokenReader) : NodeId × TokenReader :=
  let position := reader.position
  let (ident, reader) := reader.ident
  let (port, reader) := reader.port?
  (⟨position, ident, port⟩, reader)

/-- An attribute without a value is set to `true`. -/
def attributeValue (reader : TokenReader) (key : Ident) : Ident × TokenReader :=
  if reader.kind = .equal then
    let reader := reader.advance
    if reader.kind.isId then reader.ident
    else (⟨reader.position, "", .bare⟩, reader.report .missingAttributeValue)
  else (⟨key.position, "true", .bare⟩, reader)

def oneAttribute (reader : TokenReader) : Attribute × TokenReader :=
  let position := reader.position
  let (key, reader) := reader.ident
  let (value, reader) := reader.attributeValue key
  (⟨position, key, value⟩, reader.skipOver [.semicolon, .comma])

theorem size_ident_le (reader : TokenReader) : reader.ident.2.size ≤ reader.size := by
  unfold ident
  split
  · exact size_advance_le _
  · exact size_advance_le (reader.report _)

theorem size_ident_lt {reader : TokenReader} (h : reader.kind ≠ .endOfInput) :
    reader.ident.2.size < reader.size := by
  unfold ident
  split
  · exact size_advance_lt h
  · exact @size_advance_lt (reader.report _) h

theorem size_ident?_le (reader : TokenReader) : reader.ident?.2.size ≤ reader.size := by
  unfold ident?
  split
  · exact size_ident_le _
  · exact Nat.le_refl _

theorem size_compass?_le (reader : TokenReader) : reader.compass?.2.size ≤ reader.size := by
  unfold compass?
  split
  · exact Nat.le_trans (size_ident?_le _) (size_advance_le _)
  · exact Nat.le_refl _

theorem size_port_le (reader : TokenReader) : reader.port.2.size ≤ reader.size :=
  Nat.le_trans (size_compass?_le _) (Nat.le_trans (size_ident?_le _) (size_expect_le _ _))

theorem size_port?_le (reader : TokenReader) : reader.port?.2.size ≤ reader.size := by
  unfold port?
  split
  · exact size_port_le _
  · exact Nat.le_refl _

theorem size_nodeId_lt {reader : TokenReader} (h : reader.kind ≠ .endOfInput) :
    reader.nodeId.2.size < reader.size :=
  Nat.lt_of_le_of_lt (size_port?_le _) (size_ident_lt h)

theorem size_nodeId_le (reader : TokenReader) : reader.nodeId.2.size ≤ reader.size :=
  Nat.le_trans (size_port?_le _) (size_ident_le _)

theorem size_attributeValue_le (reader : TokenReader) (key : Ident) :
    (reader.attributeValue key).2.size ≤ reader.size := by
  unfold attributeValue
  split
  · simp only
    split
    · exact Nat.le_trans (size_ident_le _) (size_advance_le _)
    · exact size_advance_le _
  · exact Nat.le_refl _

theorem size_oneAttribute_lt {reader : TokenReader} (h : reader.kind ≠ .endOfInput) :
    reader.oneAttribute.2.size < reader.size :=
  Nat.lt_of_le_of_lt
    (Nat.le_trans (size_skipOver_le _ _) (size_attributeValue_le _ _)) (size_ident_lt h)

/-- Node ids one after the other, behind those read `before`. -/
def nodeIds (before : Array NodeId) (reader : TokenReader) : Array NodeId × TokenReader :=
  if _h : reader.kind.isId then
    let node := reader.nodeId
    nodeIds (before.push node.1) node.2
  else (before, reader)
termination_by reader.size
decreasing_by exact size_nodeId_lt (Token.Kind.ne_endOfInput_of_isId _h)

/-- Attributes one after the other, behind those read `before`. -/
def attributes (before : Array Attribute) (reader : TokenReader) :
    Array Attribute × TokenReader :=
  if _h : reader.kind.isId then
    let entry := reader.oneAttribute
    attributes (before.push entry.1) entry.2
  else (before, reader)
termination_by reader.size
decreasing_by exact size_oneAttribute_lt (Token.Kind.ne_endOfInput_of_isId _h)

theorem size_nodeIds_le (before : Array NodeId) (reader : TokenReader) :
    (reader.nodeIds before).2.size ≤ reader.size := by
  fun_induction nodeIds before reader
  case case1 h _ ih =>
    exact Nat.le_trans ih (Nat.le_of_lt (size_nodeId_lt (Token.Kind.ne_endOfInput_of_isId h)))
  case case2 => exact Nat.le_refl _

theorem size_attributes_le (before : Array Attribute) (reader : TokenReader) :
    (reader.attributes before).2.size ≤ reader.size := by
  fun_induction attributes before reader
  case case1 h _ ih =>
    exact Nat.le_trans ih (Nat.le_of_lt (size_oneAttribute_lt (Token.Kind.ne_endOfInput_of_isId h)))
  case case2 => exact Nat.le_refl _

/-- The attributes in one pair of brackets. -/
def bracket (before : Array Attribute) (reader : TokenReader) : Array Attribute × TokenReader :=
  let (attributes, reader) := reader.advance.attributes before
  (attributes, (reader.expect .rBracket).2)

theorem size_bracket_lt (before : Array Attribute) {reader : TokenReader}
    (h : reader.kind ≠ .endOfInput) : (reader.bracket before).2.size < reader.size :=
  Nat.lt_of_le_of_lt (Nat.le_trans (size_expect_le _ _) (size_attributes_le _ _))
    (size_advance_lt h)

/-- Pairs of brackets in a row make one list. -/
def brackets (before : Array Attribute) (reader : TokenReader) : Array Attribute × TokenReader :=
  if _h : reader.kind = .lBracket then
    let bracket := reader.bracket before
    brackets bracket.1 bracket.2
  else (before, reader)
termination_by reader.size
decreasing_by exact size_bracket_lt before (by simp [_h])

theorem size_brackets_le (before : Array Attribute) (reader : TokenReader) :
    (reader.brackets before).2.size ≤ reader.size := by
  fun_induction brackets before reader
  case case1 h _ ih => exact Nat.le_trans ih (Nat.le_of_lt (size_bracket_lt _ (by simp [h])))
  case case2 => exact Nat.le_refl _

def attributeList? (reader : TokenReader) : Option AttributeList × TokenReader :=
  if reader.kind = .lBracket then
    let position := reader.position
    let (attributes, reader) := reader.brackets #[]
    (some ⟨position, attributes.toList⟩, reader)
  else (none, reader)

theorem size_attributeList?_le (reader : TokenReader) :
    reader.attributeList?.2.size ≤ reader.size := by
  unfold attributeList?
  split
  · exact size_brackets_le _ _
  · exact Nat.le_refl _

end DotGraph.TokenReader
