import DotGraph.Tree.Name

namespace DotGraph.TokenReader

/-! Statements.  A block between braces holds statements, and some statements hold blocks; a block
is entered only where not too many are open.  So reading goes down by levels: at each level the
reader of the blocks one level further in is handed to the readers of statements. -/

open DotGraph.Tree

/-- The blocks that may be open at once. -/
def maxNesting : Nat := 100

/-- How the rest of a block is read when its opening brace, and the statements `before`, have been
read already. -/
structure BlockReader where
  read : (opened : Position) → (before : Array Statement) → TokenReader →
    List Statement × TokenReader
  size_read_le : ∀ opened before reader, (read opened before reader).2.size ≤ reader.size

variable (inner : BlockReader)

def subgraph (reader : TokenReader) : Subgraph × TokenReader :=
  let position := reader.position
  let (ident, reader) :=
    if reader.kind = .subgraph then reader.advance.ident? else (none, reader)
  let (opened, reader) := reader.expect .lBrace
  let (statements, reader) := inner.read opened #[] reader
  (⟨position, ident, statements⟩, reader)

def bareStatement (node : NodeId) : Statement :=
  .node node.position node none

/-- Braces around nothing but node ids are a group; any others are a subgraph, which starts with the
node ids read so far. -/
def groupOrSubgraph (reader : TokenReader) : Endpoint × TokenReader :=
  let (opened, reader) := reader.expect .lBrace
  let (nodes, reader) := reader.nodeIds #[]
  if reader.kind = .rBrace && !nodes.isEmpty then (.group opened nodes.toList, reader.advance)
  else
    let (statements, reader) := inner.read opened (nodes.map bareStatement) reader
    (.subgraph ⟨opened, none, statements⟩, reader)

def endpoint (reader : TokenReader) : Option Endpoint × TokenReader :=
  if reader.kind = .subgraph then
    let (subgraph, reader) := reader.subgraph inner
    (some (.subgraph subgraph), reader)
  else if reader.kind = .lBrace then
    let (endpoint, reader) := reader.groupOrSubgraph inner
    (some endpoint, reader)
  else if reader.kind.isId then
    let (node, reader) := reader.nodeId
    (some (.node node), reader)
  else (none, reader.report .missingEndpoint)

theorem size_subgraph_le (reader : TokenReader) :
    (reader.subgraph inner).2.size ≤ reader.size := by
  unfold subgraph
  refine Nat.le_trans (inner.size_read_le _ _ _) (Nat.le_trans (size_expect_le _ _) ?_)
  split
  · exact Nat.le_trans (size_ident?_le _) (size_advance_le _)
  · exact Nat.le_refl _

theorem size_subgraph_lt {reader : TokenReader}
    (h : reader.kind = .subgraph ∨ reader.kind = .lBrace) :
    (reader.subgraph inner).2.size < reader.size := by
  unfold subgraph
  rcases h with h | h
  · simp only [h, if_true]
    exact Nat.lt_of_le_of_lt
      (Nat.le_trans (inner.size_read_le _ _ _)
        (Nat.le_trans (size_expect_le _ _) (size_ident?_le _)))
      (size_advance_lt (by simp [h]))
  · simp only [h, reduceCtorEq, if_false]
    exact Nat.lt_of_le_of_lt (inner.size_read_le _ _ _) (size_expect_lt _ (by simp [h]))

theorem size_groupOrSubgraph_le (reader : TokenReader) :
    (reader.groupOrSubgraph inner).2.size ≤ reader.size := by
  have hnodes := Nat.le_trans (size_nodeIds_le #[] (reader.expect .lBrace).2)
    (size_expect_le reader .lBrace)
  unfold groupOrSubgraph
  simp only
  split
  · exact Nat.le_trans (size_advance_le _) hnodes
  · exact Nat.le_trans (inner.size_read_le _ _ _) hnodes

theorem size_endpoint_le (reader : TokenReader) :
    (reader.endpoint inner).2.size ≤ reader.size := by
  unfold endpoint
  split
  · exact size_subgraph_le inner reader
  split
  · exact size_groupOrSubgraph_le inner reader
  split
  · exact size_nodeId_le reader
  · exact Nat.le_refl _

/-- Edge operators with their endpoints, behind those read `before`. -/
def hops (before : Array Hop) (reader : TokenReader) : Array Hop × TokenReader :=
  if _h : reader.kind.isEdgeOp then
    let next := reader.advance.endpoint inner
    match next.1 with
    | some endpoint =>
        hops (before.push ⟨endpoint.position, reader.kind = .arrow, endpoint⟩) next.2
    | none => (before, next.2)
  else (before, reader)
termination_by reader.size
decreasing_by
  exact Nat.lt_of_le_of_lt (size_endpoint_le inner _)
    (size_advance_lt (Token.Kind.ne_endOfInput_of_isEdgeOp _h))

theorem size_hops_le (before : Array Hop) (reader : TokenReader) :
    (reader.hops inner before).2.size ≤ reader.size := by
  fun_induction hops inner before reader
  case case1 ih =>
    exact Nat.le_trans ih (Nat.le_trans (size_endpoint_le inner _) (size_advance_le _))
  case case2 => exact Nat.le_trans (size_endpoint_le inner _) (size_advance_le _)
  case case3 => exact Nat.le_refl _

/-- The rest of an edge statement, from its first edge operator. -/
def edgeStatement (left : Endpoint) (reader : TokenReader) : Statement × TokenReader :=
  let (hops, reader) := reader.hops inner #[]
  let (attributes, reader) := reader.attributeList?
  (.edge left.position left hops.toList attributes, reader)

theorem size_edgeStatement_le (left : Endpoint) (reader : TokenReader) :
    (reader.edgeStatement inner left).2.size ≤ reader.size :=
  Nat.le_trans (size_attributeList?_le _) (size_hops_le inner _ _)

/-- The value of `key = value`, from the equals sign.  Without a value there is no statement. -/
def assignment (key : Ident) (reader : TokenReader) : Option Statement × TokenReader :=
  let reader := reader.advance
  if reader.kind.isId then
    let (value, reader) := reader.ident
    (some (.assign key.position key value), reader)
  else (none, reader.report .missingAssignedValue)

theorem size_assignment_le (key : Ident) (reader : TokenReader) :
    (reader.assignment key).2.size ≤ reader.size := by
  unfold assignment
  simp only
  split
  · exact Nat.le_trans (size_ident_le _) (size_advance_le _)
  · exact size_advance_le _

/-- A statement that opens with an identifier. -/
def identStatement (reader : TokenReader) : Option Statement × TokenReader :=
  let (ident, reader) := reader.ident
  if reader.kind = .equal then reader.assignment ident
  else
    let (port, reader) := reader.port?
    let node : NodeId := ⟨ident.position, ident, port⟩
    if reader.kind.isEdgeOp then
      let (statement, reader) := reader.edgeStatement inner (.node node)
      (some statement, reader)
    else
      let (attributes, reader) := reader.attributeList?
      (some (.node node.position node attributes), reader)

theorem size_identStatement_lt {reader : TokenReader} (h : reader.kind ≠ .endOfInput) :
    (reader.identStatement inner).2.size < reader.size := by
  refine Nat.lt_of_le_of_lt ?_ (size_ident_lt h)
  unfold identStatement
  simp only
  split
  · exact size_assignment_le _ _
  split
  · exact Nat.le_trans (size_edgeStatement_le inner
      (.node ⟨reader.ident.1.position, reader.ident.1, reader.ident.2.port?.1⟩) _)
      (size_port?_le _)
  · exact Nat.le_trans (size_attributeList?_le _) (size_port?_le _)

def defaultsStatement (subject : Subject) (reader : TokenReader) : Statement × TokenReader :=
  let position := reader.position
  let (attributes, reader) := reader.advance.attributeList?
  (.defaults position subject attributes, reader)

theorem size_defaultsStatement_lt (subject : Subject) {reader : TokenReader}
    (h : reader.kind ≠ .endOfInput) : (reader.defaultsStatement subject).2.size < reader.size :=
  Nat.lt_of_le_of_lt (size_attributeList?_le _) (size_advance_lt h)

def subgraphStatement (reader : TokenReader) : Statement × TokenReader :=
  let (subgraph, reader) := reader.subgraph inner
  if reader.kind.isEdgeOp then reader.edgeStatement inner (.subgraph subgraph)
  else (.subgraph subgraph, reader)

theorem size_subgraphStatement_lt {reader : TokenReader}
    (h : reader.kind = .subgraph ∨ reader.kind = .lBrace) :
    (reader.subgraphStatement inner).2.size < reader.size := by
  refine Nat.lt_of_le_of_lt ?_ (size_subgraph_lt inner h)
  unfold subgraphStatement
  simp only
  split
  · exact size_edgeStatement_le inner _ _
  · exact Nat.le_refl _

/-- A token that starts no statement is noted and left out. -/
def statement (reader : TokenReader) : Option Statement × TokenReader :=
  match reader.kind with
  | .graph => reader.defaultsStatement .graph |>.map some id
  | .node => reader.defaultsStatement .node |>.map some id
  | .edge => reader.defaultsStatement .edge |>.map some id
  | .subgraph | .lBrace => reader.subgraphStatement inner |>.map some id
  | .ident | .quoted | .html => reader.identStatement inner
  | got => (none, (reader.report (.unexpectedToken got)).advance)

theorem statement_of_isId {inner : BlockReader} {reader : TokenReader} (h : reader.kind.isId) :
    reader.statement inner = reader.identStatement inner := by
  unfold statement
  split <;> simp_all [Token.Kind.isId]

theorem size_statement_lt {reader : TokenReader} (h : reader.kind ≠ .endOfInput) :
    (reader.statement inner).2.size < reader.size := by
  unfold statement
  split
  · exact size_defaultsStatement_lt .graph h
  · exact size_defaultsStatement_lt .node h
  · exact size_defaultsStatement_lt .edge h
  · rename_i hkind; exact size_subgraphStatement_lt inner (.inl hkind)
  · rename_i hkind; exact size_subgraphStatement_lt inner (.inr hkind)
  · exact size_identStatement_lt inner h
  · exact size_identStatement_lt inner h
  · exact size_identStatement_lt inner h
  · exact @size_advance_lt (reader.report _) h

def endsBlock (reader : TokenReader) : Bool :=
  reader.kind = .rBrace || reader.kind = .endOfInput

theorem kind_ne_endOfInput_of_not_endsBlock {reader : TokenReader} (h : ¬ reader.endsBlock) :
    reader.kind ≠ .endOfInput := by
  rintro hkind
  simp [endsBlock, hkind] at h

/-- Statements up to a closing brace, each with an optional semicolon, behind those read
`before`. -/
def statements (before : Array Statement) (reader : TokenReader) :
    Array Statement × TokenReader :=
  if _h : reader.endsBlock then (before, reader)
  else
    let next := reader.statement inner
    statements (before ++ next.1.toArray) (next.2.skipOver [.semicolon])
termination_by reader.size
decreasing_by
  exact Nat.lt_of_le_of_lt (size_skipOver_le _ _)
    (size_statement_lt inner (by rintro h; simp [endsBlock, h] at _h))

theorem size_statements_le (before : Array Statement) (reader : TokenReader) :
    (reader.statements inner before).2.size ≤ reader.size := by
  fun_induction statements inner before reader
  case case1 => exact Nat.le_refl _
  case case2 h _ ih =>
    refine Nat.le_trans ih (Nat.le_trans (size_skipOver_le _ _) (Nat.le_of_lt ?_))
    exact size_statement_lt inner (kind_ne_endOfInput_of_not_endsBlock h)

/-- The rest of a block that is entered, through its closing brace. -/
def block (before : Array Statement) (reader : TokenReader) : List Statement × TokenReader :=
  let reader := reader.enter
  let reader := if before.isEmpty then reader else reader.skipOver [.semicolon]
  let (statements, reader) := reader.statements inner before
  (statements.toList, (reader.leave.expect .rBrace).2)

theorem size_block_le (before : Array Statement) (reader : TokenReader) :
    (reader.block inner before).2.size ≤ reader.size := by
  unfold block
  refine Nat.le_trans (size_expect_le _ _) ?_
  rw [size_leave]
  refine Nat.le_trans (size_statements_le inner _ _) ?_
  split
  · exact Nat.le_refl reader.size
  · exact size_skipOver_le reader.enter _

/-- Goes through the brace that closes a block, over the blocks in it, of which `opened` are open. -/
def skipBlock (opened : Nat) (reader : TokenReader) : TokenReader :=
  if _h : reader.kind = .endOfInput then reader
  else if reader.kind = .lBrace then skipBlock (opened + 1) reader.advance
  else if reader.kind = .rBrace then
    match opened with
    | 0 => reader.advance
    | opened + 1 => skipBlock opened reader.advance
  else skipBlock opened reader.advance
termination_by reader.size
decreasing_by all_goals exact size_advance_lt _h

theorem size_skipBlock_le (opened : Nat) (reader : TokenReader) :
    (reader.skipBlock opened).size ≤ reader.size := by
  fun_induction skipBlock opened reader
  case case1 => exact Nat.le_refl _
  case case3 => exact size_advance_le _
  all_goals rename_i ih; exact Nat.le_trans ih (size_advance_le _)

/-- A block that is too deep is noted at its opening brace, and what is left of it is left out. -/
def tooDeep (opened : Position) (before : Array Statement) (reader : TokenReader) :
    List Statement × TokenReader :=
  (before.toList, (reader.reportAt opened .nestingTooDeep).skipBlock 0)

/-- Reads a block unless too many are open.  The recursion is on `levels`, how many more may be
opened as far as it knows; the reader's own count decides, and the two agree. -/
def blockReader : (levels : Nat) → BlockReader
  | 0 => ⟨tooDeep, fun _ _ _ => size_skipBlock_le _ _⟩
  | levels + 1 =>
      { read := fun opened before reader =>
          if reader.depth < maxNesting then reader.block (blockReader levels) before
          else tooDeep opened before reader
        size_read_le := by
          intro opened before reader
          split
          · exact size_block_le _ _ _
          · exact size_skipBlock_le _ _ }

theorem read_blockReader_succ (levels : Nat) (opened : Position) (before : Array Statement)
    (reader : TokenReader) :
    (blockReader (levels + 1)).read opened before reader =
      if reader.depth < maxNesting then reader.block (blockReader levels) before
      else reader.tooDeep opened before := rfl

end DotGraph.TokenReader
