import DotGraph.Text.Quoted

namespace DotGraph

/-! Tokens: a kind, and the text where the kind does not fix it. -/

inductive Token.Kind where
  | illegal
  | endOfInput
  | ident
  | quoted
  | html
  | lBrace
  | rBrace
  | lBracket
  | rBracket
  | semicolon
  | colon
  | comma
  | equal
  | arrow
  | dashDash
  | strict
  | graph
  | digraph
  | subgraph
  | node
  | edge
deriving DecidableEq, Repr, Inhabited

namespace Token.Kind

def name : Token.Kind → String
  | illegal => "ILLEGAL"
  | endOfInput => "EOF"
  | ident => "IDENT"
  | quoted => "STRING"
  | html => "HTML"
  | lBrace => "\x7b"
  | rBrace => "\x7d"
  | lBracket => "["
  | rBracket => "]"
  | semicolon => ";"
  | colon => ":"
  | comma => ","
  | equal => "="
  | arrow => "->"
  | dashDash => "--"
  | strict => "strict"
  | graph => "graph"
  | digraph => "digraph"
  | subgraph => "subgraph"
  | node => "node"
  | edge => "edge"

def isKeyword : Token.Kind → Bool
  | strict | graph | digraph | subgraph | node | edge => true
  | _ => false

/-- Bare words, quoted texts and HTML texts name things alike. -/
def isId : Token.Kind → Bool
  | ident | quoted | html => true
  | _ => false

def isEdgeOp : Token.Kind → Bool
  | arrow | dashDash => true
  | _ => false

def keywords : List Token.Kind :=
  [strict, graph, digraph, subgraph, node, edge]

/-- Keywords are recognised in any mixture of ASCII cases. -/
def ofWord (word : List Char) : Token.Kind :=
  (keywords.find? fun keyword =>
    keyword.name.toList == word.map Char.toLower).getD ident

end Token.Kind

structure Token where
  kind : Token.Kind
  text : String
deriving DecidableEq, Repr

namespace Token

def punctuation (kind : Token.Kind) : Token := ⟨kind, ""⟩

def display (token : Token) : String :=
  if token.text.isEmpty || token.kind.isKeyword then token.kind.name
  else token.kind.name ++ " " ++ Text.quoted token.text

end Token

end DotGraph
