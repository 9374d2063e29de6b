import DotGraph.Proofs.Grammar

namespace DotGraph.Grammar

/-! The grammar is ambiguous where a name may be left out of a port, and where braces behind an edge
operator may hold a group or statements.  An eager derivation takes a name wherever one stands, and
takes node ids at the start of such braces for as long as there are any: the derivations that a
reader with one token of look-ahead can come to. -/

/-- The kind of the token that stands first, where `next` is the kind of the one behind. -/
def leading (next : Token.Kind) : List Lexeme → Token.Kind
  | [] => next
  | lexeme :: _ => lexeme.token.kind

@[simp] theorem leading_nil (next : Token.Kind) : leading next [] = next := rfl

@[simp] theorem leading_cons (next : Token.Kind) (lexeme : Lexeme) (rest : List Lexeme) :
    leading next (lexeme :: rest) = lexeme.token.kind := rfl

theorem leading_append (next : Token.Kind) (front back : List Lexeme) :
    leading next (front ++ back) = leading (leading next back) front := by
  cases front <;> rfl

theorem isId_leading_congr {next other : Token.Kind} (h : next.isId = other.isId)
    (front : List Lexeme) : (leading next front).isId = (leading other front).isId := by
  cases front with
  | nil => exact h
  | cons lexeme rest => rfl

@[simp] theorem leading_sign {kind : Token.Kind} (next : Token.Kind) (sign : Sign kind) :
    leading next sign.yield = kind := by
  simpa [Terminal.yield] using sign.admitted

/-- Whether a port ends where one more name might stand. -/
def Port.isOpen (port : Port) : Bool :=
  match port.compass with
  | none => port.name.isNone
  | some compass => compass.name.isNone

/-- No name that the port could have taken comes next. -/
def Port.Eager (next : Token.Kind) (port : Port) : Prop :=
  port.isOpen → next.isId = false

def NodeId.Eager (next : Token.Kind) (node : NodeId) : Prop :=
  ∀ port ∈ node.port, port.Eager next

/-- Of what comes next it only matters whether it is a name. -/
theorem NodeId.Eager.congr {node : NodeId} {next other : Token.Kind} (h : node.Eager next)
    (hsame : next.isId = other.isId) : node.Eager other :=
  fun port hport hopen => hsame.symm.trans (h port hport hopen)

def eagerNodes : List NodeId → Prop
  | [] => True
  | node :: nodes =>
      node.Eager (leading .rBrace (nodes.flatMap NodeId.yield)) ∧ eagerNodes nodes

/-- Whether statements between bare braces are told from a group.  The node ids that they start
with have been `taken`, or not; the last of them has to be a whole statement, and more has to stand
behind it. -/
def Statements.noGroup (taken : Bool) : Statements → Bool
  | .nil => !taken
  | .cons statement semicolon statements =>
      match statement with
      | .node _ none => semicolon.isSome || statements.noGroup true
      | .node _ (some _) | .assign _ _ _ | .edge (.node _) _ _ _ => false
      | .defaults _ _ _ | .subgraph _ | .edge (.subgraph _) _ _ _ => true

def Subgraph.noGroup : Subgraph → Bool
  | .bare _ statements _ => statements.noGroup false
  | .headed _ _ _ _ _ => true

mutual
def Statement.Eager (next : Token.Kind) : Statement → Prop
  | .defaults _ _ _ | .assign _ _ _ => True
  | .subgraph body => body.Eager
  | .node node attributes =>
      node.Eager (leading next (attributes.elim [] AttributeList.yield))
  | .edge left first more attributes =>
      left.Eager ∧
        first.Eager (leading next (more.yield ++ attributes.elim [] AttributeList.yield)) ∧
        more.Eager (leading next (attributes.elim [] AttributeList.yield))

/-- Behind it stands an edge operator. -/
def Left.Eager : Left → Prop
  | .node _ => True
  | .subgraph body => body.Eager

def Link.Eager (next : Token.Kind) : Link → Prop
  | ⟨_, endpoint⟩ => endpoint.Eager next

def Links.Eager (next : Token.Kind) : Links → Prop
  | .nil => True
  | .cons link links => link.Eager (leading next links.yield) ∧ links.Eager next

def Endpoint.Eager (next : Token.Kind) : Endpoint → Prop
  | .node node => node.Eager next
  | .group _ first more _ => eagerNodes (first :: more)
  | .subgraph body => body.noGroup ∧ body.Eager

def Subgraph.Eager : Subgraph → Prop
  | .bare _ statements _ | .headed _ _ _ statements _ => statements.Eager

/-- Behind them stands a closing brace. -/
def Statements.Eager : Statements → Prop
  | .nil => True
  | .cons statement semicolon statements =>
      statement.Eager
        (leading .rBrace (semicolon.elim [] Terminal.yield ++ statements.yield)) ∧
      statements.Eager
end

def Document.Eager (document : Document) : Prop :=
  document.statements.Eager

end DotGraph.Grammar
