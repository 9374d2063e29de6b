import DotGraph.Graph.Assembly
import DotGraph.Proofs.Tree.Writing

namespace DotGraph

namespace Tree

/-! A tree in another style has its parts at other places and writes its names in other ways. -/

structure Style where
  place : Position → Position
  flavour : Flavour → Flavour
  /-- A name that nobody wrote is a bare one in every style. -/
  flavour_bare : flavour .bare = .bare

def Ident.restyle (style : Style) (ident : Ident) : Ident :=
  ⟨style.place ident.position, ident.name, style.flavour ident.flavour⟩

def Port.restyle (style : Style) (port : Port) : Port :=
  ⟨style.place port.position, port.name.map (·.restyle style), port.compass.map (·.restyle style)⟩

def NodeId.restyle (style : Style) (node : NodeId) : NodeId :=
  ⟨style.place node.position, node.ident.restyle style, node.port.map (·.restyle style)⟩

def Attribute.restyle (style : Style) (entry : Attribute) : Attribute :=
  ⟨style.place entry.position, entry.key.restyle style, entry.value.restyle style⟩

def AttributeList.restyle (style : Style) (list : AttributeList) : AttributeList :=
  ⟨style.place list.position, list.attributes.map (·.restyle style)⟩

mutual
def Statement.restyle (style : Style) : Statement → Statement
  | .node position node attributes =>
      .node (style.place position) (node.restyle style) (attributes.map (·.restyle style))
  | .edge position left hops attributes =>
      .edge (style.place position) (left.restyle style) (restyleHops style hops)
        (attributes.map (·.restyle style))
  | .defaults position subject attributes =>
      .defaults (style.place position) subject (attributes.map (·.restyle style))
  | .assign position key value =>
      .assign (style.place position) (key.restyle style) (value.restyle style)
  | .subgraph body => .subgraph (body.restyle style)

def Endpoint.restyle (style : Style) : Endpoint → Endpoint
  | .node node => .node (node.restyle style)
  | .group position nodes => .group (style.place position) (nodes.map (·.restyle style))
  | .subgraph body => .subgraph (body.restyle style)

def restyleHops (style : Style) : List Hop → List Hop
  | [] => []
  | ⟨position, directed, endpoint⟩ :: hops =>
      ⟨style.place position, directed, endpoint.restyle style⟩ :: restyleHops style hops

def Subgraph.restyle (style : Style) : Subgraph → Subgraph
  | ⟨position, ident, statements⟩ =>
      ⟨style.place position, ident.map (·.restyle style), restyleAll style statements⟩

def restyleAll (style : Style) : List Statement → List Statement
  | [] => []
  | statement :: statements => statement.restyle style :: restyleAll style statements
end

def Hop.restyle (style : Style) (hop : Hop) : Hop :=
  ⟨style.place hop.position, hop.directed, hop.endpoint.restyle style⟩

def Document.restyle (style : Style) (document : Document) : Document :=
  ⟨style.place document.position, document.strict, document.directed,
    document.ident.map (·.restyle style), restyleAll style document.statements⟩

variable (style : Style)

theorem restyleHops_eq (hops : List Hop) : restyleHops style hops = hops.map (·.restyle style) := by
  induction hops with
  | nil => rw [restyleHops, List.map_nil]
  | cons hop hops ih =>
      obtain ⟨_, _, _⟩ := hop
      rw [restyleHops, ih, List.map_cons]
      rfl

theorem restyleAll_eq (statements : List Statement) :
    restyleAll style statements = statements.map (·.restyle style) := by
  induction statements with
  | nil => rw [restyleAll, List.map_nil]
  | cons statement statements ih => rw [restyleAll, ih, List.map_cons]

@[simp] theorem NodeId.name_restyle (node : NodeId) : (node.restyle style).name = node.name := rfl

theorem Endpoint.position_restyle (endpoint : Endpoint) :
    (endpoint.restyle style).position = style.place endpoint.position := by
  cases endpoint with
  | node _ | group _ _ =>
      rw [Endpoint.restyle]
      rfl
  | subgraph body =>
      obtain ⟨_, _, _⟩ := body
      rw [Endpoint.restyle, Subgraph.restyle]
      rfl

theorem map_name_restyle (ident : Option Ident) :
    (ident.map (·.restyle style)).map Ident.name = ident.map Ident.name := by
  cases ident <;> rfl

theorem AttributeList.pairs_restyle (list : AttributeList) :
    (list.restyle style).pairs = list.pairs := by
  unfold AttributeList.pairs AttributeList.restyle
  rw [List.map_map]
  rfl

/-! Without its places a tree is the same in a style that keeps how its names are written. -/

def Style.placed (place : Position → Position) : Style :=
  ⟨place, id, rfl⟩

def Style.placeless : Style :=
  .placed fun _ => .nowhere

mutual
theorem Statement.unplaced_eq :
    (statement : Statement) → statement.unplaced = statement.restyle .placeless
  | .node _ _ _ | .defaults _ _ _ | .assign _ _ _ => by
      rw [Statement.unplaced, Statement.restyle]
      rfl
  | .edge _ left hops _ => by
      rw [Statement.unplaced, Statement.restyle, left.unplaced_eq, unplacedHops_eq hops]
      rfl
  | .subgraph body => by rw [Statement.unplaced, Statement.restyle, body.unplaced_eq]

theorem Endpoint.unplaced_eq :
    (endpoint : Endpoint) → endpoint.unplaced = endpoint.restyle .placeless
  | .node _ | .group _ _ => by
      rw [Endpoint.unplaced, Endpoint.restyle]
      rfl
  | .subgraph body => by rw [Endpoint.unplaced, Endpoint.restyle, body.unplaced_eq]

theorem unplacedHops_eq :
    (hops : List Hop) → unplacedHops hops = restyleHops .placeless hops
  | [] => by rw [unplacedHops, restyleHops]
  | ⟨_, _, endpoint⟩ :: hops => by
      rw [unplacedHops, restyleHops, endpoint.unplaced_eq, unplacedHops_eq hops]
      rfl

theorem Subgraph.unplaced_eq :
    (body : Subgraph) → body.unplaced = body.restyle .placeless
  | ⟨_, _, statements⟩ => by
      rw [Subgraph.unplaced, Subgraph.restyle, unplacedAll_eq statements]
      rfl

theorem unplacedAll_eq :
    (statements : List Statement) → unplacedAll statements = restyleAll .placeless statements
  | [] => by rw [unplacedAll, restyleAll]
  | statement :: statements => by
      rw [unplacedAll, restyleAll, statement.unplaced_eq, unplacedAll_eq statements]
end

theorem Document.unplaced_eq (document : Document) :
    document.unplaced = document.restyle .placeless := by
  rw [Document.unplaced, Document.restyle, unplacedAll_eq]
  rfl

end Tree

namespace Assembly

/-! The graph of a tree is a matter of its names alone. -/

open DotGraph.Tree

variable (style : Style)

theorem pairsOf_restyle (attributes : Option AttributeList) :
    pairsOf (attributes.map (·.restyle style)) = pairsOf attributes := by
  cases attributes with
  | none => rfl
  | some list => exact list.pairs_restyle style

theorem assignments_restyle (statements : List Statement) :
    assignments (restyleAll style statements) = assignments statements := by
  induction statements with
  | nil => rw [restyleAll]
  | cons statement statements ih =>
      unfold assignments at ih ⊢
      rw [restyleAll, List.filterMap_cons, List.filterMap_cons, ih]
      cases statement with
      | assign _ _ _ =>
          rw [Statement.restyle]
          rfl
      | node _ _ _ | edge _ _ _ _ | defaults _ _ _ | subgraph _ => rw [Statement.restyle]

theorem setDefaults_restyle (assembly : Assembly) (subject : Subject)
    (attributes : Option AttributeList) :
    assembly.setDefaults subject (attributes.map (·.restyle style)) =
      assembly.setDefaults subject attributes := by
  unfold setDefaults
  rw [pairsOf_restyle]

theorem addLinks_restyle (assembly : Assembly) (attributes : Option AttributeList)
    (left right : List String) :
    assembly.addLinks (attributes.map (·.restyle style)) left right =
      assembly.addLinks attributes left right := by
  unfold addLinks addLink
  rw [pairsOf_restyle]

mutual
theorem addStatements_restyle (group : Option String) :
    (statements : List Statement) → (assembly : Assembly) → (ids : FirstSeen) →
    addStatements group (restyleAll style statements) assembly ids =
      addStatements group statements assembly ids
  | [], assembly, ids => by rw [restyleAll]
  | statement :: statements, assembly, ids => by
      rw [restyleAll, addStatements, addStatements, addStatement_restyle group statement]
      exact addStatements_restyle group statements _ _

theorem addStatement_restyle (group : Option String) :
    (statement : Statement) → (assembly : Assembly) → (ids : FirstSeen) →
    addStatement group (statement.restyle style) assembly ids =
      addStatement group statement assembly ids
  | .node _ node attributes, assembly, ids => by
      rw [Statement.restyle, addStatement, addStatement, describeNode, describeNode,
        pairsOf_restyle, NodeId.name_restyle]
  | .edge _ left hops attributes, assembly, ids => by
      rw [Statement.restyle, addStatement, addStatement, addEndpoint_restyle group left]
      exact addHops_restyle group attributes hops _ _ _
  | .defaults _ subject attributes, assembly, ids => by
      rw [Statement.restyle, addStatement, addStatement, setDefaults_restyle]
  | .assign _ _ _, assembly, ids => by rw [Statement.restyle, addStatement, addStatement]
  | .subgraph body, assembly, ids => by
      rw [Statement.restyle, addStatement, addStatement, addSubgraph_restyle group body]

theorem addHops_restyle (group : Option String) (attributes : Option AttributeList) :
    (hops : List Hop) → (left : List String) → (assembly : Assembly) → (ids : FirstSeen) →
    addHops group (attributes.map (·.restyle style)) left (restyleHops style hops) assembly ids =
      addHops group attributes left hops assembly ids
  | [], left, assembly, ids => by rw [restyleHops, addHops, addHops]
  | ⟨_, _, endpoint⟩ :: hops, left, assembly, ids => by
      rw [restyleHops, addHops, addHops, addEndpoint_restyle group endpoint]
      simp only [addLinks_restyle]
      exact addHops_restyle group attributes hops _ _ _

theorem addEndpoint_restyle (group : Option String) :
    (endpoint : Endpoint) → (assembly : Assembly) →
    addEndpoint group (endpoint.restyle style) assembly = addEndpoint group endpoint assembly
  | .node node, assembly => by
      rw [Endpoint.restyle, addEndpoint, addEndpoint, NodeId.name_restyle]
  | .group _ nodes, assembly => by
      rw [Endpoint.restyle, addEndpoint, addEndpoint, List.map_map]
      rfl
  | .subgraph body, assembly => by
      rw [Endpoint.restyle, addEndpoint, addEndpoint, addSubgraph_restyle group body]

theorem addSubgraph_restyle (group : Option String) :
    (body : Subgraph) → (assembly : Assembly) →
    addSubgraph group (body.restyle style) assembly = addSubgraph group body assembly
  | ⟨_, ident, statements⟩, assembly => by
      rw [Subgraph.restyle, addSubgraph, addSubgraph, map_name_restyle,
        addStatements_restyle _ statements]
      cases ident with
      | none => rfl
      | some ident =>
          simp only [Option.map_some, recordSubgraph, assignments_restyle]
end

end Assembly

theorem Tree.Document.toGraph_restyle (style : Style) (document : Document) :
    (document.restyle style).toGraph = document.toGraph := by
  unfold Document.toGraph Assembly.ofDocument Assembly.process Document.restyle
  rw [map_name_restyle, Assembly.addStatements_restyle]

end DotGraph
