import DotGraph.Proofs.Grammar.Eager

namespace DotGraph.Grammar

/-! Which tokens may stand next to a statement. -/

def startsStatement (kind : Token.Kind) : Bool :=
  kind.isId || kind == .graph || kind == .node || kind == .edge || kind == .subgraph ||
    kind == .lBrace

/-- A statement goes to a semicolon, to the next statement or to the closing brace. -/
def followsStatement (kind : Token.Kind) : Bool :=
  startsStatement kind || kind == .semicolon || kind == .rBrace

/-- The names of a statement go to its attributes, or to what follows it. -/
def followsNames (kind : Token.Kind) : Bool :=
  followsStatement kind || kind == .lBracket

theorem followsNames_ne {kind : Token.Kind} (h : followsNames kind) :
    kind ≠ .colon ∧ kind ≠ .equal ∧ kind.isEdgeOp = false := by
  revert h
  cases kind <;> decide

theorem followsStatement_ne {kind : Token.Kind} (h : followsStatement kind) :
    kind ≠ .lBracket := by
  revert h
  cases kind <;> decide

theorem followsNames_leading {next : Token.Kind} (h : followsStatement next)
    (attributes : Option AttributeList) :
    followsNames (leading next (attributes.elim [] AttributeList.yield)) := by
  cases attributes with
  | none =>
      rw [Option.elim_none, leading_nil]
      simp [followsNames, h]
  | some list =>
      simp only [Option.elim_some, AttributeList.yield, Bracket.yield, leading_append, leading_sign]
      decide

theorem startsStatement_of_isId {kind : Token.Kind} (h : kind.isId) : startsStatement kind := by
  simp [startsStatement, h]

theorem leading_subgraph (next : Token.Kind) (body : Subgraph) (behind : List Lexeme) :
    leading next (body.yield ++ behind) = .lBrace ∨
      leading next (body.yield ++ behind) = .subgraph := by
  cases body with
  | bare opening statements closing =>
      left
      simp only [Subgraph.yield, List.append_assoc, leading_append, leading_sign]
  | headed keyword id opening statements closing =>
      right
      simp only [Subgraph.yield, List.append_assoc, leading_append, leading_sign]

theorem leading_link (next : Token.Kind) (link : Link) (behind : List Lexeme) :
    leading next (link.yield ++ behind) = link.op.kind := by
  cases link
  rfl

theorem startsStatement_leading (next : Token.Kind) (statement : Statement)
    (behind : List Lexeme) :
    startsStatement (leading next (statement.yield ++ behind)) := by
  have hsubgraph : ∀ (body : Subgraph) (more : List Lexeme),
      startsStatement (leading next (body.yield ++ more)) := by
    intro body more
    rcases leading_subgraph next body more with h | h <;> rw [h] <;> decide
  cases statement with
  | defaults subject keyword attributes =>
      simp only [Statement.yield, List.append_assoc, leading_append, leading_sign]
      cases subject <;> decide
  | subgraph body => exact hsubgraph body behind
  | assign key equal value => exact startsStatement_of_isId key.admitted
  | node node attributes => exact startsStatement_of_isId node.id.admitted
  | edge left first more attributes =>
      cases left with
      | node node => exact startsStatement_of_isId node.id.admitted
      | subgraph body =>
          simp only [Statement.yield, Left.yield, List.append_assoc]
          exact hsubgraph body _

theorem followsStatement_leading (semicolon : Option (Sign .semicolon)) (body : Statements)
    (closing : Sign .rBrace) (next : Token.Kind) (rest : List Lexeme) :
    followsStatement (leading next
      (semicolon.elim [] Terminal.yield ++ (body.yield ++ (closing.yield ++ rest)))) := by
  cases semicolon with
  | some semicolon =>
      rw [Option.elim_some, leading_append, leading_sign]
      decide
  | none =>
      rw [Option.elim_none, List.nil_append]
      cases body with
      | nil =>
          rw [Statements.yield, List.nil_append, leading_append, leading_sign]
          decide
      | cons statement semicolon statements =>
          rw [Statements.yield, List.append_assoc, List.append_assoc]
          simp [followsStatement, startsStatement_leading]

/-- Statements that a run of node ids starts: what a reader has taken when it has taken all the node
ids, and what is left then. -/
structure Run (taken : Bool) (statements : Statements) where
  nodes : List NodeId
  semicolon : Option (Sign .semicolon)
  body : Statements
  yield_eq : statements.yield =
    nodes.flatMap NodeId.yield ++ (semicolon.elim [] Terminal.yield ++ body.yield)
  trees_eq : statements.trees =
    nodes.map (fun node => TokenReader.bareStatement node.tree) ++ body.trees
  eagerNodes : eagerNodes nodes
  eager : body.Eager
  nesting_le : body.nesting ≤ statements.nesting
  semicolon_eq : nodes = [] → semicolon = none
  ends : (leading .rBrace (semicolon.elim [] Terminal.yield ++ body.yield)).isId = false
  goesOn : taken ∨ nodes ≠ [] →
    leading .rBrace (semicolon.elim [] Terminal.yield ++ body.yield) ≠ .rBrace

def Run.empty {taken : Bool} {statements : Statements} (heager : statements.Eager)
    (hid : (leading .rBrace statements.yield).isId = false)
    (hbrace : taken → leading .rBrace statements.yield ≠ .rBrace) : Run taken statements where
  nodes := []
  semicolon := none
  body := statements
  yield_eq := rfl
  trees_eq := rfl
  eagerNodes := trivial
  eager := heager
  nesting_le := Nat.le_refl _
  semicolon_eq := fun _ => rfl
  ends := hid
  goesOn := by simpa using hbrace

theorem leading_subgraph_ne (next : Token.Kind) (body : Subgraph) (behind : List Lexeme) :
    (leading next (body.yield ++ behind)).isId = false ∧
      leading next (body.yield ++ behind) ≠ .rBrace := by
  rcases leading_subgraph next body behind with h | h <;> rw [h] <;> decide

theorem Statements.exists_run {taken : Bool} :
    (statements : Statements) → statements.noGroup taken → statements.Eager →
      Nonempty (Run taken statements)
  | .nil, hgroup, heager =>
      ⟨.empty heager rfl (by simp_all [noGroup])⟩
  | .cons statement semicolon statements, hgroup, heager => by
      cases statement with
      | defaults subject keyword attributes =>
          refine ⟨.empty heager ?_ fun _ => ?_⟩ <;>
            simp only [yield, Statement.yield, List.append_assoc, leading_append, leading_sign] <;>
            cases subject <;> decide
      | subgraph body =>
          have h := leading_subgraph_ne .rBrace body
            (semicolon.elim [] Terminal.yield ++ statements.yield)
          rw [← List.append_assoc] at h
          exact ⟨.empty heager h.1 fun _ => h.2⟩
      | assign key equal value => exact absurd hgroup (by simp [noGroup])
      | edge left first more attributes =>
          cases left with
          | node node => exact absurd hgroup (by simp [noGroup])
          | subgraph body =>
              have h := leading_subgraph_ne .rBrace body (first.yield ++ (more.yield ++
                (attributes.elim [] AttributeList.yield ++
                  (semicolon.elim [] Terminal.yield ++ statements.yield))))
              simp only [← List.append_assoc] at h
              exact ⟨.empty heager h.1 fun _ => h.2⟩
      | node node attributes =>
          cases attributes with
          | some attributes => exact absurd hgroup (by simp [noGroup])
          | none =>
              cases semicolon with
              | some semicolon =>
                  exact ⟨{
                    nodes := [node], semicolon := some semicolon, body := statements
                    yield_eq := by simp [yield, Statement.yield]
                    trees_eq := rfl
                    eagerNodes := ⟨heager.1.congr (by simp [leading_append]; rfl), trivial⟩
                    eager := heager.2
                    nesting_le := Nat.le_max_right _ _
                    semicolon_eq := by simp
                    ends := by simp [leading_append]; rfl
                    goesOn := by simp [leading_append] }⟩
              | none =>
                  obtain ⟨run⟩ := exists_run statements hgroup heager.2
                  -- the node is followed by the run, or by what ends it
                  have hnext : (leading .rBrace statements.yield).isId =
                      (leading .rBrace (run.nodes.flatMap NodeId.yield)).isId := by
                    rw [run.yield_eq, leading_append]
                    exact isId_leading_congr (run.ends.trans rfl) _
                  exact ⟨{
                    nodes := node :: run.nodes, semicolon := run.semicolon, body := run.body
                    yield_eq := by simp [yield, Statement.yield, run.yield_eq]
                    trees_eq := by simp [trees, run.trees_eq]; rfl
                    eagerNodes := ⟨heager.1.congr hnext, run.eagerNodes⟩
                    eager := run.eager
                    nesting_le := Nat.le_trans run.nesting_le (Nat.le_max_right _ _)
                    semicolon_eq := by simp
                    ends := run.ends
                    goesOn := fun _ => run.goesOn (.inl rfl) }⟩

/-! Node ids that turn out to be the first statements of a body. -/

namespace Statements

/-- Statements that start with node ids, which the last one may end with a semicolon. -/
def startingWith (semicolon : Option (Sign .semicolon)) (rest : Statements) :
    NodeId → List NodeId → Statements
  | first, [] => .cons (.node first none) semicolon rest
  | first, second :: more =>
      .cons (.node first none) none (startingWith semicolon rest second more)

variable (semicolon : Option (Sign .semicolon)) (rest : Statements)

theorem yield_startingWith (first : NodeId) (more : List NodeId) :
    (startingWith semicolon rest first more).yield =
      (first :: more).flatMap NodeId.yield ++ semicolon.elim [] Terminal.yield ++ rest.yield := by
  induction more generalizing first with
  | nil => simp [startingWith, Statements.yield, Statement.yield]
  | cons second more ih =>
      simp only [startingWith, Statements.yield, Statement.yield, ih, Option.elim_none,
        List.append_nil, List.flatMap_cons, List.append_assoc]

theorem trees_startingWith (first : NodeId) (more : List NodeId) :
    (startingWith semicolon rest first more).trees =
      (first :: more).map (fun node => TokenReader.bareStatement node.tree) ++ rest.trees := by
  induction more generalizing first with
  | nil => rfl
  | cons second more ih =>
      simp only [startingWith, Statements.trees, ih, List.map_cons, List.cons_append]
      rfl

theorem nesting_startingWith (first : NodeId) (more : List NodeId) :
    (startingWith semicolon rest first more).nesting = rest.nesting := by
  induction more generalizing first with
  | nil => simp [startingWith, Statements.nesting, Statement.nesting]
  | cons second more ih =>
      simp [startingWith, Statements.nesting, Statement.nesting, ih]

theorem eager_startingWith (first : NodeId) (more : List NodeId)
    (hnodes : eagerNodes (first :: more)) (hrest : rest.Eager)
    (hlast : (leading .rBrace (semicolon.elim [] Terminal.yield ++ rest.yield)).isId = false) :
    (startingWith semicolon rest first more).Eager := by
  induction more generalizing first with
  | nil => exact ⟨hnodes.1.congr hlast.symm, hrest⟩
  | cons second more ih =>
      refine ⟨?_, ih second hnodes.2⟩
      rw [yield_startingWith]
      exact hnodes.1

theorem noGroup_of_leading {taken : Bool} (h : (leading .rBrace rest.yield).isId = false)
    (hne : taken → rest ≠ .nil) : rest.noGroup taken := by
  cases rest with
  | nil => simpa [noGroup] using hne
  | cons statement semicolon statements =>
      cases statement with
      | defaults _ _ _ => rfl
      | subgraph _ => rfl
      | assign key _ _ => exact absurd (key.admitted.symm.trans h) (by decide)
      | node node _ => exact absurd (node.id.admitted.symm.trans h) (by decide)
      | edge left _ _ _ =>
          cases left with
          | node node => exact absurd (node.id.admitted.symm.trans h) (by decide)
          | subgraph _ => rfl

theorem noGroup_startingWith (taken : Bool) (first : NodeId) (more : List NodeId)
    (hlast : semicolon.isSome || rest.noGroup true) :
    (startingWith semicolon rest first more).noGroup taken := by
  induction more generalizing first taken with
  | nil => exact hlast
  | cons second more ih => exact ih true second

end Statements

end DotGraph.Grammar
