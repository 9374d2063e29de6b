import DotGraph.Proofs.Tree.Writing

namespace DotGraph.Tree

/-! Every token that a writable tree is written with has a spelling. -/

def areSpellable (tokens : List Token) : Bool :=
  tokens.all Token.isSpellable

theorem areSpellable_cons (token : Token) (tokens : List Token) :
    areSpellable (token :: tokens) = (token.isSpellable && areSpellable tokens) := rfl

theorem areSpellable_append (front back : List Token) :
    areSpellable (front ++ back) = (areSpellable front && areSpellable back) :=
  List.all_append

theorem isSpellable_token (ident : Ident) : ident.token.isSpellable = ident.isWritable := rfl

theorem areSpellable_ident? (ident : Option Ident) :
    areSpellable (ident.elim [] fun ident => [ident.token]) = ident.all Ident.isWritable := by
  cases ident with
  | none => rfl
  | some ident => exact Bool.and_true _

theorem Port.areSpellable_tokens {port : Port} (h : port.isWritable) :
    areSpellable port.tokens := by
  simp only [isWritable, Bool.and_eq_true] at h
  have hcompass : areSpellable
      (port.compass.elim [] fun compass => [.punctuation .colon, compass.token]) := by
    cases hsome : port.compass with
    | none => rfl
    | some compass =>
        rw [hsome] at h
        have hcompass : compass.isWritable := h.2
        rw [Option.elim_some, areSpellable_cons, areSpellable_cons, isSpellable_token, hcompass]
        rfl
  rw [tokens, areSpellable_cons, areSpellable_append, areSpellable_ident?, h.1.2, hcompass]
  rfl

theorem NodeId.areSpellable_tokens {node : NodeId} (h : node.isWritable) :
    areSpellable node.tokens := by
  rw [isWritable, Bool.and_eq_true] at h
  have hport : areSpellable (node.port.elim [] Port.tokens) := by
    cases hsome : node.port with
    | none => rfl
    | some port =>
        rw [hsome] at h
        exact port.areSpellable_tokens h.2
  rw [tokens, areSpellable_cons, hport, isSpellable_token, h.1]
  rfl

theorem areSpellable_nodes {nodes : List NodeId} (h : nodes.all NodeId.isWritable) :
    areSpellable (nodes.flatMap NodeId.tokens) := by
  induction nodes with
  | nil => rfl
  | cons node nodes ih =>
      rw [List.all_cons, Bool.and_eq_true] at h
      rw [List.flatMap_cons, areSpellable_append, node.areSpellable_tokens h.1, ih h.2]
      rfl

theorem Attribute.areSpellable_tokens {entry : Attribute} (h : entry.isWritable) :
    areSpellable entry.tokens := by
  rw [isWritable, Bool.and_eq_true] at h
  rw [tokens, areSpellable_cons, areSpellable_cons, areSpellable_cons, isSpellable_token,
    isSpellable_token, h.1, h.2]
  rfl

theorem areSpellable_attributes {entries : List Attribute} (h : entries.all Attribute.isWritable) :
    areSpellable ([Token.punctuation .comma].intercalate (entries.map Attribute.tokens)) := by
  induction entries with
  | nil => rfl
  | cons entry entries ih =>
      rw [List.all_cons, Bool.and_eq_true] at h
      have hentry := entry.areSpellable_tokens h.1
      cases entries with
      | nil => rwa [List.map_singleton, List.intercalate_singleton]
      | cons next entries =>
          rw [List.map_cons, List.map_cons, List.intercalate_cons_cons, ← List.map_cons,
            areSpellable_append, areSpellable_append, hentry, ih h.2]
          rfl

theorem areSpellable_attributeList? {list : Option AttributeList}
    (h : list.all AttributeList.isWritable) :
    areSpellable (list.elim [] AttributeList.tokens) := by
  cases list with
  | none => rfl
  | some list =>
      rw [Option.elim_some, AttributeList.tokens, areSpellable_cons, areSpellable_append,
        areSpellable_attributes h]
      rfl

theorem isSpellable_edgeOp (directed : Bool) :
    (Token.punctuation (if directed then .arrow else .dashDash)).isSpellable := by
  cases directed <;> rfl

mutual
theorem Statement.areSpellable_tokens : (statement : Statement) → statement.isWritable →
    areSpellable statement.tokens
  | .node _ node attributes, h => by
      rw [Statement.isWritable, Bool.and_eq_true] at h
      rw [Statement.tokens, areSpellable_append, node.areSpellable_tokens h.1,
        areSpellable_attributeList? h.2]
      rfl
  | .edge _ left hops attributes, h => by
      simp only [Statement.isWritable, Bool.and_eq_true] at h
      obtain ⟨⟨⟨_, hleft⟩, hhops⟩, hattributes⟩ := h
      rw [Statement.tokens, areSpellable_append, areSpellable_append, left.areSpellable_tokens hleft,
        areSpellable_hops hops hhops, areSpellable_attributeList? hattributes]
      rfl
  | .defaults _ subject attributes, h => by
      have hsubject : (Token.word (Grammar.keyword subject)).isSpellable := by
        cases subject <;> decide
      rw [Statement.isWritable] at h
      rw [Statement.tokens, areSpellable_cons, hsubject, areSpellable_attributeList? h]
      rfl
  | .assign _ key value, h => by
      rw [Statement.isWritable, Bool.and_eq_true] at h
      rw [Statement.tokens, areSpellable_cons, areSpellable_cons, areSpellable_cons, isSpellable_token,
        isSpellable_token, h.1, h.2]
      rfl
  | .subgraph body, h => body.areSpellable_tokens h

theorem Endpoint.areSpellable_tokens : (endpoint : Endpoint) → endpoint.isWritable →
    areSpellable endpoint.tokens
  | .node node, h => node.areSpellable_tokens h
  | .group _ nodes, h => by
      rw [Endpoint.isWritable, Bool.and_eq_true] at h
      rw [Endpoint.tokens, areSpellable_cons, areSpellable_append, areSpellable_nodes h.2]
      rfl
  | .subgraph body, h => body.areSpellable_tokens h

theorem areSpellable_hops : (hops : List Hop) → areWritableHops hops →
    areSpellable (tokensOfHops hops)
  | [], _ => rfl
  | ⟨_, directed, endpoint⟩ :: hops, h => by
      rw [areWritableHops, Bool.and_eq_true] at h
      rw [tokensOfHops, areSpellable_cons, areSpellable_append, isSpellable_edgeOp,
        endpoint.areSpellable_tokens h.1, areSpellable_hops hops h.2]
      rfl

theorem Subgraph.areSpellable_tokens : (body : Subgraph) → body.isWritable →
    areSpellable body.tokens
  | ⟨_, ident, statements⟩, h => by
      rw [Subgraph.isWritable, Bool.and_eq_true] at h
      rw [Subgraph.tokens, areSpellable_cons, areSpellable_append, areSpellable_cons, areSpellable_append,
        areSpellable_ident?, h.1, areSpellable_statements statements h.2]
      decide

theorem areSpellable_statements : (statements : List Statement) → areWritable statements →
    areSpellable (tokensOfStatements statements)
  | [], _ => rfl
  | statement :: statements, h => by
      rw [areWritable, Bool.and_eq_true] at h
      rw [tokensOfStatements, areSpellable_append, areSpellable_cons,
        statement.areSpellable_tokens h.1, areSpellable_statements statements h.2]
      rfl
end

theorem Document.areSpellable_tokens {document : Document} (h : document.isWritable) :
    areSpellable document.tokens := by
  simp only [isWritable, Bool.and_eq_true] at h
  have hstrict : areSpellable (if document.strict then [.word .strict] else []) := by
    cases document.strict <;> decide
  have hheader :
      (Token.word (if document.directed then .digraph else .graph)).isSpellable := by
    cases document.directed <;> decide
  rw [tokens, areSpellable_append, areSpellable_cons, areSpellable_append, areSpellable_cons,
    areSpellable_append, hstrict, hheader, areSpellable_ident?, h.1.1,
    areSpellable_statements document.statements h.1.2]
  rfl

end DotGraph.Tree
