import DotGraph.Proofs.Reader.Sight
import DotGraph.Proofs.Token.Tiling

namespace DotGraph.TokenReader

/-! The tree of a description lies over its tokens: no part of it is in front of one that is come to
earlier, no two statements are at one place, and each name is a token, unless it stands for an
attribute value that is missing. -/

open DotGraph.Tree

variable {reader : TokenReader}

/-- On the way through the statements of some nodes all is come to that is in a group of them. -/
theorem sublist_bareVisits (nodes : List NodeId) :
    (nodes.flatMap NodeId.visits).Sublist (visitsOfAll (nodes.map bareStatement)) := by
  induction nodes with
  | nil => exact .slnil
  | cons node nodes ih =>
      rw [List.flatMap_cons, List.map_cons, visitsOfAll, bareStatement, Statement.visits,
        visitsOfAttributes?, Option.elim_none, List.append_nil]
      exact (List.sublist_cons_self _ _).append ih

/-- What the rest of a block adds to the statements before it. -/
def BlockReader.Sees (inner : BlockReader) : Prop :=
  ∀ opened before reader, ∃ statements,
    (inner.read opened before reader).1 = before.toList ++ statements ∧
      TokenReader.Sees reader (visitsOfAll statements) (inner.read opened before reader).2

section

variable {inner : BlockReader} (hinner : inner.Sees)
include hinner

/-- A subgraph may begin something else: a statement, or an edge of which it is the first endpoint. -/
theorem sees_subgraph (hkind : reader.kind = .subgraph ∨ reader.kind = .lBrace) {visit : Visit}
    {more : List Visit} (hposition : ∀ other ∈ visit :: more, other.position = reader.position)
    (hmore : ∀ other ∈ more, other.isStatement = false)
    (hnone : (visit :: more).filterMap Visit.name? = []) :
    reader.Sees (visit :: more ++ (visitsOfIdent? (reader.subgraph inner).1.ident ++
      visitsOfAll (reader.subgraph inner).1.statements)) (reader.subgraph inner).2 := by
  have hend : reader.kind ≠ .endOfInput := by
    rcases hkind with hkind | hkind <;> simp [hkind]
  have hfirst : reader.Sees (visit :: more) reader.advance :=
    .advance_unnamed hend hposition hmore hnone
  unfold subgraph
  rcases hkind with hkind | hkind
  · simp only [hkind, if_true]
    obtain ⟨statements, hstatements, hsees⟩ :=
      hinner reader.advance.ident?.2.position #[] (reader.advance.ident?.2.expect .lBrace).2
    have hbody := (sees_ident? reader.advance).append
      (.pulls_trans (moves_expect _ .lBrace).pulls hsees)
    rw [show (reader.advance.ident?.2.expect .lBrace).1 = reader.advance.ident?.2.position from rfl,
      hstatements]
    exact hfirst.append hbody
  · have hexpect : (reader.expect .lBrace).2 = reader.advance := by simp [expect, hkind]
    simp only [hkind, reduceCtorEq, if_false, hexpect]
    obtain ⟨statements, hstatements, hsees⟩ := hinner reader.position #[] reader.advance
    rw [show (reader.expect .lBrace).1 = reader.position from rfl, hstatements]
    exact hfirst.append hsees

theorem sees_groupOrSubgraph (reader : TokenReader) :
    reader.Sees (reader.groupOrSubgraph inner).1.visits (reader.groupOrSubgraph inner).2 := by
  have hexpect := (moves_expect reader .lBrace).pulls
  obtain ⟨nodes, hnodes, hsees⟩ := sees_nodeIds #[] (reader.expect .lBrace).2
  have hbare := Sees.pulls_trans hexpect hsees
  unfold groupOrSubgraph
  simp only
  split
  · have hpart : reader.Sees [.part reader.position] reader := .lookAhead reader rfl rfl rfl
    rw [Endpoint.visits, hnodes]
    refine (hpart.append (hbare.sublist ?_)).trans_pulls (Pulls.refl _).advance
    exact sublist_bareVisits nodes
  · obtain ⟨statements, hstatements, hrest⟩ := hinner (reader.expect .lBrace).1
      (((reader.expect .lBrace).2.nodeIds #[]).1.map bareStatement)
      ((reader.expect .lBrace).2.nodeIds #[]).2
    have hbody : reader.Sees [.body reader.position (nodes.map bareStatement ++ statements)] reader :=
      .lookAhead reader rfl rfl rfl
    rw [Endpoint.visits, Subgraph.visits, hstatements, Array.toList_map, hnodes, visitsOfAll_append]
    exact hbody.append (hbare.append hrest)

theorem sees_endpoint (reader : TokenReader) :
    (∀ endpoint, (reader.endpoint inner).1 = some endpoint → endpoint.position = reader.position) ∧
      reader.Sees ((reader.endpoint inner).1.toList.flatMap Endpoint.visits)
        (reader.endpoint inner).2 := by
  unfold endpoint
  split
  · rename_i hkind
    refine ⟨fun endpoint h => ?_, ?_⟩
    · obtain rfl := Option.some.inj h
      rfl
    · have hposition : ∀ visit ∈ [Visit.body reader.position (reader.subgraph inner).1.statements],
          visit.position = reader.position := List.forall_mem_singleton.mpr rfl
      rw [Option.toList_some, List.flatMap_singleton, Endpoint.visits]
      exact sees_subgraph hinner (.inl hkind) hposition nofun rfl
  split
  · rename_i hkind
    refine ⟨fun endpoint h => ?_, ?_⟩
    · obtain rfl := Option.some.inj h
      unfold groupOrSubgraph
      simp only
      split <;> rfl
    · rw [Option.toList_some, List.flatMap_singleton]
      exact sees_groupOrSubgraph hinner reader
  split
  · rename_i hid
    refine ⟨fun endpoint h => ?_, ?_⟩
    · obtain rfl := Option.some.inj h
      rfl
    · rw [Option.toList_some, List.flatMap_singleton, Endpoint.visits]
      refine (sees_nodeId hid).sublist ?_
      have hone := sublist_bareVisits [reader.nodeId.1]
      rwa [List.flatMap_singleton, List.map_singleton, visitsOfAll, visitsOfAll,
        List.append_nil] at hone
  · exact ⟨nofun, .of_pulls ((Pulls.refl reader).report _)⟩

theorem sees_hops (before : Array Hop) (reader : TokenReader) :
    ∃ hops, (reader.hops inner before).1.toList = before.toList ++ hops ∧
      reader.Sees (visitsOfHops hops) (reader.hops inner before).2 := by
  fun_induction hops inner before reader with
  | case1 before reader _ next endpoint hendpoint ih =>
      obtain ⟨hops, hhops, hrest⟩ := ih
      obtain ⟨hposition, hsees⟩ := sees_endpoint hinner reader.advance
      rw [show (reader.advance.endpoint inner).1 = some endpoint from hendpoint, Option.toList_some,
        List.flatMap_singleton] at hsees
      have hpart : reader.advance.Sees [.part endpoint.position] reader.advance :=
        .lookAhead _ (hposition endpoint hendpoint) rfl rfl
      refine ⟨⟨endpoint.position, reader.kind = .arrow, endpoint⟩ :: hops, by simp [hhops], ?_⟩
      rw [visitsOfHops]
      exact (Sees.pulls_trans (Pulls.refl reader).advance (hpart.append hsees)).append hrest
  | case2 before reader _ next hnone =>
      exact ⟨[], (List.append_nil _).symm,
        .pulls_trans (Pulls.refl reader).advance (.of_pulls (sees_endpoint hinner _).2.pulls)⟩
  | case3 before reader _ =>
      exact ⟨[], (List.append_nil _).symm, .of_pulls (.refl reader)⟩

theorem sees_edgeStatement (left : Endpoint) (reader : TokenReader) :
    ∃ hops attributes,
      (reader.edgeStatement inner left).1 = .edge left.position left hops attributes ∧
        reader.Sees (visitsOfHops hops ++ visitsOfAttributes? attributes)
          (reader.edgeStatement inner left).2 := by
  obtain ⟨hops, hhops, hsees⟩ := sees_hops hinner #[] reader
  refine ⟨hops, _, ?_, hsees.append (sees_attributeList? (reader.hops inner #[]).2)⟩
  exact congrArg (Statement.edge left.position left · _) hhops

theorem sees_identStatement (hid : reader.kind.isId) :
    reader.Sees ((reader.identStatement inner).1.toList.flatMap Statement.visits)
      (reader.identStatement inner).2 := by
  have hkey : reader.ident.1.position = reader.position := position_ident
  have hnode : reader.Sees
      [.statement reader.position, .part reader.position, .ident reader.ident.1] reader.ident.2 := by
    refine .advance_ident hid ?_ ?_ (List.Sublist.refl _) ?_
    · simp [Visit.position, hkey]
    · simp [Visit.isStatement, Visit.statement?]
    · exact List.forall_mem_singleton.mpr (gives_ident hid)
  have hport := hnode.append (sees_port? reader.ident.2)
  unfold identStatement
  simp only
  split
  · have hassign : reader.Sees [.statement reader.position, .ident reader.ident.1] reader.ident.2 :=
      hnode.sublist (.cons_cons _ (.cons _ (.refl _)))
    unfold assignment
    simp only
    split
    · rename_i hvalue
      have hall := hassign.append (.pulls_trans (Pulls.refl _).advance (sees_ident hvalue))
      rw [Option.toList_some, List.flatMap_singleton, Statement.visits, hkey]
      exact hall
    · exact .of_pulls (hassign.pulls.advance.report _)
  split
  · obtain ⟨hops, attributes, hstatement, hrest⟩ := sees_edgeStatement hinner
      (.node ⟨reader.ident.1.position, reader.ident.1, reader.ident.2.port?.1⟩) reader.ident.2.port?.2
    rw [hstatement, Option.toList_some, List.flatMap_singleton, Statement.visits, Endpoint.visits,
      NodeId.visits, hkey]
    have hall := hport.append hrest
    simpa [Endpoint.position, hkey] using hall
  · have hall := hport.append (sees_attributeList? reader.ident.2.port?.2)
    rw [Option.toList_some, List.flatMap_singleton, Statement.visits, NodeId.visits, hkey]
    simpa using hall

theorem sees_subgraphStatement (hkind : reader.kind = .subgraph ∨ reader.kind = .lBrace) :
    reader.Sees (reader.subgraphStatement inner).1.visits (reader.subgraphStatement inner).2 := by
  have hbody : reader.Sees (.statement reader.position :: (reader.subgraph inner).1.visits)
      (reader.subgraph inner).2 := by
    have hposition : ∀ visit ∈ [Visit.statement reader.position,
        .body reader.position (reader.subgraph inner).1.statements],
        visit.position = reader.position := by
      simp [Visit.position]
    exact sees_subgraph hinner hkind hposition (List.forall_mem_singleton.mpr rfl) rfl
  unfold subgraphStatement
  simp only
  split
  · obtain ⟨hops, attributes, hstatement, hrest⟩ := sees_edgeStatement hinner
      (.subgraph (reader.subgraph inner).1) (reader.subgraph inner).2
    rw [hstatement, Statement.visits, Endpoint.visits, List.append_assoc]
    exact hbody.append hrest
  · exact hbody

theorem sees_statement (hkind : reader.kind ≠ .endOfInput) :
    reader.Sees ((reader.statement inner).1.toList.flatMap Statement.visits)
      (reader.statement inner).2 := by
  have hone : ∀ result : Statement × TokenReader, reader.Sees result.1.visits result.2 →
      reader.Sees ((result.map some id).1.toList.flatMap Statement.visits) (result.map some id).2 := by
    intro result h
    simpa using h
  unfold statement
  split
  · exact hone _ (sees_defaultsStatement .graph hkind)
  · exact hone _ (sees_defaultsStatement .node hkind)
  · exact hone _ (sees_defaultsStatement .edge hkind)
  · exact hone _ (sees_subgraphStatement hinner (.inl ‹_›))
  · exact hone _ (sees_subgraphStatement hinner (.inr ‹_›))
  · exact sees_identStatement hinner (by simp [Token.Kind.isId, *])
  · exact sees_identStatement hinner (by simp [Token.Kind.isId, *])
  · exact sees_identStatement hinner (by simp [Token.Kind.isId, *])
  · exact .of_pulls ((Pulls.refl reader).report _).advance

theorem sees_statements (before : Array Statement) (reader : TokenReader) :
    ∃ statements, (reader.statements inner before).1.toList = before.toList ++ statements ∧
      reader.Sees (visitsOfAll statements) (reader.statements inner before).2 := by
  fun_induction statements inner before reader with
  | case1 before reader _ =>
      exact ⟨[], (List.append_nil _).symm, .of_pulls (.refl reader)⟩
  | case2 before reader hend next ih =>
      obtain ⟨statements, hstatements, hrest⟩ := ih
      have hkind : reader.kind ≠ .endOfInput := kind_ne_endOfInput_of_not_endsBlock hend
      have hfirst := (sees_statement hinner hkind).trans_pulls (moves_skipOver _ [.semicolon]).pulls
      refine ⟨next.1.toList ++ statements, by simp [hstatements], ?_⟩
      rw [visitsOfAll_append, visitsOfAll_eq_flatMap next.1.toList]
      exact hfirst.append hrest

theorem sees_block (before : Array Statement) (reader : TokenReader) :
    ∃ statements, (reader.block inner before).1 = before.toList ++ statements ∧
      reader.Sees (visitsOfAll statements) (reader.block inner before).2 := by
  obtain ⟨statements, hstatements, hsees⟩ := sees_statements hinner before
    (if before.isEmpty then reader.enter else reader.enter.skipOver [.semicolon])
  have hfront := (Pulls.refl reader).enter.trans (moves_separator before reader.enter).pulls
  exact ⟨statements, hstatements, .pulls_trans hfront
    (hsees.trans_pulls ((Pulls.refl _).leave.trans (moves_expect _ .rBrace).pulls))⟩

end

/-- In what is skipped nothing is come to. -/
theorem sees_tooDeep (opened : Position) (before : Array Statement) (reader : TokenReader) :
    ∃ statements, (reader.tooDeep opened before).1 = before.toList ++ statements ∧
      reader.Sees (visitsOfAll statements) (reader.tooDeep opened before).2 :=
  ⟨[], (List.append_nil _).symm, .of_pulls (proceeds_tooDeep opened before reader).pulls⟩

theorem sees_blockReader (levels : Nat) : (blockReader levels).Sees := by
  induction levels with
  | zero => exact sees_tooDeep
  | succ levels ih =>
      intro opened before reader
      rw [read_blockReader_succ]
      split
      · exact sees_block ih before reader
      · exact sees_tooDeep opened before reader

theorem sees_document (reader : TokenReader) :
    reader.Sees reader.document.1.visits reader.document.2 := by
  have hstrict := (moves_strict reader).pulls
  unfold document
  generalize (if reader.kind = .strict then (true, reader.advance) else (false, reader)) = next
    at hstrict ⊢
  simp only
  split
  · obtain ⟨statements, hstatements, hsees⟩ := sees_statements (sees_blockReader maxNesting) #[]
      (next.2.advance.ident?.2.expect .lBrace).2
    have hbody : reader.Sees [.body reader.position statements] reader :=
      .lookAhead reader rfl rfl rfl
    have hname := (sees_ident? next.2.advance).append (.pulls_trans (moves_expect _ .lBrace).pulls
      (hsees.trans_pulls (moves_expect _ .rBrace).pulls))
    rw [Document.visits, hstatements]
    exact hbody.append (.pulls_trans hstrict.advance hname)
  · have hbody : reader.Sees [.body reader.position []] reader := .lookAhead reader rfl rfl rfl
    exact hbody.trans_pulls (hstrict.report _)

end DotGraph.TokenReader

namespace DotGraph

open DotGraph.Tree TokenReader

theorem TokenStream.sorted_start (filename : String) (bytes : ByteArray) :
    (TokenReader.start (ofBytes filename bytes)).Sorted := by
  have hplaces : (TokenReader.start (ofBytes filename bytes)).placesLeft =
      (ofBytes filename bytes).lexemes.map Lexeme.position := by
    rw [lexemes, List.map_append]
    rfl
  have hoffsets := offset_pairwise filename (Text.decodeLossy bytes)
  rw [Sorted, hplaces]
  exact List.pairwise_map.mpr (List.pairwise_map.mp hoffsets)

theorem TokenReader.flavour?_bare {kind : Token.Kind} (h : flavour? kind = some .bare) :
    kind = .ident := by
  cases kind <;> first | rfl | nomatch h

/-- While a description is read, no bare name is empty. -/
theorem TokenReader.text_ne_empty {filename : String} {bytes : ByteArray} {reader : TokenReader}
    (h : (TokenReader.start (TokenStream.ofBytes filename bytes)).Pulls reader)
    (hkind : reader.kind = .ident) : reader.text ≠ "" := by
  unfold kind at hkind
  unfold text
  cases hunread : reader.unread with
  | nil => simp [hunread] at hkind
  | cons lexeme unread =>
      rw [hunread] at hkind
      have hmem : lexeme ∈ reader.unread := hunread ▸ List.mem_cons_self
      rw [h.unread_eq] at hmem
      exact TokenStream.text_ne_empty (List.mem_of_mem_drop hmem) hkind

/-- While a description is read, an attribute has a supplied value exactly where none is written. -/
theorem isSupplied_oneAttribute {filename : String} {bytes : ByteArray} {reader : TokenReader}
    (h : (TokenReader.start (TokenStream.ofBytes filename bytes)).Pulls reader)
    (hid : reader.kind.isId) :
    reader.oneAttribute.1.isSupplied = false ↔
      reader.ident.2.kind = .equal ∧ reader.ident.2.advance.kind.isId := by
  have hkey := ident_eq hid
  have hentry : reader.oneAttribute.1 =
      ⟨reader.position, reader.ident.1, (reader.advance.attributeValue reader.ident.1).1⟩ := by
    rw [oneAttribute, hkey]
  rw [hentry, hkey, attributeValue]
  by_cases hequal : reader.advance.kind = .equal
  · by_cases hvalue : reader.advance.advance.kind.isId
    · refine iff_of_true ?_ ⟨hequal, hvalue⟩
      have hsorted := (TokenStream.sorted_start filename bytes).of_pulls h
      have hlt : reader.position.offset < reader.advance.advance.position.offset :=
        Nat.lt_of_lt_of_le (hsorted.offset_lt_advance (Token.Kind.ne_endOfInput_of_isId hid))
          ((hsorted.of_pulls (Pulls.refl reader).advance).offset_le_of_pulls (Pulls.refl _).advance)
      have hplace : reader.advance.advance.position ≠ reader.position := fun heq =>
        Nat.ne_of_gt hlt (congrArg Position.offset heq)
      have hbare : ¬ (reader.advance.advance.text = "" ∧
          Grammar.flavourOf reader.advance.advance.kind = .bare) := by
        rintro ⟨htext, hflavour⟩
        have hkind := flavour?_bare ((flavour?_of_isId hvalue).trans (congrArg some hflavour))
        exact TokenReader.text_ne_empty h.advance.advance hkind htext
      rw [if_pos hequal]
      simp only [hvalue, if_true, ident_eq hvalue, Attribute.isSupplied]
      rw [Bool.or_eq_false_iff, ← Bool.decide_and]
      exact ⟨decide_eq_false fun heq => hplace (congrArg Ident.position heq),
        decide_eq_false hbare⟩
    · simp [hequal, hvalue, Attribute.isSupplied]
  · simp [hequal, Attribute.isSupplied]

/-- Every description is turned into a tree that lies over it, whatever is wrong with it.  Each part
stands at a token or at the end of input.  On the way through the tree no part is in front of an
earlier one.  Each statement is behind the one that is come to before it, and so in each list behind
the one before it.  The names, but for values that stand for missing ones, are tokens, and in the
order of the tokens. -/
theorem tree_lies_over_source (filename : String) (bytes : ByteArray) :
    let document := (parse filename bytes).document
    let stream := TokenStream.ofBytes filename bytes
    (∀ visit ∈ document.visits, visit.position ∈ stream.lexemes.map Lexeme.position) ∧
      document.visits.Pairwise (fun early late => early.offset ≤ late.offset) ∧
      (document.visits.filterMap Visit.statement?).Pairwise
        (fun early late => early.offset < late.offset) ∧
      (∀ statements ∈ document.visits.filterMap Visit.statements?,
        statements.Pairwise fun early late => early.position.offset < late.position.offset) ∧
      (document.visits.filterMap Visit.ident?).Sublist (Lexeme.idents stream.tokens) := by
  intro document stream
  have hsees := sees_document (TokenReader.start stream)
  have hbefore := (hsees.between (TokenStream.sorted_start filename bytes)).before
  have hstatements : (document.visits.filterMap Visit.statement?).Pairwise
      fun early late => early.offset < late.offset := by
    have hoffset : ∀ (visit : Visit) (place : Position), visit.statement? = some place →
        visit.isStatement ∧ visit.offset = place.offset := by
      intro visit place hplace
      cases visit with
      | statement _ => exact ⟨rfl, congrArg Position.offset (Option.some.inj hplace)⟩
      | part _ | body _ _ | ident _ | supplied _ => nomatch hplace
    refine List.pairwise_filterMap.mpr
      (hbefore.imp fun {first second} h early hearly late hlate => ?_)
    obtain ⟨hfirst, hearly⟩ := hoffset first early hearly
    obtain ⟨hsecond, hlate⟩ := hoffset second late hlate
    rw [← hearly, ← hlate]
    exact h.2 hfirst hsecond
  refine ⟨fun visit hmem => ?_, hbefore.imp And.left, hstatements, fun statements hmem => ?_, ?_⟩
  · have hplace := hsees.places visit hmem
    rw [TokenStream.lexemes, List.map_append]
    exact hplace
  · have hlist := hstatements.sublist (document.listed_visits statements hmem)
    rwa [List.pairwise_map] at hlist
  · exact (List.sublist_append_left _ _).trans hsees.idents

end DotGraph
