import DotGraph.Proofs.Reader.Takes

namespace DotGraph.TokenReader

/-! The flat parts of statements that are read without a fault have been derived by the grammar, and
the derivation is eager. -/

open DotGraph.Grammar

theorem flavour?_eq_some {kind : Token.Kind} {flavour : Tree.Flavour}
    (h : flavour? kind = some flavour) : kind.isId ∧ flavourOf kind = flavour := by
  cases kind <;> simp_all [flavour?, flavourOf, Token.Kind.isId]

theorem exists_id {reader : TokenReader} (h : reader.kind.isId) :
    ∃ id : Id, reader.unread = id.lexeme :: reader.advance.unread :=
  exists_terminal h rfl

theorem faultOr_ident (reader : TokenReader) :
    FaultOr reader reader.ident.2 fun spelling =>
      ∃ id : Id, id.yield = spelling ∧ id.tree = reader.ident.1 := by
  unfold ident
  split
  · rename_i flavour h
    obtain ⟨hid, hflavour⟩ := flavour?_eq_some h
    obtain ⟨id, hunread⟩ := exists_id hid
    refine .of_takes (takes_advance hunread) ⟨id, rfl, ?_⟩
    rw [← hflavour, position_eq hunread, text_eq hunread, kind_eq hunread]
    rfl
  · exact .inl (faults_report_lt reader _)

theorem faultOr_ident? (reader : TokenReader) :
    FaultOr reader reader.ident?.2 fun spelling =>
      ∃ name : Option Id, name.elim [] Terminal.yield = spelling ∧
        name.map Id.tree = reader.ident?.1 ∧
        (name = none → reader.ident?.2.kind.isId = false) := by
  unfold ident?
  split
  · refine (faultOr_ident reader).mono ?_
    intro spelling _ described
    obtain ⟨id, hyield, htree⟩ := described
    exact ⟨some id, hyield, congrArg some htree, by simp⟩
  · rename_i h
    exact .nothing reader ⟨none, rfl, rfl, fun _ => by simpa using h⟩

theorem faultOr_compass? (reader : TokenReader) :
    FaultOr reader reader.compass?.2 fun spelling =>
      ∃ compass : Option Compass, compass.elim [] Compass.yield = spelling ∧
        (compass.bind fun compass => compass.name.map Id.tree) = reader.compass?.1 ∧
        (compass = none → reader.compass?.2.kind = reader.kind) ∧
        ∀ some ∈ compass, some.name = none → reader.compass?.2.kind.isId = false := by
  unfold compass?
  split
  · rename_i h
    obtain ⟨colon, hunread⟩ := exists_sign h (by decide)
    refine ((faultOr_advance hunread).append (faultOr_ident? reader.advance)).mono ?_
    intro spelling _ described
    obtain ⟨_, _, rfl, rfl, name, rfl, htree, hnext⟩ := described
    exact ⟨some ⟨colon, name⟩, rfl, htree, by simp, by simpa using hnext⟩
  · exact .nothing reader ⟨none, rfl, rfl, fun _ => rfl, by simp⟩

theorem faultOr_port (reader : TokenReader) :
    FaultOr reader reader.port.2 fun spelling =>
      ∃ port : Port, port.yield = spelling ∧ port.tree = reader.port.1 ∧
        port.Eager reader.port.2.kind := by
  have hcolon := @faultOr_expect reader .colon (by decide)
  have hname := faultOr_ident? (reader.expect .colon).2
  have hcompass := faultOr_compass? (reader.expect .colon).2.ident?.2
  refine ((hcolon.append hname).append hcompass).mono ?_
  intro spelling _ described
  obtain ⟨_, _, rfl, ⟨_, _, rfl, ⟨colon, rfl, hposition⟩, name, rfl, htree, hnext⟩, compass, rfl,
    hcompassTree, hsame, hlast⟩ := described
  refine ⟨⟨colon, name, compass⟩, rfl, ?_, ?_⟩
  · simp only [Port.tree, hposition, htree, hcompassTree]
    rfl
  · intro hopen
    cases compass with
    | none =>
        have hname : name = none := by simpa [Port.isOpen] using hopen
        exact (congrArg Token.Kind.isId (hsame rfl)).trans (hnext hname)
    | some compass => exact hlast compass rfl (by simpa [Port.isOpen] using hopen)

theorem faultOr_port? (reader : TokenReader) :
    FaultOr reader reader.port?.2 fun spelling =>
      ∃ port : Option Port, port.elim [] Port.yield = spelling ∧
        port.map Port.tree = reader.port?.1 ∧
        ∀ some ∈ port, some.Eager reader.port?.2.kind := by
  unfold port?
  split
  · refine (faultOr_port reader).mono ?_
    intro spelling _ described
    obtain ⟨port, hyield, htree, heager⟩ := described
    exact ⟨some port, hyield, congrArg some htree, by simpa using heager⟩
  · exact .nothing reader ⟨none, rfl, rfl, by simp⟩

/-- What is read where an identifier stands starts there. -/
theorem position_ident {reader : TokenReader} : reader.ident.1.position = reader.position := by
  unfold ident
  split <;> rfl

theorem faultOr_nodeId (reader : TokenReader) :
    FaultOr reader reader.nodeId.2 fun spelling =>
      ∃ node : NodeId, node.yield = spelling ∧ node.tree = reader.nodeId.1 ∧
        node.Eager reader.nodeId.2.kind := by
  refine ((faultOr_ident reader).append (faultOr_port? reader.ident.2)).mono ?_
  intro spelling _ described
  obtain ⟨_, _, rfl, ⟨id, rfl, hid⟩, port, rfl, hport, heager⟩ := described
  refine ⟨⟨id, port⟩, rfl, ?_, heager⟩
  have hposition : id.position = reader.position := by
    rw [← position_ident, ← hid]
    rfl
  simp only [NodeId.tree, hposition, hid, hport]
  rfl

theorem faultOr_skipOver (reader : TokenReader) {kinds : List Token.Kind}
    {admits : Token.Kind → Bool} (hkinds : ∀ kind ∈ kinds, admits kind)
    (hend : admits .endOfInput = false) :
    FaultOr reader (reader.skipOver kinds) fun spelling =>
      ∃ skipped : Option (Terminal admits), skipped.elim [] Terminal.yield = spelling := by
  unfold skipOver
  split
  · rename_i h
    obtain ⟨skipped, hunread⟩ := exists_terminal (hkinds _ h) hend
    exact .of_takes (takes_advance hunread) ⟨some skipped, rfl⟩
  · exact .nothing reader ⟨none, rfl⟩

theorem faultOr_nodeIds (before : Array Tree.NodeId) (reader : TokenReader) :
    FaultOr reader (reader.nodeIds before).2 fun spelling =>
      ∃ nodes : List NodeId, nodes.flatMap NodeId.yield = spelling ∧
        (reader.nodeIds before).1.toList = before.toList ++ nodes.map NodeId.tree ∧
        eagerNodes nodes ∧ (reader.nodeIds before).2.kind.isId = false := by
  fun_induction nodeIds before reader with
  | case1 before reader h next ih =>
      refine ((faultOr_nodeId reader).append ih.and_takes).mono ?_
      intro spelling _ described
      obtain ⟨_, rest, rfl, ⟨node, rfl, htree, heager⟩, htakes, nodes, rfl, htrees, heagers, hlast⟩
        := described
      refine ⟨node :: nodes, rfl, ?_, ⟨?_, heagers⟩, hlast⟩
      · simp only [htrees, Array.toList_push, List.append_assoc, List.map_cons, htree]
        rfl
      · -- behind the last node stands something else than a name, if not the brace
        refine heager.congr ?_
        rw [htakes.kind_eq]
        exact isId_leading_congr (hlast.trans rfl) _
  | case2 before reader h =>
      exact .nothing reader ⟨[], rfl, by simp, trivial, by simpa using h⟩

theorem faultOr_attributeValue (reader : TokenReader) (key : Tree.Ident) :
    FaultOr reader (reader.attributeValue key).2 fun spelling =>
      ∃ value : Option Value, value.elim [] Value.yield = spelling ∧
        value.elim ⟨key.position, "true", .bare⟩ (fun value => value.id.tree) =
          (reader.attributeValue key).1 := by
  unfold attributeValue
  split
  · rename_i h
    obtain ⟨equal, hunread⟩ := exists_sign h (by decide)
    simp only
    split
    · refine ((faultOr_advance hunread).append (faultOr_ident reader.advance)).mono ?_
      intro spelling _ described
      obtain ⟨_, _, rfl, rfl, id, rfl, htree⟩ := described
      exact ⟨some ⟨equal, id⟩, rfl, htree⟩
    · exact .inl (faults_report_lt reader.advance _)
  · exact .nothing reader ⟨none, rfl, rfl⟩

theorem faultOr_oneAttribute (reader : TokenReader) :
    FaultOr reader reader.oneAttribute.2 fun spelling =>
      ∃ entry : Attribute, entry.yield = spelling ∧ entry.tree = reader.oneAttribute.1 := by
  have hvalue := faultOr_attributeValue reader.ident.2 reader.ident.1
  have hseparator := @faultOr_skipOver (reader.ident.2.attributeValue reader.ident.1).2
    [.semicolon, .comma] isSeparator (by decide) rfl
  refine (((faultOr_ident reader).append hvalue).append hseparator).mono ?_
  intro spelling _ described
  obtain ⟨_, _, rfl, ⟨_, _, rfl, ⟨key, rfl, hkey⟩, value, rfl, hvalue⟩, separator, rfl⟩ := described
  refine ⟨⟨key, value, separator⟩, rfl, ?_⟩
  rw [← hkey] at hvalue
  have hposition : key.position = reader.position := by
    rw [← position_ident, ← hkey]
    rfl
  simp only [oneAttribute, Attribute.tree]
  rw [← hposition, ← hkey, ← hvalue]
  rfl

theorem faultOr_attributes (before : Array Tree.Attribute) (reader : TokenReader) :
    FaultOr reader (reader.attributes before).2 fun spelling =>
      ∃ entries : List Attribute, entries.flatMap Attribute.yield = spelling ∧
        (reader.attributes before).1.toList = before.toList ++ entries.map Attribute.tree := by
  fun_induction attributes before reader with
  | case1 before reader h next ih =>
      refine ((faultOr_oneAttribute reader).append ih).mono ?_
      intro spelling _ described
      obtain ⟨_, _, rfl, ⟨entry, rfl, htree⟩, entries, rfl, htrees⟩ := described
      refine ⟨entry :: entries, rfl, ?_⟩
      simp only [htrees, Array.toList_push, List.append_assoc, List.map_cons, htree]
      rfl
  | case2 before reader h => exact .nothing reader ⟨[], rfl, by simp⟩

theorem faultOr_bracket (before : Array Tree.Attribute) {reader : TokenReader}
    (h : reader.kind = .lBracket) :
    FaultOr reader (reader.bracket before).2 fun spelling =>
      ∃ bracket : Bracket, bracket.yield = spelling ∧
        bracket.opening.position = reader.position ∧
        (reader.bracket before).1.toList =
          before.toList ++ bracket.attributes.map Attribute.tree := by
  obtain ⟨opening, hunread⟩ := exists_sign h (by decide)
  have hclosing := @faultOr_expect (reader.advance.attributes before).2 .rBracket (by decide)
  refine (((faultOr_advance hunread).append (faultOr_attributes before reader.advance)).append hclosing).mono ?_
  intro spelling _ described
  obtain ⟨_, _, rfl, ⟨_, _, rfl, rfl, entries, rfl, htrees⟩, closing, rfl, _⟩ := described
  exact ⟨⟨opening, entries, closing⟩, rfl, (position_eq hunread).symm, htrees⟩

theorem faultOr_brackets (before : Array Tree.Attribute) (reader : TokenReader) :
    FaultOr reader (reader.brackets before).2 fun spelling =>
      ∃ brackets : List Bracket, brackets.flatMap Bracket.yield = spelling ∧
        (reader.brackets before).1.toList =
          before.toList ++ brackets.flatMap fun bracket => bracket.attributes.map Attribute.tree := by
  fun_induction brackets before reader with
  | case1 before reader h next ih =>
      refine ((faultOr_bracket before h).append ih).mono ?_
      intro spelling _ described
      obtain ⟨_, _, rfl, ⟨bracket, rfl, _, htree⟩, brackets, rfl, htrees⟩ := described
      refine ⟨bracket :: brackets, rfl, ?_⟩
      rw [htrees, htree, List.append_assoc]
      rfl
  | case2 before reader h => exact .nothing reader ⟨[], rfl, by simp⟩

theorem faultOr_attributeList? (reader : TokenReader) :
    FaultOr reader reader.attributeList?.2 fun spelling =>
      ∃ list : Option AttributeList, list.elim [] AttributeList.yield = spelling ∧
        list.map AttributeList.tree = reader.attributeList?.1 := by
  unfold attributeList?
  split
  · rename_i h
    rw [brackets, dif_pos h]
    refine ((faultOr_bracket #[] h).append (faultOr_brackets _ _)).mono ?_
    intro spelling _ described
    obtain ⟨_, _, rfl, ⟨first, rfl, hposition, hfirst⟩, more, rfl, hmore⟩ := described
    refine ⟨some ⟨first, more⟩, rfl, ?_⟩
    simp only [hmore, hfirst, Option.map_some, AttributeList.tree, hposition, List.flatMap_cons]
    rfl
  · exact .nothing reader ⟨none, rfl, rfl⟩

end DotGraph.TokenReader
