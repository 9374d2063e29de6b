import DotGraph.Proofs.Reader.Takes

namespace DotGraph.TokenReader

/-! The flat parts of statements: a reader that comes to the tokens of an eager derivation takes
them, and returns the tree of the derivation. -/

open DotGraph.Grammar

/-- A reader returns this value, and takes these tokens for it. -/
def Returns (reader : TokenReader) {α : Type} (result : α × TokenReader)
    (spelling : List Lexeme) (value : α) : Prop :=
  ∃ target, result = (value, target) ∧ reader.Takes spelling target

variable {reader : TokenReader} {rest : List Lexeme}

theorem kind_of_unread_nil (h : reader.unread = [] ++ rest) :
    reader.kind = leading .endOfInput rest :=
  kind_of_unread h

theorem kind_of_unread_terminal {admits : Token.Kind → Bool} {terminal : Terminal admits}
    (h : reader.unread = terminal.yield ++ rest) : reader.kind = terminal.kind :=
  kind_eq h

theorem kind_of_unread_sign {kind : Token.Kind} {sign : Sign kind}
    (h : reader.unread = sign.yield ++ rest) : reader.kind = kind := by
  rw [kind_of_unread h, leading_sign]

theorem isId_kind_of_unread {id : Id} (h : reader.unread = id.yield ++ rest) :
    reader.kind.isId := by
  rw [kind_of_unread_terminal h]
  exact id.admitted

theorem takes_advance_terminal {admits : Token.Kind → Bool} {terminal : Terminal admits}
    (h : reader.unread = terminal.yield ++ rest) :
    reader.Takes terminal.yield reader.advance :=
  takes_advance h

theorem unread_advance {admits : Token.Kind → Bool} {terminal : Terminal admits}
    (h : reader.unread = terminal.yield ++ rest) : reader.advance.unread = rest :=
  (takes_advance_terminal h).unread_of_append h

theorem expect_returns {kind : Token.Kind} {sign : Sign kind}
    (h : reader.unread = sign.yield ++ rest) :
    reader.Returns (reader.expect kind) sign.yield sign.position :=
  ⟨reader.advance, expect_eq h, takes_advance_terminal h⟩

theorem flavour?_of_isId {kind : Token.Kind} (h : kind.isId) :
    flavour? kind = some (flavourOf kind) := by
  cases kind <;> simp_all [flavour?, flavourOf, Token.Kind.isId]

theorem ident_returns {id : Id} (h : reader.unread = id.yield ++ rest) :
    reader.Returns reader.ident id.yield id.tree := by
  refine ⟨reader.advance, ?_, takes_advance_terminal h⟩
  unfold ident
  rw [flavour?_of_isId (isId_kind_of_unread h)]
  simp only [position_eq h, text_eq h, kind_eq h]
  rfl

theorem ident?_returns {name : Option Id} (h : reader.unread = name.elim [] Terminal.yield ++ rest)
    (hnone : name = none → (leading .endOfInput rest).isId = false) :
    reader.Returns reader.ident? (name.elim [] Terminal.yield) (name.map Id.tree) := by
  unfold ident?
  cases name with
  | none =>
      rw [if_neg (by rw [kind_of_unread_nil h, hnone rfl]; decide)]
      exact ⟨reader, rfl, .refl reader⟩
  | some id =>
      have hunread : reader.unread = id.yield ++ rest := h
      obtain ⟨target, hident, htakes⟩ := ident_returns hunread
      rw [if_pos (isId_kind_of_unread hunread), hident]
      exact ⟨target, rfl, htakes⟩

theorem compass?_returns {compass : Option Compass}
    (h : reader.unread = compass.elim [] Compass.yield ++ rest)
    (hcolon : leading .endOfInput rest ≠ .colon)
    (hnone : ∀ some ∈ compass, some.name = none → (leading .endOfInput rest).isId = false) :
    reader.Returns reader.compass? (compass.elim [] Compass.yield)
      (compass.bind fun compass => compass.name.map Id.tree) := by
  unfold compass?
  cases compass with
  | none =>
      rw [if_neg (by rwa [kind_of_unread_nil h])]
      exact ⟨reader, rfl, .refl reader⟩
  | some compass =>
      have hunread : reader.unread =
          compass.colon.yield ++ (compass.name.elim [] Terminal.yield ++ rest) := by
        rw [h]
        simp only [Option.elim_some, Compass.yield, List.append_assoc]
      rw [if_pos (kind_of_unread_sign hunread)]
      obtain ⟨target, hname, htakes⟩ := ident?_returns (unread_advance hunread) (hnone compass rfl)
      exact ⟨target, hname, (takes_advance_terminal hunread).trans htakes⟩

theorem port_returns {port : Port} (h : reader.unread = port.yield ++ rest)
    (hcolon : leading .endOfInput rest ≠ .colon)
    (heager : port.Eager (leading .endOfInput rest)) :
    reader.Returns reader.port port.yield port.tree := by
  have hunread : reader.unread = port.colon.yield ++ (port.name.elim [] Terminal.yield ++
      (port.compass.elim [] Compass.yield ++ rest)) := by
    rw [h]
    simp only [Port.yield, List.append_assoc]
  obtain ⟨second, hexpect, htakesColon⟩ := expect_returns hunread
  have hsecond := htakesColon.unread_of_append hunread
  obtain ⟨third, hname, htakesName⟩ := ident?_returns hsecond (by
    intro hname
    cases hcompass : port.compass with
    | none => exact heager (by simp [Port.isOpen, hcompass, hname])
    | some compass =>
        rw [leading_append]
        simp only [Option.elim_some, Compass.yield, leading_append, leading_sign]
        rfl)
  obtain ⟨fourth, hcompass, htakesCompass⟩ :=
    compass?_returns (htakesName.unread_of_append hsecond) hcolon (by
      intro compass hsome hname
      exact heager (by simp [Port.isOpen, Option.mem_def.mp hsome, hname]))
  refine ⟨fourth, ?_, (htakesColon.trans htakesName).trans htakesCompass⟩
  simp only [TokenReader.port, hexpect, hname, hcompass]
  rfl

theorem port?_returns {port : Option Port} (h : reader.unread = port.elim [] Port.yield ++ rest)
    (hcolon : leading .endOfInput rest ≠ .colon)
    (heager : ∀ some ∈ port, some.Eager (leading .endOfInput rest)) :
    reader.Returns reader.port? (port.elim [] Port.yield) (port.map Port.tree) := by
  unfold port?
  cases port with
  | none =>
      rw [if_neg (by rwa [kind_of_unread_nil h])]
      exact ⟨reader, rfl, .refl reader⟩
  | some port =>
      have hunread : reader.unread = port.yield ++ rest := h
      obtain ⟨target, hport, htakes⟩ := port_returns hunread hcolon (heager port rfl)
      have hkind : reader.kind = .colon := by
        rw [kind_of_unread h]
        simp only [Option.elim_some, Port.yield, leading_append, leading_sign]
      rw [if_pos hkind, hport]
      exact ⟨target, rfl, htakes⟩

theorem nodeId_returns {node : NodeId} (h : reader.unread = node.yield ++ rest)
    (hcolon : leading .endOfInput rest ≠ .colon)
    (heager : node.Eager (leading .endOfInput rest)) :
    reader.Returns reader.nodeId node.yield node.tree := by
  have hunread : reader.unread = node.id.yield ++ (node.port.elim [] Port.yield ++ rest) := by
    rw [h]
    simp only [NodeId.yield, List.append_assoc]
  obtain ⟨second, hident, htakesIdent⟩ := ident_returns hunread
  obtain ⟨third, hport, htakesPort⟩ :=
    port?_returns (htakesIdent.unread_of_append hunread) hcolon heager
  refine ⟨third, ?_, htakesIdent.trans htakesPort⟩
  simp only [nodeId, hident, hport, position_eq hunread]
  rfl

theorem nodeIds_returns (before : Array Tree.NodeId) {nodes : List NodeId}
    (h : reader.unread = nodes.flatMap NodeId.yield ++ rest)
    (hid : (leading .endOfInput rest).isId = false) (hcolon : leading .endOfInput rest ≠ .colon)
    (heager : eagerNodes nodes) :
    reader.Returns (reader.nodeIds before) (nodes.flatMap NodeId.yield)
      (before ++ (nodes.map NodeId.tree).toArray) := by
  induction nodes generalizing before reader with
  | nil =>
      rw [nodeIds, dif_neg (by rw [kind_of_unread h]; simp [hid])]
      exact ⟨reader, by simp, .refl reader⟩
  | cons node nodes ih =>
      have hunread : reader.unread =
          node.yield ++ (nodes.flatMap NodeId.yield ++ rest) := by
        rw [h, List.flatMap_cons, List.append_assoc]
      have hkind : reader.kind.isId := by
        rw [kind_of_unread hunread]
        exact node.id.admitted
      -- behind a node stands the name of the next one, or what ends the run
      obtain ⟨second, hnode, htakes⟩ := nodeId_returns hunread
        (by
          cases nodes with
          | nil => exact hcolon
          | cons next nodes => exact next.id.kind_ne rfl)
        (by
          rw [leading_append]
          exact heager.1.congr (isId_leading_congr (show Token.Kind.rBrace.isId = _ from hid.symm) _))
      obtain ⟨third, hnodes, htakesNodes⟩ :=
        ih (before.push node.tree) (htakes.unread_of_append hunread) heager.2
      refine ⟨third, ?_, htakes.trans htakesNodes⟩
      rw [nodeIds, dif_pos hkind]
      simp only [hnode, hnodes]
      simp

theorem attributeValue_returns {value : Option Value} (key : Tree.Ident)
    (h : reader.unread = value.elim [] Value.yield ++ rest)
    (hequal : leading .endOfInput rest ≠ .equal) :
    reader.Returns (reader.attributeValue key) (value.elim [] Value.yield)
      (value.elim ⟨key.position, "true", .bare⟩ fun value => value.id.tree) := by
  unfold attributeValue
  cases value with
  | none =>
      rw [if_neg (by rwa [kind_of_unread_nil h])]
      exact ⟨reader, rfl, .refl reader⟩
  | some value =>
      have hunread : reader.unread = value.equal.yield ++ (value.id.yield ++ rest) := by
        rw [h]
        simp only [Option.elim_some, Value.yield, List.append_assoc]
      have hid := unread_advance hunread
      obtain ⟨target, hident, htakes⟩ := ident_returns hid
      rw [if_pos (kind_of_unread_sign hunread)]
      simp only [if_pos (isId_kind_of_unread hid), hident]
      exact ⟨target, rfl, (takes_advance_terminal hunread).trans htakes⟩

theorem skipOver_takes (kinds : List Token.Kind) {admits : Token.Kind → Bool}
    {skipped : Option (Terminal admits)}
    (h : reader.unread = skipped.elim [] Terminal.yield ++ rest)
    (hkinds : ∀ kind, admits kind → kind ∈ kinds)
    (hnone : skipped = none → leading .endOfInput rest ∉ kinds) :
    reader.Takes (skipped.elim [] Terminal.yield) (reader.skipOver kinds) := by
  unfold skipOver
  cases skipped with
  | none =>
      rw [if_neg (by rw [kind_of_unread_nil h]; exact hnone rfl)]
      exact .refl reader
  | some terminal =>
      rw [if_pos (by rw [kind_of_unread_terminal h]; exact hkinds _ terminal.admitted)]
      exact takes_advance_terminal h

/-- What may stand behind an attribute: another one, or the closing bracket. -/
def followsAttribute (kind : Token.Kind) : Bool :=
  kind.isId || kind == .rBracket

theorem oneAttribute_returns {entry : Attribute} (h : reader.unread = entry.yield ++ rest)
    (hnext : followsAttribute (leading .endOfInput rest)) :
    reader.Returns reader.oneAttribute entry.yield entry.tree := by
  have hunread : reader.unread = entry.key.yield ++ (entry.value.elim [] Value.yield ++
      (entry.separator.elim [] Terminal.yield ++ rest)) := by
    rw [h]
    simp only [Attribute.yield, List.append_assoc]
  obtain ⟨second, hkey, htakesKey⟩ := ident_returns hunread
  have hsecond := htakesKey.unread_of_append hunread
  obtain ⟨third, hvalue, htakesValue⟩ := attributeValue_returns entry.key.tree hsecond (by
    cases entry.separator with
    | none =>
        rw [Option.elim_none, List.nil_append]
        exact ne_of_admits hnext (by decide)
    | some separator => exact separator.kind_ne rfl)
  have hthird := htakesValue.unread_of_append hsecond
  have hskip := skipOver_takes [.semicolon, .comma] hthird
    (by intro kind; cases kind <;> simp [isSeparator])
    (by
      intro _ hmem
      generalize leading .endOfInput rest = next at hnext hmem
      revert hnext hmem
      cases next <;> decide)
  refine ⟨third.skipOver [.semicolon, .comma], ?_, (htakesKey.trans htakesValue).trans hskip⟩
  simp only [oneAttribute, hkey, hvalue, position_eq hunread]
  rfl

theorem attributes_returns (before : Array Tree.Attribute) {entries : List Attribute}
    (h : reader.unread = entries.flatMap Attribute.yield ++ rest)
    (hnext : leading .endOfInput rest = .rBracket) :
    reader.Returns (reader.attributes before) (entries.flatMap Attribute.yield)
      (before ++ (entries.map Attribute.tree).toArray) := by
  induction entries generalizing before reader with
  | nil =>
      rw [attributes, dif_neg (by rw [kind_of_unread h]; simp [hnext, Token.Kind.isId])]
      exact ⟨reader, by simp, .refl reader⟩
  | cons entry entries ih =>
      have hunread : reader.unread =
          entry.yield ++ (entries.flatMap Attribute.yield ++ rest) := by
        rw [h, List.flatMap_cons, List.append_assoc]
      have hkind : reader.kind.isId := by
        rw [kind_of_unread hunread]
        exact entry.key.admitted
      obtain ⟨second, hentry, htakes⟩ := oneAttribute_returns hunread (by
        cases entries with
        | nil =>
            rw [List.flatMap_nil, List.nil_append, hnext]
            decide
        | cons next entries => exact Bool.or_eq_true_iff.mpr (.inl next.key.admitted))
      obtain ⟨third, hentries, htakesEntries⟩ :=
        ih (before.push entry.tree) (htakes.unread_of_append hunread)
      refine ⟨third, ?_, htakes.trans htakesEntries⟩
      rw [attributes, dif_pos hkind]
      simp only [hentry, hentries]
      simp

theorem bracket_returns (before : Array Tree.Attribute) {bracket : Bracket}
    (h : reader.unread = bracket.yield ++ rest) :
    reader.Returns (reader.bracket before) bracket.yield
      (before ++ (bracket.attributes.map Attribute.tree).toArray) := by
  have hunread : reader.unread = bracket.opening.yield ++
      (bracket.attributes.flatMap Attribute.yield ++ (bracket.closing.yield ++ rest)) := by
    rw [h]
    simp only [Bracket.yield, List.append_assoc]
  obtain ⟨second, hentries, htakes⟩ := attributes_returns before (unread_advance hunread)
    (by rw [leading_append, leading_sign])
  obtain ⟨third, hexpect, htakesClosing⟩ :=
    expect_returns (htakes.unread_of_append (unread_advance hunread))
  refine ⟨third, ?_, ((takes_advance_terminal hunread).trans htakes).trans htakesClosing⟩
  simp only [TokenReader.bracket, hentries, hexpect]

theorem brackets_returns (before : Array Tree.Attribute) {brackets : List Bracket}
    (h : reader.unread = brackets.flatMap Bracket.yield ++ rest)
    (hnext : leading .endOfInput rest ≠ .lBracket) :
    reader.Returns (reader.brackets before) (brackets.flatMap Bracket.yield)
      (before ++
        (brackets.flatMap fun bracket => bracket.attributes.map Attribute.tree).toArray) := by
  induction brackets generalizing before reader with
  | nil =>
      rw [TokenReader.brackets, dif_neg (by rwa [kind_of_unread h])]
      exact ⟨reader, by simp, .refl reader⟩
  | cons bracket brackets ih =>
      have hunread : reader.unread =
          bracket.yield ++ (brackets.flatMap Bracket.yield ++ rest) := by
        rw [h, List.flatMap_cons, List.append_assoc]
      have hkind : reader.kind = .lBracket := by
        rw [kind_of_unread hunread]
        simp only [Bracket.yield, leading_append, leading_sign]
      obtain ⟨second, hbracket, htakes⟩ := bracket_returns before hunread
      obtain ⟨third, hbrackets, htakesMore⟩ :=
        ih (before ++ (bracket.attributes.map Attribute.tree).toArray)
          (htakes.unread_of_append hunread)
      refine ⟨third, ?_, htakes.trans htakesMore⟩
      rw [TokenReader.brackets, dif_pos hkind]
      simp only [hbracket, hbrackets]
      simp

theorem attributeList?_returns {list : Option AttributeList}
    (h : reader.unread = list.elim [] AttributeList.yield ++ rest)
    (hnext : leading .endOfInput rest ≠ .lBracket) :
    reader.Returns reader.attributeList? (list.elim [] AttributeList.yield)
      (list.map AttributeList.tree) := by
  unfold attributeList?
  cases list with
  | none =>
      rw [if_neg (by rwa [kind_of_unread_nil h])]
      exact ⟨reader, rfl, .refl reader⟩
  | some list =>
      have hlist : reader.unread = (list.first :: list.more).flatMap Bracket.yield ++ rest := h
      obtain ⟨target, hbrackets, htakes⟩ := brackets_returns #[] hlist hnext
      have hunread : reader.unread = list.first.opening.yield ++
          (list.first.attributes.flatMap Attribute.yield ++ (list.first.closing.yield ++
            (list.more.flatMap Bracket.yield ++ rest))) := by
        rw [h]
        simp only [Option.elim_some, AttributeList.yield, Bracket.yield, List.append_assoc]
      rw [if_pos (kind_of_unread_sign hunread)]
      refine ⟨target, ?_, htakes⟩
      simp only [hbrackets, position_eq hunread]
      simp [AttributeList.tree, Terminal.position]

end DotGraph.TokenReader
