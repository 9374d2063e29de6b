import DotGraph.Proofs.Tree.Restyle
import DotGraph.Tree.Name

namespace DotGraph

/-! Reading tokens in another style gives the same in that style: no reader looks at a place, at the
way a name is written, or at the text of a token that is no name. -/

open DotGraph.Tree

def Tree.Flavour.kind : Flavour → Token.Kind
  | .bare => .ident
  | .quoted => .quoted
  | .html => .html

theorem TokenReader.flavour?_kind (flavour : Flavour) : flavour? flavour.kind = some flavour := by
  cases flavour <;> rfl

theorem TokenReader.isSome_flavour? (kind : Token.Kind) : (flavour? kind).isSome = kind.isId := by
  cases kind <;> rfl

namespace Tree.Style

variable (style : Style)

def kind (kind : Token.Kind) : Token.Kind :=
  match TokenReader.flavour? kind with
  | some flavour => (style.flavour flavour).kind
  | none => kind

def lexeme (lexeme : Lexeme) : Lexeme :=
  ⟨style.place lexeme.position,
    ⟨style.kind lexeme.token.kind, if lexeme.token.kind.isId then lexeme.token.text else ""⟩, none⟩

def fault : ParseFault → ParseFault
  | .expected wanted got => .expected wanted (style.kind got)
  | .missingHeader got => .missingHeader (style.kind got)
  | .unexpectedToken got => .unexpectedToken (style.kind got)
  | .expectedIdent got => .expectedIdent (style.kind got)
  | .missingAssignedValue => .missingAssignedValue
  | .missingAttributeValue => .missingAttributeValue
  | .missingEndpoint => .missingEndpoint
  | .nestingTooDeep => .nestingTooDeep

theorem flavour?_kind (kind : Token.Kind) :
    TokenReader.flavour? (style.kind kind) = (TokenReader.flavour? kind).map style.flavour := by
  unfold Style.kind
  split
  · rename_i flavour h
    rw [h, TokenReader.flavour?_kind]
    rfl
  · rename_i h
    rw [h]
    rfl

theorem isId_kind (kind : Token.Kind) : (style.kind kind).isId = kind.isId := by
  rw [← TokenReader.isSome_flavour?, flavour?_kind, Option.isSome_map, TokenReader.isSome_flavour?]

theorem kind_of_not_isId {kind : Token.Kind} (h : kind.isId = false) : style.kind kind = kind := by
  rw [← TokenReader.isSome_flavour?, Option.isSome_eq_false_iff, Option.isNone_iff_eq_none] at h
  rw [Style.kind, h]

/-- A token that is no name is the same in every style. -/
theorem kind_eq_iff {kind wanted : Token.Kind} (h : wanted.isId = false) :
    style.kind kind = wanted ↔ kind = wanted := by
  cases hkind : kind.isId with
  | false => rw [style.kind_of_not_isId hkind]
  | true =>
      refine ⟨fun heq => ?_, fun heq => ?_⟩
      · rw [← heq, isId_kind, hkind] at h
        nomatch h
      · rw [← heq, hkind] at h
        nomatch h

theorem isEdgeOp_kind (kind : Token.Kind) : (style.kind kind).isEdgeOp = kind.isEdgeOp := by
  cases hkind : kind.isId with
  | false => rw [style.kind_of_not_isId hkind]
  | true =>
      have hnone : ∀ kind : Token.Kind, kind.isId → kind.isEdgeOp = false := by
        intro kind h
        cases kind <;> trivial
      rw [hnone kind hkind, hnone _ ((style.isId_kind kind).trans hkind)]

end Tree.Style

namespace TokenReader

variable (style : Style) (reader : TokenReader)

def restyle : TokenReader :=
  ⟨reader.unread.map style.lexeme, style.place reader.finish, reader.pulled,
    reader.faults.map fun fault => ⟨style.place fault.position, style.fault fault.value⟩,
    reader.depth⟩

theorem kind_restyle : (restyle style reader).kind = style.kind reader.kind := by
  unfold kind restyle
  cases reader.unread <;> rfl

theorem position_restyle :
    (restyle style reader).position = style.place reader.position := by
  unfold position restyle
  cases reader.unread <;> rfl

theorem text_restyle (h : reader.kind.isId) : (restyle style reader).text = reader.text := by
  unfold kind at h
  unfold text restyle
  cases hunread : reader.unread with
  | nil => rfl
  | cons lexeme rest =>
      rw [hunread] at h
      exact if_pos h

theorem advance_restyle :
    (restyle style reader).advance = restyle style reader.advance := by
  simp [advance, restyle]

theorem reportAt_restyle (position : Position) (fault : ParseFault) :
    (restyle style reader).reportAt (style.place position) (style.fault fault) =
      restyle style (reader.reportAt position fault) := by
  simp [reportAt, restyle]

theorem report_restyle (fault : ParseFault) :
    (restyle style reader).report (style.fault fault) = restyle style (reader.report fault) := by
  rw [report, position_restyle, reportAt_restyle, report]

theorem depth_restyle : (restyle style reader).depth = reader.depth := rfl

theorem enter_restyle : (restyle style reader).enter = restyle style reader.enter := rfl

theorem leave_restyle : (restyle style reader).leave = restyle style reader.leave := rfl

theorem isId_kind_restyle : (restyle style reader).kind.isId = reader.kind.isId := by
  rw [kind_restyle, style.isId_kind]

theorem isEdgeOp_kind_restyle : (restyle style reader).kind.isEdgeOp = reader.kind.isEdgeOp := by
  rw [kind_restyle, style.isEdgeOp_kind]

theorem kind_restyle_eq (wanted : Token.Kind) (h : wanted.isId = false) :
    (restyle style reader).kind = wanted ↔ reader.kind = wanted := by
  rw [kind_restyle, style.kind_eq_iff h]

theorem expect_restyle {wanted : Token.Kind} (h : wanted.isId = false) :
    (restyle style reader).expect wanted =
      (reader.expect wanted).map style.place (restyle style) := by
  unfold expect
  simp only [kind_restyle_eq style reader wanted h, position_restyle]
  split
  · rw [advance_restyle]
    rfl
  · have hreport := reader.report_restyle style (.expected wanted reader.kind)
    rw [Style.fault] at hreport
    rw [kind_restyle, hreport, advance_restyle]
    rfl

theorem skipOver_restyle {kinds : List Token.Kind} (h : ∀ kind ∈ kinds, kind.isId = false) :
    (restyle style reader).skipOver kinds = restyle style (reader.skipOver kinds) := by
  have hmem : style.kind reader.kind ∈ kinds ↔ reader.kind ∈ kinds := by
    constructor
    · intro hkind
      rwa [(style.kind_eq_iff (h _ hkind)).mp rfl]
    · intro hkind
      rwa [style.kind_of_not_isId (h _ hkind)]
  unfold skipOver
  rw [kind_restyle]
  simp only [hmem]
  split
  · rw [advance_restyle]
  · rfl

theorem ident_restyle :
    (restyle style reader).ident = reader.ident.map (·.restyle style) (restyle style) := by
  unfold ident
  rw [kind_restyle, style.flavour?_kind]
  cases hflavour : flavour? reader.kind with
  | some flavour =>
      have hid : reader.kind.isId := by rw [← isSome_flavour?, hflavour]; rfl
      simp only [Option.map_some, position_restyle, reader.text_restyle style hid, advance_restyle]
      rfl
  | none =>
      have hreport := reader.report_restyle style (.expectedIdent reader.kind)
      rw [Style.fault] at hreport
      simp only [Option.map_none, position_restyle]
      rw [hreport, advance_restyle, Prod.map_apply, Ident.restyle, style.flavour_bare]

theorem ident?_restyle :
    (restyle style reader).ident? =
      reader.ident?.map (Option.map (·.restyle style)) (restyle style) := by
  unfold ident?
  rw [isId_kind_restyle, ident_restyle]
  split <;> rfl

theorem compass?_restyle :
    (restyle style reader).compass? =
      reader.compass?.map (Option.map (·.restyle style)) (restyle style) := by
  have hcolon := reader.kind_restyle_eq style .colon rfl
  unfold compass?
  rw [advance_restyle, ident?_restyle]
  simp only [hcolon]
  split <;> rfl

theorem port_restyle :
    (restyle style reader).port = reader.port.map (·.restyle style) (restyle style) := by
  unfold port
  rw [expect_restyle style reader rfl]
  simp only [Prod.map_fst, Prod.map_snd, ident?_restyle, compass?_restyle]
  rfl

theorem port?_restyle :
    (restyle style reader).port? =
      reader.port?.map (Option.map (·.restyle style)) (restyle style) := by
  have hcolon := reader.kind_restyle_eq style .colon rfl
  unfold port?
  rw [port_restyle]
  simp only [hcolon]
  split <;> rfl

theorem nodeId_restyle :
    (restyle style reader).nodeId = reader.nodeId.map (·.restyle style) (restyle style) := by
  unfold nodeId
  simp only [position_restyle, ident_restyle, Prod.map_fst, Prod.map_snd, port?_restyle]
  rfl

theorem attributeValue_restyle (key : Ident) :
    (restyle style reader).attributeValue (key.restyle style) =
      (reader.attributeValue key).map (·.restyle style) (restyle style) := by
  have hequal := reader.kind_restyle_eq style .equal rfl
  unfold attributeValue
  simp only [hequal, advance_restyle, isId_kind_restyle, ident_restyle, position_restyle]
  split
  · split
    · rfl
    · have hreport := reader.advance.report_restyle style .missingAttributeValue
      rw [Style.fault] at hreport
      rw [hreport, Prod.map_apply, Ident.restyle, style.flavour_bare]
  · rw [Prod.map_apply, Ident.restyle, Ident.restyle, style.flavour_bare]

theorem oneAttribute_restyle :
    (restyle style reader).oneAttribute =
      reader.oneAttribute.map (·.restyle style) (restyle style) := by
  unfold oneAttribute
  simp only [position_restyle, ident_restyle, Prod.map_fst, Prod.map_snd, attributeValue_restyle]
  rw [skipOver_restyle style _ (by decide)]
  rfl

theorem nodeIds_restyle (before : Array NodeId) :
    (restyle style reader).nodeIds (before.map (·.restyle style)) =
      (reader.nodeIds before).map (Array.map (·.restyle style)) (restyle style) := by
  fun_induction nodeIds before reader with
  | case1 before reader h _ ih =>
      rw [nodeIds, dif_pos ((reader.isId_kind_restyle style).trans h), nodeId_restyle]
      simp only [Prod.map_fst, Prod.map_snd, ← Array.map_push]
      exact ih
  | case2 before reader h =>
      rw [nodeIds, dif_neg (by rwa [isId_kind_restyle])]
      rfl

theorem attributes_restyle (before : Array Attribute) :
    (restyle style reader).attributes (before.map (·.restyle style)) =
      (reader.attributes before).map (Array.map (·.restyle style)) (restyle style) := by
  fun_induction attributes before reader with
  | case1 before reader h _ ih =>
      rw [attributes, dif_pos ((reader.isId_kind_restyle style).trans h), oneAttribute_restyle]
      simp only [Prod.map_fst, Prod.map_snd, ← Array.map_push]
      exact ih
  | case2 before reader h =>
      rw [attributes, dif_neg (by rwa [isId_kind_restyle])]
      rfl

theorem bracket_restyle (before : Array Attribute) :
    (restyle style reader).bracket (before.map (·.restyle style)) =
      (reader.bracket before).map (Array.map (·.restyle style)) (restyle style) := by
  unfold bracket
  simp only [advance_restyle, attributes_restyle, Prod.map_fst, Prod.map_snd]
  rw [expect_restyle style _ rfl]
  rfl

theorem brackets_restyle (before : Array Attribute) :
    (restyle style reader).brackets (before.map (·.restyle style)) =
      (reader.brackets before).map (Array.map (·.restyle style)) (restyle style) := by
  fun_induction brackets before reader with
  | case1 before reader h _ ih =>
      rw [brackets, dif_pos ((reader.kind_restyle_eq style .lBracket rfl).mpr h), bracket_restyle]
      exact ih
  | case2 before reader h =>
      rw [brackets, dif_neg (mt (reader.kind_restyle_eq style .lBracket rfl).mp h)]
      rfl

theorem attributeList?_restyle :
    (restyle style reader).attributeList? =
      reader.attributeList?.map (Option.map (·.restyle style)) (restyle style) := by
  have hbrackets := reader.brackets_restyle style #[]
  rw [Array.map_empty] at hbrackets
  have hopening := reader.kind_restyle_eq style .lBracket rfl
  unfold attributeList?
  simp only [hopening, position_restyle, hbrackets, Prod.map_fst, Prod.map_snd]
  split
  · simp [AttributeList.restyle]
  · rfl

end TokenReader
end DotGraph
