import DotGraph.Proofs.Reader.CompleteName
import DotGraph.Proofs.Reader.Pulls
import DotGraph.Proofs.Reader.SoundName
import DotGraph.Proofs.Tree.Idents
import DotGraph.Proofs.Tree.Visits

namespace DotGraph.TokenReader

/-! What a reader comes to in a tree while it goes over tokens, whether they fit or not.  What it makes
of them stands where they stand. -/

open DotGraph.Tree

/-- The places of the tokens that are left, and of the end of input. -/
def placesLeft (reader : TokenReader) : List Position :=
  reader.unread.map Lexeme.position ++ [reader.finish]

/-- Each token stands behind the one in front of it, and the end of input behind all. -/
def Sorted (reader : TokenReader) : Prop :=
  reader.placesLeft.Pairwise fun first second => first.offset < second.offset

def offset (reader : TokenReader) : Nat :=
  reader.position.offset

variable {reader source target first second third : TokenReader} {visits front back : List Visit}

theorem placesLeft_eq_cons (reader : TokenReader) :
    ∃ more, reader.placesLeft = reader.position :: more ∧
      (reader.kind ≠ .endOfInput → more = reader.advance.placesLeft) := by
  unfold placesLeft position kind advance
  cases reader.unread with
  | nil => exact ⟨[], rfl, fun h => absurd rfl h⟩
  | cons lexeme unread => exact ⟨_, rfl, fun _ => rfl⟩

theorem position_mem_placesLeft (reader : TokenReader) : reader.position ∈ reader.placesLeft := by
  obtain ⟨more, hplaces, -⟩ := reader.placesLeft_eq_cons
  rw [hplaces]
  exact List.mem_cons_self

theorem ident_eq (hid : reader.kind.isId) : reader.ident =
    (⟨reader.position, reader.text, Grammar.flavourOf reader.kind⟩, reader.advance) := by
  rw [ident, flavour?_of_isId hid]

theorem Pulls.placesLeft_sublist (h : source.Pulls target) :
    target.placesLeft.Sublist source.placesLeft := by
  unfold placesLeft
  rw [h.unread_eq, h.finish_eq]
  exact ((List.drop_sublist _ _).map _).append (List.Sublist.refl _)

theorem Pulls.idents_sublist (h : source.Pulls target) :
    (Lexeme.idents target.unread).Sublist (Lexeme.idents source.unread) := by
  rw [h.unread_eq]
  exact (List.drop_sublist _ _).filterMap _

namespace Sorted

theorem of_pulls (h : source.Sorted) (hpulls : source.Pulls target) : target.Sorted :=
  h.sublist hpulls.placesLeft_sublist

theorem offset_le (h : reader.Sorted) {place : Position} (hmem : place ∈ reader.placesLeft) :
    reader.offset ≤ place.offset := by
  obtain ⟨more, hplaces, -⟩ := reader.placesLeft_eq_cons
  unfold Sorted at h
  rw [hplaces] at h hmem
  rcases List.mem_cons.mp hmem with rfl | hmem
  · exact Nat.le_refl _
  · exact Nat.le_of_lt (List.rel_of_pairwise_cons h hmem)

theorem offset_le_of_pulls (h : source.Sorted) (hpulls : source.Pulls target) :
    source.offset ≤ target.offset :=
  h.offset_le (hpulls.placesLeft_sublist.subset target.position_mem_placesLeft)

theorem offset_lt_advance (h : reader.Sorted) (hkind : reader.kind ≠ .endOfInput) :
    reader.offset < reader.advance.offset := by
  obtain ⟨more, hplaces, hmore⟩ := reader.placesLeft_eq_cons
  unfold Sorted at h
  rw [hplaces, hmore hkind] at h
  exact List.rel_of_pairwise_cons h reader.advance.position_mem_placesLeft

end Sorted

theorem idents_unread (hid : reader.kind.isId) :
    Lexeme.idents reader.unread = reader.ident.1 :: Lexeme.idents reader.advance.unread := by
  have hflavour := flavour?_of_isId hid
  rw [ident_eq hid]
  unfold kind position text advance at *
  cases hunread : reader.unread with
  | nil => simp [hunread, Token.Kind.isId] at hid
  | cons lexeme unread =>
      rw [hunread] at hflavour
      rw [Lexeme.idents, List.filterMap_cons, Lexeme.ident?, hflavour]
      rfl

/-- The values that stand for missing ones: `true` at a name that no equals sign is behind, and an
empty one behind an equals sign that no name is behind. -/
inductive Supplies (source : TokenReader) : Ident → Prop where
  | noEquals {reader : TokenReader} (h : source.Pulls reader) (hid : reader.kind.isId)
      (hnext : reader.advance.kind ≠ .equal) : Supplies source ⟨reader.position, "true", .bare⟩
  | noName {reader : TokenReader} (h : source.Pulls reader) (hequal : reader.kind = .equal)
      (hnext : ¬ reader.advance.kind.isId) : Supplies source ⟨reader.advance.position, "", .bare⟩

/-- The identifiers that a reader may come to: tokens, and values that stand for missing ones. -/
def Gives (source : TokenReader) (name : Ident) : Prop :=
  name ∈ Lexeme.idents source.unread ∨ source.Supplies name

theorem Gives.of_pulls {name : Ident} (h : source.Pulls target) (k : target.Gives name) :
    source.Gives name := by
  rcases k with htoken | hsupplied
  · exact .inl (h.idents_sublist.subset htoken)
  · cases hsupplied with
    | noEquals k hid hnext => exact .inr (.noEquals (h.trans k) hid hnext)
    | noName k hequal hnext => exact .inr (.noName (h.trans k) hequal hnext)

theorem gives_ident (hid : reader.kind.isId) : reader.Gives reader.ident.1 := by
  rw [Gives, idents_unread hid]
  exact .inl List.mem_cons_self

/-- What a reader comes to in a tree on its way to another one. -/
structure Sees (source : TokenReader) (visits : List Visit) (target : TokenReader) : Prop where
  pulls : source.Pulls target
  places : ∀ visit ∈ visits, visit.position ∈ source.placesLeft
  idents : (visits.filterMap Visit.ident? ++ Lexeme.idents target.unread).Sublist
    (Lexeme.idents source.unread)
  names : ∀ name ∈ visits.filterMap Visit.name?, source.Gives name
  between : source.Sorted → Between source.offset visits target.offset

namespace Sees

theorem of_pulls (h : source.Pulls target) : source.Sees [] target where
  pulls := h
  places := nofun
  idents := h.idents_sublist
  names := nofun
  between hsorted := .nil (hsorted.offset_le_of_pulls h)

theorem append (h : first.Sees front second) (k : second.Sees back third) :
    first.Sees (front ++ back) third where
  pulls := h.pulls.trans k.pulls
  places := List.forall_mem_append.mpr ⟨h.places, fun visit hmem =>
    h.pulls.placesLeft_sublist.subset (k.places visit hmem)⟩
  idents := by
    rw [List.filterMap_append, List.append_assoc]
    exact ((List.Sublist.refl _).append k.idents).trans h.idents
  names := by
    rw [List.filterMap_append, List.forall_mem_append]
    exact ⟨h.names, fun name hmem => .of_pulls h.pulls (k.names name hmem)⟩
  between hsorted := (h.between hsorted).append (k.between (hsorted.of_pulls h.pulls))

theorem pulls_trans (h : first.Pulls second) (k : second.Sees visits third) :
    first.Sees visits third :=
  (of_pulls h).append k

theorem trans_pulls (h : first.Sees visits second) (k : second.Pulls third) :
    first.Sees visits third := by
  have hsees := h.append (of_pulls k)
  rwa [List.append_nil] at hsees

/-- Whoever comes to some visits also comes to fewer. -/
theorem sublist (h : source.Sees visits target) {fewer : List Visit}
    (hfewer : fewer.Sublist visits) : source.Sees fewer target where
  pulls := h.pulls
  places visit hmem := h.places visit (hfewer.subset hmem)
  idents := ((hfewer.filterMap _).append (List.Sublist.refl _)).trans h.idents
  names name hmem := h.names name ((hfewer.filterMap _).subset hmem)
  between hsorted := (h.between hsorted).sublist hfewer

/-- At the look-ahead token a part may begin. -/
theorem lookAhead (reader : TokenReader) {visit : Visit}
    (hposition : visit.position = reader.position) (hstatement : visit.isStatement = false)
    (hname : visit.name? = none) :
    reader.Sees [visit] reader where
  pulls := .refl reader
  places := List.forall_mem_singleton.mpr (hposition ▸ reader.position_mem_placesLeft)
  idents := by
    rw [List.filterMap_cons, Visit.ident?_eq_none hname]
    exact List.Sublist.refl _
  names := by
    rw [List.filterMap_cons, hname]
    exact nofun
  between _ := by
    have hoffset : visit.offset = reader.offset := congrArg Position.offset hposition
    exact .one (Nat.le_of_eq hoffset.symm) (Nat.le_of_eq hoffset) hstatement

/-- Where no name is behind an equals sign, a value is supplied. -/
theorem advance_noName (hequal : reader.kind = .equal) (hnext : ¬ reader.advance.kind.isId) :
    reader.Sees [.supplied ⟨reader.advance.position, "", .bare⟩] reader.advance where
  pulls := (Pulls.refl reader).advance
  places := List.forall_mem_singleton.mpr <|
    (Pulls.refl reader).advance.placesLeft_sublist.subset reader.advance.position_mem_placesLeft
  idents := (Pulls.refl reader).advance.idents_sublist
  names := List.forall_mem_singleton.mpr (.inr (.noName (.refl reader) hequal hnext))
  between hsorted :=
    .one (hsorted.offset_le_of_pulls (Pulls.refl reader).advance) (Nat.le_refl _) rfl

/-- At a token that is read something may begin, a statement before all that belongs to it. -/
theorem advance (hkind : reader.kind ≠ .endOfInput) {visit : Visit} {more : List Visit}
    (hposition : ∀ other ∈ visit :: more, other.position = reader.position)
    (hmore : ∀ other ∈ more, other.isStatement = false)
    (hidents : ((visit :: more).filterMap Visit.ident? ++
      Lexeme.idents reader.advance.unread).Sublist (Lexeme.idents reader.unread))
    (hnames : ∀ name ∈ (visit :: more).filterMap Visit.name?, reader.Gives name) :
    reader.Sees (visit :: more) reader.advance where
  pulls := (Pulls.refl reader).advance
  places other hmem := hposition other hmem ▸ reader.position_mem_placesLeft
  idents := hidents
  names := hnames
  between hsorted := .at_once (hsorted.offset_lt_advance hkind)
    (fun other hmem => congrArg Position.offset (hposition other hmem)) hmore

/-- At a keyword or a sign nothing is named. -/
theorem advance_unnamed (hkind : reader.kind ≠ .endOfInput) {visit : Visit} {more : List Visit}
    (hposition : ∀ other ∈ visit :: more, other.position = reader.position)
    (hmore : ∀ other ∈ more, other.isStatement = false)
    (hnone : (visit :: more).filterMap Visit.name? = []) :
    reader.Sees (visit :: more) reader.advance := by
  have hidents : (visit :: more).filterMap Visit.ident? = [] := by
    rw [List.filterMap_eq_nil_iff] at hnone ⊢
    exact fun other hmem => Visit.ident?_eq_none (hnone other hmem)
  refine advance hkind hposition hmore ?_ ?_
  · rw [hidents, List.nil_append]
    exact (Pulls.refl reader).advance.idents_sublist
  · rw [hnone]
    exact nofun

/-- A name is the token that it is read from. -/
theorem advance_ident (hid : reader.kind.isId) {visit : Visit} {more : List Visit}
    (hposition : ∀ other ∈ visit :: more, other.position = reader.position)
    (hmore : ∀ other ∈ more, other.isStatement = false)
    (hone : ((visit :: more).filterMap Visit.ident?).Sublist [reader.ident.1])
    (hnames : ∀ name ∈ (visit :: more).filterMap Visit.name?, reader.Gives name) :
    reader.Sees (visit :: more) reader.ident.2 := by
  rw [show reader.ident.2 = reader.advance from congrArg Prod.snd (ident_eq hid)]
  refine advance (Token.Kind.ne_endOfInput_of_isId hid) hposition hmore ?_ hnames
  rw [idents_unread hid]
  exact hone.append (List.Sublist.refl _)

end Sees

theorem sees_ident (hid : reader.kind.isId) :
    reader.Sees [.ident reader.ident.1] reader.ident.2 :=
  .advance_ident hid (List.forall_mem_singleton.mpr position_ident) nofun
    (List.Sublist.refl _) (List.forall_mem_singleton.mpr (gives_ident hid))

theorem sees_ident? (reader : TokenReader) :
    reader.Sees (visitsOfIdent? reader.ident?.1) reader.ident?.2 := by
  unfold ident?
  split
  · exact sees_ident ‹_›
  · exact .of_pulls (.refl reader)

theorem sees_port? (reader : TokenReader) :
    reader.Sees (reader.port?.1.elim [] Port.visits) reader.port?.2 := by
  unfold port?
  split
  · have hcompass : (reader.expect .colon).2.ident?.2.Sees
        (visitsOfIdent? (reader.expect .colon).2.ident?.2.compass?.1)
        (reader.expect .colon).2.ident?.2.compass?.2 := by
      unfold compass?
      split
      · exact .pulls_trans (Pulls.refl _).advance (sees_ident? _)
      · exact .of_pulls (.refl _)
    have hnames := (sees_ident? (reader.expect .colon).2).append hcompass
    have hpart : reader.Sees [.part reader.position] reader := .lookAhead reader rfl rfl rfl
    exact hpart.append (.pulls_trans (moves_expect reader .colon).pulls hnames)
  · exact .of_pulls (.refl reader)

/-- A node id, whether it is a statement by itself or not. -/
theorem sees_nodeId (hid : reader.kind.isId) :
    reader.Sees (bareStatement reader.nodeId.1).visits reader.nodeId.2 := by
  have hfirst : reader.Sees
      [.statement reader.position, .part reader.position, .ident reader.ident.1] reader.ident.2 := by
    refine .advance_ident hid ?_ ?_ (List.Sublist.refl _) ?_
    · simp [Visit.position, position_ident]
    · simp [Visit.isStatement, Visit.statement?]
    · exact List.forall_mem_singleton.mpr (gives_ident hid)
  have hall := hfirst.append (sees_port? reader.ident.2)
  rw [bareStatement, Statement.visits, visitsOfAttributes?, Option.elim_none, List.append_nil]
  exact hall

theorem sees_nodeIds (before : Array NodeId) (reader : TokenReader) :
    ∃ nodes, (reader.nodeIds before).1.toList = before.toList ++ nodes ∧
      reader.Sees (visitsOfAll (nodes.map bareStatement)) (reader.nodeIds before).2 := by
  fun_induction nodeIds before reader with
  | case1 before reader hid node ih =>
      obtain ⟨nodes, hnodes, hsees⟩ := ih
      refine ⟨node.1 :: nodes, by simp [hnodes], ?_⟩
      rw [List.map_cons, visitsOfAll]
      exact (sees_nodeId hid).append hsees
  | case2 before reader _ =>
      exact ⟨[], (List.append_nil _).symm, .of_pulls (.refl reader)⟩

theorem sees_attributeValue (reader : TokenReader) (key : Ident) (hequal : reader.kind = .equal)
    (position : Position) :
    reader.Sees [(Attribute.mk position key (reader.attributeValue key).1).valueVisit]
      (reader.attributeValue key).2 := by
  unfold attributeValue
  rw [if_pos hequal]
  simp only
  split
  · rename_i hid
    refine .pulls_trans (Pulls.refl reader).advance ?_
    unfold Attribute.valueVisit
    split
    · exact .advance_ident hid (List.forall_mem_singleton.mpr position_ident) nofun
        (List.nil_sublist _) (List.forall_mem_singleton.mpr (gives_ident hid))
    · exact sees_ident hid
  · have hsupplied : (Attribute.mk position key ⟨reader.advance.position, "", .bare⟩).isSupplied := by
      simp [Attribute.isSupplied]
    rw [Attribute.valueVisit, if_pos hsupplied]
    exact (Sees.advance_noName hequal ‹_›).trans_pulls ((Pulls.refl _).report _)

theorem sees_oneAttribute (hid : reader.kind.isId) :
    reader.Sees reader.oneAttribute.1.visits reader.oneAttribute.2 := by
  have hkey : reader.ident.1.position = reader.position := position_ident
  suffices hsees : reader.Sees reader.oneAttribute.1.visits
      (reader.ident.2.attributeValue reader.ident.1).2 from
    hsees.trans_pulls (moves_skipOver _ _).pulls
  by_cases hequal : reader.ident.2.kind = .equal
  · have hfirst : reader.Sees [.part reader.position, .ident reader.ident.1] reader.ident.2 := by
      refine .advance_ident hid ?_ ?_ (List.Sublist.refl _) ?_
      · simp [Visit.position, hkey]
      · simp [Visit.isStatement, Visit.statement?]
      · exact List.forall_mem_singleton.mpr (gives_ident hid)
    exact hfirst.append (sees_attributeValue reader.ident.2 reader.ident.1 hequal reader.position)
  · -- the value is supplied at the place of the key, which has been read
    have hvalue : reader.ident.2.attributeValue reader.ident.1 =
        (⟨reader.ident.1.position, "true", .bare⟩, reader.ident.2) := if_neg hequal
    have hvisits : reader.oneAttribute.1.visits =
        [.part reader.position, .ident reader.ident.1,
          .supplied ⟨reader.ident.1.position, "true", .bare⟩] := by
      simp [oneAttribute, hvalue, Attribute.visits, Attribute.valueVisit, Attribute.isSupplied]
    have hnext : reader.advance.kind ≠ .equal := by
      rwa [ident_eq hid] at hequal
    have hsupplies : reader.Supplies ⟨reader.ident.1.position, "true", .bare⟩ := by
      rw [hkey]
      exact .noEquals (.refl reader) hid hnext
    rw [hvisits, hvalue]
    refine .advance_ident hid ?_ ?_ (List.Sublist.refl _) ?_
    · simp [Visit.position, hkey]
    · simp [Visit.isStatement, Visit.statement?]
    · exact List.forall_mem_cons.mpr
        ⟨gives_ident hid, List.forall_mem_singleton.mpr (.inr hsupplies)⟩

theorem sees_attributes (before : Array Attribute) (reader : TokenReader) :
    ∃ entries, (reader.attributes before).1.toList = before.toList ++ entries ∧
      reader.Sees (entries.flatMap Attribute.visits) (reader.attributes before).2 := by
  fun_induction attributes before reader with
  | case1 before reader hid entry ih =>
      obtain ⟨entries, hentries, hsees⟩ := ih
      refine ⟨entry.1 :: entries, by simp [hentries], ?_⟩
      rw [List.flatMap_cons]
      exact (sees_oneAttribute hid).append hsees
  | case2 before reader _ =>
      exact ⟨[], (List.append_nil _).symm, .of_pulls (.refl reader)⟩

theorem sees_brackets (before : Array Attribute) (reader : TokenReader) :
    ∃ entries, (reader.brackets before).1.toList = before.toList ++ entries ∧
      reader.Sees (entries.flatMap Attribute.visits) (reader.brackets before).2 := by
  fun_induction brackets before reader with
  | case1 before reader _ bracket ih =>
      obtain ⟨front, hfront, hfirst⟩ := sees_attributes before reader.advance
      obtain ⟨back, hback, hsecond⟩ := ih
      refine ⟨front ++ back, ?_, ?_⟩
      · rw [hback, ← List.append_assoc, ← hfront]
        rfl
      · rw [List.flatMap_append]
        exact (Sees.pulls_trans (Pulls.refl reader).advance
          (hfirst.trans_pulls (moves_expect _ _).pulls)).append hsecond
  | case2 before reader _ =>
      exact ⟨[], (List.append_nil _).symm, .of_pulls (.refl reader)⟩

theorem sees_attributeList? (reader : TokenReader) :
    reader.Sees (visitsOfAttributes? reader.attributeList?.1) reader.attributeList?.2 := by
  unfold attributeList?
  split
  · obtain ⟨entries, hentries, hsees⟩ := sees_brackets #[] reader
    have hpart : reader.Sees [.part reader.position] reader := .lookAhead reader rfl rfl rfl
    have hall := hpart.append hsees
    rw [visitsOfAttributes?, Option.elim_some, AttributeList.visits, hentries]
    exact hall
  · exact .of_pulls (.refl reader)

theorem sees_defaultsStatement (subject : Subject) (hkind : reader.kind ≠ .endOfInput) :
    reader.Sees (reader.defaultsStatement subject).1.visits (reader.defaultsStatement subject).2 := by
  have hfirst : reader.Sees [.statement reader.position] reader.advance :=
    .advance_unnamed hkind (by simp [Visit.position]) nofun rfl
  exact hfirst.append (sees_attributeList? reader.advance)

end DotGraph.TokenReader
