import DotGraph.Proofs.Graph.Actions
import DotGraph.Proofs.Reader.CompleteName
import DotGraph.Proofs.Reader.Nesting
import DotGraph.Proofs.Reader.SoundBlock
import DotGraph.Proofs.Token.Written

namespace DotGraph.TokenReader

/-! A block that is refused is skipped through the brace that closes it.  What has been read of it
before stays. -/

open DotGraph.Tree

def countKind (kind : Token.Kind) (lexemes : List Lexeme) : Nat :=
  lexemes.countP fun lexeme => lexeme.token.kind = kind

/-- With `opened` braces open in a block, none of the tokens closes the block itself. -/
def StaysIn (opened : Nat) (lexemes : List Lexeme) : Prop :=
  ∀ front, front <+: lexemes → countKind .rBrace front ≤ opened + countKind .lBrace front

/-- With `opened` braces open in a block, the reader is behind the brace that closes the block, or at
the end of input if there is no such brace. -/
inductive Leaves (opened : Nat) (lexemes : List Lexeme) (target : TokenReader) : Prop
  | closed (inside : List Lexeme) (closing : Lexeme)
      (hlexemes : lexemes = inside ++ closing :: target.unread)
      (hclosing : closing.token.kind = .rBrace) (hinside : StaysIn opened inside)
      (hbalance : countKind .rBrace inside = opened + countKind .lBrace inside)
  | unclosed (inside : List Lexeme) (hlexemes : lexemes = inside ++ target.unread)
      (hinside : StaysIn opened inside) (hfinish : target.kind = .endOfInput)

theorem countKind_cons (kind : Token.Kind) (lexeme : Lexeme) (lexemes : List Lexeme) :
    countKind kind (lexeme :: lexemes) = countKind kind [lexeme] + countKind kind lexemes := by
  rw [← List.singleton_append]
  exact List.countP_append

theorem staysIn_nil (opened : Nat) : StaysIn opened [] := by
  intro front hfront
  rw [List.prefix_nil.mp hfront]
  exact Nat.zero_le _

section

variable {opened further : Nat} {lexeme : Lexeme} {lexemes : List Lexeme}
  (hopened : opened + countKind .lBrace [lexeme] = further + countKind .rBrace [lexeme])
include hopened

theorem StaysIn.cons (h : StaysIn further lexemes) : StaysIn opened (lexeme :: lexemes) := by
  intro front hfront
  cases front with
  | nil => exact Nat.zero_le _
  | cons head front =>
      obtain ⟨rfl, htail⟩ := List.cons_prefix_cons.mp hfront
      have hle := h front htail
      rw [countKind_cons .lBrace, countKind_cons .rBrace]
      omega

theorem Leaves.cons {target : TokenReader} (h : Leaves further lexemes target) :
    Leaves opened (lexeme :: lexemes) target := by
  cases h with
  | closed inside closing hlexemes hclosing hinside hbalance =>
      refine .closed (lexeme :: inside) closing (congrArg _ hlexemes) hclosing
        (hinside.cons hopened) ?_
      rw [countKind_cons .lBrace, countKind_cons .rBrace]
      omega
  | unclosed inside hlexemes hinside hfinish =>
      exact .unclosed (lexeme :: inside) (congrArg _ hlexemes) (hinside.cons hopened) hfinish

end

theorem exists_lookAhead {reader : TokenReader} (h : reader.kind ≠ .endOfInput) :
    ∃ lexeme, reader.unread = lexeme :: reader.advance.unread ∧ lexeme.token.kind = reader.kind := by
  obtain ⟨unread, _, _, _, _⟩ := reader
  cases unread with
  | nil => exact absurd rfl h
  | cons lexeme lexemes => exact ⟨lexeme, rfl, rfl⟩

theorem leaves_skipBlock (opened : Nat) (reader : TokenReader) :
    Leaves opened reader.unread (reader.skipBlock opened) := by
  fun_induction skipBlock opened reader with
  | case1 opened reader hend => exact .unclosed [] rfl (staysIn_nil opened) hend
  | case2 opened reader hend hkind ih =>
      obtain ⟨lexeme, hunread, hlexeme⟩ := exists_lookAhead hend
      rw [hunread]
      exact ih.cons (by simp [countKind, hlexeme, hkind])
  | case3 reader hend hkind hclosing =>
      obtain ⟨lexeme, hunread, hlexeme⟩ := exists_lookAhead hend
      exact .closed [] lexeme hunread (hlexeme.trans hclosing) (staysIn_nil 0) rfl
  | case4 reader hend hkind hclosing opened ih =>
      obtain ⟨lexeme, hunread, hlexeme⟩ := exists_lookAhead hend
      rw [hunread]
      exact ih.cons (by simp [countKind, hlexeme, hclosing])
  | case5 opened reader hend hkind hclosing ih =>
      obtain ⟨lexeme, hunread, hlexeme⟩ := exists_lookAhead hend
      rw [hunread]
      exact ih.cons (by simp [countKind, hlexeme, hkind, hclosing])

/-- Going on over tokens that are no braces leads from one reader to the other. -/
inductive Plain (source : TokenReader) : TokenReader → Prop where
  | refl : Plain source source
  | advance {target : TokenReader} (h : Plain source target) (hopens : target.kind ≠ .lBrace)
      (hcloses : target.kind ≠ .rBrace) : Plain source target.advance

namespace Plain

theorem trans {first second third : TokenReader} (h : first.Plain second)
    (k : second.Plain third) : first.Plain third := by
  induction k with
  | refl => exact h
  | advance _ hopens hcloses ih => exact ih.advance hopens hcloses

theorem leaves {source target final : TokenReader} {opened : Nat} (h : source.Plain target)
    (hleaves : Leaves opened target.unread final) : Leaves opened source.unread final := by
  induction h with
  | refl => exact hleaves
  | @advance target _ hopens hcloses ih =>
      apply ih
      by_cases hend : target.unread = []
      · have hsame : target.advance.unread = target.unread := by simp [TokenReader.advance, hend]
        exact hsame ▸ hleaves
      · obtain ⟨lexeme, lexemes, hunread⟩ := List.exists_cons_of_ne_nil hend
        have hkind : target.kind = lexeme.token.kind := kind_eq hunread
        have hrest : target.advance.unread = lexemes := by simp [TokenReader.advance, hunread]
        rw [hkind] at hopens hcloses
        rw [hunread, ← hrest]
        exact hleaves.cons (by simp [countKind, hopens, hcloses])

end Plain

open Plain (refl)

theorem plain_advance {reader : TokenReader} {kind : Token.Kind} (h : reader.kind = kind)
    (hopens : kind ≠ .lBrace) (hcloses : kind ≠ .rBrace) : reader.Plain reader.advance :=
  refl.advance (h ▸ hopens) (h ▸ hcloses)

theorem plain_ident {reader : TokenReader} (h : reader.kind.isId) :
    reader.Plain reader.ident.2 := by
  have hadvance : reader.ident.2 = reader.advance := by
    unfold ident
    rw [flavour?_of_isId h]
  rw [hadvance]
  apply refl.advance <;> rintro hkind <;> rw [hkind] at h <;> exact absurd h (by decide)

theorem plain_ident? (reader : TokenReader) : reader.Plain reader.ident?.2 := by
  unfold ident?
  split
  · rename_i hid; exact plain_ident hid
  · exact refl

theorem plain_compass? (reader : TokenReader) : reader.Plain reader.compass?.2 := by
  unfold compass?
  split
  · rename_i hcolon
    exact (plain_advance hcolon (by decide) (by decide)).trans (plain_ident? _)
  · exact refl

theorem plain_port? (reader : TokenReader) : reader.Plain reader.port?.2 := by
  unfold port?
  split
  · rename_i hcolon
    have hexpect : (reader.expect .colon).2 = reader.advance := by simp only [expect, if_pos hcolon]
    change reader.Plain (reader.expect .colon).2.ident?.2.compass?.2
    rw [hexpect]
    exact ((plain_advance hcolon (by decide) (by decide)).trans (plain_ident? _)).trans (plain_compass? _)
  · exact refl

theorem plain_nodeIds (before : Array NodeId) (reader : TokenReader) :
    reader.Plain (reader.nodeIds before).2 := by
  fun_induction nodeIds before reader with
  | case1 before reader hid _ ih => exact ((plain_ident hid).trans (plain_port? _)).trans ih
  | case2 before reader _ => exact refl

/-- What is left of a block that is refused, and the reader behind it. -/
structure Opening.IsCutOff (opening : Opening) (read : List Statement × TokenReader) : Prop where
  faults : read.2.faults =
    opening.rest.faults.push ⟨opening.brace.position, .nestingTooDeep⟩
  leaves : opening.brace.kind = .lBrace → Leaves 0 opening.brace.advance.unread read.2
  statements : read.1 = opening.before.toList
  occurrences : occurrencesOfAll read.1 = opening.nodes.toList.map NodeId.name

theorem occurrences_bareStatement (nodes : List NodeId) :
    occurrencesOfAll (nodes.map bareStatement) = nodes.map NodeId.name := by
  induction nodes with
  | nil => rw [List.map_nil, occurrencesOfAll, List.map_nil]
  | cons node nodes ih =>
      rw [List.map_cons, occurrencesOfAll, ih, bareStatement, Statement.occurrences]
      rfl

theorem plain_rest {opening : Opening} (h : opening.brace.kind = .lBrace) :
    opening.brace.advance.Plain opening.rest := by
  have hexpect : (opening.brace.expect .lBrace).2 = opening.brace.advance := by
    simp only [expect, if_pos h]
  rw [← hexpect]
  cases opening with
  | subgraph reader => exact refl
  | braces reader => exact plain_nodeIds #[] _

/-- With no level left, or as many blocks open as may be, a block is refused. -/
theorem read_blockReader_of_full {levels : Nat} {reader : TokenReader}
    (h : levels = 0 ∨ maxNesting ≤ reader.depth) (opened : Position) (before : Array Statement) :
    (blockReader levels).read opened before reader = reader.tooDeep opened before := by
  cases levels with
  | zero => rfl
  | succ levels =>
      have hfull : ¬ reader.depth < maxNesting := by omega
      rw [read_blockReader_succ, if_neg hfull]

theorem Opening.read_of_full {levels : Nat} {opening : Opening}
    (h : levels = 0 ∨ maxNesting ≤ opening.reader.depth) :
    opening.read (blockReader levels) =
      opening.rest.tooDeep opening.brace.position opening.before :=
  read_blockReader_of_full (opening.moves_rest.depth_eq ▸ h) _ _

theorem isCutOff_tooDeep (opening : Opening) :
    opening.IsCutOff (opening.rest.tooDeep opening.brace.position opening.before) where
  faults := faults_skipBlock 0 _
  leaves h := (plain_rest h).leaves
    (leaves_skipBlock 0 (opening.rest.reportAt opening.brace.position .nestingTooDeep))
  statements := rfl
  occurrences := by
    change occurrencesOfAll opening.before.toList = _
    rw [Opening.before, Array.toList_map, occurrences_bareStatement]

theorem filter_ended {turns : List Turn} (h : ∀ turn ∈ turns, turn.IsDue) :
    (turns.filterMap Turn.ended?).filter (fun ended => ended.1 = maxNesting) =
      (turns.filterMap Turn.refused?).map fun opening => (maxNesting, opening.before.toList) := by
  induction turns with
  | nil => rfl
  | cons turn turns ih =>
      obtain ⟨hturn, hrest⟩ := List.forall_mem_cons.mp h
      cases turn with
      | enter opening => exact ih hrest
      | leave opening last statements =>
          have hdepth : ¬ opening.rest.depth = maxNesting := Nat.ne_of_lt hturn.1
          simpa [List.filterMap_cons, Turn.ended?, Turn.refused?, hdepth] using ih hrest
      | refuse opening =>
          have hdepth : opening.rest.depth = maxNesting := hturn
          simpa [List.filterMap_cons, Turn.ended?, Turn.refused?, hdepth] using ih hrest

end DotGraph.TokenReader

namespace DotGraph

open DotGraph.Tree DotGraph.TokenReader

/-- A block is refused just where as many blocks are open as may be.  It is noted once, at its
brace, and what follows is skipped through the brace that closes it.  It stays in the tree with the
node ids that have been read of it before, which are none unless it stands in bare braces behind an
edge operator. -/
theorem refused_blocks_keep_nodes (filename : String) (bytes : ByteArray) :
    (∀ front opening back, (firstReader filename bytes).turns = front ++ .refuse opening :: back →
      front.countP Turn.isEnter = front.countP Turn.isLeave + maxNesting) ∧
    (∀ front opening back, (firstReader filename bytes).turns = front ++ .enter opening :: back →
      front.countP Turn.isEnter < front.countP Turn.isLeave + maxNesting) ∧
    (parse filename bytes).diagnostics.filter Diagnostic.isRefusal =
      ((firstReader filename bytes).turns.filterMap Turn.refused?).map
        (fun opening => .refusal opening.brace.position) ∧
    ((parse filename bytes).document.events.filterMap Event.ended?).filter
        (fun ended => ended.1 = maxNesting) =
      ((firstReader filename bytes).turns.filterMap Turn.refused?).map
        (fun opening => (maxNesting, opening.before.toList)) ∧
    (∀ levels (opening : Opening), levels = 0 ∨ maxNesting ≤ opening.reader.depth →
      opening.IsCutOff (opening.read (blockReader levels))) ∧
    (∀ levels (reader : TokenReader), levels = 0 ∨ maxNesting ≤ reader.depth →
      (reader.subgraph (blockReader levels)).1.statements = [] ∧
      (reader.subgraph (blockReader levels)).2 =
        ((Opening.subgraph reader).read (blockReader levels)).2) ∧
    ∀ levels (reader : TokenReader), levels = 0 ∨ maxNesting ≤ reader.depth →
      ¬ (Opening.braces reader).isGroup →
      reader.groupOrSubgraph (blockReader levels) =
        (.subgraph ⟨reader.position, none, (Opening.braces reader).before.toList⟩,
          ((Opening.braces reader).read (blockReader levels)).2) := by
  have hpaired := @paired_turns (firstReader filename bytes) rfl
  refine ⟨?refuse, ?enter, filter_isRefusal_parse filename bytes, ?bodies, ?cutOff, ?subgraph,
    ?braces⟩
  case refuse =>
    intro front opening back hturns
    have hbalance := hpaired.countP_before hturns
    have hdepth : (Turn.refuse opening).depth = maxNesting :=
      hpaired.isDue (.refuse opening) (by simp [hturns])
    omega
  case enter =>
    intro front opening back hturns
    have hbalance := hpaired.countP_before hturns
    have hdepth : (Turn.enter opening).depth < maxNesting :=
      hpaired.isDue (.enter opening) (by simp [hturns])
    omega
  case bodies => rw [(accounts_parse filename bytes).ended, filter_ended hpaired.isDue]
  case cutOff =>
    intro levels opening hfull
    rw [Opening.read_of_full hfull]
    exact isCutOff_tooDeep opening
  case subgraph =>
    intro levels reader hfull
    have hread := @Opening.read_of_full levels (.subgraph reader) hfull
    rw [subgraph_eq, hread, tooDeep, Opening.before_subgraph]
    exact ⟨rfl, rfl⟩
  case braces =>
    intro levels reader hfull hgroup
    have hread := @Opening.read_of_full levels (.braces reader) hfull
    rw [groupOrSubgraph_eq, if_neg hgroup, hread]
    rfl

theorem exists_close_of_ended {document : Document} {depth : Nat} {id : String}
    (h : ((document.events.filterMap Event.ended?).filter fun ended => ended.1 = depth).map
      (fun ended => occurrencesOfAll ended.2) = [[id]]) :
    ∃ around body, .close around body ∈ document.events ∧ around.length = depth ∧
      body.occurrences = [id] ∧ ∃ node ∈ document.toGraph.nodes, node.id = id := by
  have hone : [id] ∈ [[id]] := List.mem_singleton_self _
  rw [← h] at hone
  obtain ⟨⟨_, _⟩, hmem, hoccurrences⟩ := List.mem_map.mp hone
  obtain ⟨hended, hdepth⟩ := List.mem_filter.mp hmem
  obtain ⟨event, hevent, hsome⟩ := List.mem_filterMap.mp hended
  cases event with
  | node _ _ | assign _ _ _ => exact nomatch hsome
  | close around body =>
      obtain ⟨rfl, rfl⟩ := Prod.mk.inj (Option.some.inj hsome)
      have hids : body.occurrences = [id] := hoccurrences
      have hbody : id ∈ body.occurrences := hids ▸ List.mem_singleton_self _
      obtain ⟨outer, hnode⟩ := (body.recounts_inside around).mem_ids.mp hbody
      have hrecounts := document.recounts_events
      have hinside := hrecounts.inside_subset hevent hnode
      exact ⟨around, body, hevent, of_decide_eq_true hdepth, hids,
        document.exists_node (hrecounts.mem_ids.mpr ⟨outer, hinside⟩)⟩

/-- One block more inside each other than may be open.  Of the two nodes in the innermost, one is
read before the block is refused. -/
def deepText : List Char :=
  "digraph\x7b".toList ++ List.replicate 100 '\x7b' ++ "a->\x7bb;c\x7d".toList ++
    List.replicate 101 '\x7d'

theorem refused_deepText :
    (((TokenStream.ofText "" deepText).parse.document.events.filterMap Event.ended?).filter
      fun ended => ended.1 = maxNesting).map (fun ended => occurrencesOfAll ended.2) = [["b"]] := by
  decide +kernel

/-- A block that is refused may leave a node behind, and this is a node of the graph. -/
theorem refused_block_leaves_node :
    ∃ around body,
      .close around body ∈ (parse "" (String.ofList deepText).toUTF8).document.events ∧
      around.length = maxNesting ∧ body.occurrences = ["b"] ∧
      ∃ node ∈ (parse "" (String.ofList deepText).toUTF8).document.toGraph.nodes,
        node.id = "b" := by
  rw [parse, TokenStream.ofBytes_toUTF8]
  exact exists_close_of_ended refused_deepText

end DotGraph
