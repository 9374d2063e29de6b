import DotGraph.Proofs.Token.Coordinates
import DotGraph.Proofs.Token.Longest

namespace DotGraph

/-! What is reported about a text is what is wrong with it: characters that belong to no token,
texts whose delimiters are not closed, and a comment that goes on to the end. -/

open Token (Quotes EndsQuotes Spelled Stands)
open Trivia (Gap Unclosed)

/-- Something is wrong with a token that is written as `spelling` in front of `rest`. -/
inductive Token.Flawed : Token → LexFault → (spelling rest : List Char) → Prop
  | stray (c : Char) (rest : List Char) :
      Flawed ⟨.illegal, String.singleton c⟩ (.unexpected c) [c] rest
  | openQuotes {text body ending rest : List Char} (hbody : Quotes text body)
      (hending : EndsQuotes ending rest) (hopen : ending ≠ ['"']) :
      Flawed ⟨.quoted, String.ofList text⟩ .unterminatedString ('"' :: (body ++ ending)) rest
  | openHtml {text : List Char}
      (hopen : ∀ front, front ++ ['>'] <+: text → Lexeme.isBalanced 0 front = false) :
      Flawed ⟨.html, String.ofList text⟩ .unterminatedHtml ('<' :: text) []

/-- Something is wrong with a token where it stands in the text. -/
def Token.FlawedIn (filename : String) (text : List Char) (token : Located Token)
    (fault : LexFault) : Prop :=
  ∃ front spelling rest, text = front ++ (spelling ++ rest) ∧
    token.position = .coordinates filename front ∧ Flawed token.value fault spelling rest

/-- The last of the tokens ends where `front` does.  Without tokens there is nothing in front. -/
inductive TokensEnd (filename : String) :
    (tokens : List (Located Token)) → (front rest : List Char) → Prop
  | none (rest : List Char) : TokensEnd filename [] [] rest
  | last {token : Token} {before spelling rest : List Char} (tokens : List (Located Token))
      (htoken : Stands token spelling rest) :
      TokensEnd filename (tokens ++ [⟨.coordinates filename before, token⟩]) (before ++ spelling)
        rest

/-- Behind the tokens a block comment opens that is never closed. -/
def OpensComment (filename : String) (text : List Char) (tokens : List (Located Token))
    (opened : Position) : Prop :=
  ∃ front gap body, text = front ++ (gap ++ '/' :: '*' :: body) ∧
    TokensEnd filename tokens front (gap ++ '/' :: '*' :: body) ∧
    Gap gap ∧ ¬ ['*', '/'] <:+: body ∧ opened = .coordinates filename (front ++ gap)

/-- What is to be reported about a text: what is wrong with one of its tokens, and the comment that
is never closed. -/
inductive Reportable (filename : String) (text : List Char) (tokens : List (Located Token)) :
    Diagnostic → Prop
  | stray {token : Located Token} {c : Char} (htoken : token ∈ tokens)
      (hflawed : Token.FlawedIn filename text token (.unexpected c)) :
      Reportable filename text tokens ⟨.lex, token.position, (LexFault.unexpected c).message⟩
  | openQuotes {token : Located Token} (htoken : token ∈ tokens)
      (hflawed : Token.FlawedIn filename text token .unterminatedString) :
      Reportable filename text tokens ⟨.lex, token.position, "unterminated string"⟩
  | openHtml {token : Located Token} (htoken : token ∈ tokens)
      (hflawed : Token.FlawedIn filename text token .unterminatedHtml) :
      Reportable filename text tokens ⟨.lex, token.position, "unterminated HTML string"⟩
  | comment {opened : Position} (hopens : OpensComment filename text tokens opened) :
      Reportable filename text tokens ⟨.lex, opened, "unterminated block comment"⟩

theorem Reportable.of_flawed {filename : String} {text : List Char} {token : Located Token}
    {tokens : List (Located Token)} {fault : LexFault} (htoken : token ∈ tokens)
    (hflawed : Token.FlawedIn filename text token fault) :
    Reportable filename text tokens (LexFault.diagnostic ⟨token.position, fault⟩) := by
  cases fault with
  | unexpected c => exact .stray htoken hflawed
  | unterminatedString => exact .openQuotes htoken hflawed
  | unterminatedHtml => exact .openHtml htoken hflawed
  | unterminatedComment =>
      -- no token is a comment
      obtain ⟨_, _, _, -, -, hflawed⟩ := hflawed
      generalize token.value = value at hflawed
      cases hflawed

namespace Lexeme

open Token (Flawed)

theorem noted_ofEnclosed {kind : Token.Kind} {fault : LexFault} {position : Position}
    {enclosed : Enclosed} {noted : Located LexFault}
    (h : (ofEnclosed kind fault position enclosed).1.fault = some noted) :
    enclosed.isClosed = false ∧ noted = ⟨position, fault⟩ := by
  unfold ofEnclosed at h
  cases hclosed : enclosed.isClosed with
  | true => simp [hclosed] at h
  | false => exact ⟨rfl, by simpa [hclosed] using h.symm⟩

theorem flawed_readQuoted {position : Position} {rest : List Char}
    (hopen : (readQuoted [] position rest).isClosed = false) :
    ∃ spelling, Flawed ⟨.quoted, String.ofList (readQuoted [] position rest).text⟩
        .unterminatedString ('"' :: spelling) (readQuoted [] position rest).next.rest ∧
      Cursor.Passes ⟨position, rest⟩ spelling (readQuoted [] position rest).next := by
  obtain ⟨text, body, ending, hbody, htext, hending, hpasses⟩ := readQuoted_reads [] position rest
  have hrest : rest = body ++ (ending ++ (readQuoted [] position rest).next.rest) := by
    rw [← List.append_assoc]
    exact hpasses.rest_eq
  have hclosed := congrArg Enclosed.isClosed (readQuoted_of_quotes hbody hending [] position)
  rw [← hrest, hopen] at hclosed
  rw [htext]
  exact ⟨body ++ ending, .openQuotes hbody hending (of_decide_eq_false hclosed.symm), hpasses⟩

theorem flawed_readHtml {position : Position} {rest : List Char}
    (hopen : (readHtml 0 [] position rest).isClosed = false) :
    ∃ spelling, Flawed ⟨.html, String.ofList (readHtml 0 [] position rest).text⟩
        .unterminatedHtml ('<' :: spelling) (readHtml 0 [] position rest).next.rest ∧
      Cursor.Passes ⟨position, rest⟩ spelling (readHtml 0 [] position rest).next := by
  cases readHtml_reads 0 [] position rest with
  | @closed text hbalanced htext hpasses =>
      have hrest : rest = text ++ '>' :: (readHtml 0 [] position rest).next.rest := by
        have := hpasses.rest_eq
        rwa [List.append_assoc] at this
      have hclosed := congrArg Enclosed.isClosed (readHtml_balanced hbalanced [] position
        (readHtml 0 [] position rest).next.rest)
      rw [← hrest, hopen] at hclosed
      exact nomatch hclosed
  | unclosed hunclosed htext hend hpasses =>
      rw [htext, hend]
      exact ⟨rest, .openHtml hunclosed, hpasses⟩

/-- What is noted is wrong with the token that is read. -/
theorem flawed_readAt {position : Position} {c : Char} {tail : List Char}
    {noted : Located LexFault} (h : (readAt position c tail).1.fault = some noted) :
    ∃ spelling, Flawed (readAt position c tail).1.token noted.value spelling
        (readAt position c tail).2.rest ∧
      Cursor.Passes ⟨position, c :: tail⟩ spelling (readAt position c tail).2 := by
  have hread := readsAt position c tail
  generalize readAt position c tail = result at hread h ⊢
  cases hread with
  | word | numeral | sign _ => nomatch h
  | quotes hc =>
      subst hc
      obtain ⟨hopen, rfl⟩ := noted_ofEnclosed h
      obtain ⟨spelling, hflawed, hpasses⟩ := flawed_readQuoted hopen
      exact ⟨_, hflawed, hpasses.cons⟩
  | brackets hc =>
      subst hc
      obtain ⟨hopen, rfl⟩ := noted_ofEnclosed h
      obtain ⟨spelling, hflawed, hpasses⟩ := flawed_readHtml hopen
      exact ⟨_, hflawed, hpasses.cons⟩
  | stray =>
      obtain rfl := Option.some.inj h
      exact ⟨_, .stray _ _, (Cursor.Passes.refl _).cons⟩

/-- What is wrong with a token is noted when it is read. -/
theorem fault_readAt_of_flawed {position : Position} {c : Char} {tail spelling rest : List Char}
    {fault : LexFault} (h : Flawed (readAt position c tail).1.token fault spelling rest)
    (htail : c :: tail = spelling ++ rest) :
    (readAt position c tail).1.fault = some ⟨position, fault⟩ := by
  generalize htoken : (readAt position c tail).1.token = token at h
  cases h with
  | stray d _ =>
      obtain ⟨rfl, -⟩ := List.cons.inj htail
      rw [readAt_of_illegal (congrArg Token.kind htoken)]
  | @openQuotes _ body ending _ hbody hending hopen =>
      obtain ⟨rfl, hbodytail⟩ := List.cons.inj (htail.trans (List.cons_append ..))
      rw [List.append_assoc] at hbodytail
      change (ofEnclosed .quoted .unterminatedString position
        (readQuoted [] (position.after '"') tail)).1.fault = _
      rw [hbodytail, readQuoted_of_quotes hbody hending]
      simp [ofEnclosed, hopen]
  | openHtml hopen =>
      rw [List.append_nil] at htail
      obtain ⟨rfl, rfl⟩ := List.cons.inj htail
      change (ofEnclosed .html .unterminatedHtml position
        (readHtml 0 [] (position.after '<') tail)).1.fault = _
      rw [readHtml_open hopen]
      rfl

/-- What is read is the end of input, or the token behind a gap. -/
theorem exists_readAt {cursor : Cursor} (h : ¬ (read cursor).1.isEnd) :
    ∃ gap c tail spelling,
      cursor.Passes gap ⟨(read cursor).1.position, c :: tail⟩ ∧
      read cursor = readAt (read cursor).1.position c tail ∧
      Stands (read cursor).1.token spelling (read cursor).2.rest ∧
      Cursor.Passes ⟨(read cursor).1.position, c :: tail⟩ spelling (read cursor).2 := by
  obtain ⟨gap, rest, hgap, hrest, hunclosed | hstops⟩ := Trivia.hasGap cursor.rest
  · exact absurd (isEnd_read_of_unclosed hgap hunclosed hrest) h
  · cases rest with
    | nil => exact absurd rfl hstops.1
    | cons c tail =>
        obtain ⟨hposition, spelling, hstands, hpasses⟩ := read_of_stops hgap hstops hrest
        refine ⟨gap, c, tail, spelling, ⟨hrest, hposition⟩, ?_, hstands, hpasses⟩
        rw [hposition]
        exact read_eq_readAt hgap hstops hrest

theorem fault_read_of_skip {cursor : Cursor} {position : Position} {unclosed : Option Position}
    (h : Trivia.skip .between cursor.position cursor.rest = (⟨position, []⟩, unclosed)) :
    (read cursor).1.fault = unclosed.map (⟨·, .unterminatedComment⟩) := by
  simp only [read, h]

/-- The end of input carries the fault of a comment that opens behind a gap and is never closed. -/
theorem fault_read_of_isEnd {cursor : Cursor} (hend : (read cursor).1.isEnd)
    (noted : Located LexFault) :
    (read cursor).1.fault = some noted ↔
      ∃ gap body, cursor.rest = gap ++ '/' :: '*' :: body ∧ Gap gap ∧ ¬ ['*', '/'] <:+: body ∧
        noted = ⟨cursor.position.afterAll gap, .unterminatedComment⟩ := by
  have hskip {gap rest : List Char} (hgap : Gap gap) (hrest : cursor.rest = gap ++ rest) :
      Trivia.skip .between cursor.position cursor.rest =
        Trivia.skip .between (cursor.position.afterAll gap) rest := by
    rw [hrest, Trivia.skip_gap hgap]
  have hblock {gap body : List Char} (hgap : Gap gap) (hbody : ¬ ['*', '/'] <:+: body)
      (hrest : cursor.rest = gap ++ '/' :: '*' :: body) :
      (read cursor).1.fault = some ⟨cursor.position.afterAll gap, .unterminatedComment⟩ :=
    fault_read_of_skip ((hskip hgap hrest).trans (Trivia.skip_openBlock hbody _ _))
  constructor
  · intro hfault
    obtain ⟨gap, rest, hgap, hrest, hunclosed | hstops⟩ := Trivia.hasGap cursor.rest
    · have hnone {position : Position}
          (hrest' : Trivia.skip .between (cursor.position.afterAll gap) rest =
            (⟨position, []⟩, none)) : (read cursor).1.fault ≠ some noted := by
        rw [fault_read_of_skip ((hskip hgap hrest).trans hrest')]
        exact nofun
      cases hunclosed with
      | nil => exact absurd hfault (hnone rfl)
      | line hbody => exact absurd hfault (hnone (Trivia.skip_openLine hbody _))
      | hash hbody => exact absurd hfault (hnone (Trivia.skip_openLine hbody _))
      | @block body hbody =>
          have hnoted := (hblock hgap hbody hrest).symm.trans hfault
          exact ⟨gap, body, hrest, hgap, hbody, (Option.some.inj hnoted).symm⟩
    · obtain ⟨_, spelling, hstands, _⟩ := read_of_stops hgap hstops hrest
      exact absurd (of_decide_eq_true hend) hstands.kind_ne_endOfInput
  · rintro ⟨gap, body, hrest, hgap, hbody, rfl⟩
    exact hblock hgap hbody hrest

end Lexeme

theorem Text.size_append (front back : List Char) :
    size (front ++ back) = size front + size back := by
  rw [size, String.ofList_append, String.utf8ByteSize_append]
  rfl

theorem Text.size_pos {text : List Char} (h : text ≠ []) : 0 < size text := by
  have hlt := (Position.start "").offset_lt_afterAll h
  rw [Position.offset_afterAll] at hlt
  exact Nat.pos_of_lt_add_right hlt

/-- A place of a text has only one text in front of it. -/
theorem Position.eq_of_coordinates_eq {filename : String} {front back front' back' : List Char}
    (htext : front ++ back = front' ++ back')
    (h : coordinates filename front = coordinates filename front') :
    front = front' ∧ back = back' := by
  have hsize : Text.size front = Text.size front' := congrArg Position.offset h
  suffices front = front' by
    subst this
    exact ⟨rfl, List.append_cancel_left htext⟩
  obtain ⟨more, hmore, -⟩ | ⟨more, hmore, -⟩ := List.append_eq_append_iff.mp htext <;>
  · rw [hmore, Text.size_append] at hsize
    have hnil : more = [] := by
      by_contra hne
      have := Text.size_pos hne
      omega
    rw [hmore, hnil, List.append_nil]

/-- A token cannot be written in two ways at one place. -/
theorem Token.Stands.rest_eq {token : Token} {spelling rest spelling' rest' : List Char}
    (h : Stands token spelling rest) (k : Stands token spelling' rest')
    (htext : spelling ++ rest = spelling' ++ rest') : rest = rest' := by
  have hspelled {spelling rest spelling' rest' : List Char} (h : Spelled token spelling rest)
      (k : Stands token spelling' rest') (htext : spelling ++ rest = spelling' ++ rest') :
      rest = rest' := by
    obtain ⟨c, tail, rfl, htoken, hnext⟩ := Lexeme.readAt_of_spelled h default
    have hrest := Lexeme.rest_readAt_of_stands (htoken ▸ k) htext
    exact (congrArg Cursor.rest hnext).symm.trans hrest
  cases h with
  | token h => exact hspelled h k htext
  | stray h =>
      generalize hkind : Token.mk .illegal _ = token at k
      cases k with
      | token k =>
          subst hkind
          exact (hspelled k (.stray h) htext.symm).symm
      | stray _ => exact (List.cons.inj htext).2

theorem TokensEnd.unique {filename : String} {tokens : List (Located Token)}
    {front rest front' rest' : List Char} (h : TokensEnd filename tokens front rest)
    (k : TokensEnd filename tokens front' rest') (htext : front ++ rest = front' ++ rest') :
    front = front' ∧ rest = rest' := by
  generalize hsame : tokens = tokens' at k
  cases h with
  | none _ =>
      cases k with
      | none _ => exact ⟨rfl, htext⟩
      | last _ _ => exact absurd hsame.symm (by simp)
  | last _ htoken =>
      cases k with
      | none _ => exact absurd hsame (by simp)
      | last _ htoken' =>
          obtain ⟨-, hlast⟩ := List.append_inj' hsame rfl
          simp only [List.cons.injEq, Located.mk.injEq, and_true] at hlast
          obtain ⟨hposition, rfl⟩ := hlast
          rw [List.append_assoc, List.append_assoc] at htext
          obtain ⟨rfl, hback⟩ := Position.eq_of_coordinates_eq htext hposition
          obtain rfl := htoken.rest_eq htoken' hback
          rw [List.append_cancel_right hback]
          exact ⟨rfl, rfl⟩

namespace TokenStream

variable {filename : String} {text : List Char}

/-- From behind some of the tokens the others are read, and the end of input behind the last. -/
theorem exists_last_read (cursor : Cursor) {front : List Char} {seen : List (Located Token)}
    (hpasses : (Cursor.start filename text).Passes front cursor)
    (hseen : TokensEnd filename seen front cursor.rest) :
    ∃ tokens front last, Lexeme.readAll cursor = tokens ++ [(Lexeme.read last).1] ∧
      (Lexeme.read last).1.isEnd ∧ (Cursor.start filename text).Passes front last ∧
      TokensEnd filename (seen ++ tokens.map Lexeme.located) front last.rest ∧
      ∀ lexeme ∈ tokens, ∃ front c tail, text = front ++ c :: tail ∧
        lexeme = (Lexeme.readAt (.coordinates filename front) c tail).1 := by
  induction cursor using Lexeme.readAll.induct generalizing front seen with
  | case1 cursor _ =>
      rename_i h
      refine ⟨[], front, cursor, Lexeme.readAll_of_isEnd h, h, hpasses, ?_,
        List.forall_mem_nil _⟩
      rwa [List.map_nil, List.append_nil]
  | case2 cursor _ h =>
      rename_i ih
      obtain ⟨gap, c, tail, spelling, hgap, hread, hstands, hnext⟩ := Lexeme.exists_readAt h
      have hstart := hpasses.trans hgap
      have hlocated : (Lexeme.read cursor).1.located =
          ⟨.coordinates filename (front ++ gap), (Lexeme.read cursor).1.token⟩ := by
        rw [Lexeme.located, ← hstart.position_start]
      obtain ⟨tokens, back, last, hall, hend, hlast, htokens, hread'⟩ :=
        ih (hstart.trans hnext) (.last seen hstands)
      refine ⟨(Lexeme.read cursor).1 :: tokens, back, last, ?_, hend, hlast, ?_, ?_⟩
      · rw [Lexeme.readAll_of_not_isEnd h, hall, List.cons_append]
      · rwa [List.map_cons, List.append_cons, hlocated]
      · rintro lexeme (_ | ⟨_, hmem⟩)
        · refine ⟨front ++ gap, c, tail, hstart.rest_eq, ?_⟩
          rw [← hstart.position_start]
          exact congrArg Prod.fst hread
        · exact hread' lexeme hmem

/-- The tokens of a text are read at their places, and the end of input behind the last of them. -/
theorem exists_finish (filename : String) (text : List Char) :
    ∃ front last, (Cursor.start filename text).Passes front last ∧
      (ofText filename text).finish = (Lexeme.read last).1 ∧ (Lexeme.read last).1.isEnd ∧
      TokensEnd filename ((ofText filename text).tokens.map Lexeme.located) front last.rest ∧
      ∀ lexeme ∈ (ofText filename text).tokens, ∃ front c tail, text = front ++ c :: tail ∧
        lexeme = (Lexeme.readAt (.coordinates filename front) c tail).1 := by
  obtain ⟨tokens, front, last, hall, hend, hlast, htokens, hread⟩ :=
    exists_last_read (.start filename text) (.refl _) (@TokensEnd.none filename text)
  rw [← lexemes_ofText, lexemes] at hall
  obtain ⟨rfl, hfinish⟩ := List.append_inj' hall rfl
  exact ⟨front, last, hlast, (List.cons.inj hfinish).1, hend, htokens, hread⟩

/-- What is noted beside a token is what is wrong with it. -/
theorem flawedIn_iff {lexeme : Lexeme} (hmem : lexeme ∈ (ofText filename text).tokens)
    (fault : LexFault) :
    Token.FlawedIn filename text lexeme.located fault ↔
      lexeme.fault = some ⟨lexeme.position, fault⟩ := by
  obtain ⟨-, -, -, -, -, -, hread⟩ := exists_finish filename text
  obtain ⟨front, c, tail, htext, rfl⟩ := hread lexeme hmem
  have hposition := Lexeme.position_readAt (.coordinates filename front) c tail
  rw [hposition]
  constructor
  · rintro ⟨front', spelling, rest, htext', hplace, hflawed⟩
    obtain ⟨rfl, hback⟩ := Position.eq_of_coordinates_eq (htext.symm.trans htext')
      (hposition.symm.trans hplace)
    exact Lexeme.fault_readAt_of_flawed hflawed hback
  · intro hfault
    obtain ⟨spelling, hflawed, hpasses⟩ := Lexeme.flawed_readAt hfault
    refine ⟨front, spelling, _, ?_, hposition, hflawed⟩
    rw [htext]
    exact congrArg (front ++ ·) hpasses.rest_eq

/-- What is noted beside the end of input is the comment that goes on to it. -/
theorem fault_finish (filename : String) (text : List Char) (noted : Located LexFault) :
    (ofText filename text).finish.fault = some noted ↔
      noted.value = .unterminatedComment ∧
        OpensComment filename text ((ofText filename text).tokens.map Lexeme.located)
          noted.position := by
  obtain ⟨front, last, hpasses, hfinish, hend, htokens, -⟩ := exists_finish filename text
  have htext : text = front ++ last.rest := hpasses.rest_eq
  have hplace (gap : List Char) :
      last.position.afterAll gap = .coordinates filename (front ++ gap) := by
    rw [hpasses.position_start, ← Position.afterAll_start, ← Position.afterAll_append,
      Position.afterAll_start]
  rw [hfinish, Lexeme.fault_read_of_isEnd hend]
  constructor
  · rintro ⟨gap, body, hrest, hgap, hbody, rfl⟩
    rw [hrest] at htext htokens
    exact ⟨rfl, front, gap, body, htext, htokens, hgap, hbody, hplace gap⟩
  · rintro ⟨hvalue, front', gap, body, htext', htokens', hgap, hbody, hopened⟩
    obtain ⟨rfl, hrest⟩ := htokens.unique htokens' (htext.symm.trans htext')
    refine ⟨gap, body, hrest, hgap, hbody, ?_⟩
    rw [hplace, ← hopened, ← hvalue]

theorem fault_of_mem_tokens {lexeme : Lexeme} (hmem : lexeme ∈ (ofText filename text).tokens)
    {noted : Located LexFault} (h : lexeme.fault = some noted) :
    noted.position = lexeme.position := by
  obtain ⟨-, -, -, -, -, -, hread⟩ := exists_finish filename text
  obtain ⟨front, c, tail, -, rfl⟩ := hread lexeme hmem
  rw [Lexeme.position_readAt]
  exact Lexeme.fault_readAt _ _ _ _ h

theorem mem_faults (filename : String) (text : List Char) (noted : Located LexFault) :
    noted ∈ (ofText filename text).faults ↔
      (∃ lexeme ∈ (ofText filename text).tokens, noted.position = lexeme.position ∧
        Token.FlawedIn filename text lexeme.located noted.value) ∨
      noted.value = .unterminatedComment ∧
        OpensComment filename text ((ofText filename text).tokens.map Lexeme.located)
          noted.position := by
  rw [← fault_finish, faults, lexemes, List.filterMap_append, List.mem_append]
  refine or_congr ?_ (by simp)
  rw [List.mem_filterMap]
  refine exists_congr fun lexeme => and_congr_right fun hmem => ?_
  constructor
  · intro hfault
    have hposition := fault_of_mem_tokens hmem hfault
    exact ⟨hposition, (flawedIn_iff hmem _).mpr (by rw [← hposition]; exact hfault)⟩
  · rintro ⟨hposition, hflawed⟩
    rw [(flawedIn_iff hmem _).mp hflawed, ← hposition]

/-- The characters at which no token starts are those that are reported as unexpected. -/
theorem illegal_iff {lexeme : Lexeme} (hmem : lexeme ∈ (ofText filename text).tokens) :
    lexeme.token.kind = .illegal ↔
      ∃ c, Token.FlawedIn filename text lexeme.located (.unexpected c) := by
  constructor
  · intro hkind
    obtain ⟨-, -, -, -, -, -, hread⟩ := exists_finish filename text
    obtain ⟨front, c, tail, -, rfl⟩ := hread lexeme hmem
    refine ⟨c, (flawedIn_iff hmem _).mpr ?_⟩
    rw [Lexeme.readAt_of_illegal hkind]
  · rintro ⟨c, front, spelling, rest, -, -, hflawed⟩
    change lexeme.located.value.kind = .illegal
    generalize lexeme.located.value = token at hflawed ⊢
    cases hflawed
    rfl

end TokenStream

/-- No token follows a place behind the last one. -/
theorem TokensEnd.offset_lt {filename : String} {tokens : List (Located Token)}
    {front rest : List Char} (h : TokensEnd filename tokens front rest)
    (hsorted : (tokens.map (·.position.offset)).Pairwise (· < ·)) :
    ∀ token ∈ tokens, token.position.offset < Text.size front := by
  cases h with
  | none _ => exact nofun
  | @last token before spelling _ tokens htoken =>
      obtain ⟨c, body, rfl⟩ := htoken.exists_cons
      have hlast : Text.size before < Text.size (before ++ c :: body) := by
        rw [Text.size_append]
        exact Nat.lt_add_of_pos_right (Text.size_pos (List.cons_ne_nil c body))
      rw [List.map_append, List.pairwise_append] at hsorted
      intro other hmem
      rcases List.mem_append.mp hmem with hmem | hmem
      · have hlt := hsorted.2.2 _ (List.mem_map_of_mem hmem) _ List.mem_cons_self
        exact Nat.lt_trans hlt hlast
      · rw [List.mem_singleton.mp hmem]
        exact hlast

theorem mem_diagnostics_tokenize (filename : String) (bytes : ByteArray)
    (diagnostic : Diagnostic) :
    diagnostic ∈ (tokenize filename bytes).2 ↔
      Reportable filename (Text.decodeLossy bytes) (tokenize filename bytes).1 diagnostic := by
  have hfaults := TokenStream.mem_faults filename (Text.decodeLossy bytes)
  constructor
  · intro hmem
    obtain ⟨⟨position, fault⟩, hnoted, rfl⟩ := List.mem_map.mp hmem
    rcases (hfaults _).mp hnoted with ⟨lexeme, hlexeme, hposition, hflawed⟩ | ⟨hvalue, hopens⟩
    · obtain rfl : position = lexeme.position := hposition
      exact .of_flawed (List.mem_map_of_mem hlexeme) hflawed
    · obtain rfl : fault = .unterminatedComment := hvalue
      exact .comment hopens
  · have hflaw {token : Located Token} {fault : LexFault}
        (htoken : token ∈ (tokenize filename bytes).1)
        (hflawed : Token.FlawedIn filename (Text.decodeLossy bytes) token fault) :
        LexFault.diagnostic ⟨token.position, fault⟩ ∈ (tokenize filename bytes).2 := by
      obtain ⟨lexeme, hlexeme, rfl⟩ := List.mem_map.mp htoken
      have hnoted := (hfaults ⟨lexeme.position, fault⟩).mpr (.inl ⟨lexeme, hlexeme, rfl, hflawed⟩)
      exact List.mem_map_of_mem hnoted
    intro hreport
    cases hreport with
    | stray htoken hflawed | openQuotes htoken hflawed | openHtml htoken hflawed =>
        exact hflaw htoken hflawed
    | @comment opened hopens =>
        have hnoted := (hfaults ⟨opened, .unterminatedComment⟩).mpr (.inr ⟨rfl, hopens⟩)
        exact List.mem_map_of_mem hnoted

/-- A comment that is never closed is reported last, and stands behind all tokens. -/
theorem comment_last {filename : String} {bytes : ByteArray} {opened : Position}
    (h : OpensComment filename (Text.decodeLossy bytes) (tokenize filename bytes).1 opened) :
    (tokenize filename bytes).2.getLast? =
        some ⟨.lex, opened, "unterminated block comment"⟩ ∧
      ∀ token ∈ (tokenize filename bytes).1, token.position.offset < opened.offset := by
  constructor
  · have hfault := (TokenStream.fault_finish filename (Text.decodeLossy bytes)
      ⟨opened, .unterminatedComment⟩).mpr ⟨rfl, h⟩
    rw [tokenize, TokenStream.ofBytes, TokenStream.faults, TokenStream.lexemes,
      List.filterMap_append, List.filterMap_cons_some hfault, List.map_append]
    exact List.getLast?_concat
  · obtain ⟨front, gap, body, -, hend, -, -, rfl⟩ := h
    intro token htoken
    calc
      _ < Text.size front := hend.offset_lt (offset_pairwise_tokenize filename bytes) token htoken
      _ ≤ Text.size (front ++ gap) := by
        rw [Text.size_append]
        exact Nat.le_add_right _ _

/-- What is reported about a text, in the order in which it stands there, is each character at
which no token starts, each text whose quote or bracket is not closed, the comment that goes on to
the end, and nothing else.  Nothing is reported twice, and the comment is reported last. -/
theorem tokenize_reports_flaws (filename : String) (bytes : ByteArray) :
    let text := Text.decodeLossy bytes
    let tokens := (tokenize filename bytes).1
    let diagnostics := (tokenize filename bytes).2
    (diagnostics.map (·.position.offset)).Pairwise (· < ·) ∧
    (∀ diagnostic, diagnostic ∈ diagnostics ↔ Reportable filename text tokens diagnostic) ∧
    (∀ token ∈ tokens, token.value.kind = .illegal ↔
      ∃ c, Token.FlawedIn filename text token (.unexpected c)) ∧
    (∀ token ∈ tokens, ∀ first second, Token.FlawedIn filename text token first →
      Token.FlawedIn filename text token second → first = second) ∧
    (∀ opened, OpensComment filename text tokens opened →
      diagnostics.getLast? = some ⟨.lex, opened, "unterminated block comment"⟩ ∧
      ∀ token ∈ tokens, token.position.offset < opened.offset) ∧
    (diagnostics = [] ↔
      (∀ token ∈ tokens, ∀ fault, ¬ Token.FlawedIn filename text token fault) ∧
      ∀ opened, ¬ OpensComment filename text tokens opened) := by
  intro text tokens diagnostics
  have hmem := mem_diagnostics_tokenize filename bytes
  refine ⟨?_, hmem, ?_, ?_, fun opened hopens => comment_last hopens, ?_⟩
  · have hsorted := Lexeme.fault_pairwise_readAll (.start filename text)
    rw [← TokenStream.lexemes_ofText] at hsorted
    have hdiagnostics : diagnostics =
        (TokenStream.ofText filename text).faults.map LexFault.diagnostic := rfl
    rw [hdiagnostics, List.map_map, List.pairwise_map]
    exact hsorted
  · intro token htoken
    obtain ⟨lexeme, hlexeme, rfl⟩ := List.mem_map.mp htoken
    exact TokenStream.illegal_iff hlexeme
  · intro token htoken first second hfirst hsecond
    obtain ⟨lexeme, hlexeme, rfl⟩ := List.mem_map.mp htoken
    have hsame := ((TokenStream.flawedIn_iff hlexeme first).mp hfirst).symm.trans
      ((TokenStream.flawedIn_iff hlexeme second).mp hsecond)
    exact congrArg Located.value (Option.some.inj hsame)
  · rw [List.eq_nil_iff_forall_not_mem]
    constructor
    · intro hnone
      exact ⟨fun token htoken fault hflawed => hnone _ ((hmem _).mpr (.of_flawed htoken hflawed)),
        fun opened hopens => hnone _ ((hmem _).mpr (.comment hopens))⟩
    · rintro ⟨hflawed, hopens⟩ diagnostic hdiagnostic
      cases (hmem diagnostic).mp hdiagnostic with
      | stray htoken h | openQuotes htoken h | openHtml htoken h => exact hflawed _ htoken _ h
      | comment h => exact hopens _ h

/-- A quote is closed by no newline, and behind an open comment nothing is read any more. -/
example :
    (tokenize "" "! \"a\n /* \" !".toUTF8).2.map
        (fun diagnostic => (diagnostic.position.offset, diagnostic.message)) =
      [(0, "unexpected character: !"), (2, "unterminated string"),
        (6, "unterminated block comment")] := by
  decide +kernel

end DotGraph
