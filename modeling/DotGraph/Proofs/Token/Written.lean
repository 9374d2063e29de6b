import DotGraph.Proofs.Token.Spelling
import DotGraph.Token.Stream

namespace DotGraph

open Trivia (Gap Delimits)

/-- A text that tokens are written in, with gaps around them.  There may be no gap before the first
of them, unless one is needed there. -/
inductive Written : (needsGap : Bool) → List Token → List Char → Prop
  | nil {needsGap : Bool} {gap : List Char} (hgap : Gap gap) : Written needsGap [] gap
  | cons {needsGap : Bool} {gap text : List Char} {token : Token} {tokens : List Token}
      (hgap : Gap gap) (hneeded : needsGap → gap ≠ []) :
      Written true tokens text →
      Written needsGap (token :: tokens) (gap ++ (token.spelling ++ text))

/-- One blank before each of the tokens. -/
def spaced (tokens : List Token) : List Char :=
  tokens.flatMap fun token => ' ' :: token.spelling

theorem written_spaced (needsGap : Bool) (tokens : List Token) :
    Written needsGap tokens (spaced tokens) := by
  induction tokens generalizing needsGap with
  | nil => exact .nil .nil
  | cons token tokens ih =>
      exact .cons (.blank rfl .nil) (fun _ => List.cons_ne_nil _ _) (ih true)

theorem Lexeme.read_gap {gap : List Char} (hgap : Gap gap) (position : Position) :
    read ⟨position, gap⟩ =
      (⟨position.afterAll gap, .punctuation .endOfInput, none⟩, ⟨position.afterAll gap, []⟩) := by
  have hskip := Trivia.skip_gap hgap position []
  rw [List.append_nil] at hskip
  simp only [read, hskip]
  rfl

theorem Lexeme.read_token {gap : List Char} (hgap : Gap gap) {token : Token}
    (htoken : token.isSpellable) {rest : List Char} (hrest : Delimits rest) (position : Position) :
    read ⟨position, gap ++ (token.spelling ++ rest)⟩ =
      (⟨position.afterAll gap, token, none⟩,
        ⟨(position.afterAll gap).afterAll token.spelling, rest⟩) := by
  obtain ⟨c, text, hspelling, hc, hread⟩ := readsBack htoken (position.afterAll gap) rest hrest
  have hskip : Trivia.skip .between position (gap ++ (token.spelling ++ rest)) =
      (⟨position.afterAll gap, c :: (text ++ rest)⟩, none) := by
    rw [Trivia.skip_gap hgap, hspelling, List.cons_append, Trivia.skip_of_not_startsGap hc]
  simp only [read, hskip, hread]

theorem Text.decodeLossy_toUTF8 (text : List Char) :
    decodeLossy (String.ofList text).toUTF8 = text := by
  have hvalid : (String.ofList text).toUTF8.IsValidUTF8 := (String.ofList text).isValidUTF8
  have hdecode : String.fromUTF8? (String.ofList text).toUTF8 = some (String.ofList text) := by
    rw [String.fromUTF8?, dif_pos hvalid]
    rfl
  rw [decodeLossy, hdecode]
  exact String.toList_ofList

/-- Tokens as they stand in a text that begins at a position, with gaps around them: each has the
position that is reached over all that is written before it. -/
inductive Placed : Position → (needsGap : Bool) → List (Located Token) → List Char → Prop
  | nil {position : Position} {needsGap : Bool} {gap : List Char} (hgap : Gap gap) :
      Placed position needsGap [] gap
  | cons {position : Position} {needsGap : Bool} {gap text : List Char} {token : Token}
      {tokens : List (Located Token)} (hgap : Gap gap) (hneeded : needsGap → gap ≠ []) :
      Placed ((position.afterAll gap).afterAll token.spelling) true tokens text →
      Placed position needsGap (⟨position.afterAll gap, token⟩ :: tokens)
        (gap ++ (token.spelling ++ text))

theorem Placed.delimits {position : Position} {tokens : List (Located Token)} {text : List Char}
    (h : Placed position true tokens text) : Delimits text := by
  cases h with
  | nil hgap => exact hgap.delimits
  | cons hgap hneeded _ => exact hgap.delimits.append (hneeded rfl) _

/-- Wherever a text begins, the tokens that are written in it have their places. -/
theorem Written.exists_placed {needsGap : Bool} {tokens : List Token} {text : List Char}
    (h : Written needsGap tokens text) (position : Position) :
    ∃ placed, Placed position needsGap placed text ∧ placed.map Located.value = tokens := by
  induction h generalizing position with
  | nil hgap => exact ⟨[], .nil hgap, rfl⟩
  | @cons _ gap _ token _ hgap hneeded _ ih =>
      obtain ⟨placed, hplaced, hvalues⟩ :=
        ih ((position.afterAll gap).afterAll token.spelling)
      exact ⟨_ :: placed, .cons hgap hneeded hplaced, by rw [List.map_cons, hvalues]⟩

def Lexeme.ofToken (token : Located Token) : Lexeme :=
  ⟨token.position, token.value, none⟩

namespace TokenStream

/-- Reading undoes writing: the tokens are those that were written, each where it was written, and
nothing is wrong. -/
theorem readFrom_placed {position : Position} {needsGap : Bool} {tokens : List (Located Token)}
    {text : List Char} (h : Placed position needsGap tokens text)
    (htokens : ∀ token ∈ tokens, token.value.isSpellable) (before : Array Lexeme) :
    ∃ finish, finish.fault = none ∧
      readFrom ⟨position, text⟩ before =
        ⟨before.toList ++ tokens.map Lexeme.ofToken, finish⟩ := by
  induction h generalizing before with
  | @nil position _ gap hgap =>
      refine ⟨⟨position.afterAll gap, .punctuation .endOfInput, none⟩, rfl, ?_⟩
      rw [readFrom, dif_pos (by rw [Lexeme.read_gap hgap]; rfl), Lexeme.read_gap hgap,
        List.map_nil, List.append_nil]
  | @cons position _ gap text token tokens hgap _ hplaced ih =>
      have htoken : token.isSpellable := htokens _ List.mem_cons_self
      have hread := Lexeme.read_token hgap htoken hplaced.delimits position
      -- the token that is read is none of the end, since that one has no spelling
      have hend : ¬ (Lexeme.read ⟨position, gap ++ (token.spelling ++ text)⟩).1.isEnd := by
        rw [hread]
        intro hend
        have hkind : token.kind = .endOfInput := by simpa [Lexeme.isEnd] using hend
        rw [Token.isSpellable, hkind] at htoken
        exact absurd htoken (by simp)
      obtain ⟨finish, hfinish, hfrom⟩ :=
        ih (fun other hmem => htokens other (List.mem_cons_of_mem _ hmem))
          (before.push (.ofToken ⟨position.afterAll gap, token⟩))
      refine ⟨finish, hfinish, ?_⟩
      rw [readFrom, dif_neg hend, hread]
      exact hfrom.trans (by simp)

theorem ofText_placed {filename : String} {tokens : List (Located Token)} {text : List Char}
    (h : Placed (.start filename) false tokens text)
    (htokens : ∀ token ∈ tokens, token.value.isSpellable) :
    (ofText filename text).tokens = tokens.map Lexeme.ofToken ∧
      ∀ lexeme ∈ (ofText filename text).lexemes, lexeme.fault = none := by
  obtain ⟨finish, hfinish, hfrom⟩ := readFrom_placed h htokens #[]
  have hstream : ofText filename text = ⟨tokens.map Lexeme.ofToken, finish⟩ := hfrom
  rw [hstream]
  refine ⟨rfl, ?_⟩
  intro lexeme hmem
  rcases List.mem_append.mp hmem with hmem | hmem
  · obtain ⟨token, _, rfl⟩ := List.mem_map.mp hmem
    rfl
  · rw [List.mem_singleton.mp hmem]
    exact hfinish

theorem ofBytes_toUTF8 (filename : String) (text : List Char) :
    ofBytes filename (String.ofList text).toUTF8 = .ofText filename text := by
  rw [ofBytes, Text.decodeLossy_toUTF8]

theorem ofText_written {tokens : List Token} {text : List Char} (h : Written false tokens text)
    (htokens : ∀ token ∈ tokens, token.isSpellable) (filename : String) :
    (ofText filename text).tokens.map Lexeme.token = tokens ∧
      ∀ lexeme ∈ (ofText filename text).lexemes, lexeme.fault = none := by
  obtain ⟨placed, hplaced, rfl⟩ := h.exists_placed (.start filename)
  obtain ⟨hstream, hfaults⟩ := ofText_placed hplaced fun token hmem =>
    htokens token.value (List.mem_map_of_mem hmem)
  refine ⟨?_, hfaults⟩
  rw [hstream, List.map_map]
  rfl

end TokenStream

end DotGraph
