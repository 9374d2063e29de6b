import DotGraph.Proofs.Command.Agreement
import DotGraph.Proofs.Reader.Coordinates
import DotGraph.Proofs.Text.Lines

namespace DotGraph

/-! What is told about a source is told line by line, with one line for each thing that is told of.
No line is broken by what stands in the source. -/

open Text (IsLine isLine_toString)

theorem Token.Kind.isLine_name (kind : Token.Kind) : IsLine kind.name := by
  cases kind <;> decide

theorem Token.isLine_display (token : Token) : IsLine token.display := by
  unfold display
  split
  · exact token.kind.isLine_name
  · exact (token.kind.isLine_name.append (by decide)).append (Text.isLine_quoted token.text)

/-- A newline is told of as a character without a glyph. -/
theorem LexFault.isLine_message (fault : LexFault) : IsLine fault.message := by
  cases fault with
  | unterminatedString | unterminatedHtml | unterminatedComment => decide
  | unexpected c =>
      rw [message]
      split
      · decide
      · rename_i hcontrol
        have hnewline : '\n' ≠ c := by
          rintro rfl
          exact hcontrol (by decide)
        have hsingle : IsLine (String.singleton c) := by
          rw [IsLine, String.toList_singleton, List.mem_singleton]
          exact hnewline
        exact .append (by decide) hsingle

theorem ParseFault.isLine_message (fault : ParseFault) : IsLine fault.message := by
  cases fault with
  | expected wanted got =>
      exact ((IsLine.append (by decide) wanted.isLine_name).append (by decide)).append
        got.isLine_name
  | missingHeader got | expectedIdent got => exact .append (by decide) got.isLine_name
  | unexpectedToken got => exact (IsLine.append (by decide) got.isLine_name).append (by decide)
  | missingAssignedValue | missingAttributeValue | missingEndpoint | nestingTooDeep => decide

theorem Position.isLine_display {position : Position} (h : IsLine position.filename) :
    IsLine position.display := by
  have hplace : IsLine (toString position.line ++ ":" ++ toString position.column) :=
    ((isLine_toString position.line).append (by decide)).append (isLine_toString position.column)
  unfold display
  simp only
  split
  · exact hplace
  · exact (h.append (by decide)).append hplace

variable {filename : String} {bytes : ByteArray}

theorem isLine_message_parse :
    ∀ diagnostic ∈ (parse filename bytes).diagnostics, IsLine diagnostic.message := by
  rw [diagnostics_parse, List.forall_mem_append]
  constructor
  · intro diagnostic hmem
    obtain ⟨fault, _, rfl⟩ := List.mem_map.mp hmem
    exact fault.value.isLine_message
  · intro diagnostic hmem
    obtain ⟨fault, _, rfl⟩ := List.mem_map.mp hmem
    exact fault.value.isLine_message

theorem isLine_display_parse (h : IsLine filename) :
    ∀ diagnostic ∈ (parse filename bytes).diagnostics, IsLine diagnostic.display := by
  intro diagnostic hmem
  obtain ⟨front, -, hposition⟩ := isIn_diagnostics_parse filename bytes diagnostic hmem
  have hplace : IsLine diagnostic.position.filename := by
    rw [hposition]
    exact h
  exact ((Position.isLine_display hplace).append (by decide)).append
    (isLine_message_parse diagnostic hmem)

theorem Diagnostic.lines_report {diagnostics : List Diagnostic} (hne : diagnostics ≠ [])
    (h : ∀ diagnostic ∈ diagnostics, IsLine diagnostic.display) :
    Text.lines (report diagnostics) = "parse errors:" :: diagnostics.map display := by
  have hdisplays : diagnostics.map display ≠ [] := by simpa using hne
  have hreport : report diagnostics =
      String.intercalate "\n" ("parse errors:" :: diagnostics.map display) := by
    rw [String.intercalate_cons_of_ne_nil hdisplays]
    rfl
  rw [hreport]
  refine Text.lines_intercalate ?_ (List.cons_ne_nil _ _)
  rw [List.forall_mem_cons, List.forall_mem_map]
  exact ⟨by decide, h⟩

/-- What is told of a token: the line and the column in which it starts, and how it is shown. -/
def tokenEntry (token : Located Token) : String :=
  toString token.position.line ++ ":" ++ toString token.position.column ++ "\t" ++
    token.value.display

theorem isLine_tokenEntry (token : Located Token) : IsLine (tokenEntry token) :=
  ((((isLine_toString _).append (by decide)).append (isLine_toString _)).append (by decide)).append
    token.value.isLine_display

theorem lines_tokenLines (tokens : List (Located Token)) :
    Text.lines (String.join (tokens.map tokenLine)) = tokens.map tokenEntry ++ [""] := by
  have hentries : ∀ entry ∈ tokens.map tokenEntry, IsLine entry := by
    rw [List.forall_mem_map]
    exact fun token _ => isLine_tokenEntry token
  have htold := Text.lines_join hentries
  rw [List.map_map] at htold
  exact htold

/-- Whatever stands in a source, its diagnostics are reported in one line each under the heading,
and its tokens are listed in one line each, unless the name of the source goes over several lines
itself. -/
theorem each_is_told_in_one_line (h : IsLine filename) :
    ((parse filename bytes).diagnostics ≠ [] →
      Text.lines (Diagnostic.report (parse filename bytes).diagnostics) =
        "parse errors:" :: (parse filename bytes).diagnostics.map Diagnostic.display) ∧
    ∀ (surroundings : Surroundings) (config : Option String) (settings : Settings) (input : String),
      surroundings.settings config = .ok settings →
      surroundings.source settings input = .ok ⟨filename, bytes⟩ →
      ∀ (verbosity : Nat) (quiet : Bool),
        Text.lines (surroundings.invoke ⟨verbosity, quiet, config, .tokens input⟩).stdout =
          (tokenize filename bytes).1.map tokenEntry ++ [""] := by
  refine ⟨fun hne => Diagnostic.lines_report hne (isLine_display_parse h),
    fun surroundings config settings input hsettings hsource verbosity quiet => ?_⟩
  rw [Surroundings.stdout_invoke hsettings, Surroundings.ending_tokens hsource]
  exact lines_tokenLines _

/-- A file with a newline in a name, and with characters that belong to no token. -/
private def oddFile : Surroundings where
  stdin := .ok .empty
  entry path :=
    if path = "a.gv" then .file "graph\x7b\"a\\nb\" ! \x01".toUTF8 else .absent .notFound
  refusal _ := none
  ofToml? _ := none

theorem each_is_told_in_one_line_oddFile :
    IsLine "a.gv" ∧ oddFile.settings none = .ok {} ∧
      oddFile.source {} "a.gv" = .ok ⟨"a.gv", "graph\x7b\"a\\nb\" ! \x01".toUTF8⟩ ∧
      Text.lines
          (Diagnostic.report (parse "a.gv" "graph\x7b\"a\\nb\" ! \x01".toUTF8).diagnostics) =
        ["parse errors:", "a.gv:1:14: unexpected character: !", "a.gv:1:16: unexpected character",
          "a.gv:1:14: unexpected token ILLEGAL in statement",
          "a.gv:1:16: unexpected token ILLEGAL in statement", "a.gv:1:17: expected \x7d, got EOF"] ∧
      Text.lines (oddFile.invoke ⟨0, false, none, .tokens "a.gv"⟩).stdout =
        ["1:1\tgraph", "1:6\t\x7b", "1:7\tSTRING \"a\\nb\"", "1:14\tILLEGAL \"!\"",
          "1:16\tILLEGAL \"\\u\x7b1\x7d\"", ""] := by
  have hname : IsLine "a.gv" := by decide
  have hsource : oddFile.source {} "a.gv" =
      .ok ⟨"a.gv", "graph\x7b\"a\\nb\" ! \x01".toUTF8⟩ := by
    simp [Surroundings.source, oddFile]
  have hne : (parse "a.gv" "graph\x7b\"a\\nb\" ! \x01".toUTF8).diagnostics ≠ [] := by
    decide +kernel
  obtain ⟨hreport, htokens⟩ :=
    @each_is_told_in_one_line "a.gv" "graph\x7b\"a\\nb\" ! \x01".toUTF8 hname
  refine ⟨hname, rfl, hsource, ?_, ?_⟩
  · rw [hreport hne]
    decide +kernel
  · rw [htokens oddFile none {} "a.gv" rfl hsource 0 false]
    decide +kernel

end DotGraph
