import DotGraph.Command.Run
import DotGraph.Proofs.Json.RoundTrip
import DotGraph.Proofs.Reader.LexicalPart

namespace DotGraph

/-! The commands agree on one input: each finds it good or bad as the others do, and what they tell
about its graph is told of the same one. -/

open Json

/-- A text without lexical faults has none that a parse could meet. -/
theorem kind_of_mem_diagnostics_parse {filename : String} {bytes : ByteArray}
    (h : (tokenize filename bytes).2 = []) :
    ∀ diagnostic ∈ (parse filename bytes).diagnostics, diagnostic.kind = .parse := by
  have hprefix := Scanner.diagnostics_afterTokens_isPrefix filename (Text.decodeLossy bytes)
    (lastReader filename bytes).pulled
  have hall : (TokenStream.ofBytes filename bytes).faults.map LexFault.diagnostic = [] := h
  rw [← TokenStream.ofBytes, hall, List.prefix_nil] at hprefix
  rw [diagnostics_parse, Scanner.ofBytes, hprefix, List.nil_append]
  intro diagnostic hmem
  obtain ⟨_, _, rfl⟩ := List.mem_map.mp hmem
  rfl

/-- The text is a line of JSON, an object of a syntax tree and these diagnostics. -/
def Diagnostic.AreToldIn (diagnostics : List Diagnostic) (text : String) : Prop :=
  ∃ tree isPretty, text = (Json.object [("ast", tree),
    ("errors", .array (diagnostics.map Diagnostic.toJson))]).render isPretty ++ "\n"

theorem Parsed.areToldIn_toJson (parsed : Parsed) (isPretty : Bool) :
    Diagnostic.AreToldIn parsed.diagnostics (parsed.toJson.render isPretty ++ "\n") :=
  ⟨_, isPretty, rfl⟩

/-- A result is good if nothing was found. -/
theorem Ending.code_delivered (delivery : Delivery) (diagnostics : List Diagnostic) :
    (delivered delivery diagnostics.isEmpty).code = if diagnostics = [] then 0 else 1 := by
  cases diagnostics <;> rfl

namespace Graph

/-- The text is a line of JSON, an object that says of which kind the graph is and how large. -/
def IsSummedUpIn (graph : Graph) (text : String) : Prop :=
  ∃ members isPretty, text = (Json.object members).render isPretty ++ "\n" ∧
    members.lookup "directed" = some (.bool graph.directed) ∧
    members.lookup "strict" = some (.bool graph.strict) ∧
    members.lookup "node_count" = some (.number graph.nodes.size) ∧
    members.lookup "link_count" = some (.number graph.links.size) ∧
    members.lookup "subgraph_count" = some (.number graph.subgraphs.size)

/-- The text is a line of JSON that is read back as the graph. -/
def IsPrintedIn (graph : Graph) (text : String) : Prop :=
  ∃ json, text = json ++ "\n" ∧ decodeText Graph.ofJson json = .ok graph

theorem isSummedUpIn_summary (graph : Graph) (isPretty : Bool) :
    graph.IsSummedUpIn (graph.summary.render isPretty ++ "\n") :=
  ⟨_, isPretty, rfl, rfl, rfl, rfl, rfl, rfl⟩

theorem isSummedUpIn_validation (graph : Graph) (diagnostics : List Diagnostic) :
    graph.IsSummedUpIn ((Validation.ofGraph graph diagnostics).render true) :=
  ⟨_, true, rfl, rfl, rfl, rfl, rfl, rfl⟩

theorem isPrintedIn_toJson (graph : Graph) (isPretty : Bool) :
    graph.IsPrintedIn (graph.toJson.render isPretty ++ "\n") :=
  ⟨_, rfl, decodeText_render graph.roundTrips isPretty⟩

end Graph

namespace Surroundings

variable {surroundings : Surroundings} {config : Option String} {settings : Settings}

section Invocation

variable (h : surroundings.settings config = .ok settings) (verbosity : Nat) (quiet : Bool)
  (command : Command)
include h

theorem code_invoke :
    (surroundings.invoke ⟨verbosity, quiet, config, command⟩).code =
      (surroundings.perform settings command).ending.code := by
  rw [invoke, h]
  rfl

theorem stdout_invoke :
    (surroundings.invoke ⟨verbosity, quiet, config, command⟩).stdout =
      (surroundings.perform settings command).ending.stdout := by
  rw [invoke, h]
  rfl

end Invocation

section Commands

variable {input : String} {source : Source} (h : surroundings.source settings input = .ok source)
include h

theorem ending_parse (pretty : Bool) :
    (surroundings.perform settings (.parse input pretty)).ending =
      .delivered (.shown ((parse source.name source.bytes).toJson.render
        (pretty || settings.pretty) ++ "\n")) (parse source.name source.bytes).isClean := by
  rw [perform, withSource, h]
  rfl

theorem ending_tokens :
    (surroundings.perform settings (.tokens input)).ending =
      .delivered (.shown (String.join ((tokenize source.name source.bytes).1.map tokenLine)))
        (tokenize source.name source.bytes).2.isEmpty := by
  rw [perform, withSource, h]
  rfl

theorem ending_validate (json : Bool) :
    (surroundings.perform settings (.validate input json)).ending =
      .delivered (.shown ((Validation.ofGraph (parse source.name source.bytes).document.toGraph
        (parse source.name source.bytes).diagnostics).render json))
        (parse source.name source.bytes).isClean := by
  rw [perform, withSource, h]
  rfl

theorem document_eq :
    surroundings.document settings input =
      (parse source.name source.bytes).checked.mapError (.faultyGraph source.name) := by
  rw [document, h]
  rfl

theorem ending_convert_of_clean (hclean : (parse source.name source.bytes).isClean)
    (pretty summary : Bool) :
    (surroundings.perform settings (.convert input none none pretty summary)).ending =
      .delivered (.shown (((parse source.name source.bytes).document.toGraph.conversion none
        summary).render (pretty || settings.pretty) ++ "\n")) true := by
  rw [perform, convert, if_neg (by simp), document_eq h, Parsed.checked, if_pos hclean]
  rfl

theorem ending_convert_of_not_clean (hclean : (parse source.name source.bytes).isClean = false)
    (pretty summary : Bool) :
    (surroundings.perform settings (.convert input none none pretty summary)).ending =
      .failed (.faultyGraph source.name (parse source.name source.bytes).diagnostics) := by
  rw [perform, convert, if_neg (by simp), document_eq h, Parsed.checked, hclean]
  rfl

/-- No result of a conversion is bad: it is refused instead, and that is told by the same code. -/
theorem code_convert (pretty summary : Bool) :
    (surroundings.perform settings (.convert input none none pretty summary)).ending.code =
      if (parse source.name source.bytes).diagnostics = [] then 0 else 1 := by
  cases hclean : (parse source.name source.bytes).isClean with
  | true =>
      rw [ending_convert_of_clean h hclean, if_pos (List.isEmpty_iff.mp hclean)]
      rfl
  | false =>
      have hsome : (parse source.name source.bytes).diagnostics ≠ [] := by
        simpa [Parsed.isClean] using hclean
      rw [ending_convert_of_not_clean h hclean, if_neg hsome]
      rfl

end Commands

/-- A source is found good or bad by all commands alike, and if it is good, what they tell about its
graph is told of one graph.  A source that the scanner finds nothing wrong with has only faults of
its order. -/
theorem commands_agree {input : String} {source : Source}
    (hsettings : surroundings.settings config = .ok settings)
    (hsource : surroundings.source settings input = .ok source) (verbosity : Nat) (quiet : Bool) :
    let outcome := fun command => surroundings.invoke ⟨verbosity, quiet, config, command⟩
    let diagnostics := (parse source.name source.bytes).diagnostics
    let code := if diagnostics = [] then 0 else 1
    ((∀ pretty, (outcome (.parse input pretty)).code = code) ∧
      (∀ json, (outcome (.validate input json)).code = code) ∧
      ∀ pretty summary, (outcome (.convert input none none pretty summary)).code = code) ∧
    (diagnostics = [] → ∃ graph : Graph,
      graph.IsSummedUpIn (outcome (.validate input true)).stdout ∧
      (∀ pretty, graph.IsSummedUpIn (outcome (.convert input none none pretty true)).stdout) ∧
      ∀ pretty, graph.IsPrintedIn (outcome (.convert input none none pretty false)).stdout) ∧
    ((outcome (.tokens input)).code = 0 → ∀ pretty, ∃ told,
      Diagnostic.AreToldIn told (outcome (.parse input pretty)).stdout ∧
      ∀ diagnostic ∈ told, diagnostic.kind = .parse) := by
  have hcode := code_invoke hsettings verbosity quiet
  have hstdout := stdout_invoke hsettings verbosity quiet
  simp only [hcode, hstdout]
  refine ⟨⟨fun pretty => ?_, fun json => ?_, fun pretty summary => ?_⟩, fun hnil => ?_,
    fun htokens pretty => ?_⟩
  · rw [ending_parse hsource]
    exact Ending.code_delivered _ _
  · rw [ending_validate hsource]
    exact Ending.code_delivered _ _
  · exact code_convert hsource pretty summary
  · have hclean : (parse source.name source.bytes).isClean := List.isEmpty_iff.mpr hnil
    refine ⟨(parse source.name source.bytes).document.toGraph, ?_, fun pretty => ?_,
      fun pretty => ?_⟩
    · rw [ending_validate hsource]
      exact Graph.isSummedUpIn_validation _ _
    · rw [ending_convert_of_clean hsource hclean]
      exact Graph.isSummedUpIn_summary _ _
    · rw [ending_convert_of_clean hsource hclean]
      exact Graph.isPrintedIn_toJson _ _
  · have hnone : (tokenize source.name source.bytes).2 = [] := by
      rw [ending_tokens hsource, Ending.code_delivered] at htokens
      simpa using htokens
    rw [ending_parse hsource]
    exact ⟨_, Parsed.areToldIn_toJson _ _, kind_of_mem_diagnostics_parse hnone⟩

/-- A file with a graph that refuses a link, and a file with settings. -/
private def twoFiles : Surroundings where
  stdin := .ok .empty
  entry path :=
    if path = "a.gv" then .file "strict graph\x7ba--b--a; subgraph s\x7bc\x7d\x7d".toUTF8
    else if path = "c.toml" then .file "pretty = true".toUTF8
    else .absent .notFound
  refusal _ := none
  ofToml? text := if text = "pretty = true" then some { pretty := true } else none

theorem commands_agree_twoFiles :
    twoFiles.settings (some "c.toml") = .ok { pretty := true } ∧
      twoFiles.source { pretty := true } "a.gv" =
        .ok ⟨"a.gv", "strict graph\x7ba--b--a; subgraph s\x7bc\x7d\x7d".toUTF8⟩ ∧
      (twoFiles.invoke ⟨0, false, some "c.toml", .validate "a.gv" true⟩).code = 0 ∧
      ∃ graph : Graph,
        graph.IsSummedUpIn
          (twoFiles.invoke ⟨0, false, some "c.toml", .validate "a.gv" true⟩).stdout ∧
        graph.IsPrintedIn (twoFiles.invoke ⟨0, false, some "c.toml",
          .convert "a.gv" none none true false⟩).stdout := by
  have hsource : twoFiles.source { pretty := true } "a.gv" =
      .ok ⟨"a.gv", "strict graph\x7ba--b--a; subgraph s\x7bc\x7d\x7d".toUTF8⟩ := by
    simp [source, twoFiles]
  have hsettings : twoFiles.settings (some "c.toml") = .ok { pretty := true } := rfl
  have hclean : (parse "a.gv"
      "strict graph\x7ba--b--a; subgraph s\x7bc\x7d\x7d".toUTF8).diagnostics = [] := by
    decide +kernel
  obtain ⟨⟨-, hvalidate, -⟩, hgraph, -⟩ := commands_agree hsettings hsource 0 false
  obtain ⟨graph, hsummed, -, hprinted⟩ := hgraph hclean
  refine ⟨hsettings, hsource, ?_, graph, hsummed, hprinted true⟩
  rw [hvalidate, if_pos hclean]

end Surroundings

end DotGraph
