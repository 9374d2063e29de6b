import DotGraph.Proofs.Command.Agreement
import DotGraph.Proofs.Graph.Marks

namespace DotGraph

/-! A conversion has a whole result or none at all: whatever is wrong with its inputs is found before
anything is delivered, and a path that leaves the graph is told by the exit code alone. -/

open Json

/-- The text is one document and the end of its line: what stands in front of that is read as the
document, with nothing behind it. -/
def Json.IsLineOf (document : Json) (text : String) : Prop :=
  ∃ line, text = line ++ "\n" ∧ Reading.ofText line = (document.reading, none)

theorem Json.isLineOf_render (document : Json) (isPretty : Bool) :
    document.IsLineOf (document.render isPretty ++ "\n") :=
  ⟨_, rfl, ofText_render isPretty document⟩

namespace Outcome

/-- A run that failed, and has left nothing anywhere. -/
structure IsNothing (outcome : Outcome) : Prop where
  code : outcome.code = 1
  stdout : outcome.stdout = ""
  written : outcome.written = none

/-- A run that has brought the text to the file, or to standard output if there is none. -/
structure Brings (outcome : Outcome) (output : Option String) (text : String) : Prop where
  stdout : outcome.stdout = output.elim text fun _ => ""
  written : outcome.written = output.map fun path => ⟨path, text⟩

end Outcome

namespace Surroundings

/-- Why there is nothing to convert. -/
inductive Refuses (surroundings : Surroundings) (config : Option String) (input : String)
    (path : Option String) : Prop
  | settings {failure : Failure} (hsettings : surroundings.settings config = .error failure)
  | stdinTwice (hinput : input = "-") (hpath : path = some "-")
  | unreadable {settings : Settings} {text : String} {failure : Failure}
      (hsettings : surroundings.settings config = .ok settings)
      (hmem : text ∈ input :: path.toList)
      (hsource : surroundings.source settings text = .error failure)
  | faulty {settings : Settings} {text : String} {source : Source}
      (hsettings : surroundings.settings config = .ok settings)
      (hmem : text ∈ input :: path.toList)
      (hsource : surroundings.source settings text = .ok source)
      (hfaulty : (parse source.name source.bytes).diagnostics ≠ [])

/-- An input that is read as the tree, without a diagnostic. -/
def HasTree (surroundings : Surroundings) (settings : Settings) (input : String)
    (tree : Tree.Document) : Prop :=
  ∃ source, surroundings.source settings input = .ok source ∧
    parse source.name source.bytes = ⟨tree, []⟩

/-- All that a conversion needs is there: the settings, the tree of the graph, and that of the path if
there is one. -/
structure Finds (surroundings : Surroundings) (config : Option String) (input : String)
    (path : Option String) (settings : Settings) (tree : Tree.Document)
    (trail : Option Tree.Document) : Prop where
  settings_eq : surroundings.settings config = .ok settings
  apart : ¬ (input = "-" ∧ path = some "-")
  hasTree : surroundings.HasTree settings input tree
  hasTrail : Option.Rel (surroundings.HasTree settings) path trail

end Surroundings

namespace Graph

/-- The graph with the path marked in it, and how the path ends, if there is one. -/
def walked (graph : Graph) : Option Tree.Document → Graph × Option PathCheck
  | none => (graph, none)
  | some trail => ((graph.walk trail).graph, some (graph.walk trail).check)

/-- Whether there is a path that leaves the graph. -/
def isLeftBy (graph : Graph) (trail : Option Tree.Document) : Bool :=
  trail.any fun trail => !(graph.walk trail).check.valid

/-- What a conversion shows. -/
def shownAlong (graph : Graph) (trail : Option Tree.Document) (summary : Bool) : Json :=
  (graph.walked trail).1.conversion (graph.walked trail).2 summary

theorem all_valid_walked (graph : Graph) (trail : Option Tree.Document) :
    (graph.walked trail).2.all PathCheck.valid = !graph.isLeftBy trail := by
  cases trail with
  | none => rfl
  | some trail => exact (Bool.not_not _).symm

end Graph

namespace Surroundings

variable {surroundings : Surroundings} {config : Option String} {input : String}
  {path : Option String} {settings : Settings} {tree : Tree.Document}
  {trail : Option Tree.Document}

/-- An input has a tree unless it is a reason to refuse. -/
theorem exists_hasTree (hsettings : surroundings.settings config = .ok settings)
    (h : ¬ surroundings.Refuses config input path) {text : String}
    (hmem : text ∈ input :: path.toList) : ∃ tree, surroundings.HasTree settings text tree := by
  cases hsource : surroundings.source settings text with
  | error failure => exact absurd (.unreadable hsettings hmem hsource) h
  | ok source =>
      by_cases hclean : (parse source.name source.bytes).diagnostics = []
      · exact ⟨(parse source.name source.bytes).document, source, hsource, by rw [← hclean]⟩
      · exact absurd (.faulty hsettings hmem hsource hclean) h

theorem exists_finds (h : ¬ surroundings.Refuses config input path) :
    ∃ settings tree trail, surroundings.Finds config input path settings tree trail := by
  cases hsettings : surroundings.settings config with
  | error failure => exact absurd (.settings hsettings) h
  | ok settings =>
      have hapart : ¬ (input = "-" ∧ path = some "-") := fun hboth =>
        h (.stdinTwice hboth.1 hboth.2)
      obtain ⟨tree, htree⟩ := exists_hasTree hsettings h List.mem_cons_self
      cases path with
      | none => exact ⟨settings, tree, none, hsettings, hapart, htree, .none⟩
      | some path =>
          have hpath : path ∈ input :: (some path).toList :=
            List.mem_cons_of_mem _ List.mem_cons_self
          obtain ⟨trail, htrail⟩ := exists_hasTree hsettings h hpath
          exact ⟨settings, tree, some trail, hsettings, hapart, htree, .some htrail⟩

theorem HasTree.document (h : surroundings.HasTree settings input tree) :
    surroundings.document settings input = .ok tree := by
  obtain ⟨source, hsource, hparse⟩ := h
  rw [document_eq hsource, hparse]
  rfl

theorem HasTree.walk (h : surroundings.HasTree settings input tree) (graph : Graph) :
    surroundings.walk settings graph input = .ok (graph.walk tree) := by
  obtain ⟨source, hsource, hparse⟩ := h
  have hwalk := graph.highlight_of_checked_ok (congrArg Parsed.checked hparse)
  rw [Surroundings.walk, hsource]
  simp only [bind, Except.bind, Graph.walkSource, hwalk]
  rfl

section Convert

variable (output : Option String) (pretty summary : Bool)

/-- What cannot be read without a diagnostic is no graph, and no path. -/
theorem failures_of_source {text : String}
    (h : (∃ failure, surroundings.source settings text = .error failure) ∨
      ∃ source, surroundings.source settings text = .ok source ∧
        (parse source.name source.bytes).diagnostics ≠ []) :
    (∃ failure, surroundings.document settings text = .error failure) ∧
      ∀ graph, ∃ failure, surroundings.walk settings graph text = .error failure := by
  rcases h with ⟨failure, hsource⟩ | ⟨source, hsource, hfaulty⟩
  · refine ⟨⟨failure, ?_⟩, fun graph => ⟨failure, ?_⟩⟩
    · rw [document, hsource]
      rfl
    · rw [walk, hsource]
      rfl
  · let diagnostics := (parse source.name source.bytes).diagnostics
    refine ⟨⟨.faultyGraph source.name diagnostics, ?_⟩,
      fun graph => ⟨.faultyPath source.name diagnostics, ?_⟩⟩
    · rw [document_eq hsource, Parsed.checked_eq_error hfaulty]
      rfl
    · rw [walk, hsource]
      simp only [bind, Except.bind, Graph.walkSource,
        graph.highlight_of_checked_error (Parsed.checked_eq_error hfaulty)]
      rfl

/-- One input that has no tree is enough: the graph is looked at first, and the path before anything
is delivered. -/
theorem ending_convert_of_error {text : String} (hmem : text ∈ input :: path.toList)
    (h : (∃ failure, surroundings.document settings text = .error failure) ∧
      ∀ graph, ∃ failure, surroundings.walk settings graph text = .error failure) :
    ∃ failure, (surroundings.convert settings input path output pretty summary).ending =
      .failed failure := by
  unfold convert
  split
  · exact ⟨_, rfl⟩
  cases hdocument : surroundings.document settings input with
  | error failure => exact ⟨failure, rfl⟩
  | ok document =>
      rcases List.mem_cons.mp hmem with rfl | hpath
      · obtain ⟨failure, herror⟩ := h.1
        exact nomatch hdocument.symm.trans herror
      · obtain rfl := Option.mem_toList.mp hpath
        obtain ⟨failure, herror⟩ := h.2 document.toGraph
        refine ⟨failure, ?_⟩
        have hwalk : surroundings.walk settings (Assembly.ofDocument document).graph text =
            .error failure := herror
        simp only [hwalk]
        rfl

theorem Refuses.ending_perform (h : surroundings.Refuses config input path)
    (hsettings : surroundings.settings config = .ok settings) :
    ∃ failure, (surroundings.perform settings
      (.convert input path output pretty summary)).ending = .failed failure := by
  cases h with
  | settings hnone => exact nomatch hsettings.symm.trans hnone
  | stdinTwice hinput hpath =>
      refine ⟨.stdinTwice, ?_⟩
      rw [perform, convert, if_pos ⟨hinput, hpath⟩]
      rfl
  | unreadable hsame hmem hsource =>
      obtain rfl := Except.ok.inj (hsettings.symm.trans hsame)
      exact ending_convert_of_error _ _ _ hmem (failures_of_source (.inl ⟨_, hsource⟩))
  | faulty hsame hmem hsource hfaulty =>
      obtain rfl := Except.ok.inj (hsettings.symm.trans hsame)
      exact ending_convert_of_error _ _ _ hmem (failures_of_source (.inr ⟨_, hsource, hfaulty⟩))

theorem Finds.ending_perform (h : surroundings.Finds config input path settings tree trail) :
    (surroundings.perform settings (.convert input path output pretty summary)).ending =
      (surroundings.deliver output
        ((tree.toGraph.shownAlong trail summary).render (pretty || settings.pretty) ++ "\n")
        (!tree.toGraph.isLeftBy trail || !settings.failOnInvalidPath)).ending := by
  rw [← Graph.all_valid_walked, perform, convert, if_neg h.apart, h.hasTree.document]
  cases h.hasTrail with
  | none => rfl
  | some htrail =>
      have hwalk := htrail.walk (Assembly.ofDocument tree).graph
      simp only [hwalk]
      rfl

end Convert

section Delivery

variable {text : String} {isGood : Bool} {output : Option String}

theorem ending_deliver (h : ∀ file ∈ output, surroundings.refusal file = none) :
    (surroundings.deliver output text isGood).ending =
      .delivered (output.elim (.shown text) fun file => .written ⟨file, text⟩) isGood := by
  cases output with
  | none => rfl
  | some file =>
      rw [deliver, h file rfl]
      rfl

theorem ending_deliver_of_refusal (h : ∃ file ∈ output, surroundings.refusal file ≠ none) :
    ∃ failure, (surroundings.deliver output text isGood).ending = .failed failure := by
  obtain ⟨file, hfile, hrefusal⟩ := h
  obtain rfl := Option.mem_def.mp hfile
  obtain ⟨error, herror⟩ := Option.ne_none_iff_exists'.mp hrefusal
  refine ⟨.unwritable file error, ?_⟩
  rw [deliver, herror]
  rfl

end Delivery

theorem isNothing_invoke_of_settings {failure : Failure}
    (h : surroundings.settings config = .error failure) (verbosity : Nat) (quiet : Bool)
    (command : Command) :
    (surroundings.invoke ⟨verbosity, quiet, config, command⟩).IsNothing := by
  rw [invoke, h]
  exact ⟨rfl, rfl, rfl⟩

section Invocation

variable (h : surroundings.settings config = .ok settings) (verbosity : Nat) (quiet : Bool)
  {command : Command}
include h

theorem written_invoke :
    (surroundings.invoke ⟨verbosity, quiet, config, command⟩).written =
      (surroundings.perform settings command).ending.written := by
  rw [invoke, h]
  rfl

theorem isNothing_invoke {failure : Failure}
    (hfailed : (surroundings.perform settings command).ending = .failed failure) :
    (surroundings.invoke ⟨verbosity, quiet, config, command⟩).IsNothing where
  code := by rw [code_invoke h, hfailed]; rfl
  stdout := by rw [stdout_invoke h, hfailed]; rfl
  written := by rw [written_invoke h, hfailed]; rfl

theorem brings_invoke {output : Option String} {text : String} {isGood : Bool}
    (hdelivered : (surroundings.perform settings command).ending =
      .delivered (output.elim (.shown text) fun file => .written ⟨file, text⟩) isGood) :
    (surroundings.invoke ⟨verbosity, quiet, config, command⟩).Brings output text ∧
      (surroundings.invoke ⟨verbosity, quiet, config, command⟩).code = if isGood then 0 else 1 := by
  refine ⟨⟨?_, ?_⟩, ?_⟩
  · rw [stdout_invoke h, hdelivered]
    cases output <;> rfl
  · rw [written_invoke h, hdelivered]
    cases output <;> rfl
  · rw [code_invoke h, hdelivered]
    rfl

end Invocation

/-- A conversion that is refused leaves nothing, whatever it was asked for.  Any other brings one
document, the same to a file as to standard output, and its exit code tells of the path and of
nothing else. -/
theorem convert_all_or_nothing (surroundings : Surroundings) (verbosity : Nat) (quiet : Bool)
    (config : Option String) (input : String) (path : Option String) :
    let outcome := fun output pretty summary =>
      surroundings.invoke ⟨verbosity, quiet, config, .convert input path output pretty summary⟩
    (surroundings.Refuses config input path →
      ∀ output pretty summary, (outcome output pretty summary).IsNothing) ∧
    (¬ surroundings.Refuses config input path → ∃ settings tree trail,
      surroundings.Finds config input path settings tree trail ∧
      ∀ pretty summary, ∃ text,
        (tree.toGraph.shownAlong trail summary).IsLineOf text ∧
        ∀ output,
          ((∀ file ∈ output, surroundings.refusal file = none) →
            (outcome output pretty summary).Brings output text ∧
            (outcome output pretty summary).code =
              if tree.toGraph.isLeftBy trail && settings.failOnInvalidPath then 1 else 0) ∧
          ((∃ file ∈ output, surroundings.refusal file ≠ none) →
            (outcome output pretty summary).IsNothing)) := by
  refine ⟨fun hrefuses output pretty summary => ?_, fun hrefuses => ?_⟩
  · cases hsettings : surroundings.settings config with
    | error failure => exact isNothing_invoke_of_settings hsettings verbosity quiet _
    | ok settings =>
        obtain ⟨failure, hfailed⟩ := hrefuses.ending_perform output pretty summary hsettings
        exact isNothing_invoke hsettings verbosity quiet hfailed
  · obtain ⟨settings, tree, trail, hfinds⟩ := exists_finds hrefuses
    refine ⟨settings, tree, trail, hfinds, fun pretty summary =>
      ⟨_, isLineOf_render _ (pretty || settings.pretty), fun output => ⟨fun hwritable => ?_,
        fun hrefusal => ?_⟩⟩⟩
    · have hending := hfinds.ending_perform output pretty summary
      rw [ending_deliver hwritable] at hending
      obtain ⟨hbrings, hcode⟩ := brings_invoke hfinds.settings_eq verbosity quiet hending
      refine ⟨hbrings, hcode.trans ?_⟩
      cases tree.toGraph.isLeftBy trail <;> cases settings.failOnInvalidPath <;> rfl
    · obtain ⟨failure, hfailed⟩ := ending_deliver_of_refusal hrefusal
      exact isNothing_invoke hfinds.settings_eq verbosity quiet
        ((hfinds.ending_perform output pretty summary).trans hfailed)

/-- A graph without nodes on standard input, a file with a path that leaves it, and a file with
settings. -/
private def leftAtOnce : Surroundings where
  stdin := .ok "digraph\x7b\x7d".toUTF8
  entry path :=
    if path = "p.gv" then .file "digraph\x7ba->b\x7d".toUTF8
    else if path = "c.toml" then .file "filename = \"g\"".toUTF8
    else .absent .notFound
  refusal _ := none
  ofToml? text := if text = "filename = \"g\"" then some { filename := "g" } else none

private theorem leftAtOnce_settings :
    leftAtOnce.settings (some "c.toml") = .ok { filename := "g" } := rfl

private theorem leftAtOnce_source {text : String} (h : text ∈ "-" :: (some "p.gv").toList) :
    ∃ source, leftAtOnce.source { filename := "g" } text = .ok source ∧
      (parse source.name source.bytes).diagnostics = [] := by
  have htext : text = "-" ∨ text = "p.gv" := by simpa using h
  rcases htext with rfl | rfl
  · exact ⟨⟨"g", "digraph\x7b\x7d".toUTF8⟩, rfl, by decide +kernel⟩
  · exact ⟨⟨"p.gv", "digraph\x7ba->b\x7d".toUTF8⟩, by simp [source, leftAtOnce],
      by decide +kernel⟩

private theorem not_refuses_leftAtOnce :
    ¬ leftAtOnce.Refuses (some "c.toml") "-" (some "p.gv") := by
  intro hrefuses
  cases hrefuses with
  | settings hsettings => nomatch leftAtOnce_settings.symm.trans hsettings
  | stdinTwice _ hpath => exact absurd hpath (by decide)
  | unreadable hsettings hmem hsource =>
      obtain rfl := Except.ok.inj (leftAtOnce_settings.symm.trans hsettings)
      obtain ⟨source, hfound, -⟩ := leftAtOnce_source hmem
      exact nomatch hfound.symm.trans hsource
  | faulty hsettings hmem hsource hfaulty =>
      obtain rfl := Except.ok.inj (leftAtOnce_settings.symm.trans hsettings)
      obtain ⟨source, hfound, hclean⟩ := leftAtOnce_source hmem
      obtain rfl := Except.ok.inj (hfound.symm.trans hsource)
      exact hfaulty hclean

theorem convert_all_or_nothing_leftAtOnce :
    ¬ leftAtOnce.Refuses (some "c.toml") "-" (some "p.gv") ∧
      (∃ text, (leftAtOnce.invoke ⟨0, false, some "c.toml",
        .convert "-" (some "p.gv") (some "g.json") true false⟩).Brings (some "g.json") text) ∧
      (leftAtOnce.invoke ⟨0, false, some "c.toml",
        .convert "-" (some "p.gv") (some "g.json") true false⟩).code = 1 ∧
      (leftAtOnce.invoke ⟨0, false, some "c.toml",
        .convert "-" (some "-") (some "g.json") true false⟩).IsNothing ∧
      (Surroundings.invoke { leftAtOnce with stdin := .error .isDirectory }
        ⟨0, false, some "c.toml", .convert "-" none none true false⟩).IsNothing := by
  obtain ⟨-, hbrings⟩ := convert_all_or_nothing leftAtOnce 0 false (some "c.toml") "-" (some "p.gv")
  obtain ⟨hnothing, -⟩ := convert_all_or_nothing leftAtOnce 0 false (some "c.toml") "-" (some "-")
  obtain ⟨hunread, -⟩ := convert_all_or_nothing
    { leftAtOnce with stdin := .error .isDirectory } 0 false (some "c.toml") "-" none
  obtain ⟨settings, tree, trail, hfinds, htold⟩ := hbrings not_refuses_leftAtOnce
  obtain ⟨text, -, houtput⟩ := htold true false
  obtain ⟨hdelivered, hcode⟩ := (houtput (some "g.json")).1 fun _ _ => rfl
  refine ⟨not_refuses_leftAtOnce, ⟨text, hdelivered⟩, hcode.trans ?_,
    hnothing (.stdinTwice rfl rfl) _ _ _,
    hunread (.unreadable leftAtOnce_settings List.mem_cons_self rfl) _ _ _⟩
  obtain rfl := Except.ok.inj (leftAtOnce_settings.symm.trans hfinds.settings_eq)
  obtain ⟨source, hsource, htree⟩ := hfinds.hasTree
  obtain rfl := Except.ok.inj hsource
  cases hfinds.hasTrail with
  | some hasTrail =>
      obtain ⟨path, hpath, htrail⟩ := hasTrail
      have hsame : path = ⟨"p.gv", "digraph\x7ba->b\x7d".toUTF8⟩ := by
        simpa [source, leftAtOnce, eq_comm] using hpath
      subst hsame
      rename_i trail
      have hvalid : ((tree.toGraph.walk trail).check).valid = false := by
        have hgraph : tree = (parse "g" "digraph\x7b\x7d".toUTF8).document :=
          (congrArg Parsed.document htree).symm
        have hsteps : trail = (parse "p.gv" "digraph\x7ba->b\x7d".toUTF8).document :=
          (congrArg Parsed.document htrail).symm
        rw [Graph.check_walk, Tree.Document.steps_eq, hgraph, hsteps]
        decide +kernel
      simp [Graph.isLeftBy, hvalid]

end Surroundings

end DotGraph
