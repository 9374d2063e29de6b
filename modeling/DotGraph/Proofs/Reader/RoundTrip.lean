import DotGraph.Proofs.Reader.Language
import DotGraph.Proofs.Token.Written
import DotGraph.Proofs.Tree.Derivation
import DotGraph.Proofs.Tree.Spellable

namespace DotGraph

/-! A tree that is written is read again. -/

theorem TokenStream.diagnostics_eq_nil {stream : TokenStream}
    (hlex : ∀ lexeme ∈ stream.lexemes, lexeme.fault = none)
    (hparse : (TokenReader.start stream).document.2.faults = #[]) :
    stream.parse.diagnostics = [] := by
  have hnone : ∀ count, (stream.lexemes.take count).filterMap Lexeme.fault = [] := by
    intro count
    apply List.filterMap_eq_nil_iff.mpr
    intro lexeme hmem
    exact hlex lexeme (List.mem_of_mem_take hmem)
  rw [diagnostics_parse, hnone, hparse]
  rfl

/-- Reading undoes writing, with any gaps between the tokens. -/
theorem parse_written (filename : String) {document : Tree.Document} {text : List Char}
    (hdocument : document.isWritable) (htext : Written false document.tokens text) :
    (parse filename (String.ofList text).toUTF8).diagnostics = [] ∧
      (parse filename (String.ofList text).toUTF8).document.unplaced = document.unplaced := by
  have hspellable := List.all_eq_true.mp (document.areSpellable_tokens hdocument)
  obtain ⟨htokens, hfaults⟩ := TokenStream.ofText_written htext hspellable filename
  obtain ⟨derived, hyield, htree, heager, hnesting⟩ := Grammar.exists_document hdocument htokens
  have hyields : derived.yield <+: (TokenStream.ofText filename text).tokens :=
    hyield ▸ List.prefix_rfl
  obtain ⟨hdocument, _, hsilent⟩ := TokenStream.parse_of_eager hyields heager hnesting
  have hparse : parse filename (String.ofList text).toUTF8 =
      (TokenStream.ofText filename text).parse := by
    rw [parse, TokenStream.ofBytes_toUTF8]
  rw [hparse]
  refine ⟨TokenStream.diagnostics_eq_nil hfaults hsilent, ?_⟩
  rw [hdocument, htree]

private def bareIdent (name : String) : Tree.Ident :=
  ⟨.nowhere, name, .bare⟩

private def plainNode (name : String) : Tree.NodeId :=
  ⟨.nowhere, bareIdent name, none⟩

/-- A group, a port and attributes inside a subgraph, with names of every flavour. -/
private def sample : Tree.Document :=
  ⟨.nowhere, true, true, some ⟨.nowhere, "say \"hi\"\n", .quoted⟩,
    [.subgraph ⟨.nowhere, some (bareIdent "s"),
      [.edge .nowhere
        (.node ⟨.nowhere, bareIdent "-1.5", some ⟨.nowhere, none, some (bareIdent "ne")⟩⟩)
        [⟨.nowhere, true, .group .nowhere [plainNode "b", plainNode "c"]⟩,
          ⟨.nowhere, false, .subgraph ⟨.nowhere, none, [.node .nowhere (plainNode "d") none]⟩⟩]
        (some ⟨.nowhere, [⟨.nowhere, bareIdent "k", ⟨.nowhere, "<b>x</b>", .html⟩⟩,
          ⟨.nowhere, bareIdent "l", ⟨.nowhere, "\\", .quoted⟩⟩]⟩)]⟩,
      .assign .nowhere (bareIdent "rank") (bareIdent "same"),
      .defaults .nowhere .node none]⟩

theorem parse_written_sample :
    sample.isWritable ∧ Written false sample.tokens (spaced sample.tokens) ∧
      (parse "" (String.ofList (spaced sample.tokens)).toUTF8).diagnostics = [] ∧
      (parse "" (String.ofList (spaced sample.tokens)).toUTF8).document.unplaced =
        sample.unplaced :=
  have hwritable : sample.isWritable := by decide +kernel
  ⟨hwritable, written_spaced false _, parse_written "" hwritable (written_spaced false _)⟩

end DotGraph
