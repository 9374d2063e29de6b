import DotGraph.Proofs.Token.Tiling
import DotGraph.Proofs.Token.Written

namespace DotGraph

/-! Tokens that are written are read again, whether they make up a graph description or not. -/

open Trivia (Gap)

/-- A token stands where its spelling does. -/
theorem Placed.exists_before {position : Position} {needsGap : Bool}
    {tokens : List (Located Token)} {text : List Char}
    (h : Placed position needsGap tokens text) :
    ∀ token ∈ tokens, ∃ before behind, text = before ++ (token.value.spelling ++ behind) ∧
      token.position = position.afterAll before := by
  induction h with
  | nil _ =>
      intro token hmem
      exact absurd hmem List.not_mem_nil
  | @cons position _ gap text first tokens hgap _ _ ih =>
      intro token hmem
      cases hmem with
      | head => exact ⟨gap, text, rfl, rfl⟩
      | tail _ hmem =>
          obtain ⟨before, behind, rfl, hposition⟩ := ih token hmem
          refine ⟨gap ++ (first.spelling ++ before), behind, ?_, ?_⟩
          · simp only [List.append_assoc]
          · rw [hposition, Position.afterAll_append, Position.afterAll_append]

/-- Reading undoes writing, with any gaps around the tokens: nothing is wrong, and the tokens are
those that were written, each at the offset at which its spelling stands. -/
theorem tokenize_placed (filename : String) {tokens : List (Located Token)} {text : List Char}
    (h : Placed (.start filename) false tokens text)
    (htokens : ∀ token ∈ tokens, token.value.isSpellable) :
    tokenize filename (String.ofList text).toUTF8 = (tokens, []) ∧
      ∀ token ∈ tokens, ∃ before behind, text = before ++ (token.value.spelling ++ behind) ∧
        token.position.offset = Text.size before := by
  constructor
  · obtain ⟨htokens, hfaults⟩ := TokenStream.ofText_placed h htokens
    have hnone : (TokenStream.ofText filename text).faults = [] :=
      List.filterMap_eq_nil_iff.mpr hfaults
    rw [tokenize, TokenStream.ofBytes_toUTF8, htokens, hnone, List.map_map]
    exact Prod.ext (List.map_id tokens) rfl
  · intro token hmem
    obtain ⟨before, behind, htext, hposition⟩ := h.exists_before token hmem
    refine ⟨before, behind, htext, ?_⟩
    rw [hposition, Position.offset_afterAll, Position.start, Nat.zero_add]

/-- A keyword, a numeral, a quoted text and an HTML text, behind a block comment that looks closed
too soon and a line comment with a letter of two bytes. -/
private def sampleText : List Char :=
  "/*/ **/GRAPH// é\n-1.#\n\"\\\"\\\\\\n\"\t<a<b>c</b>> ->".toList

private def sampleTokens : List (Located Token) :=
  [⟨⟨"g", 7, 1, 8⟩, ⟨.graph, "GRAPH"⟩⟩, ⟨⟨"g", 18, 2, 1⟩, ⟨.ident, "-1."⟩⟩,
    ⟨⟨"g", 23, 3, 1⟩, ⟨.quoted, "\"\\\n"⟩⟩, ⟨⟨"g", 32, 3, 10⟩, ⟨.html, "a<b>c</b>"⟩⟩,
    ⟨⟨"g", 44, 3, 22⟩, .punctuation .arrow⟩]

private theorem placed_sample : Placed (.start "g") false sampleTokens sampleText :=
  .cons (.block (show ¬ ['*', '/'] <:+: ['/', ' ', '*'] by decide) .nil) (by decide) <|
  .cons (.line (show '\n' ∉ [' ', 'é'] by decide) .nil) (by decide) <|
  .cons (.hash (show '\n' ∉ [] by decide) .nil) (by decide) <|
  .cons (.blank (c := '\t') (by decide) .nil) (by decide) <|
  .cons (.blank (c := ' ') (by decide) .nil) (by decide) <| .nil .nil

theorem tokenize_placed_sample :
    Placed (.start "g") false sampleTokens sampleText ∧
      (∀ token ∈ sampleTokens, token.value.isSpellable) ∧
      tokenize "g" (String.ofList sampleText).toUTF8 = (sampleTokens, []) :=
  have hspellable : ∀ token ∈ sampleTokens, token.value.isSpellable := by decide +kernel
  ⟨placed_sample, hspellable, (tokenize_placed "g" placed_sample hspellable).1⟩

end DotGraph
