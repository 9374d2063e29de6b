import DotGraph.Proofs.Reader.Moves

namespace DotGraph

/-! Notes that a block is too deep.  No other fault is worded like them, so that they can be told by
their message. -/

theorem ne_of_head? {text other : String} (h : text.toList.head? ≠ other.toList.head?) :
    text ≠ other :=
  mt (congrArg fun text => text.toList.head?) h

theorem head?_append {front : String} (h : front.toList.head? ≠ none) (back : String) :
    (front ++ back).toList.head? = front.toList.head? := by
  rw [String.toList_append, List.head?_append]
  cases hhead : front.toList.head? with
  | none => exact absurd hhead h
  | some c => rfl

theorem LexFault.head?_message (fault : LexFault) : fault.message.toList.head? = some 'u' := by
  cases fault with
  | unterminatedString | unterminatedHtml | unterminatedComment => decide
  | unexpected c =>
      simp only [message]
      split
      · decide
      · rw [head?_append (by decide)]
        decide

theorem LexFault.message_ne (fault : LexFault) : fault.message ≠ "nesting too deep" := by
  apply ne_of_head?
  rw [fault.head?_message]
  decide

theorem ParseFault.message_ne {fault : ParseFault} (h : fault ≠ .nestingTooDeep) :
    fault.message ≠ "nesting too deep" := by
  apply ne_of_head?
  cases fault with
  | nestingTooDeep => exact absurd rfl h
  | missingAssignedValue | missingAttributeValue | missingEndpoint => decide
  | expected wanted got =>
      change ("expected " ++ wanted.name ++ ", got " ++ got.name).toList.head? ≠ _
      rw [String.append_assoc, String.append_assoc, head?_append (by decide)]
      decide
  | missingHeader got =>
      change ("expected 'graph' or 'digraph', got " ++ got.name).toList.head? ≠ _
      rw [head?_append (by decide)]
      decide
  | expectedIdent got =>
      change ("expected identifier, got " ++ got.name).toList.head? ≠ _
      rw [head?_append (by decide)]
      decide
  | unexpectedToken got =>
      change ("unexpected token " ++ got.name ++ " in statement").toList.head? ≠ _
      rw [String.append_assoc, head?_append (by decide)]
      decide

/-- It is noted here that a block is too deep. -/
def Diagnostic.isRefusal (diagnostic : Diagnostic) : Bool :=
  diagnostic.message = "nesting too deep"

/-- The note that the block with this brace is too deep. -/
def Diagnostic.refusal (brace : Position) : Diagnostic :=
  ⟨.parse, brace, "nesting too deep"⟩

namespace TokenReader

/-- The braces of the blocks that have been noted as too deep. -/
def refusals (reader : TokenReader) : List Position :=
  reader.faults.toList.filterMap fun fault =>
    if fault.value = .nestingTooDeep then some fault.position else none

@[simp] theorem refusals_enter (reader : TokenReader) :
    reader.enter.refusals = reader.refusals := rfl

@[simp] theorem refusals_leave (reader : TokenReader) :
    reader.leave.refusals = reader.refusals := rfl

theorem refusals_reportAt (reader : TokenReader) (position : Position) (fault : ParseFault) :
    (reader.reportAt position fault).refusals =
      reader.refusals ++ if fault = .nestingTooDeep then [position] else [] := by
  simp only [refusals, reportAt, Array.toList_push, List.filterMap_append, List.filterMap_cons,
    List.filterMap_nil]
  split <;> simp_all

theorem Moves.refusals_eq {source target : TokenReader} (h : source.Moves target) :
    target.refusals = source.refusals := by
  induction h with
  | refl => rfl
  | advance _ ih => exact ih
  | reportAt _ position hfault ih => rw [refusals_reportAt, if_neg hfault, List.append_nil, ih]

end TokenReader

theorem LexFault.filter_isRefusal (faults : List (Located LexFault)) :
    (faults.map diagnostic).filter Diagnostic.isRefusal = [] := by
  apply List.filter_eq_nil_iff.mpr
  intro diagnostic hmem
  obtain ⟨fault, _, rfl⟩ := List.mem_map.mp hmem
  exact fun h => fault.value.message_ne (of_decide_eq_true h)

theorem ParseFault.filter_isRefusal (faults : List (Located ParseFault)) :
    (faults.map diagnostic).filter Diagnostic.isRefusal =
      (faults.filterMap fun fault =>
        if fault.value = .nestingTooDeep then some fault.position else none).map
        Diagnostic.refusal := by
  induction faults with
  | nil => rfl
  | cons fault faults ih =>
      rw [List.map_cons, List.filterMap_cons]
      by_cases hvalue : fault.value = .nestingTooDeep
      · have hrefusal : diagnostic fault = .refusal fault.position := by
          rw [diagnostic, hvalue]
          rfl
        rw [List.filter_cons_of_pos (by rw [hrefusal]; rfl), ih, hrefusal, if_pos hvalue]
        rfl
      · have hother : ¬ (diagnostic fault).isRefusal :=
          fun h => message_ne hvalue (of_decide_eq_true h)
        rw [List.filter_cons_of_neg hother, ih, if_neg hvalue]

theorem TokenStream.filter_isRefusal (stream : TokenStream) :
    stream.parse.diagnostics.filter Diagnostic.isRefusal =
      (TokenReader.start stream).document.2.refusals.map Diagnostic.refusal := by
  change (List.map LexFault.diagnostic _ ++ List.map ParseFault.diagnostic _).filter _ = _
  rw [List.filter_append, LexFault.filter_isRefusal, ParseFault.filter_isRefusal]
  rfl

end DotGraph
