import DotGraph.Tree.Block

namespace DotGraph

/-! Whole graph descriptions. -/

open DotGraph.Tree

/-- Reads a graph: its header and its statements.  Without a header nothing more is read. -/
def TokenReader.document (reader : TokenReader) : Document × TokenReader :=
  let position := reader.position
  let (strict, reader) :=
    if reader.kind = .strict then (true, reader.advance) else (false, reader)
  if reader.kind = .graph || reader.kind = .digraph then
    let directed := reader.kind = .digraph
    let (ident, reader) := reader.advance.ident?
    let (_, reader) := reader.expect .lBrace
    let (statements, reader) := reader.statements (blockReader maxNesting) #[]
    let (_, reader) := reader.expect .rBrace
    (⟨position, strict, directed, ident, statements.toList⟩, reader)
  else (⟨position, strict, false, none, []⟩, reader.report (.missingHeader reader.kind))

/-- A tree, which is there whatever was read, and what was reported on the way. -/
structure Parsed where
  document : Document
  diagnostics : List Diagnostic

namespace Parsed

def isClean (parsed : Parsed) : Bool :=
  parsed.diagnostics.isEmpty

/-- The tree, unless anything was reported. -/
def checked (parsed : Parsed) : Except (List Diagnostic) Document :=
  if parsed.isClean then .ok parsed.document else .error parsed.diagnostics

end Parsed

/-- What is wrong with the tokens that have been pulled comes first, then what is wrong with their
order. -/
def TokenStream.parse (stream : TokenStream) : Parsed :=
  let (document, reader) := (TokenReader.start stream).document
  let lexical := (stream.lexemes.take reader.pulled).filterMap Lexeme.fault
  ⟨document, lexical.map LexFault.diagnostic ++ reader.faults.toList.map ParseFault.diagnostic⟩

def parse (filename : String) (bytes : ByteArray) : Parsed :=
  (TokenStream.ofBytes filename bytes).parse

end DotGraph
