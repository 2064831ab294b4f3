import ScriptOutline.Outline.Source

/-!
# Parsed sources

Trees that were made ahead of time. Together they are a parser for the sources
they belong to; any other source is taken to be empty.
-/

namespace ScriptOutline

structure ParsedSource where
  grammar : Grammar
  source : String
  tree : ParseTree

namespace ParsedSource

def emptyTree : ParseTree :=
  .node
    { kind := "program", named := true, extra := false, missing := false
      start := 0, stop := 0, row := 0, fields := [] }
    []

def isFor (parsed : ParsedSource) (grammar : Grammar) (source : String) : Bool :=
  parsed.grammar == grammar && parsed.source == source

end ParsedSource

/-- The parser that finds the trees of parsed sources, the first that fits. -/
def Parser.ofParsed (known : List ParsedSource) : Parser := fun grammar source =>
  ((known.find? fun parsed => parsed.isFor grammar source).map ParsedSource.tree).getD
    ParsedSource.emptyTree

end ScriptOutline
