import ScriptOutline.Code.OfTree
import ScriptOutline.Dialect
import ScriptOutline.Outline.Walk

/-!
# The outline of a source

A source is parsed, its tree is taken as code, and the functions of the code make
the outline. A parser always gives a tree: what it cannot read it keeps in nodes
of their own.
-/

namespace ScriptOutline

abbrev Parser := Grammar → String → ParseTree

def ParseTree.outline (source : ByteArray) (t : ParseTree) : List Entry :=
  (Code.ofTree source t).walk [] "" 0

theorem ParseTree.outline_eq (source : ByteArray) (t : ParseTree) :
    t.outline source = (Code.ofTree source t).outline "" 0 :=
  Code.walk_eq_append [] "" 0 _

def outlineOf (parse : Parser) (dialect : Dialect) (source : String) : List Entry :=
  (parse dialect.grammar source).outline source.toUTF8

end ScriptOutline
