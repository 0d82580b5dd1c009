import PackageUsage.Text.Basic
import PackageUsage.Syntax.Walk

namespace PackageUsage.Syntax.Node

/-- The value of a string, or of a template without substitutions; none for what is computed. The
value is the text between the delimiters, escapes and all. -/
def staticText? (source : ByteArray) (n : Node) : Option String :=
  if n.kind = "string" then some (Text.inner (n.text source))
  else if n.kind = "template_string" then
    if n.namedChildren.any (·.kind == "template_substitution") then none
    else some (Text.inner (n.text source))
  else none

/-- A name, written as an identifier or as a string. -/
def nameText (source : ByteArray) (n : Node) : String :=
  (n.staticText? source).getD (n.text source)

def nameOf (source : ByteArray) (n : Option Node) : String := (n.map (nameText source)).getD ""

end PackageUsage.Syntax.Node
