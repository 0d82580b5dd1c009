import PackageUsage.Path.Basic

namespace PackageUsage

inductive Language where
  | javascript
  | typescript
  | tsx
deriving DecidableEq, Repr

namespace Language

def all : List Language := [javascript, typescript, tsx]

def name : Language → String
  | javascript => "javascript"
  | typescript => "typescript"
  | tsx => "tsx"

def extensions : Language → List String
  | javascript => [".js", ".jsx", ".mjs", ".cjs"]
  | typescript => [".ts", ".mts", ".cts"]
  | tsx => [".tsx"]

def names : List String := Text.sort (all.map name)

def allExtensions : List String := Text.sort (all.flatMap extensions)

def ofName? (s : String) : Option Language := all.find? (·.name == s)

/-- The language of a file, by its extension in any case. -/
def ofPath? (p : Path) : Option Language :=
  all.find? (·.extensions.contains (Text.lower p.suffix))

end Language

end PackageUsage
