import PackageUsage.Text.Basic

namespace PackageUsage

structure Profile where
  name : String
  conditions : List String
deriving DecidableEq, Repr

namespace Profile

def nodeImport : Profile := ⟨"node-import", ["node", "import", "default"]⟩

def all : List Profile :=
  [nodeImport, ⟨"node-require", ["node", "require", "default"]⟩,
   ⟨"browser-import", ["browser", "import", "default"]⟩,
   ⟨"browser-require", ["browser", "require", "default"]⟩]

def ofName? (name : String) : Option Profile :=
  let key := Text.lower (Text.strip name)
  if key = "" then some nodeImport else all.find? (·.name == key)

/-- The profile of a name, in any case and without the white space around it. For a name that is
unknown there is a default and a warning. -/
def select (name : String) : Profile × Option String :=
  match ofName? name with
  | some p => (p, none)
  | none =>
    (nodeImport, some ("unknown runtime profile \"" ++ name ++ "\"; using \"" ++ nodeImport.name ++
      "\" (supported: " ++ Text.join ", " (all.map (·.name)) ++ ")"))

end Profile

end PackageUsage
