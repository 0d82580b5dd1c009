import PackageUsage.Json.Basic

namespace PackageUsage

inductive ExportTarget where
  | path (s : String)
  | fallbacks (items : List ExportTarget)
  | keyed (entries : List (String × ExportTarget))
  /-- A JSON value that names nothing: null, a truth value or a number. -/
  | nothing
deriving Inhabited

namespace ExportTarget

mutual

def ofJson : Json → ExportTarget
  | .text s => path s
  | .list items => fallbacks (ofItems items)
  | .object members => keyed (ofMembers members)
  | .null | .bool _ | .int _ | .real _ => nothing

def ofItems : List Json → List ExportTarget
  | [] => []
  | j :: rest => ofJson j :: ofItems rest

def ofMembers : List (String × Json) → List (String × ExportTarget)
  | [] => []
  | (k, j) :: rest => (k, ofJson j) :: ofMembers rest

end

/-- The targets under keys, none for other targets. -/
def entries : ExportTarget → List (String × ExportTarget)
  | keyed es => es
  | _ => []

def keys (t : ExportTarget) : List String := t.entries.map (·.1)

end ExportTarget

end PackageUsage
