import PackageUsage.Text.Order

namespace PackageUsage

/-- A line and a column, both counted from one. -/
structure Location where
  file : String
  line : Int
  column : Int
deriving DecidableEq, Repr

namespace Location

def toString (l : Location) : String :=
  l.file ++ ":" ++ ToString.toString l.line ++ ":" ++ ToString.toString l.column

instance : ToString Location := ⟨Location.toString⟩

/-- By file, then line, then column. -/
def le (a b : Location) : Bool :=
  if a.file = b.file then
    if a.line = b.line then decide (a.column ≤ b.column) else decide (a.line < b.line)
  else Text.lt a.file b.file

def sort (ls : List Location) : List Location := ls.mergeSort le

end Location

end PackageUsage
