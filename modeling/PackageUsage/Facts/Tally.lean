namespace PackageUsage

abbrev Tally := List (String × Int)

namespace Tally

/-- The count of a name, zero if it was never counted. -/
def count (t : Tally) (name : String) : Int := (t.lookup name).getD 0

/-- Counts a name `n` more times. -/
def add (t : Tally) (name : String) (n : Int) : Tally :=
  match t with
  | [] => [(name, n)]
  | (k, m) :: rest => if k = name then (k, m + n) :: rest else (k, m) :: add rest name n

def total (t : Tally) : Int := t.foldr (fun (_, n) sum => n + sum) 0

def ofNames (names : List String) : Tally := names.foldl (fun t n => t.add n 1) []

def names (t : Tally) : List String := t.map (·.1)

end Tally

end PackageUsage
