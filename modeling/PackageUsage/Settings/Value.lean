import PackageUsage.Settings.Amount
import PackageUsage.Settings.Moment
import PackageUsage.Text.Number
import PackageUsage.Text.Quoted

namespace PackageUsage.Settings

inductive Value where
  | nothing
  | flag (b : Bool)
  | whole (n : Int)
  | real (x : Float)
  | text (s : String)
  | moment (m : Moment)
  | list (items : List Value)
  | table (entries : List (String × Value))
deriving Inhabited

/-- Entries in the order in which their keys were first given. -/
abbrev Table := List (String × Value)

namespace Table

/-- Gives a key a value. A known key keeps its place. -/
def set (key : String) (value : Value) : Table → Table
  | [] => [(key, value)]
  | (k, v) :: rest => if k = key then (k, value) :: rest else (k, v) :: set key value rest

/-- Gives all keys of one table their values in another one. -/
def update (t others : Table) : Table := others.foldl (fun t (k, v) => set k v t) t

def keys (t : Table) : List String := t.map (·.1)

end Table

namespace Value

def amount? : Value → Option Amount
  | flag b => some (.flag b)
  | whole n => some (.whole n)
  | real x => some (.real x)
  | _ => none

/-- Whether a value counts as true where a truth value is asked for: nothing, zero and what is empty
do not. -/
def isTrue : Value → Bool
  | nothing => false
  | flag b => b
  | whole n => n != 0
  | real x => x != 0.0
  | text s => s != ""
  | moment _ => true
  | list items => !items.isEmpty
  | table entries => !entries.isEmpty

mutual

def quoted : Value → String
  | nothing => "None"
  | flag b => (Amount.flag b).text
  | whole n => toString n
  | real x => (Amount.real x).text
  | text s => Text.quoted s
  | moment m => m.quoted
  | list items => "[" ++ Text.join ", " (quotedItems items) ++ "]"
  | table entries => "\x7b" ++ Text.join ", " (quotedEntries entries) ++ "\x7d"

def quotedItems : List Value → List String
  | [] => []
  | v :: rest => quoted v :: quotedItems rest

def quotedEntries : List (String × Value) → List String
  | [] => []
  | (k, v) :: rest => (Text.quoted k ++ ": " ++ quoted v) :: quotedEntries rest

end

/-- A value by itself: as inside another one, but text and moments are plain. -/
def shown : Value → String
  | text s => s
  | moment m => m.text
  | v => v.quoted

mutual

/-- Whether a value can be shown. Whole numbers with too many digits are never written. -/
def isWritable : Value → Bool
  | whole n => decide (n.natAbs < 10 ^ Text.Number.maxDigits)
  | list items => areWritable items
  | table entries => areEntriesWritable entries
  | _ => true

def areWritable : List Value → Bool
  | [] => true
  | v :: rest => isWritable v && areWritable rest

def areEntriesWritable : List (String × Value) → Bool
  | [] => true
  | (_, v) :: rest => isWritable v && areEntriesWritable rest

end

end Value

end PackageUsage.Settings
