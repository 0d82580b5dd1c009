import PackageUsage.Text.Basic

namespace PackageUsage.Log

inductive Level where
  | debug
  | info
  | warning
  | error
  | critical
deriving DecidableEq, Repr

namespace Level

def all : List Level := [debug, info, warning, error, critical]

def text : Level → String
  | debug => "DEBUG"
  | info => "INFO"
  | warning => "WARNING"
  | error => "ERROR"
  | critical => "CRITICAL"

def ofText? (s : String) : Option Level := all.find? (·.text == s)

def rank : Level → Nat
  | debug => 10
  | info => 20
  | warning => 30
  | error => 40
  | critical => 50

end Level

/-- The logger that all others belong to. -/
def rootName : String := "depshear"

/-- The full name of a logger: a name of another logger is put below the root. -/
def loggerName (name : Option String) : String :=
  match name with
  | none => rootName
  | some n => if Text.startsWith n rootName then n else rootName ++ "." ++ n

/-- Records below this level are dropped. Quiet wins over verbose. -/
def threshold (verbose quiet : Bool) : Level :=
  if quiet then .error else if verbose then .debug else .warning

structure Record where
  logger : Option String
  level : Level
  text : String
deriving DecidableEq, Repr

def Record.line (r : Record) : String :=
  " - " ++ loggerName r.logger ++ " - " ++ r.level.text ++ " - " ++ r.text

/-- The number of characters that the time takes up. -/
def timeWidth : Nat := 19

def isLineEnd (c : Char) : Bool :=
  let n := c.toNat
  (0x0A ≤ n && n ≤ 0x0D) || (0x1C ≤ n && n ≤ 0x1E) || n == 0x85 || n == 0x2028 || n == 0x2029

/-- The lines that are ended in a text; `line` was read of the first one, last character first. -/
def endedLines (line : List Char) : List Char → List String
  | [] => []
  | '\r' :: '\n' :: rest => String.ofList line.reverse :: endedLines [] rest
  | c :: rest =>
    if isLineEnd c then String.ofList line.reverse :: endedLines [] rest
    else endedLines (c :: line) rest

/-- A line without as many characters as the time takes up. -/
def withoutTime (line : String) : String :=
  Text.ofCodePoints ((Text.codePoints line).drop timeWidth)

/-- The lines of a record in a log file. The time is taken off the first of them, and what would be
its place off the others. -/
def Record.lines (r : Record) : List String :=
  match endedLines [] (r.line ++ "\n").toList with
  | [] => []
  | first :: more => first :: more.map withoutTime

/-- The lines of the records that are urgent enough. A record that cannot be written is left out. -/
def lines (least : Level) (rs : List Record) : List String :=
  (rs.filter fun r => least.rank ≤ r.level.rank && Text.isWhole r.line).flatMap (·.lines)

end PackageUsage.Log
