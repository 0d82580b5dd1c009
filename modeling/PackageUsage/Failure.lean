import PackageUsage.FileTree.Basic
import PackageUsage.Settings.Problem

namespace PackageUsage

inductive Failure where
  | fault (f : Fault)
  | file (e : FileError)
  /-- A limit that is no whole number was used to count. -/
  | limitNotWhole
  /-- A value that no setting can have. -/
  | setting (p : Settings.Problem)
  /-- Exports are counted that no double comes near. -/
  | figureTooLarge
deriving DecidableEq, Repr

namespace Failure

def text : Failure → String
  | fault f => f.text
  | file e => e.text
  | setting p => p.text
  | limitNotWhole => "slice indices must be integers or None or have an __index__ method"
  | figureTooLarge => "int too large to convert to float"

instance : Coe Fault Failure := ⟨fault⟩

end Failure

/-- A computation that may fail. -/
abbrev Attempt (α : Type) := Except Failure α

def Attempt.file {α : Type} (x : Except FileError α) : Attempt α := x.mapError .file

def Attempt.fault {α : Type} (x : Except Fault α) : Attempt α := x.mapError .fault

end PackageUsage
