import PackageUsage.CommandLine.Basic
import PackageUsage.FileTree.Snapshot
import PackageUsage.Report.Plain

open PackageUsage

def usageText : String :=
  "usage: depshear [--version] [--help] analyse [options] [dependency]"

/-- The surroundings of a run: files from the top on, the working folder, the home folder, the
environment and the time. -/
def setupOf (j : Json) : CommandLine.Setup :=
  { files := Snapshot.tree [] ((j.get? "files").getD .null) (j.textAt "cwd")
    home := Path.ofString (j.textAt "home")
    environment := (((j.get? "env").map (·.members)).getD []).map fun (k, v) => (k, v.text?.getD "")
    time := j.textAt "time"
    refusal := fun _ => "no TOML document" }

def outputLines : CommandLine.Output → List String
  | .nothing => []
  | .help => [usageText]
  | .version => [versionLine]
  | .report .json r => [r.toJson.pretty]
  | .report .table r => r.displays.flatMap Display.lines

def main (args : List String) : IO UInt32 := do
  let input ← (← IO.getStdin).getLine
  let result := CommandLine.run (setupOf ((Json.read? (Text.ofCharacters input)).getD (.object [])))
    (args.map Text.ofCharacters)
  for line in outputLines result.output do IO.println (Text.toCharacters line)
  for line in result.errors do IO.eprintln (Text.toCharacters line)
  return UInt32.ofNat result.exitCode
