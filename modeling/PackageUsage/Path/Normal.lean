import PackageUsage.Path.Basic

namespace PackageUsage.Path.Normal

/-- One name onto the names before it, the last of which comes first. A `..` undoes a name; at the
start of a relative path it stays, and at the root it is dropped. -/
def push (absolute : Bool) (stack : List String) (name : String) : List String :=
  if name = "" ∨ name = "." then stack
  else if name ≠ ".." then name :: stack
  else match stack with
    | [] => if absolute then [] else [".."]
    | top :: below => if top = ".." then ".." :: stack else below

def collapse (absolute : Bool) (names : List String) : List String :=
  (names.foldl (push absolute) []).reverse

def normalize (s : String) : String :=
  let anchor := anchorOf s.toList
  let names := collapse (anchor != .relative) (Text.split '/' s)
  let text := Path.Anchor.text anchor ++ Text.join "/" names
  if text = "" then "." else text

/-- A written path cut before the extension of its last name. The dots that begin the name do not
start an extension, but one that ends it does. -/
def splitExtension (s : String) : String × String :=
  let (last, dir) := s.toList.reverse.span (· != '/')
  let (ext, stem) := last.span (· != '.')
  match stem with
  | '.' :: stem =>
    if stem.all (· == '.') then (s, "")
    else (String.ofList (dir.reverse ++ stem.reverse), String.ofList ('.' :: ext.reverse))
  | _ => (s, "")

/-- What stands before the last slash, without the slashes that end it unless it is all slashes. -/
def directory (s : String) : String :=
  let head := s.toList.reverse.dropWhile (· != '/')
  let trimmed := head.dropWhile (· == '/')
  String.ofList (if trimmed.isEmpty then head.reverse else trimmed.reverse)

/-- `s` seen from `dir`; an absolute `s` stands for itself. -/
def joinText (dir s : String) : String :=
  if Text.startsWith s "/" then s
  else if dir = "" ∨ Text.endsWith dir "/" then dir ++ s
  else dir ++ "/" ++ s

end PackageUsage.Path.Normal
