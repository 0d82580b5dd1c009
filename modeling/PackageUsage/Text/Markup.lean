import PackageUsage.Text.Basic

namespace PackageUsage.Text.Markup

def styled (style s : String) : String := "[" ++ style ++ "]" ++ s ++ "[/" ++ style ++ "]"

def isStyleStart (c : Char) : Bool :=
  ('a' ≤ c && c ≤ 'z') || c == '#' || c == '/' || c == '@'

/-- What stands between brackets and looks like a style, with its closing bracket, and what follows
it. It holds no other opening bracket. -/
def style? : List Char → Option (List Char × List Char)
  | c :: rest =>
    if !isStyleStart c then none
    else
      let (inside, after) := rest.span fun d => d != ']' && d != '['
      match after with
      | ']' :: after => some (c :: inside ++ [']'], after)
      | _ => none
  | [] => none

/-- Escapes whatever looks like a style. `backslashes` were read and are still to be written. -/
def escapeStyles (backslashes : Nat) : Nat → List Char → List Char
  | 0, cs => List.replicate backslashes '\\' ++ cs
  | _ + 1, [] => List.replicate backslashes '\\'
  | fuel + 1, '\\' :: rest => escapeStyles (backslashes + 1) fuel rest
  | fuel + 1, '[' :: rest =>
    match style? rest with
    | some (style, after) =>
      List.replicate (2 * backslashes + 1) '\\' ++ '[' :: style ++ escapeStyles 0 fuel after
    | none => List.replicate backslashes '\\' ++ '[' :: escapeStyles 0 fuel rest
  | fuel + 1, c :: rest => List.replicate backslashes '\\' ++ c :: escapeStyles 0 fuel rest

/-- A single backslash at the end would escape what is written after the text, and is doubled. -/
def closeEnd (cs : List Char) : List Char :=
  match cs.reverse with
  | '\\' :: '\\' :: _ => cs
  | '\\' :: _ => cs ++ ['\\']
  | _ => cs

/-- Text that is shown as it stands. -/
def escape (s : String) : String :=
  let cs := s.toList
  String.ofList (closeEnd (escapeStyles 0 (cs.length + 1) cs))

end PackageUsage.Text.Markup
