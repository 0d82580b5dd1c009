import PackageUsage.Settings.Value
import PackageUsage.Text.Number

namespace PackageUsage

inductive Setting where
  | profile
  | leastUsage
  | dynamicLimit
  | topSymbols
  | syntaxErrorSamples
  | usageWeight
  | impactWeight
  | confidenceWeight
  | verbosity
deriving DecidableEq, Repr

namespace Setting

def all : List Setting :=
  [profile, leastUsage, dynamicLimit, topSymbols, syntaxErrorSamples, usageWeight, impactWeight,
   confidenceWeight, verbosity]

def key : Setting → String
  | profile => "runtime_profile"
  | leastUsage => "min_usage_percent_for_recommendations"
  | dynamicLimit => "max_uncertain_import_count"
  | topSymbols => "top_symbols_limit"
  | syntaxErrorSamples => "parse_error_sample_limit"
  | usageWeight => "removal_weight_usage"
  | impactWeight => "removal_weight_impact"
  | confidenceWeight => "removal_weight_confidence"
  | verbosity => "verbosity"

def isKnown (key : String) : Bool := all.any (·.key == key)

/-- The variable of the environment that gives a setting. -/
def variableName (s : Setting) : String := "DEPSHEAR_" ++ s.key.toUpper

/-- What kind of value a text in the environment stands for. -/
inductive Form where
  | flag
  | whole
  | real
  | text
  /-- No variable can hold a list. -/
  | list
deriving DecidableEq, Repr

def form : Setting → Form
  | profile | verbosity => .text
  | leastUsage | dynamicLimit | topSymbols | syntaxErrorSamples => .whole
  | usageWeight | impactWeight | confidenceWeight => .real

namespace Form

def flagReason (s : String) : String := "expected true/false, got '" ++ s ++ "'"

/-- Text in quotes, up to the 200th character. -/
def shortened (s : String) : String := String.ofList ((Text.quoted s).toList.take 200)

def wholeReason (s : String) : Text.Number.Problem → String
  | .malformed => "invalid literal for int() with base 10: " ++ shortened s
  | .tooLong n =>
    s!"Exceeds the limit ({Text.Number.maxDigits} digits) for integer string conversion: " ++
      s!"value has {n} digits; use sys.set_int_max_str_digits() to increase the limit"

def realReason (s : String) : String := "could not convert string to float: " ++ Text.quoted s

/-- The value that a text stands for, or why it stands for none. -/
def read (f : Form) (s : String) : Except String (Option Settings.Value) :=
  match f with
  | flag =>
    let word := Text.lower s
    if ["true", "1", "yes", "on"].contains word then .ok (some (.flag true))
    else if ["false", "0", "no", "off"].contains word then .ok (some (.flag false))
    else .error (flagReason s)
  | whole => (Text.Number.whole s).map (some ∘ .whole) |>.mapError (wholeReason s)
  | real =>
    match Text.Number.real? s with
    | some x => .ok (some (.real x))
    | none => .error (realReason s)
  | text => .ok (some (.text s))
  | list => .ok none

end Form

end Setting

end PackageUsage
