import PackageUsage.Settings.Setting

namespace PackageUsage.Settings

/-- What is asked of the values of settings. -/
inductive Rule where
  | profileGiven
  | usageInRange
  | dynamicLimitNotNegative
  | symbolsShown
  | samplesShown
  | weightsUsable
  | someWeight
  | verbosityKnown
deriving DecidableEq, Repr

def Rule.message : Rule → String
  | profileGiven => "runtime_profile must not be empty"
  | usageInRange => "min_usage_percent_for_recommendations must be between 0 and 100"
  | dynamicLimitNotNegative => "max_uncertain_import_count must be non-negative"
  | symbolsShown => "top_symbols_limit must be at least 1"
  | samplesShown => "parse_error_sample_limit must be at least 1"
  | weightsUsable => "removal weights must be finite and non-negative"
  | someWeight => "removal weights must not all be zero"
  | verbosityKnown => "verbosity must be one of: quiet, normal, verbose"

inductive Problem where
  | broken (rule : Rule)
  | unknownKey (key : String)
  /-- A value that is no text where text is asked for. -/
  | notText (s : Setting)
  /-- A value that is no number where a number is asked for. -/
  | notNumber (s : Setting)
  /-- A whole number that no double comes near. -/
  | tooLarge (s : Setting)
  /-- Weights whose sum is a whole number that no double comes near. -/
  | sumTooLarge
  /-- A value that is refused has a whole number with too many digits to be shown. -/
  | tooLong
deriving DecidableEq, Repr

def Problem.text : Problem → String
  | broken rule => rule.message
  | unknownKey key => "unknown configuration key: " ++ key
  | notText s => s.key ++ " must be text"
  | notNumber s => s.key ++ " must be a number"
  | tooLarge s => s.key ++ " is too large"
  | sumTooLarge => "the sum of the removal weights is too large"
  | tooLong =>
    s!"Exceeds the limit ({Text.Number.maxDigits} digits) for integer string conversion; " ++
      "use sys.set_int_max_str_digits() to increase the limit"

end PackageUsage.Settings
