import PackageUsage.Report.Table

namespace PackageUsage.Display

def rowLine (cells : List String) : String := Text.join " | " cells

def lines : Display → List String
  | blank => [""]
  | line markup => [markup]
  | panel markup title _ => title :: Text.split '\n' markup
  | table title _ columns rows => title :: rowLine (columns.map (·.header)) :: rows.map rowLine

end PackageUsage.Display
