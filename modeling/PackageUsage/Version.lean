namespace PackageUsage

def version : String := "0.1.0"

/-- What the program says when it is asked for its version. -/
def versionLine : String := "depshear version " ++ version

end PackageUsage
