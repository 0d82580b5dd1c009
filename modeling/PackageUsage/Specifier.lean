import PackageUsage.Text.Basic

namespace PackageUsage.Specifier

def builtinModules : List String :=
  ["assert", "async_hooks", "buffer", "child_process", "cluster", "console", "constants", "crypto",
   "dgram", "diagnostics_channel", "dns", "domain", "events", "fs", "http", "http2", "https",
   "inspector", "module", "net", "os", "path", "perf_hooks", "process", "punycode", "querystring",
   "readline", "repl", "stream", "string_decoder", "sys", "timers", "tls", "trace_events", "tty",
   "url", "util", "v8", "vm", "wasi", "worker_threads", "zlib"]

/-- Whether a specifier names a module of the runtime or something in one. -/
def isBuiltin (module : String) : Bool :=
  let m := Text.strip module
  Text.startsWith m "node:" || builtinModules.contains ((Text.split '/' m).headD "")

/-- Whether a specifier names a file by its place relative to the importing one. -/
def isRelative (module : String) : Bool := Text.startsWith module "."

/-- Whether a specifier names a package or something in it. -/
def belongsTo (module package : String) : Bool :=
  module == package || Text.startsWith module (package ++ "/")

/-- The package that a specifier names: its first segment, or the first two under a scope. -/
def package? (module : String) : Option String :=
  let m := Text.strip module
  if m = "" ∨ isBuiltin m ∨ Text.startsWith m "." ∨ Text.startsWith m "/" then none
  else match Text.split '/' m with
    | first :: rest =>
      if Text.startsWith m "@" then
        match rest with
        | second :: _ =>
          if first.length ≤ 1 ∨ second = "" then none else some (first ++ "/" ++ second)
        | [] => none
      else some first
    | [] => none

end PackageUsage.Specifier
