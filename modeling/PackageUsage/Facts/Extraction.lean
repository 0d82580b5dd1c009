import PackageUsage.Facts.ExportNames
import PackageUsage.Facts.Reads
import PackageUsage.Syntax.SourceFile

namespace PackageUsage.FileFacts

open Facts

def ofParsed (p : ParsedSource) : FileFacts :=
  let source : Source := ⟨p.path, p.bytes⟩
  let visits := p.root.visits
  let imports := visits.flatMap source.importsAt
  { path := p.path
    imports
    reads := Tally.ofNames (visits.filterMap source.readAt?)
    members := (visits.filterMap source.memberAt?).foldl (fun t (l, m) => countMember t l m) []
    reexports := visits.flatMap (source.reexportsAt imports)
    dynamicImports := visits.filterMap source.dynamicImportAt?
    hasSyntaxError := p.hasError }

end PackageUsage.FileFacts
