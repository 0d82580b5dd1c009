import PackageUsage.Log
import PackageUsage.Main
import PackageUsage.Proofs.ActiveLeaves
import PackageUsage.Proofs.AppliedPatches
import PackageUsage.Proofs.BrokenPackages
import PackageUsage.Proofs.CanonicalNames
import PackageUsage.Proofs.CanonicalPaths
import PackageUsage.Proofs.CircularChains
import PackageUsage.Proofs.ConservedReads
import PackageUsage.Proofs.ContainedEntrypoints
import PackageUsage.Proofs.DeclaredNames
import PackageUsage.Proofs.DirectReads
import PackageUsage.Proofs.DiscoveredRoots
import PackageUsage.Proofs.EndingSearch
import PackageUsage.Proofs.Expansions
import PackageUsage.Proofs.FoundEntrypoints
import PackageUsage.Proofs.GenuineCircles
import PackageUsage.Proofs.ImportedNames
import PackageUsage.Proofs.LongestChain
import PackageUsage.Proofs.ModeAgreement
import PackageUsage.Proofs.NarrowedLines
import PackageUsage.Proofs.NearestInstallation
import PackageUsage.Proofs.PackagePlaces
import PackageUsage.Proofs.PlannedImports
import PackageUsage.Proofs.RecordedPackages
import PackageUsage.Proofs.ReexportPath
import PackageUsage.Proofs.ReorderedKeys
import PackageUsage.Proofs.ReportConsistency
import PackageUsage.Proofs.ScanOrder
import PackageUsage.Proofs.ScannedSources
import PackageUsage.Proofs.SpecifiedFiles
import PackageUsage.Proofs.SpecifierNames
import PackageUsage.Proofs.SummaryShare
import PackageUsage.Proofs.UsedNames
import PackageUsage.Proofs.WalkedFolders
import PackageUsage.Proofs.WrittenRoots
import PackageUsage.Proofs.LoaderCalls
import PackageUsage.Proofs.ImportStatements
import PackageUsage.Proofs.DestructuredKeys
import PackageUsage.Proofs.RestatedExports
import PackageUsage.Proofs.LinePatterns
import PackageUsage.Proofs.ExtendedArithmetic
import PackageUsage.Proofs.ScoreScale
import PackageUsage.Proofs.ScoreMonotonicity
import PackageUsage.Proofs.DoubleRounding
import PackageUsage.Proofs.StoredDoubles
import PackageUsage.Proofs.DoubleRange
import PackageUsage.Proofs.DoubleOrder
import PackageUsage.Proofs.ScoreDoubles
import PackageUsage.Proofs.SortedRuns
import PackageUsage.Proofs.WasteRanking
import PackageUsage.Proofs.CancelledScans
import PackageUsage.Proofs.CompiledModules
import PackageUsage.Proofs.LoadedSettings
import PackageUsage.Proofs.PendingTrees
import PackageUsage.Proofs.SettingFlaws
import PackageUsage.Proofs.SoundSettings
import PackageUsage.Proofs.WalkOrder
import PackageUsage.Proofs.ZeroComparison
