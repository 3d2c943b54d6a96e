import CodeAtlas.Demonstration.Application
import CodeAtlas.Main
import CodeAtlas.Measure.Report
import CodeAtlas.Proofs.BareNames
import CodeAtlas.Proofs.CallSites
import CodeAtlas.Proofs.DynamicValues
import CodeAtlas.Proofs.EdgeNames
import CodeAtlas.Proofs.EmittedRecords
import CodeAtlas.Proofs.FirstStates
import CodeAtlas.Proofs.FoundBuilders
import CodeAtlas.Proofs.IdSearch
import CodeAtlas.Proofs.IdTree
import CodeAtlas.Proofs.ImportedFiles
import CodeAtlas.Proofs.KeyShapes
import CodeAtlas.Proofs.MergedKinds
import CodeAtlas.Proofs.NoteCounts
import CodeAtlas.Proofs.NotedFiles
import CodeAtlas.Proofs.OwnedDefinitions
import CodeAtlas.Proofs.PlainAnswers
import CodeAtlas.Proofs.ReachedNodes
import CodeAtlas.Proofs.Relocation
import CodeAtlas.Proofs.MergedGraph
import CodeAtlas.Proofs.RepeatedRounds
import CodeAtlas.Proofs.ReportedImports
import CodeAtlas.Proofs.Reversal
import CodeAtlas.Proofs.SchemaGate
import CodeAtlas.Proofs.StyleLogs
import CodeAtlas.Proofs.Trials
import CodeAtlas.Proofs.UnreadKeys
import CodeAtlas.Workload.Runs
