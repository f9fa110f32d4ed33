import SchemaGraph.CommandLine.Directory
import SchemaGraph.Main
import SchemaGraph.Node.TypeExpression
import SchemaGraph.Proofs.AddedDeclarations
import SchemaGraph.Proofs.ClosedGraph
import SchemaGraph.Proofs.Coherence
import SchemaGraph.Proofs.CompiledGraph
import SchemaGraph.Proofs.DeclarationOrder
import SchemaGraph.Proofs.DistinctNames
import SchemaGraph.Proofs.Filling
import SchemaGraph.Proofs.FirstPass
import SchemaGraph.Proofs.GraphEmbedding
import SchemaGraph.Proofs.Lookup
import SchemaGraph.Proofs.Meaning
import SchemaGraph.Proofs.PassAgreement
import SchemaGraph.Proofs.PropertyNodes
import SchemaGraph.Proofs.QualifiedNames
import SchemaGraph.Proofs.Registration
import SchemaGraph.Proofs.Renaming
import SchemaGraph.Proofs.ShellGraph
import SchemaGraph.Proofs.Sites
import SchemaGraph.Proofs.TypeGrammar
import SchemaGraph.Proofs.Verdicts
import SchemaGraph.Proofs.Visits
import SchemaGraph.Proofs.AttemptPlaces
import SchemaGraph.Proofs.AttemptOutcomes
import SchemaGraph.Proofs.RegisteredDeclarations
import SchemaGraph.Proofs.SkippedDeclarations
import SchemaGraph.Proofs.TypeFaults
import SchemaGraph.Proofs.ResolvedTypes
import SchemaGraph.Proofs.WrittenTypes
import SchemaGraph.Proofs.Decoration
import SchemaGraph.Proofs.FirstFault
import SchemaGraph.Proofs.KnownIds
import SchemaGraph.Proofs.RunReport
import SchemaGraph.Proofs.Switches
import SchemaGraph.Proofs.InertComments
import SchemaGraph.Proofs.SchemaText
import SchemaGraph.Proofs.ReportText
import SchemaGraph.Proofs.SettingsText
import SchemaGraph.Proofs.FaultScopes
import SchemaGraph.Proofs.NearestScope
import SchemaGraph.Proofs.LoadedSettings
import SchemaGraph.Proofs.OptionParameters
import SchemaGraph.Proofs.TypeScan
import SchemaGraph.Proofs.WholeProperties
import SchemaGraph.Proofs.ShownLiterals
import SchemaGraph.Proofs.CommentWords
import SchemaGraph.Proofs.GeneratedNames
import SchemaGraph.Proofs.IdentityMarks
import SchemaGraph.Proofs.IndexedRegistry
import SchemaGraph.Proofs.CommandRuns
import SchemaGraph.Proofs.Footprints
