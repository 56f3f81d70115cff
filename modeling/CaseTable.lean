import CaseTable.Main
import CaseTable.Proofs.Extraction.Comments
import CaseTable.Proofs.Extraction.Dispatch
import CaseTable.Proofs.Extraction.Inside
import CaseTable.Proofs.Extraction.LineEndings
import CaseTable.Proofs.Extraction.Invariant
import CaseTable.Proofs.Extraction.Names
import CaseTable.Proofs.Extraction.TableStart
import CaseTable.Proofs.Extraction.WrittenTable
import CaseTable.Proofs.Ini.Acceptance
import CaseTable.Proofs.Rendering.Layouts
import CaseTable.Proofs.Rendering.Strategies
import CaseTable.Proofs.RoundTrip
import CaseTable.Storage.Disk
import CaseTable.Proofs.Ini.Parts
import CaseTable.Proofs.Rendering.SourceName
import CaseTable.Proofs.Storage.Nodes
import CaseTable.Proofs.Storage.Paths
import CaseTable.Proofs.Conversion.Runs
import CaseTable.Proofs.Conversion.Effects
import CaseTable.Proofs.Extraction.Suffix
import CaseTable.Proofs.Shell.NestedTables
import CaseTable.Proofs.Extraction.NestedTables
import CaseTable.Proofs.Shell.Braces
import CaseTable.Proofs.Shell.Tiles
import CaseTable.Proofs.Shell.EchoCommand
import CaseTable.Proofs.Extraction.DefinitionSites
import CaseTable.Proofs.Arguments.References
import CaseTable.Proofs.Arguments.Continuations
import CaseTable.Proofs.Description.Tokens
import CaseTable.Proofs.Conversion.WrittenCount
import CaseTable.Proofs.Extraction.UnterminatedLines
import CaseTable.Proofs.IndexedTable
import CaseTable.Proofs.Bytewise.Extraction
