import Folio.Main
import Folio.Proofs.AttributeLists
import Folio.Proofs.Boundaries
import Folio.Proofs.BuildOrder
import Folio.Proofs.CacheHistory
import Folio.Proofs.ComponentBody
import Folio.Proofs.Counters
import Folio.Proofs.CutOff
import Folio.Proofs.DamagedEntries
import Folio.Proofs.Emission
import Folio.Proofs.ExactDiscovery
import Folio.Proofs.ExportLines
import Folio.Proofs.FirstBuild
import Folio.Proofs.Identifiers
import Folio.Proofs.IndexPairs
import Folio.Proofs.Layout
import Folio.Proofs.Lossless
import Folio.Proofs.NamelessBlocks
import Folio.Proofs.NewProjects
import Folio.Proofs.Ownership
import Folio.Proofs.PageDocuments
import Folio.Proofs.PathLiterals
import Folio.Proofs.Rebuild
import Folio.Proofs.TreeJson
import Folio.Proofs.Turns
import Folio.Proofs.TypeDefinitions
import Folio.Proofs.Visible
