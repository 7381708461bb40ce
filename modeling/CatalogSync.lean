import CatalogSync.Text.Blank
import CatalogSync.Json.Reader
import CatalogSync.Json.Printer
import CatalogSync.Sync.Run
import CatalogSync.Sync.Schedule
import CatalogSync.Sync.Memory
import CatalogSync.Edit.Product
import CatalogSync.Edit.Channel
import CatalogSync.Proofs.Filtering
import CatalogSync.Proofs.Reconciliation
import CatalogSync.Proofs.Convergence
import CatalogSync.Proofs.Recognition
import CatalogSync.Proofs.CallDiscipline
import CatalogSync.Proofs.Storage
import CatalogSync.Proofs.Locking
import CatalogSync.Proofs.RunRule
import CatalogSync.Proofs.Interleaving
import CatalogSync.Proofs.AnyOrder
import CatalogSync.Proofs.Accounting
import CatalogSync.Proofs.Acceptance
import CatalogSync.Proofs.Siblings
import CatalogSync.Proofs.Concurrency
import CatalogSync.Proofs.Independence
import CatalogSync.Proofs.ExactRun
import CatalogSync.Proofs.Partition
import CatalogSync.Proofs.Reports
import CatalogSync.Proofs.Idempotence
import CatalogSync.Proofs.ActionForms
import CatalogSync.Proofs.ImageOrder
import CatalogSync.Proofs.AssetOrder
import CatalogSync.Proofs.PriceScopes
import CatalogSync.Proofs.Keyless
import CatalogSync.Proofs.Promotion
import CatalogSync.Proofs.AttributeWrites
import CatalogSync.Proofs.OrderHints
import CatalogSync.Proofs.Issues
import CatalogSync.Proofs.Reordering
import CatalogSync.Proofs.Contention
import CatalogSync.Proofs.Channels
import CatalogSync.Proofs.Validation
import CatalogSync.Proofs.RepeatedKeys
import CatalogSync.Proofs.FetchOrder
