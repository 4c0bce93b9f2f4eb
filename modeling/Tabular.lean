import Tabular.Main
import Tabular.Migration
import Tabular.Store
import Tabular.Database
import Tabular.Database.Cell
import Tabular.Catalog
import Tabular.Catalog.Files
import Tabular.Yaml.Writing
import Tabular.Yaml.Style
import Tabular.Yaml.Document
import Tabular.Yaml.Node
import Tabular.Yaml.Lexer
import Tabular.Yaml.Scalar
import Tabular.Yaml.Token
import Tabular.Yaml.Source
import Tabular.Schema
import Tabular.Item
import Tabular.Sql.Request
import Tabular.Sql.Token
import Tabular.Sql.Definition
import Tabular.Entity.Json
import Tabular.Digest.Sha256
import Tabular.Proofs.StatementTokens
import Tabular.Sql.Reading
import Tabular.Proofs.StatementReading
import Tabular.Proofs.Requests
import Tabular.Proofs.Registration
import Tabular.Proofs.Rows
import Tabular.Proofs.Sessions
import Tabular.Proofs.StoreRuns
import Tabular.Proofs.StoredInstances
import Tabular.Proofs.StoredItems
import Tabular.Proofs.References
import Tabular.Proofs.GeneratedKeys
import Tabular.Proofs.CatalogTexts
import Tabular.Proofs.FirstMigration
import Tabular.Proofs.Lifecycle
import Tabular.Proofs.Fingerprints
import Tabular.Proofs.ConditionalStatements
import Tabular.Proofs.StatementTexts
import Tabular.Proofs.FailedOperations
import Tabular.Proofs.RevisedRows
import Tabular.Proofs.ConditionalRows
import Tabular.Proofs.CheckedCatalogs
import Tabular.Proofs.SettledDefinitions
import Tabular.Proofs.RepeatedCreation
import Tabular.Proofs.CompleteRemoval
import Tabular.Proofs.AdmittedRows
import Tabular.Proofs.Refusals
import Tabular.Proofs.RegistrationOrder
import Tabular.Proofs.IndexNames
import Tabular.Proofs.YamlScalars
import Tabular.Proofs.YamlSteps
import Tabular.Proofs.YamlTexts
import Tabular.Proofs.YamlDocuments
import Tabular.Proofs.CatalogDocuments
import Tabular.Proofs.EncodedRows
import Tabular.Proofs.BoundValues
import Tabular.Proofs.AssignedKeys
import Tabular.Proofs.ReferredRows
import Tabular.Proofs.KeyedRows
import Tabular.Proofs.OrderedRows
import Tabular.Proofs.SelectedPages
import Tabular.Proofs.ListedValues
import Tabular.Proofs.FollowedReferences
import Tabular.Proofs.TextOrder
import Tabular.Proofs.Paths
import Tabular.Proofs.DirectoryCatalogs
import Tabular.Proofs.ReportedViolations
import Tabular.Proofs.TableTexts
import Tabular.Proofs.StoredTimes
import Tabular.Proofs.QuotedNames
import Tabular.Proofs.TypedReads
import Tabular.Proofs.AcceptedRows
import Tabular.Proofs.JsonGrammar
import Tabular.Proofs.RecordDocuments
