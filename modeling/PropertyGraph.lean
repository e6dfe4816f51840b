import PropertyGraph.Bytes.Basic
import PropertyGraph.Bytes.Cursor
import PropertyGraph.Bytes.Hex
import PropertyGraph.Bytes.Ordered
import PropertyGraph.Bytes.Utf8
import PropertyGraph.Cache.Expiring
import PropertyGraph.Cache.Metrics
import PropertyGraph.Cache.Options
import PropertyGraph.Cache.StoreCache
import PropertyGraph.Cache.Transaction
import PropertyGraph.Config
import PropertyGraph.Double.Basic
import PropertyGraph.Double.Decimal
import PropertyGraph.Double.Range
import PropertyGraph.Fault
import PropertyGraph.Json.Basic
import PropertyGraph.Json.Reader
import PropertyGraph.Json.Shape
import PropertyGraph.Json.Text
import PropertyGraph.Numeral
import PropertyGraph.Query.Answer
import PropertyGraph.Query.Condition
import PropertyGraph.Query.Constraints
import PropertyGraph.Query.Container
import PropertyGraph.Query.Form
import PropertyGraph.Query.IndexChoice
import PropertyGraph.Query.Interval
import PropertyGraph.Query.Limits
import PropertyGraph.Query.Plan
import PropertyGraph.Query.Predicate
import PropertyGraph.Query.Score
import PropertyGraph.Query.Value
import PropertyGraph.Relation.Basic
import PropertyGraph.Relation.Column
import PropertyGraph.Relation.Form
import PropertyGraph.Relation.StoredValue
import PropertyGraph.Relation.TypeSlice
import PropertyGraph.Schema.Catalog
import PropertyGraph.Schema.Definition
import PropertyGraph.Schema.Form
import PropertyGraph.Schema.GraphIndex
import PropertyGraph.Schema.LazyScript
import PropertyGraph.Schema.LazySlot
import PropertyGraph.Schema.Registry
import PropertyGraph.Schema.RelationType
import PropertyGraph.Schema.Row
import PropertyGraph.Schema.RowJson
import PropertyGraph.Schema.Stored
import PropertyGraph.Schema.Vertex
import PropertyGraph.Schema.Vocabulary
import PropertyGraph.Sorted
import PropertyGraph.Store.Backend
import PropertyGraph.Store.Entry
import PropertyGraph.Store.Mutation
import PropertyGraph.Store.Retry
import PropertyGraph.Store.Slice
import PropertyGraph.Store.Table
import PropertyGraph.Sums
import PropertyGraph.Text.Alphanumeric
import PropertyGraph.Text.Blank
import PropertyGraph.Text.CharRange
import PropertyGraph.Text.Lowercase
import PropertyGraph.Text.Quoted
import PropertyGraph.Text.Words
import PropertyGraph.Toml.Basic
import PropertyGraph.Toml.Lexical
import PropertyGraph.Toml.Moment
import PropertyGraph.Toml.Number
import PropertyGraph.Toml.Reader
import PropertyGraph.Toml.Text
import PropertyGraph.Toml.Value
import PropertyGraph.Proofs.Lookups
import PropertyGraph.Proofs.Batches
import PropertyGraph.Proofs.HeldWrites
import PropertyGraph.Proofs.Flushing
import PropertyGraph.Proofs.Coherence
import PropertyGraph.Proofs.CachedReads
import PropertyGraph.Proofs.Sessions
import PropertyGraph.Proofs.Storages
import PropertyGraph.Proofs.FreshReads
import PropertyGraph.Proofs.BufferedWriting
import PropertyGraph.Proofs.Generations
import PropertyGraph.Proofs.LateFills
import PropertyGraph.Proofs.ByteOrder
import PropertyGraph.Proofs.OrderedForms
import PropertyGraph.Proofs.Columns
import PropertyGraph.Proofs.SliceBounds
import PropertyGraph.Proofs.TypeSlices
import PropertyGraph.Proofs.Intervals
import PropertyGraph.Proofs.Conditions
import PropertyGraph.Proofs.Expansion
import PropertyGraph.Proofs.Plans
import PropertyGraph.Proofs.Filtering
import PropertyGraph.Proofs.Readings
import PropertyGraph.Proofs.LazySlots
import PropertyGraph.Proofs.Cursors
import PropertyGraph.Proofs.StoredRelations
import PropertyGraph.Proofs.DerivedTypes
import PropertyGraph.Proofs.KeptTypes
import PropertyGraph.Proofs.StaleTypes
import PropertyGraph.Proofs.JsonForms
import PropertyGraph.Proofs.SchemaForms
import PropertyGraph.Proofs.SortedLists
import PropertyGraph.Proofs.SchemaRows
import PropertyGraph.Proofs.SchemaTables
import PropertyGraph.Proofs.SteadySessions
import PropertyGraph.Proofs.StoredSchemas
import PropertyGraph.Proofs.SliceIndex
import PropertyGraph.Proofs.ServedSlices
import PropertyGraph.Proofs.FailedFlushes
import PropertyGraph.Proofs.UnflushedSchemas
import PropertyGraph.Proofs.SortedReadings
import PropertyGraph.Proofs.ValidQueries
import PropertyGraph.Proofs.Directions
import PropertyGraph.Proofs.IndexObjects
import PropertyGraph.Proofs.TrackedIndexes
import PropertyGraph.Proofs.FreshAnswers
import PropertyGraph.Proofs.ResetCaches
import PropertyGraph.Proofs.ValueTuples
import PropertyGraph.Proofs.ColumnIdentity
import PropertyGraph.Proofs.ConditionOrder
import PropertyGraph.Proofs.AlikePlans
import PropertyGraph.Proofs.Registration
import PropertyGraph.Proofs.SliceRuns
import PropertyGraph.Proofs.ByteAccounts
import PropertyGraph.Proofs.CleanupRounds
import PropertyGraph.Proofs.ReadRequests
import PropertyGraph.Proofs.StorageRuns
import PropertyGraph.Proofs.BoundedStaleness
import PropertyGraph.Proofs.LastingHits
import PropertyGraph.Proofs.FlushBatches
import PropertyGraph.Proofs.RefusedReads
import PropertyGraph.Proofs.FailedReads
import PropertyGraph.Proofs.MissCounts
import PropertyGraph.Proofs.FieldEdges
import PropertyGraph.Proofs.FieldPositions
import PropertyGraph.Proofs.IndexCovers
import PropertyGraph.Proofs.SteadyIndexes
import PropertyGraph.Proofs.SchemaNames
import PropertyGraph.Proofs.IndexOffers
import PropertyGraph.Proofs.BestIndexes
import PropertyGraph.Proofs.AnsweringIndexes
import PropertyGraph.Proofs.IndexFields
import PropertyGraph.Proofs.ReplayedTables
import PropertyGraph.Proofs.RewrittenRows
import PropertyGraph.Proofs.BoundedRetries
import PropertyGraph.Proofs.TomlForms
import PropertyGraph.Proofs.WrittenConfigs
import PropertyGraph.Proofs.MutationActions
import PropertyGraph.Proofs.NestedSlots
import PropertyGraph.Proofs.IntervalAlgebra
import PropertyGraph.Proofs.PrefixBounds
import PropertyGraph.Proofs.WrittenTexts
import PropertyGraph.Proofs.WidenedLimits
import PropertyGraph.Proofs.TomlGrammar
