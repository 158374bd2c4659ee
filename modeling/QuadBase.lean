import QuadBase.Code.Basic
import QuadBase.Code.Packing
import QuadBase.Dictionary.Arena
import QuadBase.Dictionary.Basic
import QuadBase.Dictionary.Cache
import QuadBase.Dictionary.Calls
import QuadBase.Dictionary.Config
import QuadBase.Dictionary.Error
import QuadBase.Dictionary.Quads
import QuadBase.Dictionary.Record
import QuadBase.Dictionary.Records
import QuadBase.Dictionary.Registry
import QuadBase.Dictionary.Stats
import QuadBase.Dictionary.Vocabulary
import QuadBase.Index.Probing
import QuadBase.Proofs.Code.Calendars
import QuadBase.Proofs.Code.Canonical
import QuadBase.Proofs.Code.Decimals
import QuadBase.Proofs.Code.Integers
import QuadBase.Proofs.Code.Packing
import QuadBase.Proofs.Code.ValueTypes
import QuadBase.Proofs.Dictionary.Ancestry
import QuadBase.Proofs.Dictionary.Arena
import QuadBase.Proofs.Dictionary.ArenaRow
import QuadBase.Proofs.Dictionary.Cache
import QuadBase.Proofs.Dictionary.Canonical
import QuadBase.Proofs.Dictionary.Classification
import QuadBase.Proofs.Dictionary.Codes
import QuadBase.Proofs.Dictionary.Decomposition
import QuadBase.Proofs.Dictionary.DirectMapped
import QuadBase.Proofs.Dictionary.Exhaustion
import QuadBase.Proofs.Dictionary.Foreign
import QuadBase.Proofs.Dictionary.Interning
import QuadBase.Proofs.Dictionary.Issuing
import QuadBase.Proofs.Dictionary.Keys
import QuadBase.Proofs.Dictionary.Layout
import QuadBase.Proofs.Dictionary.Lookup
import QuadBase.Proofs.Dictionary.Metering
import QuadBase.Proofs.Dictionary.Permanence
import QuadBase.Proofs.Dictionary.RecordCodec
import QuadBase.Proofs.Dictionary.Records
import QuadBase.Proofs.Dictionary.Refusals
import QuadBase.Proofs.Dictionary.Replies
import QuadBase.Proofs.Dictionary.Tiling
import QuadBase.Proofs.Dictionary.Tuning
import QuadBase.Proofs.Dictionary.Vocabulary
import QuadBase.Proofs.Dictionary.Words
import QuadBase.Proofs.Index.Checked
import QuadBase.Proofs.Index.Ending
import QuadBase.Proofs.Index.Filling
import QuadBase.Proofs.Index.Growing
import QuadBase.Proofs.Index.Searching
import QuadBase.Proofs.Rdf.Iri
import QuadBase.Proofs.Store.Access
import QuadBase.Proofs.Store.Affording
import QuadBase.Proofs.Store.Audit
import QuadBase.Proofs.Store.AuditSound
import QuadBase.Proofs.Store.Chains
import QuadBase.Proofs.Store.CheckedQueries
import QuadBase.Proofs.Store.CheckedStatements
import QuadBase.Proofs.Store.CheckedStore
import QuadBase.Proofs.Store.CheckedTerms
import QuadBase.Proofs.Store.Contents
import QuadBase.Proofs.Store.Cursors
import QuadBase.Proofs.Store.Edits
import QuadBase.Proofs.Store.Elementary
import QuadBase.Proofs.Store.EstimateBounds
import QuadBase.Proofs.Store.Estimates
import QuadBase.Proofs.Store.Filtering
import QuadBase.Proofs.Store.Growth
import QuadBase.Proofs.Store.Handles
import QuadBase.Proofs.Store.History
import QuadBase.Proofs.Store.Insertion
import QuadBase.Proofs.Store.Iteration
import QuadBase.Proofs.Store.Peak
import QuadBase.Proofs.Store.Projections
import QuadBase.Proofs.Store.Queries
import QuadBase.Proofs.Store.Reachable
import QuadBase.Proofs.Store.Refinement
import QuadBase.Proofs.Store.Removal
import QuadBase.Proofs.Store.Statements
import QuadBase.Proofs.Store.Sweep
import QuadBase.Proofs.Store.SweptChains
import QuadBase.Proofs.Store.TermSlots
import QuadBase.Proofs.Store.Terms
import QuadBase.Proofs.Store.Trails
import QuadBase.Proofs.Store.Turnover
import QuadBase.Proofs.Stream.Loading
import QuadBase.Proofs.Stream.Pipeline
import QuadBase.Proofs.Stream.QuadCodes
import QuadBase.Proofs.Tables
import QuadBase.Proofs.Value.BinaryFloat
import QuadBase.Proofs.Value.Calendar
import QuadBase.Proofs.Value.CalendarLabels
import QuadBase.Proofs.Value.FewestDigits
import QuadBase.Proofs.Value.FloatLabels
import QuadBase.Proofs.Value.Positional
import QuadBase.Proofs.Value.Rounding
import QuadBase.Proofs.Value.Shortest
import QuadBase.Proofs.Value.Spelling
import QuadBase.Rdf.Iri
import QuadBase.Rdf.Quad
import QuadBase.Rdf.Term
import QuadBase.Store.Audit
import QuadBase.Store.Basic
import QuadBase.Store.Cursor
import QuadBase.Store.Error
import QuadBase.Store.PerPosition
import QuadBase.Store.Plan
import QuadBase.Store.Query
import QuadBase.Store.Report
import QuadBase.Store.Statements
import QuadBase.Store.Terms
import QuadBase.Stream.Coding
import QuadBase.Stream.Handler
import QuadBase.Stream.Loader
import QuadBase.Text.Escape
import QuadBase.Text.Hash
import QuadBase.Text.Hex
import QuadBase.Text.Hidden
import QuadBase.Text.Quoted
import QuadBase.Value.BinaryFloat
import QuadBase.Value.Calendar
import QuadBase.Value.Decimal
import QuadBase.Value.Integer
import QuadBase.Value.Numeral
import QuadBase.Value.Positional
import QuadBase.Value.Shortest
