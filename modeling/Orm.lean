import Orm.Bytes
import Orm.Calendar.Date
import Orm.Calendar.DateTime
import Orm.Calendar.Reading
import Orm.Connection
import Orm.Derive.Declaration
import Orm.Derive.Expansion
import Orm.Derive.Options
import Orm.Derive.Role
import Orm.Derive.Token
import Orm.Derive.Type
import Orm.Derive.Writing
import Orm.Dialect
import Orm.Error
import Orm.Executor
import Orm.Expression
import Orm.Expression.Columns
import Orm.Expression.Writing
import Orm.Instance
import Orm.Json.Basic
import Orm.Json.Reading
import Orm.Json.Skipping
import Orm.Json.Writing
import Orm.Log
import Orm.Lookup
import Orm.Number.Binary
import Orm.Number.Decimal
import Orm.Number.Fixed
import Orm.Number.Integer
import Orm.Number.Notation
import Orm.Number.Shortest
import Orm.Plan
import Orm.Postgres.Binding
import Orm.Postgres.Format
import Orm.Postgres.Pool
import Orm.Proofs.Alike.Alone
import Orm.Proofs.Alike.Anywhere
import Orm.Proofs.Alike.Basic
import Orm.Proofs.Alike.Compile
import Orm.Proofs.Alike.Query
import Orm.Proofs.Alike.Rows
import Orm.Proofs.Alike.Saved
import Orm.Proofs.Alike.Values
import Orm.Proofs.Building
import Orm.Proofs.Calendar.Days
import Orm.Proofs.Calendar.Reading
import Orm.Proofs.Cancellation.Final
import Orm.Proofs.Cancellation.Script
import Orm.Proofs.Cancellation.Session
import Orm.Proofs.Chronology.Order
import Orm.Proofs.Chronology.Stored
import Orm.Proofs.Chronology.Text
import Orm.Proofs.Count.Answers
import Orm.Proofs.Count.Final
import Orm.Proofs.Count.Keys
import Orm.Proofs.Count.Places
import Orm.Proofs.Count.Routes
import Orm.Proofs.Count.Rows
import Orm.Proofs.Count.Tables
import Orm.Proofs.Demand
import Orm.Proofs.Derive.Definition
import Orm.Proofs.Derive.Dispatch
import Orm.Proofs.Derive.Inference
import Orm.Proofs.Derive.Wrapper
import Orm.Proofs.Fault.Basic
import Orm.Proofs.Fault.Instance
import Orm.Proofs.Fault.Materialize
import Orm.Proofs.Fault.Tree
import Orm.Proofs.First
import Orm.Proofs.Hooks.Block
import Orm.Proofs.Hooks.Filling
import Orm.Proofs.Hooks.Final
import Orm.Proofs.Hooks.Verb
import Orm.Proofs.Insertion.Answer
import Orm.Proofs.Insertion.Generated
import Orm.Proofs.Insertion.Refusal
import Orm.Proofs.Insertion.Settled
import Orm.Proofs.Instance
import Orm.Proofs.KeyGrammar
import Orm.Proofs.Keys.Row
import Orm.Proofs.Keys.Select
import Orm.Proofs.Keys.Writing
import Orm.Proofs.Legible.Calendar
import Orm.Proofs.Legible.Digits
import Orm.Proofs.Legible.Document
import Orm.Proofs.Legible.Key
import Orm.Proofs.Mistake
import Orm.Proofs.Mutation
import Orm.Proofs.Number.Numeral
import Orm.Proofs.Number.Single
import Orm.Proofs.Outcome
import Orm.Proofs.Paging
import Orm.Proofs.Paired
import Orm.Proofs.Path
import Orm.Proofs.Pattern.Literal
import Orm.Proofs.Pattern.Operand
import Orm.Proofs.Place.Alias
import Orm.Proofs.Place.Columns
import Orm.Proofs.Place.Edge
import Orm.Proofs.Place.Explicit
import Orm.Proofs.Place.Joined
import Orm.Proofs.Place.Node
import Orm.Proofs.Place.Ordinal
import Orm.Proofs.Place.Planning
import Orm.Proofs.Place.Projection
import Orm.Proofs.Place.Query
import Orm.Proofs.Place.Repeat
import Orm.Proofs.Place.Scope
import Orm.Proofs.Place.Visit
import Orm.Proofs.Place.WellFormed
import Orm.Proofs.Placeholder.Numbering
import Orm.Proofs.Placeholder.Reading
import Orm.Proofs.Placeholder.Writing
import Orm.Proofs.Postgres.Agreement
import Orm.Proofs.Postgres.Layout
import Orm.Proofs.Postgres.Numeric
import Orm.Proofs.Predicate.Algebra
import Orm.Proofs.Predicate.Conjunction
import Orm.Proofs.Predicate.Reading
import Orm.Proofs.Predicate.Shape
import Orm.Proofs.Predicate.Verdict
import Orm.Proofs.Predicate.Writing
import Orm.Proofs.Presence.Hanging
import Orm.Proofs.Presence.Row
import Orm.Proofs.Presence.Select
import Orm.Proofs.Resolved
import Orm.Proofs.Resolving
import Orm.Proofs.Scope.Advance
import Orm.Proofs.Scope.Declared
import Orm.Proofs.Scope.Inner
import Orm.Proofs.Scope.Invariant
import Orm.Proofs.Scope.Kind
import Orm.Proofs.Scope.Nested
import Orm.Proofs.Scope.Qualified
import Orm.Proofs.Script.Course
import Orm.Proofs.Script.Performs
import Orm.Proofs.Script.Silent
import Orm.Proofs.Script.Steps
import Orm.Proofs.Script.Verb
import Orm.Proofs.Segments
import Orm.Proofs.Settings.Layers
import Orm.Proofs.Settings.Merge
import Orm.Proofs.Settings.Reading
import Orm.Proofs.Signal.History
import Orm.Proofs.Signal.Program
import Orm.Proofs.Span
import Orm.Proofs.Spelling.Dialects
import Orm.Proofs.Spelling.Names
import Orm.Proofs.Spelling.Quoted
import Orm.Proofs.Statement
import Orm.Proofs.Storage
import Orm.Proofs.Substitution
import Orm.Proofs.Transaction
import Orm.Proofs.Tree.Apart
import Orm.Proofs.Tree.Attach
import Orm.Proofs.Tree.First
import Orm.Proofs.Tree.Marked
import Orm.Proofs.Tree.Materialize
import Orm.Proofs.Tree.Merge
import Orm.Proofs.Tree.Row
import Orm.Proofs.Values.Accepted
import Orm.Proofs.Values.Columns
import Orm.Proofs.Verb
import Orm.Row
import Orm.Sample
import Orm.Scan
import Orm.Scan.Tree
import Orm.Schema.Alias
import Orm.Schema.Field
import Orm.Schema.FieldType
import Orm.Schema.Model
import Orm.Schema.Path
import Orm.Scope
import Orm.Settings
import Orm.Settings.Loading
import Orm.Signal
import Orm.Sql
import Orm.Sqlite
import Orm.Statement.Select
import Orm.Statement.Write
import Orm.Text.Lower
import Orm.Text.Name
import Orm.Text.Quoted
import Orm.Text.Words
import Orm.Toml.Reading
import Orm.Toml.Table
import Orm.Transaction
import Orm.Uuid
import Orm.Value.Basic
import Orm.Value.Coerce
import Orm.Value.ScalarType
import Orm.Value.Tagged
import Orm.Value.Text
import Orm.Verb.Reading
import Orm.Verb.Writing
