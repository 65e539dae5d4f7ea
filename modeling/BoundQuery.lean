import BoundQuery.Text.Blank
import BoundQuery.Text.Numeral
import BoundQuery.Text.Cut
import BoundQuery.Bytes
import BoundQuery.Number.Decimal
import BoundQuery.Json.Printer
import BoundQuery.Json.Reader
import BoundQuery.Operator
import BoundQuery.Identifier
import BoundQuery.Value
import BoundQuery.Row
import BoundQuery.Placeholder
import BoundQuery.Registry
import BoundQuery.Query.Call
import BoundQuery.Recorder
import BoundQuery.Page.Paginate
import BoundQuery.Calendar.Reader
import BoundQuery.Uuid
import BoundQuery.Toml.Reader
import BoundQuery.Connection.Settings
import BoundQuery.Postgres.Encode
import BoundQuery.Postgres.Decode
import BoundQuery.Mysql.Encode
import BoundQuery.Mysql.Decode
import BoundQuery.Connection.Session
import BoundQuery.Proofs.Query.Text
import BoundQuery.Proofs.Query.Binding
import BoundQuery.Proofs.Query.Insert
import BoundQuery.Proofs.Query.Noninterference
import BoundQuery.Proofs.Condition
import BoundQuery.Proofs.Watched
import BoundQuery.Proofs.Page.Runs
import BoundQuery.Proofs.Page.Narrowing
import BoundQuery.Proofs.Query.Records
import BoundQuery.Proofs.Layout
import BoundQuery.Proofs.Disturbance
import BoundQuery.Proofs.Query.Undisturbed
import BoundQuery.Proofs.Operation
import BoundQuery.Proofs.Refused
import BoundQuery.Proofs.Dispatch
import BoundQuery.Proofs.Session
import BoundQuery.Proofs.World
import BoundQuery.Proofs.Parameters
import BoundQuery.Proofs.Query.Independence
import BoundQuery.Proofs.Page.Counting
import BoundQuery.Proofs.Page.Steering
import BoundQuery.Proofs.Tokens
import BoundQuery.Proofs.Rewriting
import BoundQuery.Proofs.Query.Dialects
import BoundQuery.Proofs.Numeral
import BoundQuery.Proofs.Bytes
import BoundQuery.Proofs.Denotation
import BoundQuery.Proofs.Postgres.Integers
import BoundQuery.Proofs.Postgres.Spelling
import BoundQuery.Proofs.Page.Arithmetic
import BoundQuery.Proofs.Conversion
import BoundQuery.Proofs.Json.Literal
import BoundQuery.Proofs.Page.Numbers
import BoundQuery.Proofs.Query.Paging
import BoundQuery.Proofs.Escaping
import BoundQuery.Proofs.Words
import BoundQuery.Proofs.Vocabulary
import BoundQuery.Proofs.Query.Unambiguous
import BoundQuery.Proofs.Number.Widening
import BoundQuery.Proofs.Postgres.Nulls
import BoundQuery.Proofs.Freshness
import BoundQuery.Proofs.Cutting
