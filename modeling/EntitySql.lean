import EntitySql.Fragment.Token
import EntitySql.Main
import EntitySql.Proofs.Ids.Run
import EntitySql.Proofs.Ids.Increase
import EntitySql.Proofs.Ids.Fields
import EntitySql.Proofs.Ids.Minted
import EntitySql.Proofs.Ids.Halting
import EntitySql.Proofs.Ids.Numbering
import EntitySql.Proofs.Query.Resolved
import EntitySql.Proofs.Query.Rendered
import EntitySql.Proofs.Query.Collected
import EntitySql.Proofs.Query.Built
import EntitySql.Proofs.Query.Written
import EntitySql.Proofs.Query.Planned
import EntitySql.Proofs.Query.Slots
import EntitySql.Proofs.Query.Pieces
import EntitySql.Proofs.Query.Named
import EntitySql.Proofs.Query.Bindings
import EntitySql.Proofs.Query.Contract
import EntitySql.Proofs.Fragment.Segments
import EntitySql.Proofs.Query.Readable
import EntitySql.Proofs.Query.Placeholders
import EntitySql.Proofs.Ddl.Printed
import EntitySql.Proofs.Link.Order
import EntitySql.Proofs.Link.Cycle
import EntitySql.Proofs.Link.Accepted
import EntitySql.Proofs.Query.Acceptance
import EntitySql.Proofs.Query.Inserted
import EntitySql.Proofs.Query.Operands
import EntitySql.Proofs.Query.Where
import EntitySql.Proofs.Query.Origin
import EntitySql.Proofs.Query.Locals
import EntitySql.Proofs.Query.Supplied
import EntitySql.Proofs.Query.Stored
import EntitySql.Proofs.Query.NullSafe
import EntitySql.Proofs.Fragment.Parsed
import EntitySql.Proofs.Ddl.Created
import EntitySql.Proofs.Ddl.Joined
import EntitySql.Proofs.Text.Quoted
import EntitySql.Proofs.Sql.Signs
import EntitySql.Proofs.Sql.Reading
import EntitySql.Proofs.Sql.Nulls
import EntitySql.Proofs.Ddl.Names
import EntitySql.Proofs.Query.Alike
import EntitySql.Proofs.Query.Reselected
import EntitySql.Proofs.Query.Respelled
import EntitySql.Proofs.Query.Spelling
import EntitySql.Proofs.Json.Written
import EntitySql.Proofs.Json.Decoded
import EntitySql.Proofs.Schema.Encoded
import EntitySql.Proofs.Schema.RoundTrip
import EntitySql.Proofs.Ddl.Agreement
import EntitySql.Proofs.Query.Assigned
import EntitySql.Proofs.Query.Filtered
import EntitySql.Proofs.Query.Marshaled
import EntitySql.Proofs.Query.Places
import EntitySql.Proofs.Query.FirstUse
import EntitySql.Proofs.Link.TablesFirst
import EntitySql.Proofs.Link.Grouping
import EntitySql.Proofs.Ddl.ConstraintNames
import EntitySql.Proofs.Ddl.Composed
import EntitySql.Proofs.Fragment.Reparsed
import EntitySql.Proofs.Fragment.Comments
import EntitySql.Proofs.Fragment.Rules
import EntitySql.Proofs.Fragment.Tokens
import EntitySql.Proofs.Query.Dialects
import EntitySql.Proofs.Link.Renumbered
import EntitySql.Proofs.Ddl.Reordered
import EntitySql.Proofs.Fragment.Quoted
import EntitySql.Proofs.Ids.Waiting
import EntitySql.Proofs.Schema.Added
import EntitySql.Proofs.Link.ColumnNames
