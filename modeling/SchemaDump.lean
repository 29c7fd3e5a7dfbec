import SchemaDump.Catalog.Builder
import SchemaDump.Main
import SchemaDump.Text.Offset
import SchemaDump.Proofs.Dump.Append
import SchemaDump.Proofs.Dump.Exclusion
import SchemaDump.Proofs.Dump.FunctionBody
import SchemaDump.Proofs.Dump.Segmentation
import SchemaDump.Proofs.Dump.Directive
import SchemaDump.Proofs.Dump.Replay
import SchemaDump.Proofs.Dump.RoundTrip
import SchemaDump.Proofs.Statement.InlineConstraint
import SchemaDump.Proofs.Dump.Comment
import SchemaDump.Proofs.Statement.Heading
import SchemaDump.Proofs.Statement.Names
import SchemaDump.Proofs.Statement.SchemaWord
import SchemaDump.Proofs.Statement.Qualified
import SchemaDump.Proofs.Catalog.Lookup
import SchemaDump.Proofs.Dump.Coherence
import SchemaDump.Proofs.CommandLine.Run
import SchemaDump.Proofs.Statement.DefaultText
import SchemaDump.Proofs.Statement.ColumnBody
import SchemaDump.Proofs.Statement.NestedText
import SchemaDump.Proofs.Statement.IndexEntries
import SchemaDump.Proofs.Statement.Inheritance
import SchemaDump.Proofs.Statement.ColumnWord
import SchemaDump.Proofs.Statement.SequenceOptions
import SchemaDump.Proofs.Statement.ForeignKeyClause
import SchemaDump.Proofs.Statement.TableTail
import SchemaDump.Proofs.Statement.EnumLabels
import SchemaDump.Proofs.FirstPair
import SchemaDump.Proofs.Dump.SourceVersion
import SchemaDump.Proofs.Dump.DefaultSchema
import SchemaDump.Proofs.Statement.RuleAction
import SchemaDump.Proofs.Pieces
import SchemaDump.Proofs.QuotedForms
import SchemaDump.Proofs.Statement.ClauseCuts
import SchemaDump.Proofs.Statement.ByteBody
import SchemaDump.Proofs.Statement.UnderstoodKeywords
