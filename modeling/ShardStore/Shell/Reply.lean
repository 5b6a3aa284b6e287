import ShardStore.Failure
import ShardStore.Shell.Box
/-!
# Shell — replies

What the shell says, as a value, and the text of each reply. The time that
a selection took is no part of its reply; it is added when the reply is
written (`Reply.render`), so that equal runs give equal replies.
-/

namespace ShardStore

namespace Shell

/-- A loaded table in the list of tables. -/
structure TableEntry where
  name : String
  columns : Nat
  rows : Nat
deriving DecidableEq, Repr

/-- One thing that the shell says. -/
inductive Reply where
  | welcome (count : Nat)
  | prompt
  | farewell
  | inserted
  | noResults
  | results (columns : List String) (rows : List (List String))
  | scaledHorizontally (table : String) (shards : Nat)
  | scaledVertically (table : String) (partitions : Nat)
  | created (table : String)
  | noTables
  | tables (entries : List TableEntry)
  | help
  | unsupported
  | failed (cause : DatabaseError)
deriving DecidableEq, Repr

namespace Reply

/-- The lines of the help text. -/
def helpLines : List String :=
  ["🆘 scaledb help",
   "",
   "🔸 Statements:",
   "  SELECT col1, col2 FROM table [WHERE col <op> value]",
   "  SELECT * FROM table",
   "  INSERT INTO table (col1, col2) VALUES (v1, 'v 2')",
   "  Operators: =, !=, >, >=, <, <=",
   "",
   "🔸 Redistribution:",
   "  HORIZONTAL SCALING table [shard_size]",
   "  VERTICAL SCALING table col1,col2 col3 ...",
   "",
   "🔸 Meta commands:",
   "  .create table col1,col2,...  - create an empty table",
   "  .tables, .t                  - list tables",
   "  .help, .h                    - show this help",
   "  exit, .quit, .q              - quit"]

/-- The line of one table in the list of tables. -/
def entryLine (entry : TableEntry) : String :=
  "│ " ++ padRight 19 entry.name ++ " │ " ++ padLeft 7 (toString entry.columns) ++ " │ " ++
    padLeft 7 (toString entry.rows) ++ " │"

/-- The lines of a reply other than the prompt. The time is that of the
whole command, in microseconds. -/
def lines (micros : Nat) : Reply → List String
  | welcome count =>
    ["🚀 scaledb - sharding table store",
     "==================================",
     s!"📋 Tables loaded: {count}",
     "💡 Type '.help' for help, 'exit' to quit",
     ""]
  | prompt => []
  | farewell => ["👋 Bye!"]
  | inserted => ["Insert successful."]
  | noResults => ["No results found."]
  | results columns rows =>
    box columns rows ++ [s!"⏱️ {rows.length} row(s) in {micros}μs"]
  | scaledHorizontally table shards =>
    [s!"Table {table} scaled horizontally into {shards} shard(s)."]
  | scaledVertically table partitions =>
    [s!"Table {table} scaled vertically into {partitions} partition(s)."]
  | created table => [s!"Table {table} created."]
  | noTables => ["📋 No tables yet"]
  | tables entries =>
    ["┌─────────────────────┬─────────┬─────────┐",
     "│ Table               │ Columns │ Rows    │",
     "├─────────────────────┼─────────┼─────────┤"] ++
      entries.map entryLine ++
      ["└─────────────────────┴─────────┴─────────┘"]
  | help => helpLines
  | unsupported => ["Unsupported query."]
  | failed cause => ["Error: " ++ cause.message]

/-- The text of a reply. The prompt ends without a line break. -/
def render (micros : Nat) : Reply → String
  | prompt => "scaledb> "
  | reply => String.join ((reply.lines micros).map (· ++ "\n"))

end Reply

end Shell

end ShardStore
