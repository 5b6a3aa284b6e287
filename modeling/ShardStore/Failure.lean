/-!
# Failures

Every way in which an operation can fail, as a cause with its data, and
one wording for each cause. A failure inside another keeps the inner
cause, so that the wording of a nested failure is built from its parts.
-/

namespace ShardStore

/-- Why a JSON text was not read as a value of the expected form: it is no
JSON, it ends early, or it is JSON of another form. -/
inductive JsonProblem where
  | malformed
  | truncated
  | misshapen
deriving DecidableEq, Repr

namespace JsonProblem

/-- The wording of a problem. -/
def message : JsonProblem → String
  | malformed => "not a JSON text"
  | truncated => "the text ends early"
  | misshapen => "a value of another form was expected"

end JsonProblem

/-- Why a file operation was refused. -/
inductive DiskError where
  | notFound
  | notDirectory
  | isDirectory
  | alreadyExists
  | nameTooLong
  | tooManyLinks
  | invalidName
  | notText
deriving DecidableEq, Repr

namespace DiskError

/-- The wording of a refused file operation. -/
def message : DiskError → String
  | notFound => "No such file or directory (os error 2)"
  | notDirectory => "Not a directory (os error 20)"
  | isDirectory => "Is a directory (os error 21)"
  | alreadyExists => "File exists (os error 17)"
  | nameTooLong => "File name too long (os error 36)"
  | tooManyLinks => "Too many levels of symbolic links (os error 40)"
  | invalidName => "file name contained an unexpected NUL byte"
  | notText => "stream did not contain valid UTF-8"

end DiskError

/-- Why a text is no statement. -/
inductive StatementError where
  | unsupported (text : String)
  | trailing (rest : String)
  | countMismatch (columns values : Nat)
deriving DecidableEq, Repr

namespace StatementError

/-- The wording of a refused statement. -/
def message : StatementError → String
  | unsupported text => s!"Unsupported statement: {text}"
  | trailing rest => "Unexpected input after statement: '" ++ rest ++ "'"
  | countMismatch columns values =>
    s!"Column list has {columns} entries but value list has {values}"

end StatementError

/-- Why a condition was not compiled or not evaluated. -/
inductive ConditionError where
  | unknownColumn (column : String)
  | malformed (text : String)
deriving DecidableEq, Repr

namespace ConditionError

/-- The wording of a refused condition. -/
def message : ConditionError → String
  | unknownColumn column => "Column '" ++ column ++ "' not found"
  | malformed text =>
    "Malformed condition '" ++ text ++ "': expected `<column> <operator> <literal>`"

end ConditionError

/-- Why a document was not stored or not loaded. -/
inductive StorageError where
  | disk (cause : DiskError)
  | writesDisabled
  | unreadable (problem : JsonProblem)
deriving DecidableEq, Repr

namespace StorageError

/-- The wording of a storage failure. -/
def message : StorageError → String
  | disk cause => "File system error: " ++ cause.message
  | writesDisabled => "File system error: writes disabled"
  | unreadable problem => "Serialization error: " ++ problem.message

end StorageError

/-- Why a statement or a split was not carried out. -/
inductive ExecutionError where
  | unknownTable (table : String)
  | tableExists (table : String)
  | unknownColumn (table column : String)
  | repeatedColumn (column : String)
  | countMismatch (columns values : Nat)
  | badIdentifier (name : String)
  | zeroShardSize
  | emptyGroup (index : Nat)
  | condition (cause : ConditionError)
  | storage (cause : StorageError)
deriving DecidableEq, Repr

namespace ExecutionError

/-- The wording of a failed execution. -/
def message : ExecutionError → String
  | unknownTable table => "Table '" ++ table ++ "' not found"
  | tableExists table => "Table '" ++ table ++ "' already exists"
  | unknownColumn table column => "Column '" ++ column ++ "' not found in table '" ++ table ++ "'"
  | repeatedColumn column => "Column '" ++ column ++ "' is listed more than once"
  | countMismatch columns values => s!"Invalid column count: {columns} columns, {values} values"
  | badIdentifier name => "'" ++ name ++ "' is not a valid identifier"
  | zeroShardSize => "Shard size must be a positive integer"
  | emptyGroup index => s!"Column group {index} is empty"
  | condition cause => cause.message
  | storage cause => cause.message

end ExecutionError

/-- Why the settings were refused. -/
inductive SettingsError where
  | unreadable (path : String) (cause : DiskError)
  | invalid (problem : JsonProblem)
  | sizeNotNumber (text : String)
  | zeroShardSize
deriving DecidableEq, Repr

namespace SettingsError

/-- The wording of refused settings. -/
def message : SettingsError → String
  | unreadable path cause => s!"cannot read {path}: " ++ cause.message
  | invalid problem => "invalid config: " ++ problem.message
  | sizeNotNumber text => s!"SCALEDB_SHARD_SIZE is not a number: {text}"
  | zeroShardSize => "default_shard_size must be positive"

end SettingsError

/-- Any failure of a database operation. -/
inductive DatabaseError where
  | statement (cause : StatementError)
  | execution (cause : ExecutionError)
  | storage (cause : StorageError)
  | settings (cause : SettingsError)
deriving DecidableEq, Repr

namespace DatabaseError

/-- The wording of a failure, led by the area it belongs to. -/
def message : DatabaseError → String
  | statement cause => "Parse error: " ++ cause.message
  | execution cause => "Execution error: " ++ cause.message
  | storage cause => "Storage error: " ++ cause.message
  | settings cause => "Configuration error: " ++ cause.message

/-- Whether the failure is that of a table that is not loaded. -/
def isUnknownTable : DatabaseError → Bool
  | execution (.unknownTable _) => true
  | _ => false

end DatabaseError

end ShardStore
