/-!
Causes that stop linking, schema generation and the compilation of operations, with their messages.
-/
namespace EntitySql

/-- Why metadata cannot be compiled. -/
inductive CompileError where
  | unresolvedReference (table target via : String)
  | unresolvedColumn (table target column : String)
  | ambiguousJoinSpecifier (table column : String)
  | missingJoinSpecifier (table column : String)
  | foreignKeyTargetIsView (table column view : String)
  | dependencyCycle (path : List String)
  | duplicateTable (table : String)
  | duplicateColumn (table column : String)
  | emptyView (view : String)
  | viewColumnNotFound (view field : String)
  | unsupportedColumnType (table column reason : String)
  | columnNotFound (table operation field : String)
  | typeMismatch (table operation parameter column expected found : String)
  | unsupportedReturnShape (table operation reason : String)
  | conflictingFieldAndTargets (operation parameter : String)
  | ignoreCaseOnNonString (operation parameter : String)
  | multipleColumnsForSingleValue (operation parameter : String)
  | undefinedSqlParameter (operation parameter : String)
  | entityParameterMixed (operation parameter : String)
  | emptyUpdate (table operation : String)
  deriving DecidableEq, Repr, Inhabited

def CompileError.message : CompileError → String
  | unresolvedReference table target via =>
    "Table '" ++ table ++ "' references unknown table '" ++ target ++ "' (" ++ via ++ ")"
  | unresolvedColumn table target column =>
    "Column '" ++ column ++ "' does not exist in table '" ++ target ++ "' (referenced from '" ++ table ++ "')"
  | ambiguousJoinSpecifier table column =>
    "Join column '" ++ column ++ "' on '" ++ table ++ "' names both a referenced column and a referenced field"
  | missingJoinSpecifier table column =>
    "Join column '" ++ column ++ "' on '" ++ table ++ "' names neither a referenced column nor a referenced field"
  | foreignKeyTargetIsView table column view =>
    "Foreign key '" ++ column ++ "' on table '" ++ table ++ "' targets view '" ++ view ++ "'"
  | dependencyCycle path => "Dependency cycle: " ++ " -> ".intercalate path
  | duplicateTable table => "Table '" ++ table ++ "' is declared more than once"
  | duplicateColumn table column => "Duplicate column '" ++ column ++ "' in table '" ++ table ++ "'"
  | emptyView view => "View '" ++ view ++ "' has no base table or no columns"
  | viewColumnNotFound view field =>
    "Column '" ++ field ++ "' of view '" ++ view ++ "' not found on its base table or joined tables"
  | unsupportedColumnType table column reason =>
    "Unsupported type for column '" ++ column ++ "' in table '" ++ table ++ "': " ++ reason
  | columnNotFound table operation field => table ++ "." ++ operation ++ ": column '" ++ field ++ "' not found"
  | typeMismatch table operation parameter column expected found =>
    table ++ "." ++ operation ++ ": parameter '" ++ parameter ++ "' is " ++ found ++ " but column '" ++ column ++
      "' is " ++ expected
  | unsupportedReturnShape table operation reason =>
    table ++ "." ++ operation ++ ": unsupported return shape: " ++ reason
  | conflictingFieldAndTargets operation parameter =>
    operation ++ ": parameter '" ++ parameter ++
      "' combines a field alias with where targets, operator or ignore-case"
  | ignoreCaseOnNonString operation parameter =>
    operation ++ ": ignore-case on non-string parameter '" ++ parameter ++ "'"
  | multipleColumnsForSingleValue operation parameter =>
    operation ++ ": update value '" ++ parameter ++ "' is bound to more than one column"
  | undefinedSqlParameter operation parameter =>
    operation ++ ": raw SQL references undefined parameter ':" ++ parameter ++ "'"
  | entityParameterMixed operation parameter =>
    operation ++ ": entity parameter '" ++ parameter ++ "' cannot be combined with other parameters"
  | emptyUpdate table operation => table ++ "." ++ operation ++ ": update has no values to set"

end EntitySql
