import SchemaCatalog.Field

/-! The columns of descriptions and listings, and the fields that head them. -/

namespace SchemaCatalog.Describe

def fullColumns : List String :=
  ["Field", "Type", "Collation", "Null", "Key", "Default", "Extra", "Privileges", "Comment"]

def columns : List String :=
  ["Field", "Type", "Null", "Key", "Default", "Extra"]

def tableColumns : List String :=
  ["Table", "Table_Type"]

def variableColumns : List String :=
  ["Variable_name", "Value"]

def databaseColumns : List String :=
  ["Database"]

def indexColumns : List String :=
  ["Table", "Non_unique", "Key_name", "Seq_in_index", "Column_name", "Collation", "Cardinality",
    "Sub_part", "Packed", "Null", "Index_type", "Index_comment"]

def header (name : String) (size : Nat) (description : String) : Field :=
  .base name .string size description

def fullHeaders : List Field := [
  header "Field" 255 "COLUMN_NAME",
  header "Type" 32 "COLUMN_TYPE",
  header "Collation" 32 "COLUMN_COLLATION",
  header "Null" 4 "IS_NULLABLE",
  header "Key" 64 "COLUMN_KEY",
  header "Default" 32 "COLUMN_DEFAULT",
  header "Extra" 255 "",
  header "Privileges" 255 "",
  header "Comment" 255 ""]

def headers : List Field := [
  header "Field" 255 "COLUMN_NAME",
  header "Type" 32 "COLUMN_TYPE",
  header "Null" 4 "IS_NULLABLE",
  header "Key" 64 "COLUMN_KEY",
  header "Default" 32 "COLUMN_DEFAULT",
  header "Extra" 255 ""]

theorem fullHeaders_names : fullHeaders.map (·.name) = fullColumns := rfl

theorem headers_names : headers.map (·.name) = columns := rfl

end SchemaCatalog.Describe
