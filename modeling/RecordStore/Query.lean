import RecordStore.Metadata

/-!
# Metadata queries

A query is one or more clauses joined by commas, each of the form `field:operator:value`. It asks
for the metadata that list every clause's field, with a value that stands in the clause's relation
to the operand. Texts are compared by code point.

Model of `MetadataQuery` with `Clause` and `Operator`, section 4.4 of the specification.

* `Operator.holds`: the seven relations.
* `Query.parse`: the only reader; it names the first clause that is malformed.
* `Clause.accepts`, `Query.accepts`: a field that is not listed satisfies nothing, not even `!=`.
-/

namespace RecordStore

namespace Text

/-- Whether the first list stands somewhere in the second without a gap. -/
def occursIn [BEq α] (run : List α) : List α → Bool
  | [] => run.isEmpty
  | x :: xs => run.isPrefixOf (x :: xs) || occursIn run xs

end Text

/-- How a listed value is compared with an operand. -/
inductive Operator where
  | greater
  | greaterEq
  | less
  | lessEq
  | equal
  | notEqual
  | contains
  deriving DecidableEq, Repr

namespace Operator

/-- The operator as written in queries. -/
def symbol : Operator → String
  | greater => ">"
  | greaterEq => ">="
  | less => "<"
  | lessEq => "<="
  | equal => "=="
  | notEqual => "!="
  | contains => "contains"

/-- Every operator. -/
def all : List Operator :=
  [greater, greaterEq, less, lessEq, equal, notEqual, contains]

/-- The operator that is written like this. -/
def ofSymbol? (text : String) : Option Operator :=
  all.find? (·.symbol = text)

/-- The operator that is written like this. -/
def parse (text : String) : Except StoreError Operator :=
  match ofSymbol? text with
  | some op => .ok op
  | none => .error (.invalidQuery (.unknownOperator text))

/-- Whether the relation holds of a listed value and an operand. -/
def holds : Operator → String → String → Bool
  | greater, value, operand => operand < value
  | greaterEq, value, operand => !(value < operand)
  | less, value, operand => value < operand
  | lessEq, value, operand => !(operand < value)
  | equal, value, operand => value = operand
  | notEqual, value, operand => value ≠ operand
  | contains, value, operand => Text.occursIn operand.toList value.toList

theorem ofSymbol?_symbol (op : Operator) : ofSymbol? op.symbol = some op := by
  cases op <;> decide

end Operator

/-- One condition on metadata. -/
structure Clause where
  field : String
  operator : Operator
  value : String
  deriving DecidableEq, Repr

namespace Clause

/-- The clause that is written like this. -/
def parse (text : List Char) : Except StoreError Clause :=
  match text.splitOn ':' with
  | [field, operator, value] =>
    if field = [] then .error (.invalidQuery (.emptyField (.ofList text)))
    else (Operator.parse (.ofList operator)).map fun op => ⟨.ofList field, op, .ofList value⟩
  | _ => .error (.invalidQuery (.shape (.ofList text)))

/-- The clause as written in queries. -/
def toText (c : Clause) : String :=
  s!"{c.field}:{c.operator.symbol}:{c.value}"

/-- Whether the field is listed with a value in this relation. -/
def accepts (c : Clause) (m : Metadata) : Bool :=
  match m.get? c.field with
  | some value => c.operator.holds value c.value
  | none => false

end Clause

/-- Conditions that must all hold. -/
structure Query where
  clauses : List Clause
  deriving DecidableEq, Repr

namespace Query

/-- The query that is written like this, or the fault of its first malformed clause. -/
def parse (text : String) : Except StoreError Query :=
  ((text.toList.splitOn ',').mapM Clause.parse).map Query.mk

/-- The query as written. -/
def toText (q : Query) : String :=
  String.intercalate "," (q.clauses.map Clause.toText)

/-- Whether every clause accepts the metadata. -/
def accepts (q : Query) (m : Metadata) : Bool :=
  q.clauses.all (·.accepts m)

end Query

end RecordStore
