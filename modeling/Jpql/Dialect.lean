/-! The dialects of the query language. All share one grammar; they differ in the functions they
know and in whether a query may leave out its select clause or end in a paging clause. -/

namespace Jpql

/-- Letters compared without regard to ASCII case. -/
def eqIgnoringCase (a b : String) : Bool :=
  a.toList.map Char.toLower == b.toList.map Char.toLower

inductive Dialect where
  | jpql | hql | eql
  deriving DecidableEq, Repr

namespace Dialect

def name : Dialect → String
  | .jpql => "JPQL"
  | .hql => "HQL"
  | .eql => "EQL"

def allowsMissingSelect (d : Dialect) : Bool := d == .hql

def allowsPaging (d : Dialect) : Bool := d == .hql

def standardFunctions : List String :=
  ["ABS", "AVG", "CAST", "CEILING", "COALESCE", "CONCAT", "COUNT", "ENTRY", "EXP", "EXTRACT",
    "FLOOR", "FUNCTION", "ID", "INDEX", "KEY", "LEFT", "LENGTH", "LN", "LOCATE", "LOWER", "MAX",
    "MIN", "MOD", "NULLIF", "POWER", "REPLACE", "RIGHT", "ROUND", "SIGN", "SIZE", "SQRT",
    "SUBSTRING", "SUM", "TREAT", "TRIM", "TYPE", "UPPER", "VALUE", "VERSION"]

def extendedFunctions : List String := ["COLUMN", "FUNC", "OPERATOR", "SQL"]

def acceptsFunction (d : Dialect) (name : String) : Bool :=
  match d with
  | .hql => true
  | .jpql => standardFunctions.any (eqIgnoringCase name)
  | .eql => (standardFunctions ++ extendedFunctions).any (eqIgnoringCase name)

end Dialect

end Jpql
