import Jpql.Grammar.Expression

/-! Clauses and statements, up to the rules for nested expressions and queries. -/

namespace Jpql.Grammar

open Jpql.Grammar.Parser

variable {α : Type}

def joinModifiers : List String := ["INNER", "LEFT", "RIGHT", "FULL", "CROSS", "OUTER"]

/-- Whether a join starts here: `join` behind at most one modifier and an `outer`. -/
def atJoin : Parser Bool := do
  let t ← current
  let next ← peek
  let third ← peekAt 2
  return t.isKeyword "JOIN" ||
    (joinModifiers.any t.isWord &&
      (next.isKeyword "JOIN" || (next.isKeyword "OUTER" && third.isKeyword "JOIN")))

/-- Whether the current word starts a clause and so cannot be an alias. -/
def atClauseWord : Parser Bool := do
  let paging ← if (← dialect).allowsPaging then pure ((← atWord "LIMIT") || (← atWord "OFFSET"))
    else pure false
  return paging || (← atJoin)

def aliasClause? : Parser (Option Alias) := do
  match ← eatKeyword "AS" with
  | some asWord => return some ⟨some asWord, ← expectName⟩
  | none =>
    if (← current).kind == .identifier && !(← atClauseWord) then return some ⟨none, ← advance⟩
    else return none

/-- A condition behind one of the keywords, if one is there. -/
def condition? (r : Rules) (keywords : List String) : Parser (Option Condition) := do
  match ← eatAnyKeyword keywords with
  | some keyword => return some ⟨keyword, ← r.expression .lowest⟩
  | none => return none

/-! ### Select, from and join -/

def selectItem (r : Rules) : Parser SelectItem := do
  let e ← r.expression .lowest
  return ⟨e, ← aliasClause?⟩

def join (r : Rules) : Parser Join := do
  let modifiers ← manyWhile (do return !(← atKeyword "JOIN")) advance
  let joinWord ← advance
  let fetch ← eatKeyword "FETCH"
  let target ← r.expression .sign
  let aliasClause ← aliasClause?
  let condition ← condition? r ["ON", "WITH"]
  return ⟨" ".intercalate (modifiers ++ joinWord :: fetch.toList), target, aliasClause, condition⟩

def rootSource (r : Rules) : Parser RootSource := do
  if (← atKeyword "IN") && (← nextIsOpenParen) then
    let keyword ← advance
    expectPunctuator "("
    let path ← r.expression .lowest
    expectPunctuator ")"
    return .collection keyword path
  else if (← atPunctuator "(") && (← dialect).allowsMissingSelect then
    return .subquery (← parenthesizedQuery r)
  else return .entity (← qualifiedName)

def fromRoot (r : Rules) : Parser FromRoot := do
  let source ← rootSource r
  let aliasClause ← aliasClause?
  return ⟨source, aliasClause, ← manyWhile atJoin (join r)⟩

/-! ### Order and paging -/

def orderItem (r : Rules) : Parser OrderItem := do
  let e ← r.expression .lowest
  let direction ← eatAnyKeyword ["ASC", "DESC"]
  match ← eatKeyword "NULLS" with
  | some nulls =>
    let place ← orMismatched "\x7bFIRST, LAST\x7d" (← eatAnyWord ["FIRST", "LAST"])
    return ⟨e, direction, some (nulls ++ " " ++ place)⟩
  | none => return ⟨e, direction, none⟩

def optionalWord (words : List String) : Parser (List Fragment) := do
  return (← eatAnyWord words).toList.map .word

def fetchClause (r : Rules) (fetch : String) : Parser (List Fragment) := do
  let first ← orMismatched "\x7bFIRST, NEXT\x7d" (← eatAnyWord ["FIRST", "NEXT"])
  let count ← r.expression .sum
  let percent ← optionalWord ["PERCENT"]
  let rows ← orMismatched "\x7bROWS, ROW\x7d" (← eatAnyWord ["ROWS", "ROW"])
  let ending ← match ← eatWord "ONLY" with
    | some only => pure only
    | none => do
      let withWord ← expectKeyword "WITH"
      let ties ← expectWord "TIES"
      pure (withWord ++ " " ++ ties)
  return [Fragment.word fetch, .word first, .expr count] ++ percent ++
    [Fragment.word rows, .word ending]

/-- One paging clause, if one is there. -/
def pagingClause? (r : Rules) : Parser (Option (List Fragment)) := do
  match ← eatWord "LIMIT" with
  | some limit => return some [.word limit, .expr (← r.expression .sum)]
  | none =>
    match ← eatWord "OFFSET" with
    | some offset =>
      let count ← r.expression .sum
      return some ([Fragment.word offset, .expr count] ++ (← optionalWord ["ROWS", "ROW"]))
    | none =>
      match ← eatKeyword "FETCH" with
      | some fetch => return some (← fetchClause r fetch)
      | none => return none

def pagingClauses (r : Rules) : Nat → Parser (List Fragment)
  | 0 => return []
  | n + 1 => do
    match ← pagingClause? r with
    | some fragments => return fragments ++ (← pagingClauses r n)
    | none => return []

/-! ### Queries -/

def selectClause (r : Rules) : Parser (String × Option String × List SelectItem) := do
  if ← atKeyword "SELECT" then
    let selectWord ← advance
    let distinct ← eatKeyword "DISTINCT"
    return (selectWord, distinct, ← commaList (selectItem r))
  else if (← dialect).allowsMissingSelect then return ("", none, [])
  else mismatched "SELECT"

def fromClause (r : Rules) : Parser (String × List FromRoot) := do
  if ← atKeyword "FROM" then
    let fromWord ← advance
    return (fromWord, ← commaList (fromRoot r))
  else if (← dialect).allowsMissingSelect then return ("", [])
  else mismatched "FROM"

/-- A list of items behind two keywords, if the first is there. -/
def listBehind (first second : String) (items : Parser (List α)) : Parser (String × List α) := do
  if ← atKeyword first then
    let words ← expectPair first second
    return (words, ← items)
  else return ("", [])

def querySpec (r : Rules) : Parser QuerySpec := do
  let (selectWord, distinct, items) ← selectClause r
  let (fromWord, roots) ← fromClause r
  if items.isEmpty && roots.isEmpty then mismatched "\x7bSELECT, FROM\x7d"
  else
    let filter ← condition? r ["WHERE"]
    let (groupWords, groups) ← listBehind "GROUP" "BY" r.expressions
    let groupFilter ← condition? r ["HAVING"]
    let (orderWords, orders) ← listBehind "ORDER" "BY" (commaList (orderItem r))
    let paging ← if (← dialect).allowsPaging then bounded (pagingClauses r) else pure []
    return { selectWord, distinct, items, fromWord, roots, filter, groupWords, groups,
             groupFilter, orderWords, orders, paging }

def queryTerm (r : Rules) : Parser QueryTerm := do
  if ← eatPunctuator "(" then
    let nested ← r.select
    expectPunctuator ")"
    return .nested nested
  else return .spec (← querySpec r)

def setOperation (r : Rules) : Parser SetOperation := do
  let word ← advance
  let quantifier ← eatAnyKeyword ["ALL", "DISTINCT"]
  return ⟨" ".intercalate (word :: quantifier.toList), ← queryTerm r⟩

def cte (r : Rules) : Parser Cte := do
  let name ← expectName
  let asWord ← expectKeyword "AS"
  return ⟨name, asWord, ← parenthesizedQuery r⟩

def withClause (r : Rules) : Parser (String × List Cte) := do
  if ← atKeyword "WITH" then
    let withWord ← advance
    let recursive ← eatWord "RECURSIVE"
    return (" ".intercalate (withWord :: recursive.toList), ← commaList (cte r))
  else return ("", [])

def selectStatement (r : Rules) : Parser SelectStatement := do
  let (withWords, ctes) ← withClause r
  let first ← queryTerm r
  let operations ← manyWhile (atAnyKeyword ["UNION", "INTERSECT", "EXCEPT"]) (setOperation r)
  return ⟨withWords, ctes, first, operations⟩

/-! ### Modifying statements -/

def assignment (r : Rules) : Parser (Expr × Expr) := do
  let target ← r.expression .sum
  if (← current).isOperator "=" then
    let _ ← advance
    return (target, ← r.expression .lowest)
  else mismatched "'='"

def updateStatement (r : Rules) : Parser UpdateStatement := do
  let keyword ← advance
  let entity ← qualifiedName
  let aliasClause ← aliasClause?
  let setWord ← expectKeyword "SET"
  let assignments ← commaList (assignment r)
  return ⟨keyword, entity, aliasClause, setWord, assignments, ← condition? r ["WHERE"]⟩

def deleteStatement (r : Rules) : Parser DeleteStatement := do
  let word ← advance
  let fromWord ← eatKeyword "FROM"
  let entity ← qualifiedName
  let aliasClause ← aliasClause?
  return ⟨" ".intercalate (word :: fromWord.toList), entity, aliasClause, ← condition? r ["WHERE"]⟩

def statement (r : Rules) : Parser Statement := do
  let s ←
    if ← atKeyword "UPDATE" then Statement.update <$> updateStatement r
    else if ← atKeyword "DELETE" then Statement.delete <$> deleteStatement r
    else if (← atAnyKeyword ["SELECT", "WITH"]) || (← atPunctuator "(") ||
        ((← atKeyword "FROM") && (← dialect).allowsMissingSelect) then
      Statement.select <$> selectStatement r
    else mismatched "\x7bSELECT, UPDATE, DELETE\x7d"
  if ← atEnd then return s else mismatched "<EOF>"

end Jpql.Grammar
