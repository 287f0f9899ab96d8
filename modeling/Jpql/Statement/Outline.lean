import Jpql.Json
import Jpql.Statement.Counting

/-! Statements as JSON, for tools that look at the structure of a query. An expression is an array
that starts with the name of its form; a clause is an object that starts with its words, and null
where the statement has none. All words keep their spelling. -/

namespace Jpql

namespace Outline

/-- An expression: the name of its form, and its parts. -/
def form (name : String) (parts : List Json) : Json := .arr (.str name :: parts)

/-- A clause with its items under a name; null without items. -/
def clause (words name : String) (items : List Json) (more : List (String × Json)) : Json :=
  if items.isEmpty then .null else .obj (("kw", .str words) :: (name, .arr items) :: more)

end Outline

open Json Outline

def Alias.fields (a : Option Alias) : List (String × Json) :=
  [("as", option .str (a.bind Alias.asWord)), ("alias", option .str (a.map Alias.name))]

mutual

def Expr.outline : Expr → Json
  | .path segments => form "path" [.str (".".intercalate segments)]
  | .parameter s => form "param" [.str s]
  | .literal s => form "lit" [.str s]
  | .star => form "star" []
  | .function name arguments =>
    form (if eqIgnoringCase name "count" then "count" else "fn")
      [.str name, .arr (argumentOutlines arguments)]
  | .unary op operand => form "unary" [.str op, operand.outline]
  | .binary left op right => form "binary" [.str op, left.outline, right.outline]
  | .between tested words low andWord high =>
    form "between" [.str words, tested.outline, low.outline, .str andWord, high.outline]
  | .like tested words pattern => form "like" [.str words, tested.outline, pattern.outline, .null]
  | .likeEscaped tested words pattern escapeWord escape =>
    form "like"
      [.str words, tested.outline, pattern.outline, .arr [.str escapeWord, escape.outline]]
  | .inValues tested words values =>
    form "in" [.str words, tested.outline, .obj [("values", .arr (exprOutlines values))]]
  | .inQuery tested words query =>
    form "in" [.str words, tested.outline, .obj [("subquery", query.outline)]]
  | .inExpr tested words collection =>
    form "in" [.str words, tested.outline, .obj [("single", collection.outline)]]
  | .is tested words right => form "is" [.str words, tested.outline, optionalOutline right]
  | .member tested words collection =>
    form "member" [.str words, tested.outline, collection.outline]
  | .caseOf keyword operand branches endWord =>
    form "case"
      [.str keyword, optionalOutline operand, .arr (whenOutlines branches),
        otherwiseOutline branches, .str endWord]
  | .quantified keyword query => form "quantified" [.str keyword, query.outline]
  | .subquery query => form "subquery" [query.outline]
  | .nested inner => form "nested" [inner.outline]
  | .tuple items => form "tuple" [.arr (exprOutlines items)]
  | .construct newWord className arguments =>
    form "new" [.str newWord, .str className, .arr (exprOutlines arguments)]
  | .raw s => form "raw" [.str s]

def optionalOutline : Option Expr → Json
  | some e => e.outline
  | none => .null

def exprOutlines : List Expr → List Json
  | [] => []
  | e :: es => e.outline :: exprOutlines es

def argumentOutlines : List (List Fragment) → List Json
  | [] => []
  | a :: as => .arr (fragmentOutlines a) :: argumentOutlines as

def fragmentOutlines : List Fragment → List Json
  | [] => []
  | .word w :: fs => .obj [("word", .str w)] :: fragmentOutlines fs
  | .expr e :: fs => .obj [("expr", e.outline)] :: fragmentOutlines fs

/-- The branches with a condition. -/
def whenOutlines : List CaseBranch → List Json
  | [] => []
  | .when whenWord condition thenWord result :: bs =>
    .arr [.str whenWord, condition.outline, .str thenWord, result.outline] :: whenOutlines bs
  | .otherwise .. :: bs => whenOutlines bs

/-- The branch without a condition. -/
def otherwiseOutline : List CaseBranch → Json
  | [] => .null
  | .when .. :: bs => otherwiseOutline bs
  | .otherwise elseWord result :: _ => .arr [.str elseWord, result.outline]

def conditionOutline : Option Condition → Json
  | some ⟨keyword, e⟩ => .obj [("kw", .str keyword), ("expr", e.outline)]
  | none => .null

def itemOutlines : List SelectItem → List Json
  | [] => []
  | ⟨e, a⟩ :: items => .obj (("expr", e.outline) :: Alias.fields a) :: itemOutlines items

def RootSource.outline : RootSource → Json
  | .entity name => .obj [("entity", .str name)]
  | .collection keyword path => .obj [("kw", .str keyword), ("collection", path.outline)]
  | .subquery query => .obj [("subquery", query.outline)]

def joinOutlines : List Join → List Json
  | [] => []
  | ⟨words, target, a, condition⟩ :: joins =>
    .obj (("words", .str words) :: ("target", target.outline) ::
      ("on", conditionOutline condition) :: Alias.fields a) :: joinOutlines joins

def rootOutlines : List FromRoot → List Json
  | [] => []
  | ⟨source, a, joins⟩ :: roots =>
    .obj (("source", source.outline) :: ("joins", .arr (joinOutlines joins)) :: Alias.fields a) ::
      rootOutlines roots

def orderOutlines : List OrderItem → List Json
  | [] => []
  | ⟨e, direction, nulls⟩ :: items =>
    .obj [("expr", e.outline), ("dir", option .str direction), ("nulls", option .str nulls)] ::
      orderOutlines items

def QuerySpec.outline : QuerySpec → Json
  | ⟨selectWord, distinct, items, fromWord, roots, filter, groupWords, groups, groupFilter,
      orderWords, orders, paging⟩ =>
    .obj [
      ("select", clause selectWord "items" (itemOutlines items)
        [("distinct", option .str distinct)]),
      ("from", clause fromWord "roots" (rootOutlines roots) []),
      ("where", conditionOutline filter),
      ("group", clause groupWords "items" (exprOutlines groups) []),
      ("having", conditionOutline groupFilter),
      ("order", clause orderWords "items" (orderOutlines orders) []),
      ("paging", .arr (fragmentOutlines paging))]

def QueryTerm.outline : QueryTerm → Json
  | .spec spec => .obj [("spec", spec.outline)]
  | .nested statement => .obj [("nested", statement.outline)]

def operationOutlines : List SetOperation → List Json
  | [] => []
  | ⟨words, term⟩ :: operations =>
    .obj [("words", .str words), ("term", term.outline)] :: operationOutlines operations

def cteOutlines : List Cte → List Json
  | [] => []
  | ⟨name, asWord, query⟩ :: ctes =>
    .obj [("name", .str name), ("as", .str asWord), ("query", query.outline)] :: cteOutlines ctes

def SelectStatement.outline : SelectStatement → Json
  | ⟨withWords, ctes, first, operations⟩ =>
    .obj [("with", clause withWords "ctes" (cteOutlines ctes) []),
      ("first", first.outline), ("set", .arr (operationOutlines operations)),
      ("alias", option .str first.primarySpec.primaryAlias?),
      ("combined", .bool !operations.isEmpty)]

end

def UpdateStatement.outline (s : UpdateStatement) : Json :=
  let assignments := s.assignments.map fun (target, value) =>
    Json.arr [target.outline, value.outline]
  .obj (("kw", .str s.keyword) :: ("entity", .str s.entity) :: ("set", .str s.setWord) ::
    ("assign", .arr assignments) :: ("where", conditionOutline s.filter) ::
    Alias.fields s.aliasClause)

def DeleteStatement.outline (s : DeleteStatement) : Json :=
  .obj (("words", .str s.words) :: ("entity", .str s.entity) ::
    ("where", conditionOutline s.filter) :: Alias.fields s.aliasClause)

def Statement.outline : Statement → Json
  | .select s => .obj [("select", s.outline)]
  | .update s => .obj [("update", s.outline)]
  | .delete s => .obj [("delete", s.outline)]

end Jpql
