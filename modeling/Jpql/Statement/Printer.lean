import Jpql.Rendering
import Jpql.Statement

/-! Writing statements out. Every word and every clause asks for a blank around it; what stands in
parentheses does not. -/

namespace Jpql

namespace Rendering

def word (w : String) : Rendering := ofToken (.expression w)

def text (s : String) : Rendering := ofToken (.plain s)

/-- Streams with blanks between them. -/
def spaced (parts : List Rendering) : Rendering := parts.foldl addExpression .empty

def parenthesized (content : Rendering) : Rendering :=
  ((ofToken .openParen).addInline content).addToken .closeParen

/-- Streams with commas between them. -/
def commaSeparated (items : List Rendering) : Rendering :=
  concat (items.map fun r => addExpression .empty r) .comma

/-- A function call. -/
def call (name : String) (arguments : Rendering) : Rendering :=
  (ofToken (.plain name)).add (parenthesized arguments)

def optionalWord : Option String → List Rendering
  | some w => [word w]
  | none => []

end Rendering

open Rendering

def Alias.renderings : Option Alias → List Rendering
  | some a => optionalWord a.asWord ++ [text a.name]
  | none => []

mutual

def Expr.rendering : Expr → Rendering
  | .path segments => text (".".intercalate segments)
  | .parameter s | .literal s | .raw s => text s
  | .star => text "*"
  | .function name arguments => call name (commaSeparated (argumentRenderings arguments))
  | .unary op operand =>
    if op == "-" || op == "+" then (text op).addInline operand.rendering
    else spaced [word op, operand.rendering]
  | .binary left op right => spaced [left.rendering, word op, right.rendering]
  | .between tested words low andWord high =>
    spaced [tested.rendering, word words, low.rendering, word andWord, high.rendering]
  | .like tested words pattern => spaced [tested.rendering, word words, pattern.rendering]
  | .likeEscaped tested words pattern escapeWord escape =>
    spaced [tested.rendering, word words, pattern.rendering, word escapeWord, escape.rendering]
  | .inValues tested words values =>
    spaced [tested.rendering, word words, parenthesized (commaSeparated (exprRenderings values))]
  | .inQuery tested words query =>
    spaced [tested.rendering, word words, parenthesized query.rendering]
  | .inExpr tested words collection =>
    spaced [tested.rendering, word words, collection.rendering]
  | .is tested words right => spaced ([tested.rendering, word words] ++ optionalRendering right)
  | .member tested words collection =>
    spaced [tested.rendering, word words, collection.rendering]
  | .caseOf keyword operand branches endWord =>
    spaced (word keyword :: optionalRendering operand ++ branchRenderings branches ++
      [word endWord])
  | .quantified keyword query => spaced [word keyword, parenthesized query.rendering]
  | .subquery query => parenthesized query.rendering
  | .nested inner => parenthesized inner.rendering
  | .tuple items => parenthesized (commaSeparated (exprRenderings items))
  | .construct newWord className arguments =>
    spaced [word newWord, call className (commaSeparated (exprRenderings arguments))]

def optionalRendering : Option Expr → List Rendering
  | some e => [e.rendering]
  | none => []

def exprRenderings : List Expr → List Rendering
  | [] => []
  | e :: es => e.rendering :: exprRenderings es

def argumentRenderings : List (List Fragment) → List Rendering
  | [] => []
  | a :: as => spaced (fragmentRenderings a) :: argumentRenderings as

def fragmentRenderings : List Fragment → List Rendering
  | [] => []
  | .word w :: fs => word w :: fragmentRenderings fs
  | .expr e :: fs => e.rendering :: fragmentRenderings fs

def branchRenderings : List CaseBranch → List Rendering
  | [] => []
  | .when whenWord condition thenWord result :: bs =>
    word whenWord :: condition.rendering :: word thenWord :: result.rendering :: branchRenderings bs
  | .otherwise elseWord result :: bs => word elseWord :: result.rendering :: branchRenderings bs

def conditionRenderings : Option Condition → List Rendering
  | some ⟨keyword, e⟩ => [spaced [word keyword, e.rendering]]
  | none => []

def itemRenderings : List SelectItem → List Rendering
  | [] => []
  | ⟨e, a⟩ :: items => spaced (e.rendering :: Alias.renderings a) :: itemRenderings items

def RootSource.rendering : RootSource → Rendering
  | .entity name => text name
  | .collection keyword path => call keyword path.rendering
  | .subquery query => parenthesized query.rendering

def joinRenderings : List Join → List Rendering
  | [] => []
  | ⟨words, target, a, condition⟩ :: joins =>
    spaced (word words :: target.rendering ::
        Alias.renderings a ++ conditionRenderings condition) ::
      joinRenderings joins

def rootRenderings : List FromRoot → List Rendering
  | [] => []
  | ⟨source, a, joins⟩ :: roots =>
    spaced (source.rendering :: Alias.renderings a ++ joinRenderings joins) ::
      rootRenderings roots

def orderRenderings : List OrderItem → List Rendering
  | [] => []
  | ⟨e, direction, nulls⟩ :: items =>
    spaced (e.rendering :: optionalWord direction ++ optionalWord nulls) :: orderRenderings items

def QuerySpec.rendering : QuerySpec → Rendering
  | ⟨selectWord, distinct, items, fromWord, roots, filter, groupWords, groups, groupFilter,
      orderWords, orders, paging⟩ =>
    spaced <|
      (if items.isEmpty then [] else
        [spaced (word selectWord :: optionalWord distinct ++
          [commaSeparated (itemRenderings items)])]) ++
      (if roots.isEmpty then []
        else [spaced [word fromWord, commaSeparated (rootRenderings roots)]]) ++
      conditionRenderings filter ++
      (if groups.isEmpty then [] else [word groupWords, commaSeparated (exprRenderings groups)]) ++
      conditionRenderings groupFilter ++
      (if orders.isEmpty then [] else
        [spaced [word orderWords, commaSeparated (orderRenderings orders)]]) ++
      fragmentRenderings paging

def QueryTerm.rendering : QueryTerm → Rendering
  | .spec spec => spec.rendering
  | .nested statement => parenthesized statement.rendering

def operationRenderings : List SetOperation → List Rendering
  | [] => []
  | ⟨words, term⟩ :: operations => word words :: term.rendering :: operationRenderings operations

def cteRenderings : List Cte → List Rendering
  | [] => []
  | ⟨name, asWord, query⟩ :: ctes =>
    spaced [text name, word asWord, parenthesized query.rendering] :: cteRenderings ctes

def SelectStatement.rendering : SelectStatement → Rendering
  | ⟨withWords, ctes, first, operations⟩ =>
    spaced <|
      (if ctes.isEmpty then [] else [word withWords, commaSeparated (cteRenderings ctes)]) ++
      first.rendering :: operationRenderings operations

end

def UpdateStatement.rendering (s : UpdateStatement) : Rendering :=
  let assignments := s.assignments.map fun (target, value) =>
    spaced [target.rendering, word "=", value.rendering]
  spaced (word s.keyword :: text s.entity :: Alias.renderings s.aliasClause ++
    [word s.setWord, commaSeparated assignments] ++ conditionRenderings s.filter)

def DeleteStatement.rendering (s : DeleteStatement) : Rendering :=
  spaced (word s.words :: text s.entity :: Alias.renderings s.aliasClause ++
    conditionRenderings s.filter)

def Statement.rendering : Statement → Rendering
  | .select s => s.rendering
  | .update s => s.rendering
  | .delete s => s.rendering

def Statement.render (s : Statement) : String := s.rendering.render

end Jpql
