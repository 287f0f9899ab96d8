import Jpql.Proofs.Rendering.Building
import Jpql.Text.Blank
import Mathlib

/-! The text of a written statement without its blanks. Streams with blanks between them come to
their texts in a row, streams with commas between them to their texts with a `,` in front of all but
the first, and so each form of a statement comes to a row of its parts. -/

namespace Jpql

namespace Text

/-- The characters of a text that are no blanks. -/
def bare (s : String) : List Char := s.toList.filter (!isBlank ·)

@[simp] theorem bare_append (s t : String) : bare (s ++ t) = bare s ++ bare t := by simp [bare]

@[simp] theorem bare_empty : bare "" = [] := by simp [bare]

@[simp] theorem bare_space : bare " " = [] := by decide

@[simp] theorem bare_comma : bare ", " = [','] := by decide

@[simp] theorem bare_plainComma : bare "," = [','] := by decide

@[simp] theorem bare_dot : bare "." = ['.'] := by decide

@[simp] theorem bare_star : bare "*" = ['*'] := by decide

@[simp] theorem bare_equals : bare "=" = ['='] := by decide

@[simp] theorem bare_openParen : bare "(" = ['('] := by decide

@[simp] theorem bare_closeParen : bare ")" = [')'] := by decide

theorem bare_intercalate (sep w : String) (ws : List String) :
    bare (sep.intercalate (w :: ws)) = bare w ++ ws.flatMap fun w => bare sep ++ bare w := by
  induction ws generalizing w with
  | nil => simp
  | cons v vs ih => simp [String.intercalate_cons_cons, ih]

@[simp] theorem bare_spaced (ws : List String) : bare (" ".intercalate ws) = ws.flatMap bare := by
  cases ws with
  | nil => simp
  | cons w ws => simp [bare_intercalate]

/-- Pieces with a comma in front of all but the first. -/
def commaed : List (List Char) → List Char
  | [] => []
  | x :: xs => x ++ xs.flatMap (',' :: ·)

@[simp] theorem commaed_nil : commaed [] = [] := rfl

@[simp] theorem commaed_cons (x : List Char) (xs : List (List Char)) :
    commaed (x :: xs) = x ++ xs.flatMap (',' :: ·) := rfl

end Text

open Text (commaed commaed_cons)

/-! ### Streams -/

namespace Rendering

def bare (r : Rendering) : List Char := r.toTokens.flatMap fun t => Text.bare t.value

@[simp] theorem bare_spaced (rs : List Rendering) : (spaced rs).bare = rs.flatMap bare := by
  simp only [bare, toTokens_spaced, List.flatMap_assoc]
  rfl

@[simp] theorem bare_word (w : String) : (word w).bare = Text.bare w := by
  simp [bare, word, QueryToken.expression]

@[simp] theorem bare_text (s : String) : (text s).bare = Text.bare s := by
  simp [bare, text, QueryToken.plain]

@[simp] theorem bare_parenthesized (r : Rendering) :
    (parenthesized r).bare = '(' :: r.bare ++ [')'] := by
  simp [bare, QueryToken.openParen, QueryToken.closeParen, QueryToken.plain]

@[simp] theorem bare_call (name : String) (r : Rendering) :
    (call name r).bare = Text.bare name ++ '(' :: r.bare ++ [')'] := by
  simp [call, bare, QueryToken.plain, QueryToken.openParen, QueryToken.closeParen]

@[simp] theorem bare_optionalWord (o : Option String) :
    (optionalWord o).flatMap bare = o.elim [] Text.bare := by
  cases o <;> simp [optionalWord]

@[simp] theorem bare_addInline (r s : Rendering) : (r.addInline s).bare = r.bare ++ s.bare := by
  simp [bare]

/-- Items in a list are told apart by commas as long as each writes something. -/
theorem bare_commaSeparated {rs : List Rendering} (h : ∀ r ∈ rs, r.toTokens ≠ []) :
    (commaSeparated rs).bare = commaed (rs.map bare) := by
  cases rs with
  | nil => rfl
  | cons r rs =>
    simp only [bare, toTokens_commaSeparated (h r (by simp)), List.flatMap_append, commaed_cons,
      List.map_cons, List.flatMap_assoc, List.flatMap_map]
    simp [QueryToken.comma, QueryToken.plain]

@[simp] theorem bare_commaSeparated_nil : (commaSeparated []).bare = [] := rfl

end Rendering

open Rendering

/-! ### Expressions -/

/-- Every expression writes at least one token. -/
theorem Expr.toTokens_rendering_ne_nil (e : Expr) : e.rendering.toTokens ≠ [] := by
  cases e with
  | unary op operand =>
    simp only [Expr.rendering]
    split <;> simp [text, word, toTokens_spaced]
  | _ => simp [Expr.rendering, toTokens_spaced, text, word, call]

theorem exprRenderings_eq (es : List Expr) : exprRenderings es = es.map Expr.rendering := by
  induction es with
  | nil => simp [exprRenderings]
  | cons e es ih => simp [exprRenderings, ih]

@[simp] theorem bare_exprRenderings (es : List Expr) :
    (commaSeparated (exprRenderings es)).bare = commaed (es.map fun e => e.rendering.bare) := by
  rw [exprRenderings_eq, bare_commaSeparated (by simp [Expr.toTokens_rendering_ne_nil]), List.map_map]
  rfl

@[simp] theorem bare_optionalRendering (o : Option Expr) :
    (optionalRendering o).flatMap Rendering.bare = o.elim [] fun e => e.rendering.bare := by
  cases o <;> simp [optionalRendering]

def Fragment.bare : Fragment → List Char
  | .word w => Text.bare w
  | .expr e => e.rendering.bare

@[simp] theorem bare_fragmentRenderings (fs : List Fragment) :
    (fragmentRenderings fs).flatMap Rendering.bare = fs.flatMap Fragment.bare := by
  induction fs with
  | nil => simp [fragmentRenderings]
  | cons f fs ih => cases f <;> simp [fragmentRenderings, Fragment.bare, ih]

theorem toTokens_fragmentRenderings_ne_nil {fs : List Fragment} (h : fs ≠ []) :
    (spaced (fragmentRenderings fs)).toTokens ≠ [] := by
  rcases fs with _ | ⟨f, fs⟩
  · exact absurd rfl h
  · cases f <;> simp [fragmentRenderings, toTokens_spaced, word, Expr.toTokens_rendering_ne_nil]

theorem argumentRenderings_eq (as : List (List Fragment)) :
    argumentRenderings as = as.map fun a => spaced (fragmentRenderings a) := by
  induction as with
  | nil => simp [argumentRenderings]
  | cons a as ih => simp [argumentRenderings, ih]

@[simp] theorem bare_argumentRenderings {as : List (List Fragment)} (h : ∀ a ∈ as, a ≠ []) :
    (commaSeparated (argumentRenderings as)).bare = commaed (as.map (·.flatMap Fragment.bare)) := by
  rw [argumentRenderings_eq, bare_commaSeparated, List.map_map]
  · simp [Function.comp_def]
  · simp only [List.forall_mem_map]
    exact fun a ha => toTokens_fragmentRenderings_ne_nil (h a ha)

theorem fragmentRenderings_append (fs gs : List Fragment) :
    fragmentRenderings (fs ++ gs) = fragmentRenderings fs ++ fragmentRenderings gs := by
  induction fs with
  | nil => simp [fragmentRenderings]
  | cons f fs ih => cases f <;> simp [fragmentRenderings, ih]

theorem branchRenderings_append (bs cs : List CaseBranch) :
    branchRenderings (bs ++ cs) = branchRenderings bs ++ branchRenderings cs := by
  induction bs with
  | nil => simp [branchRenderings]
  | cons b bs ih => cases b <;> simp [branchRenderings, ih]

def CaseBranch.bare : CaseBranch → List Char
  | .when whenWord condition thenWord result =>
    Text.bare whenWord ++ condition.rendering.bare ++ Text.bare thenWord ++ result.rendering.bare
  | .otherwise elseWord result => Text.bare elseWord ++ result.rendering.bare

@[simp] theorem bare_branchRenderings (bs : List CaseBranch) :
    (branchRenderings bs).flatMap Rendering.bare = bs.flatMap CaseBranch.bare := by
  induction bs with
  | nil => simp [branchRenderings]
  | cons b bs ih => cases b <;> simp [branchRenderings, CaseBranch.bare, ih]

/-! ### Clauses -/

def Alias.bare (a : Alias) : List Char := a.asWord.elim [] Text.bare ++ Text.bare a.name

@[simp] theorem Alias.bare_renderings (o : Option Alias) :
    (Alias.renderings o).flatMap Rendering.bare = o.elim [] Alias.bare := by
  cases o <;> simp [Alias.renderings, Alias.bare]

def Condition.bare (c : Condition) : List Char := Text.bare c.keyword ++ c.expr.rendering.bare

@[simp] theorem bare_conditionRenderings (o : Option Condition) :
    (conditionRenderings o).flatMap Rendering.bare = o.elim [] Condition.bare := by
  rcases o with _ | ⟨keyword, e⟩ <;> simp [conditionRenderings, Condition.bare]

def SelectItem.bare (i : SelectItem) : List Char :=
  i.expr.rendering.bare ++ i.aliasClause.elim [] Alias.bare

def SelectItem.rendering (i : SelectItem) : Rendering :=
  spaced (i.expr.rendering :: Alias.renderings i.aliasClause)

theorem itemRenderings_eq (items : List SelectItem) :
    itemRenderings items = items.map SelectItem.rendering := by
  induction items with
  | nil => simp [itemRenderings]
  | cons i items ih => cases i; simp [itemRenderings, SelectItem.rendering, ih]

@[simp] theorem bare_itemRenderings (items : List SelectItem) :
    (commaSeparated (itemRenderings items)).bare = commaed (items.map SelectItem.bare) := by
  rw [itemRenderings_eq, bare_commaSeparated, List.map_map]
  · exact congrArg commaed (List.map_congr_left fun _ _ => by
      simp [SelectItem.bare, SelectItem.rendering])
  · simp [SelectItem.rendering, toTokens_spaced, Expr.toTokens_rendering_ne_nil]

def Join.bare (j : Join) : List Char :=
  Text.bare j.words ++ j.target.rendering.bare ++ j.aliasClause.elim [] Alias.bare ++
    j.condition.elim [] Condition.bare

def Join.rendering (j : Join) : Rendering :=
  spaced (word j.words :: j.target.rendering ::
    Alias.renderings j.aliasClause ++ conditionRenderings j.condition)

theorem joinRenderings_eq (joins : List Join) : joinRenderings joins = joins.map Join.rendering := by
  induction joins with
  | nil => simp [joinRenderings]
  | cons j joins ih => cases j; simp [joinRenderings, Join.rendering, ih]

@[simp] theorem bare_joinRenderings (joins : List Join) :
    (joinRenderings joins).flatMap Rendering.bare = joins.flatMap Join.bare := by
  rw [joinRenderings_eq, List.flatMap_map]
  exact List.flatMap_congr fun j _ => by simp [Join.bare, Join.rendering]

theorem RootSource.toTokens_rendering_ne_nil (s : RootSource) : s.rendering.toTokens ≠ [] := by
  cases s <;> simp [RootSource.rendering, text, call]

def FromRoot.bare (root : FromRoot) : List Char :=
  root.source.rendering.bare ++ root.aliasClause.elim [] Alias.bare ++ root.joins.flatMap Join.bare

def FromRoot.rendering (root : FromRoot) : Rendering :=
  spaced (root.source.rendering :: Alias.renderings root.aliasClause ++ joinRenderings root.joins)

theorem rootRenderings_eq (roots : List FromRoot) :
    rootRenderings roots = roots.map FromRoot.rendering := by
  induction roots with
  | nil => simp [rootRenderings]
  | cons root roots ih => cases root; simp [rootRenderings, FromRoot.rendering, ih]

@[simp] theorem bare_rootRenderings (roots : List FromRoot) :
    (commaSeparated (rootRenderings roots)).bare = commaed (roots.map FromRoot.bare) := by
  rw [rootRenderings_eq, bare_commaSeparated, List.map_map]
  · exact congrArg commaed (List.map_congr_left fun _ _ => by
      simp [FromRoot.bare, FromRoot.rendering])
  · simp [FromRoot.rendering, toTokens_spaced, RootSource.toTokens_rendering_ne_nil]

def OrderItem.bare (i : OrderItem) : List Char :=
  i.expr.rendering.bare ++ i.direction.elim [] Text.bare ++ i.nulls.elim [] Text.bare

def OrderItem.rendering (i : OrderItem) : Rendering :=
  spaced (i.expr.rendering :: optionalWord i.direction ++ optionalWord i.nulls)

theorem orderRenderings_eq (items : List OrderItem) :
    orderRenderings items = items.map OrderItem.rendering := by
  induction items with
  | nil => simp [orderRenderings]
  | cons i items ih => cases i; simp [orderRenderings, OrderItem.rendering, ih]

@[simp] theorem bare_orderRenderings (items : List OrderItem) :
    (commaSeparated (orderRenderings items)).bare = commaed (items.map OrderItem.bare) := by
  rw [orderRenderings_eq, bare_commaSeparated, List.map_map]
  · exact congrArg commaed (List.map_congr_left fun _ _ => by
      simp [OrderItem.bare, OrderItem.rendering])
  · simp [OrderItem.rendering, toTokens_spaced, Expr.toTokens_rendering_ne_nil]

/-! ### Queries -/

/-- A clause without items writes nothing, so it must have no words either. -/
structure QuerySpec.Tidy (q : QuerySpec) : Prop where
  select : q.items = [] → q.selectWord = "" ∧ q.distinct = none
  source : q.roots = [] → q.fromWord = ""
  group : q.groups = [] → q.groupWords = ""
  order : q.orders = [] → q.orderWords = ""

theorem QuerySpec.bare_rendering {q : QuerySpec} (h : q.Tidy) :
    q.rendering.bare =
      Text.bare q.selectWord ++ q.distinct.elim [] Text.bare ++
        commaed (q.items.map SelectItem.bare) ++
      Text.bare q.fromWord ++ commaed (q.roots.map FromRoot.bare) ++
      q.filter.elim [] Condition.bare ++
      Text.bare q.groupWords ++ commaed (q.groups.map fun e => e.rendering.bare) ++
      q.groupFilter.elim [] Condition.bare ++
      Text.bare q.orderWords ++ commaed (q.orders.map OrderItem.bare) ++
      q.paging.flatMap Fragment.bare := by
  rcases q with ⟨selectWord, distinct, items, fromWord, roots, filter, groupWords, groups,
    groupFilter, orderWords, orders, paging⟩
  have hselect : (if items.isEmpty then [] else [spaced (word selectWord :: optionalWord distinct ++
        [commaSeparated (itemRenderings items)])]).flatMap Rendering.bare =
      Text.bare selectWord ++ distinct.elim [] Text.bare ++ commaed (items.map SelectItem.bare) := by
    cases items with
    | nil =>
      obtain ⟨rfl, rfl⟩ : selectWord = "" ∧ distinct = none := h.select rfl
      simp
    | cons i items => simp [-commaed_cons]
  have hsource : (if roots.isEmpty then []
        else [spaced [word fromWord, commaSeparated (rootRenderings roots)]]).flatMap
          Rendering.bare = Text.bare fromWord ++ commaed (roots.map FromRoot.bare) := by
    cases roots with
    | nil =>
      obtain rfl : fromWord = "" := h.source rfl
      simp
    | cons root roots => simp [-commaed_cons]
  have hgroup : (if groups.isEmpty then []
        else [word groupWords, commaSeparated (exprRenderings groups)]).flatMap Rendering.bare =
      Text.bare groupWords ++ commaed (groups.map fun e => e.rendering.bare) := by
    cases groups with
    | nil =>
      obtain rfl : groupWords = "" := h.group rfl
      simp
    | cons g groups => simp [-commaed_cons]
  have horder : (if orders.isEmpty then [] else [spaced [word orderWords,
        commaSeparated (orderRenderings orders)]]).flatMap Rendering.bare =
      Text.bare orderWords ++ commaed (orders.map OrderItem.bare) := by
    cases orders with
    | nil =>
      obtain rfl : orderWords = "" := h.order rfl
      simp
    | cons o orders => simp [-commaed_cons]
  simp only [QuerySpec.rendering, bare_spaced, List.flatMap_append, hselect, hsource, hgroup, horder,
    bare_conditionRenderings, bare_fragmentRenderings, List.append_assoc]

def SetOperation.bare (o : SetOperation) : List Char := Text.bare o.words ++ o.term.rendering.bare

@[simp] theorem bare_operationRenderings (os : List SetOperation) :
    (operationRenderings os).flatMap Rendering.bare = os.flatMap SetOperation.bare := by
  induction os with
  | nil => simp [operationRenderings]
  | cons o os ih => cases o; simp [operationRenderings, SetOperation.bare, ih]

def Cte.bare (c : Cte) : List Char :=
  Text.bare c.name ++ Text.bare c.asWord ++ '(' :: c.query.rendering.bare ++ [')']

def Cte.rendering (c : Cte) : Rendering :=
  spaced [text c.name, word c.asWord, parenthesized c.query.rendering]

theorem cteRenderings_eq (ctes : List Cte) : cteRenderings ctes = ctes.map Cte.rendering := by
  induction ctes with
  | nil => simp [cteRenderings]
  | cons c ctes ih => cases c; simp [cteRenderings, Cte.rendering, ih]

@[simp] theorem bare_cteRenderings (ctes : List Cte) :
    (commaSeparated (cteRenderings ctes)).bare = commaed (ctes.map Cte.bare) := by
  rw [cteRenderings_eq, bare_commaSeparated, List.map_map]
  · exact congrArg commaed (List.map_congr_left fun _ _ => by simp [Cte.bare, Cte.rendering])
  · simp [Cte.rendering, toTokens_spaced, text]

theorem SelectStatement.bare_rendering {s : SelectStatement} (h : s.ctes = [] → s.withWords = "") :
    s.rendering.bare = Text.bare s.withWords ++ commaed (s.ctes.map Cte.bare) ++
      s.first.rendering.bare ++ s.operations.flatMap SetOperation.bare := by
  rcases s with ⟨withWords, ctes, first, operations⟩
  rcases ctes with _ | ⟨c, ctes⟩ <;> simp_all [SelectStatement.rendering, -commaed_cons]

/-! ### Modifying statements -/

theorem bare_assignments (as : List (Expr × Expr)) :
    (commaSeparated (as.map fun (target, value) =>
      spaced [target.rendering, word "=", value.rendering])).bare =
      commaed (as.map fun a => a.1.rendering.bare ++ '=' :: a.2.rendering.bare) := by
  rw [bare_commaSeparated, List.map_map]
  · simp [Function.comp_def]
  · simp only [List.forall_mem_map, toTokens_spaced]
    simp [Expr.toTokens_rendering_ne_nil]

theorem UpdateStatement.bare_rendering (s : UpdateStatement) :
    s.rendering.bare = Text.bare s.keyword ++ Text.bare s.entity ++
      s.aliasClause.elim [] Alias.bare ++ Text.bare s.setWord ++
      commaed (s.assignments.map fun a => a.1.rendering.bare ++ '=' :: a.2.rendering.bare) ++
      s.filter.elim [] Condition.bare := by
  simp [UpdateStatement.rendering, bare_assignments]

theorem DeleteStatement.bare_rendering (s : DeleteStatement) :
    s.rendering.bare = Text.bare s.words ++ Text.bare s.entity ++
      s.aliasClause.elim [] Alias.bare ++ s.filter.elim [] Condition.bare := by
  simp [DeleteStatement.rendering]

end Jpql
