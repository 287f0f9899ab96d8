import Jpql.Derived.Creation
import Jpql.Scroll

/-! Keyset scrolling. The sort is completed by the identifier so that it orders rows strictly, and a
cursor becomes the predicate that holds for the rows behind it: those that agree with the cursor on
some leading keys and lie beyond it on the next. Backward scrolling reverses the sort, and the rows
that come back are put in forward order again. -/

namespace Jpql

/-! ### Sort and predicate -/

/-- The sort completed by ascending identifiers, in the direction of scrolling. -/
def ScrollDirection.completeSort (d : ScrollDirection) (sort : Sorting) (ids : List String) :
    Sorting :=
  let missing := ids.filter fun id => (sort.orderFor? id).isNone
  let complete := sort.and (.ofProperties missing)
  match d with
  | .forward => complete
  | .backward => complete.reverse

/-- How predicates of a query technology are built, with a state `σ`: expressions `ε` for sort
properties, and predicates `π`. -/
structure PredicateAdapter (σ ε π : Type) where
  expression : String → StateT σ Result ε
  /-- The expression lies beyond the value in the direction of the order. -/
  compare : Order → ε → Value → StateM σ π
  /-- The expression equals the value, which may be null. -/
  equal : ε → Value → StateM σ π
  and : List π → StateM σ π
  or : List π → StateM σ π

namespace Cursor

variable {σ ε π : Type}

/-- A step that cannot fail. -/
def always {α : Type} (step : StateM σ α) : StateT σ Result α := fun s => .ok (step.run s)

def key (c : Cursor) (property : String) : Result Value :=
  match c.get? property with
  | some v => .ok v
  | none => .error .incompleteKeyset

def equality (c : Cursor) (a : PredicateAdapter σ ε π) (o : Order) : StateT σ Result π := do
  let v ← c.key o.property
  always (a.equal (← a.expression o.property) v)

def comparison (c : Cursor) (a : PredicateAdapter σ ε π) (o : Order) : StateT σ Result π := do
  let v ← c.key o.property
  always (a.compare o (← a.expression o.property) v)

/-- Agreement on the orders before, and beyond the cursor on this one. -/
def disjunct (c : Cursor) (a : PredicateAdapter σ ε π) (before : List Order) (o : Order) :
    StateT σ Result π := do
  let equalities ← before.mapM (c.equality a)
  let beyond ← c.comparison a o
  always (a.and (equalities ++ [beyond]))

/-- One disjunct for each order behind those in `before`. -/
def disjuncts (c : Cursor) (a : PredicateAdapter σ ε π) (before : List Order) :
    List Order → StateT σ Result (List π)
  | [] => return []
  | o :: orders => do
    let p ← c.disjunct a before o
    return p :: (← c.disjuncts a (before ++ [o]) orders)

/-- The predicate of the rows behind the cursor; none if that is all rows. -/
def predicate (c : Cursor) (sort : Sorting) (a : PredicateAdapter σ ε π) :
    StateT σ Result (Option π) := do
  if c.isInitial then return none
  let ps ← c.disjuncts a [] sort.orders
  if ps.isEmpty then return none
  return some (← always (a.or ps))

end Cursor

/-! ### Rows -/

namespace ScrollDirection

variable {α : Type}

/-- The rows of a result in forward order. -/
def forwardRows : ScrollDirection → List α → List α
  | .forward, rows => rows
  | .backward, rows => rows.reverse

/-- The rows next to the cursor, without those beyond the limit. -/
def cutRows (d : ScrollDirection) (limit : Nat) (rows : List α) : List α :=
  match d with
  | .forward => rows.take limit
  | .backward => rows.drop (rows.length - limit)

end ScrollDirection

namespace Window

variable {α : Type}

/-- The window at a position, from a result that may hold one row more than the limit. `keyOf` reads
the value of a sort property from a row. -/
def ofResult (rows : List α) (limit : Option Nat) (position : ScrollPosition) (sort : Sorting)
    (keyOf : α → String → Value) : Window α :=
  let hasNext := limit.any (· < rows.length)
  match position with
  | .offset last =>
    let start := ScrollPosition.startAfter last
    ofRows (rows.take (limit.getD rows.length))
      (fun i _ => .offset (some (PageRequest.wrapped (start + i)))) hasNext
  | .keyset c =>
    let content := c.direction.cutRows (limit.getD rows.length) (c.direction.forwardRows rows)
    let cursorAt row := sort.orders.map fun o => (o.property, keyOf row o.property)
    ofRows content (fun _ row => .keyset (.ofKeys c.direction (cursorAt row))) hasNext

end Window

/-! ### Select queries -/

namespace Derived

/-- A select query to which predicates are added, the last position in use, and the bindings of the
values compared with. -/
structure KeysetDraft where
  query : SelectQuery
  position : Nat
  bindings : List ParameterBinding := []

namespace KeysetDraft

/-- What a value is compared with, as the origin of its binding says. -/
def sourceOf : Expression → String
  | .path p => p.name
  | _ => "keyset"

def bindValue (e : Expression) (v : Value) : StateM KeysetDraft Expression := do
  let d ← get
  let position := d.position + 1
  let b : ParameterBinding :=
    { identifier := .indexed position, origin := .synthetic v (sourceOf e) }
  set { d with position, bindings := d.bindings ++ [b] }
  return .parameter position

def expression (m : Metamodel) (entity : ManagedType) (options : Options) (property : String) :
    StateT KeysetDraft Result Expression := do
  let p ← PropertyPath.ofSource m entity property
  let d ← get
  let (e, query) := resolvePath d.query p false options.useForeignKey
  set { d with query }
  return .path e

def compare (o : Order) (e : Expression) (v : Value) : StateM KeysetDraft Predicate := do
  return .compare e (if o.isAscending then ">" else "<") (← bindValue e v)

def equal (e : Expression) (v : Value) : StateM KeysetDraft Predicate := do
  if v.isNull then return .is e "NULL" else return .compare e "=" (← bindValue e v)

/-- What stands for no predicates at all. -/
def tautology : Predicate := .is (.literal "TRUE") "NOT NULL"

def and (ps : List Predicate) : Predicate := (joinPredicates .and ps).getD tautology

def or (ps : List Predicate) : Predicate :=
  (joinPredicates .or (ps.map Predicate.parenthesized)).getD tautology

def adapter (m : Metamodel) (entity : ManagedType) (options : Options) :
    PredicateAdapter KeysetDraft Expression Predicate where
  expression := expression m entity options
  compare := compare
  equal := equal
  and ps := pure (and ps)
  or ps := pure (or ps)

end KeysetDraft

namespace Creator

/-- The sort of a keyset query. -/
def keysetSort (c : Creator) (cursor : Cursor) (sort : Sorting) : Sorting :=
  cursor.direction.completeSort (c.method.sort.and sort) (c.entity.idAttributes.map (·.name))

/-- The query of the rows behind a cursor. -/
def createKeyset (c : Creator) (cursor : Cursor) (sort : Sorting) : Result Created := do
  let keysetSort := c.keysetSort cursor sort
  let created ← c.createSorted keysetSort
  let start : KeysetDraft := { query := created.query, position := created.bindings.length }
  let (keyset, d) ←
    (cursor.predicate keysetSort (KeysetDraft.adapter c.metamodel c.entity c.options)).run start
  let predicate := match keyset, d.query.predicate with
    | some k, some p => some (.and p.parenthesized k.parenthesized)
    | some k, none => some k
    | none, p => p
  return ⟨{ d.query with predicate }, created.bindings ++ d.bindings⟩

end Creator

end Derived

end Jpql
