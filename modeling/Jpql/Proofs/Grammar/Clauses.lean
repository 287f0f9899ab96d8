import Jpql.Proofs.Grammar.Expressions

/-! Runs of the parsers for clauses that every select query has: aliases, joins along a path, and
conditions and lists behind their keywords. -/

namespace Jpql.Grammar

open Jpql.Grammar.Parser
open Lexeme (ahead)

variable {α : Type} {s : Setting} {r : Rules} {input rest : List Lexeme} {a : α} {e : Expr}

variable (he : s.Ends)

include he

/-! ### Aliases -/

/-- Whether a join starts with these lexemes. -/
def startsJoin (input : List Lexeme) : Bool :=
  (ahead 0 input).isKeyword "JOIN" ||
    (joinModifiers.any (ahead 0 input).isWord &&
      ((ahead 1 input).isKeyword "JOIN" ||
        ((ahead 1 input).isKeyword "OUTER" && (ahead 2 input).isKeyword "JOIN")))

theorem takes_atJoin (input : List Lexeme) : Takes s atJoin input (startsJoin input) input :=
  .current he fun t ht => .peekAt he 1 fun next hnext => .peekAt he 2 fun third hthird => by
    rw [startsJoin, ← ht, ← hnext, ← hthird]
    exact .pure _ _

theorem takes_atClauseWord (hpaging : s.dialect.allowsPaging = false) (input : List Lexeme) :
    Takes s atClauseWord input (startsJoin input) input :=
  (takes_dialect input).bind <| .ite_false hpaging <| (Takes.pure false input).bind <|
    (takes_atJoin he input).bind (.pure _ _)

/-- What may stand behind an alias, so that the alias starts no join. -/
def EndsAlias (rest : List Lexeme) : Prop :=
  (ahead 0 rest).isKeyword "JOIN" = false ∧ (ahead 0 rest).isKeyword "OUTER" = false

theorem takes_aliasClause? (hpaging : s.dialect.allowsPaging = false) {name : String}
    (hname : isReserved name = false) (hrest : EndsAlias rest) :
    Takes s aliasClause? (.word name :: rest) (some ⟨none, name⟩) rest := by
  have hjoin : startsJoin (.word name :: rest) = false := by
    simp [startsJoin, Lexeme.isKeyword_word hname, hrest.1, hrest.2]
  have has : (ahead 0 (.word name :: rest)).isKeyword "AS" = false :=
    Lexeme.isKeyword_word hname "AS"
  refine (takes_eatKeyword_none he has).bind ?_
  refine .current he fun t ht => (takes_atClauseWord he hpaging _).bind (.ite_true ?_ ?_)
  · have hkind : t.kind = .identifier := by
      have ht : t.lexeme = .word name := ht
      rw [← Lexeme.kind_word_of_isReserved hname, ← ht]
      rfl
    rw [hjoin, hkind]
    rfl
  · exact (takes_advance _ _).bind (.pure _ _)

theorem takes_aliasClause?_none (hpaging : s.dialect.allowsPaging = false)
    (has : (ahead 0 input).isKeyword "AS" = false) (hkind : (ahead 0 input).kind ≠ .identifier) :
    Takes s aliasClause? input none input := by
  refine (takes_eatKeyword_none he has).bind ?_
  refine .current he fun t ht => (takes_atClauseWord he hpaging _).bind (.ite_false ?_ (.pure _ _))
  have hkind : t.kind ≠ .identifier := by
    rw [← ht] at hkind
    exact hkind
  simp [hkind]

/-! ### Conditions and lists -/

theorem takes_condition? {k : String} (hk : (Lexeme.word k).isKeyword k = true)
    (h : Takes s (r.expression .lowest) input e rest) :
    Takes s (condition? r [k]) (.word k :: input) (some ⟨k, e⟩) rest :=
  (takes_eatAnyKeyword he (by simpa using hk) input).bind (h.bind (.pure _ _))

theorem takes_condition?_none {ks : List String}
    (h : ∀ k ∈ ks, (ahead 0 input).isKeyword k = false) :
    Takes s (condition? r ks) input none input :=
  (takes_eatAnyKeyword_none he h).bind (.pure _ _)

theorem takes_listBehind {items : Parser (List α)} {as : List α} {first second w w' : String}
    (hfirst : (Lexeme.word w).isKeyword first = true)
    (hsecond : (Lexeme.word w').isKeyword second = true) (h : Takes s items input as rest) :
    Takes s (listBehind first second items) (.word w :: .word w' :: input) (w ++ " " ++ w', as)
      rest := by
  refine (takes_atKeyword he first _).bind (.ite_true hfirst ?_)
  refine Takes.bind ?_ (h.bind (.pure _ _))
  exact (takes_expectKeyword he hfirst _).bind ((takes_expectKeyword he hsecond _).bind (.pure _ _))

theorem takes_listBehind_none {items : Parser (List α)} {first second : String}
    (h : (ahead 0 input).isKeyword first = false) :
    Takes s (listBehind first second items) input ("", []) input :=
  (takes_atKeyword he first _).bind (.ite_false h (.pure _ _))

/-! ### Orders -/

theorem takes_direction {direction : String} (h : direction ∈ ["asc", "desc"])
    (rest : List Lexeme) : Takes s (eatAnyKeyword ["ASC", "DESC"]) (.word direction :: rest)
      (some direction) rest := by
  have hall : ∀ d ∈ ["asc", "desc"], ["ASC", "DESC"].any (Lexeme.word d).isKeyword = true := by
    decide
  exact takes_eatAnyKeyword he (hall direction h) rest

theorem takes_orderItem {direction : String} (hdirection : direction ∈ ["asc", "desc"])
    (h : Takes s (r.expression .lowest) input e (.word direction :: rest))
    (hrest : (ahead 0 rest).isKeyword "NULLS" = false) :
    Takes s (orderItem r) input ⟨e, some direction, none⟩ rest :=
  h.bind ((takes_direction he hdirection rest).bind
    ((takes_eatKeyword_none he hrest).bind (.pure _ _)))

theorem takes_orderItem_nulls {direction place : String} (hdirection : direction ∈ ["asc", "desc"])
    (hplace : place ∈ ["FIRST", "LAST"]) (h : Takes s (r.expression .lowest) input e
      (.word direction :: .word "NULLS" :: .word place :: rest)) :
    Takes s (orderItem r) input ⟨e, some direction, some ("NULLS" ++ " " ++ place)⟩ rest := by
  have hall : ∀ p ∈ ["FIRST", "LAST"], ["FIRST", "LAST"].any (Lexeme.word p).isWord = true := by
    decide
  refine h.bind ((takes_direction he hdirection _).bind ?_)
  refine (takes_eatKeyword he (by decide : (Lexeme.word "NULLS").isKeyword "NULLS" = true) _).bind ?_
  exact (takes_eatAnyWord he (hall place hplace) rest).bind ((Takes.pure _ _).bind (.pure _ _))

/-! ### Joins -/

theorem takes_join (hpaging : s.dialect.allowsPaging = false) {modifier name : String}
    (hmodifier : modifier ∈ ["LEFT", "INNER"]) (hname : isReserved name = false)
    (htarget : Takes s (r.expression .sign) input e (.word name :: rest))
    (hinput : (ahead 0 input).isKeyword "FETCH" = false) (hrest : EndsAlias rest)
    (hcondition : ∀ k ∈ ["ON", "WITH"], (ahead 0 rest).isKeyword k = false) :
    Takes s (join r) (.word modifier :: .word "JOIN" :: input)
      ⟨modifier ++ " " ++ "JOIN", e, some ⟨none, name⟩, none⟩ rest := by
  have hall : ∀ m ∈ ["LEFT", "INNER"], (Lexeme.word m).isKeyword "JOIN" = false := by decide
  have hmodifiers : Takes s (manyWhile (do return !(← atKeyword "JOIN")) advance)
      (.word modifier :: .word "JOIN" :: input) [modifier] (.word "JOIN" :: input) := by
    have htest (ls : List Lexeme) : Takes s (do return !(← atKeyword "JOIN")) ls
        (!(ahead 0 ls).isKeyword "JOIN") ls := (takes_atKeyword he "JOIN" ls).bind (.pure _ _)
    refine .bounded (takes_itemsWhile_cons ?_ (takes_advance _ _) (takes_itemsWhile_nil ?_ _))
    · have := htest (.word modifier :: .word "JOIN" :: input)
      rwa [Lexeme.ahead_zero, hall modifier hmodifier] at this
    · have hjoin : (Lexeme.word "JOIN").isKeyword "JOIN" = true := by decide
      have := htest (.word "JOIN" :: input)
      rwa [Lexeme.ahead_zero, hjoin] at this
  refine hmodifiers.bind ((takes_advance _ _).bind ?_)
  refine (takes_eatKeyword_none he hinput).bind (htarget.bind ?_)
  refine (takes_aliasClause? he hpaging hname hrest).bind ?_
  exact (takes_condition?_none he hcondition).bind (.pure _ _)

end Jpql.Grammar
