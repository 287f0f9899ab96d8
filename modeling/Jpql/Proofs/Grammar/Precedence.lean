import Jpql.Proofs.Grammar.Expressions

/-! Sequences of operands with binary operators between them. The tree of a sequence is said without a
parser: its root is the operator that binds loosest, of several such the last one, and on either side
of the root stands the tree of what is written there; a sequence in parentheses is an operand. A
backtracking parse takes every sequence for its tree. It comes along the left sides of the tree from
the bottom: what it has parsed of a left side is gone on with at the operator behind, since no
operator of the left side binds looser than that one. -/

namespace Jpql.Grammar

open Lexeme (ahead)

/-- How close a binary operator binds; other lexemes do not bind. -/
def binds? (l : Lexeme) : Option Precedence :=
  if l.isKeyword "OR" then some .or
  else if l.isKeyword "AND" then some .and
  else if l.kind == .operator then
    if l.literal ∈ ["=", "<>", "!=", "^=", "<", ">", "<=", ">="] then some .comparison
    else if l.literal ∈ ["+", "-", "||"] then some .sum
    else if l.literal ∈ ["*", "/", "%"] then some .product
    else none
  else none

/-- An operator and the lexemes of the operand behind it. -/
structure Link where
  operator : Lexeme
  precedence : Precedence
  binds : binds? operator = some precedence
  operand : List Lexeme

/-- The lexemes of a sequence. -/
def written (first : List Lexeme) (links : List Link) : List Lexeme :=
  first ++ links.flatMap fun link => link.operator :: link.operand

/-- A sequence in parentheses. -/
def inParens (first : List Lexeme) (links : List Link) : List Lexeme :=
  .punctuator "(" :: (written first links ++ [Lexeme.punctuator ")"])

def IsLiteral (l : Lexeme) : Prop :=
  l.kind ∈ [TokenKind.string, .integer, .decimal] ∨ ∃ k ∈ ["TRUE", "FALSE", "NULL"], l.isKeyword k

/-- A path, a parameter or a literal, and what it stands for. -/
inductive Atom : List Lexeme → Expr → Prop
  | path {first : String} (hfirst : isReserved first = false) (names : List String) :
      Atom (Lexeme.dotted first names) (.path (first :: names))
  | parameter (text : String) : Atom [⟨.parameter, text⟩] (.parameter text)
  | literal {l : Lexeme} (h : IsLiteral l) : Atom [l] (.literal l.literal)
  | braces {parts : List Lexeme} (h : ∀ part ∈ parts, part.isPunctuator closeBrace = false) :
      Atom (.punctuator openBrace :: (parts ++ [.punctuator closeBrace]))
        (.literal (openBrace ++ " ".intercalate (parts.map (·.literal)) ++ closeBrace))

/-- The lexemes of an operand: an atom, or a sequence of operands in parentheses. -/
inductive IsOperand : List Lexeme → Prop
  | atom {ls : List Lexeme} {e : Expr} (h : Atom ls e) : IsOperand ls
  | enclosed {first : List Lexeme} {links : List Link} (hfirst : IsOperand first)
      (hlinks : ∀ link ∈ links, IsOperand link.operand) : IsOperand (inParens first links)

/-- The tree of a sequence: its root is the last of the operators that bind loosest, and a sequence in
parentheses is one node. -/
inductive Groups : List Lexeme → List Link → Expr → Prop
  | atom {ls : List Lexeme} {e : Expr} (h : Atom ls e) : Groups ls [] e
  | enclosed {first : List Lexeme} {links : List Link} {e : Expr} (h : Groups first links e) :
      Groups (inParens first links) [] (.nested e)
  | operator {first : List Lexeme} {before behind : List Link} {link : Link} {left right : Expr}
      (hbefore : ∀ other ∈ before, link.precedence.rank ≤ other.precedence.rank)
      (hbehind : ∀ other ∈ behind, link.precedence.rank < other.precedence.rank)
      (hleft : Groups first before left) (hright : Groups link.operand behind right) :
      Groups first (before ++ link :: behind) (.binary left link.operator.literal right)

/-! ### Trees -/

/-- Of the operators that bind loosest there is a last one. -/
theorem exists_root {links : List Link} (h : links ≠ []) :
    ∃ (before : List Link) (link : Link) (behind : List Link), links = before ++ link :: behind ∧
      (∀ other ∈ before, link.precedence.rank ≤ other.precedence.rank) ∧
      ∀ other ∈ behind, link.precedence.rank < other.precedence.rank := by
  induction links with
  | nil => exact absurd rfl h
  | cons head links ih =>
    by_cases hlinks : links = []
    · exact ⟨[], head, [], by rw [hlinks, List.nil_append], by simp, by simp⟩
    obtain ⟨before, link, behind, rfl, hbefore, hbehind⟩ := ih hlinks
    by_cases hhead : head.precedence.rank < link.precedence.rank
    · refine ⟨[], head, before ++ link :: behind, rfl, by simp, fun other hother => ?_⟩
      rcases List.mem_append.1 hother with hother | hother
      · exact hhead.trans_le (hbefore other hother)
      · rcases List.mem_cons.1 hother with rfl | hother
        · exact hhead
        · exact hhead.trans (hbehind other hother)
    · refine ⟨head :: before, link, behind, rfl, ?_, hbehind⟩
      exact List.forall_mem_cons.2 ⟨Nat.not_lt.1 hhead, hbefore⟩

/-- A sequence has a tree if its operands do. -/
theorem exists_groups_of_operands {first : List Lexeme} {links : List Link}
    (hfirst : ∃ e, Groups first [] e) (hlinks : ∀ link ∈ links, ∃ e, Groups link.operand [] e) :
    ∃ e, Groups first links e := by
  induction hlength : links.length using Nat.strong_induction_on generalizing first links with
  | _ n ih =>
    by_cases hempty : links = []
    · rwa [hempty]
    obtain ⟨before, link, behind, rfl, hbefore, hbehind⟩ := exists_root hempty
    obtain ⟨hall, hlink, hrest⟩ : (∀ other ∈ before, ∃ e, Groups other.operand [] e) ∧
        (∃ e, Groups link.operand [] e) ∧ ∀ other ∈ behind, ∃ e, Groups other.operand [] e := by
      simpa [or_imp, forall_and] using hlinks
    rw [List.length_append, List.length_cons] at hlength
    obtain ⟨left, hleft⟩ := ih before.length (by omega) hfirst hall rfl
    obtain ⟨right, hright⟩ := ih behind.length (by omega) hlink hrest rfl
    exact ⟨_, .operator hbefore hbehind hleft hright⟩

theorem IsOperand.exists_groups {ls : List Lexeme} (h : IsOperand ls) : ∃ e, Groups ls [] e := by
  induction h with
  | atom h => exact ⟨_, .atom h⟩
  | enclosed _ _ ihfirst ihlinks =>
    obtain ⟨e, he⟩ := exists_groups_of_operands ihfirst ihlinks
    exact ⟨_, .enclosed he⟩

/-! ### Lexemes of a sequence -/

variable {s : Setting} {r : Rules} {first rest behind : List Lexeme} {links : List Link} {e e' : Expr}
  {precedence : Precedence}

theorem written_append (first : List Lexeme) (before behind : List Link) (link : Link) :
    written first (before ++ link :: behind) =
      written first before ++ link.operator :: written link.operand behind := by
  simp [written]

/-- A binary operator is parsed as such and, whatever follows it, goes on after an operand as it
binds. -/
theorem binds?_spec {l : Lexeme} (h : binds? l = some precedence) :
    (l.kind = .operator ∨ l.isKeyword "AND" = true ∨ l.isKeyword "OR" = true) ∧
      (∀ next, l.precedence next = precedence) ∧ Precedence.lowest.rank < precedence.rank := by
  unfold binds? at h
  unfold Lexeme.precedence
  split at h
  next hor =>
    cases h
    have hkind := (Bool.and_eq_true_iff.1 hor).1
    exact ⟨.inr (.inr hor), fun next => by rw [if_pos hkind, if_pos hor], by decide⟩
  split at h
  next hor hand =>
    cases h
    have hkind := (Bool.and_eq_true_iff.1 hand).1
    exact ⟨.inr (.inl hand), fun next => by rw [if_pos hkind, if_neg hor, if_pos hand], by decide⟩
  split at h
  next hoperator =>
    have hkind : l.kind = .operator := eq_of_beq hoperator
    have hkeyword : ¬ (l.kind == .keyword) = true := by simp [hkind]
    split at h
    next hcomparison =>
      cases h
      exact ⟨.inl hkind, fun next => by rw [if_neg hkeyword, if_pos hoperator, if_pos hcomparison],
        by decide⟩
    next hcomparison =>
      split at h
      next hsum =>
        cases h
        exact ⟨.inl hkind, fun next => by
          rw [if_neg hkeyword, if_pos hoperator, if_neg hcomparison, if_pos hsum], by decide⟩
      next hsum =>
        split at h
        next hproduct =>
          cases h
          exact ⟨.inl hkind, fun next => by
            rw [if_neg hkeyword, if_pos hoperator, if_neg hcomparison, if_neg hsum,
              if_pos hproduct], by decide⟩
        next => cases h
  next => cases h

theorem Link.nextOf_operator (link : Link) (input : List Lexeme) :
    nextOf (link.operator :: input) = link.precedence := (binds?_spec link.binds).2.1 _

theorem Link.binary (link : Link) : link.operator.kind = .operator ∨
    link.operator.isKeyword "AND" = true ∨ link.operator.isKeyword "OR" = true :=
  (binds?_spec link.binds).1

theorem Link.endsOperand (link : Link) (input : List Lexeme) :
    EndsOperand (link.operator :: input) := by
  have hkind : link.operator.kind ≠ .punctuator := by
    rcases link.binary with h | h | h
    · rw [h]
      exact nofun
    all_goals
      rw [eq_of_beq (Bool.and_eq_true_iff.1 h).1]
      exact nofun
  constructor <;> simp [Lexeme.isPunctuator, hkind]

/-- An atom starts with none of the words that a query starts with. -/
theorem Atom.start (h : Atom first e) : ∃ l ls, first = l :: ls ∧
    (∀ k ∈ ["SELECT", "WITH", "FROM"], l.isKeyword k = false) ∧ l.isPunctuator "(" = false := by
  cases h with
  | path hfirst names =>
    exact ⟨_, _, rfl, fun k _ => Lexeme.isKeyword_word hfirst k, Lexeme.isPunctuator_word _ _⟩
  | parameter text => exact ⟨_, _, rfl, fun _ _ => rfl, rfl⟩
  | @literal l h =>
    refine ⟨l, [], rfl, ?_⟩
    rcases h with h | ⟨k, hk, h⟩
    · have hkind : l.kind ≠ .keyword ∧ l.kind ≠ .punctuator := by
        simp only [List.mem_cons, List.not_mem_nil, or_false] at h
        rcases h with h | h | h
        all_goals
          rw [h]
          exact ⟨nofun, nofun⟩
      simp [Lexeme.isKeyword, Lexeme.isPunctuator, hkind]
    · have hother : ∀ k ∈ ["TRUE", "FALSE", "NULL"], ∀ k' ∈ ["SELECT", "WITH", "FROM"],
          eqIgnoringCase k k' = false := by decide
      refine ⟨fun k' hk' => Lexeme.isKeyword_eq_false h (hother k hk k' hk'), ?_⟩
      simp [Lexeme.isPunctuator, eq_of_beq (Bool.and_eq_true_iff.1 h).1]
  | braces => exact ⟨_, _, rfl, fun _ _ => rfl, rfl⟩

/-- No sequence starts like a query, however many parentheses it starts with. -/
theorem Groups.noQuery (h : Groups first links e) (rest : List Lexeme) :
    NoQuery (written first links ++ rest) := by
  induction h generalizing rest with
  | @atom ls e h =>
    obtain ⟨l, ls', rfl, hwords, hparen⟩ := h.start
    exact .start hwords hparen
  | @enclosed first links _ _ ih =>
    have hwritten : written (inParens first links) [] ++ rest =
        .punctuator "(" :: (written first links ++ .punctuator ")" :: rest) := by
      simp [written, inParens]
    rw [hwritten]
    exact .paren (ih _)
  | operator _ _ _ _ ihleft =>
    rw [written_append, List.append_assoc]
    exact ihleft _

/-! ### Parsing -/

section Parsing

variable (he : s.Ends)

include he

theorem Atom.takes (h : Atom first e) (hrest : EndsOperand rest) :
    Takes s (operand r) (first ++ rest) e rest := by
  cases h with
  | path hfirst names => exact takes_operand_path he hfirst names hrest
  | parameter text => exact takes_operand_parameter he text rest
  | literal h =>
    rcases h with h | ⟨k, hk, h⟩
    · exact takes_operand_literal he h rest
    · exact takes_operand_keyword he hk h rest
  | @braces parts h =>
    rw [List.cons_append, List.append_assoc]
    exact takes_operand_braces he h rest

/-- A sequence whose operators all bind closer than asked for is parsed as its tree, and the tree is
gone on with, if what follows binds no closer than any of the operators. -/
theorem Groups.takes (hmode : s.mode = .backtracking) (h : Groups first links e) {n : Nat}
    (hn : (written first links).length ≤ n)
    (hcloser : ∀ link ∈ links, precedence.rank < link.precedence.rank)
    (hrest : EndsOperand rest)
    (hlooser : ∀ link ∈ links, (nextOf rest).rank ≤ link.precedence.rank)
    (hgo : GoesOn s (rules n) precedence e rest e' behind) :
    Takes s (expression (rules n) precedence) (written first links ++ rest) e' behind := by
  induction h generalizing n precedence rest e' behind with
  | @atom ls e h =>
    have hwritten : written ls [] = ls := List.append_nil _
    rw [hwritten]
    exact (h.takes he hrest).bind (.bounded (hgo _ (Nat.le_refl _)))
  | @enclosed first links e h ih =>
    have hwritten : written (inParens first links) [] ++ rest =
        .punctuator "(" :: (written first links ++ .punctuator ")" :: rest) := by
      simp [written, inParens]
    have hlength : (written first links).length + 2 ≤ n := by
      simpa [written, inParens, Nat.add_assoc] using hn
    obtain ⟨n, rfl⟩ : ∃ k, n = k + 1 := ⟨n - 1, by omega⟩
    have hinner : Takes s ((rules (n + 1)).expression .lowest)
        (written first links ++ .punctuator ")" :: rest) e (.punctuator ")" :: rest) :=
      ih (by omega) (fun link _ => (binds?_spec link.binds).2.2) ⟨rfl, rfl⟩ (fun link _ => Nat.zero_le _)
        (goesOn_stop he (Nat.zero_le _))
    rw [hwritten]
    exact (takes_operand_nested he hmode (h.noQuery _) hinner).bind
      (.bounded (hgo _ (Nat.le_refl _)))
  | @operator first before after link left right hbefore hbehind _ _ ihleft ihright =>
    rw [written_append, List.length_append, List.length_cons] at hn
    obtain ⟨n, rfl⟩ : ∃ k, n = k + 1 := ⟨n - 1, by omega⟩
    obtain ⟨hcloserLeft, hcloserLink, -⟩ : (∀ other ∈ before, precedence.rank < other.precedence.rank) ∧
        precedence.rank < link.precedence.rank ∧
        ∀ other ∈ after, precedence.rank < other.precedence.rank := by
      simpa [or_imp, forall_and] using hcloser
    obtain ⟨-, hlooserLink, hlooserRight⟩ :
        (∀ other ∈ before, (nextOf rest).rank ≤ other.precedence.rank) ∧
        (nextOf rest).rank ≤ link.precedence.rank ∧
        ∀ other ∈ after, (nextOf rest).rank ≤ other.precedence.rank := by
      simpa [or_imp, forall_and] using hlooser
    -- the right side ends where an operator binds no closer than the root
    have hright : Takes s ((rules (n + 1)).expression link.precedence)
        (written link.operand after ++ rest) right rest :=
      ihright (by omega) hbehind hrest hlooserRight (goesOn_stop he hlooserLink)
    have hnext := link.nextOf_operator (written link.operand after ++ rest)
    rw [written_append, List.append_assoc, List.cons_append]
    refine ihleft (by omega) hcloserLeft (link.endsOperand _) ?_ ?_
    · rw [hnext]
      exact hbefore
    · exact goesOn_binary he link.binary hnext hright (by simp) hcloserLink hgo

/-- A sequence is parsed as a whole, and as the one tree that it has. -/
theorem takes_sequence (hmode : s.mode = .backtracking) (hfirst : IsOperand first)
    (hlinks : ∀ link ∈ links, IsOperand link.operand) (hrest : EndsExpression rest) {n : Nat}
    (hn : (written first links).length < n) :
    ∃ e, Takes s ((rules n).expression .lowest) (written first links ++ rest) e rest ∧
      Groups first links e ∧ ∀ first' links' e', written first' links' = written first links →
        Groups first' links' e' → e' = e := by
  obtain ⟨n, rfl⟩ : ∃ k, n = k + 1 := ⟨n - 1, by omega⟩
  have htakes {first' : List Lexeme} {links' : List Link} {e' : Expr}
      (hsame : written first' links' = written first links) (h : Groups first' links' e') :
      Takes s ((rules (n + 1)).expression .lowest) (written first links ++ rest) e' rest := by
    rw [← hsame] at hn ⊢
    exact h.takes he hmode (by omega) (fun link _ => (binds?_spec link.binds).2.2) hrest.operand
      (fun link _ => hrest.stop _) (goesOn_stop he (hrest.stop _))
  obtain ⟨e, hgroups⟩ := exists_groups_of_operands hfirst.exists_groups
    fun link hlink => (hlinks link hlink).exists_groups
  refine ⟨e, htakes rfl hgroups, hgroups, fun first' links' e' hsame h => ?_⟩
  exact (htakes hsame h).unique (htakes rfl hgroups)

end Parsing

/-! ### Differences and alternatives

The sequence `((a) - b - 1) or c = 2 and d`. -/

def minus (operand : List Lexeme) : Link := ⟨.operator "-", .sum, by decide, operand⟩

def difference : List Lexeme :=
  inParens (inParens (Lexeme.dotted "a" []) []) [minus (Lexeme.dotted "b" []), minus [⟨.integer, "1"⟩]]

def orC : Link := ⟨.word "or", .or, by decide, Lexeme.dotted "c" []⟩

def equalsTwo : Link := ⟨.operator "=", .comparison, by decide, [⟨.integer, "2"⟩]⟩

def andD : Link := ⟨.word "and", .and, by decide, Lexeme.dotted "d" []⟩

def differenceTree : Expr :=
  .nested (.binary (.binary (.nested (.path ["a"])) "-" (.path ["b"])) "-" (.literal "1"))

def alternativesTree : Expr :=
  .binary differenceTree "or" (.binary (.binary (.path ["c"]) "=" (.literal "2")) "and" (.path ["d"]))

theorem atom_name {name : String} (h : isReserved name = false) :
    Atom (Lexeme.dotted name []) (.path [name]) := .path h []

theorem atom_integer (digits : String) : Atom [⟨.integer, digits⟩] (.literal digits) :=
  .literal (.inl (by simp))

theorem groups_difference : Groups difference [] differenceTree := by
  have hfirst : Groups (inParens (Lexeme.dotted "a" []) []) ([] ++ [minus (Lexeme.dotted "b" [])])
      (.binary (.nested (.path ["a"])) "-" (.path ["b"])) :=
    .operator (by simp) (by simp) (.enclosed (.atom (atom_name (by decide))))
      (.atom (atom_name (by decide)))
  have hboth : Groups (inParens (Lexeme.dotted "a" []) [])
      ([minus (Lexeme.dotted "b" [])] ++ [minus [⟨.integer, "1"⟩]])
      (.binary (.binary (.nested (.path ["a"])) "-" (.path ["b"])) "-" (.literal "1")) :=
    .operator (by simp [minus]) (by simp) hfirst (.atom (atom_integer "1"))
  exact .enclosed hboth

theorem groups_alternatives : Groups difference [orC, equalsTwo, andD] alternativesTree := by
  have hequal : Groups (Lexeme.dotted "c" []) ([] ++ [equalsTwo])
      (.binary (.path ["c"]) "=" (.literal "2")) :=
    .operator (by simp) (by simp) (.atom (atom_name (by decide))) (.atom (atom_integer "2"))
  have hand : Groups (Lexeme.dotted "c" []) ([equalsTwo] ++ [andD])
      (.binary (.binary (.path ["c"]) "=" (.literal "2")) "and" (.path ["d"])) :=
    .operator (by decide) (by simp) hequal (.atom (atom_name (by decide)))
  have hall : Groups difference ([] ++ [orC, equalsTwo, andD]) alternativesTree :=
    .operator (by simp) (by decide) groups_difference hand
  exact hall

theorem takes_sequence_of_alternatives :
    (⟨.hql, .backtracking, ⟨.eof, "", {}⟩⟩ : Setting).Ends ∧ IsOperand difference ∧
    (∀ link ∈ [orC, equalsTwo, andD], IsOperand link.operand) ∧ EndsExpression [] ∧
    Takes ⟨.hql, .backtracking, ⟨.eof, "", {}⟩⟩ ((rules 16).expression .lowest)
      (written difference [orC, equalsTwo, andD] ++ []) alternativesTree [] := by
  have hends : (⟨.hql, .backtracking, ⟨.eof, "", {}⟩⟩ : Setting).Ends := rfl
  have hname {name : String} (h : isReserved name = false) : IsOperand (Lexeme.dotted name []) :=
    .atom (atom_name h)
  have hdifference : IsOperand difference := by
    refine .enclosed (.enclosed (hname (by decide)) (by simp)) ?_
    simpa [minus] using ⟨hname (by decide), .atom (atom_integer "1")⟩
  have hlinks : ∀ link ∈ [orC, equalsTwo, andD], IsOperand link.operand := by
    simpa [orC, equalsTwo, andD] using
      ⟨hname (by decide), .atom (atom_integer "2"), hname (by decide)⟩
  have hrest : EndsExpression [] := ⟨⟨rfl, rfl⟩, rfl⟩
  obtain ⟨e, htakes, -, hunique⟩ := takes_sequence hends rfl hdifference hlinks hrest
    (n := 16) (by decide)
  obtain rfl := hunique _ _ _ rfl groups_alternatives
  exact ⟨hends, hdifference, hlinks, hrest, htakes⟩

end Jpql.Grammar
