import Scriptlet.Proofs.Grammar.Program
import Scriptlet.Proofs.Parser.Lenient

/-!
# Parsers are local

A parser that succeeds has taken some tokens, none of them an end token, and has looked at no
more than one token behind them.  Whatever stands behind that one instead, it succeeds again with
the same result.

## Main definitions

* `Parser.Local` — the result depends on what is taken and on one token behind it

## Main statements

* `Parser.Local.of_resembles` — a parser that advances and resembles itself is local
* `Parser.inner_local` — statements, blocks, `if` chains, expressions and operands

## Design decisions

* The bound is any number that is at least the number of tokens, and another one for the other
  list.  Neither it nor the log decides anything.
* Two lists that go on in different ways can both be too long for the bound of the other run.  So
  they are compared with a third one, which ends with the last token that was looked at.
-/

namespace Scriptlet

namespace Parser

open Likeness

variable {L : Likeness} {α : Type} {n m m' : Nat} {ts us used rest : List Token}

/-! ## Locality -/

/-- **Locality.**  The parser is run with a bound that is large enough.  If it gives `a`, it has
taken one token or more, and no end token.  With these tokens in front of any other list it gives
`a` again and leaves that list; if `ahead a`, the list has to start with the same token, or with
none as well. -/
def Local (ahead : α → Bool) (p : Nat → Parser α) : Prop :=
  ∀ ⦃bound ts log a rest log'⦄, ts.length ≤ bound → p bound ⟨ts, log⟩ = .ok a ⟨rest, log'⟩ →
    ∃ used, ts = used ++ rest ∧ used ≠ [] ∧ (∀ t ∈ used, t.kind ≠ .endOfStream) ∧
      ∀ us bound', (used ++ us).length ≤ bound' → (ahead a → us.head? = rest.head?) →
        Reads (p bound') (used ++ us) a us

/-- **A list with the same tokens in front**, where it decides, is read to the same result. -/
theorem Resembles.reads {ahead : α → Bool} {p q : Parser α} {a : α} {log log' : Log}
    (h : Resembles L n ahead Eq (used ++ rest) p q) (within : (used ++ rest).length ≤ n)
    (ran : p ⟨used ++ rest, log⟩ = .ok a ⟨rest, log'⟩) (agree : L.Agree (ahead a).toNat rest us)
    (within' : (used ++ us).length ≤ n) : Reads q (used ++ us) a us := by
  intro log₁
  obtain ⟨used', taken, -, run⟩ := h within log
  rw [ran] at taken run
  obtain rfl : used = used' := List.append_cancel_right taken
  have matched := run used us log₁ (List.forall₂_refl _) agree within'
  generalize q ⟨used ++ us, log₁⟩ = r at matched
  cases matched with
  | @ok _ b _ log₂ same =>
    subst same
    exact ⟨log₂, rfl⟩

/-- **A parser that advances and resembles itself is local.** -/
theorem Local.of_resembles {ahead : α → Bool} {p : Nat → Parser α}
    (advances : ∀ ts n, Advances ts n (p n) fun _ => True)
    (like : ∀ {n m m'}, n ≤ m → n ≤ m' → ∀ ts, Resembles L n ahead Eq ts (p m) (p m')) :
    Local ahead p := by
  intro bound ts log a rest log' enough ran
  have proceeds := advances ts bound ts enough (.refl ts) log
  rw [ran] at proceeds
  obtain ⟨⟨used, split, inside⟩, shorter, -⟩ : Spent ts rest ∧ rest.length < ts.length ∧ True := by
    cases proceeds with
    | ok spent holds => exact ⟨spent, holds⟩
  obtain rfl : ts = used ++ rest := split
  rw [List.length_append] at shorter
  refine ⟨used, rfl, List.length_pos_iff.mp (by omega), inside, fun us bound' enough' same => ?_⟩
  have agree : L.Agree (ahead a).toNat rest us := .of_head? same
  -- No more is looked at than is left of this list, and both lists are at least as long.
  let seen := rest.take (ahead a).toNat
  have fits : (used ++ seen).length ≤ (used ++ rest).length := by
    rw [List.length_append, List.length_append]
    exact Nat.add_le_add_left (List.length_take_le' _ rest) _
  have fits' : (used ++ seen).length ≤ (used ++ us).length := by
    rw [List.length_append, List.length_append]
    exact Nat.add_le_add_left agree.length_take_le _
  have short : Reads (p (bound + bound')) (used ++ seen) a seen :=
    (like enough (Nat.le_add_right_of_le enough) _).reads (Nat.le_refl _) ran (.take_self _ rest)
      fits
  obtain ⟨log₁, ran'⟩ := short log
  exact (like (Nat.le_add_left_of_le enough') enough' _).reads fits' ran' (Agree.take_iff.mpr agree)
    (Nat.le_refl _)

/-! ## The inner parsers

With two bounds that are large enough each of them does the same. -/

section Inner

variable (least : Nat) (site : Site) (enough : n ≤ m) (enough' : n ≤ m') (ts : List Token)

include enough enough'

theorem binary_self :
    Resembles exact n (fun _ => true) Eq ts (binary m least) (binary m' least) :=
  (binary_resembles least enough enough' ts).imp fun _ _ same => same.eq Expr.mapSites_id

theorem factor_self :
    Resembles exact n (fun _ => true) Eq ts (factor (expression m) m)
      (factor (expression m') m') :=
  (factor_resembles (expression_resembles enough enough') (starves_binary m 0)
    (starves_binary m' 0) (Nat.le_succ n) enough enough' ts).imp
      fun _ _ same => same.eq Expr.mapSites_id

/-- The parser's own check is the same for both sides. -/
theorem statement_self :
    Resembles exact n Stmt.isBranch (exact.Same Stmt.mapSites) ts (statement m)
      (statement m') := by
  have checks : exact.Checks (duplicate? []) := checks_duplicate? trivial
  have like := statement_resembles checks enough enough' ts
  rwa [statementBy_duplicate?] at like

theorem block_self :
    Resembles exact n (fun _ => false) Eq ts (block (statement m) m)
      (block (statement m') m') :=
  (block_resembles (statement_self enough enough') (statement_moves enough) (Nat.le_succ n)
    (Nat.le_succ_of_le enough) (Nat.le_succ_of_le enough') ts).imp
      fun _ _ same => same.eq Block.mapSites_id

theorem conditional_self :
    Resembles exact n (fun _ => true) Eq ts (conditional (statement m) m site)
      (conditional (statement m') m' site) :=
  (conditional_resembles (statement_self enough enough') (statement_moves enough) (fun _ => rfl)
    (Nat.le_refl n) enough enough' ts).imp fun _ _ same => same.eq Conditional.mapSites_id

end Inner

theorem factor_advances (all : List Token) (bound : Nat) :
    Advances all bound (factor (expression bound) bound) fun _ => True := fun _ within =>
  factor_steady (expression_advances bound) (Nat.le_succ_of_le within) within

theorem block_advances (all : List Token) (bound : Nat) :
    Advances all bound (block (statement bound) bound) fun _ => True := fun _ within =>
  (block_steady (statement_advances bound) (Nat.le_succ_of_le within)
    (Nat.le_succ_of_le within)).mono fun _ _ shorter => ⟨shorter, trivial⟩

theorem conditional_advances (site : Site) (all : List Token) (bound : Nat) :
    Advances all bound (conditional (statement bound) bound site) fun _ => True := fun _ within =>
  (conditional_steady (statement_advances bound) within within).mono
    fun _ _ shorter => ⟨shorter, trivial⟩

/-- **Every inner parser is local.**  Of what stands behind them, `if` chains, expressions and
operands look at the next token; blocks and all other statements look at nothing. -/
theorem inner_local :
    Local Stmt.isBranch statement ∧
    Local (fun _ => false) (fun bound => block (statement bound) bound) ∧
    (∀ site, Local (fun _ => true) fun bound => conditional (statement bound) bound site) ∧
    Local (fun _ => true) expression ∧
    (∀ least, Local (fun _ => true) fun bound => binary bound least) ∧
    Local (fun _ => true) fun bound => factor (expression bound) bound := by
  have expressions (least : Nat) : Local (fun _ => true) fun bound => binary bound least :=
    .of_resembles (fun _ bound => binary_advances bound least) (binary_self least)
  have statements : Local Stmt.isBranch statement :=
    .of_resembles (fun _ => statement_advances) fun enough enough' ts =>
      (statement_self enough enough' ts).imp fun _ _ same => same.eq Stmt.mapSites_id
  refine ⟨statements, ?_, fun site => ?_, expressions 0, expressions, ?_⟩
  · exact .of_resembles block_advances block_self
  · exact .of_resembles (conditional_advances site) (conditional_self site)
  · exact .of_resembles factor_advances factor_self

/-- The text `if a { }`. -/
def ifChain : List Token :=
  List.map .unplaced
    [.keyword .ifWord, .identifier "a", .mark .leftBrace, .mark .rightBrace]

/-- In front of a semicolon the chain is what it is, whatever stands behind that; the semicolon is
a statement in front of anything. -/
theorem inner_local_of_chain :
    let semicolon : Token := .unplaced (.mark .semicolon)
    let rest : List Token := [semicolon, .unplaced .endOfStream]
    let branch : Stmt := .branch ⟨.var "a" .unknown, ⟨[], .unknown⟩, .done, .unknown⟩
    statement 6 ⟨ifChain ++ rest, .silent⟩ = .ok branch ⟨rest, .silent⟩ ∧
    (∀ us bound, us.length + 5 ≤ bound →
      Reads (statement bound) (ifChain ++ semicolon :: us) branch (semicolon :: us)) ∧
    statement 2 ⟨rest, .silent⟩ = .ok (.empty .unknown) ⟨[.unplaced .endOfStream], .silent⟩ ∧
    ∀ us bound, us.length + 1 ≤ bound →
      Reads (statement bound) (semicolon :: us) (.empty .unknown) us := by
  intro semicolon rest branch
  obtain ⟨used, taken, -, -, run⟩ :=
    inner_local.1 (by decide : (ifChain ++ rest).length ≤ 6) (rfl : statement 6 ⟨_, .silent⟩ = _)
  obtain ⟨used', taken', -, -, run'⟩ :=
    inner_local.1 (by decide : rest.length ≤ 2) (rfl : statement 2 ⟨_, .silent⟩ = _)
  obtain rfl : ifChain = used := List.append_cancel_right taken
  obtain rfl : [semicolon] = used' := List.append_cancel_right taken'
  refine ⟨rfl, fun us bound enough => ?_, rfl, fun us bound enough => ?_⟩
  · exact run (semicolon :: us) bound enough fun _ => rfl
  · exact run' us bound enough nofun

end Parser

end Scriptlet
