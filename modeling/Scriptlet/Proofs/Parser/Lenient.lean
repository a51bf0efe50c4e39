import Scriptlet.Proofs.Parser.Alike
import Scriptlet.Proofs.Parser.Progress

/-!
# Parsing with another check of parameters

Repeated parameters are found when the whole list of parameters has been read.  With another
check in its place, or with none, the parser reads as before.

## Main definitions

* `Parser.functionBy`, `Parser.statementBy`, `Parser.programBy` — parsers with a given check
* `parseBy` — the program of a token list, with a given check
* `Accepted` — a token list is parsed if repeated parameters do not count
* `Likeness.Checks` — a check that does on parameters what `Parser.duplicate?` does

## Main statements

* `parseBy_duplicate?` — with its own check the parser is what it was
* `Parser.statement_resembles`, `Parser.program_resembles` — statements and programs

## Design decisions

* Only function definitions check anything.  The other statements are those of
  `Parser.statementAt`, with another parser for the statements inside.
* On the one side there is always the parser with its own check.
-/

namespace Scriptlet

namespace Parser

section Definitions

variable (repeated? : List Parameter → Option Parameter)

/-- A function definition behind its name, with a given check. -/
def functionNamed (item : Parser Stmt) (bound : Nat) (returnType : DeclaredType) (site : Site)
    (name : String) : Parser Stmt := do
  let _ ← expect (.mark .leftParen) "'(' after the function name"
  let parameters ← separated parameter .rightParen bound
  match repeated? parameters with
  | some p => throw (.duplicateParameter name p.name p.site)
  | none =>
    let body ← block item bound
    return .define ⟨name, returnType, parameters, body, site⟩

/-- **Function definition** from its name on, with a given check. -/
def functionBy (item : Parser Stmt) (bound : Nat) (returnType : DeclaredType) (site : Site) :
    Parser Stmt := do
  let (name, _) ← identifier
  functionNamed repeated? item bound returnType site name

/-- **Declaration** of a function or of a variable, with a given check. -/
def declarationBy (item : Parser Stmt) (bound : Nat) (site : Site) : Parser Stmt := do
  let type ← typeSpec
  let t ← peek
  match t.kind with
  | .keyword .function =>
    advance
    functionBy repeated? item bound type site
  | .identifier _ =>
    if (← peekSecond?) = some (.mark .leftParen) then functionBy repeated? item bound type site
    else variableDeclaration bound type site
  | _ => variableDeclaration bound type site

/-- The statement that starts with the token `t`, with a given check. -/
def statementAtBy (item : Parser Stmt) (bound : Nat) (t : Token) : Parser Stmt :=
  if t.flags.dataType then declarationBy repeated? item bound t.site
  else statementAt item bound t

/-- **Statement**, with a given check. -/
def statementBy : Nat → Parser Stmt
  | 0 => exhausted
  | bound + 1 => do
    let t ← peek
    let s ← statementAtBy repeated? (statementBy bound) bound t
    note (.parsedStatement s.kind s.site)
    return s

/-- **Program**, with a given check. -/
def programBy (bound : Nat) : Parser Block := do
  let t ← peek
  let body ← statements (statementBy repeated? bound) false bound
  return ⟨body, t.site⟩

end Definitions

/-- What a variable declaration and a reassignment have behind the name. -/
def bindingNamed (bound : Nat) (equals semicolon : String) (make : String → Site → Expr → Stmt)
    (name : String) (site : Site) : Parser Stmt := do
  let _ ← expect (.mark .equals) equals
  let value ← expression bound
  let _ ← expect (.mark .semicolon) semicolon
  return make name site value

theorem binding_eq (bound : Nat) (equals semicolon : String) (make : String → Site → Expr → Stmt) :
    binding bound equals semicolon make =
      identifier >>= fun r => bindingNamed bound equals semicolon make r.1 r.2 := rfl

theorem statementAtBy_duplicate? : statementAtBy (duplicate? []) = statementAt := by
  funext item bound t
  unfold statementAtBy
  split
  · next declares => exact (if_pos declares).symm
  · rfl

theorem statementBy_duplicate? (bound : Nat) :
    statementBy (duplicate? []) bound = statement bound := by
  induction bound with
  | zero => rfl
  | succ bound ih => rw [statementBy, statement, ih, statementAtBy_duplicate?]

theorem programBy_duplicate? (bound : Nat) : programBy (duplicate? []) bound = program bound := by
  rw [programBy, program, statementBy_duplicate?]

end Parser

/-- **Program of a token list**, with a given check. -/
def parseBy (repeated? : List Parameter → Option Parameter) (tokens : List Token) :
    Except ParseError Block :=
  (Parser.parts (Parser.programBy repeated?) tokens).map Prod.fst

/-- **Acceptance**, where repeated parameters do not count. -/
def Accepted (tokens : List Token) : Prop := ∃ b, parseBy (fun _ => none) tokens = .ok b

/-- With its own check the parser is what it was. -/
theorem parseBy_duplicate? : parseBy (Parser.duplicate? []) = parse := by
  funext tokens
  rw [parseBy, parse, funext Parser.programBy_duplicate?]

/-- Whether the statement is an `if` chain. -/
def Stmt.isBranch : Stmt → Bool
  | .branch _ => true
  | _ => false

/-- **Checks that are alike.**  On parameters like those that have no repetition the check finds
none either; a repetition that the parser reports it reports too, unless that need not be one. -/
def Likeness.Checks (L : Likeness) (repeated? : List Parameter → Option Parameter) : Prop :=
  ∀ ps qs, List.Forall₂ (L.Same Parameter.mapSites) ps qs →
    match Parser.duplicate? [] ps with
    | none => repeated? qs = none
    | some p => L.lenient ∨ ∃ q, repeated? qs = some q ∧ L.Same Parameter.mapSites p q

namespace Parser

open Likeness

variable {L : Likeness} {n k m m' : Nat} {ts us : List Token}

/-! ## Parts of statements -/

theorem parameter_resembles (ts : List Token) :
    Resembles L n (fun _ => false) (L.Same Parameter.mapSites) ts parameter parameter := by
  refine .peek fun t u us k _ _ like => typeSpec_resembles.bind fun type type' rest same => ?_
  subst same
  refine identifier_resembles.map fun r r' name named => ?_
  rw [Parameter.mapSites, Parameter.mapSites, like.place named, (name named).1]

theorem starves_parameter : Starves parameter := starves_peek _

/-- A statement that is made of a name and a value. -/
theorem bindingNamed_resembles {equals semicolon : String}
    {make make' : String → Site → Expr → Stmt} {name name' : String} {site site' : Site}
    (made : ∀ value value', L.Same Expr.mapSites value value' →
      L.Same Stmt.mapSites (make name site value) (make' name' site' value'))
    (enough : n ≤ m) (enough' : n ≤ m') :
    Resembles L n (fun _ => false) (L.Same Stmt.mapSites) ts
      (bindingNamed m equals semicolon make name site)
      (bindingNamed m' equals semicolon make' name' site') := by
  refine (expect_resembles rfl _).bind fun _ _ _ _ => ?_
  refine (expression_resembles enough enough' _).bind fun e e' _ same => ?_
  exact (expect_resembles rfl _).map fun _ _ _ => made e e' same

theorem returned_resembles {site site' : Site} (place : L.named → L.place site = L.place site')
    (enough : n ≤ m) (enough' : n ≤ m') :
    Resembles L n (fun _ => false) (L.Same Stmt.mapSites) ts (returned m site)
      (returned m' site') := by
  refine .peek fun t u us k _ size like => ?_
  by_cases stops : t.kind = .mark .semicolon
  · rw [if_pos stops, if_pos ((like.kind_eq_iff rfl).mp stops)]
    refine .advance_pure fun named => ?_
    rw [Stmt.mapSites, Stmt.mapSites, place named]
  · rw [if_neg stops, if_neg (mt (like.kind_eq_iff rfl).mpr stops), ← size]
    refine (expression_resembles enough enough' _).bind fun e e' _ same => ?_
    refine (expect_resembles rfl _).map fun _ _ _ named => ?_
    rw [Stmt.mapSites, Stmt.mapSites, place named, Option.map_some, Option.map_some, same named]

/-- The token behind a name is within reach: an error at the name is one that two tokens
decide. -/
theorem callStatement_resembles {t u : Token} {name name' : String} (like : L.Alike t u)
    (kind : t.kind = .identifier name) (names : L.named → name = name') (enough : n ≤ m)
    (enough' : n ≤ m') :
    Resembles L (n + 1) (fun _ => false) (L.Same Stmt.mapSites) (t :: us)
      (callStatement m name t.site) (callStatement m' name' u.site) := by
  intro within
  refine Resembles.peekSecond (fun second second' found same log => ?_) within
  have assignment : ReadsAlike L (n + 1) 2 (fun _ => false) (L.Same Stmt.mapSites) (t :: us)
      (throw (.untypedAssignment name' u.site))
      ((throw (.untypedAssignment name t.site) : Parser Stmt) ⟨t :: us, log⟩) := by
    refine ⟨[], rfl, Nat.le_refl _, fun used' rest log' alike _ _ => ?_⟩
    obtain rfl := List.forall₂_nil_left_iff.mp alike
    refine .error fun named => ?_
    rw [ParseError.mapSites, ParseError.mapSites, names named, like.place named]
  have line : ReadsAlike L (n + 1) 2 (fun _ => false) (L.Same Stmt.mapSites) (t :: us)
      (throw (.cannotParseLine name' u.site))
      ((throw (.cannotParseLine name t.site) : Parser Stmt) ⟨t :: us, log⟩) := by
    have two : (ParseError.cannotParseLine name t.site).ahead (t :: us) = 2 := by
      rw [ParseError.ahead, List.head?_cons, Option.any_some, kind]
      rfl
    refine ⟨[], rfl, Nat.le_add_left_of_le (Nat.le_of_eq two.symm),
      fun used' rest log' alike _ _ => ?_⟩
    obtain rfl := List.forall₂_nil_left_iff.mp alike
    refine .error fun named => ?_
    rw [ParseError.mapSites, ParseError.mapSites, names named, like.place named]
  rcases TokenKind.map_unnamed_cases same with rfl | ⟨a, b, rfl, rfl⟩
  · cases second with
    | none => exact line
    | some second =>
      cases second with
      | mark mark =>
        cases mark with
        | leftParen =>
          -- The bracket is taken along with the name.
          cases us with
          | nil => cases found
          | cons opening us =>
            have behind : Resembles L (n + 1) (fun _ => false) (L.Same Stmt.mapSites)
                (opening :: us)
                (do
                  advance
                  let args ← arguments (expression m) m
                  let _ ← expect (.mark .semicolon) "';' after the call"
                  return .call name args t.site)
                (do
                  advance
                  let args ← arguments (expression m') m'
                  let _ ← expect (.mark .semicolon) "';' after the call"
                  return .call name' args u.site) := by
              have arguments := separated_resembles (L := L)
                (expression_resembles enough enough') (starves_binary _ _) (starves_binary _ _)
                .rightParen enough enough' us
              refine .advance (arguments.bind fun args args' _ sames => ?_)
              refine (expect_resembles rfl _).map fun _ _ _ named => ?_
              rw [Stmt.mapSites, Stmt.mapSites, Same.map sames named, names named, like.place named]
            have after := behind.mono (Nat.le_succ n) (Nat.le_of_succ_le_succ within) log
            exact readsAlike_cons fun _ _ => ⟨_, fun _ _ => rfl, after⟩
        | equals => exact assignment
        | _ => exact line
      | _ => exact line
  · exact line

section Statements

variable {item item' : Parser Stmt}
  (like : ∀ ts, Resembles L n Stmt.isBranch (L.Same Stmt.mapSites) ts item item')

theorem starves_statements (item : Parser Stmt) (braced : Bool) (m : Nat) :
    Starves (statements item braced m) := by
  cases m with
  | zero => exact starves_exhausted
  | succ m => exact starves_peek _

theorem starves_conditional (item : Parser Stmt) (m : Nat) (site : Site) :
    Starves (conditional item m site) := by
  cases m with
  | zero => exact starves_exhausted
  | succ m => exact (starves_binary _ _).bind _

variable (moves : ∀ ⦃ts log s rest log'⦄, ts.length ≤ n → item ⟨ts, log⟩ = .ok s ⟨rest, log'⟩ →
  rest.length < ts.length)

include like moves

theorem statements_resembles (braced : Bool) (within : k ≤ n) (enough : k ≤ m) (enough' : k ≤ m')
    (ts : List Token) :
    Resembles L k (fun _ => !braced) (List.Forall₂ (L.Same Stmt.mapSites)) ts
      (statements item braced m) (statements item' braced m') := by
  induction k, m, m', enough, enough' using below_induction generalizing ts with
  | zero m m' => exact .of_starves (starves_statements _ _ _) (starves_statements _ _ _)
  | succ k m m' enough enough' ih =>
    intro shorter
    refine Resembles.peek (fun t u us j tokens size first => ?_) shorter
    obtain rfl := Nat.succ.inj size
    have closing : (braced = true ∧ t.kind = .mark .rightBrace) ↔
        (braced = true ∧ u.kind = .mark .rightBrace) :=
      and_congr_right fun _ => first.kind_eq_iff rfl
    by_cases closes : braced = true ∧ t.kind = .mark .rightBrace
    · rw [if_pos closes, if_pos (closing.mp closes), closes.1]
      exact .advance_pure .nil
    · rw [if_neg closes, if_neg (mt closing.mpr closes)]
      by_cases ends : t.kind = .endOfStream
      · rw [if_pos ends, if_pos ((first.kind_eq_iff rfl).mp ends)]
        cases braced with
        | true =>
          refine .throw fun named => ?_
          rw [ParseError.mapSites, ParseError.mapSites, first.place named]
        | false => exact .pure .nil
      · rw [if_neg ends, if_neg (mt (first.kind_eq_iff rfl).mpr ends)]
        refine ((like _).mono within).bind_behind fun s s' rest i log log' left _ same ran => ?_
        -- A statement takes a token, so the others are within the smaller bound.
        have fewer := moves (Nat.le_trans (tokens ▸ shorter) within) ran
        have others := ih (Nat.le_of_succ_le within) rest
        exact (others.mono (by omega)).map fun ss ss' sames => .cons same sames

theorem block_resembles (within : k ≤ n + 1) (enough : k ≤ m + 1) (enough' : k ≤ m' + 1)
    (ts : List Token) :
    Resembles L k (fun _ => false) (L.Same Block.mapSites) ts (block item m) (block item' m') := by
  refine (expect_resembles rfl _).bind_behind fun brace brace' us i log log' size _ first ran => ?_
  obtain ⟨tokens, -⟩ := expect_ok ran
  obtain rfl : ts = brace :: us := tokens
  rw [List.length_cons] at size
  have body := statements_resembles like moves true (by omega : i ≤ n) (by omega : i ≤ m)
    (by omega : i ≤ m') us
  refine body.map fun ss ss' same named => ?_
  rw [Block.mapSites, Block.mapSites, Stmt.mapSitesAll_eq, Stmt.mapSitesAll_eq,
    Same.map same named, first.place named]

theorem conditional_resembles {site site' : Site} (place : L.named → L.place site = L.place site')
    (within : k ≤ n) (enough : k ≤ m) (enough' : k ≤ m') (ts : List Token) :
    Resembles L k (fun _ => true) (L.Same Conditional.mapSites) ts (conditional item m site)
      (conditional item' m' site') := by
  induction k, m, m', enough, enough' using below_induction generalizing ts site site' with
  | zero m m' => exact .of_starves (starves_conditional _ _ _) (starves_conditional _ _ _)
  | succ k m m' enough enough' ih =>
    refine (expression_resembles (Nat.succ_le_succ enough) (Nat.succ_le_succ enough') _).bind
      fun e e' vs condition => ?_
    refine (block_resembles like moves (by omega) (by omega) (by omega) _).bind
      fun b b' ws body => ?_
    refine .peek fun t u us j _ size first => ?_
    obtain rfl := Nat.succ.inj size
    have done : Resembles L (k + 1) (fun _ => true) (L.Same Conditional.mapSites) (t :: us)
        (pure ⟨e, b, .done, site⟩) (pure ⟨e', b', .done, site'⟩) := by
      refine .pure fun named => ?_
      rw [Conditional.mapSites, Conditional.mapSites, condition named, body named, place named,
        Otherwise.mapSites]
    rcases first.kind_cases with same | ⟨a, a', kind, kind', -⟩
    · rw [← same]
      cases t.kind with
      | keyword word =>
        cases word with
        | elifWord =>
          have next := ih first.place (Nat.le_of_succ_le within) us
          refine .advance (next.map fun link link' same named => ?_)
          rw [Conditional.mapSites, Conditional.mapSites, condition named, body named, place named,
            Otherwise.mapSites, Otherwise.mapSites, same named]
        | elseWord =>
          have last := block_resembles like moves (by omega : k ≤ n + 1) (by omega : k ≤ m + 1)
            (by omega : k ≤ m' + 1) us
          refine .advance (last.bind fun b b' _ same => .pure fun named => ?_)
          rw [Conditional.mapSites, Conditional.mapSites, condition named, body named, place named,
            Otherwise.mapSites, Otherwise.mapSites, same named, first.place named]
        | _ => exact done
      | _ => exact done
    · rw [kind, kind']
      exact done

theorem whileLoop_resembles {site site' : Site} (place : L.named → L.place site = L.place site')
    (within : k ≤ n) (enough : k ≤ m) (enough' : k ≤ m') :
    Resembles L k (fun _ => false) (L.Same Stmt.mapSites) ts (whileLoop item m site)
      (whileLoop item' m' site') := by
  refine (expression_resembles enough enough' _).bind fun e e' vs condition => ?_
  refine (block_resembles like moves (by omega) (by omega) (by omega) _).map
    fun b b' body named => ?_
  rw [Stmt.mapSites, Stmt.mapSites, condition named, body named, place named]

theorem countedLoop_resembles {site site' : Site} (place : L.named → L.place site = L.place site')
    (within : k ≤ n) (enough : k ≤ m) (enough' : k ≤ m') :
    Resembles L k (fun _ => false) (L.Same Stmt.mapSites) ts (countedLoop item m site)
      (countedLoop item' m' site') := by
  refine (expression_resembles enough enough' _).bind fun e e' _ start => ?_
  refine (expect_resembles rfl _).bind fun _ _ _ _ => ?_
  refine (expression_resembles enough enough' _).bind fun e e' _ stop => ?_
  refine (expect_resembles rfl _).bind fun _ _ _ _ => ?_
  refine (expression_resembles enough enough' _).bind fun e e' _ step => ?_
  refine (block_resembles like moves (by omega) (by omega) (by omega) _).map
    fun b b' body named => ?_
  rw [Stmt.mapSites, Stmt.mapSites, start named, stop named, step named, body named, place named]

variable {repeated? : List Parameter → Option Parameter} (checks : L.Checks repeated?)

include checks

/-- Behind the name of a function. -/
theorem functionNamed_resembles {type : DeclaredType} {name name' : String} {site site' : Site}
    (names : L.named → name = name') (place : L.named → L.place site = L.place site')
    (within : k ≤ n) (enough : k ≤ m) (enough' : k ≤ m') :
    Resembles L k (fun _ => false) (L.Same Stmt.mapSites) ts
      (functionNamed (duplicate? []) item m type site name)
      (functionNamed repeated? item' m' type site' name') := by
  refine (expect_resembles rfl _).bind fun _ _ us _ => ?_
  have parameters := separated_resembles (L := L) parameter_resembles starves_parameter
    starves_parameter .rightParen enough enough' us
  refine parameters.bind fun ps ps' rest same => ?_
  have found := checks ps ps' same
  cases repeats : duplicate? [] ps with
  | none =>
    rw [repeats] at found
    simp only [found]
    refine (block_resembles like moves (by omega) (by omega) (by omega) _).map
      fun b b' body named => ?_
    rw [Stmt.mapSites, Stmt.mapSites, Function.mapSites, Function.mapSites, body named, place named,
      names named, Same.map same named]
  | some p =>
    rw [repeats] at found
    rcases found with free | ⟨q, found, alike⟩
    · exact .of_lenient free rfl
    · simp only [found]
      refine .throw fun named => ?_
      have same := alike named
      have name := congrArg Parameter.name same
      have place := congrArg Parameter.site same
      rw [Parameter.name_mapSites, Parameter.name_mapSites] at name
      change L.place p.site = L.place q.site at place
      rw [ParseError.mapSites, ParseError.mapSites, names named, name, place]

theorem declaration_resembles {site site' : Site} (place : L.named → L.place site = L.place site')
    (within : k ≤ n + 1) (enough : k ≤ m + 1) (enough' : k ≤ m' + 1) :
    Resembles L k (fun _ => false) (L.Same Stmt.mapSites) ts (declaration item m site)
      (declarationBy repeated? item' m' site') := by
  intro shorter
  refine typeSpec_resembles.bind_behind
    (fun type type' rest i log log' size _ same ran => ?_) shorter
  subst same
  -- The type takes a token, so what is behind it is within the bounds.
  have fewer := (typeSpec_advances ts.length).length_lt (Nat.le_refl _) ran
  have asFunction (vs : List Token) {j : Nat} (le : j ≤ i) : Resembles L j (fun _ => false)
      (L.Same Stmt.mapSites) vs (function item m type site)
      (functionBy repeated? item' m' type site') := by
    refine identifier_resembles.bind fun r r' _ name => ?_
    exact functionNamed_resembles like moves checks (fun named => (name named).1) place (by omega)
      (by omega) (by omega)
  have value (name name' : String) (names : L.named → name = name') (nameSite nameSite' : Site)
      (places : L.named → L.place nameSite = L.place nameSite') (vs : List Token) {j : Nat}
      (le : j ≤ i) : Resembles L j (fun _ => false) (L.Same Stmt.mapSites) vs
        (bindingNamed m "'=' after the variable name" "';' after the declaration"
          (fun name nameSite value => .declare type name nameSite value site) name nameSite)
        (bindingNamed m' "'=' after the variable name" "';' after the declaration"
          (fun name nameSite value => .declare type name nameSite value site') name'
          nameSite') := by
    refine bindingNamed_resembles (fun e e' same named => ?_) (by omega) (by omega)
    rw [Stmt.mapSites, Stmt.mapSites, names named, places named, same named, place named]
  have asVariable : Resembles L i (fun _ => false) (L.Same Stmt.mapSites) rest
      (variableDeclaration m type site) (variableDeclaration m' type site') := by
    refine identifier_resembles.bind fun r r' vs name => ?_
    exact value _ _ (fun named => (name named).1) _ _ (fun named => (name named).2) vs
      (Nat.le_refl i)
  intro size''
  refine Resembles.peek (fun t u us j tokens size' first => ?_) size''
  subst tokens
  subst size'
  -- With a name ahead the token behind it tells the two apart, and either takes the name.
  have named (name : String) (kind : t.kind = .identifier name) :
      Resembles L (j + 1) (fun _ => false) (L.Same Stmt.mapSites) (t :: us)
        (do
          if (← peekSecond?) = some (.mark .leftParen) then function item m type site
          else variableDeclaration m type site)
        (do
          if (← peekSecond?) = some (.mark .leftParen) then functionBy repeated? item' m' type site'
          else variableDeclaration m' type site') := by
    refine .peekSecond fun second second' _ same log => ?_
    have opening : second = some (.mark .leftParen) ↔ second' = some (.mark .leftParen) := by
      rcases TokenKind.map_unnamed_cases same with rfl | ⟨a, b, rfl, rfl⟩
      · rfl
      · simp
    by_cases opens : second = some (.mark .leftParen)
    · rw [if_pos opens, if_pos (opening.mp opens)]
      refine readsAlike_identifier kind (fun r name => ?_) (Nat.le_of_succ_le_succ size'') log
      exact functionNamed_resembles like moves checks (fun named => (name named).1) place (by omega)
        (by omega) (by omega)
    · rw [if_neg opens, if_neg (mt opening.mpr opens)]
      refine readsAlike_identifier kind (fun r name => ?_) (Nat.le_of_succ_le_succ size'') log
      exact value _ _ (fun named => (name named).1) _ _ (fun named => (name named).2) us
        (Nat.le_succ j)
  rcases first.kind_cases with same | ⟨a, b, kind, kind', names⟩
  · rw [← same]
    cases kind : t.kind with
    | keyword word =>
      cases word with
      | function => exact .advance (asFunction us (Nat.le_succ j))
      | _ => exact asVariable
    | identifier name => exact named name kind
    | _ => exact asVariable
  · rw [kind, kind']
    exact named a kind

/-- A statement behind the look at its first token. -/
theorem statementAt_resembles {t u : Token} (first : L.Alike t u) (within : k ≤ n) (enough : k ≤ m)
    (enough' : k ≤ m') (us : List Token) :
    Resembles L (k + 1) Stmt.isBranch (L.Same Stmt.mapSites) (t :: us) (statementAt item m t)
      (statementAtBy repeated? item' m' u) := by
  have closed {p q : Parser Stmt} (h : Resembles L (k + 1) (fun _ => false) (L.Same Stmt.mapSites)
      (t :: us) p q) : Resembles L (k + 1) Stmt.isBranch (L.Same Stmt.mapSites) (t :: us) p q :=
    h.of_closed Stmt.isBranch
  have behind {p q : Parser Stmt}
      (h : Resembles L k (fun _ => false) (L.Same Stmt.mapSites) us p q) :
      Resembles L (k + 1) Stmt.isBranch (L.Same Stmt.mapSites) (t :: us) (advance >>= fun _ => p)
        (advance >>= fun _ => q) := closed (.advance h)
  have line : Resembles L (k + 1) Stmt.isBranch (L.Same Stmt.mapSites) (t :: us)
      (throw (.cannotParseLine t.lexeme t.site)) (throw (.cannotParseLine u.lexeme u.site)) := by
    refine .throw fun named => ?_
    rw [ParseError.mapSites, ParseError.mapSites, first.lexeme named, first.place named]
  unfold statementAtBy
  rw [← first.flags]
  by_cases declares : t.flags.dataType = true
  · rw [statementAt, if_pos declares, if_pos declares]
    exact closed (declaration_resembles like moves checks first.place (Nat.succ_le_succ within)
      (Nat.succ_le_succ enough) (Nat.succ_le_succ enough'))
  rw [if_neg declares]
  unfold statementAt
  rw [← first.flags, if_neg declares, if_neg declares]
  rcases first.kind_cases with same | ⟨a, b, kind, kind', names⟩
  · rw [← same]
    cases kind : t.kind with
    | mark mark =>
      cases mark with
      | leftBrace =>
        have body := block_resembles like moves (Nat.succ_le_succ within)
          (Nat.succ_le_succ enough) (Nat.succ_le_succ enough') (t :: us)
        refine closed (body.map fun b b' same named => ?_)
        rw [Stmt.mapSites, Stmt.mapSites, same named]
      | semicolon =>
        refine closed (.advance_pure fun named => ?_)
        rw [Stmt.mapSites, Stmt.mapSites, first.place named]
      | _ => exact line
    | keyword word =>
      cases word with
      | returnWord => exact behind (returned_resembles first.place enough enough')
      | ifWord =>
        have chain := conditional_resembles like moves first.place within enough enough' us
        refine .advance (chain.finish (fun _ _ => .pure _ _) (fun _ _ => .pure _ _) (fun _ => rfl)
          fun link link' same named => ?_)
        rw [Stmt.mapSites, Stmt.mapSites, same named]
      | whileWord => exact behind (whileLoop_resembles like moves first.place within enough enough')
      | fromWord =>
        exact behind (countedLoop_resembles like moves first.place within enough enough')
      | now =>
        refine behind ?_
        rw [reassignment_eq, reassignment_eq, binding_eq, binding_eq]
        refine identifier_resembles.bind fun r r' vs name => ?_
        refine bindingNamed_resembles (fun e e' same named => ?_) enough enough'
        rw [Stmt.mapSites, Stmt.mapSites, (name named).1, (name named).2, same named,
          first.place named]
      | _ => exact line
    | identifier name =>
      exact closed (callStatement_resembles first kind (fun _ => rfl) enough enough')
    | endOfStream =>
      refine .throw fun named => ?_
      rw [ParseError.mapSites, ParseError.mapSites, first.place named]
    | _ => exact line
  · rw [kind, kind']
    exact closed (callStatement_resembles first kind names enough enough')

end Statements

theorem starves_statement (m : Nat) : Starves (statement m) := by
  cases m with
  | zero => exact starves_exhausted
  | succ m => exact starves_peek _

theorem starves_statementBy (repeated? : List Parameter → Option Parameter) (m : Nat) :
    Starves (statementBy repeated? m) := by
  cases m with
  | zero => exact starves_exhausted
  | succ m => exact starves_peek _

/-- A statement leaves fewer tokens. -/
theorem statement_moves (enough : n ≤ m) ⦃ts : List Token⦄ ⦃log : Log⦄ ⦃s : Stmt⦄
    ⦃rest : List Token⦄ ⦃log' : Log⦄ (within : ts.length ≤ n)
    (ran : statement m ⟨ts, log⟩ = .ok s ⟨rest, log'⟩) : rest.length < ts.length :=
  (statement_advances m).length_lt (Nat.le_trans within enough) ran

/-- **Statements resemble.** -/
theorem statement_resembles {repeated? : List Parameter → Option Parameter}
    (checks : L.Checks repeated?) (enough : n ≤ m) (enough' : n ≤ m') (ts : List Token) :
    Resembles L n Stmt.isBranch (L.Same Stmt.mapSites) ts (statement m)
      (statementBy repeated? m') := by
  induction n, m, m', enough, enough' using below_induction generalizing ts with
  | zero m m' => exact .of_starves (starves_statement _) (starves_statementBy _ _)
  | succ n m m' enough enough' ih =>
    refine .peek fun t u us k _ size first => ?_
    obtain rfl := Nat.succ.inj size
    have step := statementAt_resembles ih (statement_moves enough) checks first (Nat.le_refl n)
      enough enough' us
    exact step.finish (fun s rest => (note_reads _ _).bind (.pure s _))
      (fun s rest => (note_reads _ _).bind (.pure s _)) (fun _ => rfl) fun _ _ same => same

/-- **Programs resemble.** -/
theorem program_resembles {repeated? : List Parameter → Option Parameter}
    (checks : L.Checks repeated?) (enough : n ≤ m) (enough' : n ≤ m') (ts : List Token) :
    Resembles L n (fun _ => true) (L.Same Block.mapSites) ts (program m)
      (programBy repeated? m') := by
  refine .peek fun t u us k _ size first => ?_
  subst size
  have body := statements_resembles (statement_resembles checks enough enough')
    (statement_moves enough) false (Nat.le_refl _) enough enough' (t :: us)
  refine body.bind fun ss ss' rest same => .pure fun named => ?_
  rw [Block.mapSites, Block.mapSites, Stmt.mapSitesAll_eq, Stmt.mapSitesAll_eq, Same.map same named,
    first.place named]

/-- The check finds the same parameter at any sites. -/
theorem duplicate?_mapSites (f : Site → Site) (seen : List String) (ps : List Parameter) :
    duplicate? seen (ps.map (Parameter.mapSites f)) =
      (duplicate? seen ps).map (Parameter.mapSites f) := by
  induction ps generalizing seen with
  | nil => rfl
  | cons p ps ih =>
    rw [List.map_cons, duplicate?, duplicate?, Parameter.name_mapSites]
    split
    · rfl
    · exact ih _

end Parser

/-- Where names count the parser's own check is like itself. -/
theorem Likeness.checks_duplicate? {L : Likeness} (named : L.named) :
    L.Checks (Parser.duplicate? []) := by
  intro ps qs same
  have found := congrArg (Parser.duplicate? []) (Same.map same named)
  rw [Parser.duplicate?_mapSites, Parser.duplicate?_mapSites] at found
  cases repeats : Parser.duplicate? [] ps with
  | none =>
    rw [repeats] at found
    exact Option.map_eq_none_iff.mp found.symm
  | some p =>
    rw [repeats] at found
    obtain ⟨q, repeats', same⟩ := Option.map_eq_some_iff.mp found.symm
    exact .inr ⟨q, repeats', fun _ => same.symm⟩

/-- Where repetitions need not be any, there is no check to make. -/
theorem Likeness.checks_none {L : Likeness} (free : L.lenient) : L.Checks fun _ => none := by
  intro ps qs _
  cases Parser.duplicate? [] ps with
  | none => rfl
  | some p => exact .inl free

/-- **Tokens that are alike are parsed alike.** -/
theorem parseBy_of_alike {L : Likeness} {repeated? : List Parameter → Option Parameter}
    (checks : L.Checks repeated?) {ts us : List Token} (alike : List.Forall₂ L.Alike ts us) :
    (∀ b, parse ts = .ok b → ∃ b', parseBy repeated? us = .ok b' ∧ L.Same Block.mapSites b b') ∧
    ∀ e, parse ts = .error e → L.lenient ∧ e.isRepetition ∨
      ∃ e', parseBy repeated? us = .error e' ∧ L.Same ParseError.mapSites e e' := by
  have resembles := Parser.program_resembles checks (Nat.le_refl ts.length)
    (Nat.le_of_eq alike.length_eq) ts
  obtain ⟨rest, matched⟩ :=
    resembles.matches_of_alike (Nat.le_refl _) alike .silent .silent
  unfold parse parseBy Parser.parts Parser.start
  generalize Parser.program ts.length ⟨ts, .silent⟩ = r at matched
  generalize Parser.programBy repeated? us.length ⟨us, .silent⟩ = r' at matched
  cases matched with
  | @ok b b' c log same =>
    exact ⟨fun _ parsed => ⟨b', rfl, Except.ok.inj parsed ▸ same⟩, nofun⟩
  | @error e e' c c' same =>
    exact ⟨nofun, fun _ failed => .inr ⟨e', rfl, Except.error.inj failed ▸ same⟩⟩
  | lenient free repeated =>
    exact ⟨nofun, fun _ failed => .inl ⟨free, Except.error.inj failed ▸ repeated⟩⟩

end Scriptlet
