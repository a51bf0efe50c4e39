import Scriptlet.Proofs.Grammar.StatementSound

/-!
# Parsers make progress

A parser takes tokens off the front of its list and stops at an end token.  If it fails, it
points at one of the tokens; only a list without an end token can leave it with nothing to
point at.

## Main definitions

* `Parser.Spent` — what is left of a list after some tokens other than end tokens
* `Parser.Points` — a site that an error on a list of tokens may have
* `Parser.Steady` — a parser that goes from a list to what is left of it, or points into it
* `Parser.Advances` — a parser that is steady and takes at least one token

## Main statements

* `Parser.Steady.bind` — one parser behind another
* `Parser.expression_advances`, `Parser.statement_advances` — expressions and statements
* `Parser.program_steady` — programs
* `exists_token_of_parse_error` — an error of parsing is at a token

## Design decisions

* A parser inside of another one starts further back, and its error may be at a token that
  stands before that: a parameter is found to be a repetition when the list of parameters is
  complete.  So the list that errors point into is fixed, and what is left of it moves.
* The bound of a parser is at least the number of tokens that are left.  It is zero only if
  there is no token, and then all tokens were taken, so there was no end token.
-/

namespace Scriptlet

namespace Parser

variable {α β : Type} {all ts us rest : List Token}

/-! ## What is left -/

/-- **Spending.**  `rest` is what is left of `ts` after some tokens, none of them an end
token. -/
def Spent (ts rest : List Token) : Prop :=
  ∃ used, ts = used ++ rest ∧ ∀ t ∈ used, t.kind ≠ .endOfStream

theorem Spent.refl (ts : List Token) : Spent ts ts := ⟨[], rfl, by simp⟩

theorem Spent.trans (h : Spent ts us) (h' : Spent us rest) : Spent ts rest := by
  obtain ⟨used, rfl, inside⟩ := h
  obtain ⟨used', rfl, inside'⟩ := h'
  exact ⟨used ++ used', (List.append_assoc ..).symm, List.forall_mem_append.mpr ⟨inside, inside'⟩⟩

/-- One token is taken. -/
theorem spent_cons {t : Token} (h : t.kind ≠ .endOfStream) (ts : List Token) :
    Spent (t :: ts) ts := ⟨[t], rfl, by simpa using h⟩

/-- **Pointing.**  A site of one of the tokens; no site if none of them is an end token. -/
def Points (all : List Token) (site : Site) : Prop :=
  (∃ t ∈ all, t.site = site) ∨ site = .unknown ∧ ∀ t ∈ all, t.kind ≠ .endOfStream

/-- The next token is one of the tokens. -/
theorem Spent.points {t : Token} (h : Spent all (t :: ts)) : Points all t.site := by
  obtain ⟨used, rfl, -⟩ := h
  exact .inl ⟨t, by simp, rfl⟩

/-- When all tokens are spent, there was no end token. -/
theorem Spent.points_unknown (h : Spent all []) : Points all .unknown := by
  obtain ⟨used, rfl, inside⟩ := h
  exact .inr ⟨rfl, by simpa using inside⟩

/-! ## Steady parsers -/

/-- **Proceeding** from the tokens `ts`: to a result with what is left, where `Q` holds of
both, or to an error that points into `all`. -/
inductive Proceeds (all ts : List Token) (Q : α → List Token → Prop) :
    EStateM.Result ParseError Cursor α → Prop where
  /-- A result. -/
  | ok {a : α} {c : Cursor} : Spent ts c.tokens → Q a c.tokens → Proceeds all ts Q (.ok a c)
  /-- An error. -/
  | error {e : ParseError} {c : Cursor} : Points all e.site → Proceeds all ts Q (.error e c)

/-- **Steadiness.**  When `ts` is left of `all`, the parser proceeds from there. -/
def Steady (all ts : List Token) (p : Parser α) (Q : α → List Token → Prop) : Prop :=
  Spent all ts → ∀ log, Proceeds all ts Q (p ⟨ts, log⟩)

/-- **Advancing.**  On up to `n` tokens the parser is steady, it takes at least one token, and
`P` holds of the result. -/
def Advances (all : List Token) (n : Nat) (p : Parser α) (P : α → Prop) : Prop :=
  ∀ ts, ts.length ≤ n → Steady all ts p fun a rest => rest.length < ts.length ∧ P a

theorem Advances.mono {n m : Nat} {p : Parser α} {P : α → Prop} (h : Advances all n p P)
    (le : m ≤ n) : Advances all m p P := fun ts within => h ts (Nat.le_trans within le)

/-- What is left is shorter. -/
theorem Advances.length_lt {n : Nat} {p : Parser α} {P : α → Prop} (h : Advances ts n p P)
    (within : ts.length ≤ n) {a : α} {log log' : Log} (ran : p ⟨ts, log⟩ = .ok a ⟨rest, log'⟩) :
    rest.length < ts.length := by
  have proceeds := h ts within (.refl ts) log
  rw [ran] at proceeds
  cases proceeds with
  | ok _ holds => exact holds.1

namespace Steady

variable {p : Parser α} {f : α → Parser β} {Q Q' : α → List Token → Prop}
  {R : β → List Token → Prop}

theorem pure {a : α} (h : Q a ts) : Steady all ts (pure a) Q := fun _ _ => .ok (.refl ts) h

theorem throw {e : ParseError} (h : Spent all ts → Points all e.site) :
    Steady all ts (throw e) Q := fun spent _ => .error (h spent)

/-- What is to be shown may use that `ts` is left of `all`. -/
theorem of_spent (h : Spent all ts → Steady all ts p Q) : Steady all ts p Q :=
  fun spent => h spent spent

theorem mono (h : Steady all ts p Q) (weaker : ∀ a rest, Q a rest → Q' a rest) :
    Steady all ts p Q' := by
  intro spent log
  have before := h spent log
  generalize p ⟨ts, log⟩ = r at before ⊢
  cases before with
  | ok taken holds => exact .ok taken (weaker _ _ holds)
  | error points => exact .error points

/-- **One parser behind another.** -/
theorem bind (first : Steady all ts p Q) (second : ∀ a rest, Q a rest → Steady all rest (f a) R) :
    Steady all ts (p >>= f) R := by
  intro spent log
  have before := first spent log
  show Proceeds all ts R (EStateM.bind p f ⟨ts, log⟩)
  unfold EStateM.bind
  generalize p ⟨ts, log⟩ = r at before
  cases before with
  | @ok a c taken holds =>
    have after := second a c.tokens holds (spent.trans taken) c.log
    dsimp only
    generalize f a c = r' at after
    cases after with
    | ok taken' holds' => exact .ok (taken.trans taken') holds'
    | error points => exact .error points
  | error points => exact .error points

/-! ### Single tokens -/

/-- Behind a look at the next token. -/
theorem peek {f : Token → Parser β} (h : ∀ t us, ts = t :: us → Steady all ts (f t) R) :
    Steady all ts (Parser.peek >>= f) R := by
  intro spent log
  cases ts with
  | nil => exact .error spent.points_unknown
  | cons t us => exact h t us rfl spent log

/-- Behind the next token. -/
theorem advance {t : Token} (inside : t.kind ≠ .endOfStream) {f : Unit → Parser β}
    (h : Steady all us (f ()) R) : Steady all (t :: us) (Parser.advance >>= f) R := by
  have taken : Steady all (t :: us) Parser.advance fun _ rest => rest = us :=
    fun _ _ => .ok (spent_cons inside us) rfl
  refine taken.bind fun _ rest same => ?_
  rwa [same]

/-- Behind an event. -/
theorem note {e : Event} {f : Unit → Parser β} (h : Steady all ts (f ()) R) :
    Steady all ts (Parser.note e >>= f) R := by
  have taken : Steady all ts (Parser.note e) fun _ rest => rest = ts :=
    fun _ _ => .ok (.refl ts) rfl
  refine taken.bind fun _ rest same => ?_
  rwa [same]

/-- An error at the next token. -/
theorem throw_unexpected {t : Token} {expected : String} :
    Steady all (t :: us) (MonadExcept.throw (unexpected t expected)) Q := by
  refine throw fun spent => ?_
  unfold unexpected
  split <;> exact spent.points

/-- Without a token there is nothing to point at. -/
theorem exhausted (h : ts.length ≤ 0) : Steady all ts (Parser.exhausted : Parser α) Q := by
  obtain rfl := List.length_eq_zero_iff.mp (Nat.le_zero.mp h)
  exact throw Spent.points_unknown

end Steady

theorem expect_steady {kind : TokenKind} (inside : kind ≠ .endOfStream) (expected : String) :
    Steady all ts (expect kind expected) fun t rest => ts = t :: rest := by
  refine .peek fun t us same => ?_
  subst same
  split
  · next fits => exact .advance (fits ▸ inside) (.pure rfl)
  · exact .throw_unexpected

theorem identifier_steady :
    Steady all ts identifier fun r rest => ∃ t, ts = t :: rest ∧ t.site = r.2 := by
  refine .peek fun t us same => ?_
  subst same
  split
  · next name kind => exact .advance (by simp [kind]) (.pure ⟨t, rfl, rfl⟩)
  · exact .throw_unexpected

theorem typeSpec_advances (n : Nat) : Advances all n typeSpec fun _ => True := by
  intro ts _
  refine .peek fun t us same => ?_
  subst same
  split
  · next base kind =>
    refine .advance (by simp [kind]) (.peek fun next vs same => ?_)
    subst same
    split
    · next opens =>
      refine .advance (by simp [opens]) ((expect_steady (by simp) _).bind fun close rest same => ?_)
      exact .pure ⟨by simp [same]; omega, trivial⟩
    · exact .pure ⟨by simp, trivial⟩
  · exact .throw_unexpected

/-- A parameter is at the site of a token. -/
theorem parameter_advances (n : Nat) :
    Advances all n parameter fun p => Points all p.site := by
  intro ts within
  refine .of_spent fun spent => .peek fun t us same => ?_
  have here : Points all t.site := (same ▸ spent).points
  refine (typeSpec_advances n ts within).bind fun type mid shorter => ?_
  refine identifier_steady.bind fun r rest found => ?_
  obtain ⟨word, same', -⟩ := found
  have := shorter.1
  exact .pure ⟨by simp only [same', List.length_cons] at this; omega, here⟩

/-! ## Lists -/

section Lists

variable {item : Parser α} {P : α → Prop} {n bound : Nat} (inner : Advances all n item P)
  (closing : Mark)

include inner

/-- Each item takes a token, so the bound is not used up before the tokens are. -/
theorem items_steady (within : ts.length ≤ n) (enough : ts.length ≤ bound) :
    Steady all ts (items item closing bound)
      fun xs rest => rest.length < ts.length ∧ ∀ x ∈ xs, P x := by
  induction bound generalizing ts with
  | zero => exact .exhausted enough
  | succ bound ih =>
    refine (inner ts within).bind fun x mid first => .peek fun t us same => ?_
    obtain ⟨shorter, holds⟩ := first
    subst same
    rw [List.length_cons] at shorter
    split
    · next comma =>
      refine .advance (by simp [comma]) ((ih (by omega) (by omega)).bind fun xs rest others => ?_)
      exact .pure ⟨by omega, List.forall_mem_cons.mpr ⟨holds, others.2⟩⟩
    · split
      · next closes =>
        exact .advance (by simp [closes]) (.pure ⟨by omega, by simpa using holds⟩)
      · exact .throw_unexpected

theorem separated_advances (le : n ≤ bound) :
    Advances all n (separated item closing bound) fun xs => ∀ x ∈ xs, P x := by
  intro ts within
  refine .peek fun t us same => ?_
  split
  · next closes =>
    subst same
    exact .advance (by simp [closes]) (.pure ⟨by simp, by simp⟩)
  · exact items_steady inner closing within (Nat.le_trans within le)

end Lists

/-! ## Expressions -/

section Expressions

variable {inner : Parser Expr} {n bound : Nat} (advances : Advances all n inner fun _ => True)

include advances

theorem nameOrCall_steady (within : ts.length ≤ n + 1) (enough : ts.length ≤ bound + 1) :
    Steady all ts (nameOrCall inner bound) fun _ rest => rest.length < ts.length ∧ True := by
  refine identifier_steady.bind fun r mid found => ?_
  obtain ⟨word, rfl, -⟩ := found
  simp only [List.length_cons] at within enough ⊢
  refine .peek fun t us same => ?_
  subst same
  split
  · next opens =>
    rw [List.length_cons] at within enough ⊢
    refine .advance (by simp [opens]) ?_
    have arguments := separated_advances (advances.mono (by omega : us.length ≤ n)) .rightParen
      (by omega : us.length ≤ bound) us (Nat.le_refl _)
    exact arguments.bind fun args rest found => .pure ⟨by omega, trivial⟩
  · exact .pure ⟨by omega, trivial⟩

/-- What is inside of an operand stands behind its first token. -/
theorem primary_steady {t : Token} (within : us.length ≤ n) (enough : us.length ≤ bound) :
    Steady all (t :: us) (primary inner bound t)
      fun _ rest => rest.length < (t :: us).length ∧ True := by
  unfold primary
  split
  · next value kind => exact .advance (by simp [kind]) (.pure ⟨by simp, trivial⟩)
  · next kind =>
    refine .advance (by simp [kind]) ((advances us within).bind fun e mid first => ?_)
    refine (expect_steady (by simp) _).bind fun close rest same => ?_
    rw [same, List.length_cons] at first
    exact .pure ⟨by rw [List.length_cons]; omega, trivial⟩
  · next kind =>
    refine .advance (by simp [kind]) ?_
    have elements := separated_advances (advances.mono within) .rightBracket enough us
      (Nat.le_refl _)
    exact elements.bind fun es rest found => .pure ⟨by rw [List.length_cons]; omega, trivial⟩
  · exact nameOrCall_steady advances (Nat.succ_le_succ within) (Nat.succ_le_succ enough)
  · exact .throw Spent.points
  · exact .throw Spent.points

theorem factor_steady (within : ts.length ≤ n + 1) (enough : ts.length ≤ bound) :
    Steady all ts (factor inner bound) fun _ rest => rest.length < ts.length ∧ True := by
  induction bound generalizing ts with
  | zero => exact .exhausted enough
  | succ bound ih =>
    refine .peek fun t us same => ?_
    subst same
    rw [List.length_cons] at within enough
    split
    · next op prefixed =>
      have inside : t.kind ≠ .endOfStream := by
        intro ends
        rw [ends] at prefixed
        cases prefixed
      refine .advance inside ((ih (by omega) (by omega)).bind fun e rest found => ?_)
      exact .pure ⟨by rw [List.length_cons]; omega, trivial⟩
    · exact primary_steady advances (by omega) (by omega)

end Expressions

/-- An operator at the front is no end token. -/
theorem peekOperator?_steady :
    Steady all ts peekOperator? fun r rest => rest = ts ∧ ∀ op t, r = some (op, t) →
      ∃ us, ts = t :: us ∧ t.kind ≠ .endOfStream := by
  intro spent log
  refine .ok (.refl ts) ⟨rfl, fun op t found => ?_⟩
  cases ts with
  | nil => cases found
  | cons u us =>
    obtain ⟨op', isOperator, same⟩ := Option.map_eq_some_iff.mp found
    obtain ⟨rfl, rfl⟩ := Prod.mk.inj same
    refine ⟨us, rfl, fun ends => ?_⟩
    rw [ends] at isOperator
    cases isOperator

/-- Climbing may stop at once. -/
theorem climb_steady {operand : Parser Expr} {n : Nat}
    (advances : Advances all n operand fun _ => True) (bound least : Nat) (left : Expr)
    (within : ts.length ≤ n) :
    Steady all ts (climb operand bound left least) fun _ rest => rest.length ≤ ts.length := by
  induction bound generalizing ts left least with
  | zero => exact .pure (Nat.le_refl _)
  | succ bound ih =>
    refine peekOperator?_steady.bind fun r ts' found => ?_
    obtain ⟨rfl, operator⟩ := found
    split
    · exact .pure (Nat.le_refl _)
    · next op token =>
      obtain ⟨us, rfl, inside⟩ := operator op token rfl
      rw [List.length_cons] at within
      split
      · exact .pure (Nat.le_refl _)
      · refine .advance inside ((advances us (by omega)).bind fun first vs taken => ?_)
        refine (ih _ _ (by omega)).bind fun tight ws le => ?_
        have folded (right : Expr) {xs : List Token} (le' : xs.length ≤ ws.length) :
            Steady all xs (note (.folding op token.site) >>= fun _ =>
                climb operand bound (.binary op left right token.site) least)
              fun _ rest => rest.length ≤ (token :: us).length := by
          refine .note ((ih _ _ (by omega)).mono fun e rest le'' => ?_)
          rw [List.length_cons]
          omega
        refine peekOperator?_steady.bind fun r ws' found => ?_
        obtain ⟨rfl, -⟩ := found
        dsimp only
        split
        · split
          · exact (ih _ _ (by omega)).bind fun right xs le' => folded right le'
          · exact folded tight (Nat.le_refl _)
        · exact folded tight (Nat.le_refl _)

/-- **Expressions advance.** -/
theorem binary_advances (bound least : Nat) :
    Advances all bound (binary bound least) fun _ => True := by
  induction bound generalizing least with
  | zero => exact fun ts within => .exhausted within
  | succ bound ih =>
    have operand : Advances all (bound + 1) (factor (binary bound 0) (bound + 1)) fun _ => True :=
      fun ts within => factor_steady (ih 0) within within
    intro ts within
    refine (operand ts within).bind fun left mid first => ?_
    refine (climb_steady operand _ _ _ (by omega)).mono fun e rest le => ⟨by omega, trivial⟩

theorem expression_advances (bound : Nat) :
    Advances all bound (expression bound) fun _ => True :=
  binary_advances bound 0

/-! ## Statements -/

theorem mem_of_duplicate? {seen : List String} {ps : List Parameter} {p : Parameter}
    (h : duplicate? seen ps = some p) : p ∈ ps := by
  induction ps generalizing seen with
  | nil => cases h
  | cons q ps ih =>
    unfold duplicate? at h
    split at h
    · cases h
      exact List.mem_cons_self
    · exact List.mem_cons_of_mem _ (ih h)

section Statements

variable {item : Parser Stmt} {n bound : Nat} (advances : Advances all n item fun _ => True)

/-- What stands in front of the expression is consumed before it. -/
theorem expression_steady (h : ts.length ≤ bound) :
    Steady all ts (expression bound) fun _ rest => rest.length < ts.length :=
  (expression_advances bound ts h).mono fun _ _ => And.left

theorem binding_steady {equals semicolon : String} {make : String → Site → Expr → Stmt}
    (h : ts.length ≤ bound + 1) :
    Steady all ts (binding bound equals semicolon make)
      fun _ rest => rest.length < ts.length := by
  refine identifier_steady.bind fun r mid found => ?_
  obtain ⟨word, rfl, -⟩ := found
  refine (expect_steady (by simp) _).bind fun sign us same => ?_
  subst same
  simp only [List.length_cons] at h ⊢
  refine (expression_steady (by omega)).bind fun value vs shorter => ?_
  refine (expect_steady (by simp) _).bind fun stop rest same => ?_
  rw [same, List.length_cons] at shorter
  exact .pure (by omega)

theorem returned_steady {site : Site} (h : ts.length ≤ bound) :
    Steady all ts (returned bound site) fun _ rest => rest.length < ts.length := by
  refine .peek fun t us same => ?_
  split
  · next stops =>
    subst same
    exact .advance (by simp [stops]) (.pure (by simp))
  · refine (expression_steady h).bind fun value vs shorter => ?_
    refine (expect_steady (by simp) _).bind fun stop rest same => ?_
    rw [same, List.length_cons] at shorter
    exact .pure (by omega)

/-- The token behind the next one. -/
theorem peekSecond?_steady :
    Steady all ts peekSecond? fun r rest => rest = ts ∧ r = (ts.drop 1).head?.map Token.kind :=
  fun _ _ => .ok (.refl ts) ⟨rfl, rfl⟩

theorem callStatement_steady {t : Token} (inside : t.kind ≠ .endOfStream) (name : String)
    (h : us.length ≤ bound + 1) :
    Steady all (t :: us) (callStatement bound name t.site)
      fun _ rest => rest.length < (t :: us).length := by
  refine peekSecond?_steady.bind fun r ts found => ?_
  obtain ⟨rfl, second⟩ := found
  split
  · -- There is an opening bracket behind the name.
    cases us with
    | nil => cases second
    | cons u us =>
      obtain opens : TokenKind.mark .leftParen = u.kind := Option.some.inj second
      simp only [List.length_cons] at h ⊢
      refine .advance inside (.advance (by simp [← opens]) ?_)
      have arguments : Advances all bound (arguments (expression bound) bound) _ :=
        separated_advances (expression_advances bound) .rightParen (Nat.le_refl bound)
      refine (arguments us (by omega)).bind fun args vs found => ?_
      refine (expect_steady (by simp) _).bind fun stop rest same => ?_
      have := found.1
      rw [same, List.length_cons] at this
      exact .pure (by omega)
  · exact .throw Spent.points
  · exact .throw Spent.points

include advances

/-- Statements up to the end token may be none. -/
theorem statements_steady (braced : Bool) (within : ts.length ≤ n) (enough : ts.length ≤ bound) :
    Steady all ts (statements item braced bound) fun _ rest => rest.length ≤ ts.length := by
  induction bound generalizing ts with
  | zero => exact .exhausted enough
  | succ bound ih =>
    refine .peek fun t us same => ?_
    split
    · next closes =>
      subst same
      exact .advance (by simp [closes.2]) (.pure (by simp))
    · split
      · split
        · exact .throw fun spent => (same ▸ spent).points
        · exact .pure (Nat.le_refl _)
      · refine (advances ts within).bind fun s mid first => ?_
        refine (ih (by omega) (by omega)).bind fun ss rest others => .pure ?_
        omega

theorem block_steady (within : ts.length ≤ n + 1) (enough : ts.length ≤ bound + 1) :
    Steady all ts (block item bound) fun _ rest => rest.length < ts.length := by
  refine (expect_steady (by simp) _).bind fun brace us same => ?_
  subst same
  rw [List.length_cons] at within enough ⊢
  exact (statements_steady advances true (by omega) (by omega)).bind fun ss rest le =>
    .pure (by omega)

theorem conditional_steady {site : Site} (within : ts.length ≤ n) (enough : ts.length ≤ bound) :
    Steady all ts (conditional item bound site) fun _ rest => rest.length < ts.length := by
  induction bound generalizing ts site with
  | zero => exact .exhausted enough
  | succ bound ih =>
    refine (expression_steady enough).bind fun condition vs first => ?_
    refine (block_steady advances (by omega) (by omega)).bind fun body ws second => ?_
    refine .peek fun t us same => ?_
    subst same
    rw [List.length_cons] at second
    split
    · next kind =>
      refine .advance (by simp [kind]) ((ih (by omega) (by omega)).bind fun link rest third => ?_)
      exact .pure (by omega)
    · next kind =>
      refine .advance (by simp [kind]) ?_
      exact (block_steady advances (by omega) (by omega)).bind fun last rest third =>
        .pure (by omega)
    · exact .pure (by rw [List.length_cons]; omega)

/-- A repeated parameter is at the site of a token. -/
theorem function_steady {type : DeclaredType} {site : Site} (within : ts.length ≤ n)
    (enough : ts.length ≤ bound) :
    Steady all ts (function item bound type site) fun _ rest => rest.length < ts.length := by
  refine identifier_steady.bind fun r mid found => ?_
  obtain ⟨word, rfl, -⟩ := found
  refine (expect_steady (by simp) _).bind fun opening us same => ?_
  subst same
  simp only [List.length_cons] at within enough ⊢
  have parameters : Advances all bound (separated parameter .rightParen bound) _ :=
    separated_advances (parameter_advances bound) .rightParen (Nat.le_refl bound)
  refine (parameters us (by omega)).bind fun ps vs found => ?_
  obtain ⟨shorter, sites⟩ := found
  split
  · next p repeated => exact .throw fun _ => sites p (mem_of_duplicate? repeated)
  · exact (block_steady advances (by omega) (by omega)).bind fun body rest first =>
      .pure (by omega)

theorem declaration_steady {site : Site} (within : ts.length ≤ n + 1)
    (enough : ts.length ≤ bound + 1) :
    Steady all ts (declaration item bound site) fun _ rest => rest.length < ts.length := by
  refine (typeSpec_advances _ ts (Nat.le_refl _)).bind fun type mid first => ?_
  have shorter := first.1
  have asFunction : Steady all mid (function item bound type site)
      fun _ rest => rest.length < ts.length :=
    (function_steady advances (by omega) (by omega)).mono fun _ _ second => by omega
  have asVariable : Steady all mid (variableDeclaration bound type site)
      fun _ rest => rest.length < ts.length := by
    rw [variableDeclaration_eq]
    exact (binding_steady (by omega)).mono fun _ _ second => by omega
  refine .peek fun t us same => ?_
  split
  · next kind =>
    subst same
    rw [List.length_cons] at shorter
    refine .advance (by simp [kind]) ?_
    exact (function_steady advances (by omega) (by omega)).mono fun _ _ second => by omega
  · refine peekSecond?_steady.bind fun r vs found => ?_
    rw [found.1]
    split
    · exact asFunction
    · exact asVariable
  · exact asVariable

theorem whileLoop_steady {site : Site} (within : ts.length ≤ n) (enough : ts.length ≤ bound) :
    Steady all ts (whileLoop item bound site) fun _ rest => rest.length < ts.length := by
  refine (expression_steady enough).bind fun condition us first => ?_
  exact (block_steady advances (by omega) (by omega)).bind fun body rest second => .pure (by omega)

theorem countedLoop_steady {site : Site} (within : ts.length ≤ n) (enough : ts.length ≤ bound) :
    Steady all ts (countedLoop item bound site) fun _ rest => rest.length < ts.length := by
  refine (expression_steady enough).bind fun start us first => ?_
  refine (expect_steady (by simp) _).bind fun toWord us' same => ?_
  rw [same, List.length_cons] at first
  refine (expression_steady (by omega)).bind fun stop vs second => ?_
  refine (expect_steady (by simp) _).bind fun stepWord vs' same => ?_
  rw [same, List.length_cons] at second
  refine (expression_steady (by omega)).bind fun step ws third => ?_
  exact (block_steady advances (by omega) (by omega)).bind fun body rest last => .pure (by omega)

/-- A statement takes its first token, which is no end token, or points at it. -/
theorem statementAt_steady {t : Token} (within : us.length ≤ n) (enough : us.length ≤ bound) :
    Steady all (t :: us) (statementAt item bound t)
      fun _ rest => rest.length < (t :: us).length := by
  have behind {p : Parser Stmt} {word : Keyword} (kind : t.kind = .keyword word)
      (h : Steady all us p fun _ rest => rest.length < us.length) :
      Steady all (t :: us) (advance >>= fun _ => p)
        fun _ rest => rest.length < (t :: us).length :=
    .advance (by simp [kind]) (h.mono fun _ _ shorter => Nat.lt_succ_of_lt shorter)
  unfold statementAt
  split
  · exact declaration_steady advances (Nat.succ_le_succ within) (Nat.succ_le_succ enough)
  split
  · have body : Steady all (t :: us) (block item bound)
        fun _ rest => rest.length < (t :: us).length :=
      block_steady advances (Nat.succ_le_succ within) (Nat.succ_le_succ enough)
    exact body.bind fun body rest shorter => .pure shorter
  · next kind => exact .advance (by simp [kind]) (.pure (by simp))
  · next kind => exact behind kind (returned_steady enough)
  · next kind =>
    exact behind kind ((conditional_steady advances within enough).bind
      fun chain rest shorter => .pure shorter)
  · next kind => exact behind kind (whileLoop_steady advances within enough)
  · next kind => exact behind kind (countedLoop_steady advances within enough)
  · next kind =>
    rw [reassignment_eq]
    exact behind kind (binding_steady (Nat.le_succ_of_le enough))
  · next name kind => exact callStatement_steady (by simp [kind]) name (Nat.le_succ_of_le enough)
  · exact .throw Spent.points
  · exact .throw Spent.points

end Statements

/-- **Statements advance.** -/
theorem statement_advances (bound : Nat) :
    Advances all bound (statement bound) fun _ => True := by
  induction bound with
  | zero => exact fun ts within => .exhausted within
  | succ bound ih =>
    intro ts within
    refine .peek fun t us same => ?_
    subst same
    rw [List.length_cons] at within ⊢
    have inside : Steady all (t :: us) (statementAt (statement bound) bound t)
        fun _ rest => rest.length < (t :: us).length :=
      statementAt_steady ih (Nat.le_of_succ_le_succ within) (Nat.le_of_succ_le_succ within)
    exact inside.bind fun s rest shorter => .note (.pure ⟨shorter, trivial⟩)

/-- **Programs** are read without a step past the end token. -/
theorem program_steady {bound : Nat} (enough : ts.length ≤ bound) :
    Steady all ts (program bound) fun _ rest => rest.length ≤ ts.length :=
  .peek fun _ _ _ =>
    (statements_steady (statement_advances bound) false enough enough).bind
      fun _ _ le => .pure le

end Parser

/-- **An error of parsing is at a token**, if there is an end token among the tokens. -/
theorem exists_token_of_parse_error {ts : List Token} {log : Log} {e : ParseError} {c : Cursor}
    (ended : ∃ t ∈ ts, t.kind = .endOfStream)
    (h : Parser.start Parser.program ts log = .error e c) : ∃ t ∈ ts, t.site = e.site := by
  have proceeds := Parser.program_steady (Nat.le_refl ts.length) (.refl ts) log
  rw [show Parser.program ts.length ⟨ts, log⟩ = _ from h] at proceeds
  cases proceeds with
  | error points =>
    obtain here | ⟨-, endless⟩ := points
    · exact here
    · obtain ⟨t, mem, kind⟩ := ended
      exact absurd kind (endless t mem)

end Scriptlet
