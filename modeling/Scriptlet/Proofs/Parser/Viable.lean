import Scriptlet.Proofs.Grammar.Words

/-!
# Parsers fail on the first impossible token

What a parser has taken when it fails can be completed: the tokens in front of the one that the
error points at are the start of a phrase of the kind that the parser reads.

## Main definitions

* `Viable` — a word is the start of a word of a language
* `Parser.Tracks` — what a parser takes is a word of a language, or the start of one

## Main statements

* `Parser.Tracks.bind` — one parser behind another
* `Parser.expression_tracks`, `Parser.statement_tracks` — expressions and statements
* `Parser.program_tracks` — programs

## Design decisions

* Nothing is assumed of the tokens.  A token with flags that are not those of its kind can send the
  parser the wrong way, but then it fails on that token.
* The name of a parameter may repeat another one when the parser fails further on, so words have
  no names.  An error about a repetition is the one that is left out.
-/

namespace Scriptlet

open Grammar

/-- **Viability.**  The word is the start of a word of the language. -/
def Viable (W : Language TokenKind) (w : List TokenKind) : Prop := ∃ v, w ++ v ∈ W

namespace Viable

variable {V W : Language TokenKind} {v w : List TokenKind}

theorem of_mem (h : w ∈ W) : Viable W w := ⟨[], by rwa [List.append_nil]⟩

theorem mono (h : Viable V w) (le : V ≤ W) : Viable W w := by
  obtain ⟨v, mem⟩ := h
  exact ⟨v, le mem⟩

/-- What is viable in front is viable if there is something to put behind. -/
theorem mul_left (h : Viable V v) (h' : Viable W []) : Viable (V * W) v := by
  obtain ⟨v', mem⟩ := h
  obtain ⟨w, mem'⟩ := h'
  exact ⟨v' ++ w, by rw [← List.append_assoc]; exact Language.append_mem_mul mem mem'⟩

theorem mul_right (h : v ∈ V) (h' : Viable W w) : Viable (V * W) (v ++ w) := by
  obtain ⟨w', mem⟩ := h'
  exact ⟨w', by rw [List.append_assoc]; exact Language.append_mem_mul h mem⟩

/-! ### Languages that have a word -/

@[simp] theorem mul_iff : Viable (V * W) [] ↔ Viable V [] ∧ Viable W [] := by
  constructor
  · rintro ⟨_, v, mem, w, mem', -⟩
    exact ⟨⟨v, mem⟩, w, mem'⟩
  · rintro ⟨h, h'⟩
    exact h.mul_left h'

@[simp] theorem add_iff : Viable (V + W) [] ↔ Viable V [] ∨ Viable W [] := exists_or

@[simp] theorem single (kind : TokenKind) : Viable (single kind) [] := ⟨[kind.unnamed], rfl⟩

@[simp] theorem one : Viable 1 [] := ⟨[], rfl⟩

@[simp] theorem tails : Viable tails [] := of_mem nil_mem_tails

@[simp] theorem many {α : Type} {Item : List Token → α → Prop} : Viable (words (Many Item)) [] :=
  of_mem nil_mem_many

@[simp] theorem listed {α : Type} {Item : List Token → α → Prop} :
    Viable (words (Listed Item)) [] := of_mem nil_mem_listed

@[simp] theorem operand : Viable (words Operand) [] :=
  (single _).mono (literal_words (.boolean true))

@[simp] theorem expression : Viable (words Expression) [] := operand.mono operand_words

@[simp] theorem typeAt : Viable (words TypeAt) [] := (single _).mono (plain_words .num)

@[simp] theorem parameter : Viable (words Parameterized) [] :=
  (mul_left typeAt (single _)).mono (parameter_words "")

@[simp] theorem closed (braced : Bool) : Viable (closed braced) [] := by
  cases braced
  · exact one
  · exact single _

@[simp] theorem block {Item : List Token → Stmt → Prop} : Viable (words (BlockOf Item)) [] :=
  (mul_left (single _) (mul_left many (single _))).mono block_words

@[simp] theorem chain {Item : List Token → Stmt → Prop} : Viable (words (ChainAt Item)) [] :=
  (mul_left expression block).mono done_words

@[simp] theorem bindingPart : Viable bindingPart [] := by simp [Grammar.bindingPart]

@[simp] theorem definitionPart : Viable definitionPart [] := by simp [Grammar.definitionPart]

@[simp] theorem declarationPart : Viable declarationPart [] := by simp [Grammar.declarationPart]

@[simp] theorem statement : Viable (words Statement) [] := (single _).mono empty_words

end Viable

namespace Parser

variable {α β : Type} {V W : Language TokenKind} {ts us rest : List Token}

/-! ## Tracking -/

/-- **Tracking** from the tokens `ts`: what was taken is a word of the language, or the start of
one, and then the error is at the token that is left. -/
inductive Tracked (W : Language TokenKind) (ts : List Token) :
    EStateM.Result ParseError Cursor α → Prop where
  /-- A result. -/
  | ok {a : α} {c : Cursor} {used : List Token} :
      ts = used ++ c.tokens → shape used ∈ W → Tracked W ts (.ok a c)
  /-- An error. -/
  | error {e : ParseError} {c : Cursor} {used : List Token} :
      ts = used ++ c.tokens → Viable W (shape used) → (∀ t ∈ c.tokens.head?, t.site = e.site) →
      Tracked W ts (.error e c)
  /-- A repeated parameter. -/
  | repeated {e : ParseError} {c : Cursor} : e.isRepetition → Tracked W ts (.error e c)

/-- The parser tracks the language from `ts` on. -/
def Tracks (W : Language TokenKind) (ts : List Token) (p : Parser α) : Prop :=
  ∀ log, Tracked W ts (p ⟨ts, log⟩)

namespace Tracks

variable {p : Parser α} {f : α → Parser β}

theorem mono (h : Tracks V ts p) (le : V ≤ W) : Tracks W ts p := by
  intro log
  have before := h log
  generalize p ⟨ts, log⟩ = r at before
  cases before with
  | ok taken mem => exact .ok taken (le mem)
  | error taken viable here => exact .error taken (viable.mono le) here
  | repeated repeats => exact .repeated repeats

theorem pure {a : α} (mem : [] ∈ W) : Tracks W ts (pure a) :=
  fun _ => .ok (List.nil_append ts).symm mem

/-- An error at the next token, if there is one. -/
theorem throw {e : ParseError} (here : ∀ t ∈ ts.head?, t.site = e.site) (viable : Viable W []) :
    Tracks W ts (throw e : Parser α) := fun _ =>
  .error (List.nil_append ts).symm viable here

/-- **One parser behind another.** -/
theorem bind (first : Tracks V ts p) (viable : Viable W [])
    (second : ∀ a rest w, w ∈ V → ts.length = w.length + rest.length → Tracks W rest (f a)) :
    Tracks (V * W) ts (p >>= f) := by
  intro log
  have before := first log
  show Tracked (V * W) ts (EStateM.bind p f ⟨ts, log⟩)
  unfold EStateM.bind
  generalize p ⟨ts, log⟩ = r at before
  cases before with
  | @ok a c used taken mem =>
    have after := second a c.tokens (shape used) mem
      (by rw [taken, List.length_append, length_shape]) c.log
    dsimp only
    generalize f a c = r' at after
    cases after with
    | @ok b c' used' taken' mem' =>
      have both : ts = (used ++ used') ++ c'.tokens := by rw [taken, taken', List.append_assoc]
      exact .ok both (shape_append used used' ▸ Language.append_mem_mul mem mem')
    | @error e c' used' taken' viable' here =>
      have both : ts = (used ++ used') ++ c'.tokens := by rw [taken, taken', List.append_assoc]
      exact .error both (shape_append used used' ▸ viable'.mul_right mem) here
    | repeated repeats => exact .repeated repeats
  | error taken viable' here => exact .error taken (viable'.mul_left viable) here
  | repeated repeats => exact .repeated repeats

/-- A result computed from that of a parser. -/
theorem map {f : α → β} (h : Tracks W ts p) : Tracks W ts (p >>= fun a => Pure.pure (f a)) := by
  have both : Tracks (W * 1) ts (p >>= fun a => Pure.pure (f a)) :=
    h.bind .one fun _ _ _ _ _ => .pure rfl
  rwa [mul_one] at both

/-! ### Single tokens -/

/-- Behind a look at the next token. -/
theorem peek {f : Token → Parser β} (viable : Viable W [])
    (h : ∀ t us, ts = t :: us → Tracks W (t :: us) (f t)) :
    Tracks W ts (Parser.peek >>= f) := by
  intro log
  cases ts with
  | nil => exact .error (List.nil_append []).symm viable (by simp)
  | cons t us => exact h t us rfl log

/-- Behind the next token. -/
theorem advance {t : Token} {kind : TokenKind} {f : Unit → Parser β} (is : t.kind = kind)
    (le : single kind * V ≤ W) (h : Tracks V us (f ())) :
    Tracks W (t :: us) (Parser.advance >>= f) := by
  refine mono (fun log => ?_) le
  have after := h log
  show Tracked _ (t :: us) (f () ⟨us, log⟩)
  generalize f () ⟨us, log⟩ = r at after
  subst is
  have first : [t.kind.unnamed] ∈ single t.kind := rfl
  cases after with
  | @ok b c used taken mem =>
    have both : t :: us = (t :: used) ++ c.tokens := congrArg (t :: ·) taken
    exact .ok both (Language.append_mem_mul first mem)
  | @error e c used taken viable here =>
    have both : t :: us = (t :: used) ++ c.tokens := congrArg (t :: ·) taken
    exact .error both (viable.mul_right first) here
  | repeated repeats => exact .repeated repeats

/-- A result behind the next token. -/
theorem advance_pure {t : Token} {kind : TokenKind} {a : α} (is : t.kind = kind)
    (le : single kind ≤ W) : Tracks W (t :: us) (Parser.advance >>= fun _ => Pure.pure a) :=
  .advance is ((mul_one _).trans_le le) (.pure rfl)

/-- Behind an event. -/
theorem note {e : Event} {f : Unit → Parser β} (h : Tracks W ts (f ())) :
    Tracks W ts (Parser.note e >>= f) := fun log => h (log.add e)

/-- Behind a look at the token behind the next one. -/
theorem peekSecond {f : Option TokenKind → Parser β}
    (h : Tracks W ts (f ((ts.drop 1).head?.map Token.kind))) : Tracks W ts (peekSecond? >>= f) :=
  fun log => h log

/-- Behind a look at the operator at the front. -/
theorem peekOperator {f : Option (BinaryOp × Token) → Parser β}
    (h : Tracks W ts (f (nextOperator? ts))) : Tracks W ts (peekOperator? >>= f) :=
  fun log => h log

/-- An error at the next token. -/
theorem throw_unexpected {t : Token} {expected : String} (viable : Viable W []) :
    Tracks W (t :: us) (MonadExcept.throw (unexpected t expected) : Parser α) := by
  refine throw ?_ viable
  unfold unexpected
  split <;> simp [ParseError.site]

/-- Without a token there is nothing to point at. -/
theorem exhausted (h : ts.length ≤ 0) (viable : Viable W []) :
    Tracks W ts (Parser.exhausted : Parser α) := by
  obtain rfl := List.length_eq_zero_iff.mp (Nat.le_zero.mp h)
  exact throw (by simp) viable

end Tracks

theorem expect_tracks {kind : TokenKind} {expected : String} :
    Tracks (single kind) ts (expect kind expected) := by
  refine .peek (by simp) fun t us _ => ?_
  split
  · next fits => exact .advance_pure fits le_rfl
  · exact .throw_unexpected (by simp)

theorem identifier_tracks : Tracks (single (.identifier "")) ts identifier := by
  refine .peek (by simp) fun t us _ => ?_
  split
  · next name kind => exact .advance_pure kind le_rfl
  · exact .throw_unexpected (by simp)

theorem typeSpec_tracks : Tracks (words TypeAt) ts typeSpec := by
  refine .peek (by simp) fun t us _ => ?_
  split
  · next base kind =>
    have written : single (.typeName base) *
        (single (.mark .leftBracket) * single (.mark .rightBracket) + 1) ≤ words TypeAt := by
      rw [mul_add, mul_one]
      exact add_le (array_words base) (plain_words base)
    refine .advance kind written (.peek (by simp) fun next vs _ => ?_)
    split
    · next opens => exact .advance opens le_self_add expect_tracks.map
    · exact .pure (.inr rfl)
  · exact .throw_unexpected (by simp)

theorem parameter_tracks : Tracks (words Parameterized) ts parameter := by
  refine .peek (by simp) fun t us _ => Tracks.mono ?_ (parameter_words "")
  exact typeSpec_tracks.bind (by simp) fun _ _ _ _ _ => identifier_tracks.map

/-! ## Lists -/

section Lists

variable {item : Parser α} {Item : List Token → α → Prop} {n bound : Nat}

theorem items_tracks (inner : ∀ ts, ts.length ≤ n → Tracks (words Item) ts item)
    (some : Viable (words Item) []) (closing : Mark) (within : ts.length ≤ n)
    (enough : ts.length ≤ bound) :
    Tracks (words (Separated Item) * single (.mark closing)) ts (items item closing bound) := by
  have viable : Viable (words (Separated Item)) [] := some.mono one_words
  induction bound generalizing ts with
  | zero => exact .exhausted enough (by simp [viable])
  | succ bound ih =>
    have more : words Item * (single (.mark .comma) *
        (words (Separated Item) * single (.mark closing)) + single (.mark closing)) ≤
        words (Separated Item) * single (.mark closing) := by
      rw [mul_add, ← mul_assoc (single _), ← mul_assoc]
      exact add_le (mul_le_mul_left more_words _) (mul_le_mul_left one_words _)
    refine ((inner ts within).bind (by simp [viable]) fun x rest w mem size => ?_).mono more
    refine .peek (by simp [viable]) fun t us same => ?_
    subst same
    rw [List.length_cons] at size
    split
    · next comma =>
      exact .advance comma le_self_add (ih (by omega) (by omega)).map
    · split
      · next closes => exact .advance_pure closes le_add_self
      · exact .throw_unexpected (by simp [viable])

theorem separated_tracks (inner : ∀ ts, ts.length ≤ n → Tracks (words Item) ts item)
    (some : Viable (words Item) []) (closing : Mark) (within : ts.length ≤ n)
    (enough : ts.length ≤ bound) :
    Tracks (words (Listed Item) * single (.mark closing)) ts (separated item closing bound) := by
  refine .peek (by simp) fun t us same => ?_
  subst same
  split
  · next closes =>
    exact .advance_pure closes (le_mul_of_one_le_left' one_le_listed)
  · exact (items_tracks inner some closing within enough).mono (mul_le_mul_left listed_words _)

end Lists

/-! ## Expressions -/

section Expressions

variable {inner : Parser Expr} {n bound : Nat}
  (tracks : ∀ ts, ts.length ≤ n → Tracks (words Expression) ts inner)

include tracks

theorem nameOrCall_tracks (within : ts.length ≤ n + 1) (enough : ts.length ≤ bound + 1) :
    Tracks (words Operand) ts (nameOrCall inner bound) := by
  have named : single (.identifier "") * (single (.mark .leftParen) *
      (words (Listed Expression) * single (.mark .rightParen)) + 1) ≤ words Operand := by
    rw [mul_add, mul_one]
    exact add_le (call_words "") (var_words "")
  refine (identifier_tracks.bind (by simp) fun r rest w mem size => ?_).mono named
  obtain rfl := mem
  rw [List.length_singleton] at size
  refine .peek (by simp) fun t us same => ?_
  subst same
  rw [List.length_cons] at size
  split
  · next opens =>
    have arguments := separated_tracks tracks (by simp) .rightParen (by omega : us.length ≤ n)
      (by omega : us.length ≤ bound)
    exact .advance opens le_self_add arguments.map
  · exact .pure (.inr rfl)

/-- What is inside of an operand stands behind its first token. -/
theorem primary_tracks {t : Token} (within : us.length ≤ n) (enough : us.length ≤ bound) :
    Tracks (words Operand) (t :: us) (primary inner bound t) := by
  unfold primary
  split
  · next value kind => exact .advance_pure kind (literal_words value)
  · next kind =>
    refine .advance kind group_words ((tracks us within).bind (by simp) fun _ _ _ _ _ => ?_)
    exact expect_tracks.map
  · next kind =>
    have elements := separated_tracks tracks (by simp) .rightBracket within enough
    exact .advance kind arrayLiteral_words elements.map
  · exact nameOrCall_tracks tracks (Nat.succ_le_succ within) (Nat.succ_le_succ enough)
  · exact .throw (by simp [ParseError.site]) (by simp)
  · exact .throw (by simp [ParseError.site]) (by simp)

theorem factor_tracks (within : ts.length ≤ n + 1) (enough : ts.length ≤ bound) :
    Tracks (words Operand) ts (factor inner bound) := by
  induction bound generalizing ts with
  | zero => exact .exhausted enough (by simp)
  | succ bound ih =>
    refine .peek (by simp) fun t us same => ?_
    subst same
    rw [List.length_cons] at within enough
    split
    · next op prefixed =>
      exact .advance rfl (unary_words prefixed) (ih (by omega) (by omega)).map
    · exact primary_tracks tracks (by omega) (by omega)

end Expressions

/-- Climbing may stop behind every operand. -/
theorem climb_tracks {operand : Parser Expr} {n : Nat}
    (tracks : ∀ ts, ts.length ≤ n → Tracks (words Operand) ts operand) (bound least : Nat)
    (left : Expr) (within : ts.length ≤ n) : Tracks tails ts (climb operand bound left least) := by
  induction bound generalizing ts left least with
  | zero => exact .pure nil_mem_tails
  | succ bound ih =>
    refine .peekOperator ?_
    split
    · exact .pure nil_mem_tails
    · next op token found =>
      obtain ⟨⟨us, rfl⟩, isOp⟩ := nextOperator?_eq_some found
      rw [List.length_cons] at within
      split
      · exact .pure nil_mem_tails
      · refine .advance rfl (operation_tails isOp) ((tracks us (by omega)).bind (by simp)
          fun first vs w _ size => ?_)
        refine (ih (op.precedence + 1) first (by omega)).bind (by simp)
          fun tight ws w' _ size' => ?_
        have folded (right : Expr) {xs : List Token} (le : xs.length ≤ ws.length) :
            Tracks tails xs (note (.folding op token.site) >>= fun _ =>
              climb operand bound (.binary op left right token.site) least) :=
          .note (ih least _ (by omega))
        refine .peekOperator ?_
        split
        · split
          · refine ((ih op.precedence tight (by omega)).bind (by simp)
              fun right xs v _ size'' => ?_).mono tails_mul_tails.le
            exact folded right (by omega)
          · exact folded tight (Nat.le_refl _)
        · exact folded tight (Nat.le_refl _)

/-- **Expressions track.** -/
theorem binary_tracks (bound least : Nat) (ts : List Token) (within : ts.length ≤ bound) :
    Tracks (words Expression) ts (binary bound least) := by
  induction bound generalizing ts least with
  | zero => exact .exhausted within (by simp)
  | succ bound ih =>
    have operand (us : List Token) (shorter : us.length ≤ bound + 1) :
        Tracks (words Operand) us (factor (binary bound 0) (bound + 1)) :=
      factor_tracks (ih 0) shorter shorter
    refine ((operand ts within).bind (by simp) fun left rest w _ size => ?_).mono expression_words
    exact climb_tracks operand _ _ _ (by omega)

theorem expression_tracks (bound : Nat) (ts : List Token) (within : ts.length ≤ bound) :
    Tracks (words Expression) ts (expression bound) := binary_tracks bound 0 ts within

/-! ## Statements -/

section Statements

variable {item : Parser Stmt} {n bound : Nat}
  (tracks : ∀ ts, ts.length ≤ n → Tracks (words Statement) ts item)

theorem binding_tracks {equals semicolon : String} {make : String → Site → Expr → Stmt}
    (h : ts.length ≤ bound + 1) :
    Tracks bindingPart ts (binding bound equals semicolon make) := by
  refine identifier_tracks.bind (by simp) fun r rest w mem size => ?_
  obtain rfl := mem
  rw [List.length_singleton] at size
  refine expect_tracks.bind (by simp) fun _ us _ _ size => ?_
  refine (expression_tracks bound us (by omega)).bind (by simp) fun _ _ _ _ _ => ?_
  exact expect_tracks.map

theorem returned_tracks {site : Site} (h : ts.length ≤ bound) :
    Tracks (single (.mark .semicolon) + words Expression * single (.mark .semicolon)) ts
      (returned bound site) := by
  refine .peek (by simp) fun t us same => ?_
  subst same
  split
  · next stops => exact .advance_pure stops le_self_add
  · refine Tracks.mono ?_ le_add_self
    exact (expression_tracks bound _ h).bind (by simp) fun _ _ _ _ _ => expect_tracks.map

/-- Without an opening bracket behind the name the error is at the name. -/
theorem callStatement_tracks {t : Token} {name : String} (kind : t.kind = .identifier name)
    (h : us.length ≤ bound + 1) :
    Tracks (words Statement) (t :: us) (callStatement bound name t.site) := by
  refine .peekSecond ?_
  split
  · next opens =>
    -- There is an opening bracket behind the name.
    cases us with
    | nil => cases opens
    | cons opening us =>
      obtain opens : opening.kind = .mark .leftParen := Option.some.inj opens
      rw [List.length_cons] at h
      have args := separated_tracks (expression_tracks bound) (by simp) .rightParen
        (by omega : us.length ≤ bound) (by omega : us.length ≤ bound)
      refine .advance kind (callStatement_words name) (.advance opens le_rfl ?_)
      rw [← mul_assoc]
      exact args.bind (by simp) fun _ _ _ _ _ => expect_tracks.map
  · exact .throw (by simp [ParseError.site]) (by simp)
  · exact .throw (by simp [ParseError.site]) (by simp)

include tracks

/-- Each statement takes a token, so the bound is not used up before the tokens are. -/
theorem statements_tracks (braced : Bool) (within : ts.length ≤ n) (enough : ts.length ≤ bound) :
    Tracks (words (Many Statement) * closed braced) ts (statements item braced bound) := by
  induction bound generalizing ts with
  | zero => exact .exhausted enough (by simp)
  | succ bound ih =>
    refine .peek (by simp) fun t us same => ?_
    subst same
    split
    · next closes =>
      obtain ⟨rfl, closes⟩ := closes
      exact .advance_pure closes (le_mul_of_one_le_left' one_le_many)
    · split
      · cases braced with
        | true => exact .throw (by simp [ParseError.site]) (by simp)
        | false => exact .pure ⟨[], nil_mem_many, [], rfl, rfl⟩
      · have more : words Statement * (words (Many Statement) * closed braced) ≤
            words (Many Statement) * closed braced := by
          rw [← mul_assoc]
          exact mul_le_mul_left many_words _
        refine ((tracks _ within).bind (by simp) fun s rest w mem size => ?_).mono more
        have := length_pos_of_statement mem
        exact (ih (by omega) (by omega)).map

theorem block_tracks (within : ts.length ≤ n + 1) (enough : ts.length ≤ bound + 1) :
    Tracks (words (BlockOf Statement)) ts (block item bound) := by
  refine (expect_tracks.bind (by simp) fun brace us w mem size => ?_).mono block_words
  obtain rfl := mem
  rw [List.length_singleton] at size
  exact (statements_tracks tracks true (by omega) (by omega)).map

theorem conditional_tracks {site : Site} (within : ts.length ≤ n) (enough : ts.length ≤ bound) :
    Tracks (words (ChainAt Statement)) ts (conditional item bound site) := by
  induction bound generalizing ts site with
  | zero => exact .exhausted enough (by simp)
  | succ bound ih =>
    have forms : words Expression * (words (BlockOf Statement) *
        (single (.keyword .elifWord) * words (ChainAt Statement) +
          single (.keyword .elseWord) * words (BlockOf Statement) + 1)) ≤
        words (ChainAt Statement) := by
      rw [mul_add, mul_add, mul_add, mul_add, mul_one]
      exact add_le (add_le elif_words else_words) done_words
    refine ((expression_tracks _ ts enough).bind (by simp) fun _ us w _ size => ?_).mono forms
    refine (block_tracks tracks (by omega) (by omega)).bind (by simp) fun _ vs w' _ size' => ?_
    refine .peek (by simp) fun t vs' same => ?_
    subst same
    rw [List.length_cons] at size'
    split
    · next kind =>
      exact .advance kind (le_self_add.trans le_self_add) (ih (by omega) (by omega)).map
    · next kind =>
      exact .advance kind (le_add_self.trans le_self_add)
        (block_tracks tracks (by omega) (by omega)).map
    · exact .pure (.inr rfl)

/-- The check of the parameters is the one that is left out. -/
theorem function_tracks {type : DeclaredType} {site : Site} (within : ts.length ≤ n)
    (enough : ts.length ≤ bound) : Tracks definitionPart ts (function item bound type site) := by
  refine identifier_tracks.bind (by simp) fun r rest w mem size => ?_
  refine expect_tracks.bind (by simp) fun _ us _ _ size' => ?_
  have parameters := separated_tracks (n := bound) (fun ts _ => parameter_tracks) (by simp)
    .rightParen (by omega : us.length ≤ bound) (by omega : us.length ≤ bound)
  rw [← mul_assoc]
  refine parameters.bind (by simp) fun ps vs _ _ size'' => ?_
  split
  · exact fun _ => .repeated rfl
  · exact (block_tracks tracks (by omega) (by omega)).map

theorem declaration_tracks {site : Site} (within : ts.length ≤ n + 1)
    (enough : ts.length ≤ bound + 1) :
    Tracks (words Statement) ts (declaration item bound site) := by
  refine (typeSpec_tracks.bind (by simp) fun type us w mem size => ?_).mono declaration_words
  have shorter := length_pos_of_typeAt mem
  have asFunction : Tracks declarationPart us (function item bound type site) :=
    (function_tracks tracks (by omega) (by omega)).mono (le_add_self.trans le_self_add)
  have asVariable : Tracks declarationPart us (variableDeclaration bound type site) := by
    rw [variableDeclaration_eq]
    exact (binding_tracks (by omega)).mono le_add_self
  refine .peek (by simp) fun t vs same => ?_
  subst same
  rw [List.length_cons] at size
  split
  · next kind =>
    exact .advance kind (le_self_add.trans le_self_add)
      (function_tracks tracks (by omega) (by omega))
  · refine .peekSecond ?_
    split
    · exact asFunction
    · exact asVariable
  · exact asVariable

theorem whileLoop_tracks {site : Site} (within : ts.length ≤ n) (enough : ts.length ≤ bound) :
    Tracks (words Expression * words (BlockOf Statement)) ts (whileLoop item bound site) := by
  refine (expression_tracks _ ts enough).bind (by simp) fun _ us _ _ size => ?_
  exact (block_tracks tracks (by omega) (by omega)).map

theorem countedLoop_tracks {site : Site} (within : ts.length ≤ n) (enough : ts.length ≤ bound) :
    Tracks (words Expression * (single (.keyword .toWord) * (words Expression *
      (single (.keyword .stepWord) * (words Expression * words (BlockOf Statement)))))) ts
      (countedLoop item bound site) := by
  refine (expression_tracks _ ts enough).bind (by simp) fun _ us _ _ size => ?_
  refine expect_tracks.bind (by simp) fun _ us' _ _ size' => ?_
  refine (expression_tracks _ us' (by omega)).bind (by simp) fun _ vs _ _ size'' => ?_
  refine expect_tracks.bind (by simp) fun _ vs' _ _ size₃ => ?_
  refine (expression_tracks _ vs' (by omega)).bind (by simp) fun _ ws _ _ size₄ => ?_
  exact (block_tracks tracks (by omega) (by omega)).map

/-- A statement behind the look at its first token. -/
theorem statementAt_tracks {t : Token} (within : us.length ≤ n) (enough : us.length ≤ bound) :
    Tracks (words Statement) (t :: us) (statementAt item bound t) := by
  unfold statementAt
  split
  · exact declaration_tracks tracks (Nat.succ_le_succ within) (Nat.succ_le_succ enough)
  split
  · have body : Tracks (words (BlockOf Statement)) (t :: us) (block item bound) :=
      block_tracks tracks (Nat.succ_le_succ within) (Nat.succ_le_succ enough)
    exact (body.mono blockStatement_words).map
  · next kind => exact .advance_pure kind empty_words
  · next kind =>
    refine .advance kind ?_ (returned_tracks enough)
    rw [mul_add]
    exact add_le retVoid_words ret_words
  · next kind => exact .advance kind branch_words (conditional_tracks tracks within enough).map
  · next kind => exact .advance kind loop_words (whileLoop_tracks tracks within enough)
  · next kind => exact .advance kind count_words (countedLoop_tracks tracks within enough)
  · next kind =>
    rw [reassignment_eq]
    exact .advance kind reassign_words (binding_tracks (Nat.le_succ_of_le enough))
  · next name kind => exact callStatement_tracks kind (Nat.le_succ_of_le enough)
  · exact .throw (by simp [ParseError.site]) (by simp)
  · exact .throw (by simp [ParseError.site]) (by simp)

end Statements

/-- **Statements track.** -/
theorem statement_tracks (bound : Nat) (ts : List Token) (within : ts.length ≤ bound) :
    Tracks (words Statement) ts (statement bound) := by
  induction bound generalizing ts with
  | zero => exact .exhausted within (by simp)
  | succ bound ih =>
    refine .peek (by simp) fun t us same => ?_
    subst same
    rw [List.length_cons] at within
    have inside : Tracks (words Statement) (t :: us) (statementAt (statement bound) bound t) :=
      statementAt_tracks ih (by omega) (by omega)
    rw [← mul_one (words Statement)]
    exact inside.bind .one fun _ _ _ _ _ => .note (.pure rfl)

/-- **Programs track.** -/
theorem program_tracks {bound : Nat} (enough : ts.length ≤ bound) :
    Tracks (words (Many Statement)) ts (program bound) := by
  refine .peek (by simp) fun t us same => ?_
  have all := statements_tracks (statement_tracks bound) false enough enough
  rw [closed_false, mul_one] at all
  exact (same ▸ all).map

end Parser

end Scriptlet
