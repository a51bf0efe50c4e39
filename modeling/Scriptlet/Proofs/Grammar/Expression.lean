import Scriptlet.Proofs.Grammar.Climbing

/-!
# Expressions are read as the grammar has them

## Main definitions

* `Parser.ExpressionEnd` — what may follow an expression

## Main statements

* `Parser.expression_sound` — what is read as an expression is one
* `Parser.expression_complete` — every expression is read

## Design decisions

* Operands hold expressions, so the statements on `factor` assume those on the
  parser that it gets for them; the induction on the bound closes the circle.
-/

namespace Scriptlet

open Grammar

namespace Parser

/-! ## Operands and operators, from a run to a phrase -/

variable {Good : Token → Prop} {Phrase : List Token → Expr → Prop}

theorem primary_ok {inner : Parser Expr} {n bound : Nat} (sound : SoundOn Good inner Phrase n)
    {c c' : Cursor} {e : Expr} {t : Token} {ts : List Token} (hc : c.tokens = t :: ts)
    (good : ∀ t ∈ c.tokens, Good t) (within : c.tokens.length ≤ n + 1)
    (h : primary inner bound t c = .ok e c') :
    ∃ used, c.tokens = used ++ c'.tokens ∧ OperandOf Phrase used e := by
  -- What is inside of an operand stands behind its first token.
  have inside : ∀ {c₁ : Cursor}, c.tokens = t :: c₁.tokens →
      (∀ u ∈ c₁.tokens, Good u) ∧ c₁.tokens.length ≤ n := by
    intro c₁ taken
    rw [taken] at good within
    exact ⟨fun u mem => good u (.tail _ mem), by simpa using within⟩
  unfold primary at h
  cases kind : t.kind with
  | literal value =>
    rw [kind] at h
    obtain ⟨_, c₁, hadvance, h⟩ := ok_of_bind h
    obtain ⟨rfl, rfl⟩ := ok_of_pure h
    exact ⟨[t], advance_ok hc hadvance, .literal kind⟩
  | mark mark =>
    cases mark with
    | leftParen =>
      rw [kind] at h
      obtain ⟨_, c₁, hadvance, h⟩ := ok_of_bind h
      obtain ⟨x, c₂, hinner, h⟩ := ok_of_bind h
      obtain ⟨closing, c₃, hclosing, h⟩ := ok_of_bind h
      obtain ⟨rfl, rfl⟩ := ok_of_pure h
      have taken := advance_ok hc hadvance
      obtain ⟨good₁, within₁⟩ := inside taken
      obtain ⟨used, hused, phrase⟩ := sound good₁ within₁ hinner
      obtain ⟨hclose, closes⟩ := expect_ok hclosing
      refine ⟨t :: (used ++ [closing]), ?_, .group kind phrase closes⟩
      rw [taken, hused, hclose]
      simp
    | leftBracket =>
      rw [kind] at h
      obtain ⟨_, c₁, hadvance, h⟩ := ok_of_bind h
      obtain ⟨es, c₂, helements, h⟩ := ok_of_bind h
      obtain ⟨rfl, rfl⟩ := ok_of_pure h
      have taken := advance_ok hc hadvance
      obtain ⟨good₁, within₁⟩ := inside taken
      obtain ⟨used, closing, hused, phrases, closes⟩ := separated_ok sound good₁ within₁ helements
      refine ⟨t :: (used ++ [closing]), ?_, .array kind phrases closes⟩
      rw [taken, hused]
      simp
    | _ =>
      rw [kind] at h
      exact absurd h not_ok_of_throw
  | identifier name =>
    rw [kind] at h
    obtain ⟨⟨name', site⟩, c₁, hname, h⟩ := ok_of_bind h
    obtain ⟨word, hword, hkind, rfl⟩ := identifier_ok hname
    obtain ⟨rfl, -⟩ := List.cons.inj (hc.symm.trans hword)
    obtain ⟨good₁, within₁⟩ := inside hword
    obtain ⟨next, c₂, hpeek, h⟩ := ok_of_bind h
    obtain ⟨rfl, us, hu⟩ := peek_ok hpeek
    split at h
    · next opens =>
      obtain ⟨_, c₃, hadvance, h⟩ := ok_of_bind h
      obtain ⟨args, c₄, hargs, h⟩ := ok_of_bind h
      obtain ⟨rfl, rfl⟩ := ok_of_pure h
      have taken := advance_ok hu hadvance
      rw [taken] at good₁ within₁
      obtain ⟨used, closing, hused, phrases, closes⟩ :=
        separated_ok sound (fun u mem => good₁ u (.tail _ mem)) (Nat.le_of_succ_le within₁) hargs
      refine ⟨t :: next :: (used ++ [closing]), ?_, .call hkind opens phrases closes⟩
      rw [hword, taken, hused]
      simp
    · obtain ⟨rfl, rfl⟩ := ok_of_pure h
      exact ⟨[t], by rw [hword]; rfl, .var hkind⟩
  | _ =>
    rw [kind] at h
    exact absurd h not_ok_of_throw

theorem factor_sound {inner : Parser Expr} {n : Nat} (sound : SoundOn Good inner Phrase n)
    (bound : Nat) : SoundOn Good (factor inner bound) (OperandOf Phrase) (n + 1) := by
  intro c c' e good within h
  -- On the number of prefix operators, which the bound counts.
  induction bound generalizing c e with
  | zero => exact absurd h not_ok_of_throw
  | succ bound ih =>
    obtain ⟨t, c₀, hpeek, h⟩ := ok_of_bind h
    obtain ⟨rfl, ts, hc⟩ := peek_ok hpeek
    cases prefixed : t.kind.unaryOp? with
    | some op =>
      rw [prefixed] at h
      obtain ⟨sign, kind, mem⟩ := unaryOp?_eq_some_iff.mp prefixed
      obtain ⟨_, c₁, hadvance, h⟩ := ok_of_bind h
      obtain ⟨operand, c₂, hoperand, h⟩ := ok_of_bind h
      obtain ⟨rfl, rfl⟩ := ok_of_pure h
      have taken := advance_ok hc hadvance
      rw [taken] at good within
      obtain ⟨used, hused, phrase⟩ :=
        ih (fun u mem => good u (.tail _ mem)) (Nat.le_of_succ_le within) hoperand
      exact ⟨t :: used, by rw [taken, hused]; rfl, .unary kind mem phrase⟩
    | none =>
      rw [prefixed] at h
      exact primary_ok sound hc good within h

/-- **Operators above operands**, from a run to a grouped tree. -/
theorem binary_ok {bound least : Nat}
    (operands : SoundOn Good (factor (binary bound 0) (bound + 1)) Phrase (bound + 1))
    (direction : Nat → Bool)
    (levels : ∀ o : Infix, Good o.token → o.toRight = direction o.precedence) {c c' : Cursor}
    {e : Expr} (good : ∀ t ∈ c.tokens, Good t) (within : c.tokens.length ≤ bound + 1)
    (h : binary (bound + 1) least c = .ok e c') :
    ∃ used, c.tokens = used ++ c'.tokens ∧ GroupedOf Phrase least used e ∧
      Stops least c'.tokens := by
  obtain ⟨first, c₁, hfirst, h⟩ := ok_of_bind h
  obtain ⟨fs, hfs, item⟩ := operands good within hfirst
  rw [hfs] at good within
  simp only [List.length_append] at within
  -- A single operand offers as much as any operator asks for.
  obtain ⟨used, hused, tree, stops⟩ :=
    climb_ok operands direction levels (.item (max least layers.length) item) (Nat.le_max_left _ _)
      (fun o _ => Nat.le_trans o.leftLeast_le_length (Nat.le_max_right _ _))
      (fun u mem => good u (List.mem_append_right _ mem)) (by omega) (by omega) h
  exact ⟨fs ++ used, by rw [hfs, hused, List.append_assoc], tree, stops⟩

/-- **Soundness of expressions**, at every precedence to start from. -/
theorem binary_sound (bound least : Nat) (le : least ≤ layers.length) :
    Sound (binary bound least) (Layer Operand least) bound := by
  induction bound generalizing least with
  | zero => exact fun c c' e _ _ h => absurd h not_ok_of_throw
  | succ bound ih =>
    intro c c' e regular within h
    have operands := (factor_sound (ih 0 (Nat.zero_le _)) (bound + 1)).mono
      fun _ _ operand => operand.operand
    -- Regular operators all group to the left.
    have levels : ∀ o : Infix, o.token.Regular → o.toRight = false :=
      fun o regular => rightToLeft_eq_false regular o.spells
    obtain ⟨used, hused, tree, -⟩ := binary_ok operands (fun _ => false) levels regular within h
    have plain : ∀ o : Infix, o.token ∈ used → o.toRight = false :=
      fun o mem => levels o (regular o.token (by simp [hused, mem]))
    exact ⟨used, hused, tree.layer plain le⟩

theorem expression_sound (bound : Nat) : Sound (expression bound) Expression bound :=
  binary_sound bound 0 (Nat.zero_le _)

/-! ## Operands, from a phrase to a run -/

/-- What an operand can start with. -/
inductive OperandStart : TokenKind → Prop where
  /-- A constant. -/
  | literal (value : Literal) : OperandStart (.literal value)
  /-- A name. -/
  | identifier (name : String) : OperandStart (.identifier name)
  /-- A prefix operator. -/
  | operator (sign : Sign) : OperandStart (.operator sign)
  /-- A bracket around an expression. -/
  | group : OperandStart (.mark .leftParen)
  /-- The bracket of an array literal. -/
  | array : OperandStart (.mark .leftBracket)

theorem operand_start {ts : List Token} {e : Expr} (h : Operand ts e) : Ahead OperandStart ts := by
  cases h with
  | literal kind => exact .cons _ (by rw [kind]; exact .literal _)
  | var kind => exact .cons _ (by rw [kind]; exact .identifier _)
  | unary kind => exact .cons _ (by rw [kind]; exact .operator _)
  | group opens => exact .cons _ (by rw [opens]; exact .group)
  | array opens => exact .cons _ (by rw [opens]; exact .array)
  | call kind => exact .cons _ (by rw [kind]; exact .identifier _)

theorem layer_start {p : Nat} {ts : List Token} {e : Expr} (h : Layer Operand p ts e) :
    Ahead OperandStart ts := by
  induction h with
  | operand operand => exact operand_start operand
  | tighter _ ih => exact ih
  | operation _ _ _ _ _ ih _ => exact ih.append _

/-- An expression does not start with a kind that no operand starts with. -/
theorem expression_start_ne {kind : TokenKind} (h : ¬ OperandStart kind) ⦃ts : List Token⦄
    ⦃e : Expr⦄ (phrase : Expression ts e) : Ahead (· ≠ kind) ts := by
  obtain ⟨t, us, rfl, start⟩ := layer_start phrase
  exact .cons us fun same => h (same ▸ start)

/-- What may follow an expression. -/
def ExpressionEnd (kind : TokenKind) : Prop :=
  kind ≠ .mark .leftParen ∧ kind.binaryOp? = none

theorem ExpressionEnd.stops {ts : List Token} (h : Ahead ExpressionEnd ts) : Stops 0 ts := by
  obtain ⟨t, us, rfl, -, none⟩ := h
  intro op t' some
  simp [nextOperator?, none] at some

theorem ExpressionEnd.operandEnd {ts : List Token} (h : Ahead ExpressionEnd ts) :
    OperandEnd ts := by
  obtain ⟨t, us, rfl, plain, -⟩ := h
  exact .cons us plain

/-- The arguments of a call, or the elements of an array literal. -/
theorem expressions_reads {inner : Parser Expr} {n bound : Nat} {closing : Mark}
    (complete : Complete inner Expression (Ahead ExpressionEnd) n)
    (bracket : closing = .rightParen ∨ closing = .rightBracket) {ts rest : List Token}
    {es : List Expr} {close : Token} (h : Listed Expression ts es)
    (hclose : close.kind = .mark closing) (regular : ∀ t ∈ ts, t.Regular)
    (enough : (ts ++ close :: rest).length ≤ bound) (within : (ts ++ close :: rest).length ≤ n) :
    Reads (separated inner closing bound) (ts ++ close :: rest) es rest := by
  have notStart : ¬ OperandStart (.mark closing) := by
    rcases bracket with rfl | rfl <;> intro start <;> cases start
  have ends : ExpressionEnd (.mark closing) := by
    rcases bracket with rfl | rfl <;> exact ⟨by simp, rfl⟩
  have distinct : closing ≠ .comma := by
    rcases bracket with rfl | rfl <;> simp
  exact separated_reads complete ⟨by simp, rfl⟩ ends distinct (expression_start_ne notStart) h
    hclose regular enough within

theorem factor_complete {inner : Parser Expr} {n : Nat}
    (complete : Complete inner Expression (Ahead ExpressionEnd) n) (m : Nat) (le : m ≤ n + 1) :
    Complete (factor inner m) Operand OperandEnd m := by
  induction m with
  | zero =>
    intro ts e rest _ phrase _ within
    obtain ⟨t, us, rfl, -⟩ := operand_start phrase
    simp at within
  | succ m ih =>
    intro ts e rest regular phrase follow within
    cases phrase with
    | @literal t value kind =>
      refine (peek_reads t rest).bind ?_
      simp only [kind, TokenKind.unaryOp?, primary]
      exact (advance_reads t rest).bind (.pure _ _)
    -- A name is not taken for a call: no bracket is ahead of it.
    | @var t name kind =>
      refine (peek_reads t rest).bind ?_
      simp only [kind, TokenKind.unaryOp?, primary, nameOrCall]
      obtain ⟨next, us, rfl, plain⟩ := follow
      refine (identifier_reads kind _).bind ((peek_reads next us).bind ?_)
      rw [if_neg plain]
      exact .pure _ _
    | @unary t ts e sign op kind mem operand =>
      have prefixed := unaryOp?_eq_some_iff.mpr ⟨sign, kind, mem⟩
      have inside := ih (by omega) (fun u mem => regular u (.tail _ mem)) operand follow
        (by simpa using within)
      refine (peek_reads t _).bind ?_
      simp only [prefixed]
      exact (advance_reads t _).bind (inside.bind (.pure _ _))
    | @group opening closing ts e opens phrase closes =>
      simp only [List.cons_append, List.append_assoc, List.nil_append, List.length_cons,
        List.length_append] at within ⊢
      have inside : Reads inner (ts ++ closing :: rest) e (closing :: rest) := by
        refine complete (fun u mem => regular u (by simp [mem])) phrase (.cons rest ?_) ?_
        · rw [closes]
          exact ⟨by simp, rfl⟩
        · simp only [List.length_append, List.length_cons]
          omega
      refine (peek_reads opening _).bind ?_
      simp only [opens, TokenKind.unaryOp?, primary]
      exact (advance_reads opening _).bind
        (inside.bind ((expect_reads closes _ _).bind (.pure _ _)))
    | @array opening closing ts es opens phrases closes =>
      simp only [List.cons_append, List.append_assoc, List.nil_append, List.length_cons,
        List.length_append] at within ⊢
      have elements : Reads (separated inner .rightBracket m) (ts ++ closing :: rest) es rest := by
        refine expressions_reads complete (.inr rfl) phrases closes
          (fun u mem => regular u (by simp [mem])) ?_ ?_
        all_goals
          simp only [List.length_append, List.length_cons]
          omega
      refine (peek_reads opening _).bind ?_
      simp only [opens, TokenKind.unaryOp?, primary]
      exact (advance_reads opening _).bind (elements.bind (.pure _ _))
    | @call word opening closing ts name es kind opens phrases closes =>
      simp only [List.cons_append, List.append_assoc, List.nil_append, List.length_cons,
        List.length_append] at within ⊢
      have args : Reads (arguments inner m) (ts ++ closing :: rest) es rest := by
        refine expressions_reads complete (.inl rfl) phrases closes
          (fun u mem => regular u (by simp [mem])) ?_ ?_
        all_goals
          simp only [List.length_append, List.length_cons]
          omega
      refine (peek_reads word _).bind ?_
      simp only [kind, TokenKind.unaryOp?, primary, nameOrCall]
      refine (identifier_reads kind _).bind ((peek_reads opening _).bind ?_)
      rw [if_pos opens]
      exact (advance_reads opening _).bind (args.bind (.pure _ _))

/-- **Completeness of expressions.** -/
theorem expression_complete (bound : Nat) :
    Complete (expression bound) Expression (Ahead ExpressionEnd) bound := by
  induction bound with
  | zero =>
    intro ts e rest _ phrase _ within
    obtain ⟨t, us, rfl, -⟩ := layer_start phrase
    simp at within
  | succ bound ih =>
    intro ts e rest regular phrase follow within
    have operands := factor_complete ih (bound + 1) (Nat.le_refl _)
    -- The parser reads the first operand and climbs along the rest.
    obtain ⟨fs, first, rs, rfl, item, spine⟩ := exists_spine phrase
    rw [List.append_assoc] at within ⊢
    have hfirst : Reads (factor (binary bound 0) (bound + 1)) (fs ++ (rs ++ rest)) first
        (rs ++ rest) :=
      operands (fun u mem => regular u (by simp [mem])) item
        (spine.operandEnd_append (ExpressionEnd.operandEnd follow)) within
    have hrest : Reads (climb (factor (binary bound 0) (bound + 1)) (bound + 1) first 0)
        (rs ++ rest) e rest := by
      simp only [List.length_append] at within
      refine climb_reads operands spine (ExpressionEnd.operandEnd follow)
        (ExpressionEnd.stops follow) (fun u mem => regular u (by simp [mem])) ?_ ?_
      all_goals
        simp only [List.length_append]
        omega
    exact hfirst.bind hrest

end Parser

end Scriptlet
