import Scriptlet.Proofs.Grammar.Expression

/-!
# What is read as a statement is one

## Main statements

* `Parser.statement_sound` — the tokens of a parsed statement are a statement of
  the grammar
* `Parser.program_ok` — the tokens in front of the end token are a program

## Design decisions

* The statements on `block`, `conditional` and the other parts assume soundness of
  the parser that they get for the statements inside; the induction on the bound
  closes the circle, as it does for expressions.
* Declarations and reassignments end alike, so what both take is said once, of the
  parser `binding` that they are instances of.
-/

namespace Scriptlet

open Grammar

namespace Parser

/-! ## Parts of statements -/

/-- No parameter repeats the name of an earlier one exactly if the names differ
from each other and from those seen before. -/
theorem duplicate?_eq_none_iff (seen : List String) (ps : List Parameter) :
    duplicate? seen ps = none ↔
      (ps.map Parameter.name).Nodup ∧ ∀ p ∈ ps, p.name ∉ seen := by
  induction ps generalizing seen with
  | nil => simp [duplicate?]
  | cons p ps ih =>
    by_cases repeated : p.name ∈ seen
    · simp [duplicate?, repeated]
    · simp only [duplicate?, if_neg repeated, ih, List.map_cons, List.nodup_cons, List.mem_map,
        List.mem_cons, not_or, forall_eq_or_imp, not_exists, not_and]
      constructor
      · rintro ⟨nodup, fresh⟩
        exact ⟨⟨fun q mem same => (fresh q mem).1 same, nodup⟩, repeated,
          fun q mem => (fresh q mem).2⟩
      · rintro ⟨⟨distinct, nodup⟩, -, fresh⟩
        exact ⟨nodup, fun q mem => ⟨distinct q mem, fresh q mem⟩⟩

theorem peekSecond?_ok {c c' : Cursor} {r : Option TokenKind} (h : peekSecond? c = .ok r c') :
    c = c' ∧ r = (c.tokens.drop 1).head?.map Token.kind := by
  simp only [peekSecond?, EStateM.Result.ok.injEq] at h
  exact ⟨h.2, h.1.symm⟩

/-- What a token behind the cursor leaves behind it. -/
theorem regular_of_eq_append {c c' : Cursor} {used : List Token}
    (regular : ∀ t ∈ c.tokens, t.Regular) (h : c.tokens = used ++ c'.tokens) :
    ∀ t ∈ c'.tokens, t.Regular :=
  fun t mem => regular t (by rw [h]; exact List.mem_append_right _ mem)

variable {item : Parser Stmt} {n bound : Nat}

/-- Statements end in front of the end token, or with a closing brace that is
taken along. -/
theorem statements_ok (sound : Sound item Statement n) {braced : Bool} {c c' : Cursor}
    {ss : List Stmt} (regular : ∀ t ∈ c.tokens, t.Regular) (within : c.tokens.length ≤ n)
    (h : statements item braced bound c = .ok ss c') :
    ∃ used, Many Statement used ss ∧
      ((braced = true ∧ ∃ close, c.tokens = used ++ close :: c'.tokens ∧
          close.kind = .mark .rightBrace) ∨
        (braced = false ∧ c.tokens = used ++ c'.tokens ∧ Ahead (· = .endOfStream) c'.tokens)) := by
  induction bound generalizing c ss with
  | zero => exact absurd h not_ok_of_throw
  | succ bound ih =>
    obtain ⟨t, c₀, hpeek, h⟩ := ok_of_bind h
    obtain ⟨rfl, ts, hc⟩ := peek_ok hpeek
    split at h
    · next closes =>
      obtain ⟨_, c₁, hadvance, h⟩ := ok_of_bind h
      obtain ⟨rfl, rfl⟩ := ok_of_pure h
      exact ⟨[], .nil, .inl ⟨closes.1, t, advance_ok hc hadvance, closes.2⟩⟩
    · split at h
      · next ended =>
        split at h
        · exact absurd h not_ok_of_throw
        · next unbraced =>
          obtain ⟨rfl, rfl⟩ := ok_of_pure h
          exact ⟨[], .nil, .inr ⟨by simpa using unbraced, rfl, ⟨t, ts, hc, ended⟩⟩⟩
      · obtain ⟨s, c₁, hitem, h⟩ := ok_of_bind h
        obtain ⟨rest, c₂, hrest, h⟩ := ok_of_bind h
        obtain ⟨rfl, rfl⟩ := ok_of_pure h
        obtain ⟨first, hfirst, phrase⟩ := sound regular within hitem
        have shorter : c₁.tokens.length ≤ c.tokens.length := by simp [hfirst]
        obtain ⟨used, many, ending⟩ :=
          ih (regular_of_eq_append regular hfirst) (Nat.le_trans shorter within) hrest
        refine ⟨first ++ used, .cons phrase many, ?_⟩
        rcases ending with ⟨rfl, close, hused, closes⟩ | ⟨rfl, hused, ended⟩
        · exact .inl ⟨rfl, close, by rw [hfirst, hused, List.append_assoc], closes⟩
        · exact .inr ⟨rfl, by rw [hfirst, hused, List.append_assoc], ended⟩

theorem block_ok (sound : Sound item Statement n) {c c' : Cursor} {b : Block}
    (regular : ∀ t ∈ c.tokens, t.Regular) (within : c.tokens.length ≤ n + 1)
    (h : block item bound c = .ok b c') :
    ∃ used, c.tokens = used ++ c'.tokens ∧ BlockOf Statement used b := by
  obtain ⟨brace, c₁, hbrace, h⟩ := ok_of_bind h
  obtain ⟨body, c₂, hbody, h⟩ := ok_of_bind h
  obtain ⟨rfl, rfl⟩ := ok_of_pure h
  obtain ⟨hopen, opens⟩ := expect_ok hbrace
  rw [hopen] at regular within
  obtain ⟨used, many, ⟨-, close, hused, closes⟩ | ⟨unbraced, -⟩⟩ :=
    statements_ok sound (fun t mem => regular t (.tail _ mem)) (Nat.le_of_succ_le_succ within) hbody
  · refine ⟨brace :: (used ++ [close]), ?_, .braces opens many closes⟩
    rw [hopen, hused]
    simp
  · cases unbraced

theorem conditional_ok (sound : Sound item Statement n) {site : Site} {c c' : Cursor}
    {chain : Conditional} (regular : ∀ t ∈ c.tokens, t.Regular) (within : c.tokens.length ≤ n)
    (enough : c.tokens.length ≤ bound) (h : conditional item bound site c = .ok chain c') :
    ∃ used, c.tokens = used ++ c'.tokens ∧ ChainOf Statement site used chain := by
  induction bound generalizing site c chain with
  | zero => exact absurd h not_ok_of_throw
  | succ bound ih =>
    obtain ⟨condition, c₁, hcondition, h⟩ := ok_of_bind h
    obtain ⟨body, c₂, hbody, h⟩ := ok_of_bind h
    obtain ⟨t, c₃, hpeek, h⟩ := ok_of_bind h
    obtain ⟨rfl, ts, ht⟩ := peek_ok hpeek
    obtain ⟨cs, hcs, expression⟩ := expression_sound _ regular enough hcondition
    have regular₁ := regular_of_eq_append regular hcs
    have shorter₁ : c₁.tokens.length ≤ c.tokens.length := by simp [hcs]
    obtain ⟨bs, hbs, block⟩ := block_ok sound regular₁ (by omega) hbody
    have regular₂ := regular_of_eq_append regular₁ hbs
    have shorter₂ : c₂.tokens.length < c₁.tokens.length := by
      obtain ⟨opens, many, closes⟩ := block
      simp [hbs]
      omega
    -- The chain ends here if neither `elif` nor `else` is ahead.
    have done : c₂.tokens = c'.tokens → chain = ⟨condition, body, .done, site⟩ →
        ∃ used, c.tokens = used ++ c'.tokens ∧ ChainOf Statement site used chain := by
      rintro same rfl
      exact ⟨cs ++ bs, by rw [hcs, hbs, same, List.append_assoc], .done expression block⟩
    cases kind : t.kind with
    | keyword word =>
      cases word with
      | elifWord =>
        rw [kind] at h
        obtain ⟨_, c₃, hadvance, h⟩ := ok_of_bind h
        obtain ⟨link, c₄, hlink, h⟩ := ok_of_bind h
        obtain ⟨rfl, rfl⟩ := ok_of_pure h
        have taken := advance_ok ht hadvance
        have regular₃ : ∀ u ∈ c₃.tokens, u.Regular := fun u mem =>
          regular₂ u (by rw [taken]; exact .tail _ mem)
        have shorter₃ : c₃.tokens.length < c₂.tokens.length := by simp [taken]
        obtain ⟨used, hused, next⟩ := ih regular₃ (by omega) (by omega) hlink
        refine ⟨cs ++ (bs ++ t :: used), ?_, .elif expression block kind next⟩
        rw [hcs, hbs, taken, hused]
        simp
      | elseWord =>
        rw [kind] at h
        obtain ⟨_, c₃, hadvance, h⟩ := ok_of_bind h
        obtain ⟨last, c₄, hlast, h⟩ := ok_of_bind h
        obtain ⟨rfl, rfl⟩ := ok_of_pure h
        have taken := advance_ok ht hadvance
        have regular₃ : ∀ u ∈ c₃.tokens, u.Regular := fun u mem =>
          regular₂ u (by rw [taken]; exact .tail _ mem)
        have shorter₃ : c₃.tokens.length < c₂.tokens.length := by simp [taken]
        obtain ⟨used, hused, last⟩ := block_ok sound regular₃ (by omega) hlast
        refine ⟨cs ++ (bs ++ t :: used), ?_, .last expression block kind last⟩
        rw [hcs, hbs, taken, hused]
        simp
      | _ =>
        rw [kind] at h
        obtain ⟨rfl, rfl⟩ := ok_of_pure h
        exact done rfl rfl
    | _ =>
      rw [kind] at h
      obtain ⟨rfl, rfl⟩ := ok_of_pure h
      exact done rfl rfl

/-- A name, an equals sign, an expression and a semicolon, which declarations and
reassignments have in common. -/
def binding (bound : Nat) (equals semicolon : String) (make : String → Site → Expr → Stmt) :
    Parser Stmt := do
  let (name, site) ← identifier
  let _ ← expect (.mark .equals) equals
  let value ← expression bound
  let _ ← expect (.mark .semicolon) semicolon
  return make name site value

theorem variableDeclaration_eq (bound : Nat) (type : DeclaredType) (site : Site) :
    variableDeclaration bound type site =
      binding bound "'=' after the variable name" "';' after the declaration"
        (fun name nameSite value => .declare type name nameSite value site) := rfl

theorem reassignment_eq (bound : Nat) (site : Site) :
    reassignment bound site =
      binding bound "'=' after the variable name" "';' after the assignment"
        (fun name nameSite value => .reassign name nameSite value site) := rfl

theorem binding_ok {equals semicolon : String} {make : String → Site → Expr → Stmt}
    {c c' : Cursor} {s : Stmt} (regular : ∀ t ∈ c.tokens, t.Regular)
    (within : c.tokens.length ≤ bound) (h : binding bound equals semicolon make c = .ok s c') :
    ∃ word sign es stop name e, c.tokens = word :: sign :: (es ++ stop :: c'.tokens) ∧
      word.kind = .identifier name ∧ sign.kind = .mark .equals ∧ Expression es e ∧
      stop.kind = .mark .semicolon ∧ s = make name word.site e := by
  obtain ⟨⟨name, site⟩, c₁, hname, h⟩ := ok_of_bind h
  obtain ⟨sign, c₂, hsign, h⟩ := ok_of_bind h
  obtain ⟨value, c₃, hvalue, h⟩ := ok_of_bind h
  obtain ⟨stop, c₄, hstop, h⟩ := ok_of_bind h
  obtain ⟨rfl, rfl⟩ := ok_of_pure h
  obtain ⟨word, hword, kind, rfl⟩ := identifier_ok hname
  obtain ⟨hequals, isEquals⟩ := expect_ok hsign
  obtain ⟨hsemicolon, isSemicolon⟩ := expect_ok hstop
  rw [hword, hequals] at regular within
  simp only [List.length_cons] at within
  obtain ⟨es, hes, phrase⟩ :=
    expression_sound bound (fun t mem => regular t (by simp [mem])) (by omega) hvalue
  exact ⟨word, sign, es, stop, name, value, by rw [hword, hequals, hes, hsemicolon], kind, isEquals,
    phrase, isSemicolon, rfl⟩

/-- A function definition from its name on. -/
theorem function_ok (sound : Sound item Statement n) {type : DeclaredType} {site : Site}
    {c c' : Cursor} {s : Stmt} (regular : ∀ t ∈ c.tokens, t.Regular)
    (within : c.tokens.length ≤ n) (h : function item bound type site c = .ok s c') :
    ∃ word opening ps closing bs name parameters b,
      c.tokens = word :: opening :: (ps ++ closing :: (bs ++ c'.tokens)) ∧
      word.kind = .identifier name ∧ opening.kind = .mark .leftParen ∧
      Listed Parameterized ps parameters ∧ closing.kind = .mark .rightParen ∧
      (parameters.map Parameter.name).Nodup ∧ BlockOf Statement bs b ∧
      s = .define ⟨name, type, parameters, b, site⟩ := by
  obtain ⟨⟨name, nameSite⟩, c₁, hname, h⟩ := ok_of_bind h
  obtain ⟨opening, c₂, hopening, h⟩ := ok_of_bind h
  obtain ⟨parameters, c₃, hparameters, h⟩ := ok_of_bind h
  obtain ⟨word, hword, kind, -⟩ := identifier_ok hname
  obtain ⟨hopen, opens⟩ := expect_ok hopening
  rw [hword, hopen] at regular within
  simp only [List.length_cons] at within
  have regular₂ : ∀ t ∈ c₂.tokens, t.Regular := fun t mem => regular t (by simp [mem])
  have parameters_sound : Sound parameter Parameterized n := fun _ _ _ _ _ h => parameter_ok h
  obtain ⟨ps, closing, hps, listed, closes⟩ :=
    separated_ok parameters_sound regular₂ (by omega) hparameters
  cases repeated : duplicate? [] parameters with
  | some p =>
    rw [repeated] at h
    exact absurd h not_ok_of_throw
  | none =>
    rw [repeated] at h
    obtain ⟨body, c₄, hbody, h⟩ := ok_of_bind h
    obtain ⟨rfl, rfl⟩ := ok_of_pure h
    rw [hps] at regular₂ within
    simp only [List.length_append, List.length_cons] at within
    obtain ⟨bs, hbs, block⟩ :=
      block_ok sound (fun t mem => regular₂ t (by simp [mem])) (by omega) hbody
    refine ⟨word, opening, ps, closing, bs, name, parameters, body, ?_, kind, opens, listed, closes,
      ((duplicate?_eq_none_iff [] parameters).mp repeated).1, block, rfl⟩
    rw [hword, hopen, hps, hbs]

/-- A statement that starts with a type. -/
theorem declaration_ok (sound : Sound item Statement n) {c c' : Cursor} {s : Stmt} {t : Token}
    {ts : List Token} (hc : c.tokens = t :: ts) (regular : ∀ t ∈ c.tokens, t.Regular)
    (within : c.tokens.length ≤ n + 1) (enough : n ≤ bound)
    (h : declaration item bound t.site c = .ok s c') :
    ∃ used, c.tokens = used ++ c'.tokens ∧ Statement used s := by
  obtain ⟨type, c₁, htype, h⟩ := ok_of_bind h
  obtain ⟨types, htypes, written⟩ := typeSpec_ok hc htype
  have regular₁ := regular_of_eq_append regular htypes
  have within₁ : c₁.tokens.length ≤ n := by
    obtain ⟨u, us, rfl, -⟩ := written_eq_cons written
    rw [htypes] at within
    simp only [List.cons_append, List.length_cons, List.length_append] at within
    omega
  obtain ⟨next, c₂, hpeek, h⟩ := ok_of_bind h
  obtain ⟨rfl, us, hu⟩ := peek_ok hpeek
  -- What is behind the type is a function or a variable; the word `fun` may be left out, so
  -- that only the second token ahead tells.
  have defined : ∀ (fs : List Token) {c₂ : Cursor}, c₁.tokens = fs ++ c₂.tokens →
      (fs = [] ∨ ∃ t, t.kind = .keyword .function ∧ fs = [t]) →
      function item bound type t.site c₂ = .ok s c' →
      ∃ used, c.tokens = used ++ c'.tokens ∧ Statement used s := by
    intro fs c₂ hfs word h
    have shorter : c₂.tokens.length ≤ c₁.tokens.length := by simp [hfs]
    obtain ⟨word', opening, ps, closing, bs, name, parameters, b, htokens, kind, opens, listed,
      closes, nodup, block, rfl⟩ :=
      function_ok sound (regular_of_eq_append regular₁ hfs) (by omega) h
    refine ⟨types ++ (fs ++ word' :: opening :: (ps ++ closing :: bs)), ?_,
      .define written word kind opens listed closes nodup block⟩
    rw [htypes, hfs, htokens]
    simp
  have declared : variableDeclaration bound type t.site c₁ = .ok s c' →
      ∃ used, c.tokens = used ++ c'.tokens ∧ Statement used s := by
    intro h
    rw [variableDeclaration_eq] at h
    obtain ⟨word, sign, es, stop, name, e, htokens, kind, isEquals, phrase, isSemicolon, rfl⟩ :=
      binding_ok regular₁ (Nat.le_trans within₁ enough) h
    refine ⟨types ++ word :: sign :: (es ++ [stop]), ?_,
      .declare written kind isEquals phrase isSemicolon⟩
    rw [htypes, htokens]
    simp
  cases kind : next.kind with
  | keyword word =>
    cases word with
    | function =>
      rw [kind] at h
      obtain ⟨_, c₂, hadvance, h⟩ := ok_of_bind h
      exact defined [next] (advance_ok hu hadvance) (.inr ⟨next, kind, rfl⟩) h
    | _ =>
      rw [kind] at h
      exact declared h
  | identifier name =>
    rw [kind] at h
    obtain ⟨second, c₂, hsecond, h⟩ := ok_of_bind h
    obtain ⟨rfl, rfl⟩ := peekSecond?_ok hsecond
    split at h
    · exact defined [] rfl (.inl rfl) h
    · exact declared h
  | _ =>
    rw [kind] at h
    exact declared h

/-- A return, behind its keyword. -/
theorem returned_ok {word : Token} (kind : word.kind = .keyword .returnWord) {c c' : Cursor}
    {s : Stmt} (regular : ∀ t ∈ c.tokens, t.Regular) (within : c.tokens.length ≤ bound)
    (h : returned bound word.site c = .ok s c') :
    ∃ used, c.tokens = used ++ c'.tokens ∧ Statement (word :: used) s := by
  obtain ⟨t, c₀, hpeek, h⟩ := ok_of_bind h
  obtain ⟨rfl, ts, hc⟩ := peek_ok hpeek
  split at h
  · next semicolon =>
    obtain ⟨_, c₁, hadvance, h⟩ := ok_of_bind h
    obtain ⟨rfl, rfl⟩ := ok_of_pure h
    exact ⟨[t], advance_ok hc hadvance, .retVoid kind semicolon⟩
  · obtain ⟨value, c₁, hvalue, h⟩ := ok_of_bind h
    obtain ⟨stop, c₂, hstop, h⟩ := ok_of_bind h
    obtain ⟨rfl, rfl⟩ := ok_of_pure h
    obtain ⟨es, hes, phrase⟩ := expression_sound bound regular within hvalue
    obtain ⟨hsemicolon, semicolon⟩ := expect_ok hstop
    refine ⟨es ++ [stop], ?_, .ret kind phrase semicolon⟩
    rw [hes, hsemicolon]
    simp

/-- A while loop, behind its keyword. -/
theorem whileLoop_ok (sound : Sound item Statement n) {word : Token}
    (kind : word.kind = .keyword .whileWord) {c c' : Cursor} {s : Stmt}
    (regular : ∀ t ∈ c.tokens, t.Regular) (within : c.tokens.length ≤ n) (enough : n ≤ bound)
    (h : whileLoop item bound word.site c = .ok s c') :
    ∃ used, c.tokens = used ++ c'.tokens ∧ Statement (word :: used) s := by
  obtain ⟨condition, c₁, hcondition, h⟩ := ok_of_bind h
  obtain ⟨body, c₂, hbody, h⟩ := ok_of_bind h
  obtain ⟨rfl, rfl⟩ := ok_of_pure h
  obtain ⟨cs, hcs, phrase⟩ := expression_sound bound regular (by omega) hcondition
  have shorter : c₁.tokens.length ≤ c.tokens.length := by simp [hcs]
  obtain ⟨bs, hbs, block⟩ := block_ok sound (regular_of_eq_append regular hcs) (by omega) hbody
  exact ⟨cs ++ bs, by rw [hcs, hbs, List.append_assoc], .loop kind phrase block⟩

/-- A counted loop, behind its keyword. -/
theorem countedLoop_ok (sound : Sound item Statement n) {word : Token}
    (kind : word.kind = .keyword .fromWord) {c c' : Cursor} {s : Stmt}
    (regular : ∀ t ∈ c.tokens, t.Regular) (within : c.tokens.length ≤ n) (enough : n ≤ bound)
    (h : countedLoop item bound word.site c = .ok s c') :
    ∃ used, c.tokens = used ++ c'.tokens ∧ Statement (word :: used) s := by
  obtain ⟨start, c₁, hstart, h⟩ := ok_of_bind h
  obtain ⟨toWord, c₂, htoWord, h⟩ := ok_of_bind h
  obtain ⟨stop, c₃, hstop, h⟩ := ok_of_bind h
  obtain ⟨stepWord, c₄, hstepWord, h⟩ := ok_of_bind h
  obtain ⟨step, c₅, hstep, h⟩ := ok_of_bind h
  obtain ⟨body, c₆, hbody, h⟩ := ok_of_bind h
  obtain ⟨rfl, rfl⟩ := ok_of_pure h
  obtain ⟨as, has, first⟩ := expression_sound bound regular (by omega) hstart
  obtain ⟨hto, isTo⟩ := expect_ok htoWord
  rw [has, hto] at regular within
  simp only [List.length_append, List.length_cons] at within
  have regular₂ : ∀ t ∈ c₂.tokens, t.Regular := fun t mem => regular t (by simp [mem])
  obtain ⟨cs, hcs, second⟩ := expression_sound bound regular₂ (by omega) hstop
  obtain ⟨hstepped, isStep⟩ := expect_ok hstepWord
  rw [hcs, hstepped] at regular₂ within
  simp only [List.length_append, List.length_cons] at within
  have regular₄ : ∀ t ∈ c₄.tokens, t.Regular := fun t mem => regular₂ t (by simp [mem])
  obtain ⟨ds, hds, third⟩ := expression_sound bound regular₄ (by omega) hstep
  rw [hds] at within
  simp only [List.length_append] at within
  obtain ⟨bs, hbs, block⟩ := block_ok sound (regular_of_eq_append regular₄ hds) (by omega) hbody
  refine ⟨as ++ toWord :: (cs ++ stepWord :: (ds ++ bs)), ?_,
    .count kind first isTo second isStep third block⟩
  rw [has, hto, hcs, hstepped, hds, hbs]
  simp

/-- A call statement, from its name on. -/
theorem callStatement_ok {word : Token} {name : String} (kind : word.kind = .identifier name)
    {c c' : Cursor} {s : Stmt} {ts : List Token} (hc : c.tokens = word :: ts)
    (regular : ∀ t ∈ c.tokens, t.Regular) (within : c.tokens.length ≤ bound + 1)
    (h : callStatement bound name word.site c = .ok s c') :
    ∃ used, c.tokens = used ++ c'.tokens ∧ Statement used s := by
  obtain ⟨second, c₀, hsecond, h⟩ := ok_of_bind h
  obtain ⟨rfl, rfl⟩ := peekSecond?_ok hsecond
  rw [hc, List.drop_one, List.tail_cons] at h
  cases ts with
  | nil => exact absurd h not_ok_of_throw
  | cons opening us =>
    simp only [List.head?_cons, Option.map_some] at h
    cases opens : opening.kind with
    | mark mark =>
      cases mark with
      | leftParen =>
        rw [opens] at h
        obtain ⟨_, c₁, hadvance, h⟩ := ok_of_bind h
        obtain ⟨_, c₂, hadvance', h⟩ := ok_of_bind h
        obtain ⟨args, c₃, hargs, h⟩ := ok_of_bind h
        obtain ⟨stop, c₄, hstop, h⟩ := ok_of_bind h
        obtain ⟨rfl, rfl⟩ := ok_of_pure h
        have taken := advance_ok hc hadvance
        have hc₁ : c₁.tokens = opening :: us := by
          rw [hc] at taken
          exact (List.cons.inj taken).2.symm
        have taken' := advance_ok hc₁ hadvance'
        rw [taken, taken'] at regular within
        simp only [List.length_cons] at within
        obtain ⟨es, closing, hes, listed, closes⟩ :=
          separated_ok (expression_sound bound) (fun t mem => regular t (by simp [mem])) (by omega)
            hargs
        obtain ⟨hsemicolon, semicolon⟩ := expect_ok hstop
        refine ⟨word :: opening :: (es ++ [closing, stop]), ?_,
          .call kind opens listed closes semicolon⟩
        rw [taken, taken', hes, hsemicolon]
        simp
      | _ =>
        rw [opens] at h
        exact absurd h not_ok_of_throw
    | _ =>
      rw [opens] at h
      exact absurd h not_ok_of_throw

/-- A statement whose first token is taken at once. -/
theorem opened_ok {p : Parser Stmt} {c c' : Cursor} {s : Stmt} {t : Token} {ts : List Token}
    (hc : c.tokens = t :: ts) (regular : ∀ t ∈ c.tokens, t.Regular)
    (within : c.tokens.length ≤ n + 1) (h : (advance >>= fun _ => p) c = .ok s c')
    (behind : ∀ {c₁ : Cursor}, (∀ u ∈ c₁.tokens, u.Regular) → c₁.tokens.length ≤ n →
      p c₁ = .ok s c' → ∃ used, c₁.tokens = used ++ c'.tokens ∧ Statement (t :: used) s) :
    ∃ used, c.tokens = used ++ c'.tokens ∧ Statement used s := by
  obtain ⟨_, c₁, hadvance, h⟩ := ok_of_bind h
  have taken := advance_ok hc hadvance
  rw [taken] at regular within
  obtain ⟨used, hused, phrase⟩ :=
    behind (fun u mem => regular u (.tail _ mem)) (Nat.le_of_succ_le_succ within) h
  exact ⟨t :: used, by rw [taken, hused, List.cons_append], phrase⟩

/-- A statement, told apart by its first token. -/
theorem statementAt_ok (sound : Sound item Statement n) {c c' : Cursor} {s : Stmt} {t : Token}
    {ts : List Token} (hc : c.tokens = t :: ts) (regular : ∀ t ∈ c.tokens, t.Regular)
    (within : c.tokens.length ≤ n + 1) (enough : n ≤ bound)
    (h : statementAt item bound t c = .ok s c') :
    ∃ used, c.tokens = used ++ c'.tokens ∧ Statement used s := by
  unfold statementAt at h
  split at h
  -- The flags of the token decide first; with those of its kind they say what the kind says.
  · exact declaration_ok sound hc regular within enough h
  · cases kind : t.kind with
    | mark mark =>
      cases mark with
      | leftBrace =>
        rw [kind] at h
        obtain ⟨body, c₁, hbody, h⟩ := ok_of_bind h
        obtain ⟨rfl, rfl⟩ := ok_of_pure h
        obtain ⟨used, hused, block⟩ := block_ok sound regular within hbody
        exact ⟨used, hused, .block block⟩
      | semicolon =>
        rw [kind] at h
        refine opened_ok hc regular within h fun _ _ h => ?_
        obtain ⟨rfl, rfl⟩ := ok_of_pure h
        exact ⟨[], rfl, .empty kind⟩
      | _ =>
        rw [kind] at h
        exact absurd h not_ok_of_throw
    | keyword word =>
      cases word with
      | returnWord =>
        rw [kind] at h
        exact opened_ok hc regular within h fun regular₁ within₁ h =>
          returned_ok kind regular₁ (Nat.le_trans within₁ enough) h
      | ifWord =>
        rw [kind] at h
        refine opened_ok hc regular within h fun regular₁ within₁ h => ?_
        obtain ⟨chain, c₂, hchain, h⟩ := ok_of_bind h
        obtain ⟨rfl, rfl⟩ := ok_of_pure h
        obtain ⟨used, hused, links⟩ :=
          conditional_ok sound regular₁ within₁ (Nat.le_trans within₁ enough) hchain
        exact ⟨used, hused, .branch kind links⟩
      | whileWord =>
        rw [kind] at h
        exact opened_ok hc regular within h fun regular₁ within₁ h =>
          whileLoop_ok sound kind regular₁ within₁ enough h
      | fromWord =>
        rw [kind] at h
        exact opened_ok hc regular within h fun regular₁ within₁ h =>
          countedLoop_ok sound kind regular₁ within₁ enough h
      | now =>
        rw [kind] at h
        refine opened_ok hc regular within h fun regular₁ within₁ h => ?_
        rw [reassignment_eq] at h
        obtain ⟨word, sign, es, stop, name, e, htokens, isName, isEquals, phrase, isSemicolon,
          rfl⟩ := binding_ok regular₁ (Nat.le_trans within₁ enough) h
        refine ⟨word :: sign :: (es ++ [stop]), ?_,
          .reassign kind isName isEquals phrase isSemicolon⟩
        rw [htokens]
        simp
      | _ =>
        rw [kind] at h
        exact absurd h not_ok_of_throw
    | identifier name =>
      rw [kind] at h
      exact callStatement_ok kind hc regular (by omega) h
    | _ =>
      rw [kind] at h
      exact absurd h not_ok_of_throw

/-- **Soundness of statements.** -/
theorem statement_sound (bound : Nat) : Sound (statement bound) Statement bound := by
  induction bound with
  | zero => exact fun c c' s _ _ h => absurd h not_ok_of_throw
  | succ bound ih =>
    intro c c' s regular within h
    obtain ⟨t, c₀, hpeek, h⟩ := ok_of_bind h
    obtain ⟨rfl, ts, hc⟩ := peek_ok hpeek
    obtain ⟨s, c₁, hs, h⟩ := ok_of_bind h
    obtain ⟨_, c₂, hnote, h⟩ := ok_of_bind h
    obtain ⟨rfl, rfl⟩ := ok_of_pure h
    obtain ⟨used, hused, phrase⟩ := statementAt_ok ih hc regular within (Nat.le_refl _) hs
    exact ⟨used, by rw [hused, note_ok hnote], phrase⟩

/-- **Soundness of programs.**  A parsed program ends in front of an end token. -/
theorem program_ok {bound : Nat} {c c' : Cursor} {b : Block}
    (regular : ∀ t ∈ c.tokens, t.Regular) (within : c.tokens.length ≤ bound)
    (h : program bound c = .ok b c') :
    ∃ used last us, c.tokens = used ++ last :: us ∧ last.kind = .endOfStream ∧
      Program last used b := by
  obtain ⟨t, c₀, hpeek, h⟩ := ok_of_bind h
  obtain ⟨rfl, ts, hc⟩ := peek_ok hpeek
  obtain ⟨body, c₁, hbody, h⟩ := ok_of_bind h
  obtain ⟨rfl, rfl⟩ := ok_of_pure h
  obtain ⟨used, many, ⟨braced, -⟩ | ⟨-, hused, last, us, hlast, ended⟩⟩ :=
    statements_ok (statement_sound bound) regular within hbody
  · cases braced
  · rw [hlast] at hused
    have first : t = used.headD last := by
      cases used with
      | nil => exact (List.cons.inj (hc.symm.trans hused)).1
      | cons u used => exact (List.cons.inj (hc.symm.trans hused)).1
    refine ⟨used, last, us, hused, ended, ?_⟩
    rw [first]
    exact .intro many

end Parser

end Scriptlet
