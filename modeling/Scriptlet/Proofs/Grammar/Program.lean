import Scriptlet.Proofs.Grammar.StatementComplete

/-!
# Parsing decides the grammar

## Main statements

* `parse_eq_ok_iff` — a token list is parsed exactly if it is a program of the
  grammar, and to the tree that it has there
* `Grammar.Program.unique` — the grammar is unambiguous

## Design decisions

* The end token is not part of a program.  A token list with its only end token at
  the end is the case of interest; behind an end token the parser reads nothing.
* Both statements need the flags of a token to be those of its kind.  With other
  flags a token may open a declaration, or group to the right, against the grammar.
-/

namespace Scriptlet

open Grammar

/-- Where the first end token stands is determined. -/
theorem append_eq_append_endOfStream {body used us : List Token} {last ending : Token}
    (inner : ∀ t ∈ body, t.kind ≠ .endOfStream) (ended : ending.kind = .endOfStream)
    (h : body ++ [last] = used ++ ending :: us) : body = used ∧ last = ending := by
  induction body generalizing used with
  | nil =>
    cases used with
    | nil => exact ⟨rfl, (List.cons.inj h).1⟩
    | cons u used => simp at h
  | cons t body ih =>
    cases used with
    | nil =>
      obtain ⟨rfl, -⟩ := List.cons.inj h
      exact absurd ended (inner t (.head _))
    | cons u used =>
      obtain ⟨rfl, tail⟩ := List.cons.inj h
      obtain ⟨rfl, rfl⟩ := ih (fun t mem => inner t (.tail _ mem)) tail
      exact ⟨rfl, rfl⟩

theorem parse_eq_ok_of_start {tokens : List Token} {b : Block} {c : Cursor}
    (h : Parser.start Parser.program tokens .silent = .ok b c) : parse tokens = .ok b := by
  unfold parse Parser.parts
  rw [h]
  rfl

/-- A parsed program is one of the grammar, and its end token is found. -/
theorem Parser.parse_sound {tokens : List Token} {b : Block} (regular : ∀ t ∈ tokens, t.Regular)
    (h : parse tokens = .ok b) : ∃ used last us, tokens = used ++ last :: us ∧
      last.kind = .endOfStream ∧ Program last used b := by
  unfold parse Parser.parts at h
  cases run : Parser.start Parser.program tokens .silent with
  | error e c =>
    rw [run] at h
    cases h
  | ok b' c =>
    rw [run] at h
    obtain rfl : b' = b := by simpa [Except.map] using h
    exact Parser.program_ok regular (Nat.le_refl _) run

/-- A program of the grammar is parsed in front of every end token. -/
theorem Parser.parse_complete {body rest : List Token} {last : Token} {b : Block}
    (ended : last.kind = .endOfStream) (regular : ∀ t ∈ body, t.Regular)
    (h : Program last body b) : parse (body ++ last :: rest) = .ok b := by
  obtain ⟨log, run⟩ := Parser.program_reads h ended regular (Nat.le_refl _) .silent
  exact parse_eq_ok_of_start run

/-- **Parsing decides the grammar.**  A token list whose only end token is its last
token is parsed exactly if the tokens in front are a program, and the result is the
tree that the program has. -/
theorem parse_eq_ok_iff {body : List Token} {last : Token} {b : Block}
    (inner : ∀ t ∈ body, t.kind ≠ .endOfStream) (ended : last.kind = .endOfStream)
    (regular : ∀ t ∈ body ++ [last], t.Regular) :
    parse (body ++ [last]) = .ok b ↔ Program last body b := by
  constructor
  · intro h
    obtain ⟨used, ending, us, htokens, hending, program⟩ := Parser.parse_sound regular h
    obtain ⟨rfl, rfl⟩ := append_eq_append_endOfStream inner hending htokens
    exact program
  · intro h
    exact Parser.parse_complete ended (fun t mem => regular t (List.mem_append_left _ mem)) h

/-- A token without text and place. -/
def Token.unplaced (kind : TokenKind) : Token := .ofKind kind "" .unknown

/-- The text `if not a < b or a { } else { return; }`: `not` binds tighter than `<`, and
that tighter than `or`. -/
theorem parse_eq_ok_iff_of_branch :
    Program (.unplaced .endOfStream)
      (List.map .unplaced [.keyword .ifWord, .operator .not, .identifier "a", .operator .less,
        .identifier "b", .operator .or, .identifier "a", .mark .leftBrace, .mark .rightBrace,
        .keyword .elseWord, .mark .leftBrace, .keyword .returnWord, .mark .semicolon,
        .mark .rightBrace])
      ⟨[.branch ⟨.binary .or
          (.binary .less (.unary .not (.var "a" .unknown) .unknown) (.var "b" .unknown) .unknown)
          (.var "a" .unknown) .unknown,
        ⟨[], .unknown⟩, .last ⟨[.ret none .unknown], .unknown⟩ .unknown, .unknown⟩], .unknown⟩ :=
  (parse_eq_ok_iff (by decide) rfl (by decide)).mp rfl

/-- **The grammar is unambiguous.** -/
theorem Grammar.Program.unique {ts : List Token} {last : Token} {b b' : Block}
    (regular : ∀ t ∈ ts, t.Regular) (ended : last.kind = .endOfStream)
    (h : Program last ts b) (h' : Program last ts b') : b = b' := by
  have parsed : parse (ts ++ [last]) = .ok b := Parser.parse_complete ended regular h
  rw [Parser.parse_complete ended regular h'] at parsed
  exact (Except.ok.inj parsed).symm

end Scriptlet
