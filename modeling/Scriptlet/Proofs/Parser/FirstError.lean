import Scriptlet.Proofs.Parser.Lenient
import Scriptlet.Proofs.Parser.Viable
import Scriptlet.Proofs.Scan.Sites

/-!
# Errors of parsing are at the first impossible token

The tokens in front of an error can be completed to a program, and with the token that the error
points at they cannot.

## Main definitions

* `ParseError.Immediate` — an error that is about the token it points at

## Main statements

* `exists_accepted_of_viable` — a viable start of a token list is the start of an accepted one
* `not_accepted_of_error` — no list that goes on in another way is accepted
* `parse_valid_prefix` — errors of parsing a source text

## Design decisions

* A name at the start of a statement is blamed for what stands behind it, so an error there is not
  immediate, and neither is one about a parameter that repeats another one.
-/

namespace Scriptlet

open Grammar

/-- **Immediate errors**: the token at the site of the error decides it. -/
def ParseError.Immediate (ts : List Token) : ParseError → Prop
  | .duplicateParameter .. | .untypedAssignment .. => False
  | .cannotParseLine _ site => ∀ t ∈ ts, t.site = site → t.kind.isName = false
  | _ => True

theorem ParseError.Immediate.not_repetition {ts : List Token} {e : ParseError}
    (h : e.Immediate ts) : ¬ e.isRepetition := by
  cases e with
  | duplicateParameter => exact absurd h id
  | _ => exact Bool.false_ne_true

/-- One token decides an immediate error. -/
theorem ParseError.Immediate.ahead {ts post : List Token} {t : Token} {e : ParseError}
    (h : e.Immediate ts) (mem : t ∈ ts) (here : t.site = e.site) : e.ahead (t :: post) = 1 := by
  cases e with
  | untypedAssignment => exact absurd h id
  | cannotParseLine found site =>
    rw [ParseError.ahead, List.head?_cons, Option.any_some, h t mem here]
    rfl
  | _ => rfl

/-! ## The tokens in front -/

/-- No statement has an end token inside. -/
theorem Grammar.many_ne_endOfStream {ts : List Token} {ss : List Stmt} (h : Many Statement ts ss)
    (regular : ∀ t ∈ ts, t.Regular) : ∀ t ∈ ts, t.kind ≠ .endOfStream := by
  let last : Token := .unplaced .endOfStream
  have program : Program last ts ⟨ss, (ts.headD last).site⟩ := .intro h
  obtain ⟨log, ran⟩ : ∃ log, Parser.program (ts ++ [last]).length ⟨ts ++ [last], .silent⟩ =
      .ok _ ⟨[last], log⟩ :=
    Parser.program_reads program rfl regular (Nat.le_refl _) .silent
  have proceeds := Parser.program_steady (Nat.le_refl _) (.refl (ts ++ [last])) .silent
  rw [ran] at proceeds
  cases proceeds with
  | ok spent =>
    obtain ⟨used, taken, inside⟩ := spent
    obtain rfl : used = ts := List.append_cancel_right taken.symm
    exact inside

/-- What is viable has no end token either. -/
theorem Viable.ne_endOfStream {pre : List Token}
    (viable : Viable (words (Many Statement)) (shape pre)) : ∀ t ∈ pre, t.kind ≠ .endOfStream := by
  intro t mem ends
  obtain ⟨v, ts, ss, spells, phrases⟩ := viable
  have inside : TokenKind.endOfStream ∈ shape ts := by
    rw [spells.shape, ← show t.kind.unnamed = .endOfStream by rw [ends]; rfl]
    exact List.mem_append_left _ (List.mem_map_of_mem mem)
  obtain ⟨u, mem', kind⟩ := List.mem_map.mp inside
  refine many_ne_endOfStream phrases spells.regular u mem' ?_
  exact (TokenKind.unnamed_eq_iff.mp kind).resolve_right (by simp [TokenKind.isName])

/-- Where names and sites do not count, regular tokens of one shape are alike. -/
theorem Likeness.forall₂_of_shape {L : Likeness} (unnamed : ¬ L.named) {ts us : List Token}
    (same : shape ts = shape us) (regular : ∀ t ∈ ts, t.Regular) (regular' : ∀ u ∈ us, u.Regular) :
    List.Forall₂ L.Alike ts us := by
  induction ts generalizing us with
  | nil =>
    obtain rfl := List.map_eq_nil_iff.mp same.symm
    exact .nil
  | cons t ts ih =>
    cases us with
    | nil => cases same
    | cons u us =>
      rw [shape_cons, shape_cons] at same
      obtain ⟨kind, others⟩ := List.cons.inj same
      obtain ⟨first, regular⟩ := List.forall_mem_cons.mp regular
      obtain ⟨first', regular'⟩ := List.forall_mem_cons.mp regular'
      refine .cons ⟨kind, ?_, fun named => absurd named unnamed⟩ (ih others regular regular')
      rw [first, first', ← TokenKind.flags_unnamed, kind, TokenKind.flags_unnamed]

/-- **What is viable can be completed.** -/
theorem exists_accepted_of_viable {pre : List Token} (regular : ∀ t ∈ pre, t.Regular)
    (viable : Viable (words (Many Statement)) (shape pre)) : ∃ us, Accepted (pre ++ us) := by
  obtain ⟨v, ts, ss, spells, phrases⟩ := viable
  let last : Token := .unplaced .endOfStream
  have program : Program last ts ⟨ss, (ts.headD last).site⟩ := .intro phrases
  have parsed : parse (ts ++ [last]) = .ok _ :=
    Parser.parse_complete rfl spells.regular program
  -- The phrase starts with tokens like the given ones, whose places they can take.
  let L : Likeness := ⟨False, id, True⟩
  obtain ⟨front, back, rfl, same, -⟩ := List.map_eq_append_iff.mp spells.shape
  have alike : List.Forall₂ L.Alike front pre :=
    Likeness.forall₂_of_shape id same (fun t mem => spells.regular t (List.mem_append_left _ mem))
      regular
  rw [List.append_assoc] at parsed
  obtain ⟨b, accepted, -⟩ := (parseBy_of_alike (L.checks_none trivial)
    (List.rel_append alike (List.forall₂_refl (back ++ [last])))).1 _ parsed
  exact ⟨back ++ [last], b, accepted⟩

/-! ## The token at the error -/

/-- **No list that begins like this is accepted**, once the parser has failed on the token. -/
theorem not_accepted_of_error {pre post : List Token} {t : Token} {e : ParseError} {log : Log}
    (failed : Parser.program (pre ++ t :: post).length ⟨pre ++ t :: post, .silent⟩ =
      .error e ⟨t :: post, log⟩)
    (ahead : e.ahead (t :: post) = 1) (other : ¬ e.isRepetition) (us : List Token) :
    ¬ Accepted (pre ++ t :: us) := by
  -- With a bound that is large enough for both lists the parser fails on the tokens up to this
  -- one, in the same way.
  let bound := (pre ++ t :: post).length + (pre ++ t :: us).length
  have alone : ∃ log, Parser.program bound ⟨pre ++ [t], .silent⟩ = .error e ⟨[t], log⟩ := by
    have checks : Likeness.exact.Checks (Parser.duplicate? []) := Likeness.checks_duplicate? trivial
    have matched := (Parser.program_resembles checks (Nat.le_refl _)
      (Nat.le_add_right _ (pre ++ t :: us).length) (pre ++ t :: post)).matches_of_cons
      (Nat.le_refl _) failed rfl ahead.le (by simp : (pre ++ [t]).length ≤ _) .silent
    rw [Parser.programBy_duplicate?] at matched
    generalize Parser.program _ ⟨pre ++ [t], .silent⟩ = r at matched
    cases matched with
    | @error _ e' _ log' same =>
      obtain rfl : e = e' := same.eq ParseError.mapSites_id
      exact ⟨log', rfl⟩
    | lenient free => exact absurd free id
  obtain ⟨log', alone⟩ := alone
  let L : Likeness := ⟨True, id, True⟩
  have matched := (Parser.program_resembles (L.checks_none trivial)
    (Nat.le_add_left _ (pre ++ t :: post).length) (Nat.le_refl (pre ++ t :: us).length)
    (pre ++ [t])).matches_of_cons (by simp) alone rfl
    ((e.ahead_cons t [] post).trans ahead).le (Nat.le_refl _) .silent
  rintro ⟨b, accepted⟩
  unfold parseBy Parser.parts Parser.start at accepted
  generalize Parser.programBy _ _ ⟨pre ++ t :: us, .silent⟩ = r at matched accepted
  cases matched with
  | error => cases accepted
  | lenient _ repetition => exact other repetition

/-- **Errors of parsing are at the first impossible token.**  For a source text on which parsing
fails with an immediate error, that is at one of the tokens.  The tokens in front of it are the
start of an accepted list, and no accepted list starts with these and the token itself, not even
if that is the end token. -/
theorem parse_valid_prefix {source file : String} {ts : List Token} {e : ParseError}
    (scanned : tokenize source file = .ok ts) (failed : parse ts = .error e)
    (immediate : e.Immediate ts) :
    ∃ pre t post, ts = pre ++ t :: post ∧ t.site = e.site ∧
      (∀ u ∈ pre ++ post, u.site ≠ e.site) ∧
      (∃ us, Accepted (pre ++ us)) ∧ ∀ us, ¬ Accepted (pre ++ t :: us) := by
  obtain ⟨regular, ended⟩ := regular_and_ended scanned
  -- What was taken in front of the error is viable.
  have tracked := Parser.program_tracks (Nat.le_refl ts.length) .silent
  obtain ⟨c, ran⟩ : ∃ c, Parser.program ts.length ⟨ts, .silent⟩ = .error e c := by
    unfold parse Parser.parts Parser.start at failed
    generalize Parser.program ts.length ⟨ts, .silent⟩ = r at failed
    cases r with
    | ok b c => cases failed
    | error e' c => exact ⟨c, congrArg (EStateM.Result.error · c) (Except.error.inj failed)⟩
  rw [ran] at tracked
  obtain ⟨post, log⟩ := c
  cases tracked with
  | repeated repetition => exact absurd repetition immediate.not_repetition
  | @error _ _ pre taken viable here =>
    have regular' : ∀ t ∈ pre, t.Regular := fun t mem =>
      regular t (taken ▸ List.mem_append_left _ mem)
    cases post with
    | nil =>
      obtain ⟨t, mem, kind⟩ := ended
      exact absurd kind (viable.ne_endOfStream t (by rwa [taken, List.append_nil] at mem))
    | cons t post =>
      subst taken
      have site : t.site = e.site := here t rfl
      obtain ⟨pieces, cut, same⟩ := tokenize_eq_ok_iff.mp scanned
      have ordered := cut.pairwise_tokens file
      rw [← same, List.pairwise_append, List.pairwise_cons] at ordered
      obtain ⟨-, ⟨behind, -⟩, before⟩ := ordered
      refine ⟨pre, t, post, rfl, site, ?_, exists_accepted_of_viable regular' viable,
        not_accepted_of_error ran (immediate.ahead (by simp) site) immediate.not_repetition⟩
      rw [← site, List.forall_mem_append]
      exact ⟨fun u mem => (before u mem t List.mem_cons_self).ne,
        fun u mem => (behind u mem).ne.symm⟩

/-- The text `now a=b+;`: the semicolon cannot stand behind the sign. -/
theorem parse_valid_prefix_of_operand :
    let ts : List Token := [.ofKind (.keyword .now) "now" ⟨"f", 1, 1⟩,
      .ofKind (.identifier "a") "a" ⟨"f", 1, 5⟩, .ofKind (.mark .equals) "=" ⟨"f", 1, 6⟩,
      .ofKind (.identifier "b") "b" ⟨"f", 1, 7⟩, .ofKind (.operator .plus) "+" ⟨"f", 1, 8⟩,
      .ofKind (.mark .semicolon) ";" ⟨"f", 1, 9⟩, .ofKind .endOfStream "" ⟨"f", 1, 10⟩]
    tokenize "now a=b+;" "f" = .ok ts ∧
      parse ts = .error (.invalidOperation ";" ⟨"f", 1, 9⟩) ∧
      (∃ us, Accepted (ts.take 5 ++ us)) ∧ ∀ us, ¬ Accepted (ts.take 6 ++ us) := by
  intro ts
  have scanned : tokenize "now a=b+;" "f" = .ok ts := by decide +kernel
  have failed : parse ts = .error (.invalidOperation ";" ⟨"f", 1, 9⟩) := by rfl
  obtain ⟨pre, t, post, split, site, others, accepted, rejected⟩ :=
    parse_valid_prefix scanned failed trivial
  -- The token is the sixth one, since no other one is at its site.
  have index : pre.length = 5 := by
    have here : (ts.map Token.site).idxOf ⟨"f", 1, 9⟩ = 5 := by decide
    have absent : (⟨"f", 1, 9⟩ : Site) ∉ pre.map Token.site := by
      rintro mem
      obtain ⟨u, mem, same⟩ := List.mem_map.mp mem
      exact others u (List.mem_append_left _ mem) same
    rw [split, List.map_append, List.map_cons, show t.site = ⟨"f", 1, 9⟩ from site,
      List.idxOf_append_of_notMem absent, List.idxOf_cons_self] at here
    simpa using here
  have front : ts.take 5 = pre := by rw [split, ← index, List.take_left]
  have whole : ts.take 6 = pre ++ [t] := by
    rw [split, show 6 = pre.length + 1 by rw [index], List.take_length_add_append]
    rfl
  rw [front, whole]
  refine ⟨scanned, failed, accepted, fun us => ?_⟩
  rw [List.append_assoc]
  exact rejected us

end Scriptlet
