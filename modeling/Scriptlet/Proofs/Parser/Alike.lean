import Mathlib.Data.List.Forall2
import Scriptlet.Proofs.Sites.Grammar

/-!
# Parsers on tokens that are alike

What a parser does is decided by the tokens that it takes and by a few tokens behind them.  On
another list that has tokens like these in front, whatever comes then, it does the like.

## Main definitions

* `Likeness` — what is compared of tokens, trees and errors
* `Likeness.exact` — everything counts
* `Likeness.Alike`, `Likeness.Agree` — tokens that are alike, and lists that start with such
* `ParseError.ahead` — how many of the tokens that are left decide an error
* `Parser.Resembles` — a parser does on all lists that agree what another one does on a given one

## Main statements

* `Parser.Resembles.bind` — one parser behind another
* `Parser.items_resembles`, `Parser.separated_resembles` — lists
* `Parser.binary_resembles` — expressions

## Design decisions

* Two parsers are compared and not one with itself: they may have different bounds, be given
  different sites or names, and differ in what they check.
* A list that agrees may be longer or shorter.  So both lists have at most `n` tokens, and `n`
  is at most the bound of either parser.  The inductions are on `n`, since the two bounds need
  not have anything to do with each other.
* How far a parser looks ahead when it succeeds is a function of its result: behind an `if`
  chain the next token has been looked at, behind every other statement it has not.
* Where names do not count, two kinds are alike if both are names.
-/

namespace Scriptlet

/-! ## What is compared -/

/-- Whether the kind is a name. -/
def TokenKind.isName : TokenKind → Bool
  | .identifier _ => true
  | _ => false

/-- The kind, where a name is any name. -/
def TokenKind.unnamed : TokenKind → TokenKind
  | .identifier _ => .identifier ""
  | kind => kind

theorem TokenKind.unnamed_eq_iff {k k' : TokenKind} :
    k.unnamed = k'.unnamed ↔ k = k' ∨ k.isName ∧ k'.isName := by
  cases k <;> cases k' <;> simp [unnamed, isName]

/-- The flags of a kind do not depend on a name. -/
theorem TokenKind.flags_unnamed (kind : TokenKind) : kind.unnamed.flags = kind.flags := by
  cases kind <;> rfl

/-- A kind that need not be there, where a name is any name. -/
theorem TokenKind.map_unnamed_cases {k k' : Option TokenKind}
    (h : k.map TokenKind.unnamed = k'.map TokenKind.unnamed) :
    k = k' ∨ ∃ a b, k = some (.identifier a) ∧ k' = some (.identifier b) := by
  cases k with
  | none =>
    cases k' with
    | none => exact .inl rfl
    | some k' => cases h
  | some k =>
    cases k' with
    | none => cases h
    | some k' =>
      rcases TokenKind.unnamed_eq_iff.mp (Option.some.inj h) with rfl | ⟨isName, isName'⟩
      · exact .inl rfl
      · cases k <;> cases isName
        cases k' <;> cases isName'
        exact .inr ⟨_, _, rfl, rfl⟩

namespace ParseError

/-- The error with its site given by `f`. -/
def mapSites (f : Site → Site) : ParseError → ParseError
  | .unexpectedToken expected found site => .unexpectedToken expected found (f site)
  | .invalidOperation found site => .invalidOperation found (f site)
  | .cannotParseLine found site => .cannotParseLine found (f site)
  | .duplicateParameter function parameter site => .duplicateParameter function parameter (f site)
  | .untypedAssignment name site => .untypedAssignment name (f site)
  | .endOfInput site => .endOfInput (f site)

/-- Whether the error is about a parameter that repeats the name of another one. -/
def isRepetition : ParseError → Bool
  | .duplicateParameter .. => true
  | _ => false

/-- **Reach of an error.**  How many of the tokens that are left decide it: one, or two if a
name was taken for the start of a call. -/
def ahead (rest : List Token) : ParseError → Nat
  | .untypedAssignment .. => 2
  | .cannotParseLine .. => if rest.head?.any (·.kind.isName) then 2 else 1
  | _ => 1

theorem one_le_ahead (rest : List Token) (e : ParseError) : 1 ≤ e.ahead rest := by
  unfold ahead
  split
  · decide
  · split <;> decide
  · decide

/-- Of the tokens that are left, the first one tells how many decide an error. -/
theorem ahead_cons (e : ParseError) (t : Token) (us us' : List Token) :
    e.ahead (t :: us) = e.ahead (t :: us') := by cases e <;> rfl

theorem mapSites_id (e : ParseError) : e.mapSites id = e := by cases e <;> rfl

end ParseError

/-- **Likeness**: what is compared of tokens, trees and errors. -/
structure Likeness where
  /-- Names, the texts of tokens and sites count. -/
  named : Prop
  /-- What counts of a site. -/
  place : Site → Site
  /-- A repeated parameter, which the one parser reports, may be none for the other one. -/
  lenient : Prop

namespace Likeness

variable (L : Likeness) {α : Type}

/-- Two objects with sites are the same as far as it counts. -/
def Same (move : (Site → Site) → α → α) (a b : α) : Prop :=
  L.named → move L.place a = move L.place b

variable {L} in
/-- Objects that are the same one by one. -/
theorem Same.map {move : (Site → Site) → α → α} {xs ys : List α}
    (h : List.Forall₂ (L.Same move) xs ys) (named : L.named) :
    xs.map (move L.place) = ys.map (move L.place) := by
  induction h with
  | nil => rfl
  | cons first _ ih => rw [List.map_cons, List.map_cons, first named, ih]

/-- **Exact likeness**: everything counts. -/
def exact : Likeness := ⟨True, id, False⟩

/-- What is the same when everything counts is equal. -/
theorem Same.eq {move : (Site → Site) → α → α} {a b : α} (same : exact.Same move a b)
    (unmoved : ∀ a, move id a = a) : a = b := by
  have moved : move id a = move id b := same trivial
  rwa [unmoved, unmoved] at moved

/-- **Tokens that are alike.** -/
structure Alike (t u : Token) : Prop where
  kind : t.kind.unnamed = u.kind.unnamed
  flags : t.flags = u.flags
  same : L.Same Token.mapSites t u

/-- **Agreement** of lists on their first `k` tokens. -/
def Agree (k : Nat) (ts us : List Token) : Prop :=
  List.Forall₂ L.Alike (ts.take k) (us.take k)

variable {L}

instance : Std.Refl L.Alike := ⟨fun _ => ⟨rfl, rfl, fun _ => rfl⟩⟩

namespace Alike

variable {t u : Token} (h : L.Alike t u)

include h

/-- The kinds are the same, but for names. -/
theorem kind_cases :
    t.kind = u.kind ∨
      ∃ a b, t.kind = .identifier a ∧ u.kind = .identifier b ∧ (L.named → a = b) := by
  rcases TokenKind.unnamed_eq_iff.mp h.kind with same | ⟨isName, isName'⟩
  · exact .inl same
  · cases kind : t.kind with
    | identifier a =>
      cases kind' : u.kind with
      | identifier b =>
        refine .inr ⟨a, b, rfl, rfl, fun named => ?_⟩
        have same := congrArg Token.kind (h.same named)
        change t.kind = u.kind at same
        rw [kind, kind'] at same
        exact TokenKind.identifier.inj same
      | _ => rw [kind'] at isName'; cases isName'
    | _ => rw [kind] at isName; cases isName

theorem kind_eq_iff {k : TokenKind} (other : k.isName = false) : t.kind = k ↔ u.kind = k := by
  rcases h.kind_cases with same | ⟨a, b, kind, kind', -⟩
  · rw [same]
  · rw [kind, kind']
    constructor <;> rintro rfl <;> cases other

theorem place (named : L.named) : L.place t.site = L.place u.site :=
  congrArg Token.site (h.same named)

theorem lexeme (named : L.named) : t.lexeme = u.lexeme := by
  have same := congrArg Token.lexeme (h.same named)
  exact same

end Alike

namespace Agree

variable {k j : Nat} {ts us used used' : List Token}

theorem refl (k : Nat) (ts : List Token) : L.Agree k ts ts := List.forall₂_refl _

theorem mono (h : L.Agree k ts us) (le : j ≤ k) : L.Agree j ts us := by
  have shorter := List.forall₂_take j h
  rwa [List.take_take, List.take_take, Nat.min_eq_left le] at shorter

theorem append (h : L.Agree k ts us) (front : List.Forall₂ L.Alike used used') :
    L.Agree (used.length + k) (used ++ ts) (used' ++ us) := by
  rw [Agree, List.take_length_add_append, front.length_eq, List.take_length_add_append]
  exact List.rel_append front h

/-- Lists with the same first token agree on it, and all lists agree on no token. -/
theorem of_head? {ahead : Bool} (same : ahead = true → us.head? = ts.head?) :
    L.Agree ahead.toNat ts us := by
  cases ahead with
  | false => exact .nil
  | true =>
    rw [Agree, Bool.toNat_true, List.take_one, List.take_one, same rfl]
    exact List.forall₂_refl _

/-- Only the tokens that count have to be there. -/
theorem take_iff : L.Agree k (ts.take k) us ↔ L.Agree k ts us := by
  rw [Agree, Agree, List.take_take, Nat.min_self]

theorem take_self (k : Nat) (ts : List Token) : L.Agree k ts (ts.take k) := by
  rw [Agree, List.take_take, Nat.min_self]
  exact List.forall₂_refl _

theorem length_take_le (h : L.Agree k ts us) : (ts.take k).length ≤ us.length := by
  rw [h.length_eq]
  exact List.length_take_le' k us

/-- A list that agrees with the empty one is empty. -/
theorem eq_nil (h : L.Agree (k + 1) [] us) : us = [] := by
  cases us with
  | nil => rfl
  | cons u us => cases h

/-- The first tokens are alike. -/
theorem exists_cons {t : Token} (h : L.Agree (k + 1) (t :: ts) us) :
    ∃ u us', us = u :: us' ∧ L.Alike t u := by
  cases us with
  | nil => cases h
  | cons u us =>
    cases h with
    | cons first _ => exact ⟨u, us, rfl, first⟩

/-- The second tokens are alike in kind. -/
theorem second (h : L.Agree 2 ts us) :
    ((ts.drop 1).head?.map Token.kind).map TokenKind.unnamed =
      ((us.drop 1).head?.map Token.kind).map TokenKind.unnamed := by
  rcases ts with _ | ⟨t, _ | ⟨t', ts⟩⟩ <;> rcases us with _ | ⟨u, _ | ⟨u', us⟩⟩ <;> try cases h
  · rfl
  · rfl
  · rename_i others
    cases others
  · rename_i others
    cases others
  · rename_i others
    cases others with
    | cons second _ => exact congrArg some second.kind

end Agree

end Likeness

namespace Parser

open Likeness

variable {L : Likeness} {α β γ δ : Type} {n k : Nat} {ts us rest : List Token}

/-! ## Resemblance -/

/-- What a run leaves. -/
def left : EStateM.Result ParseError Cursor α → List Token
  | .ok _ c | .error _ c => c.tokens

/-- **Reach of a run.**  How many of the tokens that it leaves have decided it. -/
def reach (ahead : α → Bool) : EStateM.Result ParseError Cursor α → Nat
  | .ok a _ => (ahead a).toNat
  | .error e c => e.ahead c.tokens

/-- **Matching outcomes**, where the second one leaves `rest`. -/
inductive Matches (L : Likeness) (V : α → β → Prop) (rest : List Token) :
    EStateM.Result ParseError Cursor α → EStateM.Result ParseError Cursor β → Prop where
  /-- Results. -/
  | ok {a : α} {b : β} {c : Cursor} {log : Log} :
      V a b → Matches L V rest (.ok a c) (.ok b ⟨rest, log⟩)
  /-- Errors. -/
  | error {e e' : ParseError} {c : Cursor} {log : Log} :
      L.Same ParseError.mapSites e e' → Matches L V rest (.error e c) (.error e' ⟨rest, log⟩)
  /-- A repetition that need not be one. -/
  | lenient {e : ParseError} {c : Cursor} {r : EStateM.Result ParseError Cursor β} :
      L.lenient → e.isRepetition → Matches L V rest (.error e c) r

/-- **Reading alike.**  The run `r` on `ts` has taken some tokens, and at least `j` have decided
it.  On every list of at most `n` tokens that has tokens like these in front and agrees with what
is left, as far as that decided the run, the parser `q` does the like. -/
def ReadsAlike (L : Likeness) (n j : Nat) (ahead : α → Bool) (V : α → β → Prop) (ts : List Token)
    (q : Parser β) (r : EStateM.Result ParseError Cursor α) : Prop :=
  ∃ used, ts = used ++ left r ∧ j ≤ used.length + reach ahead r ∧
    ∀ used' rest log, List.Forall₂ L.Alike used used' → L.Agree (reach ahead r) (left r) rest →
      (used' ++ rest).length ≤ n → Matches L V rest r (q ⟨used' ++ rest, log⟩)

/-- **Resemblance.**  From `ts` the parser `p` does what `q` does on all lists that agree with
`ts`, if there are at most `n` tokens.  If `p` succeeds, `ahead` tells whether the token behind
what it takes was looked at. -/
def Resembles (L : Likeness) (n : Nat) (ahead : α → Bool) (V : α → β → Prop) (ts : List Token)
    (p : Parser α) (q : Parser β) : Prop :=
  ts.length ≤ n → ∀ log, ReadsAlike L n 1 ahead V ts q (p ⟨ts, log⟩)

/-- On no tokens at all a parser says that the input has ended. -/
def Starves (p : Parser α) : Prop :=
  ∀ log, ∃ log', p ⟨[], log⟩ = .error (.endOfInput .unknown) ⟨[], log'⟩

theorem Starves.bind {p : Parser α} (h : Starves p) (f : α → Parser β) : Starves (p >>= f) := by
  intro log
  obtain ⟨log', ran⟩ := h log
  refine ⟨log', ?_⟩
  show EStateM.bind p f ⟨[], log⟩ = _
  simp only [EStateM.bind, ran]

theorem starves_exhausted : Starves (exhausted : Parser α) := fun log => ⟨log, rfl⟩

theorem starves_peek (f : Token → Parser α) : Starves (peek >>= f) := fun log => ⟨log, rfl⟩

/-- **The next token is taken** on both sides.  What `q` does then may depend on its token. -/
theorem readsAlike_cons {j : Nat} {ahead : α → Bool} {V : α → β → Prop} {t : Token} {q : Parser β}
    {r : EStateM.Result ParseError Cursor α}
    (h : ∀ u, L.Alike t u → ∃ q' : Parser β, (∀ us log, q ⟨u :: us, log⟩ = q' ⟨us, log⟩) ∧
      ReadsAlike L n j ahead V us q' r) :
    ReadsAlike L (n + 1) (j + 1) ahead V (t :: us) q r := by
  obtain ⟨-, -, used, taken, looked, -⟩ := h t (Std.Refl.refl t)
  refine ⟨t :: used, by rw [taken]; rfl, by rw [List.length_cons]; omega,
    fun used' rest log alike agree within => ?_⟩
  obtain ⟨u, used', first, others, rfl⟩ := List.forall₂_cons_left_iff.mp alike
  obtain ⟨q', step, used₂, taken₂, -, run⟩ := h u first
  obtain rfl : used₂ = used := List.append_cancel_right (taken₂.symm.trans taken)
  rw [List.cons_append, step]
  exact run used' rest log others agree (Nat.le_of_succ_le_succ within)

namespace Resembles

variable {ahead : α → Bool} {ahead' : γ → Bool} {V : α → β → Prop} {W : γ → δ → Prop}
  {p : Parser α} {q : Parser β} {f : α → Parser γ} {g : β → Parser δ}

theorem mono (h : Resembles L n ahead V ts p q) (le : k ≤ n) : Resembles L k ahead V ts p q := by
  intro within log
  obtain ⟨used, taken, looked, run⟩ := h (Nat.le_trans within le) log
  exact ⟨used, taken, looked, fun used' rest log' alike agree within' =>
    run used' rest log' alike agree (Nat.le_trans within' le)⟩

theorem imp {V' : α → β → Prop} (h : Resembles L n ahead V ts p q)
    (weaker : ∀ a b, V a b → V' a b) : Resembles L n ahead V' ts p q := by
  intro within log
  obtain ⟨used, taken, looked, run⟩ := h within log
  refine ⟨used, taken, looked, fun used' rest log' alike agree within' => ?_⟩
  have matched := run used' rest log' alike agree within'
  generalize p ⟨ts, log⟩ = r at matched
  generalize q ⟨used' ++ rest, log'⟩ = r' at matched
  cases matched with
  | ok holds => exact .ok (weaker _ _ holds)
  | error same => exact .error same
  | lenient free repeated => exact .lenient free repeated

/-- What is decided without the next token is decided with it. -/
theorem of_closed (h : Resembles L n (fun _ => false) V ts p q) (ahead : α → Bool) :
    Resembles L n ahead V ts p q := by
  intro within log
  obtain ⟨used, taken, looked, run⟩ := h within log
  have le : reach (fun _ => false) (p ⟨ts, log⟩) ≤ reach ahead (p ⟨ts, log⟩) := by
    cases p ⟨ts, log⟩ with
    | ok a c => exact Nat.zero_le _
    | error e c => exact Nat.le_refl _
  exact ⟨used, taken, by omega, fun used' rest log' alike agree within' =>
    run used' rest log' alike (agree.mono le) within'⟩

/-- **On lists that are alike in all their tokens** the outcomes match. -/
theorem matches_of_alike (h : Resembles L n ahead V ts p q) (within : ts.length ≤ n)
    (alike : List.Forall₂ L.Alike ts us) (log log' : Log) :
    ∃ rest, Matches L V rest (p ⟨ts, log⟩) (q ⟨us, log'⟩) := by
  obtain ⟨used, taken, -, run⟩ := h within log
  have front := List.forall₂_take used.length alike
  have back := List.forall₂_drop used.length alike
  generalize p ⟨ts, log⟩ = r at taken run
  subst taken
  rw [List.take_left] at front
  rw [List.drop_left] at back
  refine ⟨us.drop used.length, ?_⟩
  have matched := run _ _ log' front (List.forall₂_take _ back) (by
    rw [List.take_append_drop, ← alike.length_eq]
    exact within)
  rwa [List.take_append_drop] at matched

/-- **On a list that goes on in another way** behind the next token, the outcomes match if no more
than that token decides. -/
theorem matches_of_cons {pre post : List Token} {t : Token} {log : Log}
    {r : EStateM.Result ParseError Cursor α} (h : Resembles L n ahead V (pre ++ t :: post) p q)
    (within : (pre ++ t :: post).length ≤ n) (ran : p ⟨pre ++ t :: post, log⟩ = r)
    (taken : left r = t :: post) (decided : reach ahead r ≤ 1)
    (within' : (pre ++ t :: us).length ≤ n) (log' : Log) :
    Matches L V (t :: us) r (q ⟨pre ++ t :: us, log'⟩) := by
  obtain ⟨used, split, -, run⟩ := h within log
  rw [ran, taken] at split run
  obtain rfl : pre = used := List.append_cancel_right split
  have agree : L.Agree 1 (t :: post) (t :: us) := .cons (Std.Refl.refl t) .nil
  exact run pre (t :: us) log' (List.forall₂_refl _) (agree.mono decided) within'

/-! ### Sequences -/

/-- **One parser behind another.**  Where the first one has come to is known from its run, and
the second one decides on no fewer tokens. -/
theorem bind_of_run (first : Resembles L n ahead V ts p q)
    (second : ∀ a b rest k log log', k + ts.length = n + rest.length → rest.length ≤ ts.length →
      V a b → p ⟨ts, log⟩ = .ok a ⟨rest, log'⟩ →
      ReadsAlike L k (ahead a).toNat ahead' W rest (g b) (f a ⟨rest, log'⟩)) :
    Resembles L n ahead' W ts (p >>= f) (q >>= g) := by
  intro within log
  obtain ⟨used, taken, looked, run⟩ := first within log
  show ReadsAlike L n 1 ahead' W ts (q >>= g) (EStateM.bind p f ⟨ts, log⟩)
  unfold EStateM.bind
  generalize ran : p ⟨ts, log⟩ = r at taken looked run
  cases r with
  | error e c =>
    refine ⟨used, taken, looked, fun used' rest log' alike agree within' => ?_⟩
    have same := run used' rest log' alike agree within'
    show Matches L W rest _ (EStateM.bind q g ⟨used' ++ rest, log'⟩)
    unfold EStateM.bind
    generalize q ⟨used' ++ rest, log'⟩ = r' at same
    cases same with
    | error same => exact .error same
    | lenient free repeated => exact .lenient free repeated
  | ok a c =>
    obtain ⟨tokens, log₁⟩ := c
    obtain rfl : ts = used ++ tokens := taken
    rw [List.length_append] at within
    obtain ⟨k, rfl⟩ : ∃ k, n = k + used.length := ⟨n - used.length, by omega⟩
    have behind (b : β) (holds : V a b) := second a b tokens k log log₁
      (by rw [List.length_append]; omega) (by rw [List.length_append]; omega) holds ran
    -- What `f a` takes does not depend on what `q` gives, so the list itself may tell.
    have matched := run used tokens log (List.forall₂_refl _) (.refl _ _)
      (by rw [List.length_append]; exact within)
    obtain ⟨b₀, holds₀⟩ : ∃ b, V a b := by
      generalize q ⟨used ++ tokens, log⟩ = s at matched
      cases matched with
      | ok holds => exact ⟨_, holds⟩
    obtain ⟨used₁, taken₁, looked₁, -⟩ := behind b₀ holds₀
    dsimp only
    generalize f a ⟨tokens, log₁⟩ = r' at behind taken₁ looked₁
    have looked₂ : used.length + (ahead a).toNat ≥ 1 := looked
    refine ⟨used ++ used₁, by rw [taken₁, List.append_assoc], by rw [List.length_append]; omega,
      fun used' rest log' alike agree within' => ?_⟩
    -- A list that agrees has a part for each of the parsers.
    obtain ⟨front, back, rfl, alike₀, alike₁⟩ : ∃ front back, used' = front ++ back ∧
        List.Forall₂ L.Alike used front ∧ List.Forall₂ L.Alike used₁ back := by
      have fore := List.forall₂_take used.length alike
      have hind := List.forall₂_drop used.length alike
      rw [List.take_left] at fore
      rw [List.drop_left] at hind
      exact ⟨_, _, (List.take_append_drop used.length used').symm, fore, hind⟩
    rw [List.append_assoc] at within' ⊢
    have agree₁ : L.Agree (ahead a).toNat tokens (back ++ rest) := by
      rw [taken₁]
      exact (agree.append alike₁).mono looked₁
    have matched := run front (back ++ rest) log' alike₀ agree₁ within'
    show Matches L W rest r' (EStateM.bind q g ⟨front ++ (back ++ rest), log'⟩)
    unfold EStateM.bind
    generalize q ⟨front ++ (back ++ rest), log'⟩ = s at matched
    cases matched with
    | @ok _ b _ log₂ holds =>
      obtain ⟨used₂, taken₂, -, run₂⟩ := behind b holds
      obtain rfl : used₂ = used₁ := List.append_cancel_right (taken₂.symm.trans taken₁)
      refine run₂ back rest log₂ alike₁ agree ?_
      rw [List.length_append, ← alike₀.length_eq] at within'
      omega

/-- One parser behind another, with what is known of where the first one has come to. -/
theorem bind_behind (first : Resembles L n ahead V ts p q)
    (second : ∀ a b rest k log log', k + ts.length = n + rest.length → rest.length ≤ ts.length →
      V a b → p ⟨ts, log⟩ = .ok a ⟨rest, log'⟩ → Resembles L k ahead' W rest (f a) (g b)) :
    Resembles L n ahead' W ts (p >>= f) (q >>= g) := by
  intro within
  refine first.bind_of_run (fun a b rest k log log' size shorter holds ran => ?_) within
  obtain ⟨used, taken, looked, run⟩ :=
    second a b rest k log log' size shorter holds ran (by omega) log'
  exact ⟨used, taken, Nat.le_trans (Bool.toNat_le _) looked, run⟩

/-- **One parser behind another**, wherever the first one has come to. -/
theorem bind (first : Resembles L n ahead V ts p q)
    (second : ∀ a b rest, V a b → Resembles L n ahead' W rest (f a) (g b)) :
    Resembles L n ahead' W ts (p >>= f) (q >>= g) :=
  first.bind_behind fun a b rest _ _ _ size shorter holds _ =>
    (second a b rest holds).mono (by omega)

/-- **A result behind a parser.**  What is done for it takes no token and looks at none. -/
theorem finish {f' : α → γ} {g' : β → δ} (first : Resembles L n ahead V ts p q)
    (quiet : ∀ a rest, Reads (f a) rest (f' a) rest)
    (quiet' : ∀ b rest, Reads (g b) rest (g' b) rest) (same : ∀ a, ahead' (f' a) = ahead a)
    (holds : ∀ a b, V a b → W (f' a) (g' b)) :
    Resembles L n ahead' W ts (p >>= f) (q >>= g) := by
  refine first.bind_of_run fun a b rest k log log' _ _ valued _ => ?_
  obtain ⟨log₁, ran⟩ := quiet a rest log'
  rw [ran]
  refine ⟨[], rfl, Nat.le_of_eq (by rw [reach, same, List.length_nil, Nat.zero_add]),
    fun used' rest' log₂ alike _ _ => ?_⟩
  obtain rfl := List.forall₂_nil_left_iff.mp alike
  obtain ⟨log₃, ran'⟩ := quiet' b rest' log₂
  rw [List.nil_append, ran']
  exact .ok (holds a b valued)

/-- **A result computed from that of a parser.** -/
theorem map {ahead : Bool} {f : α → γ} {g : β → δ}
    (first : Resembles L n (fun _ => ahead) V ts p q) (holds : ∀ a b, V a b → W (f a) (g b)) :
    Resembles L n (fun _ => ahead) W ts (p >>= fun a => Pure.pure (f a))
      (q >>= fun b => Pure.pure (g b)) :=
  first.finish (fun _ _ => .pure _ _) (fun _ _ => .pure _ _) (fun _ => rfl) holds

/-! ### Single tokens -/

theorem pure {a : α} {b : β} (holds : V a b) :
    Resembles L n (fun _ => true) V ts (pure a) (pure b) := by
  intro _ log
  refine ⟨[], rfl, Nat.le_refl _, fun used' rest log' alike _ _ => ?_⟩
  obtain rfl := List.forall₂_nil_left_iff.mp alike
  exact .ok holds

theorem throw {e e' : ParseError} (same : L.Same ParseError.mapSites e e') :
    Resembles L n ahead V ts (throw e) (throw e') := by
  intro _ log
  refine ⟨[], rfl, Nat.le_add_left_of_le (e.one_le_ahead _), fun used' rest log' alike _ _ => ?_⟩
  obtain rfl := List.forall₂_nil_left_iff.mp alike
  exact .error same

/-- Without tokens both parsers say that the input has ended. -/
theorem of_starves (h : Starves p) (h' : Starves q) : Resembles L 0 ahead V ts p q := by
  intro within log
  obtain rfl := List.length_eq_zero_iff.mp (Nat.le_zero.mp within)
  obtain ⟨log₁, ran⟩ := h log
  rw [ran]
  refine ⟨[], rfl, Nat.le_refl _, fun used' rest log' _ _ within' => ?_⟩
  obtain ⟨log₂, ran'⟩ := h' log'
  obtain ⟨rfl, rfl⟩ := List.append_eq_nil_iff.mp
    (List.length_eq_zero_iff.mp (Nat.le_zero.mp within'))
  rw [List.nil_append, ran']
  exact .error fun _ => rfl

theorem peek_self : Resembles L n (fun _ => true) L.Alike ts Parser.peek Parser.peek := by
  intro _ log
  cases ts with
  | nil =>
    refine ⟨[], rfl, Nat.le_refl _, fun used' rest log' alike agree _ => ?_⟩
    obtain rfl := List.forall₂_nil_left_iff.mp alike
    obtain rfl := Agree.eq_nil (k := 0) agree
    exact .error fun _ => rfl
  | cons t us =>
    refine ⟨[], rfl, Nat.le_refl _, fun used' rest log' alike agree _ => ?_⟩
    obtain rfl := List.forall₂_nil_left_iff.mp alike
    obtain ⟨u, us', rfl, like⟩ := Agree.exists_cons (k := 0) agree
    exact .ok like

/-- Behind a look at the next token. -/
theorem peek {f : Token → Parser γ} {g : Token → Parser δ}
    (h : ∀ t u us k, ts = t :: us → n = k + 1 → L.Alike t u →
      Resembles L (k + 1) ahead' W (t :: us) (f t) (g u)) :
    Resembles L n ahead' W ts (Parser.peek >>= f) (Parser.peek >>= g) := by
  intro within
  refine peek_self.bind_behind (fun t u rest k log log' size shorter like ran => ?_) within
  obtain ⟨same, us, tokens⟩ := peek_ok ran
  obtain ⟨rfl, -⟩ := Cursor.mk.inj same
  obtain rfl : ts = t :: us := tokens
  rw [List.length_cons] at within
  obtain ⟨k, rfl⟩ : ∃ k', k = k' + 1 := ⟨k - 1, by omega⟩
  exact h t u us k rfl (by omega) like

theorem advance_self {t : Token} :
    Resembles L n (fun _ => false) (fun _ _ => True) (t :: us) Parser.advance Parser.advance := by
  intro _ log
  refine ⟨[t], rfl, Nat.le_refl _, fun used' rest log' alike _ _ => ?_⟩
  obtain ⟨u, _, -, others, rfl⟩ := List.forall₂_cons_left_iff.mp alike
  obtain rfl := List.forall₂_nil_left_iff.mp others
  exact .ok trivial

/-- Behind the next token. -/
theorem advance {t : Token} {f : Unit → Parser γ} {g : Unit → Parser δ}
    (h : Resembles L n ahead' W us (f ()) (g ())) :
    Resembles L (n + 1) ahead' W (t :: us) (Parser.advance >>= f) (Parser.advance >>= g) := by
  refine advance_self.bind_behind fun _ _ rest k log log' size _ _ ran => ?_
  obtain ⟨-, same⟩ := EStateM.Result.ok.inj ran
  obtain ⟨rfl, -⟩ := Cursor.mk.inj same
  exact h.mono (by simp at size; omega)

/-- **Behind a look at the token behind the next one**, if no fewer than two tokens decide the
run. -/
theorem peekSecond {f : Option TokenKind → Parser γ} {g : Option TokenKind → Parser δ}
    (h : ∀ kind kind', (ts.drop 1).head?.map Token.kind = kind →
      kind.map TokenKind.unnamed = kind'.map TokenKind.unnamed →
      ∀ log, ReadsAlike L n 2 ahead' W ts (g kind') (f kind ⟨ts, log⟩)) :
    Resembles L n ahead' W ts (peekSecond? >>= f) (peekSecond? >>= g) := by
  intro _ log
  obtain ⟨used, taken, looked, -⟩ := h _ _ rfl rfl log
  refine ⟨used, taken, Nat.le_of_succ_le looked, fun used' rest log' alike agree within => ?_⟩
  have both := (agree.append alike).mono looked
  change L.Agree 2 (used ++ left (f _ ⟨ts, log⟩)) _ at both
  rw [← taken] at both
  obtain ⟨used₂, taken₂, -, run⟩ := h _ _ rfl both.second log
  obtain rfl : used₂ = used := List.append_cancel_right (taken₂.symm.trans taken)
  exact run used' rest log' alike agree within

/-- Behind events. -/
theorem note {e e' : Event} {f : Unit → Parser γ} {g : Unit → Parser δ}
    (h : Resembles L n ahead' W ts (f ()) (g ())) :
    Resembles L n ahead' W ts (Parser.note e >>= f) (Parser.note e' >>= g) := by
  have noted : Resembles L n (fun _ => true) (fun _ _ => True) ts (Parser.note e)
      (Parser.note e') := by
    intro _ log
    refine ⟨[], rfl, Nat.le_refl _, fun used' rest log' alike _ _ => ?_⟩
    obtain rfl := List.forall₂_nil_left_iff.mp alike
    exact .ok trivial
  refine noted.bind_behind fun _ _ rest k log log' size _ _ ran => ?_
  obtain rfl : rest = ts := note_ok ran
  exact h.mono (by omega)

/-- A result that is told by the next token. -/
theorem advance_pure {t : Token} {c : γ} {d : δ} (holds : W c d) :
    Resembles L n (fun _ => false) W (t :: us) (Parser.advance >>= fun _ => Pure.pure c)
      (Parser.advance >>= fun _ => Pure.pure d) :=
  advance_self.map fun _ _ _ => holds

/-- A repetition that need not be one. -/
theorem of_lenient {e : ParseError} (free : L.lenient) (repeated : e.isRepetition) :
    Resembles L n ahead V ts (MonadExcept.throw e) q :=
  fun _ _ => ⟨[], rfl, Nat.le_add_left_of_le (e.one_le_ahead _), fun _ _ _ _ _ _ =>
    .lenient free repeated⟩

/-- An error at the next token. -/
theorem throw_unexpected {t u : Token} {expected : String} (like : L.Alike t u) :
    Resembles L n ahead V ts (MonadExcept.throw (unexpected t expected))
      (MonadExcept.throw (unexpected u expected)) := by
  refine throw fun named => ?_
  unfold unexpected
  by_cases ends : t.kind = .endOfStream
  · rw [if_pos ends, if_pos ((like.kind_eq_iff rfl).mp ends), ParseError.mapSites,
      ParseError.mapSites, like.place named]
  · rw [if_neg ends, if_neg (mt (like.kind_eq_iff rfl).mpr ends), ParseError.mapSites,
      ParseError.mapSites, like.place named, like.lexeme named]

end Resembles

theorem expect_resembles {kind : TokenKind} (other : kind.isName = false) (expected : String) :
    Resembles L n (fun _ => false) L.Alike ts (expect kind expected) (expect kind expected) := by
  refine .peek fun t u us k _ _ like => ?_
  by_cases fits : t.kind = kind
  · rw [if_pos fits, if_pos ((like.kind_eq_iff other).mp fits)]
    exact .advance_pure like
  · rw [if_neg fits, if_neg (mt (like.kind_eq_iff other).mpr fits)]
    exact .throw_unexpected like

/-- A name and its site. -/
theorem identifier_resembles :
    Resembles L n (fun _ => false)
      (fun r r' => L.named → r.1 = r'.1 ∧ L.place r.2 = L.place r'.2) ts identifier identifier := by
  refine .peek fun t u us k _ _ like => ?_
  rcases like.kind_cases with same | ⟨a, b, kind, kind', names⟩
  · rw [← same]
    cases t.kind with
    | identifier name => exact .advance_pure fun named => ⟨rfl, like.place named⟩
    | _ => exact .throw_unexpected like
  · rw [kind, kind']
    exact .advance_pure fun named => ⟨names named, like.place named⟩

/-- A parser behind a name on what it does behind the name. -/
theorem identifier_bind {t : Token} {name : String} (kind : t.kind = .identifier name)
    (f : String × Site → Parser α) (us : List Token) (log : Log) :
    (identifier >>= f) ⟨t :: us, log⟩ = f (name, t.site) ⟨us, log⟩ := by
  have ran : identifier ⟨t :: us, log⟩ = .ok (name, t.site) ⟨us, log⟩ := by
    simp only [identifier, bind, EStateM.bind, peek, kind]
    rfl
  show EStateM.bind identifier f ⟨t :: us, log⟩ = _
  simp only [EStateM.bind, ran]

/-- Behind a name that is there, two tokens decide what is done. -/
theorem readsAlike_identifier {t : Token} {name : String} (kind : t.kind = .identifier name)
    {ahead : α → Bool} {V : α → β → Prop} {f : String × Site → Parser α}
    {g : String × Site → Parser β}
    (h : ∀ r, (L.named → name = r.1 ∧ L.place t.site = L.place r.2) →
      Resembles L n ahead V us (f (name, t.site)) (g r))
    (within : us.length ≤ n) (log : Log) :
    ReadsAlike L (n + 1) 2 ahead V (t :: us) (identifier >>= g)
      ((identifier >>= f) ⟨t :: us, log⟩) := by
  rw [identifier_bind kind]
  refine readsAlike_cons fun u like => ?_
  rcases like.kind_cases with same | ⟨a, b, kind', kind'', names⟩
  · rw [kind] at same
    exact ⟨g (name, u.site), identifier_bind same.symm g,
      h _ (fun named => ⟨rfl, like.place named⟩) within log⟩
  · obtain rfl := TokenKind.identifier.inj (kind'.symm.trans kind)
    exact ⟨g (b, u.site), identifier_bind kind'' g,
      h _ (fun named => ⟨names named, like.place named⟩) within log⟩

theorem typeSpec_resembles :
    Resembles L n (fun _ => true) Eq ts typeSpec typeSpec := by
  refine .peek fun t u us k _ _ like => ?_
  rcases like.kind_cases with same | ⟨a, b, kind, kind', names⟩
  · rw [← same]
    cases t.kind with
    | typeName base =>
      refine .advance (.peek fun next next' vs k _ _ like => ?_)
      by_cases opens : next.kind = .mark .leftBracket
      · rw [if_pos opens, if_pos ((like.kind_eq_iff rfl).mp opens)]
        exact .advance ((expect_resembles rfl _).bind fun _ _ _ _ => .pure rfl)
      · rw [if_neg opens, if_neg (mt (like.kind_eq_iff rfl).mpr opens)]
        exact .pure rfl
    | _ => exact .throw_unexpected like
  · rw [kind, kind']
    exact .throw_unexpected like

/-- **Induction below two bounds**, which decrease together with the number of tokens. -/
theorem below_induction {motive : ∀ n m m' : Nat, n ≤ m → n ≤ m' → Prop}
    (zero : ∀ m m', motive 0 m m' (Nat.zero_le m) (Nat.zero_le m'))
    (succ : ∀ n m m' (enough : n ≤ m) (enough' : n ≤ m'), motive n m m' enough enough' →
      motive (n + 1) (m + 1) (m' + 1) (Nat.succ_le_succ enough) (Nat.succ_le_succ enough'))
    (n m m' : Nat) (enough : n ≤ m) (enough' : n ≤ m') : motive n m m' enough enough' := by
  induction n generalizing m m' with
  | zero => exact zero m m'
  | succ n ih =>
    obtain ⟨m, rfl⟩ := Nat.exists_eq_add_one.mpr (Nat.lt_of_lt_of_le n.succ_pos enough)
    obtain ⟨m', rfl⟩ := Nat.exists_eq_add_one.mpr (Nat.lt_of_lt_of_le n.succ_pos enough')
    rw [Nat.succ_le_succ_iff] at enough enough'
    exact succ n m m' enough enough' (ih m m' enough enough')

/-! ## Lists -/

section Lists

variable {item : Parser α} {item' : Parser β} {V : α → β → Prop} {ahead : α → Bool}

theorem items_resembles (inner : ∀ ts, Resembles L n ahead V ts item item') (starves : Starves item)
    (starves' : Starves item') (closing : Mark) {m m' : Nat} (enough : n ≤ m) (enough' : n ≤ m')
    (ts : List Token) :
    Resembles L n (fun _ => false) (List.Forall₂ V) ts (items item closing m)
      (items item' closing m') := by
  induction n, m, m', enough, enough' using below_induction generalizing ts with
  | zero m m' =>
    refine .of_starves ?_ ?_
    · cases m with
      | zero => exact starves_exhausted
      | succ m => exact starves.bind _
    · cases m' with
      | zero => exact starves_exhausted
      | succ m' => exact starves'.bind _
  | succ n m m' enough enough' ih =>
    refine (inner ts).bind fun x y rest first => .peek fun t u us k _ size like => ?_
    obtain rfl := Nat.succ.inj size
    by_cases comma : t.kind = .mark .comma
    · rw [if_pos comma, if_pos ((like.kind_eq_iff rfl).mp comma)]
      have others := ih (fun ts => (inner ts).mono (Nat.le_succ n)) us
      exact .advance (others.map fun xs ys others => .cons first others)
    · rw [if_neg comma, if_neg (mt (like.kind_eq_iff rfl).mpr comma)]
      by_cases closes : t.kind = .mark closing
      · rw [if_pos closes, if_pos ((like.kind_eq_iff rfl).mp closes)]
        exact .advance_pure (.cons first .nil)
      · rw [if_neg closes, if_neg (mt (like.kind_eq_iff rfl).mpr closes)]
        exact .throw_unexpected like

theorem separated_resembles (inner : ∀ ts, Resembles L n ahead V ts item item')
    (starves : Starves item) (starves' : Starves item') (closing : Mark) {m m' : Nat}
    (enough : n ≤ m) (enough' : n ≤ m') (ts : List Token) :
    Resembles L n (fun _ => false) (List.Forall₂ V) ts (separated item closing m)
      (separated item' closing m') := by
  refine .peek fun t u us k _ size like => ?_
  by_cases closes : t.kind = .mark closing
  · rw [if_pos closes, if_pos ((like.kind_eq_iff rfl).mp closes)]
    exact .advance_pure .nil
  · rw [if_neg closes, if_neg (mt (like.kind_eq_iff rfl).mpr closes), ← size]
    exact items_resembles inner starves starves' closing enough enough' _

end Lists

/-! ## Expressions -/

section Expressions

variable {inner inner' : Parser Expr} {m m' : Nat}

section Operands

variable (like : ∀ ts, Resembles L n (fun _ => true) (L.Same Expr.mapSites) ts inner inner')
  (starves : Starves inner) (starves' : Starves inner')

include like starves starves'

theorem nameOrCall_resembles (within : k ≤ n + 1) (enough : k ≤ m + 1) (enough' : k ≤ m' + 1) :
    Resembles L k (fun _ => true) (L.Same Expr.mapSites) ts (nameOrCall inner m)
      (nameOrCall inner' m') := by
  refine identifier_resembles.bind_behind fun r r' rest j log log' size _ name ran => ?_
  obtain ⟨word, tokens, -⟩ := identifier_ok ran
  obtain rfl : ts = word :: rest := tokens
  rw [List.length_cons] at size
  refine .peek fun t u us i _ size' opening => ?_
  by_cases opens : t.kind = .mark .leftParen
  · rw [if_pos opens, if_pos ((opening.kind_eq_iff rfl).mp opens)]
    have arguments := separated_resembles (fun ts => (like ts).mono (by omega : i ≤ n))
      starves starves' .rightParen (by omega : i ≤ m) (by omega : i ≤ m') us
    refine .advance (arguments.bind fun args args' _ same => .pure fun named => ?_)
    rw [Expr.mapSites, Expr.mapSites, Expr.mapSitesAll_eq, Expr.mapSitesAll_eq,
      Same.map same named, (name named).1, (name named).2]
  · rw [if_neg opens, if_neg (mt (opening.kind_eq_iff rfl).mpr opens)]
    refine .pure fun named => ?_
    rw [Expr.mapSites, Expr.mapSites, (name named).1, (name named).2]

/-- An operand without prefix operators, behind the look at its first token. -/
theorem primary_resembles {t u : Token} (first : L.Alike t u) (within : k ≤ n) (enough : k ≤ m)
    (enough' : k ≤ m') (us : List Token) :
    Resembles L (k + 1) (fun _ => true) (L.Same Expr.mapSites) (t :: us) (primary inner m t)
      (primary inner' m' u) := by
  have name : Resembles L (k + 1) (fun _ => true) (L.Same Expr.mapSites) (t :: us)
      (nameOrCall inner m) (nameOrCall inner' m') :=
    nameOrCall_resembles like starves starves' (Nat.succ_le_succ within) (Nat.succ_le_succ enough)
      (Nat.succ_le_succ enough')
  have invalid : Resembles L (k + 1) (fun _ => true) (L.Same Expr.mapSites) (t :: us)
      (throw (.invalidOperation t.lexeme t.site)) (throw (.invalidOperation u.lexeme u.site)) := by
    refine .throw fun named => ?_
    rw [ParseError.mapSites, ParseError.mapSites, first.lexeme named, first.place named]
  unfold primary
  rcases first.kind_cases with same | ⟨a, b, kind, kind', -⟩
  · rw [← same]
    cases t.kind with
    | literal value =>
      refine .advance (.pure fun named => ?_)
      rw [Expr.mapSites, Expr.mapSites, first.place named]
    | mark mark =>
      cases mark with
      | leftParen =>
        refine .advance (((like us).mono within).bind fun e e' rest same => ?_)
        exact (expect_resembles rfl _).bind fun _ _ _ _ => .pure same
      | leftBracket =>
        have elements := separated_resembles (fun ts => (like ts).mono within) starves starves'
          .rightBracket enough enough' us
        refine .advance (elements.bind fun es es' _ same => .pure fun named => ?_)
        rw [Expr.mapSites, Expr.mapSites, Expr.mapSitesAll_eq, Expr.mapSitesAll_eq,
          Same.map same named, first.place named]
      | _ => exact invalid
    | identifier _ => exact name
    | endOfStream =>
      refine .throw fun named => ?_
      rw [ParseError.mapSites, ParseError.mapSites, first.place named]
    | _ => exact invalid
  · rw [kind, kind']
    exact name

omit like starves starves' in
theorem starves_factor (inner : Parser Expr) (m : Nat) : Starves (factor inner m) := by
  cases m with
  | zero => exact starves_exhausted
  | succ m => exact starves_peek _

theorem factor_resembles (within : k ≤ n + 1) (enough : k ≤ m) (enough' : k ≤ m')
    (ts : List Token) :
    Resembles L k (fun _ => true) (L.Same Expr.mapSites) ts (factor inner m)
      (factor inner' m') := by
  induction k, m, m', enough, enough' using below_induction generalizing ts with
  | zero m m' => exact .of_starves (starves_factor _ _) (starves_factor _ _)
  | succ k m m' enough enough' ih =>
    refine .peek fun t u us j _ size first => ?_
    obtain rfl := Nat.succ.inj size
    have plain := primary_resembles like starves starves' first (Nat.le_of_succ_le_succ within)
      enough enough' us
    rcases first.kind_cases with same | ⟨a, b, kind, kind', -⟩
    · rw [← same]
      cases t.kind.unaryOp? with
      | none => exact plain
      | some op =>
        have operand := ih (Nat.le_of_succ_le within) us
        refine .advance (operand.map fun e e' same named => ?_)
        rw [Expr.mapSites, Expr.mapSites, same named, first.place named]
    · rw [kind, kind']
      exact plain

end Operands

/-! ### Infix operators -/

/-- The operator at the front is looked at, and so is its token. -/
theorem peekOperator?_resembles :
    Resembles L n (fun _ => true)
      (Option.Rel fun r r' => r.1 = r'.1 ∧ L.Alike r.2 r'.2) ts peekOperator? peekOperator? := by
  intro _ log
  refine ⟨[], rfl, Nat.le_refl _, fun used' rest log' alike agree _ => ?_⟩
  obtain rfl := List.forall₂_nil_left_iff.mp alike
  refine .ok ?_
  cases ts with
  | nil =>
    obtain rfl := Agree.eq_nil (k := 0) agree
    exact .none
  | cons t us =>
    obtain ⟨u, us', rfl, like⟩ := Agree.exists_cons (k := 0) agree
    show Option.Rel _ (t.kind.binaryOp?.map (·, t)) (u.kind.binaryOp?.map (·, u))
    rcases like.kind_cases with same | ⟨a, b, kind, kind', -⟩
    · rw [← same]
      cases t.kind.binaryOp? with
      | none => exact .none
      | some op => exact .some ⟨rfl, like⟩
    · rw [kind, kind']
      exact .none

/-- Without tokens there is nothing to climb. -/
theorem climb_nil (operand : Parser Expr) (m least : Nat) (left : Expr) (log : Log) :
    climb operand m left least ⟨[], log⟩ = .ok left ⟨[], log⟩ := by
  cases m <;> rfl

theorem climb_resembles {operand operand' : Parser Expr}
    (like : ∀ ts, Resembles L n (fun _ => true) (L.Same Expr.mapSites) ts operand operand')
    {left left' : Expr} (same : L.Same Expr.mapSites left left') (least : Nat) (enough : n ≤ m)
    (enough' : n ≤ m') (ts : List Token) :
    Resembles L n (fun _ => true) (L.Same Expr.mapSites) ts (climb operand m left least)
      (climb operand' m' left' least) := by
  induction n, m, m', enough, enough' using below_induction generalizing ts left left' least with
  | zero m m' =>
    intro within log
    obtain rfl := List.length_eq_zero_iff.mp (Nat.le_zero.mp within)
    rw [climb_nil]
    refine ⟨[], rfl, Nat.le_refl _, fun used' rest log' alike _ within' => ?_⟩
    obtain ⟨rfl, rfl⟩ := List.append_eq_nil_iff.mp
      (List.length_eq_zero_iff.mp (Nat.le_zero.mp within'))
    rw [List.nil_append, climb_nil]
    exact .ok same
  | succ n m m' enough enough' ih =>
    have operand_like (ts : List Token) := (like ts).mono (Nat.le_succ n)
    have again (ts : List Token) {e e' : Expr} (same : L.Same Expr.mapSites e e') (least : Nat) :=
      ih operand_like same least ts
    refine peekOperator?_resembles.bind_behind fun r r' rest k log log' size _ found ran => ?_
    have front : nextOperator? ts = r ∧ ts = rest := by
      obtain ⟨value, cursor⟩ := EStateM.Result.ok.inj ran
      exact ⟨value, (Cursor.mk.inj cursor).1⟩
    obtain ⟨value, rfl⟩ := front
    cases found with
    | none => exact .pure same
    | @some x y found =>
      obtain ⟨op, t⟩ := x
      obtain ⟨op', u⟩ := y
      obtain ⟨rfl, first⟩ := found
      obtain ⟨⟨us, rfl⟩, -⟩ := nextOperator?_eq_some value
      obtain rfl : k = n + 1 := by omega
      dsimp only
      by_cases loose : op.precedence < least
      · rw [if_pos loose, if_pos loose]
        exact .pure same
      · rw [if_neg loose, if_neg loose]
        refine .advance ((operand_like us).bind fun e e' vs operand_same => ?_)
        refine (again vs operand_same _).bind fun tight tight' ws tight_same => ?_
        have folded {right right' : Expr} (right_same : L.Same Expr.mapSites right right')
            (xs : List Token) : Resembles L n (fun _ => true) (L.Same Expr.mapSites) xs
              (note (.folding op t.site) >>= fun _ =>
                climb operand m (.binary op left right t.site) least)
              (note (.folding op u.site) >>= fun _ =>
                climb operand' m' (.binary op left' right' u.site) least) := by
          refine .note (again xs (fun named => ?_) least)
          rw [Expr.mapSites, Expr.mapSites, same named, right_same named, first.place named]
        refine peekOperator?_resembles.bind fun r r' xs found => ?_
        cases found with
        | none => exact folded tight_same xs
        | @some x y found =>
          obtain ⟨next, nextToken⟩ := x
          obtain ⟨next', nextToken'⟩ := y
          obtain ⟨rfl, second⟩ := found
          dsimp only
          rw [← second.flags]
          split
          · exact (again xs tight_same _).bind fun right right' ys right_same =>
              folded right_same ys
          · exact folded tight_same xs

theorem starves_binary (m least : Nat) : Starves (binary m least) := by
  cases m with
  | zero => exact starves_exhausted
  | succ m => exact (starves_factor _ _).bind _

/-- **Expressions resemble.** -/
theorem binary_resembles (least : Nat) (enough : n ≤ m) (enough' : n ≤ m') (ts : List Token) :
    Resembles L n (fun _ => true) (L.Same Expr.mapSites) ts (binary m least) (binary m' least) := by
  induction n, m, m', enough, enough' using below_induction generalizing ts least with
  | zero m m' => exact .of_starves (starves_binary _ _) (starves_binary _ _)
  | succ n m m' enough enough' ih =>
    have operand (ts : List Token) : Resembles L (n + 1) (fun _ => true) (L.Same Expr.mapSites) ts
        (factor (binary m 0) (m + 1)) (factor (binary m' 0) (m' + 1)) :=
      factor_resembles (ih 0) (starves_binary _ _) (starves_binary _ _) (Nat.le_refl _)
        (Nat.succ_le_succ enough) (Nat.succ_le_succ enough') ts
    exact (operand ts).bind fun left left' rest same =>
      climb_resembles operand same least (Nat.succ_le_succ enough) (Nat.succ_le_succ enough') rest

theorem expression_resembles (enough : n ≤ m) (enough' : n ≤ m') (ts : List Token) :
    Resembles L n (fun _ => true) (L.Same Expr.mapSites) ts (expression m) (expression m') :=
  binary_resembles 0 enough enough' ts

end Expressions

end Parser

end Scriptlet
