import Scriptlet.Parser.Stmt
import Scriptlet.Proofs.Grammar.Basic
import Scriptlet.Proofs.State

/-!
# What parsers read

A parser that succeeds has taken a run of tokens off the front of its input.
This module says so for the parsers of single tokens, types and lists, once in
each direction: from a success to a phrase of the grammar (`_ok`), and from a
phrase of the grammar to a success (`_reads`).

## Main definitions

* `Parser.Reads` — a parser succeeds on a token list and leaves a given rest
* `Parser.Sound`, `Parser.SoundOn` — the tokens that a parser takes are a phrase
* `Parser.Complete` — a parser reads every phrase in front of certain rests

## Main statements

* `Parser.Reads.bind` — two parsers that read one behind the other
* `Parser.separated_ok`, `Parser.separated_reads` — lists between commas

## Design decisions

* The log never decides anything.  `Reads` says so by asking for a success under
  every log, and the `_ok` lemmas hold for cursors with any log.
-/

namespace Scriptlet

/-- A token is **regular** if it has the flags of its kind and no others. -/
def Token.Regular (t : Token) : Prop := t.flags = t.kind.flags

instance (t : Token) : Decidable t.Regular := inferInstanceAs (Decidable (_ = _))

namespace Parser

variable {α β : Type}

/-! ## Sequencing -/

/-- **Reading.**  Under every log the parser succeeds on `ts` with the value `a`
and leaves `rest`. -/
def Reads (p : Parser α) (ts : List Token) (a : α) (rest : List Token) : Prop :=
  ∀ log, ∃ log', p ⟨ts, log⟩ = .ok a ⟨rest, log'⟩

/-- Two parsers that read one behind the other. -/
theorem Reads.bind {p : Parser α} {f : α → Parser β} {ts mid rest : List Token} {a : α} {b : β}
    (first : Reads p ts a mid) (second : Reads (f a) mid b rest) :
    Reads (p >>= f) ts b rest := by
  intro log
  obtain ⟨log', h⟩ := first log
  obtain ⟨log'', h'⟩ := second log'
  refine ⟨log'', ?_⟩
  change EStateM.bind p f ⟨ts, log⟩ = _
  simp only [EStateM.bind, h, h']

theorem Reads.pure (a : α) (ts : List Token) : Reads (pure a) ts a ts :=
  fun log => ⟨log, rfl⟩

/-! ## Single tokens -/

theorem peek_ok {c c' : Cursor} {t : Token} (h : peek c = .ok t c') :
    c = c' ∧ ∃ ts, c.tokens = t :: ts := by
  obtain ⟨ts, log⟩ := c
  cases ts with
  | nil => simp [peek] at h
  | cons u us =>
    simp only [peek, EStateM.Result.ok.injEq] at h
    exact ⟨h.2, us, by rw [h.1]⟩

theorem peek_reads (t : Token) (ts : List Token) : Reads peek (t :: ts) t (t :: ts) :=
  fun log => ⟨log, rfl⟩

theorem peekSecond?_reads (t u : Token) (ts : List Token) :
    Reads peekSecond? (t :: u :: ts) (some u.kind) (t :: u :: ts) :=
  fun log => ⟨log, rfl⟩

theorem advance_ok {c c' : Cursor} {t : Token} {ts : List Token} {u : Unit}
    (hc : c.tokens = t :: ts) (h : advance c = .ok u c') : c.tokens = t :: c'.tokens := by
  simp only [advance, EStateM.Result.ok.injEq] at h
  rw [← h.2, hc, List.drop_one, List.tail_cons]

theorem advance_reads (t : Token) (ts : List Token) : Reads advance (t :: ts) () ts :=
  fun log => ⟨log, rfl⟩

theorem note_ok {e : Event} {c c' : Cursor} {u : Unit} (h : note e c = .ok u c') :
    c'.tokens = c.tokens := by
  simp only [note, EStateM.Result.ok.injEq] at h
  rw [← h.2]

theorem note_reads (e : Event) (ts : List Token) : Reads (note e) ts () ts :=
  fun log => ⟨log.add e, rfl⟩

theorem expect_ok {kind : TokenKind} {expected : String} {c c' : Cursor} {t : Token}
    (h : expect kind expected c = .ok t c') : c.tokens = t :: c'.tokens ∧ t.kind = kind := by
  obtain ⟨u, c₁, hpeek, h⟩ := ok_of_bind h
  obtain ⟨rfl, ts, hc⟩ := peek_ok hpeek
  split at h
  · next same =>
    obtain ⟨_, c₂, hadvance, h⟩ := ok_of_bind h
    obtain ⟨rfl, rfl⟩ := ok_of_pure h
    exact ⟨advance_ok hc hadvance, same⟩
  · exact absurd h not_ok_of_throw

theorem expect_reads {t : Token} {kind : TokenKind} (h : t.kind = kind) (expected : String)
    (ts : List Token) : Reads (expect kind expected) (t :: ts) t ts := by
  refine (peek_reads t ts).bind ?_
  rw [if_pos h]
  exact (advance_reads t ts).bind (.pure t ts)

theorem identifier_ok {c c' : Cursor} {name : String} {site : Site}
    (h : identifier c = .ok (name, site) c') :
    ∃ t, c.tokens = t :: c'.tokens ∧ t.kind = .identifier name ∧ t.site = site := by
  obtain ⟨t, c₁, hpeek, h⟩ := ok_of_bind h
  obtain ⟨rfl, ts, hc⟩ := peek_ok hpeek
  cases kind : t.kind with
  | identifier n =>
    rw [kind] at h
    obtain ⟨_, c₂, hadvance, h⟩ := ok_of_bind h
    obtain ⟨pair, rfl⟩ := ok_of_pure h
    obtain ⟨rfl, rfl⟩ := Prod.mk.inj pair
    exact ⟨t, advance_ok hc hadvance, kind, rfl⟩
  | _ =>
    rw [kind] at h
    exact absurd h not_ok_of_throw

theorem identifier_reads {t : Token} {name : String} (h : t.kind = .identifier name)
    (ts : List Token) : Reads identifier (t :: ts) (name, t.site) ts := by
  refine (peek_reads t ts).bind ?_
  rw [h]
  exact (advance_reads t ts).bind (.pure _ ts)

/-! ## Types and parameters -/

/-- A type is taken together with the brackets behind it; its site is that of
the first token. -/
theorem typeSpec_ok {c c' : Cursor} {t : Token} {ts : List Token} {type : DeclaredType}
    (hc : c.tokens = t :: ts) (h : typeSpec c = .ok type c') :
    ∃ used, c.tokens = used ++ c'.tokens ∧ Grammar.Written used type t.site := by
  obtain ⟨u, c₁, hpeek, h⟩ := ok_of_bind h
  obtain ⟨rfl, us, hu⟩ := peek_ok hpeek
  obtain ⟨rfl, rfl⟩ := List.cons.inj (hc.symm.trans hu)
  cases kind : t.kind with
  | typeName base =>
    rw [kind] at h
    obtain ⟨_, c₂, hadvance, h⟩ := ok_of_bind h
    have taken := advance_ok hc hadvance
    obtain ⟨next, c₃, hnext, h⟩ := ok_of_bind h
    obtain ⟨rfl, vs, hv⟩ := peek_ok hnext
    split at h
    · next opens =>
      obtain ⟨_, c₄, hadvance', h⟩ := ok_of_bind h
      obtain ⟨closing, c₅, hclosing, h⟩ := ok_of_bind h
      obtain ⟨rfl, rfl⟩ := ok_of_pure h
      obtain ⟨hclose, closes⟩ := expect_ok hclosing
      refine ⟨[t, next, closing], ?_, .array kind opens closes⟩
      rw [taken, advance_ok hv hadvance', hclose]
      rfl
    · obtain ⟨rfl, rfl⟩ := ok_of_pure h
      exact ⟨[t], taken, .plain kind⟩
  | _ =>
    rw [kind] at h
    exact absurd h not_ok_of_throw

/-- A type is read completely unless a bracket follows it. -/
theorem typeSpec_reads {ts us : List Token} {type : DeclaredType} {site : Site} {next : Token}
    (h : Grammar.Written ts type site) (follow : next.kind ≠ .mark .leftBracket) :
    Reads typeSpec (ts ++ next :: us) type (next :: us) := by
  cases h with
  | @plain t base kind =>
    refine (peek_reads t (next :: us)).bind ?_
    rw [kind]
    refine (advance_reads t (next :: us)).bind ((peek_reads next us).bind ?_)
    rw [if_neg follow]
    exact .pure _ _
  | @array t opening closing base kind opens closes =>
    refine (peek_reads t (opening :: closing :: next :: us)).bind ?_
    rw [kind]
    refine (advance_reads t _).bind ((peek_reads opening _).bind ?_)
    rw [if_pos opens]
    exact (advance_reads opening _).bind ((expect_reads closes _ _).bind (.pure _ _))

/-- The first token of a written type names its base type, at the site of the type. -/
theorem written_eq_cons {ts : List Token} {type : DeclaredType} {site : Site}
    (h : Grammar.Written ts type site) :
    ∃ t us, ts = t :: us ∧ t.kind = .typeName type.base ∧ t.site = site := by
  cases h with
  | @plain t base kind => exact ⟨t, [], rfl, kind, rfl⟩
  | @array t opening closing base kind => exact ⟨t, [opening, closing], rfl, kind, rfl⟩

theorem parameter_ok {c c' : Cursor} {p : Parameter} (h : parameter c = .ok p c') :
    ∃ used, c.tokens = used ++ c'.tokens ∧ Grammar.Parameterized used p := by
  obtain ⟨t, c₁, hpeek, h⟩ := ok_of_bind h
  obtain ⟨rfl, ts, hc⟩ := peek_ok hpeek
  obtain ⟨type, c₂, htype, h⟩ := ok_of_bind h
  obtain ⟨⟨name, site⟩, c₃, hname, h⟩ := ok_of_bind h
  obtain ⟨rfl, rfl⟩ := ok_of_pure h
  obtain ⟨used, htokens, hwritten⟩ := typeSpec_ok hc htype
  obtain ⟨word, hword, kind, -⟩ := identifier_ok hname
  refine ⟨used ++ [word], ?_, .intro hwritten kind⟩
  rw [htokens, hword, List.append_assoc]
  rfl

theorem parameter_reads {ts : List Token} {p : Parameter} (rest : List Token)
    (h : Grammar.Parameterized ts p) : Reads parameter (ts ++ rest) p rest := by
  obtain ⟨hwritten, kind⟩ := h
  rename_i us word type name site
  obtain ⟨t, vs, rfl, -, rfl⟩ := written_eq_cons hwritten
  refine (peek_reads t (vs ++ [word] ++ rest)).bind ?_
  have htype : Reads typeSpec (t :: vs ++ word :: rest) type (word :: rest) :=
    typeSpec_reads hwritten (by simp [kind])
  have split : t :: (vs ++ [word] ++ rest) = t :: vs ++ word :: rest := by simp
  rw [split]
  exact htype.bind ((identifier_reads kind rest).bind (.pure _ _))

/-! ## Lists -/

/-- **Soundness of a parser.**  The tokens that it takes off a list of no more than
`n` regular tokens are a phrase for its result. -/
def Sound (p : Parser α) (Phrase : List Token → α → Prop) (n : Nat) : Prop :=
  ∀ ⦃c c' : Cursor⦄ ⦃a : α⦄, (∀ t ∈ c.tokens, t.Regular) → c.tokens.length ≤ n →
    p c = .ok a c' → ∃ used, c.tokens = used ++ c'.tokens ∧ Phrase used a

/-- **Soundness on some tokens.**  The same for lists of tokens with the property `Good`. -/
def SoundOn (Good : Token → Prop) (p : Parser α) (Phrase : List Token → α → Prop) (n : Nat) :
    Prop :=
  ∀ ⦃c c' : Cursor⦄ ⦃a : α⦄, (∀ t ∈ c.tokens, Good t) → c.tokens.length ≤ n →
    p c = .ok a c' → ∃ used, c.tokens = used ++ c'.tokens ∧ Phrase used a

theorem SoundOn.mono {Good : Token → Prop} {p : Parser α} {Phrase Phrase' : List Token → α → Prop}
    {n : Nat} (h : SoundOn Good p Phrase n) (weaker : ∀ ts a, Phrase ts a → Phrase' ts a) :
    SoundOn Good p Phrase' n := by
  intro c c' a good within ran
  obtain ⟨used, taken, phrase⟩ := h good within ran
  exact ⟨used, taken, weaker _ _ phrase⟩

/-- **Completeness of a parser.**  It reads every phrase in front of a rest that may
follow, if there are no more than `n` tokens in all. -/
def Complete (p : Parser α) (Phrase : List Token → α → Prop) (Follow : List Token → Prop)
    (n : Nat) : Prop :=
  ∀ ⦃ts : List Token⦄ ⦃a : α⦄ ⦃rest : List Token⦄, (∀ t ∈ ts, t.Regular) →
    Phrase ts a → Follow rest → (ts ++ rest).length ≤ n → Reads p (ts ++ rest) a rest

/-- A token list has a first token, and its kind has the property `P`. -/
def Ahead (P : TokenKind → Prop) (ts : List Token) : Prop :=
  ∃ t us, ts = t :: us ∧ P t.kind

theorem Ahead.cons {P : TokenKind → Prop} {t : Token} (ts : List Token) (h : P t.kind) :
    Ahead P (t :: ts) :=
  ⟨t, ts, rfl, h⟩

theorem Ahead.append {P : TokenKind → Prop} {ts : List Token} (h : Ahead P ts)
    (us : List Token) : Ahead P (ts ++ us) := by
  obtain ⟨t, vs, rfl, kind⟩ := h
  exact ⟨t, vs ++ us, rfl, kind⟩

variable {item : Parser α} {Phrase : List Token → α → Prop} {closing : Mark}

theorem items_ok {Good : Token → Prop} {n bound : Nat} (sound : SoundOn Good item Phrase n)
    {c c' : Cursor} {xs : List α} (good : ∀ t ∈ c.tokens, Good t) (within : c.tokens.length ≤ n)
    (h : items item closing bound c = .ok xs c') :
    ∃ used close, c.tokens = used ++ close :: c'.tokens ∧
      Grammar.Separated Phrase used xs ∧ close.kind = .mark closing := by
  induction bound generalizing c xs with
  | zero => exact absurd h not_ok_of_throw
  | succ bound ih =>
    obtain ⟨x, c₁, hitem, h⟩ := ok_of_bind h
    obtain ⟨first, hfirst, phrase⟩ := sound good within hitem
    obtain ⟨t, c₂, hpeek, h⟩ := ok_of_bind h
    obtain ⟨rfl, ts, ht⟩ := peek_ok hpeek
    split at h
    · next comma =>
      obtain ⟨_, c₃, hadvance, h⟩ := ok_of_bind h
      obtain ⟨ys, c₄, hitems, h⟩ := ok_of_bind h
      obtain ⟨rfl, rfl⟩ := ok_of_pure h
      have taken := advance_ok ht hadvance
      have good' : ∀ u ∈ c₃.tokens, Good u := fun u mem =>
        good u (by rw [hfirst, taken]; simp [mem])
      have within' : c₃.tokens.length ≤ n := by
        rw [hfirst, taken, List.length_append, List.length_cons] at within
        omega
      obtain ⟨used, close, hused, separated, closes⟩ := ih good' within' hitems
      refine ⟨first ++ t :: used, close, ?_, .more phrase comma separated, closes⟩
      rw [hfirst, taken, hused, List.append_assoc, List.cons_append]
    · split at h
      · next closes =>
        obtain ⟨_, c₃, hadvance, h⟩ := ok_of_bind h
        obtain ⟨rfl, rfl⟩ := ok_of_pure h
        exact ⟨first, t, by rw [hfirst, advance_ok ht hadvance], .one phrase, closes⟩
      · exact absurd h not_ok_of_throw

/-- **Lists, from a success to a phrase.** -/
theorem separated_ok {Good : Token → Prop} {n bound : Nat} (sound : SoundOn Good item Phrase n)
    {c c' : Cursor} {xs : List α} (good : ∀ t ∈ c.tokens, Good t) (within : c.tokens.length ≤ n)
    (h : separated item closing bound c = .ok xs c') :
    ∃ used close, c.tokens = used ++ close :: c'.tokens ∧
      Grammar.Listed Phrase used xs ∧ close.kind = .mark closing := by
  obtain ⟨t, c₁, hpeek, h⟩ := ok_of_bind h
  obtain ⟨rfl, ts, ht⟩ := peek_ok hpeek
  split at h
  · next closes =>
    obtain ⟨_, c₂, hadvance, h⟩ := ok_of_bind h
    obtain ⟨rfl, rfl⟩ := ok_of_pure h
    exact ⟨[], t, advance_ok ht hadvance, .none, closes⟩
  · obtain ⟨used, close, hused, phrases, closes⟩ := items_ok sound good within h
    exact ⟨used, close, hused, .some phrases, closes⟩

/-- The induction follows the phrases, and every phrase but the last one stands
in front of a comma. -/
theorem items_reads {Follow : TokenKind → Prop} {n : Nat}
    (complete : Complete item Phrase (Ahead Follow) n) (comma : Follow (.mark .comma))
    (closes : Follow (.mark closing)) (distinct : closing ≠ .comma) {ts rest : List Token}
    {xs : List α} {close : Token} (h : Grammar.Separated Phrase ts xs)
    (hclose : close.kind = .mark closing) (regular : ∀ t ∈ ts, t.Regular) {bound : Nat}
    (enough : (ts ++ close :: rest).length ≤ bound) (within : (ts ++ close :: rest).length ≤ n) :
    Reads (items item closing bound) (ts ++ close :: rest) xs rest := by
  induction h generalizing bound with
  | @one ts x phrase =>
    obtain ⟨m, rfl⟩ : ∃ m, bound = m + 1 := ⟨bound - 1, by simp at enough; omega⟩
    have head := complete regular phrase (.cons rest (by rw [hclose]; exact closes)) within
    refine head.bind ((peek_reads close rest).bind ?_)
    rw [if_neg (by simp [hclose, distinct]), if_pos hclose]
    exact (advance_reads close rest).bind (.pure _ _)
  | @more ts us c x xs phrase hcomma others ih =>
    simp only [List.append_assoc, List.cons_append, List.length_append, List.length_cons]
      at enough within ⊢
    obtain ⟨m, rfl⟩ : ∃ m, bound = m + 1 := ⟨bound - 1, by omega⟩
    have head : Reads item (ts ++ c :: (us ++ close :: rest)) x (c :: (us ++ close :: rest)) := by
      refine complete (fun t mem => regular t (by simp [mem])) phrase
        (.cons _ (by rw [hcomma]; exact comma)) ?_
      simp only [List.length_append, List.length_cons]
      omega
    have tail : Reads (items item closing m) (us ++ close :: rest) xs rest := by
      refine ih (fun t mem => regular t (by simp [mem])) ?_ ?_
      all_goals
        simp only [List.length_append, List.length_cons]
        omega
    refine head.bind ((peek_reads c _).bind ?_)
    rw [if_pos hcomma]
    exact (advance_reads c _).bind (tail.bind (.pure _ _))

/-- **Lists, from a phrase to a success.**  A phrase must not start with the
closing bracket, or the list would seem to be empty. -/
theorem separated_reads {Follow : TokenKind → Prop} {n : Nat}
    (complete : Complete item Phrase (Ahead Follow) n) (comma : Follow (.mark .comma))
    (closes : Follow (.mark closing)) (distinct : closing ≠ .comma)
    (start : ∀ ⦃ts x⦄, Phrase ts x → Ahead (· ≠ .mark closing) ts)
    {ts rest : List Token} {xs : List α} {close : Token} (h : Grammar.Listed Phrase ts xs)
    (hclose : close.kind = .mark closing) (regular : ∀ t ∈ ts, t.Regular) {bound : Nat}
    (enough : (ts ++ close :: rest).length ≤ bound) (within : (ts ++ close :: rest).length ≤ n) :
    Reads (separated item closing bound) (ts ++ close :: rest) xs rest := by
  cases h with
  | none =>
    refine (peek_reads close rest).bind ?_
    rw [if_pos hclose]
    exact (advance_reads close rest).bind (.pure _ _)
  | some phrases =>
    have opens : Ahead (· ≠ .mark closing) ts := by
      cases phrases with
      | one phrase => exact start phrase
      | more phrase _ _ => exact (start phrase).append _
    obtain ⟨t, us, rfl, ne⟩ := opens
    refine (peek_reads t (us ++ close :: rest)).bind ?_
    rw [if_neg ne]
    exact items_reads complete comma closes distinct phrases hclose regular enough within

end Parser

end Scriptlet
