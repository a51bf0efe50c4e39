import Scriptlet.Proofs.Grammar.Grouping
import Scriptlet.Proofs.Grammar.Reading

/-!
# Precedence climbing

Climbing groups infix operators by their precedence and direction, whatever stands
between them.  Where all operators group to the left, these are the layers of the grammar.

## Main definitions

* `Parser.nextOperator?`, `Parser.Stops` — the infix operator at the front
* `Parser.Spine` — an expression as climbing builds it: operators folded one by
  one into an operand, each with its right-hand side

## Main statements

* `Parser.climb_cases` — what one round of climbing does
* `Parser.climb_ok` — from a run to a grouped tree
* `Grammar.GroupedOf.layer` — from a grouped tree to a derivation
* `Parser.exists_spine`, `Parser.climb_reads` — from a derivation to a run

## Design decisions

* From a run to a grouped tree, the invariant is that the operator in front of the
  cursor asks no more of its left operand than the tree built so far has to offer.
  Only then may that tree become a left operand.
* The other direction goes through `Spine`: a derivation has the last operator
  of its layer at the root, and climbing meets the first one first, so the
  induction on the derivation and the one on the run do not match directly.
-/

namespace Scriptlet

open Grammar

/-! ## Layers and precedence -/

namespace Grammar

/-- A layer holds the infix operators of one precedence, each with its sign. -/
theorem binaryOp?_of_mem_layer {p : Nat} {layer : List (Sign × BinaryOp)} {sign : Sign}
    {op : BinaryOp} (h : layers[p]? = some layer) (mem : (sign, op) ∈ layer) :
    sign.binaryOp? = some op ∧ op.precedence = p := by
  have table : ∀ entry ∈ layers.zipIdx, ∀ pair ∈ entry.1,
      pair.1.binaryOp? = some pair.2 ∧ pair.2.precedence = entry.2 := by decide
  exact table (layer, p) (List.mk_mem_zipIdx_iff_getElem?.mpr h) (sign, op) mem

/-- Every infix operator stands in the layer of its precedence. -/
theorem mem_layer_of_binaryOp? {sign : Sign} {op : BinaryOp} (h : sign.binaryOp? = some op) :
    ∃ layer, layers[op.precedence]? = some layer ∧ (sign, op) ∈ layer := by
  cases sign <;> cases h <;> exact ⟨_, rfl, by decide⟩

/-- A token that spells an infix operator holds a sign for it. -/
theorem operator_of_binaryOp? {kind : TokenKind} {op : BinaryOp} (h : kind.binaryOp? = some op) :
    ∃ sign, kind = .operator sign ∧ sign.binaryOp? = some op := by
  cases kind with
  | operator sign => exact ⟨sign, rfl, h⟩
  | _ => cases h

/-- No operator binds tighter than the last layer. -/
theorem precedence_lt (op : BinaryOp) : op.precedence < layers.length := by
  cases op <;> decide

/-- No operator asks more of its left operand than the last layer has to offer. -/
theorem Infix.leftLeast_le_length (o : Infix) : o.leftLeast ≤ layers.length :=
  Nat.le_trans o.leftLeast_le (precedence_lt o.op)

/-- The prefix operators and their signs. -/
theorem unaryOp?_eq_some_iff {kind : TokenKind} {op : UnaryOp} :
    kind.unaryOp? = some op ↔ ∃ sign, kind = .operator sign ∧ (sign, op) ∈ prefixes := by
  constructor
  · intro h
    cases kind with
    | operator sign => cases sign <;> cases h <;> exact ⟨_, rfl, by decide⟩
    | _ => cases h
  · rintro ⟨sign, rfl, mem⟩
    simp only [prefixes, List.mem_cons, Prod.mk.injEq, List.not_mem_nil, or_false] at mem
    rcases mem with ⟨rfl, rfl⟩ | ⟨rfl, rfl⟩ | ⟨rfl, rfl⟩ <;> rfl

/-- A phrase of a tight layer is one of every looser layer. -/
theorem Layer.loosen {Item : List Token → Expr → Prop} {p q : Nat} {ts : List Token} {e : Expr}
    (h : Layer Item q ts e) (le : p ≤ q) : Layer Item p ts e := by
  induction le with
  | refl => exact h
  | step _ ih => exact ih h.tighter

/-- **From a grouped tree to a derivation.**  Where all operators group to the left, the
level of the operator at the root is the layer. -/
theorem GroupedOf.layer {Item : List Token → Expr → Prop} {p : Nat} {ts : List Token} {e : Expr}
    (h : GroupedOf Item p ts e) (plain : ∀ o : Infix, o.token ∈ ts → o.toRight = false)
    (le : p ≤ layers.length) : Layer Item p ts e := by
  obtain @⟨t, grouped, binds, items⟩ := h
  induction grouped generalizing p with
  | @leaf ts e =>
    have item : Item ts e := items ts e (by simp)
    rw [OperatorTree.tokens_operand]
    exact (Layer.operand item).loosen le
  | @node left right o _ _ hleft hright ihl ihr =>
    rw [OperatorTree.tokens_operation] at plain ⊢
    have direction : o.toRight = false := plain o (by simp)
    rw [Infix.leftLeast, direction, if_neg Bool.false_ne_true] at hleft
    rw [Infix.rightLeast, direction, if_neg Bool.false_ne_true] at hright
    have below : o.precedence < layers.length := precedence_lt o.op
    have hl : Layer Item o.precedence left.tokens left.expr :=
      ihl (Nat.le_of_lt below) hleft
        (fun ts e mem => items ts e (by simp [mem]))
        fun a mem => plain a (by simp [mem])
    have hr : Layer Item (o.precedence + 1) right.tokens right.expr :=
      ihr below hright (fun ts e mem => items ts e (by simp [mem]))
        fun a mem => plain a (by simp [mem])
    obtain ⟨sign, kind, spells⟩ := operator_of_binaryOp? o.spells
    obtain ⟨layer, hlayer, mem⟩ := mem_layer_of_binaryOp? spells
    exact (Layer.operation hl kind hlayer mem hr).loosen binds

end Grammar

namespace Parser

/-! ## Climbing, from a run to a grouped tree -/

/-- The infix operator at the front of a token list, with its token. -/
def nextOperator? (ts : List Token) : Option (BinaryOp × Token) :=
  ts.head?.bind fun t => t.kind.binaryOp?.map (·, t)

/-- No operator of precedence `p` or more is at the front of the token list. -/
def Stops (p : Nat) (ts : List Token) : Prop :=
  ∀ op t, nextOperator? ts = some (op, t) → op.precedence < p

theorem nextOperator?_eq_some {ts : List Token} {op : BinaryOp} {t : Token}
    (h : nextOperator? ts = some (op, t)) :
    (∃ us, ts = t :: us) ∧ t.kind.binaryOp? = some op := by
  cases ts with
  | nil => simp [nextOperator?] at h
  | cons u us =>
    simp only [nextOperator?, List.head?_cons, Option.bind_some, Option.map_eq_some_iff,
      Prod.mk.injEq] at h
    obtain ⟨_, kind, rfl, rfl⟩ := h
    exact ⟨⟨us, rfl⟩, kind⟩

/-- An operator in front of which climbing stops is loose. -/
theorem Stops.lt {p : Nat} {ts : List Token} (h : Stops p ts) {o : Infix}
    (front : ts.head? = some o.token) : o.precedence < p :=
  h o.op o.token (by rw [nextOperator?, front, Option.bind_some, o.spells, Option.map_some])

theorem peekOperator?_ok {c c' : Cursor} {r : Option (BinaryOp × Token)}
    (h : peekOperator? c = .ok r c') : c = c' ∧ r = nextOperator? c.tokens := by
  simp only [peekOperator?, EStateM.Result.ok.injEq] at h
  exact ⟨h.2, h.1.symm⟩

theorem peekOperator?_reads (ts : List Token) : Reads peekOperator? ts (nextOperator? ts) ts :=
  fun log => ⟨log, rfl⟩

/-- **What one round of climbing does.**  It stops in front of an operator that
binds too loosely, or it takes an operator with its right-hand side and goes on.
The right-hand side goes further if and only if the next operator is on the same
level and marked as grouping to the right. -/
theorem climb_cases {operand : Parser Expr} {bound least : Nat} {left e : Expr} {c c' : Cursor}
    (h : climb operand (bound + 1) left least c = .ok e c') :
    (Stops least c.tokens ∧ e = left ∧ c' = c) ∨
    ∃ op t c₁ first c₂ tight c₃ right c₄ c₅,
      c.tokens = t :: c₁.tokens ∧ t.kind.binaryOp? = some op ∧ least ≤ op.precedence ∧
      operand c₁ = .ok first c₂ ∧
      climb operand bound first (op.precedence + 1) c₂ = .ok tight c₃ ∧
      ((∃ next token, nextOperator? c₃.tokens = some (next, token) ∧
          next.precedence = op.precedence ∧ token.flags.rightToLeft ∧
          climb operand bound tight op.precedence c₃ = .ok right c₄) ∨
        (∀ next token, nextOperator? c₃.tokens = some (next, token) →
            ¬ (next.precedence = op.precedence ∧ token.flags.rightToLeft)) ∧
          right = tight ∧ c₄ = c₃) ∧
      c₅.tokens = c₄.tokens ∧
      climb operand bound (.binary op left right t.site) least c₅ = .ok e c' := by
  obtain ⟨r, c₀, hpeek, h⟩ := ok_of_bind h
  obtain ⟨rfl, rfl⟩ := peekOperator?_ok hpeek
  cases hnext : nextOperator? c.tokens with
  | none =>
    rw [hnext] at h
    obtain ⟨rfl, rfl⟩ := ok_of_pure h
    exact .inl ⟨fun op t some => by simp [hnext] at some, rfl, rfl⟩
  | some pair =>
    obtain ⟨op, t⟩ := pair
    rw [hnext] at h
    by_cases loose : op.precedence < least
    · simp only [if_pos loose] at h
      obtain ⟨rfl, rfl⟩ := ok_of_pure h
      refine .inl ⟨fun op' t' some => ?_, rfl, rfl⟩
      rw [hnext] at some
      cases some
      exact loose
    · simp only [if_neg loose] at h
      obtain ⟨⟨us, htokens⟩, kind⟩ := nextOperator?_eq_some hnext
      obtain ⟨_, c₁, hadvance, h⟩ := ok_of_bind h
      obtain ⟨first, c₂, hfirst, h⟩ := ok_of_bind h
      obtain ⟨tight, c₃, htight, h⟩ := ok_of_bind h
      obtain ⟨r, c₀, hpeek', h⟩ := ok_of_bind h
      obtain ⟨rfl, rfl⟩ := peekOperator?_ok hpeek'
      have taken := advance_ok htokens hadvance
      -- What follows the choice of the right-hand side is the same in every case.
      have finish : ∀ {right : Expr} {c₄ : Cursor},
          (do
            note (.folding op t.site)
            climb operand bound (.binary op left right t.site) least : Parser Expr) c₄ =
              .ok e c' →
          ∃ c₅, c₅.tokens = c₄.tokens ∧
            climb operand bound (.binary op left right t.site) least c₅ = .ok e c' := by
        intro right c₄ h
        obtain ⟨_, c₅, hnote, h⟩ := ok_of_bind h
        exact ⟨c₅, note_ok hnote, h⟩
      refine .inr ⟨op, t, c₁, first, c₂, tight, c₃, ?_⟩
      cases hnext' : nextOperator? c₃.tokens with
      | none =>
        rw [hnext'] at h
        obtain ⟨c₅, same, h⟩ := finish h
        exact ⟨tight, c₃, c₅, taken, kind, Nat.le_of_not_lt loose, hfirst, htight,
          .inr ⟨fun _ _ some => absurd some (by simp), rfl, rfl⟩, same, h⟩
      | some pair' =>
        obtain ⟨next, token⟩ := pair'
        rw [hnext'] at h
        by_cases goesOn : next.precedence = op.precedence ∧ token.flags.rightToLeft
        · simp only [if_pos goesOn] at h
          obtain ⟨right, c₄, hright, h⟩ := ok_of_bind h
          obtain ⟨c₅, same, h⟩ := finish h
          exact ⟨right, c₄, c₅, taken, kind, Nat.le_of_not_lt loose, hfirst, htight,
            .inl ⟨next, token, rfl, goesOn.1, goesOn.2, hright⟩, same, h⟩
        · simp only [if_neg goesOn] at h
          obtain ⟨c₅, same, h⟩ := finish h
          refine ⟨tight, c₃, c₅, taken, kind, Nat.le_of_not_lt loose, hfirst, htight,
            .inr ⟨fun next' token' some => ?_, rfl, rfl⟩, same, h⟩
          cases some
          exact goesOn

/-- A regular token of an infix operator does not group to the right. -/
theorem rightToLeft_eq_false {t : Token} {op : BinaryOp} (regular : t.Regular)
    (h : t.kind.binaryOp? = some op) : t.flags.rightToLeft = false := by
  rw [regular]
  cases kind : t.kind with
  | operator sign =>
    rw [kind] at h
    cases sign with
    | not => cases h
    | _ => rfl
  | _ =>
    rw [kind] at h
    cases h

/-- **Climbing, from a run to a grouped tree.**  The tree built so far binds `m`, and the
operator in front of the cursor asks no more of its left operand. -/
theorem climb_ok {operand : Parser Expr} {Item : List Token → Expr → Prop} {Good : Token → Prop}
    {n bound : Nat} (sound : SoundOn Good operand Item n) (direction : Nat → Bool)
    (levels : ∀ o : Infix, Good o.token → o.toRight = direction o.precedence) {m least : Nat}
    {ls : List Token} {left e : Expr} {c c' : Cursor} (hleft : GroupedOf Item m ls left)
    (le : least ≤ m) (ahead : ∀ o : Infix, c.tokens.head? = some o.token → o.leftLeast ≤ m)
    (good : ∀ t ∈ c.tokens, Good t) (enough : c.tokens.length ≤ bound)
    (within : c.tokens.length ≤ n) (h : climb operand bound left least c = .ok e c') :
    ∃ used, c.tokens = used ++ c'.tokens ∧ GroupedOf Item least (ls ++ used) e ∧
      Stops least c'.tokens := by
  induction bound generalizing m least ls left e c c' with
  | zero =>
    obtain ⟨rfl, rfl⟩ := ok_of_pure h
    have empty : c.tokens = [] := List.eq_nil_of_length_eq_zero (Nat.le_zero.mp enough)
    refine ⟨[], rfl, by simpa using hleft.loosen le, fun op t some => ?_⟩
    simp [empty, nextOperator?] at some
  | succ bound ih =>
    rcases climb_cases h with ⟨stops, rfl, rfl⟩ |
      ⟨op, t, c₁, first, c₂, tight, c₃, right, c₄, c₅, htokens, kind, tightEnough, hfirst,
        htight, hright, same, h⟩
    · exact ⟨[], rfl, by simpa using hleft.loosen le, stops⟩
    · let o : Infix := ⟨t, op, kind⟩
      have hl : GroupedOf Item o.leftLeast ls left := hleft.loosen (ahead o (by simp [htokens, o]))
      rw [htokens] at good enough within
      simp only [List.length_cons] at enough within
      -- The operand behind the operator, and what binds tighter behind that.
      obtain ⟨fs, hfs, item⟩ := sound (fun u mem => good u (.tail _ mem)) (by omega) hfirst
      have good₂ : ∀ u ∈ c₂.tokens, Good u := fun u mem => good u (by rw [hfs]; simp [mem])
      have shorter₂ : c₂.tokens.length ≤ c₁.tokens.length := by simp [hfs]
      obtain ⟨us, hus, htree, stops⟩ :=
        ih (.item layers.length item) (precedence_lt op) (fun o' _ => o'.leftLeast_le_length)
          good₂ (by omega) (by omega) htight
      have good₃ : ∀ u ∈ c₃.tokens, Good u := fun u mem => good₂ u (by rw [hus]; simp [mem])
      have shorter₃ : c₃.tokens.length ≤ c₂.tokens.length := by simp [hus]
      -- Operators of the same level are part of the right-hand side if they group to the right.
      obtain ⟨vs, hvs, hr, follow⟩ : ∃ vs, c₃.tokens = vs ++ c₄.tokens ∧
          GroupedOf Item o.rightLeast (fs ++ us ++ vs) right ∧
          ∀ o' : Infix, c₄.tokens.head? = some o'.token → o'.leftLeast ≤ o.precedence := by
        rcases hright with ⟨next, token, hnext, level, flagged, hright⟩ | ⟨plain, rfl, rfl⟩
        · obtain ⟨⟨ws, hws⟩, spells⟩ := nextOperator?_eq_some hnext
          have toRight : o.toRight = true := by
            rw [levels o (good t (.head _)), show o.precedence = next.precedence from level.symm]
            have same := levels ⟨token, next, spells⟩ (good₃ token (by simp [hws]))
            exact same.symm.trans flagged
          have ahead₃ : ∀ o' : Infix, c₃.tokens.head? = some o'.token →
              o'.leftLeast ≤ op.precedence + 1 :=
            fun o' front => Nat.le_trans o'.leftLeast_le (stops.lt front)
          obtain ⟨vs, hvs, hr, stops₄⟩ :=
            ih htree (Nat.le_succ _) ahead₃ good₃ (by omega) (by omega) hright
          rw [Infix.rightLeast, toRight, if_pos rfl]
          exact ⟨vs, hvs, hr, fun o' front => Nat.le_trans o'.leftLeast_le (stops₄.lt front)⟩
        · refine ⟨[], rfl, by simpa using htree.loosen o.rightLeast_le, fun o' front => ?_⟩
          have below : o'.precedence ≤ o.precedence := Nat.le_of_lt_succ (stops.lt front)
          by_cases level : o'.precedence = o.precedence
          · have toLeft : ¬ o'.toRight := fun flagged =>
              plain o'.op o'.token (by
                rw [nextOperator?, front, Option.bind_some, o'.spells, Option.map_some])
                ⟨level, flagged⟩
            rwa [Infix.leftLeast, if_neg toLeft]
          · exact Nat.le_trans o'.leftLeast_le (Nat.lt_of_le_of_ne below level)
      have shorter₄ : c₄.tokens.length ≤ c₃.tokens.length := by simp [hvs]
      rw [← same] at hvs follow shorter₄
      obtain ⟨ws, hws, hresult, finished⟩ :=
        ih (hl.operation hr) tightEnough follow
          (fun u mem => good₃ u (by rw [hvs]; simp [mem])) (by omega) (by omega) h
      refine ⟨t :: (fs ++ us ++ vs ++ ws), ?_, ?_, finished⟩
      · rw [htokens, hfs, hus, hvs, hws]
        simp
      · simpa [o] using hresult

/-! ## Climbing, from a derivation to a run -/

theorem Stops.loosen {p q : Nat} {ts : List Token} (h : Stops p ts) (le : p ≤ q) : Stops q ts :=
  fun op t some => Nat.lt_of_lt_of_le (h op t some) le

theorem Stops.append {p : Nat} {ts us : List Token} (hts : Stops p ts) (hus : Stops p us) :
    Stops p (ts ++ us) := by
  cases ts with
  | nil => exact hus
  | cons t ts => exact hts

/-- **Spine.**  An expression as climbing builds it from a first operand `left`:
the operators of precedence at least `p`, from left to right, each with the
expression on its right.  No operator behind such an expression binds tighter. -/
inductive Spine (Item : List Token → Expr → Prop) : Nat → Expr → List Token → Expr → Prop where
  /-- No operator. -/
  | done {p : Nat} {left : Expr} : Spine Item p left [] left
  /-- An operator with its right-hand side, and further operators. -/
  | fold {p : Nat} {left first right e : Expr} {t : Token} {op : BinaryOp}
      {fs rs us : List Token} :
      t.kind.binaryOp? = some op → p ≤ op.precedence → Item fs first →
      Spine Item (op.precedence + 1) first rs right → Stops (op.precedence + 1) us →
      Spine Item p (.binary op left right t.site) us e →
      Spine Item p left (t :: (fs ++ (rs ++ us))) e

namespace Spine

variable {Item : List Token → Expr → Prop}

theorem loosen {p q : Nat} {left e : Expr} {ts : List Token} (h : Spine Item q left ts e)
    (le : p ≤ q) : Spine Item p left ts e := by
  induction h generalizing p with
  | done => exact .done
  | fold kind tight item right stops _ _ ih =>
    exact .fold kind (Nat.le_trans le tight) item right stops (ih le)

/-- An operator of the loosest precedence can be put behind a spine. -/
theorem snoc {left e first right : Expr} {ts fs rs : List Token} {t : Token} {op : BinaryOp}
    (h : Spine Item op.precedence left ts e) (kind : t.kind.binaryOp? = some op)
    (item : Item fs first) (hright : Spine Item (op.precedence + 1) first rs right) :
    Spine Item op.precedence left (ts ++ t :: (fs ++ rs)) (.binary op e right t.site) := by
  generalize hp : op.precedence = p at h
  induction h with
  | @done p left =>
    subst hp
    have empty : Stops (op.precedence + 1) [] := fun _ _ some => by simp [nextOperator?] at some
    have folded : Spine Item op.precedence left (t :: (fs ++ (rs ++ [])))
        (.binary op left right t.site) := .fold kind (Nat.le_refl _) item hright empty .done
    simpa using folded
  | @fold p left first' right' e t' op' fs' rs' us kind' tight item' right'' stops _ _ ih =>
    subst hp
    -- The new operator is loose enough to stand behind every earlier one.
    have stops' : Stops (op'.precedence + 1) (us ++ t :: (fs ++ rs)) := by
      refine stops.append fun next token some => ?_
      simp only [nextOperator?, List.head?_cons, Option.bind_some, kind, Option.map_some,
        Option.some.injEq, Prod.mk.injEq] at some
      rw [← some.1]
      omega
    have folded := Spine.fold kind' tight item' right'' stops' (ih rfl)
    simpa using folded

end Spine

/-- **Derivations are spines.**  The induction is on the derivation, whose root is
the last operator of its layer; `Spine.snoc` puts that behind the others. -/
theorem exists_spine {Item : List Token → Expr → Prop} {p : Nat} {ts : List Token} {e : Expr}
    (h : Layer Item p ts e) :
    ∃ fs first rs, ts = fs ++ rs ∧ Item fs first ∧ Spine Item p first rs e := by
  induction h with
  | @operand ts e item => exact ⟨ts, e, [], by simp, item, .done⟩
  | tighter _ ih =>
    obtain ⟨fs, first, rs, rfl, item, spine⟩ := ih
    exact ⟨fs, first, rs, rfl, item, spine.loosen (Nat.le_succ _)⟩
  | @operation p ls rs t l r sign op layer _ kind hlayer mem _ ihl ihr =>
    obtain ⟨fs, first, us, rfl, item, spine⟩ := ihl
    obtain ⟨fs', first', us', rfl, item', spine'⟩ := ihr
    obtain ⟨spells, rfl⟩ := binaryOp?_of_mem_layer hlayer mem
    have hop : t.kind.binaryOp? = some op := by rw [kind]; exact spells
    exact ⟨fs, first, us ++ t :: (fs' ++ us'), by simp, item, spine.snoc hop item' spine'⟩

/-- What may follow an operand: anything but a bracket, which would turn a name
into a call. -/
def OperandEnd (ts : List Token) : Prop := Ahead (· ≠ .mark .leftParen) ts

theorem operandEnd_of_binaryOp? {t : Token} {op : BinaryOp} (ts : List Token)
    (h : t.kind.binaryOp? = some op) : OperandEnd (t :: ts) := by
  refine .cons ts fun kind => ?_
  rw [kind] at h
  cases h

/-- What comes behind an operand inside a spine may follow it. -/
theorem Spine.operandEnd_append {Item : List Token → Expr → Prop} {p : Nat} {left e : Expr}
    {ts rest : List Token} (h : Spine Item p left ts e) (follow : OperandEnd rest) :
    OperandEnd (ts ++ rest) := by
  cases h with
  | done => exact follow
  | fold kind => exact operandEnd_of_binaryOp? _ kind

theorem climb_reads_of_stops {operand : Parser Expr} {p : Nat} {ts : List Token}
    (stops : Stops p ts) (bound : Nat) (left : Expr) :
    Reads (climb operand bound left p) ts left ts := by
  cases bound with
  | zero => exact .pure left ts
  | succ bound =>
    refine (peekOperator?_reads ts).bind ?_
    cases next : nextOperator? ts with
    | none => exact .pure left ts
    | some pair =>
      obtain ⟨op, t⟩ := pair
      simp only [if_pos (stops op t next)]
      exact .pure left ts

/-- **Climbing, from a derivation to a run**, in front of a rest that neither goes
on with the expression nor turns its last name into a call. -/
theorem climb_reads {operand : Parser Expr} {Item : List Token → Expr → Prop} {n bound p : Nat}
    (complete : Complete operand Item OperandEnd n) {left e : Expr} {ts rest : List Token}
    (h : Spine Item p left ts e) (follow : OperandEnd rest) (stops : Stops p rest)
    (regular : ∀ t ∈ ts, t.Regular) (enough : (ts ++ rest).length ≤ bound)
    (within : (ts ++ rest).length ≤ n) :
    Reads (climb operand bound left p) (ts ++ rest) e rest := by
  induction h generalizing bound rest with
  | done => exact climb_reads_of_stops stops bound _
  | @fold p left first right e t op fs rs us kind tight item hright ahead hrest ihr ih =>
    simp only [List.cons_append, List.append_assoc, List.length_cons, List.length_append]
      at enough within ⊢
    obtain ⟨m, rfl⟩ : ∃ m, bound = m + 1 := ⟨bound - 1, by omega⟩
    have stops' : Stops (op.precedence + 1) (us ++ rest) :=
      ahead.append (stops.loosen (Nat.le_succ_of_le tight))
    have hoperand : Reads operand (fs ++ (rs ++ (us ++ rest))) first (rs ++ (us ++ rest)) := by
      refine complete (fun u mem => regular u (by simp [mem])) item
        (hright.operandEnd_append (hrest.operandEnd_append follow)) ?_
      simp only [List.length_append]
      omega
    have htight : Reads (climb operand m first (op.precedence + 1)) (rs ++ (us ++ rest)) right
        (us ++ rest) := by
      refine ihr (hrest.operandEnd_append follow) stops'
        (fun u mem => regular u (by simp [mem])) ?_ ?_
      all_goals
        simp only [List.length_append]
        omega
    have hfold : Reads (climb operand m (.binary op left right t.site) p) (us ++ rest) e rest := by
      refine ih follow stops (fun u mem => regular u (by simp [mem])) ?_ ?_
      all_goals
        simp only [List.length_append]
        omega
    have goesOn : Reads (do
        note (.folding op t.site)
        climb operand m (.binary op left right t.site) p) (us ++ rest) e rest :=
      (note_reads _ _).bind hfold
    refine (peekOperator?_reads _).bind ?_
    have front : nextOperator? (t :: (fs ++ (rs ++ (us ++ rest)))) = some (op, t) := by
      simp [nextOperator?, kind]
    simp only [front, if_neg (Nat.not_lt.mpr tight)]
    refine (advance_reads t _).bind (hoperand.bind (htight.bind ((peekOperator?_reads _).bind ?_)))
    cases next : nextOperator? (us ++ rest) with
    | none => exact goesOn
    | some pair =>
      obtain ⟨op', t'⟩ := pair
      -- An operator of this level can only be one of the spine, which is regular.
      have plain : ¬ (op'.precedence = op.precedence ∧ t'.flags.rightToLeft) := by
        rintro ⟨level, flagged⟩
        obtain ⟨⟨vs, hvs⟩, kind'⟩ := nextOperator?_eq_some next
        cases us with
        | nil => exact absurd (stops op' t' next) (by omega)
        | cons u us =>
          obtain ⟨rfl, -⟩ := List.cons.inj hvs
          rw [rightToLeft_eq_false (regular u (by simp)) kind'] at flagged
          cases flagged
      simp only [if_neg plain]
      exact goesOn

end Parser

end Scriptlet
