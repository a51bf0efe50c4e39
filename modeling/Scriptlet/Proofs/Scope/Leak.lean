import Scriptlet.Proofs.Scope.Unchanged
import Scriptlet.Proofs.Survey.Erase

/-!
# No names leak out of a scope

What an evaluation leaves of the names that were bound before it.

## Main definitions

* `Stmt.binds` — what a statement binds in the innermost frame
* `Opening.Fresh` — a new frame holds only what belongs to its construct

## Main statements

* `Eval.framed_unchanged` — inside of a frame, the frames around it are unchanged
* `Eval.stmt_binds` — a statement binds its own name and no other
* `Survey.relates_fresh` — all frames that are opened are fresh
* `Eval.no_scope_leak` — expressions, statements and frames on any chain of frames

## Design decisions

* An expression leaves all frames unchanged.  A statement does so with all but the innermost
  one, and the end of a frame makes up for that.
* A statement that fails has bound nothing: a name is bound last.
-/

namespace Scriptlet

open Eval

/-! ## Statements -/

namespace Scope

theorem drop_declare (name : String) (v : Value) (s : Scope) :
    (s.declare name v).drop 1 = s.drop 1 := by
  cases s <;> rfl

theorem drop_define (g : Function) (s : Scope) : (s.define g).drop 1 = s.drop 1 := by
  cases s <;> rfl

end Scope

/-- **What a statement binds** in the innermost frame, whatever the value. -/
def Stmt.binds : Stmt → Scope → Scope
  | .declare _ name .. => Scope.declare name .void
  | .define g => Scope.define g
  | _ => id

theorem Scope.Unchanged.binds {s s' : Scope} (h : s.Unchanged s') (t : Stmt) :
    Unchanged (t.binds s) (t.binds s') := by
  cases t with
  | declare type name => exact h.declare name _ _
  | define g => exact h.define g
  | reassign | call | block | branch | loop | count | ret | empty => exact h

/-! ## Evaluations -/

namespace Eval

variable {σ α β : Type}

theorem stable_unchanged (host : Host σ) :
    Stable host fun m m' => m.scope.Unchanged m'.scope where
  refl m := .refl m.scope
  trans := .trans
  world m _ _ := .refl m.scope
  assign := Scope.unchanged_assign
  ask name args site := by
    rintro ⟨scope, world⟩
    unfold ask
    dsimp only
    cases host.call name args site world <;> exact .refl scope

/-- The same for the frames around the innermost one. -/
theorem stable_outer (host : Host σ) :
    Stable host fun m m' => Scope.Unchanged (m.scope.drop 1) (m'.scope.drop 1) where
  refl m := .refl (m.scope.drop 1)
  trans := .trans
  world m _ _ := .refl (m.scope.drop 1)
  assign assigned := (Scope.unchanged_assign assigned).drop 1
  ask name args site m := ((stable_unchanged host).ask name args site m).drop 1

/-- **A frame** keeps the frames around it unchanged, if what runs inside does so. -/
theorem inFrame_unchanged (skipped : Nat) (frame : Frame) {x : Eval σ α}
    (h : ∀ m : Machine σ, Scope.Unchanged (m.scope.drop 1) ((final (x m)).scope.drop 1))
    (m : Machine σ) : m.scope.Unchanged (final (inFrame skipped frame x m)).scope := by
  have body := h ⟨frame :: m.scope.drop skipped, m.world⟩
  unfold Eval.inFrame
  dsimp only
  cases ran : x ⟨frame :: m.scope.drop skipped, m.world⟩ with
  | ok a m' =>
    rw [ran] at body
    exact .take_append body
  | error e m' =>
    rw [ran] at body
    exact .take_append body

theorem framed_unchanged (host : Host σ) : Framed host host id
    (Leads fun m m' => m.scope.Unchanged m'.scope)
    (Leads fun m m' => Scope.Unchanged (m.scope.drop 1) (m'.scope.drop 1)) where
  outer := (stable_unchanged host).congruence host id
  inner := (stable_outer host).congruence host id
  weaken h m := (h m).drop 1
  inFrame skipped frame _ h := inFrame_unchanged skipped frame h
  declare name v m := by
    show Scope.Unchanged (m.scope.drop 1) ((m.scope.declare name v).drop 1)
    rw [Scope.drop_declare]
    exact .refl _
  define g m := by
    show Scope.Unchanged (m.scope.drop 1) ((m.scope.define g).drop 1)
    rw [Scope.drop_define]
    exact .refl _

/-- **Binding.**  A success leaves the scope as `g` does, and a failure leaves it unchanged. -/
def Binds (g : Scope → Scope) (x : Eval σ α) : Prop := ∀ m : Machine σ,
  match x m with
  | .ok _ m' => Scope.Unchanged (g m.scope) m'.scope
  | .error _ m' => m.scope.Unchanged m'.scope

/-- Binding comes behind what leaves the scope unchanged. -/
theorem Binds.bind {g : Scope → Scope} {x : Eval σ α} {k : α → Eval σ β}
    (congr : ∀ {s s' : Scope}, s.Unchanged s' → Scope.Unchanged (g s) (g s'))
    (first : ∀ m : Machine σ, m.scope.Unchanged (final (x m)).scope) (second : ∀ a, Binds g (k a)) :
    Binds g (x >>= k) := by
  intro m
  have before := first m
  show match EStateM.bind x k m with
    | .ok _ m' => Scope.Unchanged (g m.scope) m'.scope
    | .error _ m' => m.scope.Unchanged m'.scope
  unfold EStateM.bind
  cases ran : x m with
  | error e m' =>
    rw [ran] at before
    exact before
  | ok a m' =>
    rw [ran] at before
    have after := second a m'
    dsimp only
    cases ran' : k a m' with
    | ok b m'' =>
      rw [ran'] at after
      exact (congr before).trans after
    | error e m'' =>
      rw [ran'] at after
      exact before.trans after

/-- A result does not unbind anything. -/
theorem Binds.result {g : Scope → Scope} {x : Eval σ α} (h : Binds g x) (b : β) :
    Binds g (x >>= fun _ => pure b) := by
  intro m
  have first := h m
  show match EStateM.bind x (fun _ => pure b) m with
    | .ok _ m' => Scope.Unchanged (g m.scope) m'.scope
    | .error _ m' => m.scope.Unchanged m'.scope
  unfold EStateM.bind
  cases ran : x m with
  | ok a m' =>
    rw [ran] at first
    exact first
  | error e m' =>
    rw [ran] at first
    exact first

variable (host : Host σ) (config : Config) (fuel : Nat)

theorem expr_unchanged (e : Expr) (m : Machine σ) :
    m.scope.Unchanged (final (expr host config fuel e m)).scope :=
  (framed_unchanged host).expr config fuel e m

/-- **A statement binds its own name** in the innermost frame if it succeeds, and no other. -/
theorem stmt_binds (s : Stmt) : Binds s.binds (stmt host config fuel s) := by
  have c := (stable_unchanged host).congruence host id
  cases binding : s.binding with
  | false =>
    have nothing : s.binds = id := by
      cases s with
      | declare | define => cases binding
      | reassign | call | block | branch | loop | count | ret | empty => rfl
    intro m
    have unchanged := (framed_unchanged host).stmt_of_not_binding config fuel binding m
    rw [nothing]
    cases ran : stmt host config fuel s m with
    | ok a m' =>
      rw [ran] at unchanged
      exact unchanged
    | error e m' =>
      rw [ran] at unchanged
      exact unchanged
  | true =>
    cases fuel with
    | zero =>
      intro m
      unfold stmt
      exact .refl m.scope
    | succ fuel =>
      have congr : ∀ {t t' : Scope}, t.Unchanged t' → Scope.Unchanged (s.binds t) (s.binds t') :=
        fun h => h.binds s
      unfold stmt
      refine Binds.bind congr (c.note (.evaluating s.kind s.site)) fun _ => ?_
      cases s with
      | declare type name nameSite value site =>
        refine Binds.result ?_ none
        refine Binds.bind congr (expr_unchanged host config fuel value) fun r => ?_
        refine Binds.bind congr c.heap fun now => ?_
        refine Binds.bind congr (c.check site _) fun _ => ?_
        refine Binds.bind congr (c.modifyHeap _) fun _ => ?_
        intro m
        exact (Scope.Unchanged.refl m.scope).declare name _ _
      | define g =>
        refine Binds.result ?_ none
        intro m
        exact .refl (m.scope.define g)
      | reassign | call | block | branch | loop | count | ret | empty => cases binding

end Eval

/-! ## Openings of frames -/

/-- **Fresh opening.**  The frame holds only what its construct puts there. -/
def Opening.Fresh (o : Opening) : Prop :=
  ∃ frame, o.frame = some frame ∧ frame.HoldsOnly o.opener.names

namespace Survey

variable {σ : Type}

/-- All frames that were opened so far were fresh. -/
def Fresh (m : Machine (Survey σ)) : Prop := ∀ o ∈ m.world.host.openings, o.Fresh

theorem stable_fresh (host : Host σ) : Stable host.surveyed fun m m' => Fresh m → Fresh m' where
  refl _ := id
  trans first second := second ∘ first
  world _ _ _ := id
  assign _ := id
  ask name args site m fresh := by
    obtain ⟨heap, state, log, same⟩ := final_ask host name args site m
    rw [same]
    exact fresh

/-- **All frames that are opened are fresh**, on any machine. -/
theorem relates_fresh (host : Host σ) : Relates host (fun _ _ => True) (fun _ _ _ => True)
    fun _ => Leads fun m m' => Fresh m → Fresh m' where
  congruence _ := (stable_fresh host).congruence host id
  visit _ _ h := by
    rintro ⟨scope, heap, ⟨origins, visits, openings, state⟩, log⟩ fresh
    exact h _ fresh
  declare _ _ _ _ := id
  define _ := fun ⟨_, _, ⟨_, _, _, _⟩, _⟩ => id
  resolve {α cs name k k'} none found m := by
    show Fresh m → Fresh (final (k ((m.scope.function? name).map _) m))
    cases resolved : m.scope.function? name with
    | none => exact none m.scope resolved m
    | some result =>
      obtain ⟨skipped, g⟩ := result
      exact found m.scope skipped g _ resolved trivial trivial m
  inFrame {α cs skipped c opener frame x y} _ holds h := by
    intro m fresh
    have start : Fresh (entered skipped c opener frame m) := by
      intro o mem
      rcases List.mem_cons.mp mem with rfl | old
      · exact ⟨frame, rfl, holds⟩
      · exact fresh o old
    rw [final_inFrame_inside]
    exact h _ start
  step _ _ _ := trivial
  under _ _ := trivial

end Survey

/-! ## No leak -/

/-- **Nothing leaks out of a scope.**  On any chain of frames, with any host, any settings
and any fuel, an expression leaves the names of the variables and the functions of every
frame as they were, whether it succeeds or fails.  So does whatever runs in a frame of its
own, on all of the chain or on an outer part of it.  A statement that succeeds adds to the
innermost frame the name that it declares or the function that it defines, and nothing
else.  All frames that are opened on the way start with the variables of their construct
and nothing else; the survey that tells so changes nothing of the run. -/
theorem Eval.no_scope_leak {σ : Type} (host : Host σ) (config : Config) (fuel : Nat) (m : Machine σ)
    (origins : List Origin) (place : Place) :
    (∀ e, m.scope.Unchanged (final (expr host config fuel e m)).scope) ∧
    (∀ s, Binds s.binds (stmt host config fuel s)) ∧
    (∀ skipped frame b,
      m.scope.Unchanged (final (inFrame skipped frame (block host config fuel b) m)).scope) ∧
    (∀ e, let r := Survey.expr host config fuel place e (m.survey origins)
      Survey.unsurveyed r = expr host config fuel e m ∧
        ∀ o ∈ (final r).world.host.openings, o.Fresh) ∧
    (∀ s, let r := Survey.stmt host config fuel place s (m.survey origins)
      Survey.unsurveyed r = stmt host config fuel s m ∧
        ∀ o ∈ (final r).world.host.openings, o.Fresh) := by
  have fresh : Survey.Fresh (m.survey origins) := fun _ mem => absurd mem List.not_mem_nil
  have relates := Survey.relates_fresh host
  refine ⟨fun e => expr_unchanged host config fuel e m,
    stmt_binds host config fuel, ?_, ?_, ?_⟩
  · intro skipped frame b
    exact inFrame_unchanged skipped frame ((framed_unchanged host).block config fuel b) m
  · intro e
    exact ⟨Survey.unsurveyed_expr host config fuel place e _,
      relates.expr config fuel trivial (Node.standsIn_ret e) _ fresh⟩
  · intro s
    exact ⟨Survey.unsurveyed_stmt host config fuel place s _,
      relates.stmt config fuel trivial _ fresh⟩

end Scriptlet
