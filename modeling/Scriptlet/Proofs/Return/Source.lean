import Scriptlet.Proofs.Return.Agreement

/-!
# Where the value of a block comes from

An evaluator of statements whose values come with the statement that gave them: the `return` that
was executed, or a call that stands as a statement.  The value goes through blocks, branches and
loops together with its source.

## Main definitions

* `Sourced` — a value with its source
* `Sourced.stmt`, `Sourced.block` — the evaluator
* `Sourced.Gives` — what can be said of all values that an execution gives

## Main statements

* `Sourced.value_stmt`, `Sourced.value_block` — without the sources it is the evaluator
* `Sourced.stmt_gives` — sources stand inside of the statements that were executed
* `Sourced.statements_split` — the statement of a block that gave the value

## Design decisions

* Sources only pass through what can hold other statements.  All else, with the calls in it, is
  left to `Scriptlet.Eval.Run`.
* Both settings for the results of blocks are covered, so a value may also come from a call.
-/

namespace Scriptlet

/-- **Value with its source.** -/
structure Sourced where
  /-- The value. -/
  value : Value
  /-- The statement that gave it. -/
  source : Stmt

namespace Sourced

open Eval

variable {σ α : Type}

/-! ## The evaluator -/

/-- **Statements of a block.** -/
def statements (config : Config) (exec : Stmt → Eval σ (Option Sourced)) :
    List Stmt → Eval σ (Option Sourced)
  | [] => return none
  | s :: rest => do
    match ← exec s with
    | some r => if config.endsBlock s then return some r else statements config exec rest
    | none => statements config exec rest

mutual

/-- **If chain.** -/
def branch (eval : Expr → Eval σ (Option Value)) (run : Block → Eval σ (Option Sourced)) :
    Conditional → Eval σ (Option Sourced)
  | ⟨condition, body, next, _⟩ => do
    if ← demandBoolean eval condition then inChild .empty (run body)
    else otherwise eval run next

/-- What an if chain does after a condition that was false. -/
def otherwise (eval : Expr → Eval σ (Option Value)) (run : Block → Eval σ (Option Sourced)) :
    Otherwise → Eval σ (Option Sourced)
  | .done => return none
  | .elif link => branch eval run link
  | .last body _ => inChild .empty (run body)

end

/-- **While loop.** -/
def repeatWhile (condition : Eval σ Bool) (body : Eval σ (Option Sourced)) :
    Nat → Eval σ (Option Sourced)
  | 0 => outOfFuel
  | fuel + 1 => do
    if ← condition then
      match ← body with
      | some r => return some r
      | none => repeatWhile condition body fuel
    else return none

/-- **Counted loop** from a counter on. -/
def countFrom (stop step : Number) (body : Number → Eval σ (Option Sourced)) :
    Nat → Number → Eval σ (Option Sourced)
  | 0, _ => outOfFuel
  | fuel + 1, counter => do
    if counting stop step counter then
      match ← body counter with
      | some r => return some r
      | none => countFrom stop step body fuel (counter + step)
    else return none

/-- **Counted loop.** -/
def count (eval : Expr → Eval σ (Option Value)) (run : Block → Eval σ (Option Sourced))
    (start stop step : Expr) (body : Block) (site : Site) (fuel : Nat) :
    Eval σ (Option Sourced) := do
  let first ← demandNumber eval start
  let last ← demandNumber eval stop
  let increment ← demandNumber eval step
  check site (Operation.checkLoop first last increment)
  note (.loopConfigured first last increment)
  countFrom last increment (fun counter => inChild (counterFrame counter) (run body)) fuel first

/-- What a statement gives that is its own source. -/
def ofStatement (s : Stmt) (r : Option Value) : Option Sourced := r.map fun v => ⟨v, s⟩

variable (host : Host σ) (config : Config)

/-- **Execution of a statement.** -/
def stmt : Nat → Stmt → Eval σ (Option Sourced)
  | 0, _ => outOfFuel
  | fuel + 1, s =>
    let run (b : Block) : Eval σ (Option Sourced) := statements config (stmt fuel) b.statements
    match s with
    | .block body => do
      note (.evaluating s.kind s.site)
      inChild .empty (run body)
    | .branch chain => do
      note (.evaluating s.kind s.site)
      branch (expr host config fuel) run chain
    | .loop condition body _ => do
      note (.evaluating s.kind s.site)
      repeatWhile (demandBoolean (expr host config fuel) condition) (inChild .empty (run body)) fuel
    | .count start stop step body site => do
      note (.evaluating s.kind s.site)
      count (expr host config fuel) run start stop step body site fuel
    | .declare .. | .reassign .. | .define .. | .call .. | .ret .. | .empty .. =>
      ofStatement s <$> Eval.stmt host config (fuel + 1) s

/-- **Execution of a block** in the current frame. -/
def block (fuel : Nat) (b : Block) : Eval σ (Option Sourced) :=
  statements config (stmt host config fuel) b.statements

/-! ## Without the sources -/

/-- The value without its source. -/
def bare (r : Option Sourced) : Option Value := r.map value

@[simp] theorem bare_ofStatement (s : Stmt) (r : Option Value) : bare (ofStatement s r) = r := by
  cases r <;> rfl

section Constructs

variable {eval : Expr → Eval σ (Option Value)} {run : Block → Eval σ (Option Sourced)}
  {run' : Block → Eval σ (Option Value)} {config : Config}

theorem value_statements {exec : Stmt → Eval σ (Option Sourced)}
    {exec' : Stmt → Eval σ (Option Value)} (h : ∀ s, bare <$> exec s = exec' s) (ss : List Stmt) :
    bare <$> statements config exec ss = Eval.statements config exec' ss := by
  induction ss with
  | nil => rfl
  | cons s ss ih =>
    rw [statements, Eval.statements, map_bind, ← h, bind_map_left]
    apply bind_congr
    intro r
    cases r with
    | none => exact ih
    | some r =>
      dsimp only [bare, Option.map]
      split
      · rfl
      · exact ih

mutual

theorem value_branch (h : ∀ b, bare <$> run b = run' b) :
    ∀ chain, bare <$> branch eval run chain = Eval.branch eval run' chain
  | ⟨condition, body, next, _⟩ => by
    rw [branch, Eval.branch, map_bind]
    apply bind_congr
    intro holds
    cases holds with
    | true =>
      show bare <$> inChild .empty (run body) = inChild .empty (run' body)
      rw [Structured.map_inChild, h]
    | false => exact value_otherwise h next

theorem value_otherwise (h : ∀ b, bare <$> run b = run' b) :
    ∀ next, bare <$> otherwise eval run next = Eval.otherwise eval run' next
  | .done => rfl
  | .elif link => by
    rw [otherwise, Eval.otherwise]
    exact value_branch h link
  | .last body _ => by
    rw [otherwise, Eval.otherwise, Structured.map_inChild, h]

end

/-- One iteration of a loop and what follows it. -/
theorem value_iteration {body rest : Eval σ (Option Sourced)} {body' rest' : Eval σ (Option Value)}
    (h : bare <$> body = body') (ih : bare <$> rest = rest') :
    bare <$> (do
      match ← body with
      | some r => return some r
      | none => rest) = (do
      match ← body' with
      | some v => return some v
      | none => rest') := by
  rw [map_bind, ← h, bind_map_left]
  apply bind_congr
  intro r
  cases r with
  | none => exact ih
  | some r => rfl

theorem value_repeatWhile (condition : Eval σ Bool) {body : Eval σ (Option Sourced)}
    {body' : Eval σ (Option Value)} (h : bare <$> body = body') (fuel : Nat) :
    bare <$> repeatWhile condition body fuel = Eval.repeatWhile condition body' fuel := by
  induction fuel with
  | zero => rfl
  | succ fuel ih =>
    rw [repeatWhile, Eval.repeatWhile, map_bind]
    apply bind_congr
    intro holds
    cases holds with
    | false => rfl
    | true => exact value_iteration h ih

theorem value_countFrom (stop step : Number) {body : Number → Eval σ (Option Sourced)}
    {body' : Number → Eval σ (Option Value)} (h : ∀ x, bare <$> body x = body' x)
    (fuel : Nat) (counter : Number) :
    bare <$> countFrom stop step body fuel counter =
      Eval.countFrom stop step body' fuel counter := by
  induction fuel generalizing counter with
  | zero => rfl
  | succ fuel ih =>
    unfold countFrom Eval.countFrom
    split
    · exact value_iteration (h counter) (ih _)
    · rfl

theorem value_count (h : ∀ b, bare <$> run b = run' b) (start stop step : Expr) (body : Block)
    (site : Site) (fuel : Nat) : bare <$> count eval run start stop step body site fuel =
      Eval.count eval run' start stop step body site fuel := by
  have iteration : ∀ x, bare <$> inChild (counterFrame x) (run body) =
      inChild (counterFrame x) (run' body) := by
    intro x
    rw [Structured.map_inChild, h]
  simp only [count, Eval.count, map_bind, value_countFrom _ _ iteration]

end Constructs

/-- **Without the sources** a statement does what it does under the evaluator. -/
theorem value_stmt (fuel : Nat) (s : Stmt) :
    bare <$> stmt host config fuel s = Eval.stmt host config fuel s := by
  induction fuel generalizing s with
  | zero => rfl
  | succ fuel ih =>
    have run : ∀ b : Block, bare <$> statements config (stmt host config fuel) b.statements =
        Eval.statements config (Eval.stmt host config fuel) b.statements :=
      fun b => value_statements ih b.statements
    have own : bare <$> ofStatement s <$> Eval.stmt host config (fuel + 1) s =
        Eval.stmt host config (fuel + 1) s := by
      have forgotten : bare ∘ ofStatement s = id := funext (bare_ofStatement s)
      rw [← comp_map, forgotten, id_map]
    cases s with
    | declare | reassign | define | call | ret | empty => exact own
    | block body =>
      rw [stmt, Eval.stmt, map_bind]
      apply bind_congr
      intro _
      show bare <$> inChild .empty _ = inChild .empty _
      rw [Structured.map_inChild, run]
    | branch chain =>
      rw [stmt, Eval.stmt, map_bind]
      apply bind_congr
      intro _
      exact value_branch run chain
    | loop condition body site =>
      rw [stmt, Eval.stmt, map_bind]
      apply bind_congr
      intro _
      exact value_repeatWhile _ (by rw [Structured.map_inChild, run]) fuel
    | count start stop step body site =>
      rw [stmt, Eval.stmt, map_bind]
      apply bind_congr
      intro _
      exact value_count run start stop step body site fuel

/-- **Without the sources** a block does what it does under the evaluator. -/
theorem value_block (fuel : Nat) (b : Block) :
    bare <$> block host config fuel b = Eval.block host config fuel b :=
  value_statements (value_stmt host config fuel) b.statements

/-! ## Sources -/

/-- **All values that an execution gives** have the property `P`. -/
def Gives (P : Sourced → Prop) (x : Eval σ (Option Sourced)) : Prop :=
  ∀ m r m', x m = .ok (some r) m' → P r

namespace Gives

variable {P : Sourced → Prop}

theorem bind {x : Eval σ α} {f : α → Eval σ (Option Sourced)} (h : ∀ a, Gives P (f a)) :
    Gives P (x >>= f) := by
  intro m r m' ran
  obtain ⟨a, m₁, -, next⟩ := ok_of_bind ran
  exact h a m₁ r m' next

theorem pure_none : Gives P (pure none : Eval σ (Option Sourced)) := by
  intro m r m' ran
  cases ran

theorem outOfFuel : Gives P (Eval.outOfFuel : Eval σ (Option Sourced)) :=
  fun _ _ _ ran => absurd ran not_ok_of_throw

theorem mono {Q : Sourced → Prop} {x : Eval σ (Option Sourced)} (h : Gives P x)
    (weaker : ∀ r, P r → Q r) : Gives Q x :=
  fun m r m' ran => weaker r (h m r m' ran)

/-- One iteration of a loop and what follows it. -/
theorem iteration {body rest : Eval σ (Option Sourced)} (h : Gives P body) (ih : Gives P rest) :
    Gives P (do
      match ← body with
      | some r => return some r
      | none => rest) := by
  intro m r m' ran
  obtain ⟨first, m₁, hfirst, next⟩ := ok_of_bind ran
  cases first with
  | none => exact ih m₁ r m' next
  | some r₁ =>
    cases next
    exact h m r m' hfirst

theorem inChild {frame : Frame} {x : Eval σ (Option Sourced)} (h : Gives P x) :
    Gives P (inChild frame x) := by
  apply bind
  intro scope
  apply bind
  intro _ m r m' ran
  unfold inFrame at ran
  dsimp only at ran
  split at ran
  · next inner =>
    cases ran
    exact h _ _ _ inner
  · cases ran

theorem statements {exec : Stmt → Eval σ (Option Sourced)} {ss : List Stmt}
    (h : ∀ s ∈ ss, Gives P (exec s)) : Gives P (statements config exec ss) := by
  induction ss with
  | nil => exact pure_none
  | cons s ss ih =>
    have others := ih fun t mem => h t (.tail _ mem)
    intro m r m' ran
    obtain ⟨first, m₁, hfirst, next⟩ := ok_of_bind ran
    cases first with
    | none => exact others m₁ r m' next
    | some r₁ =>
      dsimp only at next
      split at next
      · cases next
        exact h s (.head _) m r m' hfirst
      · exact others m₁ r m' next

mutual

theorem branch {eval : Expr → Eval σ (Option Value)} {run : Block → Eval σ (Option Sourced)} :
    ∀ chain : Conditional, (∀ b ∈ chain.blocks, Gives P (run b)) →
      Gives P (branch eval run chain)
  | ⟨condition, body, next, _⟩, h => by
    rw [Sourced.branch]
    apply bind
    intro holds
    cases holds with
    | true => exact (h body (.head _)).inChild
    | false => exact otherwise next fun b mem => h b (.tail _ mem)

theorem otherwise {eval : Expr → Eval σ (Option Value)} {run : Block → Eval σ (Option Sourced)} :
    ∀ next : Otherwise, (∀ b ∈ next.blocks, Gives P (run b)) →
      Gives P (otherwise eval run next)
  | .done, _ => by
    rw [Sourced.otherwise]
    exact pure_none
  | .elif link, h => by
    rw [Sourced.otherwise]
    exact branch link h
  | .last body _, h => by
    rw [Sourced.otherwise]
    exact (h body (.head _)).inChild

end

theorem repeatWhile {condition : Eval σ Bool} {body : Eval σ (Option Sourced)} (h : Gives P body)
    (fuel : Nat) : Gives P (repeatWhile condition body fuel) := by
  induction fuel with
  | zero => exact outOfFuel
  | succ fuel ih =>
    rw [Sourced.repeatWhile]
    apply bind
    intro holds
    cases holds with
    | true => exact h.iteration ih
    | false => exact pure_none

theorem countFrom {stop step : Number} {body : Number → Eval σ (Option Sourced)}
    (h : ∀ x, Gives P (body x)) (fuel : Nat) (counter : Number) :
    Gives P (countFrom stop step body fuel counter) := by
  induction fuel generalizing counter with
  | zero => exact outOfFuel
  | succ fuel ih =>
    unfold Sourced.countFrom
    split
    · exact (h counter).iteration (ih _)
    · exact pure_none

theorem count {eval : Expr → Eval σ (Option Value)} {run : Block → Eval σ (Option Sourced)}
    {start stop step : Expr} {body : Block} {site : Site} {fuel : Nat} (h : Gives P (run body)) :
    Gives P (count eval run start stop step body site fuel) :=
  bind fun _ => bind fun _ => bind fun _ => bind fun _ => bind fun _ =>
    countFrom (fun _ => h.inChild) fuel _

/-- A statement that gives its own values is their source. -/
theorem own {s : Stmt} {x : Eval σ (Option Value)} :
    Gives (·.source = s) (ofStatement s <$> x) := by
  rw [← bind_pure_comp]
  apply bind
  rintro (_ | v) m r m' ran
  · cases ran
  · cases ran
    rfl

end Gives

/-- **Sources stand inside of what was executed.** -/
theorem stmt_gives (fuel : Nat) (t : Stmt) :
    Gives (·.source.Inside t) (stmt host config fuel t) := by
  induction fuel generalizing t with
  | zero => exact .outOfFuel
  | succ fuel ih =>
    -- What stands inside of a block of `t` stands inside of `t`.
    have inner : ∀ b ∈ t.blocks,
        Gives (·.source.Inside t) (statements config (stmt host config fuel) b.statements) := by
      intro b hb
      apply Gives.statements
      intro u hu
      exact (ih u).mono fun r inside => .within hb hu inside
    have own : Gives (·.source.Inside t)
        (ofStatement t <$> Eval.stmt host config (fuel + 1) t) := by
      refine Gives.own.mono ?_
      rintro r rfl
      exact .self
    unfold stmt
    cases t with
    | declare | reassign | define | call | ret | empty => exact own
    | block body => exact .bind fun _ => (inner body (.head _)).inChild
    | branch chain => exact .bind fun _ => .branch chain inner
    | loop condition body site =>
      exact .bind fun _ => .repeatWhile (inner body (.head _)).inChild fuel
    | count start stop step body site => exact .bind fun _ => .count (inner body (.head _))

/-! ## Returns -/

/-- **A `return` that is executed gives a value**, and is its source. -/
theorem stmt_of_isReturn {fuel : Nat} {s : Stmt} {m m' : Machine σ} {r : Option Sourced}
    (h : s.isReturn = true) (ran : stmt host config fuel s m = .ok r m') :
    ∃ v, r = some ⟨v, s⟩ := by
  cases fuel with
  | zero => exact absurd ran not_ok_of_throw
  | succ fuel =>
    cases s with
    | ret value site =>
      obtain ⟨r', plain, rfl⟩ := ok_of_map ran
      unfold Eval.stmt at plain
      obtain ⟨_, m₁, -, given⟩ := ok_of_bind plain
      cases value with
      | none =>
        cases given
        exact ⟨_, rfl⟩
      | some value =>
        obtain ⟨v, -, rfl⟩ := ok_of_map given
        exact ⟨v, rfl⟩
    | declare | reassign | define | call | block | branch | loop | count | empty => cases h

/-- A `return` ends the block that it stands in. -/
theorem endsBlock_of_isReturn {s : Stmt} (h : s.isReturn = true) : config.endsBlock s = true := by
  cases s with
  | ret value site => cases config with | mk results => cases results <;> rfl
  | declare | reassign | define | call | block | branch | loop | count | empty => cases h

/-- **Which statement of a block gave the value.**  No `return` stands in front of it. -/
theorem statements_split {fuel : Nat} {ss : List Stmt} {m m' : Machine σ} {r : Sourced}
    (ran : statements config (stmt host config fuel) ss m = .ok (some r) m') :
    ∃ before t after m₁, ss = before ++ t :: after ∧
      stmt host config fuel t m₁ = .ok (some r) m' ∧ ∀ s ∈ before, s.isReturn = false := by
  induction ss generalizing m with
  | nil => cases ran
  | cons s rest ih =>
    obtain ⟨first, m₁, hfirst, next⟩ := ok_of_bind ran
    -- If the statements behind `s` were executed, then `s` did not end the block.
    have further (passed : s.isReturn = false)
        (next : statements config (stmt host config fuel) rest m₁ = .ok (some r) m') :
        ∃ before t after m₁, s :: rest = before ++ t :: after ∧
          stmt host config fuel t m₁ = .ok (some r) m' ∧ ∀ s ∈ before, s.isReturn = false := by
      obtain ⟨before, t, after, m₂, rfl, gave, none⟩ := ih next
      exact ⟨s :: before, t, after, m₂, rfl, gave, List.forall_mem_cons.mpr ⟨passed, none⟩⟩
    cases first with
    | none =>
      refine further ?_ next
      rw [← Bool.not_eq_true]
      intro isReturn
      obtain ⟨v, gave⟩ := stmt_of_isReturn host config isReturn hfirst
      cases gave
    | some r₁ =>
      dsimp only at next
      split at next
      · cases next
        exact ⟨[], s, rest, m, rfl, hfirst, nofun⟩
      · next passes =>
        refine further ?_ next
        rw [← Bool.not_eq_true]
        intro isReturn
        exact passes (endsBlock_of_isReturn config isReturn)

end Sourced

end Scriptlet
