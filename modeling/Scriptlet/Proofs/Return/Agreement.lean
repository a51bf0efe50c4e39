import Scriptlet.Proofs.Return.Executed

/-!
# The explicit mode is structured return

Under `BlockResults.explicitReturn` the evaluator does what the structured one does,
and a block has a value exactly if a `return` inside of it was executed.

## Main statements

* `Structured.expr_eq`, `Structured.value_stmt` — expressions and statements agree
* `Eval.block_eq_structured` — blocks agree, and what their value says

## Design decisions

* Agreement is an equation between evaluations, so it is about results, errors and
  the whole machine at once, whatever machine they start with.
* A call statement may have a value under the evaluator, but that does not count.
  So for statements the equation is about the value that the block around looks at
  (`Stmt.carried`).
-/

namespace Scriptlet

/-- The value of a statement, if a `return` is where it comes from. -/
def Stmt.carried (s : Stmt) (r : Option Value) : Option Value :=
  if s.carriesReturn then r else none

namespace Structured

open Eval

variable {σ α : Type}

/-- The value that a `return` gave. -/
def Ending.value? (e : Ending) : Option Value := e.outcome.value?

/-! ## Constructs -/

/-- Frames do not look at results. -/
theorem map_inFrame {β : Type} (f : α → β) (skipped : Nat) (frame : Frame) (x : Eval σ α) :
    f <$> inFrame skipped frame x = inFrame skipped frame (f <$> x) := by
  -- The frame is closed after an error as well, so both results have to be looked at.
  funext m
  show EStateM.map f (inFrame skipped frame x) m = inFrame skipped frame (EStateM.map f x) m
  unfold EStateM.map inFrame
  dsimp only
  cases x ⟨frame :: m.scope.drop skipped, m.world⟩ with
  | ok a m' => rfl
  | error e m' => rfl

theorem map_inChild {β : Type} (f : α → β) (frame : Frame) (x : Eval σ α) :
    f <$> inChild frame x = inChild frame (f <$> x) := by
  simp only [inChild, map_bind, map_inFrame]

/-- What stands behind an execution runs if that has given no value. -/
theorem value_followedBy (first rest : Eval σ Ending) :
    Ending.value? <$> followedBy first rest = (do
      match ← Ending.value? <$> first with
      | some v => return some v
      | none => Ending.value? <$> rest) := by
  simp only [followedBy, map_bind, bind_map_left]
  refine bind_congr fun before => ?_
  obtain ⟨outcome, returns⟩ := before
  cases outcome with
  | returned v => rfl
  | normal =>
    show Ending.value? <$> (do let after ← rest; pure _) = Ending.value? <$> rest
    rw [map_bind, ← bind_pure_comp]
    rfl

theorem value_followedBy_of {first rest : Eval σ Ending} {first' rest' : Eval σ (Option Value)}
    (h : Ending.value? <$> first = first') (ih : Ending.value? <$> rest = rest') :
    Ending.value? <$> followedBy first rest = (do
      match ← first' with
      | some v => return some v
      | none => rest') := by
  rw [value_followedBy, h, ih]

section Constructs

variable {eval : Expr → Eval σ (Option Value)} {run : Block → Eval σ Ending}
  {run' : Block → Eval σ (Option Value)} {unknown : UnknownFunctions}

theorem value_statements {exec : Stmt → Eval σ Ending} {exec' : Stmt → Eval σ (Option Value)}
    (h : ∀ s, Ending.value? <$> exec s = s.carried <$> exec' s) (ss : List Stmt) :
    Ending.value? <$> Structured.statements exec ss =
      Eval.statements ⟨.explicitReturn, unknown⟩ exec' ss := by
  induction ss with
  | nil => rfl
  | cons s ss ih =>
    have ends : Config.endsBlock ⟨.explicitReturn, unknown⟩ s = s.carriesReturn := rfl
    rw [Structured.statements, value_followedBy, h, ih, bind_map_left, Eval.statements]
    refine bind_congr fun r => ?_
    -- The evaluator stops behind `some v` if the statement carries a return; the other
    -- one sees `none` of a statement that does not.
    cases r with
    | none => simp [Stmt.carried]
    | some v =>
      rw [ends]
      cases carries : s.carriesReturn with
      | true => simp [Stmt.carried, carries]
      | false => simp [Stmt.carried, carries]

mutual

theorem value_branch (h : ∀ b, Ending.value? <$> run b = run' b) :
    ∀ chain, Ending.value? <$> Structured.branch eval run chain = Eval.branch eval run' chain
  | ⟨condition, body, next, _⟩ => by
    rw [Structured.branch, Eval.branch, map_bind]
    refine bind_congr fun holds => ?_
    cases holds with
    | true =>
      show Ending.value? <$> inChild .empty (run body) = inChild .empty (run' body)
      rw [map_inChild, h]
    | false => exact value_otherwise h next

theorem value_otherwise (h : ∀ b, Ending.value? <$> run b = run' b) :
    ∀ next, Ending.value? <$> Structured.otherwise eval run next = Eval.otherwise eval run' next
  | .done => rfl
  | .elif link => by
    rw [Structured.otherwise, Eval.otherwise]
    exact value_branch h link
  | .last body _ => by
    rw [Structured.otherwise, Eval.otherwise, map_inChild, h]

end

theorem value_repeatWhile (condition : Eval σ Bool) {body : Eval σ Ending}
    {body' : Eval σ (Option Value)} (h : Ending.value? <$> body = body') (fuel : Nat) :
    Ending.value? <$> Structured.repeatWhile condition body fuel =
      Eval.repeatWhile condition body' fuel := by
  induction fuel with
  | zero => rfl
  | succ fuel ih =>
    rw [Structured.repeatWhile, Eval.repeatWhile, map_bind]
    refine bind_congr fun holds => ?_
    cases holds with
    | false => rfl
    | true => exact value_followedBy_of h ih

theorem value_countFrom (stop step : Number) {body : Number → Eval σ Ending}
    {body' : Number → Eval σ (Option Value)} (h : ∀ x, Ending.value? <$> body x = body' x)
    (fuel : Nat) (counter : Number) :
    Ending.value? <$> Structured.countFrom stop step body fuel counter =
      Eval.countFrom stop step body' fuel counter := by
  induction fuel generalizing counter with
  | zero => rfl
  | succ fuel ih =>
    unfold Structured.countFrom Eval.countFrom
    split
    · exact value_followedBy_of (h counter) (ih _)
    · rfl

theorem value_count (h : ∀ b, Ending.value? <$> run b = run' b) (start stop step : Expr)
    (body : Block) (site : Site) (fuel : Nat) :
    Ending.value? <$> Structured.count eval run start stop step body site fuel =
      Eval.count eval run' start stop step body site fuel := by
  have iteration : ∀ x, Ending.value? <$> inChild (counterFrame x) (run body) =
      inChild (counterFrame x) (run' body) := by
    intro x
    rw [map_inChild, h]
  simp only [Structured.count, Eval.count, map_bind, value_countFrom _ _ iteration]

theorem callFunction_eq (h : ∀ b, Ending.value? <$> run b = run' b) (f : Function) (skipped : Nat)
    (args : List Expr) (site : Site) :
    Structured.callFunction eval run f skipped args site =
      Eval.callFunction eval run' f skipped args site := by
  -- Both sides become the same steps up to the body, whose ending is looked at last.
  simp only [Structured.callFunction, Eval.callFunction, ← h, ← map_inFrame, bind_map_left]
  refine bind_congr fun _ => bind_congr fun _ => bind_congr fun _ => bind_congr fun _ =>
    bind_congr fun frame => bind_congr fun ending => ?_
  obtain ⟨outcome, returns⟩ := ending
  cases outcome with
  | returned v => rfl
  | normal => rfl

theorem invoke_eq (host : Host σ) (h : ∀ b, Ending.value? <$> run b = run' b) (name : String)
    (args : List Expr) (site : Site) :
    Structured.invoke host unknown eval run name args site =
      Eval.invoke host ⟨.explicitReturn, unknown⟩ eval run' name args site := by
  unfold Structured.invoke Eval.invoke
  refine bind_congr fun scope => ?_
  cases scope.function? name with
  | some found =>
    show some <$> Structured.callFunction eval run _ _ args site = _
    rw [callFunction_eq h]
  | none => rfl

end Constructs

/-! ## The evaluator -/

section Evaluator

variable (host : Host σ) (unknown : UnknownFunctions)

mutual

/-- **Expressions agree.** -/
theorem expr_eq : ∀ fuel e, Structured.expr host unknown fuel e =
    Eval.expr host ⟨.explicitReturn, unknown⟩ fuel e
  | 0, _ => rfl
  | fuel + 1, e => by
    have eval : Structured.expr host unknown fuel =
        Eval.expr host ⟨.explicitReturn, unknown⟩ fuel := funext (expr_eq fuel)
    have run : ∀ b : Block,
        Ending.value? <$> Structured.statements (Structured.stmt host unknown fuel) b.statements =
          Eval.statements ⟨.explicitReturn, unknown⟩
            (Eval.stmt host ⟨.explicitReturn, unknown⟩ fuel) b.statements :=
      fun b => value_statements (value_stmt fuel) b.statements
    unfold Structured.expr Eval.expr
    rw [eval]
    refine bind_congr fun _ => ?_
    cases e with
    | call name args site => exact invoke_eq host run name args site
    | literal | var | unary | binary | array => rfl

/-- **Statements agree** in the value that a `return` gave. -/
theorem value_stmt : ∀ fuel s, Ending.value? <$> Structured.stmt host unknown fuel s =
    s.carried <$> Eval.stmt host ⟨.explicitReturn, unknown⟩ fuel s
  | 0, _ => rfl
  | fuel + 1, s => by
    have eval : Structured.expr host unknown fuel =
        Eval.expr host ⟨.explicitReturn, unknown⟩ fuel := funext (expr_eq fuel)
    have run : ∀ b : Block,
        Ending.value? <$> Structured.statements (Structured.stmt host unknown fuel) b.statements =
          Eval.statements ⟨.explicitReturn, unknown⟩
            (Eval.stmt host ⟨.explicitReturn, unknown⟩ fuel) b.statements :=
      fun b => value_statements (value_stmt fuel) b.statements
    have all : ∀ {t : Stmt}, t.carriesReturn = true → t.carried = id := by
      intro t carries
      funext r
      exact if_pos carries
    unfold Structured.stmt Eval.stmt
    rw [eval, map_bind, map_bind]
    refine bind_congr fun _ => ?_
    cases s with
    | declare | reassign | define =>
      rw [map_bind, map_bind]
      rfl
    -- A call statement: its value is dropped on both sides.
    | call name args site =>
      show Ending.value? <$> (do
        let _ ← Structured.invoke host unknown _ _ name args site
        pure Ending.normal) = _
      rw [invoke_eq host run, map_bind]
      rfl
    | block body =>
      rw [all rfl, id_map]
      show Ending.value? <$> inChild .empty _ = inChild .empty _
      rw [map_inChild, run]
    | branch chain =>
      rw [all rfl, id_map]
      exact value_branch run chain
    | loop condition body site =>
      rw [all rfl, id_map]
      exact value_repeatWhile _ (by rw [map_inChild, run]) fuel
    | count start stop step body site =>
      rw [all rfl, id_map]
      exact value_count run start stop step body site fuel
    | ret value site =>
      rw [all rfl, id_map]
      cases value with
      | none => rfl
      | some value =>
        show Ending.value? <$> (do let v ← demand _ value; pure _) = some <$> demand _ value
        rw [map_bind, ← bind_pure_comp]
        rfl
    | empty site => rfl

end

end Evaluator

end Structured

/-- **The explicit mode is structured return.**  Under `BlockResults.explicitReturn` a
block gives what the structured evaluator gives, from every machine and with every host:
the value of a return, or none after a normal outcome, or the same error, and the same
machine.  It has a value exactly if a `return` was executed, and then every `return` that
was executed stands inside the block and gave that value. -/
theorem Eval.block_eq_structured {σ : Type} (host : Host σ) (unknown : UnknownFunctions)
    (fuel : Nat) (b : Block) :
    Eval.block host ⟨.explicitReturn, unknown⟩ fuel b =
        Structured.Ending.value? <$> Structured.block host unknown fuel b ∧
      ∀ m e m', Structured.block host unknown fuel b m = .ok e m' →
        (∀ v, e.value? = some v ↔ ∃ s, (s, v) ∈ e.returns) ∧
          ∀ s v, (s, v) ∈ e.returns → s.isReturn = true ∧ b.Contains s := by
  constructor
  · exact (Structured.value_statements (Structured.value_stmt host unknown fuel) b.statements).symm
  · intro m e m' ran
    -- At most one return was executed, and that is the one whose value is given.
    cases Structured.block_reports host unknown fuel b m e m' ran with
    | normal =>
      simp [Structured.Ending.value?, Outcome.value?]
    | @returned s v holds =>
      constructor
      · intro w
        constructor
        · rintro ⟨⟩
          exact ⟨s, .head _⟩
        · rintro ⟨t, mem⟩
          cases List.mem_singleton.mp mem
          rfl
      · intro t w mem
        cases List.mem_singleton.mp mem
        exact holds

end Scriptlet
