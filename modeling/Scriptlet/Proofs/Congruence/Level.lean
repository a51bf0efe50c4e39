import Scriptlet.Proofs.Congruence.Basic

/-!
# One level of an evaluation

The evaluator without its recursion: what it does at one node, given how the expressions, the
blocks and the calls in it are evaluated.  Evaluators that differ in how calls and blocks are
run share this, and so do statements about them.

## Main definitions

* `Eval.exprWith`, `Eval.stmtWith` — one level of expressions and statements
* `Stmt.binding` — a statement binds a name in the innermost frame

## Main statements

* `Eval.expr_succ`, `Eval.stmt_succ` — the evaluator, one level after the other
* `Eval.invoke_of_function?`, `Eval.invoke_of_no_function` — the two kinds of calls
* `Congruence.exprWith`, `Congruence.stmtWith` — relations that congruences keep

## Design decisions

* Blocks of a statement run in frames of their own.  What is assumed of them is the relation
  with the frame around each.
-/

namespace Scriptlet

/-- Whether a statement binds a name in the innermost frame. -/
def Stmt.binding : Stmt → Bool
  | .declare .. | .define .. => true
  | _ => false

variable {σ τ : Type}

namespace Eval

/-- **One level of an expression.** -/
def exprWith (eval : Expr → Eval σ (Option Value))
    (call : String → List Expr → Site → Eval σ (Option Value)) (e : Expr) :
    Eval σ (Option Value) := do
  note (.evaluating e.kind e.site)
  match e with
  | .literal value _ => return some (.ofLiteral value)
  | .var name site => some <$> lookup name site
  | .unary op operand site => some <$> applyUnary eval op operand site
  | .binary op left right site => some <$> applyBinary eval op left right site
  | .array elements _ => do
    let vs ← demandAll eval elements
    some <$> newArray vs
  | .call name args site => call name args site

/-- **One level of a statement.**  The fuel is for the loops. -/
def stmtWith (eval : Expr → Eval σ (Option Value)) (run : Block → Eval σ (Option Value))
    (call : String → List Expr → Site → Eval σ (Option Value)) (fuel : Nat) (s : Stmt) :
    Eval σ (Option Value) := do
  note (.evaluating s.kind s.site)
  match s with
  | .declare type name _ value site => do
    declare eval type name value site
    return none
  | .reassign name nameSite value site => do
    reassign eval name nameSite value site
    return none
  | .define f => do
    modifyScope (Scope.define f)
    return none
  | .call name args site => call name args site
  | .block body => inChild .empty (run body)
  | .branch chain => branch eval run chain
  | .loop condition body _ =>
    repeatWhile (demandBoolean eval condition) (inChild .empty (run body)) fuel
  | .count start stop step body site => count eval run start stop step body site fuel
  | .ret (some value) _ => some <$> demand eval value
  | .ret none _ => return some .void
  | .empty _ => return none

/-- A call of a function that is found. -/
theorem invoke_of_function? {host : Host σ} {config : Config}
    {eval : Expr → Eval σ (Option Value)} {run : Block → Eval σ (Option Value)} {name : String}
    {args : List Expr} {site : Site} {m : Machine σ} {skipped : Nat} {f : Function}
    (found : m.scope.function? name = some (skipped, f)) :
    invoke host config eval run name args site m =
      (some <$> callFunction eval run f skipped args site) m := by
  unfold invoke
  show EStateM.bind scope _ m = _
  unfold EStateM.bind scope
  dsimp only
  rw [found]

/-- A call of a function that is not found. -/
theorem invoke_of_no_function {host : Host σ} {config : Config}
    {eval : Expr → Eval σ (Option Value)} {run : Block → Eval σ (Option Value)} {name : String}
    {args : List Expr} {site : Site} {m : Machine σ} (absent : m.scope.function? name = none) :
    invoke host config eval run name args site m =
      callHost host config eval name args site m := by
  unfold invoke
  show EStateM.bind scope _ m = _
  unfold EStateM.bind scope
  dsimp only
  rw [absent]

section Levels

variable (host : Host σ) (config : Config) (fuel : Nat)

theorem expr_succ (e : Expr) : expr host config (fuel + 1) e =
    exprWith (expr host config fuel)
      (invoke host config (expr host config fuel) (block host config fuel)) e := by
  unfold expr exprWith
  rfl

theorem stmt_succ (s : Stmt) : stmt host config (fuel + 1) s =
    stmtWith (expr host config fuel) (block host config fuel)
      (invoke host config (expr host config fuel) (block host config fuel)) fuel s := by
  unfold stmt stmtWith
  rfl

end Levels

end Eval

open Eval

namespace Congruence

variable {host : Host σ} {host' : Host τ} {f : Site → Site}
  {Rel : (α : Type) → Eval σ α → Eval τ α → Prop} (c : Congruence host host' f Rel)
  {eval : Expr → Eval σ (Option Value)} {eval' : Expr → Eval τ (Option Value)}
  {call : String → List Expr → Site → Eval σ (Option Value)}
  {call' : String → List Expr → Site → Eval τ (Option Value)}

include c

theorem exprWith (evals : ∀ e, Rel _ (eval e) (eval' (e.mapSites f)))
    (calls : ∀ name args site,
      Rel _ (call name args site) (call' name (args.map (Expr.mapSites f)) (f site))) (e : Expr) :
    Rel _ (Eval.exprWith eval call e) (Eval.exprWith eval' call' (e.mapSites f)) := by
  unfold Eval.exprWith
  rw [Expr.kind_mapSites, Expr.site_mapSites]
  refine c.bind (c.note (.evaluating e.kind e.site)) fun _ _ => ?_
  cases e with
  | literal value site => exact c.pure _
  | var name site => exact c.map some (c.lookup name site)
  | unary op operand site => exact c.map some (c.applyUnary (evals operand) op site)
  | binary op left right site =>
    exact c.map some (c.applyBinary (evals left) (evals right) op site)
  | array elements site =>
    rw [Expr.mapSites, Expr.mapSitesAll_eq]
    exact c.bind (c.demandAll fun e _ => evals e) fun vs _ => c.map some (c.newArray vs)
  | call name args site =>
    rw [Expr.mapSites, Expr.mapSitesAll_eq]
    exact calls name args site

theorem stmtWith {run : Block → Eval σ (Option Value)} {run' : Block → Eval τ (Option Value)}
    (s : Stmt) (evals : ∀ e, Rel _ (eval e) (eval' (e.mapSites f)))
    (runs : ∀ frame : Frame, frame.functions = [] → ∀ b ∈ s.blocks,
      Rel _ (inFrame 0 frame (run b)) (inFrame 0 frame (run' (b.mapSites f))))
    (calls : ∀ name args site, s = .call name args site →
      Rel _ (call name args site) (call' name (args.map (Expr.mapSites f)) (f site)))
    (declares : s.binding → ∀ name v,
      Rel Unit (modifyScope (Scope.declare name v)) (modifyScope (Scope.declare name v)))
    (defines : ∀ g, s = .define g →
      Rel Unit (modifyScope (Scope.define g)) (modifyScope (Scope.define (g.mapSites f))))
    (fuel : Nat) :
    Rel _ (Eval.stmtWith eval run call fuel s)
      (Eval.stmtWith eval' run' call' fuel (s.mapSites f)) := by
  unfold Eval.stmtWith
  rw [Stmt.kind_mapSites, Stmt.site_mapSites]
  refine c.bind (c.note (.evaluating s.kind s.site)) fun _ _ => ?_
  cases s with
  | declare type name nameSite value site =>
    rw [Stmt.mapSites]
    exact c.bind (c.declare (evals value) (declares rfl name)) fun _ _ => c.pure none
  | reassign name nameSite value site =>
    rw [Stmt.mapSites]
    exact c.bind (c.reassign (evals value) name nameSite site) fun _ _ => c.pure none
  | define g =>
    rw [Stmt.mapSites]
    exact c.bind (defines g rfl) fun _ _ => c.pure none
  | call name args site =>
    rw [Stmt.mapSites]
    exact calls name args site rfl
  | block body =>
    rw [Stmt.mapSites]
    exact c.inChild (runs .empty rfl body (.head _))
  | branch chain =>
    rw [Stmt.mapSites]
    dsimp only
    rw [← branchFrom_eq _ _ 0, ← branchFrom_eq _ _ 0]
    exact c.branchFrom 0 chain (fun e _ => evals e) fun _ b found =>
      runs .empty rfl b (List.mem_of_getElem? found)
  | loop condition body site =>
    rw [Stmt.mapSites]
    exact c.repeatWhile (c.demandBoolean (evals condition))
      (c.inChild (runs .empty rfl body (.head _))) fuel
  | count start stop step body site =>
    rw [Stmt.mapSites]
    exact c.count (fun e _ => evals e) (fun _ => runs _ rfl body (.head _)) site fuel
  | ret value site =>
    cases value with
    | some value => exact c.map some (c.demand (evals value))
    | none => exact c.pure _
  | empty site => exact c.pure none

end Congruence

end Scriptlet
