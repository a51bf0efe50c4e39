import Mathlib.Logic.Function.Iterate
import Scriptlet.Proofs.Congruence.Cover

/-!
# The counter of a counted loop

The body of a counted loop gets the counter as a variable, and it may do with that what it likes:
the loop goes on from its own counter.  What a look at the variable shows at the beginning of each
iteration is therefore told by the header alone.  A body only decides how far the loop gets.

## Main definitions

* `CountedLoop` — the parts of a counted loop
* `Eval.header` — what a loop does before its first iteration
* `Sighted`, `Host.sighted` — a host beside a list of what was seen of the counter
* `Sighted.loop` — a loop that looks at the counter at the beginning of each iteration
* `Sighted.sightings` — what is seen then
* `counterAt` — the start of a loop with its step added a number of times

## Main statements

* `Sighted.loop_erased` — looking at the counter is not felt
* `Sighted.seen_iteration` — one iteration sees the counter of the loop, once
* `Sighted.seen_countFrom` — so a loop sees one counter after the other
* `Sighted.counters_of_header` — two loops with the same header see the same counters

## Design decisions

* The look is a part of the iteration, inside of its frame and in front of its body.  Loops inside
  of the body are not looked at.
* The two loops have nothing in common but the numbers of their headers.  They may run with other
  hosts, settings and fuel, on other machines.
-/

namespace Scriptlet

open Eval

variable {σ τ : Type}

/-- **Counted loop** of a script. -/
structure CountedLoop where
  /-- Where the counter starts. -/
  start : Expr
  /-- How far it goes. -/
  stop : Expr
  /-- What is added to it. -/
  step : Expr
  /-- What is repeated. -/
  body : Block
  /-- The site of the loop. -/
  site : Site

/-- The loop as a statement. -/
def CountedLoop.stmt (l : CountedLoop) : Stmt := .count l.start l.stop l.step l.body l.site

/-- **The counter after `k` steps**, each of which adds the increment. -/
def counterAt (first increment : Number) (k : Nat) : Number := (· + increment)^[k] first

/-- What the variable of the counter shows in the first `k` iterations. -/
def counters (first increment : Number) (k : Nat) : List (Option Value) :=
  (List.range k).map fun j => some (.number (counterAt first increment j))

theorem counters_succ (first increment : Number) (k : Nat) : counters first increment (k + 1) =
    some (.number first) :: counters (first + increment) increment k := by
  rw [counters, List.range_succ_eq_map, List.map_cons, List.map_map]
  rfl

theorem length_counters (first increment : Number) (k : Nat) :
    (counters first increment k).length = k := by
  rw [counters, List.length_map, List.length_range]

/-- Fewer iterations show the first part of what more of them show. -/
theorem counters_of_le {k k' : Nat} (h : k ≤ k') (first increment : Number) :
    counters first increment k <+: counters first increment k' := by
  obtain ⟨more, rfl⟩ := Nat.exists_eq_add_of_le h
  rw [counters, counters, List.range_add, List.map_append]
  exact List.prefix_append _ _

/-! ## Header and iterations -/

namespace Eval

/-- **Header** of a loop: its start, its end and its step, evaluated and checked. -/
def header (eval : Expr → Eval σ (Option Value)) (l : CountedLoop) :
    Eval σ (Number × Number × Number) := do
  note (.evaluating l.stmt.kind l.stmt.site)
  let first ← demandNumber eval l.start
  let last ← demandNumber eval l.stop
  let increment ← demandNumber eval l.step
  check l.site (Operation.checkLoop first last increment)
  note (.loopConfigured first last increment)
  return (first, last, increment)

/-- **Iterations** of a loop after its header. -/
def iterate (run : Block → Eval σ (Option Value)) (l : CountedLoop) (fuel : Nat) :
    Number × Number × Number → Eval σ (Option Value)
  | (first, last, increment) =>
    countFrom last increment (fun counter => inChild (counterFrame counter) (run l.body)) fuel first

theorem count_eq_bind (eval : Expr → Eval σ (Option Value)) (run : Block → Eval σ (Option Value))
    (l : CountedLoop) (fuel : Nat) :
    (do
      note (.evaluating l.stmt.kind l.stmt.site)
      count eval run l.start l.stop l.step l.body l.site fuel) =
      header eval l >>= iterate run l fuel := by
  simp only [count, header, bind_assoc, pure_bind]
  rfl

/-- **A loop is its header and then its iterations.** -/
theorem stmt_count_eq (host : Host σ) (config : Config) (fuel : Nat) (l : CountedLoop) :
    stmt host config (fuel + 1) l.stmt =
      header (expr host config fuel) l >>= iterate (block host config fuel) l fuel := by
  rw [← count_eq_bind, stmt_succ]
  rfl

/-- A relation that congruences keep holds between headers, where it does between their parts. -/
theorem header_congr {host : Host σ} {host' : Host τ}
    {Rel : (α : Type) → Eval σ α → Eval τ α → Prop} (c : Congruence host host' id Rel)
    {eval : Expr → Eval σ (Option Value)} {eval' : Expr → Eval τ (Option Value)}
    (evals : ∀ e, Rel _ (eval e) (eval' e)) (l : CountedLoop) :
    Rel _ (header eval l) (header eval' l) := by
  have number (e : Expr) : Rel _ (demandNumber eval e) (demandNumber eval' e) := by
    have demanded := c.demandNumber (e := e) (by rw [Expr.mapSites_id]; exact evals e)
    rwa [Expr.mapSites_id] at demanded
  exact c.bind (c.note (.evaluating l.stmt.kind l.stmt.site)) fun _ _ =>
    c.bind (number l.start) fun first _ => c.bind (number l.stop) fun last _ =>
      c.bind (number l.step) fun increment _ => c.bind (c.check l.site _) fun _ _ =>
        c.bind (c.note (.loopConfigured first last increment)) fun _ _ => c.pure _

/-- A loop whose counter has passed the end does nothing. -/
theorem countFrom_of_passed {stop step : Number} {body : Number → Eval σ (Option Value)}
    {counter : Number} (h : counting stop step counter = false) (fuel : Nat) (m : Machine σ) :
    countFrom stop step body (fuel + 1) counter m = .ok none m := by
  rw [countFrom, h]
  rfl

/-- **One iteration** of a loop that goes on: if it gives nothing, the next one gets the counter
with the step added. -/
theorem countFrom_of_counting {stop step : Number} {body : Number → Eval σ (Option Value)}
    {counter : Number} (h : counting stop step counter = true) (fuel : Nat) (m : Machine σ) :
    countFrom stop step body (fuel + 1) counter m =
      match body counter m with
      | .ok none m' => countFrom stop step body fuel (counter + step) m'
      | r => r := by
  rw [countFrom, h]
  show EStateM.bind (body counter) _ m = _
  unfold EStateM.bind
  cases body counter m with
  | error e m' => rfl
  | ok r m' => cases r <;> rfl

end Eval

/-! ## How loops end -/

/-- **How a loop ended** that started at `first`, after a number of iterations. -/
inductive LoopEnd (last increment : Number) (body : Number → Eval σ (Option Value)) (fuel : Nat)
    (first : Number) : Nat → EStateM.Result Stop (Machine σ) (Option Value) → Prop where
  /-- The counter has passed the end. -/
  | passed {k : Nat} {m' : Machine σ} :
    counting last increment (counterAt first increment k) = false →
    LoopEnd last increment body fuel first k (.ok none m')
  /-- The last iteration gave a value or failed, and that is what the loop does. -/
  | stopped {k : Nat} {m : Machine σ} :
    (∀ m', body (counterAt first increment k) m ≠ .ok none m') →
    LoopEnd last increment body fuel first (k + 1) (body (counterAt first increment k) m)
  /-- The fuel is used up. -/
  | spent {m' : Machine σ} :
    LoopEnd last increment body fuel first fuel (.error .outOfFuel m')

/-- One iteration more in front of the others. -/
theorem LoopEnd.next {last increment first : Number} {body : Number → Eval σ (Option Value)}
    {fuel k : Nat} {r : EStateM.Result Stop (Machine σ) (Option Value)}
    (h : LoopEnd last increment body fuel (first + increment) k r) :
    LoopEnd last increment body (fuel + 1) first (k + 1) r := by
  cases h with
  | passed after => exact .passed after
  | stopped gave => exact .stopped gave
  | spent => exact .spent

/-- Loops that do the same, where the state on the right is a function of the one on the left. -/
theorem LoopEnd.erased {g : Machine σ → Machine τ} {last increment first : Number}
    {body : Number → Eval σ (Option Value)} {body' : Number → Eval τ (Option Value)}
    (same : ∀ counter m, mapState g (body counter m) = body' counter (g m)) {fuel k : Nat}
    {r : EStateM.Result Stop (Machine σ) (Option Value)}
    (h : LoopEnd last increment body fuel first k r) :
    LoopEnd last increment body' fuel first k (mapState g r) := by
  cases h with
  | passed after => exact .passed after
  | @stopped k m gave =>
    rw [same]
    apply LoopEnd.stopped
    intro m' ended
    rw [← same] at ended
    cases ran : body (counterAt first increment k) m with
    | error e m₁ =>
      rw [ran] at ended
      cases ended
    | ok a m₁ =>
      rw [ran] at ended
      cases ended
      exact gave m₁ ran
  | spent => exact .spent

/-! ## Looking at the counter -/

/-- **Sightings** of the counter beside the state of a host. -/
structure Sighted (σ : Type) where
  /-- What was seen so far, oldest first. -/
  seen : List (Option Value)
  /-- The state of the host. -/
  host : σ

/-- A host beside the sightings, which it knows nothing of. -/
def Host.sighted (host : Host σ) : Host (Sighted σ) where
  call name args site w :=
    mapState (World.mapHost (Sighted.mk w.host.seen))
      (host.call name args site (w.mapHost Sighted.host))

theorem Host.covers_sighted (host : Host σ) : host.sighted.Covers Sighted.host host := by
  intro name args site w
  simp only [Host.sighted]
  cases host.call name args site (w.mapHost Sighted.host) <;> rfl

namespace Sighted

variable (host : Host σ) (config : Config) (fuel : Nat)

/-- Looks at the variable of the counter. -/
def look : Eval (Sighted σ) Unit
  | ⟨scope, ⟨heap, ⟨seen, state⟩, log⟩⟩ =>
    .ok () ⟨scope, ⟨heap, ⟨seen ++ [scope.find? counterName], state⟩, log⟩⟩

/-- The body of an iteration, with a look at the counter in front of it. -/
def run (b : Block) : Eval (Sighted σ) (Option Value) := do
  look
  block host.sighted config fuel b

/-- **A loop that looks at the counter** at the beginning of each iteration. -/
def loop (l : CountedLoop) : Eval (Sighted σ) (Option Value) := do
  note (.evaluating l.stmt.kind l.stmt.site)
  count (expr host.sighted config fuel) (run host config fuel) l.start l.stop l.step l.body l.site
    fuel

/-- **What is seen** of the counter when the loop runs on the machine `m`. -/
def sightings (l : CountedLoop) (m : Machine σ) : List (Option Value) :=
  (final (loop host config fuel l (m.mapHost (Sighted.mk [])))).world.host.seen

/-- The look is not felt by the body. -/
theorem simulates_run (b : Block) :
    Simulates id (fun m n => n = m.mapHost Sighted.host) _ (run host config fuel b)
      (block host config fuel b) := by
  rintro ⟨scope, heap, ⟨seen, state⟩, log⟩ _ rfl
  have body := host.covers_sighted.simulation.framed.block config fuel b
  rw [Block.mapSites_id] at body
  exact body ⟨scope, heap, ⟨seen ++ [scope.find? counterName], state⟩, log⟩ _ rfl

/-- **Looking at the counter is not felt:** without the sightings, the loop does what the
statement does under the evaluator. -/
theorem loop_erased (l : CountedLoop) (m : Machine (Sighted σ)) :
    mapState (Machine.mapHost Sighted.host) (loop host config fuel l m) =
      stmt host config (fuel + 1) l.stmt (m.mapHost Sighted.host) := by
  have sim := host.covers_sighted.simulation
  have c := sim.congruence
  have evals : ∀ e ∈ [l.start, l.stop, l.step],
      Simulates id (fun m n => n = m.mapHost Sighted.host) _ (expr host.sighted config fuel e)
        (expr host config fuel (e.mapSites id)) :=
    fun e _ => sim.framed.expr config fuel e
  have runs : ∀ counter, Simulates id (fun m n => n = m.mapHost Sighted.host) _
      (inFrame 0 (counterFrame counter) (run host config fuel l.body))
      (inFrame 0 (counterFrame counter) (block host config fuel (l.body.mapSites id))) := by
    intro counter
    rw [Block.mapSites_id]
    exact sim.inFrame 0 rfl (simulates_run host config fuel l.body)
  have iterations := c.count evals runs l.site fuel
  have whole := c.bind (c.note (.evaluating l.stmt.kind l.stmt.site)) fun _ _ => iterations
  simp only [Event.mapSites_id, Expr.mapSites_id, Block.mapSites_id, id] at whole
  rw [stmt_succ]
  exact (whole m _ rfl).mapState_eq

/-! ## What is seen -/

/-- Nothing but a look at the counter adds a sighting. -/
theorem stable_seen (host : Host σ) :
    Stable host.sighted fun m m' => m'.world.host.seen = m.world.host.seen where
  refl _ := rfl
  trans first second := second.trans first
  world _ _ _ := rfl
  assign _ := rfl
  ask name args site m := by
    obtain ⟨scope, w⟩ := m
    simp only [ask, Host.sighted]
    cases host.call name args site (w.mapHost Sighted.host) <;> rfl

/-- A run does not look by itself. -/
theorem framed_seen (host : Host σ) : Framed host.sighted host.sighted id
    (Leads fun m m' => m'.world.host.seen = m.world.host.seen)
    (Leads fun m m' => m'.world.host.seen = m.world.host.seen) :=
  let R (w w' : World (Sighted σ)) : Prop := w'.host.seen = w.host.seen
  have stable : Stable host.sighted fun m m' => R m.world m'.world := stable_seen host
  stable.framed host.sighted id

theorem seen_header (l : CountedLoop) (m : Machine (Sighted σ)) :
    (final (header (expr host.sighted config fuel) l m)).world.host.seen = m.world.host.seen :=
  header_congr (framed_seen host).outer ((framed_seen host).expr config fuel) l m

/-- **An iteration sees the counter of the loop**, whatever its body does. -/
theorem seen_iteration (b : Block) (counter : Number) (m : Machine (Sighted σ)) :
    (final (inChild (counterFrame counter) (run host config fuel b) m)).world.host.seen =
      m.world.host.seen ++ [some (.number counter)] := by
  obtain ⟨scope, heap, ⟨seen, state⟩, log⟩ := m
  let noted : Machine (Sighted σ) :=
    ⟨scope, ⟨heap, ⟨seen, state⟩, log.add (.enteringScope (scope.depth + 1))⟩⟩
  show (final (inFrame 0 (counterFrame counter) (run host config fuel b) noted)).world.host.seen = _
  rw [world_final_inFrame]
  exact (framed_seen host).block config fuel b _

/-- **A loop sees one counter after the other**, until it ends. -/
theorem seen_countFrom {body : Number → Eval (Sighted σ) (Option Value)}
    (looks : ∀ x m, (final (body x m)).world.host.seen =
      m.world.host.seen ++ [some (.number x)])
    (last increment : Number) (fuel : Nat) (first : Number) (m : Machine (Sighted σ)) :
    ∃ k, (final (countFrom last increment body fuel first m)).world.host.seen =
        m.world.host.seen ++ counters first increment k ∧
      (∀ j < k, counting last increment (counterAt first increment j) = true) ∧
      LoopEnd last increment body fuel first k (countFrom last increment body fuel first m) := by
  -- The counter of the next iteration is computed from that of the loop, never from the frame.
  induction fuel generalizing first m with
  | zero => exact ⟨0, (List.append_nil _).symm, nofun, .spent⟩
  | succ fuel ih =>
    cases goes : counting last increment first with
    | false =>
      rw [countFrom_of_passed goes]
      exact ⟨0, (List.append_nil _).symm, nofun, .passed goes⟩
    | true =>
      have look := looks first m
      have once : ∀ j < 1, counting last increment (counterAt first increment j) = true := by
        intro j least
        obtain rfl : j = 0 := by omega
        exact goes
      have stops (gave : ∀ m', body first m ≠ .ok none m') :
          LoopEnd last increment body (fuel + 1) first 1 (body first m) := .stopped gave
      rw [countFrom_of_counting goes]
      cases ran : body first m with
      | error e m₁ =>
        rw [ran] at look stops
        exact ⟨1, look, once, stops nofun⟩
      | ok r m₁ =>
        rw [ran] at look stops
        cases r with
        | some v => exact ⟨1, look, once, stops nofun⟩
        | none =>
          obtain ⟨k, seen, goesOn, ended⟩ := ih (first + increment) m₁
          refine ⟨k + 1, ?_, ?_, ended.next⟩
          · have before : m₁.world.host.seen = m.world.host.seen ++ [some (.number first)] := look
            rw [counters_succ, List.append_cons, ← before]
            exact seen
          · intro j least
            cases j with
            | zero => exact goes
            | succ j => exact goesOn j (by omega)

/-! ## Loops with one header -/

/-- The look is not felt by an iteration. -/
theorem iteration_erased (b : Block) (counter : Number) (m : Machine (Sighted σ)) :
    mapState (Machine.mapHost Sighted.host)
        (inChild (counterFrame counter) (run host config fuel b) m) =
      inChild (counterFrame counter) (block host config fuel b) (m.mapHost Sighted.host) := by
  have sim := host.covers_sighted.simulation
  have fresh : (counterFrame counter).functions = [] := rfl
  have iteration := sim.congruence.inChild (sim.inFrame 0 fresh (simulates_run host config fuel b))
  exact (iteration m _ rfl).mapState_eq

/-- **What a loop sees** is told by its header and by how far it gets.  All counters but the last
have led to another iteration, and the statement ends as it should behind the last one. -/
theorem sightings_of_header {host config fuel} {l : CountedLoop} {m m₁ : Machine σ}
    {first last increment : Number}
    (h : header (expr host config fuel) l m = .ok (first, last, increment) m₁) :
    ∃ k, sightings host config fuel l m = counters first increment k ∧
      (∀ j < k, counting last increment (counterAt first increment j) = true) ∧
      LoopEnd last increment (fun x => inChild (counterFrame x) (block host config fuel l.body))
        fuel first k (stmt host config (fuel + 1) l.stmt m) := by
  let start : Machine (Sighted σ) := m.mapHost (Sighted.mk [])
  have whole : stmt host config (fuel + 1) l.stmt m =
      mapState (Machine.mapHost Sighted.host) (loop host config fuel l start) :=
    (loop_erased host config fuel l start).symm
  have sim := host.covers_sighted.simulation
  have evals : ∀ e, Simulates id (fun m n => n = m.mapHost Sighted.host) _
      (expr host.sighted config fuel e) (expr host config fuel e) := by
    intro e
    have same := sim.framed.expr config fuel e
    rwa [Expr.mapSites_id] at same
  have sameHeader : mapState (Machine.mapHost Sighted.host)
      (header (expr host.sighted config fuel) l start) = header (expr host config fuel) l m :=
    (header_congr sim.congruence evals l start m rfl).mapState_eq
  have unseen := seen_header host config fuel l start
  have parts : loop host config fuel l start =
      (header (expr host.sighted config fuel) l >>= iterate (run host config fuel) l fuel) start :=
    congrFun (count_eq_bind _ _ l fuel) start
  rw [h] at sameHeader
  change _ = EStateM.bind _ _ start at parts
  unfold EStateM.bind at parts
  cases evaluated : header (expr host.sighted config fuel) l start with
  | error e n₁ =>
    rw [evaluated] at sameHeader
    cases sameHeader
  | ok numbers n₁ =>
    rw [evaluated] at sameHeader unseen parts
    cases sameHeader
    have iterations : loop host config fuel l start = countFrom last increment
        (fun x => inChild (counterFrame x) (run host config fuel l.body)) fuel first n₁ := parts
    have nothing : n₁.world.host.seen = [] := unseen
    obtain ⟨k, seen, goesOn, ended⟩ := seen_countFrom (seen_iteration host config fuel l.body)
      last increment fuel first n₁
    rw [nothing, List.nil_append, ← iterations] at seen
    rw [← iterations] at ended
    refine ⟨k, seen, goesOn, ?_⟩
    rw [whole]
    exact ended.erased (iteration_erased host config fuel l.body)

/-- **The counters do not depend on the body.**  Two counted loops whose headers give the same
numbers, with whatever bodies, hosts, settings and fuel and on whatever machines, see the same
counters as far as both get.  The `k`-th is the start with the step added `k` times.  A loop gets
on until the counter has passed the end, unless its body gives a value or fails. -/
theorem counters_of_header {host : Host σ} {host' : Host τ} {config config' : Config}
    {fuel fuel' : Nat} {l l' : CountedLoop} {m m₁ : Machine σ} {n n₁ : Machine τ}
    {first last increment : Number}
    (h : header (expr host config fuel) l m = .ok (first, last, increment) m₁)
    (h' : header (expr host' config' fuel') l' n = .ok (first, last, increment) n₁) :
    (sightings host config fuel l m <+: sightings host' config' fuel' l' n ∨
      sightings host' config' fuel' l' n <+: sightings host config fuel l m) ∧
    (∀ (k : Nat) (v : Option Value), (sightings host config fuel l m)[k]? = some v →
      v = some (.number (counterAt first increment k)) ∧
        counting last increment (counterAt first increment k) = true) ∧
    LoopEnd last increment (fun x => inChild (counterFrame x) (block host config fuel l.body)) fuel
      first (sightings host config fuel l m).length (stmt host config (fuel + 1) l.stmt m) := by
  obtain ⟨k, seen, goesOn, ended⟩ := sightings_of_header h
  obtain ⟨k', seen', -, -⟩ := sightings_of_header h'
  rw [seen, seen', length_counters]
  refine ⟨?_, ?_, ended⟩
  · cases Nat.le_total k k' with
    | inl fewer => exact .inl (counters_of_le fewer first increment)
    | inr more => exact .inr (counters_of_le more first increment)
  · intro j v shown
    rw [counters, List.getElem?_map, Option.map_eq_some_iff] at shown
    obtain ⟨i, place, rfl⟩ := shown
    obtain ⟨least, rfl⟩ := List.getElem?_eq_some_iff.mp place
    rw [List.length_range] at least
    rw [List.getElem_range]
    exact ⟨rfl, goesOn j least⟩

/-- A body that changes its variable of the counter and one that returns, from one to three. -/
theorem counters_of_header_of_literals :
    let number (x : Number) : Expr := .literal (.number x) .unknown
    let loop (s : Stmt) : CountedLoop :=
      ⟨number 1, number 3, number 1, ⟨[s], .unknown⟩, .unknown⟩
    let changing := loop (.reassign counterName .unknown (number 3) .unknown)
    let returning := loop (.ret none .unknown)
    let m : Machine Sink := .start (.ofLimit none) .silent
    sightings Standard.host {} 9 changing m <+: sightings Standard.host {} 9 returning m ∨
      sightings Standard.host {} 9 returning m <+: sightings Standard.host {} 9 changing m := by
  intro number loop changing returning m
  have h : header (expr Standard.host {} 9) changing m = .ok (1, 3, 1) m := by rfl
  have h' : header (expr Standard.host {} 9) returning m = .ok (1, 3, 1) m := by rfl
  exact (counters_of_header h h').1

end Sighted

end Scriptlet
