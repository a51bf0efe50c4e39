import Scriptlet.Host.Standard

/-!
# What builtins do to the heap

A builtin that fails leaves the heap as it is; one that succeeds replaces or appends
one element, or changes nothing.

## Main definitions

* `Standard.Effect` — the heap after a builtin, with the checks made before

## Main statements

* `Standard.run_effect`, `Standard.call_effect` — every builtin has such an effect
-/

namespace Scriptlet

namespace Standard

/-- **Effect** of a builtin on the heap.  What is stored is an argument, and it has
passed the element check. -/
inductive Effect (args : List Value) (heap : Heap) : Heap → Prop where
  /-- Nothing changes. -/
  | none : Effect args heap heap
  /-- An element is replaced. -/
  | set {a : Handle} {i : Nat} {v : Value} :
      v ∈ args → v.tag ≠ .array → i < heap.length a →
      (heap.element a = .unknown ∨ heap.element a = v.tag) →
      Effect args heap ((heap.setElement a v.tag).set a i v)
  /-- An element is appended. -/
  | add {a : Handle} {v : Value} :
      .array a ∈ args → v ∈ args → v.tag ≠ .array →
      (heap.element a = .unknown ∨ heap.element a = v.tag) →
      Effect args heap ((heap.setElement a v.tag).push a v)

/-! ## Checks -/

theorem position_lt {x : Number} {n i : Nat} (h : Operation.position x n = .ok i) : i < n := by
  unfold Operation.position at h
  cases found : Number.index? x n with
  | none => simp [found] at h
  | some j =>
    simp only [found, Option.elim_some, Except.ok.injEq] at h
    subst h
    simp only [Number.index?, Option.filter_eq_some_iff] at found
    simp only [Bool.and_eq_true, decide_eq_true_eq] at found
    exact found.2.2

theorem array_ok {heap : Heap} {v : Value} {a : Handle} (h : Operation.array heap v = .ok a) :
    v = .array a := by
  cases v with
  | array b => simpa [Operation.array] using h
  | number x | text s | boolean b | void => simp [Operation.array] at h

theorem checkElement_ok {heap : Heap} {a : Handle} {v : Value} {u : Unit}
    (h : checkElement heap a v = .ok u) :
    v.tag ≠ .array ∧ (heap.element a = .unknown ∨ heap.element a = v.tag) := by
  unfold checkElement at h
  split at h
  · simp at h
  · next plain =>
    split at h
    · next fits => exact ⟨plain, fits⟩
    · simp at h

/-- A success of a sequence of checks is one of each. -/
theorem ok_of_check_bind {α β : Type} {x : Except Fault α} {f : α → Except Fault β} {b : β}
    (h : (x >>= f) = .ok b) : ∃ a, x = .ok a ∧ f a = .ok b := by
  cases x with
  | ok a => exact ⟨a, rfl, h⟩
  | error e => cases h

theorem arrayTarget_ok {heap : Heap} {args : List Value} {a : Handle} {i : Nat} {v : Value}
    (h : arrayTarget heap args = .ok (a, i, v)) :
    v ∈ args ∧ v.tag ≠ .array ∧ i < heap.length a ∧
      (heap.element a = .unknown ∨ heap.element a = v.tag) := by
  unfold arrayTarget at h
  split at h
  · next array index w =>
    obtain ⟨b, harray, h⟩ := ok_of_check_bind h
    obtain ⟨x, -, h⟩ := ok_of_check_bind h
    obtain ⟨j, hposition, h⟩ := ok_of_check_bind h
    obtain ⟨_, hcheck, h⟩ := ok_of_check_bind h
    cases h
    obtain ⟨plain, fits⟩ := checkElement_ok hcheck
    exact ⟨by simp, plain, position_lt hposition, fits⟩
  · cases h

theorem arrayAddition_ok {heap : Heap} {args : List Value} {a : Handle} {v : Value}
    (h : arrayAddition heap args = .ok (a, v)) :
    .array a ∈ args ∧ v ∈ args ∧ v.tag ≠ .array ∧
      (heap.element a = .unknown ∨ heap.element a = v.tag) := by
  unfold arrayAddition at h
  split at h
  · next array w =>
    obtain ⟨b, harray, h⟩ := ok_of_check_bind h
    obtain ⟨_, hcheck, h⟩ := ok_of_check_bind h
    cases h
    obtain ⟨plain, fits⟩ := checkElement_ok hcheck
    exact ⟨by simp [array_ok harray], by simp, plain, fits⟩
  · cases h

theorem arrayGet_ok {heap : Heap} {args : List Value} {v : Value}
    (h : arrayGet heap args = .ok v) : ∃ a i, heap.get? a i = some v := by
  unfold arrayGet at h
  split at h
  · next array index =>
    obtain ⟨a, -, h⟩ := ok_of_check_bind h
    obtain ⟨x, -, h⟩ := ok_of_check_bind h
    obtain ⟨i, -, h⟩ := ok_of_check_bind h
    cases found : heap.get? a i with
    | none => simp [found] at h
    | some w =>
      simp only [found, Option.elim_some, Except.ok.injEq] at h
      exact ⟨a, i, by rw [found, h]⟩
  · cases h

theorem arrayLen_ok {heap : Heap} {args : List Value} {v : Value}
    (h : arrayLen heap args = .ok v) : v.tag ≠ .array := by
  unfold arrayLen at h
  split at h
  · obtain ⟨a, -, h⟩ := ok_of_check_bind h
    obtain ⟨n, -, h⟩ := ok_of_check_bind h
    cases h
    simp [Value.tag]
  · cases h

/-! ## Builtins -/

/-- What a result of a builtin can be: no array, or an element of one. -/
def Given (heap : Heap) (v : Value) : Prop := v.tag ≠ .array ∨ ∃ a i, heap.get? a i = some v

/-- **What an action does to the heap**: nothing if it fails. -/
structure Acts (x : Action (Option Value)) (args : List Value) (w : World Sink) : Prop where
  /-- The effect of a success, and where its result comes from. -/
  ok : ∀ {r w'}, x w = .ok r w' → Effect args w.heap w'.heap ∧ ∀ v, r = some v → Given w.heap v
  /-- A failure has none. -/
  error : ∀ {e w'}, x w = .error e w' → w'.heap = w.heap

/-- An action that checks the heap and then goes on. -/
theorem Acts.of_check {α : Type} {f : Heap → Except Fault α} {k : α → Action (Option Value)}
    {args : List Value} {w : World Sink} (h : ∀ a, f w.heap = .ok a → Acts (k a) args w) :
    Acts (do k (← check (f (← heap)))) args w := by
  have step : ∀ r, (do k (← check (f (← heap))) : Action _) w = r →
      (∃ a, f w.heap = .ok a ∧ k a w = r) ∨ (∃ e, f w.heap = .error e ∧ .error e w = r) := by
    intro r run
    change EStateM.bind heap _ w = r at run
    unfold EStateM.bind at run
    cases checked : f w.heap with
    | ok a => exact .inl ⟨a, rfl, by simpa [heap, check, checked, bind, EStateM.bind] using run⟩
    | error e => exact .inr ⟨e, rfl, by simpa [heap, check, checked, bind, EStateM.bind] using run⟩
  constructor
  · intro r w' run
    rcases step _ run with ⟨a, checked, next⟩ | ⟨e, -, stopped⟩
    · exact (h a checked).ok next
    · cases stopped
  · intro e w' run
    rcases step _ run with ⟨a, checked, next⟩ | ⟨e', -, stopped⟩
    · exact (h a checked).error next
    · cases stopped
      rfl

/-- Printing keeps the heap, whether the sink takes the text or not. -/
theorem emit_cases (s : String) (w : World Sink) : ∃ w', w'.heap = w.heap ∧
    (emit s w = .ok () w' ∨ ∃ e, emit s w = .error e w') := by
  obtain ⟨heap, sink, log⟩ := w
  unfold emit
  cases written : sink.write (Text.bytes s) with
  | mk whole sink' =>
    refine ⟨⟨heap, sink', log⟩, rfl, ?_⟩
    cases whole with
    | true => exact .inl (by simp only [written])
    | false => exact .inr ⟨.output "sink is full", by simp only [written]⟩

theorem acts_print (args : List Value) (w : World Sink) : Acts (print args) args w := by
  refine Acts.of_check fun s _ => ?_
  obtain ⟨w₁, same, written | ⟨fault, full⟩⟩ := emit_cases (s ++ "\n") w
  · have run : (emit (s ++ "\n") >>= fun _ => pure none : Action (Option Value)) w =
        .ok none w₁ := by
      show EStateM.bind _ _ w = _
      unfold EStateM.bind
      rw [written]
      rfl
    refine ⟨fun ended => ?_, fun ended => ?_⟩
    · cases run.symm.trans ended
      exact ⟨by rw [same]; exact .none, fun _ none => nomatch none⟩
    · cases run.symm.trans ended
  · have run : (emit (s ++ "\n") >>= fun _ => pure none : Action (Option Value)) w =
        .error fault w₁ := by
      show EStateM.bind _ _ w = _
      unfold EStateM.bind
      rw [full]
    refine ⟨fun ended => ?_, fun ended => ?_⟩
    · cases run.symm.trans ended
    · cases run.symm.trans ended
      exact same

/-- **Effect of a builtin.** -/
theorem run_acts (b : Builtin) (args : List Value) (w : World Sink) : Acts (run b args) args w := by
  -- All checks of a builtin come first, so one that fails has not done anything.
  cases b with
  | print => exact acts_print args w
  | arrayGet =>
    refine Acts.of_check fun v checked => ⟨?_, ?_⟩
    · rintro _ _ ⟨⟩
      refine ⟨.none, ?_⟩
      rintro _ ⟨⟩
      exact .inr (arrayGet_ok checked)
    · rintro _ _ ⟨⟩
  | arraySet =>
    refine Acts.of_check fun found checked => ⟨?_, ?_⟩
    · rintro _ _ ⟨⟩
      obtain ⟨a, i, v⟩ := found
      obtain ⟨given, plain, inside, fits⟩ := arrayTarget_ok checked
      exact ⟨.set given plain inside fits, fun _ none => nomatch none⟩
    · rintro _ _ ⟨⟩
  | arrayLen =>
    refine Acts.of_check fun v checked => ⟨?_, ?_⟩
    · rintro _ _ ⟨⟩
      refine ⟨.none, ?_⟩
      rintro _ ⟨⟩
      exact .inl (arrayLen_ok checked)
    · rintro _ _ ⟨⟩
  | arrayAdd =>
    refine Acts.of_check fun found checked => ⟨?_, ?_⟩
    · rintro _ _ ⟨⟩
      obtain ⟨a, v⟩ := found
      obtain ⟨target, given, plain, fits⟩ := arrayAddition_ok checked
      exact ⟨.add target given plain fits, fun _ none => nomatch none⟩
    · rintro _ _ ⟨⟩

/-- A call of the host, from the builtin that it runs. -/
theorem call_cases {name : String} {args : List Value} {w : World Sink}
    {r : EStateM.Result Fault (World Sink) Reply} (h : call name args w = r) :
    r = .ok .unrecognized w ∨ (∃ fault, r = .error fault w) ∨
      ∃ b log, r = match run b args { w with log } with
        | .ok result w' => .ok (.ofResult result) w'
        | .error fault w' => .error fault w' := by
  obtain ⟨heap, sink, log⟩ := w
  subst h
  unfold call
  cases Builtin.ofName? name with
  | none => exact .inl rfl
  | some b =>
    right
    dsimp only
    split
    · refine .inr ⟨b, log.add (.nativeCall name args.length), ?_⟩
      show EStateM.bind (run b args) _ ⟨heap, sink, log.add (.nativeCall name args.length)⟩ = _
      unfold EStateM.bind
      cases run b args ⟨heap, sink, log.add (.nativeCall name args.length)⟩ <;> rfl
    · exact .inl ⟨_, rfl⟩

/-- **Effect of the host.** -/
theorem call_ok {name : String} {args : List Value} {w w' : World Sink} {reply : Reply}
    (h : call name args w = .ok reply w') :
    Effect args w.heap w'.heap ∧ ∀ v, reply = .returned v → Given w.heap v := by
  rcases call_cases h with same | ⟨fault, same⟩ | ⟨b, log, same⟩
  · cases same
    exact ⟨.none, fun _ returned => nomatch returned⟩
  · cases same
  · cases ran : run b args { w with log } with
    | error fault w₁ =>
      rw [ran] at same
      cases same
    | ok result w₁ =>
      rw [ran] at same
      cases same
      obtain ⟨effect, given⟩ := (run_acts b args _).ok ran
      refine ⟨effect, fun v returned => given v ?_⟩
      cases result with
      | none => cases returned
      | some u =>
        cases returned
        rfl

/-- A call that fails leaves the heap as it is. -/
theorem call_error {name : String} {args : List Value} {w w' : World Sink} {fault : Fault}
    (h : call name args w = .error fault w') : w'.heap = w.heap := by
  rcases call_cases h with same | ⟨fault, same⟩ | ⟨b, log, same⟩
  · cases same
  · cases same
    rfl
  · cases ran : run b args { w with log } with
    | error fault w₁ =>
      rw [ran] at same
      cases same
      exact (run_acts b args { w with log }).error ran
    | ok result w₁ =>
      rw [ran] at same
      cases same

end Standard

end Scriptlet
