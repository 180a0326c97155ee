import ClosureLang.Proofs.Evaluation.Rules

namespace ClosureLang

structure ForLoop where
  initial : Option Stmt
  condition : Option Expr
  increment : Option Expr
  body : Stmt

/-- The tree that the loop is read as. -/
def ForLoop.lowered (l : ForLoop) : Stmt :=
  .forLoop l.initial l.condition l.increment l.body

/-- Whether the condition holds; a missing one does. -/
inductive Tests (scope : FrameId) : Option Expr → State → Except Fault Bool → State → Prop where
  | missing {s : State} : Tests scope none s (.ok true) s
  | evaluated {e : Expr} {s t : State} {r : Except Fault Value} (h : Evaluates scope e s r t) :
      Tests scope (some e) s (r.map Value.truthy) t

/-- One round: the body, and then the increment, unless the body returned or failed. -/
inductive Lap (scope : FrameId) (increment : Option Expr) (body : Stmt) :
    State → Except Fault Signal → State → Prop where
  | stopped {s t : State} {r : Except Fault Signal} (hb : Executes scope body s r t)
      (hr : r ≠ .ok .normal) : Lap scope increment body s r t
  | ended {s t : State} (hb : Executes scope body s (.ok .normal) t) (hi : increment = none) :
      Lap scope increment body s (.ok .normal) t
  | advanced {s t u : State} {e : Expr} {r : Except Fault Value}
      (hb : Executes scope body s (.ok .normal) t) (hi : increment = some e)
      (he : Evaluates scope e t r u) : Lap scope increment body s (r.map fun _ => .normal) u

/-- Rounds as long as the test succeeds, up to the first that returns or fails: `n` in all. -/
inductive Repeats (test : State → Except Fault Bool → State → Prop)
    (lap : State → Except Fault Signal → State → Prop) :
    Nat → State → Except Fault Signal → State → Prop where
  | finished {s t : State} (ht : test s (.ok false) t) : Repeats test lap 0 s (.ok .normal) t
  | untested {s t : State} {f : Fault} (ht : test s (.error f) t) :
      Repeats test lap 0 s (.error f) t
  | stopped {s t u : State} {r : Except Fault Signal} (ht : test s (.ok true) t) (hl : lap t r u)
      (hr : r ≠ .ok .normal) : Repeats test lap 1 s r u
  | again {n : Nat} {s t u z : State} {r : Except Fault Signal} (ht : test s (.ok true) t)
      (hl : lap t (.ok .normal) u) (h : Repeats test lap n u r z) : Repeats test lap (n + 1) s r z

/-- The rounds, after an initial statement in a new frame if there is one. -/
inductive Starts (initial : Option Stmt)
    (rounds : FrameId → Nat → State → Except Fault Signal → State → Prop) (scope : FrameId) :
    Nat → State → Except Fault Signal → State → Prop where
  | bare {n : Nat} {s t : State} {r : Except Fault Signal} (hi : initial = none)
      (h : rounds scope n s r t) : Starts initial rounds scope n s r t
  | stopped {c : Stmt} {s t : State} {r : Except Fault Signal} (hi : initial = some c)
      (hc : Executes s.fresh c (s.child scope []) r t) (hr : r ≠ .ok .normal) :
      Starts initial rounds scope 0 s r t
  | started {c : Stmt} {n : Nat} {s t u : State} {r : Except Fault Signal} (hi : initial = some c)
      (hc : Executes s.fresh c (s.child scope []) (.ok .normal) t) (h : rounds s.fresh n t r u) :
      Starts initial rounds scope n s r u

/-- The loop, run in frame `scope`, begins `n` rounds and ends with a signal or a fault. -/
def ForLoop.Runs (l : ForLoop) : FrameId → Nat → State → Except Fault Signal → State → Prop :=
  Starts l.initial fun i => Repeats (Tests i l.condition) (Lap i l.increment l.body)

/-- One round of the tree that the loop is read as. -/
def ForLoop.round (l : ForLoop) : Stmt :=
  match l.increment with
  | some e => .block [l.body, .expression e]
  | none => l.body

theorem tests_some_iff {i : FrameId} {e : Expr} {s t : State} {r : Except Fault Bool} :
    Tests i (some e) s r t ↔ ∃ q, Evaluates i e s q t ∧ r = q.map Value.truthy := by
  constructor
  · rintro ⟨⟩
    next q h => exact ⟨q, h, rfl⟩
  · rintro ⟨q, h, rfl⟩
    exact .evaluated h

/-- A missing condition is as good as a true one. -/
theorem tests_getD_iff {i : FrameId} {c : Option Expr} {s t : State} {r : Except Fault Bool} :
    Tests i (some (c.getD (.literal (.bool true)))) s r t ↔ Tests i c s r t := by
  cases c with
  | some e => exact Iff.rfl
  | none =>
    constructor
    · intro h
      cases h with
      | evaluated h =>
        cases h
        exact .missing
    · intro h
      cases h
      exact .evaluated .literal

theorem lap_none_iff {i : FrameId} {body : Stmt} {s t : State} {r : Except Fault Signal} :
    Lap i none body s r t ↔ Executes i body s r t := by
  constructor
  · intro h
    cases h with
    | stopped hb hr => exact hb
    | ended hb hi => exact hb
    | advanced hb hi he => simp at hi
  · intro h
    by_cases hr : r = .ok .normal
    · subst hr
      exact .ended h rfl
    · exact .stopped h hr

theorem executes_expression_iff {i : FrameId} {e : Expr} {s t : State}
    {r : Except Fault Signal} :
    Executes i (.expression e) s r t ↔
      ∃ q, Evaluates i e s q t ∧ r = q.map fun _ => .normal := by
  constructor
  · intro h
    cases h with
    | expression h => exact ⟨_, h, rfl⟩
  · rintro ⟨q, h, rfl⟩
    exact .expression h

theorem executesAll_singleton_iff {i : FrameId} {c : Stmt} {s t : State}
    {r : Except Fault Signal} : ExecutesAll i [c] s r t ↔ Executes i c s r t := by
  rw [executesAll_cons_iff]
  constructor
  · rintro (⟨h, -⟩ | ⟨u, h, hrest⟩)
    · exact h
    · cases hrest
      exact h
  · intro h
    by_cases hr : r = .ok .normal
    · subst hr
      exact .inr ⟨t, h, .nil⟩
    · exact .inl ⟨h, hr⟩

theorem executesAll_pair_iff {i : FrameId} {c d : Stmt} {s t : State} {r : Except Fault Signal} :
    ExecutesAll i [c, d] s r t ↔
      (Executes i c s r t ∧ r ≠ .ok .normal) ∨
        ∃ u, Executes i c s (.ok .normal) u ∧ Executes i d u r t := by
  rw [executesAll_cons_iff]
  simp only [executesAll_singleton_iff]

theorem lap_some_iff {i : FrameId} {e : Expr} {body : Stmt} {s t : State}
    {r : Except Fault Signal} :
    Lap i (some e) body s r t ↔ ExecutesAll i [body, .expression e] s r t := by
  rw [executesAll_pair_iff]
  constructor
  · intro h
    cases h with
    | stopped hb hr => exact .inl ⟨hb, hr⟩
    | ended hb hi => simp at hi
    | advanced hb hi he =>
      cases Option.some.inj hi
      exact .inr ⟨_, hb, .expression he⟩
  · rintro (⟨hb, hr⟩ | ⟨u, hb, hx⟩)
    · exact .stopped hb hr
    · obtain ⟨q, he, rfl⟩ := executes_expression_iff.mp hx
      exact .advanced hb rfl he

theorem executes_block_iff {i : FrameId} {body : List Stmt} {s t : State}
    {r : Except Fault Signal} :
    Executes i (.block body) s r t ↔ ExecutesAll s.fresh body (s.child i []) r t := by
  constructor
  · intro h
    cases h with
    | block h => exact h
  · exact .block

theorem tests_of_ok {i : FrameId} {c : Expr} {b : Bool} {s t : State} {v : Value}
    (he : Evaluates i c s (.ok v) t) (hv : v.truthy = b) : Tests i (some c) s (.ok b) t :=
  tests_some_iff.mpr ⟨.ok v, he, by rw [← hv]; rfl⟩

theorem Executes.repeats {i : FrameId} {stmt : Stmt} {s t : State} {r : Except Fault Signal}
    (h : Executes i stmt s r t) : ∀ c b, stmt = .loop c b →
      ∃ n, Repeats (Tests i (some c)) (Executes i b) n s r t :=
  match h with
  | .loopEnd he hv => by
    rintro _ _ ⟨⟩
    exact ⟨0, .finished (tests_of_ok he hv)⟩
  | .loopRound he hv hb h => by
    rintro _ _ ⟨⟩
    obtain ⟨n, hn⟩ := h.repeats _ _ rfl
    exact ⟨n + 1, .again (tests_of_ok he hv) hb hn⟩
  | .loopReturn he hv hb => by
    rintro _ _ ⟨⟩
    exact ⟨1, .stopped (tests_of_ok he hv) hb nofun⟩
  | .loopFault he hv hb => by
    rintro _ _ ⟨⟩
    exact ⟨1, .stopped (tests_of_ok he hv) hb nofun⟩
  | .conditionFault he => by
    rintro _ _ ⟨⟩
    exact ⟨0, .untested (tests_some_iff.mpr ⟨_, he, rfl⟩)⟩
  | .expression _ | .output _ | .outputFault _ | .create _ | .createFault _ | .createNil
  | .block _ | .thenTaken _ _ _ | .thenSkipped _ _ | .thenFault _ | .branch _ _ | .branchFault _
  | .function | .giveBack _ | .giveBackNil => nofun

theorem tests_ok {i : FrameId} {c : Expr} {b : Bool} {s t : State}
    (h : Tests i (some c) s (.ok b) t) : ∃ v, Evaluates i c s (.ok v) t ∧ v.truthy = b := by
  obtain ⟨q, hq, hb⟩ := tests_some_iff.mp h
  cases q with
  | error f => simp [Except.map] at hb
  | ok v => exact ⟨v, hq, (Except.ok.inj hb).symm⟩

theorem Repeats.executes {i : FrameId} {c : Expr} {b : Stmt} {n : Nat} {s t : State}
    {r : Except Fault Signal} (h : Repeats (Tests i (some c)) (Executes i b) n s r t) :
    Executes i (.loop c b) s r t := by
  induction h with
  | finished ht =>
    obtain ⟨v, he, hv⟩ := tests_ok ht
    exact .loopEnd he hv
  | untested ht =>
    obtain ⟨q, hq, hb⟩ := tests_some_iff.mp ht
    cases q with
    | error f =>
      cases Except.error.inj hb
      exact .conditionFault hq
    | ok v => simp [Except.map] at hb
  | @stopped s t u r ht hl hr =>
    obtain ⟨v, he, hv⟩ := tests_ok ht
    match r, hr, hl with
    | .ok (.returned v), _, hl => exact .loopReturn he hv hl
    | .error f, _, hl => exact .loopFault he hv hl
    | .ok .normal, hr, _ => exact absurd rfl hr
  | again ht hl _ ih =>
    obtain ⟨v, he, hv⟩ := tests_ok ht
    exact .loopRound he hv hl ih

/-- A loop does what some number of rounds do. -/
theorem executes_loop_iff {i : FrameId} {c : Expr} {b : Stmt} {s t : State}
    {r : Except Fault Signal} :
    Executes i (.loop c b) s r t ↔ ∃ n, Repeats (Tests i (some c)) (Executes i b) n s r t :=
  ⟨fun h => h.repeats c b rfl, fun ⟨_, h⟩ => h.executes⟩

theorem Repeats.imp {test test' : State → Except Fault Bool → State → Prop}
    {lap lap' : State → Except Fault Signal → State → Prop}
    (ht : ∀ {s r t}, test s r t → test' s r t) (hl : ∀ {s r t}, lap s r t → lap' s r t)
    {n : Nat} {s t : State} {r : Except Fault Signal} (h : Repeats test lap n s r t) :
    Repeats test' lap' n s r t := by
  induction h with
  | finished h => exact .finished (ht h)
  | untested h => exact .untested (ht h)
  | stopped h h' hr => exact .stopped (ht h) (hl h') hr
  | again h h' _ ih => exact .again (ht h) (hl h') ih

/-- The rounds of the tree that the loop is read as. -/
def ForLoop.rounds (l : ForLoop) : Stmt :=
  .loop (l.condition.getD (.literal (.bool true))) l.round

/-- The rounds of the tree are rounds in which the body and the increment share a new frame. -/
theorem ForLoop.executes_rounds_iff {l : ForLoop} {i : FrameId} {s t : State}
    {r : Except Fault Signal} :
    Executes i l.rounds s r t ↔
      ∃ n, Repeats (Tests i l.condition) (Executes i l.round) n s r t := by
  refine executes_loop_iff.trans (exists_congr fun n => ⟨?_, ?_⟩)
  · exact fun h => h.imp tests_getD_iff.mp id
  · exact fun h => h.imp tests_getD_iff.mpr id

theorem ForLoop.lowered_of_none {l : ForLoop} (h : l.initial = none) : l.lowered = l.rounds := by
  obtain ⟨initial, condition, increment, body⟩ := l
  cases h
  cases increment <;> rfl

theorem ForLoop.lowered_of_some {l : ForLoop} {c : Stmt} (h : l.initial = some c) :
    l.lowered = .block [c, l.rounds] := by
  obtain ⟨initial, condition, increment, body⟩ := l
  cases h
  cases increment <;> rfl

/-- The tree that a loop is read as has the same pieces as the loop, but for the rounds. -/
theorem ForLoop.executes_lowered_iff {l : ForLoop} {scope : FrameId} {s t : State}
    {r : Except Fault Signal} :
    Executes scope l.lowered s r t ↔
      ∃ n, Starts l.initial
        (fun i => Repeats (Tests i l.condition) (Executes i l.round)) scope n s r t := by
  cases hi : l.initial with
  | none =>
    rw [lowered_of_none hi, executes_rounds_iff]
    constructor
    · rintro ⟨n, h⟩
      exact ⟨n, .bare rfl h⟩
    · rintro ⟨n, h⟩
      cases h with
      | bare _ h => exact ⟨n, h⟩
      | stopped hi' => simp at hi'
      | started hi' => simp at hi'
  | some c =>
    rw [lowered_of_some hi, executes_block_iff, executesAll_pair_iff]
    constructor
    · rintro (⟨hc, hr⟩ | ⟨u, hc, h⟩)
      · exact ⟨0, .stopped rfl hc hr⟩
      · obtain ⟨n, h⟩ := executes_rounds_iff.mp h
        exact ⟨n, .started rfl hc h⟩
    · rintro ⟨n, h⟩
      cases h with
      | bare hi' => simp at hi'
      | stopped hi' hc hr =>
        cases Option.some.inj hi'
        exact .inl ⟨hc, hr⟩
      | started hi' hc h =>
        cases Option.some.inj hi'
        exact .inr ⟨_, hc, executes_rounds_iff.mpr ⟨n, h⟩⟩

end ClosureLang
