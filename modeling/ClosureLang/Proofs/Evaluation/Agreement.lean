import ClosureLang.Proofs.Evaluation.RunDerivations

namespace ClosureLang

open Machine

/-- The outcome of a run that evaluates an expression. -/
def Outcome.ofValue : Except Fault Value → Outcome
  | .ok v => .value v
  | .error f => .fault f

/-- The outcome of a run that executes a statement. -/
def Outcome.ofSignal : Except Fault Signal → Outcome
  | .ok s => .signal s
  | .error f => .fault f

theorem run_settle_outcome (r : Except Fault Value) (w : World) (n : Nat) :
    run (n + 1) (settle r .outcome) w = some (.ofValue r, w) := by
  cases r <;> rfl

theorem run_conclude_outcome (r : Except Fault Signal) (w : World) (n : Nat) :
    run (n + 1) (conclude r .outcome) w = some (.ofSignal r, w) := by
  cases r with
  | error f => rfl
  | ok s => cases s <;> rfl

/-- The machine comes from an expression to an outcome exactly if a derivation gives it, with the
same frames and output. -/
theorem evaluate_iff {w : World} (hw : w.WellFormed) (e : Expr) (o : Outcome) (w' : World) :
    (∃ n, w.evaluate n e = some (o, w')) ↔
      ∃ r t, Evaluates w.scope e w.state r t ∧ o = .ofValue r ∧ w' = t.within w.scope := by
  have hg : (Machine.evaluate e .outcome).Grounded (w.state.within w.scope) :=
    ⟨trivial, hw.confined, hw.ordered⟩
  constructor
  · rintro ⟨n, hn⟩
    obtain ⟨r, t, h, k, -, hk⟩ := (explained (n + 1)).evaluate hg ⟨n, by omega, hn⟩
    cases k with
    | zero => simp [run] at hk
    | succ k =>
      cases Option.some.inj ((run_settle_outcome r _ k).symm.trans hk)
      exact ⟨r, t, h, rfl, rfl⟩
  · rintro ⟨r, t, h, rfl, rfl⟩
    exact (h.leads _ hg).run (run_settle_outcome r _ 0)

/-- The machine comes from a statement to an outcome exactly if a derivation gives it, with the same
frames and output. -/
theorem execute_iff {w : World} (hw : w.WellFormed) (s : Stmt) (o : Outcome) (w' : World) :
    (∃ n, w.execute n s = some (o, w')) ↔
      ∃ r t, Executes w.scope s w.state r t ∧ o = .ofSignal r ∧ w' = t.within w.scope := by
  have hg : (Machine.execute s .outcome).Grounded (w.state.within w.scope) :=
    ⟨trivial, hw.confined, hw.ordered⟩
  constructor
  · rintro ⟨n, hn⟩
    obtain ⟨r, t, h, k, -, hk⟩ := (explained (n + 1)).execute hg ⟨n, by omega, hn⟩
    cases k with
    | zero => simp [run] at hk
    | succ k =>
      cases Option.some.inj ((run_conclude_outcome r _ k).symm.trans hk)
      exact ⟨r, t, h, rfl, rfl⟩
  · rintro ⟨r, t, h, rfl, rfl⟩
    exact (h.leads _ hg).run (run_conclude_outcome r _ 0)

theorem initial_wellFormed : World.initial.WellFormed := by
  have hframe : World.initial.store.frames =
      #[⟨none, [("add", .native .add), ("sqrt", .native .sqrt)]⟩] := rfl
  refine ⟨by decide, ?_, ?_⟩
  · intro i f j hf hj
    rw [hframe] at hf
    obtain ⟨hi, rfl⟩ := Array.getElem?_eq_some_iff.mp hf
    have hi0 : i = 0 := by simpa using hi
    subst hi0
    simp at hj
  · intro i f name c hf hb
    rw [hframe] at hf
    obtain ⟨hi, rfl⟩ := Array.getElem?_eq_some_iff.mp hf
    have hi0 : i = 0 := by simpa using hi
    subst hi0
    simp at hb

end ClosureLang
