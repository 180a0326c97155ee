import ClosureLang.Proofs.Evaluation.Agreement
import ClosureLang.Proofs.Frames.Chain

namespace ClosureLang

/-- A world between two tasks, or with a task under way in it. -/
inductive Session where
  | idle (w : World)
  | busy (m : Machine) (w : World)

namespace Session

def world : Session → World
  | .idle w => w
  | .busy _ w => w

/-- What the machine does next; between two tasks there is nothing left to do. -/
def machine : Session → Machine
  | .idle _ => .finish .normal .outcome
  | .busy m _ => m

/-- A task begins, goes on by one step, or ends. -/
inductive Step : Session → Session → Prop where
  | evaluate {w : World} (e : Expr) : Step (.idle w) (.busy (.evaluate e .outcome) w)
  | execute {w : World} (s : Stmt) : Step (.idle w) (.busy (.execute s .outcome) w)
  | going {m m' : Machine} {w w' : World} (h : m.step w = (.going m', w')) :
      Step (.busy m w) (.busy m' w')
  | ended {m : Machine} {w w' : World} {o : Outcome} (h : m.step w = (.ended o, w')) :
      Step (.busy m w) (.idle w')

/-- `σ'` is a later state of the session `σ`. -/
def Later : Session → Session → Prop :=
  Relation.ReflTransGen Step

/-- A state of a session that began with a new world. -/
def Reachable (σ : Session) : Prop :=
  Later (.idle .initial) σ

/-- The machine mentions existing frames only, every frame belongs to an older one, and all of them
to the global frame. -/
structure Sound (σ : Session) : Prop where
  grounded : σ.machine.Grounded σ.world
  rooted : σ.world.store.Rooted

theorem Sound.ordered {σ : Session} (h : σ.Sound) : σ.world.store.Ordered :=
  h.grounded.ordered

end Session

theorem Machine.step_ended {m : Machine} {w w' : World} {o : Outcome}
    (h : m.step w = (.ended o, w')) : w' = w := by
  cases m with
  | evaluate e next => simp [step, going] at h
  | arguments callee done rest line next => cases rest <;> simp [step] at h
  | apply callee args line next => simp [step, going] at h
  | give v next =>
    cases next with
    | outcome => exact (Prod.mk.inj h).2.symm
    | assigned name line next =>
      simp only [step, stepGive] at h
      split at h <;> simp at h
    | operand | left | right | decision | callee | argument | discarded | printed | initial
    | thenBranch | branches | condition | given => simp [step, stepGive] at h
  | raise f next =>
    cases next with
    | outcome => exact (Prod.mk.inj h).2.symm
    | operand | left | right | decision | assigned | callee | argument | discarded | printed
    | initial | thenBranch | branches | condition | given => simp [step, stepRaise] at h
  | execute s next => simp [step, going] at h
  | sequence body next => cases body <;> simp [step] at h
  | finish s next =>
    cases next with
    | outcome => cases s <;> exact (Prod.mk.inj h).2.symm
    | statements | round | blockEnd | callEnd => cases s <;> simp [step, stepFinish] at h
  | abort f next =>
    cases next with
    | outcome => exact (Prod.mk.inj h).2.symm
    | statements | round | blockEnd | callEnd => simp [step, stepAbort] at h

theorem Machine.step_change (m : Machine) (w : World) : w.Change Set.univ (m.step w).2 :=
  (step_confined m.confined_univ w.confined_univ).2

namespace Session

variable {σ σ' : Session}

theorem Step.change (h : Step σ σ') : σ.world.Change Set.univ σ'.world := by
  cases h with
  | evaluate e => exact .same
  | execute s => exact .same
  | @going m m' w w' hs =>
    have hc := m.step_change w
    rw [hs] at hc
    exact hc
  | @ended m w w' o hs =>
    have hc := m.step_change w
    rw [hs] at hc
    exact hc

/-- A step keeps a session sound. -/
theorem Sound.step (hσ : σ.Sound) (h : Step σ σ') : σ'.Sound := by
  refine ⟨?_, h.change.rooted hσ.rooted⟩
  obtain ⟨⟨hm, hw, ordered⟩, -⟩ := hσ
  cases h with
  | evaluate e => exact ⟨trivial, hw, ordered⟩
  | execute s => exact ⟨trivial, hw, ordered⟩
  | going hs => exact Machine.Grounded.step ⟨hm, hw, ordered⟩ hs
  | ended hs =>
    cases Machine.step_ended hs
    exact ⟨⟨trivial, trivial⟩, hw, ordered⟩

theorem Sound.later (hσ : σ.Sound) (h : Later σ σ') : σ'.Sound := by
  induction h with
  | refl => exact hσ
  | tail _ hs ih => exact ih.step hs

theorem sound_initial : (idle .initial).Sound := by
  refine ⟨⟨⟨trivial, trivial⟩, initial_wellFormed.confined, initial_wellFormed.ordered⟩, ?_⟩
  intro i f hf _
  have hi : i < 1 := (Array.getElem?_eq_some_iff.mp hf).1
  exact Nat.lt_one_iff.mp hi

/-- Every session that can be reached is sound, in the middle of a run as well. -/
theorem Reachable.sound (h : σ.Reachable) : σ.Sound :=
  sound_initial.later h

/-- The store of a session grows only. -/
theorem Later.grows (h : Later σ σ') : σ.world.store.Grows σ'.world.store := by
  induction h with
  | refl => exact .refl _
  | tail _ hs ih => exact ih.trans hs.change.grows

theorem later_of_run {n : Nat} {m : Machine} {w w' : World} {o : Outcome}
    (h : m.run n w = some (o, w')) : Later (.busy m w) (.idle w') := by
  induction n generalizing m w with
  | zero => simp [Machine.run] at h
  | succ n ih =>
    rcases Machine.run_succ_cases h with hs | ⟨m₁, w₁, hs, hr⟩
    · exact .single (.ended hs)
    · exact .head (.going hs) (ih hr)

theorem later_evaluate {n : Nat} {e : Expr} {w w' : World} {o : Outcome}
    (h : w.evaluate n e = some (o, w')) : Later (.idle w) (.idle w') :=
  .head (.evaluate e) (later_of_run h)

theorem later_execute {n : Nat} {s : Stmt} {w w' : World} {o : Outcome}
    (h : w.execute n s = some (o, w')) : Later (.idle w) (.idle w') :=
  .head (.execute s) (later_of_run h)

end Session

end ClosureLang
