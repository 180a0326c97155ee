import ClosureLang.Machine
import Mathlib

namespace ClosureLang

namespace Machine

/-- A run that ends does so with its first step, or goes on from there with one step less. -/
theorem run_succ_cases {n : Nat} {m : Machine} {w w' : World} {o : Outcome}
    (h : run (n + 1) m w = some (o, w')) :
    step m w = (.ended o, w') ∨
      ∃ m₁ w₁, step m w = (.going m₁, w₁) ∧ run n m₁ w₁ = some (o, w') := by
  simp only [run] at h
  split at h
  next o₁ w₁ hs =>
    cases Option.some.inj h
    exact .inl hs
  next m₁ w₁ hs => exact .inr ⟨m₁, w₁, hs, h⟩

theorem run_of_going {n : Nat} {m m₁ : Machine} {w w₁ : World}
    (h : step m w = (.going m₁, w₁)) : run (n + 1) m w = run n m₁ w₁ := by
  simp only [run, h]

/-- From `m` in `w` the machine comes to `m'` in `w'`. -/
inductive Leads : Machine → World → Machine → World → Prop where
  | refl {m : Machine} {w : World} : Leads m w m w
  | head {m m₁ m' : Machine} {w w₁ w' : World} (hs : step m w = (.going m₁, w₁))
      (hl : Leads m₁ w₁ m' w') : Leads m w m' w'

theorem Leads.single {m m₁ : Machine} {w w₁ : World} (h : step m w = (.going m₁, w₁)) :
    Leads m w m₁ w₁ :=
  .head h .refl

theorem Leads.trans {m m₁ m' : Machine} {w w₁ w' : World} (h : Leads m w m₁ w₁)
    (h' : Leads m₁ w₁ m' w') : Leads m w m' w' := by
  induction h with
  | refl => exact h'
  | head hs _ ih => exact .head hs (ih h')

/-- A machine that is led to comes behind the next step, unless it is there already. -/
theorem Leads.after_step {m m₁ m' : Machine} {w w₁ w' : World} (h : Leads m w m' w')
    (hs : step m w = (.going m₁, w₁)) : m = m' ∨ Leads m₁ w₁ m' w' := by
  cases h with
  | refl => exact .inl rfl
  | head hs' hl =>
    cases hs.symm.trans hs'
    exact .inr hl

/-- What leads to a machine whose run ends has a run that ends alike. -/
theorem Leads.run {m m' : Machine} {w w' : World} (h : Leads m w m' w') {n : Nat}
    {r : Outcome × World} (hr : Machine.run n m' w' = some r) :
    ∃ k, Machine.run k m w = some r := by
  induction h with
  | refl => exact ⟨n, hr⟩
  | head hs _ ih =>
    obtain ⟨k, hk⟩ := ih hr
    exact ⟨k + 1, (run_of_going hs).trans hk⟩

/-- What every step keeps, a sequence of steps keeps. -/
theorem Leads.keeps {P : Machine → World → Prop}
    (keep : ∀ m w m₁ w₁, P m w → step m w = (.going m₁, w₁) → P m₁ w₁)
    {m m' : Machine} {w w' : World} (h : Leads m w m' w') (hp : P m w) : P m' w' := by
  induction h with
  | refl => exact hp
  | head hs _ ih => exact ih (keep _ _ _ _ hp hs)

end Machine

end ClosureLang
