import ClosureLang.Proofs.Evaluation.Runs
import ClosureLang.Proofs.Frames.Change
import ClosureLang.Proofs.Frames.Step

namespace ClosureLang

def World.existing (w : World) : Set FrameId :=
  {i | i < w.store.frames.size}

/-- A world as runs build it. -/
structure World.WellFormed (w : World) : Prop where
  scope : w.scope < w.store.frames.size
  ordered : w.store.Ordered
  homes : ∀ (i : FrameId) (f : Frame) (name : String) (c : Closure),
    w.store.frames[i]? = some f → (name, .closure c) ∈ f.bindings → c.home < w.store.frames.size

/-- A machine that mentions existing frames only, in a well-formed world. -/
structure Machine.Grounded (m : Machine) (w : World) : Prop where
  machine : m.Confined w.existing
  world : w.Confined w.existing
  ordered : w.store.Ordered

theorem World.WellFormed.confined {w : World} (h : w.WellFormed) : w.Confined w.existing := by
  refine ⟨fun i f hi hf => ⟨fun j hj => (h.ordered i f j hf hj).trans hi, ?_⟩, h.scope⟩
  rintro ⟨name, v⟩ hb
  cases v with
  | closure c => exact h.homes i f name c hf hb
  | nil | bool | number | text | native => trivial

theorem World.Confined.mono {G G' : Set FrameId} {w : World} (h : w.Confined G) (hG : G ⊆ G')
    (hnew : ∀ i ∈ G', i < w.store.frames.size → i ∈ G) : w.Confined G' := by
  refine ⟨fun i f hi hf => ?_, hG h.scope⟩
  have hc := h.store i f (hnew i hi (Array.getElem?_eq_some_iff.mp hf).1) hf
  exact ⟨fun j hj => hG (hc.enclosing j hj), fun b hb => (hc.bindings b hb).mono hG⟩

theorem World.Change.mono {G G' : Set FrameId} {w w' : World} (h : w.Change G w') (hG : G ⊆ G') :
    w.Change G' w' := by
  cases h with
  | same => exact .same
  | within hs => exact .within (hG hs)
  | println => exact .println
  | bindAt hi hv => exact .bindAt (hG hi) (hv.mono hG)
  | declare => exact .declare
  | push he hb => exact .push (hG he) fun b hm => (hb b hm).mono hG

namespace Machine

/-- A machine that mentions existing frames only goes on to do so, in a world that stays
well-formed. -/
theorem Grounded.step {m m₁ : Machine} {w w₁ : World} (h : m.Grounded w)
    (hs : Machine.step m w = (.going m₁, w₁)) : m₁.Grounded w₁ := by
  obtain ⟨hp, hc⟩ := step_confined h.machine h.world
  simp only [hs] at hp hc
  have hG : w.existing ⊆ w₁.existing := fun i hi => Nat.lt_of_lt_of_le hi hc.size_le
  refine ⟨Machine.Confined.mono hG hp, ?_, hc.ordered h.ordered fun i hi => hi⟩
  exact (hc.mono hG).confined (h.world.mono hG fun i _ hi => hi) fun i _ hi => hi

theorem Grounded.leads {m m' : Machine} {w w' : World} (h : m.Grounded w)
    (hl : Leads m w m' w') : m'.Grounded w' :=
  hl.keeps (fun _ _ _ _ hg hs => hg.step hs) h

theorem Grounded.head {m m₁ m' : Machine} {w w₁ w' : World} (h : m.Grounded w)
    (hs : Machine.step m w = (.going m₁, w₁)) (hl : m₁.Grounded w₁ → Leads m₁ w₁ m' w') :
    Leads m w m' w' :=
  .head hs (hl (h.step hs))

theorem Grounded.through {m m₁ m' : Machine} {w w₁ w' : World} (h : m.Grounded w)
    (hl : Leads m w m₁ w₁) (hl' : m₁.Grounded w₁ → Leads m₁ w₁ m' w') : Leads m w m' w' :=
  hl.trans (hl' (h.leads hl))

end Machine

end ClosureLang
