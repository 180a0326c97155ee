import ClosureLang.Proofs.Evaluation.Runs
import ClosureLang.Proofs.Frames.Change
import ClosureLang.Proofs.Frames.Step

namespace ClosureLang

/-- Frame `i` leads to frame `j`: it belongs to it, or holds a function that was declared in it. -/
def Store.Link (s : Store) (i j : FrameId) : Prop :=
  ∃ f, s.frames[i]? = some f ∧
    (f.enclosing = some j ∨ ∃ b ∈ f.bindings, ∃ c : Closure, b.2 = .closure c ∧ c.home = j)

/-- The frames that one gets to from frame `i`. -/
def Store.reach (s : Store) (i : FrameId) : Set FrameId :=
  {j | Relation.ReflTransGen s.Link i j}

/-- The value that a run ended with, if it ended with one. -/
def Outcome.value? : Outcome → Option Value
  | .value v => some v
  | .signal (.returned v) => some v
  | _ => none

variable {G : Set FrameId}

namespace Machine

theorem step_size_le (m : Machine) (w : World) :
    w.store.frames.size ≤ (step m w).2.store.frames.size :=
  (step_confined m.confined_univ w.confined_univ).2.size_le

theorem run_size_le {n : Nat} {m : Machine} {w w' : World} {o : Outcome}
    (h : run n m w = some (o, w')) : w.store.frames.size ≤ w'.store.frames.size := by
  induction n generalizing m w with
  | zero => simp [run] at h
  | succ n ih =>
    have hle := step_size_le m w
    rcases run_succ_cases h with hs | ⟨m₁, w₁, hs, hr⟩
    · simpa only [hs] using hle
    · simp only [hs] at hle
      exact hle.trans (ih hr)

/-- A run of a confined machine, in a set that has room for the frames the run creates. -/
theorem run_confined {n : Nat} {m : Machine} {w w' : World} {o : Outcome}
    (hm : m.Confined G) (hw : w.Confined G)
    (hnew : ∀ i, w.store.frames.size ≤ i → i < w'.store.frames.size → i ∈ G)
    (h : run n m w = some (o, w')) :
    o.Confined G ∧ w'.Confined G ∧ ∀ i ∉ G, w'.store.frames[i]? = w.store.frames[i]? := by
  induction n generalizing m w with
  | zero => simp [run] at h
  | succ n ih =>
    obtain ⟨hp, hc⟩ := step_confined hm hw
    rcases run_succ_cases h with hs | ⟨m₁, w₁, hs, hr⟩
    · simp only [hs] at hp hc
      exact ⟨hp, hc.confined hw hnew, fun i hi => hc.frame_eq hw hnew hi⟩
    · simp only [hs] at hp hc
      have hle := hc.size_le
      have hle' := run_size_le hr
      have hnew₁ : ∀ i, w.store.frames.size ≤ i → i < w₁.store.frames.size → i ∈ G :=
        fun i hi hlt => hnew i hi (by omega)
      obtain ⟨ho, hw', hsame⟩ :=
        ih hp (hc.confined hw hnew₁) (fun i hi hlt => hnew i (by omega) hlt) hr
      exact ⟨ho, hw', fun i hi => (hsame i hi).trans (hc.frame_eq hw hnew₁ hi)⟩

end Machine

/-- Nothing leads out of what can be reached and frames that do not exist yet. -/
theorem Store.reach_confined (s : Store) (i : FrameId) (n : Nat) :
    s.Confined (s.reach i ∪ {j | s.frames.size ≤ j ∧ j < n}) := by
  intro j f hj hf
  rcases hj with hj | hj
  · constructor
    · intro k hk
      exact .inl (hj.tail ⟨f, hf, .inl hk⟩)
    · intro b hb
      cases hv : b.2 with
      | closure c => exact .inl (hj.tail ⟨f, hf, .inr ⟨b, hb, c, hv, rfl⟩⟩)
      | nil | bool | number | text | native => trivial
  · have hlt := (Array.getElem?_eq_some_iff.mp hf).1
    exact absurd hj.1 (Nat.not_le.mpr hlt)

theorem Store.Confined.link {s : Store} {i j : FrameId} (hs : s.Confined G) (hi : i ∈ G)
    (h : s.Link i j) : j ∈ G := by
  obtain ⟨f, hf, he | ⟨b, hb, c, hv, rfl⟩⟩ := h
  · exact (hs i f hi hf).enclosing j he
  · have := (hs i f hi hf).bindings b hb
    rw [hv] at this
    exact this

/-- What can be reached from a confining set is in the set. -/
theorem Store.Confined.reach {s : Store} {i j : FrameId} (hs : s.Confined G) (hi : i ∈ G)
    (h : j ∈ s.reach i) : j ∈ G := by
  induction h with
  | refl => exact hi
  | tail _ hl ih => exact hs.link ih hl

theorem Outcome.Confined.home {o : Outcome} {f : Closure} (ho : o.Confined G)
    (h : o.value? = some (.closure f)) : f.home ∈ G := by
  cases o with
  | value v =>
    cases Option.some.inj h
    exact ho
  | signal s =>
    cases s with
    | normal => simp [Outcome.value?] at h
    | returned v =>
      cases Option.some.inj h
      exact ho
  | fault f => simp [Outcome.value?] at h

/-- A variable of a frame outside `G`, seen through frames that kept their contents. -/
theorem Store.resolve?_of_frame_eq {s s' : Store} {name : String} {i j : FrameId}
    (hs : s.Confined G) (hsame : ∀ k ∉ G, s'.frames[k]? = s.frames[k]?)
    (hj : j ∉ G) (h : s.resolve? name i = some j) : s'.resolve? name i = some j := by
  induction i using Nat.strongRecOn with
  | ind i ih =>
    have hi : i ∉ G := fun hi => hj (hs.resolve? hi h)
    rw [Store.resolve?] at h ⊢
    rw [hsame i hi]
    split at h
    next => simp at h
    next f hf =>
      split at h
      next hd => simpa [hf, hd] using h
      next hd =>
        split at h
        next k he =>
          split at h
          next hlt => simpa [hf, hd, he, hlt] using ih k hlt h
          next => simp at h
        next => simp at h

/-- A run leaves every frame that it cannot reach as it was, so a variable there keeps its value
whoever looks at it; and what can be reached afterwards, from the frame the run started in or from
the value it ended with, could be reached before or is new. -/
theorem run_effects_within_reach {w w' : World} {o : Outcome} {n : Nat}
    (h : (∃ e, w.evaluate n e = some (o, w')) ∨ ∃ s, w.execute n s = some (o, w')) :
    (∀ i < w.store.frames.size, i ∉ w.store.reach w.scope →
      w'.store.frames[i]? = w.store.frames[i]?) ∧
    (∀ i j name line, w.store.resolve? name i = some j → j ∉ w.store.reach w.scope →
      w'.store.get i name line = w.store.get i name line) ∧
    (∀ j ∈ w'.store.reach w.scope, j ∈ w.store.reach w.scope ∨
      (w.store.frames.size ≤ j ∧ j < w'.store.frames.size)) ∧
    (∀ f, o.value? = some (.closure f) → ∀ j ∈ w'.store.reach f.home,
      j ∈ w.store.reach w.scope ∨ (w.store.frames.size ≤ j ∧ j < w'.store.frames.size)) := by
  let G := w.store.reach w.scope ∪ {j | w.store.frames.size ≤ j ∧ j < w'.store.frames.size}
  have hstore : w.store.Confined G := w.store.reach_confined w.scope w'.store.frames.size
  have hw : w.Confined G := ⟨hstore, .inl .refl⟩
  have hnew : ∀ i, w.store.frames.size ≤ i → i < w'.store.frames.size → i ∈ G :=
    fun i hi hlt => .inr ⟨hi, hlt⟩
  have hold : ∀ i < w.store.frames.size, i ∉ w.store.reach w.scope → i ∉ G := by
    rintro i hlt hi (hr | ⟨hle, -⟩)
    · exact hi hr
    · exact absurd hle (Nat.not_le.mpr hlt)
  obtain ⟨ho, hw', hsame⟩ :
      o.Confined G ∧ w'.Confined G ∧ ∀ i ∉ G, w'.store.frames[i]? = w.store.frames[i]? := by
    rcases h with ⟨e, he⟩ | ⟨s, hs⟩
    · have hm : (Machine.evaluate e .outcome).Confined G := trivial
      exact Machine.run_confined hm hw hnew he
    · have hm : (Machine.execute s .outcome).Confined G := trivial
      exact Machine.run_confined hm hw hnew hs
  refine ⟨fun i hlt hi => hsame i (hold i hlt hi), ?_, ?_, ?_⟩
  · intro i j name line hr hj
    obtain ⟨v, hb⟩ := Store.binds_of_resolve? hr
    obtain ⟨f, hf, -⟩ := hb.frame
    have hjG := hold j (Array.getElem?_eq_some_iff.mp hf).1 hj
    simp only [Store.get, hr, Store.resolve?_of_frame_eq hstore hsame hjG hr, Option.bind_some,
      hsame j hjG]
  · exact fun j hj => hw'.store.reach hw.scope hj
  · exact fun f hf j hj => hw'.store.reach (ho.home hf) hj

/-- Two counters of one maker in the frames 1 and 2, of which the global frame holds the first. -/
def twoCounters : World :=
  { store :=
      { frames :=
          #[⟨none, [("bump", .closure
              ⟨"bump", [], [.expression (.assign "n" (.literal (.bool true)) 1)], 1, 0⟩)]⟩,
            ⟨some 0, [("n", .nil)]⟩, ⟨some 0, [("n", .nil)]⟩]
        nextIdentity := 2 }
    scope := 0
    output := .empty }

/-- The frame of the second counter cannot be reached from the global frame. -/
theorem twoCounters_reach : 2 ∉ twoCounters.store.reach 0 := by
  have hs : twoCounters.store.Confined {0, 1} := by
    rintro i f (rfl | rfl) hf
    · cases Option.some.inj hf
      exact ⟨nofun, fun b hb => by cases List.mem_singleton.mp hb; exact .inr rfl⟩
    · cases Option.some.inj hf
      exact ⟨fun j hj => .inl (Option.some.inj hj).symm,
        fun b hb => by cases List.mem_singleton.mp hb; trivial⟩
  intro h
  rcases hs.reach (.inl rfl) h with h | h <;> cases h

/-- Calling the first counter changes its own variable, and not that of the second. -/
theorem run_effects_within_reach_counters :
    ∃ w', twoCounters.evaluate 30 (.call (.lookup "bump" 1) [] 1) = some (.value .nil, w') ∧
      w'.store.get 1 "n" 1 = .ok (.bool true) ∧
      w'.store.get 2 "n" 1 = twoCounters.store.get 2 "n" 1 := by
  have h : ∃ w', twoCounters.evaluate 30 (.call (.lookup "bump" 1) [] 1) =
      some (.value .nil, w') ∧ w'.store.get 1 "n" 1 = .ok (.bool true) :=
    ⟨_, by with_unfolding_all rfl, by with_unfolding_all rfl⟩
  obtain ⟨w', hrun, hone⟩ := h
  have hr : twoCounters.store.resolve? "n" 2 = some 2 := by with_unfolding_all rfl
  exact ⟨w', hrun, hone,
    (run_effects_within_reach (.inl ⟨_, hrun⟩)).2.1 2 2 "n" 1 hr twoCounters_reach⟩

end ClosureLang
