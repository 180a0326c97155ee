import ClosureLang.Proofs.Evaluation.Operators
import ClosureLang.Machine

namespace ClosureLang

/-- The frame in which a function value was declared is in `G`. -/
def Value.Confined (G : Set FrameId) : Value → Prop
  | .closure f => f.home ∈ G
  | _ => True

def Value.AllConfined (G : Set FrameId) (vs : List Value) : Prop :=
  ∀ v ∈ vs, v.Confined G

mutual

/-- Every frame that is kept for after a value is in `G`. -/
def Awaiting.Confined (G : Set FrameId) : Awaiting → Prop
  | .outcome => True
  | .operand _ _ next | .left _ _ _ next | .decision _ _ next | .assigned _ _ next
  | .callee _ _ next => next.Confined G
  | .right left _ _ next => left.Confined G ∧ next.Confined G
  | .argument callee done _ _ next =>
    callee.Confined G ∧ Value.AllConfined G done ∧ next.Confined G
  | .discarded next | .printed next | .initial _ next | .thenBranch _ next
  | .branches _ _ next | .condition _ _ next | .given next => next.Confined G

/-- Every frame that is kept for after a statement is in `G`. -/
def Remaining.Confined (G : Set FrameId) : Remaining → Prop
  | .outcome => True
  | .statements _ next | .round _ _ next => next.Confined G
  | .blockEnd scope next => scope ∈ G ∧ next.Confined G
  | .callEnd scope next => scope ∈ G ∧ next.Confined G

end

def Signal.Confined (G : Set FrameId) : Signal → Prop
  | .normal => True
  | .returned v => v.Confined G

/-- The value with which a run ended is confined. -/
def Outcome.Confined (G : Set FrameId) : Outcome → Prop
  | .value v => v.Confined G
  | .signal s => s.Confined G
  | .fault _ => True

/-- Every frame that the machine mentions is in `G`. -/
def Machine.Confined (G : Set FrameId) : Machine → Prop
  | .evaluate _ next => next.Confined G
  | .arguments callee done _ _ next =>
    callee.Confined G ∧ Value.AllConfined G done ∧ next.Confined G
  | .apply callee args _ next => callee.Confined G ∧ Value.AllConfined G args ∧ next.Confined G
  | .give v next => v.Confined G ∧ next.Confined G
  | .raise _ next => next.Confined G
  | .execute _ next => next.Confined G
  | .sequence _ next => next.Confined G
  | .finish s next => s.Confined G ∧ next.Confined G
  | .abort _ next => next.Confined G

def Progress.Confined (G : Set FrameId) : Progress → Prop
  | .ended o => o.Confined G
  | .going m => m.Confined G

/-- A frame leads to frames of `G` only. -/
structure Frame.Confined (G : Set FrameId) (f : Frame) : Prop where
  enclosing : ∀ j, f.enclosing = some j → j ∈ G
  bindings : ∀ b ∈ f.bindings, b.2.Confined G

/-- The frames of `G` lead to frames of `G` only. -/
def Store.Confined (G : Set FrameId) (s : Store) : Prop :=
  ∀ (i : FrameId) (f : Frame), i ∈ G → s.frames[i]? = some f → f.Confined G

/-- The current frame is in `G`, and from there one gets nowhere else. -/
structure World.Confined (G : Set FrameId) (w : World) : Prop where
  store : w.store.Confined G
  scope : w.scope ∈ G

/-- What one step can do to a world, with frames and values of `G` alone. -/
inductive World.Change (G : Set FrameId) (w : World) : World → Prop where
  | same : Change G w w
  | within {scope : FrameId} (h : scope ∈ G) : Change G w (w.within scope)
  | println {line : String} : Change G w (w.println line)
  | bindAt {i : FrameId} {name : String} {v : Value} (hi : i ∈ G) (hv : v.Confined G) :
      Change G w (w.bindAt i name v)
  | declare {name : String} {params : List String} {body : List Stmt} :
      Change G w (w.declare name params body)
  | push {enclosing : FrameId} {bindings : List (String × Value)} (he : enclosing ∈ G)
      (hb : ∀ b ∈ bindings, b.2.Confined G) : Change G w (w.push enclosing bindings)

variable {G : Set FrameId}

section Monotone

variable {G' : Set FrameId} (hG : G ⊆ G')

include hG

theorem Value.Confined.mono {v : Value} (h : v.Confined G) : v.Confined G' := by
  cases v with
  | closure f => exact hG h
  | nil | bool | number | text | native => trivial

theorem Value.AllConfined.mono {vs : List Value} (h : Value.AllConfined G vs) :
    Value.AllConfined G' vs :=
  fun v hv => (h v hv).mono hG

mutual

theorem Awaiting.confined_mono : (a : Awaiting) → a.Confined G → a.Confined G'
  | .outcome, _ => trivial
  | .operand _ _ next, h | .left _ _ _ next, h | .decision _ _ next, h | .assigned _ _ next, h
  | .callee _ _ next, h => next.confined_mono h
  | .right _ _ _ next, h => ⟨h.1.mono hG, next.confined_mono h.2⟩
  | .argument _ _ _ _ next, h => ⟨h.1.mono hG, h.2.1.mono hG, next.confined_mono h.2.2⟩
  | .discarded next, h | .printed next, h | .initial _ next, h | .thenBranch _ next, h
  | .branches _ _ next, h | .condition _ _ next, h | .given next, h => next.confined_mono h

theorem Remaining.confined_mono : (r : Remaining) → r.Confined G → r.Confined G'
  | .outcome, _ => trivial
  | .statements _ next, h | .round _ _ next, h => next.confined_mono h
  | .blockEnd _ next, h => ⟨hG h.1, next.confined_mono h.2⟩
  | .callEnd _ next, h => ⟨hG h.1, next.confined_mono h.2⟩

end

theorem Signal.Confined.mono {s : Signal} (h : s.Confined G) : s.Confined G' := by
  cases s with
  | normal => trivial
  | returned v => exact Value.Confined.mono hG h

theorem Machine.Confined.mono {m : Machine} (h : m.Confined G) : m.Confined G' := by
  cases m with
  | evaluate e next => exact next.confined_mono hG h
  | raise f next => exact next.confined_mono hG h
  | execute s next => exact next.confined_mono hG h
  | sequence body next => exact next.confined_mono hG h
  | abort f next => exact next.confined_mono hG h
  | arguments callee done rest line next =>
    exact ⟨h.1.mono hG, h.2.1.mono hG, next.confined_mono hG h.2.2⟩
  | apply callee args line next =>
    exact ⟨h.1.mono hG, h.2.1.mono hG, next.confined_mono hG h.2.2⟩
  | give v next => exact ⟨h.1.mono hG, next.confined_mono hG h.2⟩
  | finish s next => exact ⟨h.1.mono hG, next.confined_mono hG h.2⟩

end Monotone

theorem Value.confined_univ (v : Value) : v.Confined Set.univ := by
  cases v <;> trivial

mutual

theorem Awaiting.confined_univ : (a : Awaiting) → a.Confined Set.univ
  | .outcome => trivial
  | .operand _ _ next | .left _ _ _ next | .decision _ _ next | .assigned _ _ next
  | .callee _ _ next => next.confined_univ
  | .right left _ _ next => ⟨left.confined_univ, next.confined_univ⟩
  | .argument callee _ _ _ next =>
    ⟨callee.confined_univ, fun v _ => v.confined_univ, next.confined_univ⟩
  | .discarded next | .printed next | .initial _ next | .thenBranch _ next | .branches _ _ next
  | .condition _ _ next | .given next => next.confined_univ

theorem Remaining.confined_univ : (r : Remaining) → r.Confined Set.univ
  | .outcome => trivial
  | .statements _ next | .round _ _ next => next.confined_univ
  | .blockEnd _ next => ⟨trivial, next.confined_univ⟩
  | .callEnd _ next => ⟨trivial, next.confined_univ⟩

end

theorem Signal.confined_univ (s : Signal) : s.Confined Set.univ := by
  cases s with
  | normal => trivial
  | returned v => exact v.confined_univ

theorem Machine.confined_univ (m : Machine) : m.Confined Set.univ := by
  cases m with
  | evaluate _ next | raise _ next => exact next.confined_univ
  | execute _ next | sequence _ next | abort _ next => exact next.confined_univ
  | arguments callee done rest line next =>
    exact ⟨callee.confined_univ, fun v _ => v.confined_univ, next.confined_univ⟩
  | apply callee args line next =>
    exact ⟨callee.confined_univ, fun v _ => v.confined_univ, next.confined_univ⟩
  | give v next => exact ⟨v.confined_univ, next.confined_univ⟩
  | finish s next => exact ⟨s.confined_univ, next.confined_univ⟩

theorem World.confined_univ (w : World) : w.Confined Set.univ :=
  ⟨fun _ _ _ _ => ⟨fun _ _ => trivial, fun b _ => b.2.confined_univ⟩, trivial⟩

theorem Value.confined_of_ne_closure {v : Value} (h : ∀ f, v ≠ .closure f) : v.Confined G := by
  cases v with
  | closure f => exact absurd rfl (h f)
  | nil | bool | number | text | native => trivial

theorem Frame.confined_value? {f : Frame} {name : String} {v : Value} (hf : f.Confined G)
    (h : f.value? name = some v) : v.Confined G := by
  obtain ⟨before, after, he, _⟩ := List.lookup_eq_some_iff.mp h
  exact hf.bindings (name, v) (by simp [he])

theorem Frame.mem_bind {name : String} {v : Value} {bindings : List (String × Value)}
    {b : String × Value} (h : b ∈ Frame.bind name v bindings) : b.2 = v ∨ b ∈ bindings := by
  induction bindings with
  | nil =>
    cases List.mem_singleton.mp h
    exact .inl rfl
  | cons first rest ih =>
    obtain ⟨n, u⟩ := first
    unfold Frame.bind at h
    split at h
    next =>
      rcases List.mem_cons.mp h with rfl | h
      · exact .inl rfl
      · exact .inr (List.mem_cons_of_mem _ h)
    next =>
      rcases List.mem_cons.mp h with rfl | h
      · exact .inr (List.mem_cons_self ..)
      · exact (ih h).imp_right (List.mem_cons_of_mem _)

theorem Frame.mem_bindAll {params : List String} {args : List Value} {b : String × Value}
    (h : b ∈ Frame.bindAll params args) : b.2 ∈ args := by
  have go : ∀ (pairs bindings : List (String × Value)),
      b ∈ pairs.foldl (fun bs p => Frame.bind p.1 p.2 bs) bindings →
        (∃ p ∈ pairs, b.2 = p.2) ∨ b ∈ bindings := by
    intro pairs
    induction pairs with
    | nil => exact fun _ hb => .inr hb
    | cons p rest ih =>
      intro bindings hb
      rcases ih _ hb with ⟨q, hq, he⟩ | hb
      · exact .inl ⟨q, List.mem_cons_of_mem _ hq, he⟩
      · exact (Frame.mem_bind hb).imp_left fun he => ⟨p, List.mem_cons_self .., he⟩
  rcases go _ _ h with ⟨p, hp, he⟩ | h
  · exact he ▸ (List.of_mem_zip hp).2
  · simp at h

theorem Frame.bind_confined {name : String} {v : Value} {bindings : List (String × Value)}
    (hv : v.Confined G) (hb : ∀ b ∈ bindings, b.2.Confined G) :
    ∀ b ∈ Frame.bind name v bindings, b.2.Confined G := by
  intro b hm
  rcases Frame.mem_bind hm with he | hm
  · exact he ▸ hv
  · exact hb b hm

theorem Frame.bindAll_confined (params : List String) {args : List Value}
    (ha : Value.AllConfined G args) : ∀ b ∈ Frame.bindAll params args, b.2.Confined G :=
  fun b hb => ha b.2 (Frame.mem_bindAll hb)

/-- A name that is looked up from a confining set is found in the set. -/
theorem Store.Confined.resolve? {s : Store} {name : String} {i j : FrameId} (hs : s.Confined G)
    (hi : i ∈ G) (h : s.resolve? name i = some j) : j ∈ G := by
  induction i using Nat.strongRecOn with
  | ind i ih =>
    rw [Store.resolve?] at h
    split at h
    next => simp at h
    next f hf =>
      split at h
      next => exact Option.some.inj h ▸ hi
      next =>
        split at h
        next k he =>
          split at h
          next hlt => exact ih k hlt ((hs i f hi hf).enclosing k he) h
          next => simp at h
        next => simp at h

theorem Store.Confined.get {s : Store} {name : String} {i : FrameId} {line : Nat} {v : Value}
    (hs : s.Confined G) (hi : i ∈ G) (h : s.get i name line = .ok v) : v.Confined G := by
  unfold Store.get at h
  split at h
  next u hu =>
    cases Except.ok.inj h
    obtain ⟨j, hj, hu⟩ := Option.bind_eq_some_iff.mp hu
    obtain ⟨f, hf, hu⟩ := Option.bind_eq_some_iff.mp hu
    exact Frame.confined_value? (hs j f (hs.resolve? hi hj) hf) hu
  next => simp at h

end ClosureLang
