import ClosureLang.Proofs.Frames.Change

namespace ClosureLang

/-- The frames from frame `i` outwards to a frame that belongs to none. -/
inductive Store.Chain (s : Store) : FrameId → List FrameId → Prop where
  | root {i : FrameId} {f : Frame} (hf : s.frames[i]? = some f) (he : f.enclosing = none) :
      Chain s i [i]
  | inner {i j : FrameId} {f : Frame} {c : List FrameId} (hf : s.frames[i]? = some f)
      (he : f.enclosing = some j) (hc : Chain s j c) : Chain s i (i :: c)

/-- Whether frame `i` itself declares a name. -/
def Store.declares (s : Store) (i : FrameId) (name : String) : Bool :=
  s.frames[i]?.any (·.declares name)

/-- Only the first frame belongs to none. -/
def Store.Rooted (s : Store) : Prop :=
  ∀ (i : FrameId) (f : Frame), s.frames[i]? = some f → f.enclosing = none → i = 0

/-- The frames of `s` are still there, where they were, with every name they had. -/
def Store.Grows (s s' : Store) : Prop :=
  ∀ (i : FrameId) (f : Frame), s.frames[i]? = some f →
    ∃ f', s'.frames[i]? = some f' ∧ f'.enclosing = f.enclosing ∧
      ∀ name, f.declares name → f'.declares name

theorem Frame.declares_define (f : Frame) (n name : String) (v : Value) :
    (f.define n v).declares name = (n == name || f.declares name) := by
  unfold Frame.declares Frame.define
  induction f.bindings with
  | nil => simp [Frame.bind]
  | cons b rest ih =>
    obtain ⟨m, u⟩ := b
    by_cases h : m = n
    · simp [Frame.bind, h]
    · simp only [Frame.bind, if_neg h, List.any_cons]
      rw [ih, Bool.or_left_comm]

namespace Store

theorem Chain.unique {s : Store} {i : FrameId} {c c' : List FrameId} (h : s.Chain i c)
    (h' : s.Chain i c') : c = c' := by
  induction h generalizing c' with
  | root hf he =>
    cases h' with
    | root => rfl
    | inner hf' he' =>
      cases hf.symm.trans hf'
      simp [he] at he'
  | inner hf he hc ih =>
    cases h' with
    | root hf' he' =>
      cases hf.symm.trans hf'
      simp [he] at he'
    | inner hf' he' hc' =>
      cases hf.symm.trans hf'
      cases he.symm.trans he'
      rw [ih hc']

theorem Ordered.exists_chain {s : Store} (ordered : s.Ordered) {i : FrameId}
    (hi : i < s.frames.size) : ∃ c, s.Chain i c := by
  induction i using Nat.strongRecOn with
  | ind i ih =>
    have hf : s.frames[i]? = some s.frames[i] := Array.getElem?_eq_getElem hi
    cases he : s.frames[i].enclosing with
    | none => exact ⟨_, .root hf he⟩
    | some j =>
      have hji := ordered i _ j hf he
      obtain ⟨c, hc⟩ := ih j hji (hji.trans hi)
      exact ⟨_, .inner hf he hc⟩

theorem Chain.le {s : Store} {i j : FrameId} {c : List FrameId} (ordered : s.Ordered)
    (h : s.Chain i c) (hj : j ∈ c) : j ≤ i := by
  induction h with
  | root hf he => exact le_of_eq (List.mem_singleton.mp hj)
  | inner hf he hc ih =>
    have hlt := ordered _ _ _ hf he
    rcases List.mem_cons.mp hj with rfl | hj
    · exact le_rfl
    · exact (ih hj).trans hlt.le

/-- A chain goes to older frames only, so no frame is on it twice. -/
theorem Chain.decreasing {s : Store} {i : FrameId} {c : List FrameId} (ordered : s.Ordered)
    (h : s.Chain i c) : c.Pairwise (· > ·) := by
  induction h with
  | root => simp
  | inner hf he hc ih =>
    refine List.pairwise_cons.mpr ⟨?_, ih⟩
    intro k hk
    have hlt := ordered _ _ _ hf he
    exact Nat.lt_of_le_of_lt (hc.le ordered hk) hlt

/-- Every chain ends in the global frame. -/
theorem Chain.getLast? {s : Store} {i : FrameId} {c : List FrameId} (rooted : s.Rooted)
    (h : s.Chain i c) : c.getLast? = some 0 := by
  induction h with
  | root hf he => simp [rooted _ _ hf he]
  | inner hf he hc ih =>
    rw [List.getLast?_cons, ih]
    rfl

theorem declares_of_frame {s : Store} {i : FrameId} {f : Frame} (hf : s.frames[i]? = some f)
    (name : String) : s.declares i name = f.declares name := by
  simp [Store.declares, hf]

theorem declares_push {s : Store} {i : FrameId} (hi : i < s.frames.size)
    (enclosing : Option FrameId) (bindings : List (String × Value)) (name : String) :
    (s.push enclosing bindings).declares i name = s.declares i name := by
  unfold Store.declares
  rw [push_frames, if_neg (Nat.ne_of_lt hi)]

/-- Looking a name up visits the frames of the chain in order, up to the first that declares it. -/
theorem Chain.resolve? {s : Store} {i : FrameId} {c : List FrameId} (ordered : s.Ordered)
    (h : s.Chain i c) (name : String) :
    s.resolve? name i = c.find? fun j => s.declares j name := by
  induction h with
  | @root i f hf he =>
    rw [Store.resolve?, List.find?_singleton, declares_of_frame hf]
    simp [hf, he]
  | @inner i j f c hf he hc ih =>
    have hlt := ordered _ _ _ hf he
    rw [Store.resolve?, List.find?_cons, declares_of_frame hf, ← ih]
    cases hd : f.declares name with
    | true => simp [hf, hd]
    | false => simp [hf, hd, he, hlt]

theorem declares_eq_isSome (s : Store) (i : FrameId) (name : String) :
    s.declares i name = (s.frames[i]?.bind (·.value? name)).isSome := by
  cases hf : s.frames[i]? with
  | none => simp [Store.declares, hf]
  | some f => simp [declares_of_frame hf, Frame.declares_eq_isSome]

theorem find?_bind (value? : FrameId → Option Value) (c : List FrameId) :
    (c.find? fun j => (value? j).isSome).bind value? = c.findSome? value? := by
  induction c with
  | nil => rfl
  | cons j c ih =>
    rw [List.find?_cons, List.findSome?_cons]
    cases hj : value? j with
    | none => simp [ih]
    | some v => simp [hj]

/-- The value of a name is the first that a frame of the chain has for it. -/
theorem Chain.get {s : Store} {i : FrameId} {c : List FrameId} (ordered : s.Ordered)
    (h : s.Chain i c) (name : String) (line : Nat) :
    s.get i name line = (c.findSome? fun j => s.frames[j]?.bind (·.value? name)).elim
      (.error (.undefinedVariable name line)) .ok := by
  rw [Store.get, h.resolve? ordered]
  simp only [declares_eq_isSome, find?_bind]
  cases c.findSome? fun j => s.frames[j]?.bind (·.value? name) <;> rfl

/-- An assignment goes to the nearest frame along the chain that has the name, and fails if there is
none. -/
theorem Chain.assign {s : Store} {i : FrameId} {c : List FrameId} (ordered : s.Ordered)
    (h : s.Chain i c) (name : String) (v : Value) (line : Nat) :
    s.assign i name v line = (c.find? fun j => s.declares j name).elim
      (.error (.undefinedVariable name line)) fun j => .ok (s.define j name v) := by
  rw [Store.assign, h.resolve? ordered]
  cases c.find? fun j => s.declares j name <;> rfl

theorem Grows.refl (s : Store) : s.Grows s :=
  fun _ f hf => ⟨f, hf, rfl, fun _ h => h⟩

theorem Grows.trans {s t u : Store} (h : s.Grows t) (h' : t.Grows u) : s.Grows u := by
  intro i f hf
  obtain ⟨g, hg, hge, hgn⟩ := h i f hf
  obtain ⟨k, hk, hke, hkn⟩ := h' i g hg
  exact ⟨k, hk, hke.trans hge, fun name hn => hkn name (hgn name hn)⟩

theorem Grows.define (s : Store) (i : FrameId) (name : String) (v : Value) :
    s.Grows (s.define i name v) := by
  intro j f hf
  by_cases h : i = j
  · refine ⟨f.define name v, ?_, rfl, fun n hn => ?_⟩
    · rw [define_frames, if_pos h, hf]
      rfl
    · simp [Frame.declares_define, hn]
  · exact ⟨f, by rw [define_frames, if_neg h, hf], rfl, fun _ hn => hn⟩

theorem Grows.push (s : Store) (enclosing : Option FrameId) (bindings : List (String × Value)) :
    s.Grows (s.push enclosing bindings) := by
  intro j f hf
  have hj : j ≠ s.frames.size := Nat.ne_of_lt (Array.getElem?_eq_some_iff.mp hf).1
  exact ⟨f, by rw [push_frames, if_neg hj, hf], rfl, fun _ hn => hn⟩

/-- A store that grows keeps its chains. -/
theorem Chain.grows {s s' : Store} {i : FrameId} {c : List FrameId} (h : s.Chain i c)
    (hg : s.Grows s') : s'.Chain i c := by
  induction h with
  | root hf he =>
    obtain ⟨f', hf', he', -⟩ := hg _ _ hf
    exact .root hf' (he'.trans he)
  | inner hf he hc ih =>
    obtain ⟨f', hf', he', -⟩ := hg _ _ hf
    exact .inner hf' (he'.trans he) ih

theorem Grows.declares {s s' : Store} (hg : s.Grows s') {i : FrameId} {name : String}
    (h : s.declares i name) : s'.declares i name := by
  cases hf : s.frames[i]? with
  | none => simp [Store.declares, hf] at h
  | some f =>
    obtain ⟨f', hf', -, hn⟩ := hg i f hf
    rw [declares_of_frame hf] at h
    rw [declares_of_frame hf']
    exact hn name h

theorem lt_size_of_resolve? {s : Store} {name : String} {i j : FrameId}
    (h : s.resolve? name i = some j) : i < s.frames.size := by
  by_contra hi
  rw [Store.resolve?, Array.getElem?_eq_none (Nat.le_of_not_lt hi)] at h
  simp at h

/-- A name that is found from a frame is found from it for ever. -/
theorem Grows.resolve? {s s' : Store} (hg : s.Grows s') (ordered : s.Ordered)
    (ordered' : s'.Ordered) {i : FrameId} {name : String} (h : (s.resolve? name i).isSome) :
    (s'.resolve? name i).isSome := by
  obtain ⟨k, hk⟩ := Option.isSome_iff_exists.mp h
  obtain ⟨c, hc⟩ := ordered.exists_chain (lt_size_of_resolve? hk)
  rw [hc.resolve? ordered, List.find?_isSome] at h
  rw [(hc.grows hg).resolve? ordered', List.find?_isSome]
  obtain ⟨j, hj, hd⟩ := h
  exact ⟨j, hj, hg.declares hd⟩

theorem Rooted.define {s : Store} {i : FrameId} {name : String} {v : Value} (hs : s.Rooted) :
    (s.define i name v).Rooted := by
  intro j f hf he
  rw [define_frames] at hf
  split at hf
  next =>
    obtain ⟨old, ho, rfl⟩ := Option.map_eq_some_iff.mp hf
    exact hs j old ho he
  next => exact hs j f hf he

theorem Rooted.push {s : Store} {enclosing : FrameId} {bindings : List (String × Value)}
    (hs : s.Rooted) : (s.push (some enclosing) bindings).Rooted := by
  intro j f hf he
  rw [push_frames] at hf
  split at hf
  next =>
    cases Option.some.inj hf
    simp at he
  next => exact hs j f hf he

end Store

namespace World

variable {G : Set FrameId} {w w' : World}

/-- Whatever a machine does to a world, its store grows. -/
theorem Change.grows (h : w.Change G w') : w.store.Grows w'.store := by
  cases h with
  | same | within | println => exact .refl _
  | bindAt => exact .define _ _ _ _
  | declare => exact Store.Grows.define { w.store with nextIdentity := _ } _ _ _
  | push => exact .push _ _ _

theorem Change.rooted (h : w.Change G w') (hw : w.store.Rooted) : w'.store.Rooted := by
  cases h with
  | same | within | println => exact hw
  | bindAt => exact hw.define
  | declare =>
    have hs : Store.Rooted { w.store with nextIdentity := w.store.nextIdentity + 1 } := hw
    exact hs.define
  | push => exact hw.push

end World

end ClosureLang
