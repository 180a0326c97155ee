import ClosureLang.Proofs.Evaluation.Binding
import ClosureLang.Proofs.Frames.Confinement

namespace ClosureLang

variable {G : Set FrameId}

namespace Store

theorem define_frames {s : Store} {i j : FrameId} {name : String} {v : Value} :
    (s.define i name v).frames[j]? =
      if i = j then s.frames[j]?.map (·.define name v) else s.frames[j]? :=
  Array.getElem?_modify

@[simp]
theorem define_size {s : Store} {i : FrameId} {name : String} {v : Value} :
    (s.define i name v).frames.size = s.frames.size :=
  Array.size_modify

theorem push_frames {s : Store} {enclosing : Option FrameId} {bindings : List (String × Value)}
    {j : FrameId} :
    (s.push enclosing bindings).frames[j]? =
      if j = s.frames.size then some ⟨enclosing, bindings⟩ else s.frames[j]? :=
  Array.getElem?_push

@[simp]
theorem push_size {s : Store} {enclosing : Option FrameId} {bindings : List (String × Value)} :
    (s.push enclosing bindings).frames.size = s.frames.size + 1 :=
  Array.size_push _

theorem Confined.define {s : Store} {i : FrameId} {name : String} {v : Value} (hs : s.Confined G)
    (hv : v.Confined G) : (s.define i name v).Confined G := by
  intro j f hj hf
  rw [define_frames] at hf
  split at hf
  next =>
    obtain ⟨old, ho, rfl⟩ := Option.map_eq_some_iff.mp hf
    have hc := hs j old hj ho
    exact ⟨hc.enclosing, Frame.bind_confined hv hc.bindings⟩
  next => exact hs j f hj hf

theorem Confined.push {s : Store} {enclosing : FrameId} {bindings : List (String × Value)}
    (hs : s.Confined G) (he : enclosing ∈ G) (hb : ∀ b ∈ bindings, b.2.Confined G) :
    (s.push (some enclosing) bindings).Confined G := by
  intro j f hj hf
  rw [push_frames] at hf
  split at hf
  next =>
    cases Option.some.inj hf
    exact ⟨fun k hk => Option.some.inj hk ▸ he, hb⟩
  next => exact hs j f hj hf

theorem Ordered.define {s : Store} {i : FrameId} {name : String} {v : Value} (hs : s.Ordered) :
    (s.define i name v).Ordered := by
  intro j f k hf hk
  rw [define_frames] at hf
  split at hf
  next =>
    obtain ⟨old, ho, rfl⟩ := Option.map_eq_some_iff.mp hf
    exact hs j old k ho hk
  next => exact hs j f k hf hk

theorem Ordered.push {s : Store} {enclosing : FrameId} {bindings : List (String × Value)}
    (hs : s.Ordered) (he : enclosing < s.frames.size) :
    (s.push (some enclosing) bindings).Ordered := by
  intro j f k hf hk
  rw [push_frames] at hf
  split at hf
  next hj =>
    cases Option.some.inj hf
    cases Option.some.inj hk
    exact hj ▸ he
  next => exact hs j f k hf hk

end Store

namespace World

theorem Change.size_le {w w' : World} (h : w.Change G w') :
    w.store.frames.size ≤ w'.store.frames.size := by
  cases h with
  | push => simp [World.push]
  | bindAt | declare => simp [World.bindAt, World.declare, Store.declare]
  | same | within | println => exact le_rfl

/-- Frames that cannot be got at stay as they are. -/
theorem Change.frame_eq {w w' : World} (h : w.Change G w') (hw : w.Confined G)
    (hnew : ∀ i, w.store.frames.size ≤ i → i < w'.store.frames.size → i ∈ G)
    {i : FrameId} (hi : i ∉ G) : w'.store.frames[i]? = w.store.frames[i]? := by
  cases h with
  | same | within | println => rfl
  | bindAt hj hv =>
    refine Store.define_frames.trans (if_neg ?_)
    rintro rfl
    exact hi hj
  | declare =>
    refine Store.define_frames.trans (if_neg ?_)
    rintro rfl
    exact hi hw.scope
  | push he hb =>
    refine Store.push_frames.trans (if_neg ?_)
    rintro rfl
    exact hi (hnew _ le_rfl (by simp [World.push]))

/-- A change within a confining set leaves the world confined, if the new frames are in the set. -/
theorem Change.confined {w w' : World} (h : w.Change G w') (hw : w.Confined G)
    (hnew : ∀ i, w.store.frames.size ≤ i → i < w'.store.frames.size → i ∈ G) :
    w'.Confined G := by
  cases h with
  | same => exact hw
  | within hs => exact ⟨hw.store, hs⟩
  | println => exact ⟨hw.store, hw.scope⟩
  | bindAt hj hv => exact ⟨hw.store.define hv, hw.scope⟩
  | declare =>
    refine ⟨?_, hw.scope⟩
    have hs : Store.Confined G { w.store with nextIdentity := w.store.nextIdentity + 1 } := hw.store
    exact hs.define hw.scope
  | push he hb =>
    exact ⟨hw.store.push he hb, hnew _ le_rfl (by simp [World.push])⟩

theorem Change.ordered {w w' : World} (h : w.Change G w') (ordered : w.store.Ordered)
    (hG : ∀ i ∈ G, i < w.store.frames.size) : w'.store.Ordered := by
  cases h with
  | same | within | println => exact ordered
  | bindAt hj hv => exact ordered.define
  | declare =>
    have hs : Store.Ordered { w.store with nextIdentity := w.store.nextIdentity + 1 } := ordered
    exact hs.define
  | push he hb => exact ordered.push (hG _ he)

end World

end ClosureLang
