import ClosureLang.Store
import Mathlib

namespace ClosureLang

/-- The name `name`, seen from frame `i`, is the variable of frame `j` with the value `v`. -/
inductive Store.Binds (s : Store) (name : String) : FrameId → FrameId → Value → Prop where
  | here {i : FrameId} {f : Frame} {v : Value} (hf : s.frames[i]? = some f)
      (hv : f.value? name = some v) : Binds s name i i v
  | outward {i j k : FrameId} {f : Frame} {v : Value} (hf : s.frames[i]? = some f)
      (hv : f.value? name = none) (he : f.enclosing = some j) (hb : Binds s name j k v) :
      Binds s name i k v

/-- Every frame belongs to an older one. -/
def Store.Ordered (s : Store) : Prop :=
  ∀ (i : FrameId) (f : Frame) (j : FrameId), s.frames[i]? = some f → f.enclosing = some j → j < i

theorem Frame.declares_eq_isSome (f : Frame) (name : String) :
    f.declares name = (f.value? name).isSome := by
  unfold Frame.declares Frame.value?
  induction f.bindings with
  | nil => rfl
  | cons b rest ih =>
    obtain ⟨n, w⟩ := b
    by_cases h : n = name
    · subst h
      simp
    · have hn : (n == name) = false := by simpa using h
      have hne : (name == n) = false := by simpa using Ne.symm h
      simpa [List.lookup_cons, hn, hne] using ih

namespace Store

theorem binds_of_resolve? {s : Store} {name : String} {i j : FrameId}
    (h : s.resolve? name i = some j) : ∃ v, s.Binds name i j v := by
  induction i using Nat.strongRecOn with
  | ind i ih =>
    rw [resolve?] at h
    split at h
    next => simp at h
    next f hf =>
      split at h
      next hd =>
        cases Option.some.inj h
        rw [f.declares_eq_isSome] at hd
        obtain ⟨v, hv⟩ := Option.isSome_iff_exists.mp hd
        exact ⟨v, .here hf hv⟩
      next hd =>
        rw [f.declares_eq_isSome, Bool.not_eq_true, Option.isSome_eq_false_iff,
          Option.isNone_iff_eq_none] at hd
        split at h
        next k he =>
          split at h
          next hlt =>
            obtain ⟨v, hb⟩ := ih k hlt h
            exact ⟨v, .outward hf hd he hb⟩
          next => simp at h
        next => simp at h

theorem Binds.frame {s : Store} {name : String} {i j : FrameId} {v : Value}
    (h : s.Binds name i j v) : ∃ f, s.frames[j]? = some f ∧ f.value? name = some v := by
  induction h with
  | here hf hv => exact ⟨_, hf, hv⟩
  | outward _ _ _ _ ih => exact ih

theorem Binds.resolve? {s : Store} {name : String} {i j : FrameId} {v : Value}
    (ordered : s.Ordered) (h : s.Binds name i j v) : s.resolve? name i = some j := by
  induction h with
  | here hf hv =>
    rw [Store.resolve?]
    simp [hf, Frame.declares_eq_isSome, hv]
  | outward hf hv he hb ih =>
    rw [Store.resolve?]
    simp [hf, Frame.declares_eq_isSome, hv, he, ordered _ _ _ hf he, ih]

/-- A name is not found exactly if no frame outwards has a value for it. -/
theorem resolve?_eq_none_iff {s : Store} {name : String} {i : FrameId} (ordered : s.Ordered) :
    s.resolve? name i = none ↔ ∀ j v, ¬ s.Binds name i j v := by
  constructor
  · intro h j v hb
    simp [hb.resolve? ordered] at h
  · intro h
    cases hr : s.resolve? name i with
    | none => rfl
    | some j =>
      obtain ⟨v, hb⟩ := binds_of_resolve? hr
      exact absurd hb (h j v)

theorem get_of_binds {s : Store} {name : String} {i j line : Nat} {v : Value}
    (ordered : s.Ordered) (h : s.Binds name i j v) : s.get i name line = .ok v := by
  obtain ⟨f, hf, hv⟩ := h.frame
  simp [get, h.resolve? ordered, hf, hv]

/-- A name that is bound in no frame outwards is a fault. -/
theorem get_of_not_binds {s : Store} {name : String} {i line : Nat} (ordered : s.Ordered)
    (h : ∀ j v, ¬ s.Binds name i j v) :
    s.get i name line = .error (.undefinedVariable name line) := by
  simp [get, (resolve?_eq_none_iff ordered).mpr h]

end Store

end ClosureLang
