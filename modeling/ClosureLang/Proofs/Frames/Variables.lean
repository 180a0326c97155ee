import ClosureLang.Proofs.Frames.Names
import ClosureLang.Proofs.Frames.Sessions

namespace ClosureLang

/-- The stores that come of creating frames, on their own or inside another frame, of declaring
names and of giving declared names new values. -/
inductive Store.Built : Store → Prop where
  | empty {nextIdentity : Nat} : Built ⟨#[], nextIdentity⟩
  | root {s : Store} (h : Built s) : Built (s.push none [])
  | child {s : Store} {i : FrameId} (h : Built s) (hi : i < s.frames.size) :
      Built (s.push (some i) [])
  | define {s : Store} {i : FrameId} {name : String} {v : Value} (h : Built s)
      (hi : i < s.frames.size) : Built (s.define i name v)
  | assign {s s' : Store} {i : FrameId} {name : String} {v : Value} {line : Nat} (h : Built s)
      (ha : s.assign i name v line = .ok s') : Built s'

/-- The value that frame `i` itself has for a name. -/
def Store.value? (s : Store) (i : FrameId) (name : String) : Option Value :=
  s.frames[i]?.bind (·.value? name)

/-- Frame `i` lies outwards of frame `j`, or is it, and no frame on the way declares the name. -/
def Store.Sees (s : Store) (name : String) (j i : FrameId) : Prop :=
  ∃ near far, s.Chain j (near ++ i :: far) ∧ ∀ k ∈ near, s.declares k name = false

/-- What can be seen of the variables of a store, and of its changes, from all of its frames. -/
structure Store.Lawful (s : Store) : Prop where
  chain : ∀ i < s.frames.size, ∃! c, s.Chain i c
  /-- A name belongs to the nearest frame that declares it. -/
  resolve : ∀ name i j, s.resolve? name i = some j ↔ s.Sees name i j ∧ s.declares j name
  get_found : ∀ i j name line, s.resolve? name i = some j →
    ∃ v, s.value? j name = some v ∧ s.get i name line = .ok v
  get_fails : ∀ i name line f, s.get i name line = .error f ↔
    s.resolve? name i = none ∧ f = .undefinedVariable name line
  assign_fails : ∀ i name v line f, s.assign i name v line = .error f ↔
    s.resolve? name i = none ∧ f = .undefinedVariable name line
  /-- An assignment shows from the frames for which the name belongs to the same frame. -/
  assign_shows : ∀ i name v line s', s.assign i name v line = .ok s' → ∀ j line',
    s.resolve? name j = s.resolve? name i → s'.get j name line' = .ok v
  assign_hides : ∀ i name v line s', s.assign i name v line = .ok s' → ∀ j other line',
    (other = name → s.resolve? name j ≠ s.resolve? name i) →
      s'.get j other line' = s.get j other line'
  assign_names : ∀ i name v line s', s.assign i name v line = .ok s' → ∀ j other,
    s'.declares j other = s.declares j other
  /-- A declaration shows from the frames that see the frame, whether it had the name or not. -/
  define_shows : ∀ i name v j line, s.Sees name j i → (s.define i name v).get j name line = .ok v
  define_hides : ∀ i name v j other line, (other = name → ¬ s.Sees name j i) →
    (s.define i name v).get j other line = s.get j other line

theorem Frame.value?_define (f : Frame) (n name : String) (v : Value) :
    (f.define n v).value? name = if name = n then some v else f.value? name := by
  unfold Frame.value? Frame.define
  induction f.bindings with
  | nil =>
    by_cases h : name = n
    · simp [Frame.bind, h]
    · simp [Frame.bind, List.lookup_cons, beq_false_of_ne h, h]
  | cons b rest ih =>
    obtain ⟨m, u⟩ := b
    by_cases hm : m = n
    · subst hm
      by_cases h : name = m
      · simp [Frame.bind, h]
      · simp [Frame.bind, List.lookup_cons, beq_false_of_ne h, h]
    · simp only [Frame.bind, if_neg hm, List.lookup_cons, ih]
      by_cases h : name = m
      · simp [h, hm]
      · simp only [beq_false_of_ne h]

namespace Store

variable {s s' : Store} {i j : FrameId} {name other : String} {v : Value} {line : Nat}

theorem value?_define_self (hi : i < s.frames.size) :
    (s.define i name v).value? i name = some v := by
  have hf : s.frames[i]? = some s.frames[i] := Array.getElem?_eq_getElem hi
  rw [Store.value?, define_frames, if_pos rfl, hf]
  simp [Frame.value?_define]

theorem value?_define_other (h : i = j → other ≠ name) :
    (s.define i name v).value? j other = s.value? j other := by
  rw [Store.value?, Store.value?, define_frames]
  split
  next hij =>
    cases s.frames[j]? with
    | none => rfl
    | some f => simp [Frame.value?_define, h hij]
  next => rfl

theorem value?_eq_none_iff : s.value? i name = none ↔ s.declares i name = false := by
  rw [declares_eq_isSome, Option.isSome_eq_false_iff, Option.isNone_iff_eq_none]
  rfl

theorem Chain.lt_size {c : List FrameId} {k : FrameId} (h : s.Chain j c) (hk : k ∈ c) :
    k < s.frames.size := by
  induction h with
  | root hf he =>
    cases List.mem_singleton.mp hk
    exact (Array.getElem?_eq_some_iff.mp hf).1
  | inner hf he hc ih =>
    rcases List.mem_cons.mp hk with rfl | hk
    · exact (Array.getElem?_eq_some_iff.mp hf).1
    · exact ih hk

theorem Ordered.root (ordered : s.Ordered) : (s.push none []).Ordered := by
  intro j f k hf hk
  rw [push_frames] at hf
  split at hf
  next =>
    cases Option.some.inj hf
    simp at hk
  next => exact ordered j f k hf hk

theorem assign_eq_ok (h : s.assign i name v line = .ok s') :
    ∃ k, s.resolve? name i = some k ∧ s' = s.define k name v := by
  unfold Store.assign at h
  split at h
  next k hk => exact ⟨k, hk, (Except.ok.inj h).symm⟩
  next => simp at h

theorem Built.ordered (h : s.Built) : s.Ordered := by
  induction h with
  | empty => exact fun i f j hf => by simp at hf
  | root _ ih => exact ih.root
  | child _ hi ih => exact ih.push hi
  | define _ _ ih => exact ih.define
  | assign _ ha ih =>
    obtain ⟨k, -, rfl⟩ := assign_eq_ok ha
    exact ih.define

theorem get_of_no_frame (hj : ¬ j < s.frames.size) :
    s.get j name line = .error (.undefinedVariable name line) := by
  have hr : s.resolve? name j = none :=
    Option.eq_none_iff_forall_ne_some.mpr fun k hk => hj (lt_size_of_resolve? hk)
  rw [Store.get, hr]
  rfl

theorem findSome?_congr {f g : FrameId → Option Value} {c : List FrameId}
    (h : ∀ k ∈ c, f k = g k) : c.findSome? f = c.findSome? g := by
  induction c with
  | nil => rfl
  | cons k c ih =>
    obtain ⟨hk, hc⟩ := List.forall_mem_cons.mp h
    rw [List.findSome?_cons, List.findSome?_cons, hk, ih hc]

section Ordered

variable (ordered : s.Ordered)
include ordered

/-- A name is found in the frame that declares it and is seen for it. -/
theorem resolve?_eq_some_iff :
    s.resolve? name i = some j ↔ s.Sees name i j ∧ s.declares j name := by
  constructor
  · intro h
    obtain ⟨c, hc⟩ := ordered.exists_chain (lt_size_of_resolve? h)
    rw [hc.resolve? ordered, List.find?_eq_some_iff_append] at h
    obtain ⟨hd, near, far, rfl, hnear⟩ := h
    exact ⟨⟨near, far, hc, fun k hk => by simpa using hnear k hk⟩, hd⟩
  · rintro ⟨⟨near, far, hc, hnear⟩, hd⟩
    rw [hc.resolve? ordered, List.find?_eq_some_iff_append]
    exact ⟨hd, near, far, rfl, fun k hk => by simp [hnear k hk]⟩

theorem Chain.get_value? {c : List FrameId} (hc : s.Chain i c) :
    s.get i name line = (c.findSome? fun k => s.value? k name).elim
      (.error (.undefinedVariable name line)) .ok :=
  hc.get ordered name line

/-- Frames are on a chain in the order of their age, so the way to a frame does not pass it. -/
theorem Chain.ne_of_near {near far : List FrameId} {k : FrameId}
    (hc : s.Chain j (near ++ i :: far)) (hk : k ∈ near) : i ≠ k := by
  have hlt := (List.pairwise_append.mp (hc.decreasing ordered)).2.2 k hk i List.mem_cons_self
  exact Nat.ne_of_lt hlt

/-- What is written in a frame shows from where the frame is seen. -/
theorem get_define_of_sees (h : s.Sees name j i) :
    (s.define i name v).get j name line = .ok v := by
  obtain ⟨near, far, hc, hnear⟩ := h
  have hi : i < s.frames.size := hc.lt_size (by simp)
  have hnone : (near.findSome? fun k => (s.define i name v).value? k name) = none := by
    refine List.findSome?_eq_none_iff.mpr fun k hk => ?_
    rw [value?_define_other fun hik => absurd hik (hc.ne_of_near ordered hk)]
    exact value?_eq_none_iff.mpr (hnear k hk)
  have hfirst : ((near ++ i :: far).findSome? fun k => (s.define i name v).value? k name) =
      some v := by
    rw [List.findSome?_append, hnone, List.findSome?_cons, value?_define_self hi]
    rfl
  rw [(hc.grows (.define s i name v)).get_value? ordered.define, hfirst]
  rfl

theorem get_define_of_not_sees (h : other = name → ¬ s.Sees name j i) :
    (s.define i name v).get j other line = s.get j other line := by
  by_cases hj : j < s.frames.size
  case neg => rw [get_of_no_frame hj, get_of_no_frame (by rwa [define_size])]
  obtain ⟨c, hc⟩ := ordered.exists_chain hj
  suffices hfind : (c.findSome? fun k => (s.define i name v).value? k other) =
      c.findSome? fun k => s.value? k other by
    rw [(hc.grows (.define s i name v)).get_value? ordered.define, hfind, hc.get_value? ordered]
  by_cases hi : i ∈ c ∧ other = name
  · obtain ⟨hi, rfl⟩ := hi
    obtain ⟨near, far, rfl⟩ := List.append_of_mem hi
    -- the name is found before frame `i` is reached, and what is found there stays
    have hnear : (near.findSome? fun k => (s.define i other v).value? k other) =
        near.findSome? fun k => s.value? k other :=
      findSome?_congr fun k hk =>
        value?_define_other fun hik => absurd hik (hc.ne_of_near ordered hk)
    rw [List.findSome?_append, List.findSome?_append, hnear]
    cases hn : near.findSome? fun k => s.value? k other with
    | some u => rfl
    | none =>
      rw [List.findSome?_eq_none_iff] at hn
      exact absurd ⟨near, far, hc, fun k hk => value?_eq_none_iff.mp (hn k hk)⟩ (h rfl)
  · refine findSome?_congr fun k hk => value?_define_other ?_
    rintro rfl he
    exact hi ⟨hk, he⟩

theorem get_of_resolve? (h : s.resolve? name i = some j) (line : Nat) :
    ∃ v, s.value? j name = some v ∧ s.get i name line = .ok v := by
  obtain ⟨v, hb⟩ := binds_of_resolve? h
  obtain ⟨f, hf, hv⟩ := hb.frame
  exact ⟨v, by simp [Store.value?, hf, hv], get_of_binds ordered hb⟩

/-- A store whose frames belong to older frames obeys the laws of variables. -/
theorem Ordered.lawful : s.Lawful where
  chain i hi := by
    obtain ⟨c, hc⟩ := ordered.exists_chain hi
    exact ⟨c, hc, fun c' hc' => hc'.unique hc⟩
  resolve name i j := resolve?_eq_some_iff ordered
  get_found i j name line h := get_of_resolve? ordered h line
  get_fails i name line f := by
    cases hr : s.resolve? name i with
    | none => simp [Store.get, hr, eq_comm]
    | some j =>
      obtain ⟨v, -, hv⟩ := get_of_resolve? ordered hr line
      simp [hv]
  assign_fails i name v line f := by
    cases hr : s.resolve? name i <;> simp [Store.assign, hr, eq_comm]
  assign_shows i name v line s' ha j line' hj := by
    obtain ⟨k, hk, rfl⟩ := assign_eq_ok ha
    exact get_define_of_sees ordered ((resolve?_eq_some_iff ordered).mp (hj.trans hk)).1
  assign_hides i name v line s' ha j other line' hj := by
    obtain ⟨k, hk, rfl⟩ := assign_eq_ok ha
    refine get_define_of_not_sees ordered fun he hs => ?_
    have hd := ((resolve?_eq_some_iff ordered).mp hk).2
    exact hj he (((resolve?_eq_some_iff ordered).mpr ⟨hs, hd⟩).trans hk.symm)
  assign_names i name v line s' ha j other := by
    obtain ⟨k, hk, rfl⟩ := assign_eq_ok ha
    exact SameNames.redefine (D := ∅) (declares_of_resolve? hk) v j (Set.notMem_empty j) other
  define_shows i name v j line h := get_define_of_sees ordered h
  define_hides i name v j other line h := get_define_of_not_sees ordered h

end Ordered

end Store

/-- Whatever was created, declared and assigned before: a name belongs to the nearest frame that
declares it, its value is found there, and a change of it shows from the frames for which it belongs
to the same frame. So it is at every moment of a session, where an assignment that fails changes
nothing. -/
theorem store_lawful :
    (∀ s : Store, s.Built → s.Lawful) ∧
      (∀ σ : Session, σ.Reachable → σ.world.store.Lawful) ∧
      ∀ (v : Value) (name : String) (line : Nat) (next : Awaiting) (w : World),
        Machine.step (.give v (.assigned name line next)) w =
          match w.store.assign w.scope name v line with
          | .ok store => (.going (.give v next), { w with store })
          | .error f => (.going (.raise f next), w) := by
  refine ⟨fun s hs => hs.ordered.lawful, fun σ hσ => hσ.sound.ordered.lawful, ?_⟩
  intro v name line next w
  unfold Store.assign
  cases hr : w.store.resolve? name w.scope with
  | some i => exact Machine.step_assigned hr v line next
  | none => exact Machine.step_assigned_undefined hr v line next

/-- Two frames inside the first one, of which one has a variable `a` of its own. -/
def Store.siblings : Store :=
  ((((Store.empty.push none []).define 0 "a" .nil).push (some 0) []).push (some 0) []).define 1 "a"
    (.bool false)

/-- What is assigned from the one shows from the first frame and not from the other. -/
theorem store_lawful_siblings :
    Store.siblings.Lawful ∧ World.initial.store.Lawful ∧
      ∃ s, Store.siblings.assign 2 "a" (.bool true) 1 = .ok s ∧
        s.get 2 "a" 1 = .ok (.bool true) ∧ s.get 0 "a" 1 = .ok (.bool true) ∧
        s.get 1 "a" 1 = .ok (.bool false) := by
  have hbuilt : Store.siblings.Built :=
    .define (.child (.child (.define (.root .empty) (by decide)) (by decide)) (by decide))
      (by decide)
  have hlawful := store_lawful.1 _ hbuilt
  have hsession := store_lawful.2.1 (.idle .initial) .refl
  have h0 : Store.siblings.resolve? "a" 0 = some 0 := by cbv
  have h1 : Store.siblings.resolve? "a" 1 = some 1 := by cbv
  have h2 : Store.siblings.resolve? "a" 2 = some 0 := by cbv
  have ha : Store.siblings.assign 2 "a" (.bool true) 1 =
      .ok (Store.siblings.define 0 "a" (.bool true)) := by
    rw [Store.assign, h2]
  refine ⟨hlawful, hsession, _, ha, ?_, ?_, ?_⟩
  · exact hlawful.assign_shows _ _ _ _ _ ha 2 1 rfl
  · exact hlawful.assign_shows _ _ _ _ _ ha 0 1 (h0.trans h2.symm)
  · rw [hlawful.assign_hides _ _ _ _ _ ha 1 "a" 1 (by simp [h1, h2])]
    cbv

end ClosureLang
