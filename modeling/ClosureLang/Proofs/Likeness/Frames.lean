import ClosureLang.Proofs.Frames.Grounded
import ClosureLang.Proofs.Likeness.Values

namespace ClosureLang

/-- The same names, with values that are alike. -/
def Frame.BindingsLike (L : Likeness) (p : Pairing) :
    List (String × Value) → List (String × Value) → Prop :=
  List.Forall₂ fun b b' => b.1 = b'.1 ∧ b.2.Like L p b'.2

structure Frame.Like (L : Likeness) (p : Pairing) (f f' : Frame) : Prop where
  enclosing : Option.Rel p.twin f.enclosing f'.enclosing
  bindings : Frame.BindingsLike L p f.bindings f'.bindings

/-- The stores are alike along the pairing: every frame is spare or stands for a frame of the other
store, in the order of creation, and every frame of the other store has one that stands for it. -/
structure Store.Like (L : Likeness) (p : Pairing) (s s' : Store) : Prop where
  identity : s.nextIdentity = s'.nextIdentity
  ordered : s.Ordered
  ordered' : s'.Ordered
  exist : ∀ {i j : FrameId}, p.twin i j → i < s.frames.size ∧ j < s'.frames.size
  order : ∀ {i i' j j' : FrameId}, p.Core i j → p.Core i' j' → (i < i' ↔ j < j')
  total : ∀ i < s.frames.size, (∃ k, (i, k) ∈ p.spare) ∨ ∃ j, p.Core i j
  onto : ∀ j < s'.frames.size, ∃ i, p.Core i j
  frame : ∀ {i j : FrameId}, p.Core i j →
    ∃ f f', s.frames[i]? = some f ∧ s'.frames[j]? = some f' ∧ f.Like L p f'
  spare : ∀ {i k : FrameId}, (i, k) ∈ p.spare →
    s.frames[i]? = some ⟨some k, []⟩ ∧ ∀ j, p.twin i j → p.twin k j
  distinct : (p.spare.map Prod.fst).Nodup

variable {L : Likeness} {p : Pairing}

namespace Frame

theorem bind_like {name : String} {v v' : Value} (hv : v.Like L p v')
    {bs bs' : List (String × Value)} (h : BindingsLike L p bs bs') :
    BindingsLike L p (bind name v bs) (bind name v' bs') := by
  induction h with
  | nil => exact .cons ⟨rfl, hv⟩ .nil
  | @cons b b' bs bs' hb hbs ih =>
    obtain ⟨n, u⟩ := b
    obtain ⟨n', u'⟩ := b'
    obtain ⟨rfl, hu⟩ := hb
    by_cases hn : n = name
    · simp only [bind, if_pos hn]
      exact .cons ⟨rfl, hv⟩ hbs
    · simp only [bind, if_neg hn]
      exact .cons ⟨rfl, hu⟩ ih

theorem bindAll_like (params : List String) {args args' : List Value}
    (ha : List.Forall₂ (Value.Like L p) args args') :
    BindingsLike L p (bindAll params args) (bindAll params args') := by
  have go : ∀ (params : List String) (bs bs' : List (String × Value)), BindingsLike L p bs bs' →
      BindingsLike L p ((params.zip args).foldl (fun bs b => bind b.1 b.2 bs) bs)
        ((params.zip args').foldl (fun bs b => bind b.1 b.2 bs) bs') := by
    induction ha with
    | nil => simp
    | cons hv _ ih =>
      intro params bs bs' hbs
      cases params with
      | nil => exact hbs
      | cons name params => exact ih params _ _ (bind_like hv hbs)
  exact go params [] [] .nil

theorem BindingsLike.lookup {bs bs' : List (String × Value)} (h : BindingsLike L p bs bs')
    (name : String) : Option.Rel (Value.Like L p) (bs.lookup name) (bs'.lookup name) := by
  induction h with
  | nil => exact .none
  | @cons b b' bs bs' hb _ ih =>
    obtain ⟨n, u⟩ := b
    obtain ⟨n', u'⟩ := b'
    obtain ⟨rfl, hu⟩ := hb
    simp only [List.lookup_cons]
    cases name == n with
    | true => exact .some hu
    | false => exact ih

theorem BindingsLike.closure_left {bs bs' : List (String × Value)} (h : BindingsLike L p bs bs')
    {name : String} {c : Closure} (hc : (name, .closure c) ∈ bs) :
    ∃ c' : Closure, c.Like L p c' := by
  induction h with
  | nil => simp at hc
  | @cons b b' _ _ hb _ ih =>
    obtain ⟨n', v'⟩ := b'
    rcases List.mem_cons.mp hc with rfl | hc
    · obtain ⟨-, hv⟩ := hb
      cases hv with
      | closure h => exact ⟨_, h⟩
    · exact ih hc

theorem BindingsLike.closure_right {bs bs' : List (String × Value)} (h : BindingsLike L p bs bs')
    {name : String} {c' : Closure} (hc : (name, .closure c') ∈ bs') :
    ∃ c : Closure, c.Like L p c' := by
  induction h with
  | nil => simp at hc
  | @cons b b' _ _ hb _ ih =>
    obtain ⟨n, v⟩ := b
    rcases List.mem_cons.mp hc with rfl | hc
    · obtain ⟨-, hv⟩ := hb
      cases hv with
      | closure h => exact ⟨_, h⟩
    · exact ih hc

theorem Like.declares {f f' : Frame} (h : f.Like L p f') (name : String) :
    f.declares name = f'.declares name := by
  have hv := h.bindings.lookup name
  rw [Frame.declares_eq_isSome, Frame.declares_eq_isSome]
  unfold Frame.value?
  generalize f.bindings.lookup name = v at hv ⊢
  generalize f'.bindings.lookup name = v' at hv ⊢
  cases hv with
  | none => rfl
  | some _ => rfl

theorem BindingsLike.extend {q : Pairing} (hq : p.Keeps q) {bs bs' : List (String × Value)}
    (h : BindingsLike L p bs bs') : BindingsLike L q bs bs' :=
  h.imp fun _ _ hb => ⟨hb.1, hb.2.extend hq⟩

theorem Like.extend {q : Pairing} (hq : p.Keeps q) {f f' : Frame} (h : f.Like L p f') :
    f.Like L q f' := by
  obtain ⟨enclosing, bs⟩ := f
  obtain ⟨enclosing', bs'⟩ := f'
  obtain ⟨he, hb⟩ := h
  refine ⟨?_, hb.extend hq⟩
  cases he with
  | none => exact .none
  | some ht => exact .some (hq ht)

end Frame

namespace Store.Like

variable {s s' : Store} {i j : FrameId} {name : String}

/-- A core frame stands for one frame only, and the other way round. -/
theorem eq_iff (h : s.Like L p s') {i' j' : FrameId} (hc : p.Core i j) (hc' : p.Core i' j') :
    i = i' ↔ j = j' := by
  have hne : i ≠ i' ↔ j ≠ j' := by
    rw [ne_iff_lt_or_gt, ne_iff_lt_or_gt, h.order hc hc', h.order hc' hc]
  exact not_iff_not.mp hne

/-- A name is found from two frames that stand for each other in frames that stand for each other
alone. -/
theorem resolve? (h : s.Like L p s') (ht : p.twin i j) (name : String) :
    Option.Rel p.Core (s.resolve? name i) (s'.resolve? name j) := by
  induction i using Nat.strongRecOn generalizing j with
  | ind i ih =>
    by_cases hi : ∃ k, (i, k) ∈ p.spare
    · -- a spare frame has no names, and the frame around it stands for the same frame
      obtain ⟨k, hi⟩ := hi
      obtain ⟨hk, hkj⟩ := h.spare hi
      have hlt : k < i := h.ordered i _ k hk rfl
      rw [Store.resolve?]
      simp only [hk, Frame.declares, List.any_nil, hlt, Bool.false_eq_true, ↓reduceIte]
      exact ih k hlt (hkj j ht)
    · have hc : p.Core i j := ⟨ht, not_exists.mp hi⟩
      obtain ⟨f, f', hf, hf', hl⟩ := h.frame hc
      have ho := h.ordered i f
      have ho' := h.ordered' j f'
      have he := hl.enclosing
      rw [Store.resolve?, Store.resolve?]
      simp only [hf, hf', hl.declares name]
      cases hd : f'.declares name with
      | true => exact .some hc
      | false =>
        generalize f.enclosing = e at he ho
        generalize f'.enclosing = e' at he ho'
        cases he with
        | none => exact .none
        | @some k k' hk =>
          have hlt := ho k hf rfl
          have hlt' := ho' k' hf' rfl
          simp only [hlt, hlt', Bool.false_eq_true, ↓reduceIte]
          exact ih k hlt hk

/-- A name that is read from two frames that stand for each other gives values or faults that are
alike. -/
theorem get (h : s.Like L p s') (ht : p.twin i j) {l l' : Nat} (hl : L.line l l') :
    L.Result (Value.Like L p) (s.get i name l) (s'.get j name l') := by
  have hr := h.resolve? ht name
  unfold Store.get
  generalize s.resolve? name i = r at hr
  generalize s'.resolve? name j = r' at hr
  cases hr with
  | none => exact .error ⟨hl, rfl⟩
  | some hc =>
    obtain ⟨f, f', hf, hf', hfl⟩ := h.frame hc
    have hv := hfl.bindings.lookup name
    simp only [Option.bind_some, hf, hf', Frame.value?]
    generalize f.bindings.lookup name = v at hv
    generalize f'.bindings.lookup name = v' at hv
    cases hv with
    | none => exact .error ⟨hl, rfl⟩
    | some hv => exact .ok hv

/-- A name that is defined in two frames that stand for each other alone keeps the stores alike. -/
theorem define (h : s.Like L p s') (hc : p.Core i j) {v v' : Value} (hv : v.Like L p v') :
    (s.define i name v).Like L p (s'.define j name v') where
  identity := h.identity
  ordered := h.ordered.define
  ordered' := h.ordered'.define
  exist ht := by simpa using h.exist ht
  order := h.order
  total k hk := h.total k (by simpa using hk)
  onto k hk := h.onto k (by simpa using hk)
  frame {a b} hab := by
    obtain ⟨f, f', hf, hf', hl⟩ := h.frame hab
    have heq := h.eq_iff hc hab
    by_cases hi : i = a
    · refine ⟨f.define name v, f'.define name v', ?_, ?_, hl.enclosing,
        Frame.bind_like hv hl.bindings⟩
      · rw [define_frames, if_pos hi, hf]
        rfl
      · rw [define_frames, if_pos (heq.mp hi), hf']
        rfl
    · refine ⟨f, f', ?_, ?_, hl⟩
      · rw [define_frames, if_neg hi, hf]
      · rw [define_frames, if_neg (mt heq.mpr hi), hf']
  spare {a k} ha := by
    obtain ⟨hk, htwin⟩ := h.spare ha
    have hne : i ≠ a := by
      rintro rfl
      exact hc.2 k ha
    exact ⟨by rw [define_frames, if_neg hne, hk], htwin⟩
  distinct := h.distinct

end Store.Like

namespace Pairing

/-- The pairing with a new frame on each side. -/
def pair (p : Pairing) (i j : FrameId) : Pairing :=
  { p with twin := fun a b => p.twin a b ∨ (a = i ∧ b = j) }

/-- The pairing with a new frame on the first side only, inside frame `o`, for frame `j`. -/
def skip (p : Pairing) (i o j : FrameId) : Pairing :=
  ⟨fun a b => p.twin a b ∨ (a = i ∧ b = j), (i, o) :: p.spare⟩

theorem extends_pair (p : Pairing) (i j : FrameId) : p.Extends (p.pair i j) :=
  ⟨fun _ _ => .inl, rfl⟩

end Pairing

namespace Store.Like

variable {s s' : Store} {i j : FrameId}

theorem spare_lt (h : s.Like L p s') {a k : FrameId} (ha : (a, k) ∈ p.spare) :
    a < s.frames.size :=
  (Array.getElem?_eq_some_iff.mp (h.spare ha).1).1

theorem not_spare_size (h : s.Like L p s') (k : FrameId) : (s.frames.size, k) ∉ p.spare :=
  fun hs => lt_irrefl _ (h.spare_lt hs)

/-- Frames that are created on both sides stand for each other. -/
theorem push (h : s.Like L p s') (ht : p.twin i j) {bs bs' : List (String × Value)}
    (hb : Frame.BindingsLike L p bs bs') :
    (s.push (some i) bs).Like L (p.pair s.frames.size s'.frames.size) (s'.push (some j) bs') := by
  have hq := p.extends_pair s.frames.size s'.frames.size
  obtain ⟨hi, hj⟩ := h.exist ht
  have hcore : ∀ {a b}, (p.pair s.frames.size s'.frames.size).Core a b →
      p.Core a b ∨ (a = s.frames.size ∧ b = s'.frames.size) := by
    rintro a b ⟨hab | hab, hs⟩
    · exact .inl ⟨hab, hs⟩
    · exact .inr hab
  have hnew : (p.pair s.frames.size s'.frames.size).Core s.frames.size s'.frames.size :=
    ⟨.inr ⟨rfl, rfl⟩, h.not_spare_size⟩
  refine
    { identity := h.identity
      ordered := h.ordered.push hi
      ordered' := h.ordered'.push hj
      exist := ?exist, order := ?order, total := ?total, onto := ?onto, frame := ?frame
      spare := ?spare
      distinct := h.distinct }
  case exist =>
    rintro a b (hab | ⟨rfl, rfl⟩)
    · obtain ⟨ha, hb⟩ := h.exist hab
      exact ⟨by simpa using Nat.lt_succ_of_lt ha, by simpa using Nat.lt_succ_of_lt hb⟩
    · simp
  case order =>
    intro a a' b b' hab hab'
    rcases hcore hab with hab | ⟨rfl, rfl⟩
    · rcases hcore hab' with hab' | ⟨rfl, rfl⟩
      · exact h.order hab hab'
      · exact iff_of_true (h.exist hab.1).1 (h.exist hab.1).2
    · rcases hcore hab' with hab' | ⟨rfl, rfl⟩
      · exact iff_of_false (h.exist hab'.1).1.not_gt (h.exist hab'.1).2.not_gt
      · simp
  case total =>
    intro a ha
    rw [push_size] at ha
    rcases Nat.lt_succ_iff_lt_or_eq.mp ha with ha | rfl
    · exact (h.total a ha).imp_right fun ⟨b, hab⟩ => ⟨b, hq.core hab⟩
    · exact .inr ⟨_, hnew⟩
  case onto =>
    intro b hb
    rw [push_size] at hb
    rcases Nat.lt_succ_iff_lt_or_eq.mp hb with hb | rfl
    · obtain ⟨a, hab⟩ := h.onto b hb
      exact ⟨a, hq.core hab⟩
    · exact ⟨_, hnew⟩
  case frame =>
    intro a b hab
    rcases hcore hab with hab | ⟨rfl, rfl⟩
    · obtain ⟨f, f', hf, hf', hl⟩ := h.frame hab
      obtain ⟨ha, hb⟩ := h.exist hab.1
      refine ⟨f, f', ?_, ?_, hl.extend hq.keeps⟩
      · rw [push_frames, if_neg (Nat.ne_of_lt ha), hf]
      · rw [push_frames, if_neg (Nat.ne_of_lt hb), hf']
    · refine ⟨_, _, by rw [push_frames, if_pos rfl], by rw [push_frames, if_pos rfl], ?_⟩
      exact ⟨.some (hq.keeps ht), hb.extend hq.keeps⟩
  case spare =>
    intro a k ha
    obtain ⟨hk, htwin⟩ := h.spare ha
    have hlt := h.spare_lt ha
    refine ⟨by rw [push_frames, if_neg (Nat.ne_of_lt hlt), hk], ?_⟩
    rintro b (hab | ⟨rfl, -⟩)
    · exact .inl (htwin b hab)
    · exact absurd hlt (lt_irrefl _)

/-- A new spare frame leaves the frames that stand for each other alone as they are. -/
theorem core_skip (h : s.Like L p s') {o : FrameId} {a b : FrameId} :
    (p.skip s.frames.size o j).Core a b ↔ p.Core a b := by
  constructor
  · rintro ⟨hab | ⟨rfl, -⟩, hs⟩
    · exact ⟨hab, fun k ha => hs k (List.mem_cons_of_mem _ ha)⟩
    · exact absurd (List.mem_cons_self ..) (hs o)
  · rintro ⟨hab, hs⟩
    refine ⟨.inl hab, fun k ha => ?_⟩
    rcases List.mem_cons.mp ha with heq | ha
    · cases heq
      exact lt_irrefl _ (h.exist hab).1
    · exact hs k ha

/-- An empty frame that is created on the first side only is spare. -/
theorem skip (h : s.Like L p s') (ht : p.twin i j) :
    (s.push (some i) []).Like L (p.skip s.frames.size i j) s' := by
  obtain ⟨hi, hj⟩ := h.exist ht
  have hkeeps : p.Keeps (p.skip s.frames.size i j) := fun _ _ => .inl
  refine
    { identity := h.identity
      ordered := h.ordered.push hi
      ordered' := h.ordered'
      exist := ?exist, order := ?order, total := ?total, onto := ?onto, frame := ?frame
      spare := ?spare
      distinct := ?distinct }
  case exist =>
    rintro a b (hab | ⟨rfl, rfl⟩)
    · obtain ⟨ha, hb⟩ := h.exist hab
      exact ⟨by simpa using Nat.lt_succ_of_lt ha, hb⟩
    · exact ⟨by simp, hj⟩
  case order =>
    intro a a' b b' hab hab'
    exact h.order (h.core_skip.mp hab) (h.core_skip.mp hab')
  case total =>
    intro a ha
    rw [push_size] at ha
    rcases Nat.lt_succ_iff_lt_or_eq.mp ha with ha | rfl
    · rcases h.total a ha with ⟨k, hk⟩ | ⟨b, hab⟩
      · exact .inl ⟨k, List.mem_cons_of_mem _ hk⟩
      · exact .inr ⟨b, h.core_skip.mpr hab⟩
    · exact .inl ⟨i, List.mem_cons_self ..⟩
  case onto =>
    intro b hb
    obtain ⟨a, hab⟩ := h.onto b hb
    exact ⟨a, h.core_skip.mpr hab⟩
  case frame =>
    intro a b hab
    obtain ⟨f, f', hf, hf', hl⟩ := h.frame (h.core_skip.mp hab)
    have ha := (h.exist (h.core_skip.mp hab).1).1
    exact ⟨f, f', by rw [push_frames, if_neg (Nat.ne_of_lt ha), hf], hf', hl.extend hkeeps⟩
  case spare =>
    intro a k ha
    rcases List.mem_cons.mp ha with heq | ha
    · cases heq
      refine ⟨by rw [push_frames, if_pos rfl], ?_⟩
      rintro b (hab | ⟨-, rfl⟩)
      · exact absurd (h.exist hab).1 (lt_irrefl _)
      · exact .inl ht
    · obtain ⟨hk, htwin⟩ := h.spare ha
      have hlt := h.spare_lt ha
      refine ⟨by rw [push_frames, if_neg (Nat.ne_of_lt hlt), hk], ?_⟩
      rintro b (hab | ⟨rfl, -⟩)
      · exact .inl (htwin b hab)
      · exact absurd hlt (lt_irrefl _)
  case distinct =>
    refine List.nodup_cons.mpr ⟨?_, h.distinct⟩
    intro hm
    obtain ⟨⟨a, k⟩, ha, rfl⟩ := List.mem_map.mp hm
    exact h.not_spare_size k ha

theorem takeIdentity (h : s.Like L p s') :
    Store.Like L p { s with nextIdentity := s.nextIdentity + 1 }
      { s' with nextIdentity := s'.nextIdentity + 1 } where
  identity := congrArg (· + 1) h.identity
  ordered := h.ordered
  ordered' := h.ordered'
  exist := h.exist
  order := h.order
  total := h.total
  onto := h.onto
  frame := h.frame
  spare := h.spare
  distinct := h.distinct

theorem homes (h : s.Like L p s') {k : FrameId} {f : Frame} {name : String} {c : Closure}
    (hf : s.frames[k]? = some f) (hb : (name, .closure c) ∈ f.bindings) :
    c.home < s.frames.size := by
  rcases h.total k (Array.getElem?_eq_some_iff.mp hf).1 with ⟨o, ho⟩ | ⟨l, hkl⟩
  · cases hf.symm.trans (h.spare ho).1
    simp at hb
  · obtain ⟨g, g', hg, -, hl⟩ := h.frame hkl
    cases hf.symm.trans hg
    obtain ⟨c', hc⟩ := hl.bindings.closure_left hb
    exact (h.exist hc.home).1

theorem homes' (h : s.Like L p s') {k : FrameId} {f : Frame} {name : String} {c : Closure}
    (hf : s'.frames[k]? = some f) (hb : (name, .closure c) ∈ f.bindings) :
    c.home < s'.frames.size := by
  obtain ⟨l, hlk⟩ := h.onto k (Array.getElem?_eq_some_iff.mp hf).1
  obtain ⟨g, g', -, hg', hl⟩ := h.frame hlk
  cases hf.symm.trans hg'
  obtain ⟨c', hc⟩ := hl.bindings.closure_right hb
  exact (h.exist hc.home).2

end Store.Like

/-- Every frame below `n` stands for itself. -/
def Pairing.identity (n : Nat) : Pairing :=
  ⟨fun i j => i = j ∧ i < n, []⟩

/-- The worlds are alike along the pairing, and their current frames stand for each other. -/
structure World.Like (L : Likeness) (p : Pairing) (w w' : World) : Prop where
  store : w.store.Like L p w'.store
  scope : p.twin w.scope w'.scope
  output : L.output w.output w'.output

namespace World.Like

variable {w w' : World}

theorem within (h : w.Like L p w') {i j : FrameId} (ht : p.twin i j) :
    (w.within i).Like L p (w'.within j) :=
  ⟨h.store, ht, h.output⟩

theorem println (h : w.Like L p w') (line : String) :
    (w.println line).Like L p (w'.println line) :=
  ⟨h.store, h.scope, L.println h.output line⟩

theorem bindAt (h : w.Like L p w') {i j : FrameId} (hc : p.Core i j) (name : String)
    {v v' : Value} (hv : v.Like L p v') : (w.bindAt i name v).Like L p (w'.bindAt j name v') :=
  ⟨h.store.define hc hv, h.scope, h.output⟩

theorem push (h : w.Like L p w') {i j : FrameId} (ht : p.twin i j)
    {bs bs' : List (String × Value)} (hb : Frame.BindingsLike L p bs bs') :
    (w.push i bs).Like L (p.pair w.store.frames.size w'.store.frames.size) (w'.push j bs') :=
  ⟨h.store.push ht hb, .inr ⟨rfl, rfl⟩, h.output⟩

theorem declare (h : w.Like L p w') (hc : p.Core w.scope w'.scope) (name : String)
    (params : List String) {body body' : List Stmt}
    (hb : List.Forall₂ (Stmt.Like L) body body') :
    (w.declare name params body).Like L p (w'.declare name params body') :=
  ⟨h.store.takeIdentity.define hc (.closure ⟨rfl, rfl, hb, hc.1, h.store.identity⟩), h.scope,
    h.output⟩

theorem wellFormed (h : w.Like L p w') : w.WellFormed :=
  ⟨(h.store.exist h.scope).1, h.store.ordered, fun _ _ _ _ hf hb => h.store.homes hf hb⟩

theorem wellFormed' (h : w.Like L p w') : w'.WellFormed :=
  ⟨(h.store.exist h.scope).2, h.store.ordered', fun _ _ _ _ hf hb => h.store.homes' hf hb⟩

end World.Like

/-- A well-formed world is like itself. -/
theorem World.WellFormed.like {w : World} (h : w.WellFormed) (hr : L.Reflexive)
    (ho : L.output w.output w.output) : w.Like L (.identity w.store.frames.size) w := by
  have hvalue : ∀ v : Value, v.Confined w.existing →
      v.Like L (.identity w.store.frames.size) v := by
    intro v hv
    cases v with
    | closure f => exact .closure ⟨rfl, rfl, hr.stmts f.body, ⟨rfl, hv⟩, rfl⟩
    | number x => exact .number (hr.number x)
    | nil => exact .nil
    | bool b => exact .bool
    | text s => exact .text
    | native f => exact .native
  refine ⟨?_, ⟨rfl, h.scope⟩, ho⟩
  have hcore : ∀ i < w.store.frames.size, (Pairing.identity w.store.frames.size).Core i i :=
    fun i hi => ⟨⟨rfl, hi⟩, fun _ => List.not_mem_nil⟩
  refine
    { identity := rfl
      ordered := h.ordered
      ordered' := h.ordered
      exist := ?exist, order := ?order, total := ?total, onto := ?onto, frame := ?frame
      spare := nofun
      distinct := List.nodup_nil }
  case exist =>
    rintro i j ⟨rfl, hi⟩
    exact ⟨hi, hi⟩
  case order =>
    rintro i i' j j' ⟨⟨rfl, -⟩, -⟩ ⟨⟨rfl, -⟩, -⟩
    exact Iff.rfl
  case total =>
    intro i hi
    exact .inr ⟨i, hcore i hi⟩
  case onto =>
    intro i hi
    exact ⟨i, hcore i hi⟩
  case frame =>
    rintro i j ⟨⟨rfl, hi⟩, -⟩
    have hf : w.store.frames[i]? = some w.store.frames[i] := Array.getElem?_eq_getElem hi
    obtain ⟨he, hb⟩ := h.confined.store i _ hi hf
    refine ⟨_, _, hf, hf, ?_, List.forall₂_same.mpr fun b hm => ⟨rfl, hvalue b.2 (hb b hm)⟩⟩
    cases hj : w.store.frames[i].enclosing with
    | none => exact .none
    | some j => exact .some ⟨rfl, he j hj⟩

end ClosureLang
