import ClosureLang.Proofs.Likeness.Machines

namespace ClosureLang

/-- Every frame stands for itself alone. -/
def Pairing.same : Pairing :=
  ⟨Eq, []⟩

theorem eq_of_rel {α : Type} {a b : Option α} (h : Option.Rel Eq a b) : a = b := by
  cases h with
  | none => rfl
  | some h => rw [h]

/-- The same frames with the same names, and values that are alike. -/
structure World.Mirrors (L : Likeness) (w w' : World) : Prop where
  frames : ∀ i : FrameId, Option.Rel (Frame.Like L .same) w.store.frames[i]? w'.store.frames[i]?
  identity : w.store.nextIdentity = w'.store.nextIdentity
  scope : w.scope = w'.scope
  output : L.output w.output w'.output

variable {L : Likeness}

namespace Store.Like

variable {q : Pairing} {s s' : Store}

theorem core_of_twin (hq : q.spare = []) {i j : FrameId} (h : q.twin i j) : q.Core i j :=
  ⟨h, by simp [hq]⟩

/-- Without spare frames, the frames that stand for each other are the same. -/
theorem eq_of_twin (h : s.Like L q s') (hq : q.spare = []) {i j : FrameId} (ht : q.twin i j) :
    i = j := by
  induction i using Nat.strongRecOn generalizing j with
  | ind i ih =>
    have hc := core_of_twin hq ht
    obtain ⟨hi, hj⟩ := h.exist ht
    rcases Nat.lt_trichotomy i j with hlt | heq | hlt
    · -- frame `i` of the second store belongs to a frame that is older than `i`
      obtain ⟨k, hk⟩ := h.onto i (hlt.trans hj)
      have hki : k < i := (h.order hk hc).mpr hlt
      exact absurd (ih k hki hk.1) (Nat.ne_of_lt hki)
    · exact heq
    · rcases h.total j (hlt.trans hi) with ⟨k, hk⟩ | ⟨k, hk⟩
      · simp [hq] at hk
      · cases ih j hlt hk.1
        exact (h.eq_iff hc hk).mpr rfl

theorem size_eq (h : s.Like L q s') (hq : q.spare = []) : s.frames.size = s'.frames.size := by
  refine Nat.le_antisymm (Nat.le_of_not_lt fun hlt => ?_) (Nat.le_of_not_lt fun hlt => ?_)
  · rcases h.total _ hlt with ⟨k, hk⟩ | ⟨k, hk⟩
    · simp [hq] at hk
    · cases h.eq_of_twin hq hk.1
      exact lt_irrefl _ (h.exist hk.1).2
  · obtain ⟨k, hk⟩ := h.onto _ hlt
    cases h.eq_of_twin hq hk.1
    exact lt_irrefl _ (h.exist hk.1).1

end Store.Like

namespace World

variable {q : Pairing} {w w' : World}

theorem Like.keeps_same (h : w.Like L q w') (hq : q.spare = []) : q.Keeps .same :=
  fun _ _ ht => h.store.eq_of_twin hq ht

/-- Worlds that are alike without spare frames mirror each other. -/
theorem Like.mirrors (h : w.Like L q w') (hq : q.spare = []) : w.Mirrors L w' where
  frames i := by
    have hsize := h.store.size_eq hq
    by_cases hi : i < w.store.frames.size
    · rcases h.store.total i hi with ⟨k, hk⟩ | ⟨j, hc⟩
      · simp [hq] at hk
      · cases h.store.eq_of_twin hq hc.1
        obtain ⟨f, f', hf, hf', hl⟩ := h.store.frame hc
        rw [hf, hf']
        exact .some (hl.extend (h.keeps_same hq))
    · rw [Array.getElem?_eq_none (Nat.le_of_not_lt hi),
        Array.getElem?_eq_none (hsize ▸ Nat.le_of_not_lt hi)]
      exact .none
  identity := h.store.identity
  scope := h.store.eq_of_twin hq h.scope
  output := h.output

theorem Mirrors.frame (h : w.Mirrors L w') {i : FrameId} {f : Frame}
    (hf : w.store.frames[i]? = some f) :
    ∃ f', w'.store.frames[i]? = some f' ∧ f.Like L .same f' := by
  have hi := h.frames i
  rw [hf] at hi
  generalize w'.store.frames[i]? = o at hi
  cases hi with
  | some hl => exact ⟨_, rfl, hl⟩

theorem Mirrors.lt_size_iff (h : w.Mirrors L w') {i : FrameId} :
    i < w.store.frames.size ↔ i < w'.store.frames.size := by
  have hi := h.frames i
  rw [← not_iff_not, Nat.not_lt, Nat.not_lt, ← Array.getElem?_eq_none_iff,
    ← Array.getElem?_eq_none_iff]
  generalize w.store.frames[i]? = o at hi
  generalize w'.store.frames[i]? = o' at hi
  cases hi <;> simp

theorem Mirrors.enclosing (h : w.Mirrors L w') {i : FrameId} {f' : Frame}
    (hf' : w'.store.frames[i]? = some f') :
    ∃ f, w.store.frames[i]? = some f ∧ f.enclosing = f'.enclosing := by
  have hi := h.frames i
  rw [hf'] at hi
  generalize w.store.frames[i]? = o at hi
  cases hi with
  | some hl =>
    obtain ⟨he, -⟩ := hl
    exact ⟨_, rfl, eq_of_rel he⟩

end World

/-- Values that exist in one of two worlds that mirror each other stay alike along the frames that
exist. -/
theorem Value.Like.existing {n : Nat} {v v' : Value} (h : v.Like L .same v')
    (hc : v.Confined {i | i < n}) : v.Like L (.identity n) v' := by
  cases h with
  | closure hf => exact .closure { hf with home := ⟨hf.home, hc⟩ }
  | nil => exact .nil
  | bool => exact .bool
  | number h => exact .number h
  | text => exact .text
  | native => exact .native

theorem Frame.BindingsLike.existing {n : Nat} {bs bs' : List (String × Value)}
    (h : Frame.BindingsLike L .same bs bs') (hc : ∀ b ∈ bs, b.2.Confined {i | i < n}) :
    Frame.BindingsLike L (.identity n) bs bs' := by
  induction h with
  | nil => exact .nil
  | cons hb _ ih =>
    obtain ⟨hfirst, hrest⟩ := List.forall_mem_cons.mp hc
    exact .cons ⟨hb.1, hb.2.existing hfirst⟩ (ih hrest)

/-- A well-formed world is like each world that it mirrors. -/
theorem World.Mirrors.like {w w' : World} (h : w.Mirrors L w') (hw : w.WellFormed) :
    w.Like L (.identity w.store.frames.size) w' := by
  have hcore : ∀ i < w.store.frames.size, (Pairing.identity w.store.frames.size).Core i i :=
    fun i hi => ⟨⟨rfl, hi⟩, fun _ => List.not_mem_nil⟩
  refine ⟨?_, ⟨h.scope, hw.scope⟩, h.output⟩
  refine
    { identity := h.identity
      ordered := hw.ordered
      ordered' := ?ordered', exist := ?exist, order := ?order, total := ?total, onto := ?onto
      frame := ?frame
      spare := nofun
      distinct := List.nodup_nil }
  case ordered' =>
    intro i f' j hf' hj
    obtain ⟨f, hf, he⟩ := h.enclosing hf'
    exact hw.ordered i f j hf (he.trans hj)
  case exist =>
    rintro i j ⟨rfl, hi⟩
    exact ⟨hi, h.lt_size_iff.mp hi⟩
  case order =>
    rintro i i' j j' ⟨⟨rfl, -⟩, -⟩ ⟨⟨rfl, -⟩, -⟩
    exact Iff.rfl
  case total => exact fun i hi => .inr ⟨i, hcore i hi⟩
  case onto => exact fun i hi => ⟨i, hcore i (h.lt_size_iff.mpr hi)⟩
  case frame =>
    rintro i j ⟨⟨rfl, hi⟩, -⟩
    have hf : w.store.frames[i]? = some w.store.frames[i] := Array.getElem?_eq_getElem hi
    obtain ⟨f', hf', hl⟩ := h.frame hf
    obtain ⟨he, hb⟩ := hw.confined.store i _ hi hf
    refine ⟨_, f', hf, hf', ?_, ?_⟩
    · have hen := hl.enclosing
      generalize w.store.frames[i].enclosing = e at he hen
      generalize f'.enclosing = e' at hen
      cases hen with
      | none => exact .none
      | some hk => exact .some ⟨hk, he _ rfl⟩
    · exact hl.bindings.existing hb

theorem Outcome.Like.extend {p q : Pairing} (hq : p.Keeps q) {o o' : Outcome}
    (h : o.Like L p o') : o.Like L q o' := by
  cases h with
  | value h => exact .value (h.extend hq)
  | fault h => exact .fault h
  | signal h =>
    cases h with
    | normal => exact .signal .normal
    | returned h => exact .signal (.returned (h.extend hq))

/-- Both runs end, alike and in worlds that mirror each other, or neither does. -/
def World.EndsMirrored (L : Likeness) :
    Option (Outcome × World) → Option (Outcome × World) → Prop :=
  Option.Rel fun r r' => r.1.Like L .same r'.1 ∧ r.2.WellFormed ∧ r.2.Mirrors L r'.2

namespace World

variable {w w' : World}

/-- Machines that are alike end alike in worlds that mirror each other, or neither ends. -/
theorem Mirrors.run (h : w.Mirrors L w') (hw : w.WellFormed) {m m' : Machine}
    (hm : m.Like L (.identity w.store.frames.size) w.scope w'.scope m') (n : Nat) :
    EndsMirrored L (m.run n w) (m'.run n w') := by
  rcases Machine.run_like hm (h.like hw) n with ⟨hn, hn'⟩ | ⟨q, o, o', u, u', hq, hr, hr', ho, hu⟩
  · rw [hn, hn']
    exact .none
  · rw [hr, hr']
    exact .some ⟨ho.extend (hu.keeps_same hq.spare), hu.wellFormed, hu.mirrors hq.spare⟩

/-- Expressions that are alike are evaluated alike. -/
theorem Mirrors.evaluate (h : w.Mirrors L w') (hw : w.WellFormed) {e e' : Expr}
    (he : e.Like L e') (n : Nat) : EndsMirrored L (w.evaluate n e) (w'.evaluate n e') :=
  h.run hw (.evaluate he .outcome) n

/-- Statements that are alike are executed alike. -/
theorem Mirrors.execute (h : w.Mirrors L w') (hw : w.WellFormed) {s s' : Stmt}
    (hs : s.Like L s') (n : Nat) : EndsMirrored L (w.execute n s) (w'.execute n s') := by
  have hplace : (Pairing.identity w.store.frames.size).Core w.scope w'.scope :=
    ⟨⟨h.scope, hw.scope⟩, fun _ => List.not_mem_nil⟩
  exact h.run hw (.execute ⟨hs, .inl hplace⟩ .outcome) n

/-- Programs that are alike run alike. -/
theorem Mirrors.interpret (h : w.Mirrors L w') (hw : w.WellFormed) {body body' : List Stmt}
    (hb : List.Forall₂ (Stmt.Like L) body body') (n : Nat) :
    Option.Rel (fun r r' => L.Result Eq r.1 r'.1 ∧ r.2.WellFormed ∧ r.2.Mirrors L r'.2)
      (w.interpret n body) (w'.interpret n body') := by
  induction hb generalizing w w' with
  | nil => exact .some ⟨.ok rfl, hw, h⟩
  | cons hs _ ih =>
    have hx := h.execute hw hs n
    unfold World.interpret
    generalize w.execute n _ = r at hx
    generalize w'.execute n _ = r' at hx
    cases hx with
    | none => exact .none
    | @some r r' hr =>
      obtain ⟨o, u⟩ := r
      obtain ⟨o', u'⟩ := r'
      obtain ⟨ho, hu, hm⟩ := hr
      cases ho with
      | fault hf => exact .some ⟨.error hf, hu, hm⟩
      | value _ => exact ih hm hu
      | signal _ => exact ih hm hu

end World

end ClosureLang
