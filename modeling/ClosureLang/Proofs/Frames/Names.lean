import ClosureLang.Proofs.Frames.Sessions

namespace ClosureLang

mutual

/-- If the current frame is `scope`, the statements that are under way run in frames of `D`. -/
def Awaiting.RunsIn (D : Set FrameId) (scope : FrameId) : Awaiting → Prop
  | .outcome => True
  | .operand _ _ next | .left _ _ _ next | .right _ _ _ next | .decision _ _ next
  | .assigned _ _ next | .callee _ _ next | .argument _ _ _ _ next => next.RunsIn D scope
  | .discarded next | .printed next | .initial _ next | .thenBranch _ next
  | .branches _ _ next | .condition _ _ next | .given next => scope ∈ D ∧ next.RunsIn D scope

/-- If the current frame is `scope`, the statements that are left run in frames of `D`. -/
def Remaining.RunsIn (D : Set FrameId) (scope : FrameId) : Remaining → Prop
  | .outcome => True
  | .statements _ next | .round _ _ next => scope ∈ D ∧ next.RunsIn D scope
  | .blockEnd outer next => next.RunsIn D outer
  | .callEnd outer next => next.RunsIn D outer

end

def Machine.RunsIn (D : Set FrameId) (scope : FrameId) : Machine → Prop
  | .evaluate _ next | .arguments _ _ _ _ next | .apply _ _ _ next | .give _ next
  | .raise _ next => next.RunsIn D scope
  | .execute _ next | .sequence _ next => scope ∈ D ∧ next.RunsIn D scope
  | .finish _ next | .abort _ next => next.RunsIn D scope

def Progress.RunsIn (D : Set FrameId) (scope : FrameId) : Progress → Prop
  | .ended _ => True
  | .going m => m.RunsIn D scope

/-- Frames outside `D` declare the same names in both stores. -/
def Store.SameNames (D : Set FrameId) (s s' : Store) : Prop :=
  ∀ i ∉ D, ∀ name, s'.declares i name = s.declares i name

namespace Store

variable {D : Set FrameId}

theorem SameNames.refl (s : Store) : s.SameNames D s :=
  fun _ _ _ => rfl

theorem SameNames.trans {s t u : Store} (h : s.SameNames D t) (h' : t.SameNames D u) :
    s.SameNames D u :=
  fun i hi name => (h' i hi name).trans (h i hi name)

theorem SameNames.define {s : Store} {i : FrameId} (hi : i ∈ D) (n : String) (v : Value) :
    s.SameNames D (s.define i n v) := by
  intro j hj name
  have hne : i ≠ j := fun he => hj (he ▸ hi)
  unfold Store.declares
  rw [define_frames, if_neg hne]

/-- A new value for a name that the frame has. -/
theorem SameNames.redefine {s : Store} {i : FrameId} {n : String} (hn : s.declares i n)
    (v : Value) : s.SameNames D (s.define i n v) := by
  intro j _ name
  by_cases he : i = j
  · subst he
    unfold Store.declares
    rw [define_frames, if_pos rfl]
    cases hf : s.frames[i]? with
    | none => rfl
    | some f =>
      rw [declares_of_frame hf] at hn
      simp only [Option.map_some, Option.any_some, Frame.declares_define]
      by_cases h : n = name
      · simp [← h, hn]
      · simp [h]
  · unfold Store.declares
    rw [define_frames, if_neg he]

theorem SameNames.push {s : Store} (h : s.frames.size ∈ D) (enclosing : Option FrameId)
    (bindings : List (String × Value)) : s.SameNames D (s.push enclosing bindings) := by
  intro j hj name
  have hne : j ≠ s.frames.size := fun he => hj (he ▸ h)
  unfold Store.declares
  rw [push_frames, if_neg hne]

theorem declares_of_resolve? {s : Store} {name : String} {i j : FrameId}
    (h : s.resolve? name i = some j) : s.declares j name := by
  obtain ⟨v, hb⟩ := binds_of_resolve? h
  obtain ⟨f, hf, hv⟩ := hb.frame
  rw [declares_of_frame hf, Frame.declares_eq_isSome, hv]
  rfl

end Store

namespace Machine

variable {D : Set FrameId} {w : World}

theorem runsIn_settle {r : Except Fault Value} {next : Awaiting} {scope : FrameId}
    (h : next.RunsIn D scope) : (settle r next).RunsIn D scope := by
  cases r with
  | ok v => exact h
  | error f => exact h

theorem stepEvaluate_runsIn {e : Expr} {next : Awaiting} (h : next.RunsIn D w.scope) :
    (stepEvaluate e next w).1.RunsIn D (stepEvaluate e next w).2.scope ∧
      w.store.SameNames D (stepEvaluate e next w).2.store := by
  cases e with
  | lookup name line => exact ⟨runsIn_settle h, .refl _⟩
  | literal | grouping | unary | binary | logical | assign | call => exact ⟨h, .refl _⟩

theorem stepApply_runsIn {callee : Value} {args : List Value} {line : Nat} {next : Awaiting}
    (h : next.RunsIn D w.scope) (fresh : w.store.frames.size ∈ D) :
    (stepApply callee args line next w).1.RunsIn D (stepApply callee args line next w).2.scope ∧
      w.store.SameNames D (stepApply callee args line next w).2.store := by
  cases callee with
  | closure f =>
    simp only [stepApply]
    split
    next => exact ⟨⟨fresh, h⟩, .push fresh _ _⟩
    next => exact ⟨h, .refl _⟩
  | native f =>
    simp only [stepApply]
    split
    next => exact ⟨runsIn_settle h, .refl _⟩
    next => exact ⟨h, .refl _⟩
  | nil | bool | number | text => exact ⟨h, .refl _⟩

theorem stepGive_runsIn {v : Value} {next : Awaiting} (h : next.RunsIn D w.scope) :
    (stepGive v next w).1.RunsIn D (stepGive v next w).2.scope ∧
      w.store.SameNames D (stepGive v next w).2.store := by
  cases next with
  | outcome => exact ⟨trivial, .refl _⟩
  | operand op line next => exact ⟨runsIn_settle h, .refl _⟩
  | right left op line next => exact ⟨runsIn_settle h, .refl _⟩
  | left | callee | argument => exact ⟨h, .refl _⟩
  | decision op right next =>
    simp only [stepGive]
    split
    next => exact ⟨h, .refl _⟩
    next => exact ⟨h, .refl _⟩
  | assigned name line next =>
    simp only [stepGive]
    split
    next i hi => exact ⟨h, .redefine (Store.declares_of_resolve? hi) v⟩
    next => exact ⟨h, .refl _⟩
  | discarded next => exact ⟨h.2, .refl _⟩
  | printed next => exact ⟨h.2, .refl _⟩
  | initial name next => exact ⟨h.2, .define h.1 name v⟩
  | thenBranch yes next =>
    simp only [stepGive]
    split
    next => exact ⟨h, .refl _⟩
    next => exact ⟨h.2, .refl _⟩
  | branches yes no next => exact ⟨h, .refl _⟩
  | condition condition body next =>
    simp only [stepGive]
    split
    next => exact ⟨⟨h.1, h⟩, .refl _⟩
    next => exact ⟨h.2, .refl _⟩
  | given next => exact ⟨h.2, .refl _⟩

theorem stepRaise_runsIn {f : Fault} {next : Awaiting} (h : next.RunsIn D w.scope) :
    (stepRaise f next w).1.RunsIn D (stepRaise f next w).2.scope ∧
      w.store.SameNames D (stepRaise f next w).2.store := by
  cases next with
  | outcome => exact ⟨trivial, .refl _⟩
  | operand | left | right | decision | assigned | callee | argument => exact ⟨h, .refl _⟩
  | discarded | printed | initial | thenBranch | branches | condition | given =>
    exact ⟨h.2, .refl _⟩

/-- A statement that is begun gives names to the frame in which it runs, and to no other. -/
theorem stepExecute_runsIn {s : Stmt} {next : Remaining} (hs : w.scope ∈ D)
    (h : next.RunsIn D w.scope) (fresh : w.store.frames.size ∈ D) :
    (stepExecute s next w).1.RunsIn D (stepExecute s next w).2.scope ∧
      w.store.SameNames D (stepExecute s next w).2.store := by
  cases s with
  | create name initial line =>
    cases initial with
    | some e => exact ⟨⟨hs, h⟩, .refl _⟩
    | none => exact ⟨h, .define hs name .nil⟩
  | block body => exact ⟨⟨fresh, h⟩, .push fresh _ _⟩
  | function name params body line =>
    have hn : Store.SameNames D { w.store with nextIdentity := w.store.nextIdentity + 1 }
        (w.declare name params body).store := .define hs _ _
    exact ⟨h, hn⟩
  | giveBack value line =>
    cases value with
    | some e => exact ⟨⟨hs, h⟩, .refl _⟩
    | none => exact ⟨h, .refl _⟩
  | expression | output | ifThen | ifElse | loop => exact ⟨⟨hs, h⟩, .refl _⟩

theorem stepFinish_runsIn {s : Signal} {next : Remaining} (h : next.RunsIn D w.scope) :
    (stepFinish s next w).1.RunsIn D (stepFinish s next w).2.scope ∧
      w.store.SameNames D (stepFinish s next w).2.store := by
  cases next with
  | outcome => cases s <;> exact ⟨trivial, .refl _⟩
  | statements rest next =>
    cases s with
    | normal => exact ⟨h, .refl _⟩
    | returned v => exact ⟨h.2, .refl _⟩
  | round condition body next =>
    cases s with
    | normal => exact ⟨h, .refl _⟩
    | returned v => exact ⟨h.2, .refl _⟩
  | blockEnd outer next => cases s <;> exact ⟨h, .refl _⟩
  | callEnd outer next => cases s <;> exact ⟨h, .refl _⟩

theorem stepAbort_runsIn {f : Fault} {next : Remaining} (h : next.RunsIn D w.scope) :
    (stepAbort f next w).1.RunsIn D (stepAbort f next w).2.scope ∧
      w.store.SameNames D (stepAbort f next w).2.store := by
  cases next with
  | outcome => exact ⟨trivial, .refl _⟩
  | statements | round => exact ⟨h.2, .refl _⟩
  | blockEnd outer next => exact ⟨h, .refl _⟩
  | callEnd outer next => exact ⟨h, .refl _⟩

/-- A machine that runs statements in frames of `D` only, the next new frame among them, changes
the names of no other frame and goes on like that. -/
theorem step_runsIn {m : Machine} (h : m.RunsIn D w.scope) (fresh : w.store.frames.size ∈ D) :
    (step m w).1.RunsIn D (step m w).2.scope ∧ w.store.SameNames D (step m w).2.store := by
  cases m with
  | evaluate e next => exact stepEvaluate_runsIn h
  | arguments callee done rest line next => cases rest <;> exact ⟨h, .refl _⟩
  | apply callee args line next => exact stepApply_runsIn h fresh
  | give v next => exact stepGive_runsIn h
  | raise f next => exact stepRaise_runsIn h
  | execute s next => exact stepExecute_runsIn h.1 h.2 fresh
  | sequence body next =>
    cases body with
    | nil => exact ⟨h.2, .refl _⟩
    | cons s rest => exact ⟨⟨h.1, h⟩, .refl _⟩
  | finish s next => exact stepFinish_runsIn h
  | abort f next => exact stepAbort_runsIn h

theorem Leads.sameNames {m m' : Machine} {w' : World} (hl : Leads m w m' w')
    (h : m.RunsIn D w.scope) (fresh : ∀ i, w.store.frames.size ≤ i → i ∈ D) :
    w.store.SameNames D w'.store := by
  induction hl with
  | refl => exact .refl _
  | @head m m₁ m' w w₁ w' hs _ ih =>
    obtain ⟨hr, hn⟩ := step_runsIn h (fresh _ le_rfl)
    have hle := (m.step_change w).size_le
    rw [hs] at hr hn hle
    exact hn.trans (ih hr fun i hi => fresh i (hle.trans hi))

/-- The run of the machine passes through the world `w'`, or ends in it. -/
def Passes (m : Machine) (w w' : World) : Prop :=
  (∃ m', Leads m w m' w') ∨ ∃ n o, m.run n w = some (o, w')

theorem leads_of_run {n : Nat} {m : Machine} {w' : World} {o : Outcome}
    (h : run n m w = some (o, w')) : ∃ m', Leads m w m' w' := by
  induction n generalizing m w with
  | zero => simp [run] at h
  | succ n ih =>
    rcases run_succ_cases h with hs | ⟨m₁, w₁, hs, hr⟩
    · cases step_ended hs
      exact ⟨m, .refl⟩
    · obtain ⟨m', hl⟩ := ih hr
      exact ⟨m', .head hs hl⟩

theorem Passes.leads {m : Machine} {w' : World} (hp : m.Passes w w') : ∃ m', Leads m w m' w' := by
  rcases hp with hl | ⟨n, o, hr⟩
  · exact hl
  · exact leads_of_run hr

theorem Passes.sameNames {m : Machine} {w' : World} (hp : m.Passes w w')
    (h : m.RunsIn D w.scope) (fresh : ∀ i, w.store.frames.size ≤ i → i ∈ D) :
    w.store.SameNames D w'.store := by
  obtain ⟨m', hl⟩ := hp.leads
  exact hl.sameNames h fresh

theorem evaluate_sameNames {e : Expr} {w' : World}
    (hp : (Machine.evaluate e .outcome).Passes w w') :
    w.store.SameNames {i | w.store.frames.size ≤ i} w'.store :=
  hp.sameNames trivial fun _ hi => hi

/-- A statement gives names to the frame in which it runs, and to no other that is there. -/
theorem execute_sameNames {s : Stmt} {w' : World}
    (hp : (Machine.execute s .outcome).Passes w w') :
    w.store.SameNames {i | i = w.scope ∨ w.store.frames.size ≤ i} w'.store :=
  hp.sameNames ⟨.inl rfl, trivial⟩ fun _ hi => .inr hi

end Machine

/-- In every state of a session each frame belongs to an older one, and names are looked up along
its one chain, which has no frame twice and ends with the global frame. In every later state the
frames are still there, belong where they belonged and have the names they had, and a name that was
found is found. Evaluating an expression, at no time and with no outcome, changes the names of a
frame that was there before, and executing a statement those of the current frame at most. -/
theorem session_frame_structure :
    (∀ σ : Session, σ.Reachable →
      (∀ (i : FrameId) (f : Frame) (j : FrameId), σ.world.store.frames[i]? = some f →
        f.enclosing = some j → j < i) ∧
      (∀ i < σ.world.store.frames.size, ∃ c, (∀ c', σ.world.store.Chain i c' ↔ c' = c) ∧
        c.Pairwise (· > ·) ∧ c.getLast? = some 0 ∧ ∀ name line,
          σ.world.store.get i name line =
            (c.findSome? fun j => σ.world.store.frames[j]?.bind (·.value? name)).elim
              (.error (.undefinedVariable name line)) .ok ∧
          ∀ v, σ.world.store.assign i name v line =
            (c.find? fun j => σ.world.store.declares j name).elim
              (.error (.undefinedVariable name line))
              fun j => .ok (σ.world.store.define j name v)) ∧
      (∀ σ', σ.Later σ' → σ.world.store.Grows σ'.world.store ∧
        ∀ i name, (σ.world.store.resolve? name i).isSome →
          (σ'.world.store.resolve? name i).isSome)) ∧
    (∀ w e w', (Machine.evaluate e .outcome).Passes w w' →
      ∀ i < w.store.frames.size, ∀ name, w'.store.declares i name = w.store.declares i name) ∧
    (∀ w s w', (Machine.execute s .outcome).Passes w w' →
      ∀ i < w.store.frames.size, i ≠ w.scope →
        ∀ name, w'.store.declares i name = w.store.declares i name) := by
  refine ⟨?_, ?_, ?_⟩
  · intro σ hσ
    have sound := hσ.sound
    refine ⟨sound.ordered, ?_, ?_⟩
    · intro i hi
      obtain ⟨c, hc⟩ := sound.ordered.exists_chain hi
      have honly : ∀ c', σ.world.store.Chain i c' ↔ c' = c := by
        intro c'
        constructor
        · intro hc'
          exact hc'.unique hc
        · rintro rfl
          exact hc
      refine ⟨c, honly, hc.decreasing sound.ordered, hc.getLast? sound.rooted, ?_⟩
      intro name line
      exact ⟨hc.get sound.ordered name line, fun v => hc.assign sound.ordered name v line⟩
    · intro σ' hl
      have sound' := sound.later hl
      exact ⟨hl.grows, fun i name h => hl.grows.resolve? sound.ordered sound'.ordered h⟩
  · intro w e w' hp i hi name
    exact Machine.evaluate_sameNames hp i (Nat.not_le.mpr hi) name
  · intro w s w' hp i hi hne name
    refine Machine.execute_sameNames hp i ?_ name
    rintro (rfl | hle)
    · exact hne rfl
    · exact Nat.not_le.mpr hi hle

/-- The function `func f() { create y; }`. -/
def declaring : Stmt :=
  .function "f" [] [.create "y" none 1] 1

/-- The function is declared and called, and then a block declares a name of its own: the frame of
the call stays in the chain it was in, and neither the call nor the block adds a name around it. -/
theorem session_frame_structure_declaring : ∃ w₁ w₂ w₃,
    World.initial.execute 9 declaring = some (.signal .normal, w₁) ∧
    w₁.evaluate 20 (.call (.lookup "f" 1) [] 1) = some (.value .nil, w₂) ∧
    w₂.execute 9 (.block [.create "z" none 1]) = some (.signal .normal, w₃) ∧
    (∃ c, w₂.store.Chain 1 c ∧ c.getLast? = some 0) ∧
    w₂.store.Grows w₃.store ∧
    w₂.store.declares 0 "y" = w₁.store.declares 0 "y" ∧
    w₃.store.declares 1 "z" = w₂.store.declares 1 "z" := by
  have hruns : ∃ w₁, World.initial.execute 9 declaring = some (.signal .normal, w₁) ∧
      0 < w₁.store.frames.size ∧
      ∃ w₂, w₁.evaluate 20 (.call (.lookup "f" 1) [] 1) = some (.value .nil, w₂) ∧
        1 < w₂.store.frames.size ∧ w₂.scope = 0 ∧
        ∃ w₃, w₂.execute 9 (.block [.create "z" none 1]) = some (.signal .normal, w₃) :=
    ⟨_, rfl, by decide, _, by with_unfolding_all rfl, by decide, rfl, _, rfl⟩
  obtain ⟨w₁, h₁, hsize₁, w₂, h₂, hsize₂, hscope, w₃, h₃⟩ := hruns
  have hreach : (Session.idle w₂).Reachable :=
    (Session.later_execute h₁).trans (Session.later_evaluate h₂)
  obtain ⟨hstates, hevaluate, hexecute⟩ := session_frame_structure
  obtain ⟨-, hchain, hlater⟩ := hstates _ hreach
  obtain ⟨c, hc, -, hlast, -⟩ := hchain 1 hsize₂
  refine ⟨w₁, w₂, w₃, h₁, h₂, h₃, ⟨c, (hc c).mpr rfl, hlast⟩, ?_, ?_, ?_⟩
  · exact (hlater _ (Session.later_execute h₃)).1
  · exact hevaluate w₁ _ w₂ (.inr ⟨_, _, h₂⟩) 0 hsize₁ "y"
  · refine hexecute w₂ _ w₃ (.inr ⟨_, _, h₃⟩) 1 hsize₂ ?_ "z"
    rw [hscope]
    decide

end ClosureLang
