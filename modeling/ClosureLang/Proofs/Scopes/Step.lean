import ClosureLang.Proofs.Scopes.Located

namespace ClosureLang

/-- At `p` stands `node`, and the chain of frame `scope` is one frame longer than `p` is deep. -/
def Store.Suits (s : Store) (program : List Stmt) (scope : FrameId) (p : Path) (node : Node) :
    Prop :=
  ∃ d c, Occurs program p node d ∧ s.Chain scope c ∧ c.length = d + 1

/-- The function was declared at the place that `origins` says, in a frame that suits it. -/
def Store.Declared (s : Store) (program : List Stmt) (origins : Nat → Path) (f : Closure) : Prop :=
  f.identity < s.nextIdentity ∧ ∃ line,
    s.Suits program f.home (origins f.identity) (.stmt (.function f.name f.params f.body line))

/-- The chain of the frame is no longer than the program is nested. -/
def Store.Shallow (s : Store) (program : List Stmt) (i : FrameId) : Prop :=
  ∃ c, s.Chain i c ∧ c.length ≤ Stmt.nestingAll program

variable {program : List Stmt} {s : Store} {origins : Nat → Path} {t : Whereabouts} {w : World}

namespace Store

theorem Suits.part {scope : FrameId} {p : Path} {node part : Node} {i : Nat}
    (h : s.Suits program scope p node) (ho : node.opens = 0) (hi : node.parts[i]? = some part) :
    s.Suits program scope (i :: p) part := by
  obtain ⟨d, c, hd, hc, hl⟩ := h
  have hp := hd.part hi
  rw [ho] at hp
  exact ⟨d, c, hp, hc, hl⟩

/-- The parts of a block or of a function suit a frame inside the frame of the whole. -/
theorem Suits.inside {i scope : FrameId} {f : Frame} {p : Path} {node part : Node} {k : Nat}
    (h : s.Suits program scope p node) (hf : s.frames[i]? = some f)
    (he : f.enclosing = some scope) (ho : node.opens = 1) (hk : node.parts[k]? = some part) :
    s.Suits program i (k :: p) part := by
  obtain ⟨d, c, hd, hc, hl⟩ := h
  have hp := hd.part hk
  rw [ho] at hp
  exact ⟨d + 1, i :: c, hp, .inner hf he hc, by rw [List.length_cons, hl]⟩

theorem Suits.nodes_inside {i scope : FrameId} {f : Frame} {p : Path} {node : Node}
    (h : s.Suits program scope p node) (hf : s.frames[i]? = some f)
    (he : f.enclosing = some scope) (ho : node.opens = 1) :
    NodesAt (s.Suits program) i (0 :: p) node.parts := by
  intro k part hk
  have hin := h.inside hf he ho hk
  simpa only [Path.after, Nat.zero_add] using hin

theorem Suits.shallow {scope : FrameId} {p : Path} {node : Node}
    (h : s.Suits program scope p node) (hn : 1 ≤ node.nesting) : s.Shallow program scope := by
  obtain ⟨d, c, hd, hc, hl⟩ := h
  have hle := hd.nesting_le
  exact ⟨c, hc, by omega⟩

theorem Suits.grows {s' : Store} (hg : s.Grows s') {scope : FrameId} {p : Path} {node : Node}
    (h : s.Suits program scope p node) : s'.Suits program scope p node := by
  obtain ⟨d, c, hd, hc, hl⟩ := h
  exact ⟨d, c, hd, hc.grows hg, hl⟩

theorem Declared.grows {s' : Store} {origins' : Nat → Path} (hg : s.Grows s')
    (hid : s.nextIdentity ≤ s'.nextIdentity)
    (ho : ∀ i < s.nextIdentity, origins' i = origins i) {f : Closure}
    (h : s.Declared program origins f) : s'.Declared program origins' f := by
  obtain ⟨hlt, line, hs⟩ := h
  refine ⟨hlt.trans_le hid, line, ?_⟩
  rw [ho _ hlt]
  exact hs.grows hg

end Store

theorem NodesAt.tail {A : FrameId → Path → Node → Prop} {scope : FrameId} {p : Path}
    {node : Node} {nodes : List Node} (h : NodesAt A scope p (node :: nodes)) :
    NodesAt A scope (p.after 1) nodes := by
  intro i part hi
  have hp := h (i + 1) part hi
  cases p with
  | nil => exact hp
  | cons k p =>
    have he : k + (i + 1) = k + 1 + i := by omega
    simpa only [Path.after, he] using hp

theorem NodesAt.head {A : FrameId → Path → Node → Prop} {scope : FrameId} {p : Path}
    {node : Node} {nodes : List Node} (h : NodesAt A scope p (node :: nodes)) : A scope p node := by
  have hp := h 0 node rfl
  cases p with
  | nil => exact hp
  | cons k p => exact hp

namespace Machine

theorem located_settle {A : FrameId → Path → Node → Prop} {F : Closure → Prop}
    {r : Except Fault Value} {next : Awaiting} {scope : FrameId}
    (hr : ∀ v, r = .ok v → v.Known F) (hn : next.Located A F scope t.waiting) :
    (settle r next).Located A F t scope := by
  cases r with
  | ok v => exact ⟨hr v rfl, hn⟩
  | error f => exact hn

theorem stepEvaluate_located {e : Expr} {next : Awaiting}
    (he : s.Suits program w.scope t.here (.expr e))
    (hn : next.Located (s.Suits program) (s.Declared program origins) w.scope t.waiting)
    (hw : w.store.Known (s.Declared program origins)) :
    (stepEvaluate e next w).1.Located (s.Suits program) (s.Declared program origins)
        (t.stepEvaluate e) (stepEvaluate e next w).2.scope ∧
      w.Effect (s.Declared program origins) (s.Shallow program) (stepEvaluate e next w).2 := by
  cases e with
  | literal value =>
    exact ⟨⟨Value.known_of_ne_closure (Value.ofLiteral_ne_closure value), hn⟩, .same⟩
  | grouping inner => exact ⟨⟨he.part rfl rfl, hn⟩, .same⟩
  | unary op operand line => exact ⟨⟨he.part rfl rfl, hn⟩, .same⟩
  | binary left op right line => exact ⟨⟨he.part rfl rfl, he.part rfl rfl, hn⟩, .same⟩
  | logical left op right line => exact ⟨⟨he.part rfl rfl, he.part rfl rfl, hn⟩, .same⟩
  | lookup name line => exact ⟨located_settle (fun v h => hw.get h) hn, .same⟩
  | assign name value line => exact ⟨⟨he.part rfl rfl, hn⟩, .same⟩
  | call callee args line =>
    refine ⟨⟨he.part rfl rfl, ?_, hn⟩, .same⟩
    intro i node hi
    have hp := he.part (i := i + 1) rfl hi
    rw [Nat.add_comm] at hp
    exact hp

/-- A call goes to the text of the function's declaration, in a frame inside the one of the
declaration. -/
theorem stepApply_located {callee : Value} {args : List Value} {line : Nat} {next : Awaiting}
    (hs : (stepApply callee args line next w).2.store.Grows s) (ho : origins = t.origins)
    (hc : callee.Known (s.Declared program origins))
    (ha : ∀ v ∈ args, v.Known (s.Declared program origins))
    (hn : next.Located (s.Suits program) (s.Declared program origins) w.scope t.waiting) :
    (stepApply callee args line next w).1.Located (s.Suits program) (s.Declared program origins)
        (t.stepApply callee args) (stepApply callee args line next w).2.scope ∧
      w.Effect (s.Declared program origins) (s.Shallow program)
        (stepApply callee args line next w).2 := by
  cases callee with
  | closure f =>
    simp only [stepApply, Whereabouts.stepApply] at hs ⊢
    split
    next hl =>
      rw [if_pos hl] at hs
      obtain ⟨-, declared, hsuits⟩ := hc
      obtain ⟨frame, hf, he, -⟩ := hs w.store.frames.size _ Array.getElem?_push_size
      rw [ho] at hsuits
      refine ⟨⟨hsuits.nodes_inside hf he rfl, hn⟩, .push (hsuits.shallow ?_) ?_⟩
      · exact Nat.le_add_left 1 _
      · exact fun b hb => ha b.2 (Frame.mem_bindAll hb)
    next => exact ⟨hn, .same⟩
  | native f =>
    simp only [stepApply, Whereabouts.stepApply]
    split
    next =>
      exact ⟨located_settle (fun v h => Value.known_of_ne_closure (f.apply_ne_closure h)) hn,
        .same⟩
    next => exact ⟨hn, .same⟩
  | nil | bool | number | text => exact ⟨hn, .same⟩

theorem stepGive_located {v : Value} {next : Awaiting}
    (hv : v.Known (s.Declared program origins))
    (hn : next.Located (s.Suits program) (s.Declared program origins) w.scope t.waiting) :
    (stepGive v next w).1.Located (s.Suits program) (s.Declared program origins)
        (t.stepGive v next) (stepGive v next w).2.scope ∧
      w.Effect (s.Declared program origins) (s.Shallow program) (stepGive v next w).2 := by
  cases next with
  | outcome => exact ⟨trivial, .same⟩
  | operand op line next =>
    exact ⟨located_settle (fun u h => Value.known_of_ne_closure (op.apply_ne_closure h)) hn,
      .same⟩
  | left op right line next => exact ⟨⟨hn.1, hv, hn.2⟩, .same⟩
  | right left op line next =>
    exact ⟨located_settle (fun u h => Value.known_of_ne_closure (op.apply_ne_closure h)) hn.2,
      .same⟩
  | decision op right next =>
    simp only [stepGive, Whereabouts.stepGive]
    split
    next => exact ⟨⟨hv, hn.2⟩, .same⟩
    next => exact ⟨hn, .same⟩
  | assigned name line next =>
    simp only [stepGive, Whereabouts.stepGive]
    split
    next => exact ⟨⟨hv, hn⟩, .bindAt hv⟩
    next => exact ⟨hn, .same⟩
  | callee args line next => exact ⟨⟨hv, by simp, hn.1, hn.2⟩, .same⟩
  | argument callee done rest line next =>
    obtain ⟨hc, hd, hr, hn⟩ := hn
    refine ⟨⟨hc, ?_, hr, hn⟩, .same⟩
    intro u hu
    rcases List.mem_cons.mp hu with rfl | hu
    · exact hv
    · exact hd u hu
  | discarded next => exact ⟨⟨trivial, hn⟩, .same⟩
  | printed next => exact ⟨⟨trivial, hn⟩, .println⟩
  | initial name next => exact ⟨⟨trivial, hn⟩, .bindAt hv⟩
  | thenBranch yes next =>
    simp only [stepGive, Whereabouts.stepGive]
    split
    next => exact ⟨hn, .same⟩
    next => exact ⟨⟨trivial, hn.2⟩, .same⟩
  | branches yes no next =>
    simp only [stepGive, Whereabouts.stepGive]
    split
    next => exact ⟨⟨hn.1, hn.2.2⟩, .same⟩
    next => exact ⟨⟨hn.2.1, hn.2.2⟩, .same⟩
  | condition condition body next =>
    simp only [stepGive, Whereabouts.stepGive]
    split
    next => exact ⟨⟨hn.2.1, hn⟩, .same⟩
    next => exact ⟨⟨trivial, hn.2.2⟩, .same⟩
  | given next => exact ⟨⟨hv, hn⟩, .same⟩

theorem stepRaise_located {f : Fault} {next : Awaiting}
    (hn : next.Located (s.Suits program) (s.Declared program origins) w.scope t.waiting) :
    (stepRaise f next w).1.Located (s.Suits program) (s.Declared program origins)
        (t.stepRaise next) (stepRaise f next w).2.scope ∧
      w.Effect (s.Declared program origins) (s.Shallow program) (stepRaise f next w).2 := by
  cases next with
  | outcome => exact ⟨trivial, .same⟩
  | operand | assigned | discarded | printed | initial | given => exact ⟨hn, .same⟩
  | left | right | decision | callee | thenBranch => exact ⟨hn.2, .same⟩
  | branches | condition => exact ⟨hn.2.2, .same⟩
  | argument => exact ⟨hn.2.2.2, .same⟩

theorem stepExecute_located {stmt : Stmt} {next : Remaining}
    (hs : (stepExecute stmt next w).2.store.Grows s)
    (hid : (stepExecute stmt next w).2.store.nextIdentity ≤ s.nextIdentity)
    (ho : origins = (t.stepExecute stmt w.store.nextIdentity).origins)
    (he : s.Suits program w.scope t.here (.stmt stmt))
    (hn : next.Located (s.Suits program) (s.Declared program origins) w.scope t.waiting) :
    (stepExecute stmt next w).1.Located (s.Suits program) (s.Declared program origins)
        (t.stepExecute stmt w.store.nextIdentity) (stepExecute stmt next w).2.scope ∧
      w.Effect (s.Declared program origins) (s.Shallow program) (stepExecute stmt next w).2 := by
  cases stmt with
  | expression e => exact ⟨⟨he.part rfl rfl, hn⟩, .same⟩
  | output e => exact ⟨⟨he.part rfl rfl, hn⟩, .same⟩
  | create name initial line =>
    cases initial with
    | some e => exact ⟨⟨he.part rfl rfl, hn⟩, .same⟩
    | none => exact ⟨⟨trivial, hn⟩, .bindAt trivial⟩
  | block body =>
    obtain ⟨frame, hf, hin, -⟩ := hs w.store.frames.size _ Array.getElem?_push_size
    refine ⟨⟨he.nodes_inside hf hin rfl, hn⟩, .push (he.shallow ?_) (by simp)⟩
    exact Nat.le_add_left 1 _
  | ifThen condition yes => exact ⟨⟨he.part rfl rfl, he.part rfl rfl, hn⟩, .same⟩
  | ifElse condition yes no =>
    exact ⟨⟨he.part rfl rfl, he.part rfl rfl, he.part rfl rfl, hn⟩, .same⟩
  | loop condition body =>
    exact ⟨⟨he.part rfl rfl, he.part rfl rfl, he.part rfl rfl, hn⟩, .same⟩
  | function name params body line =>
    refine ⟨⟨trivial, hn⟩, .declare ⟨hid, line, ?_⟩⟩
    have hp : origins w.store.nextIdentity = t.here := by
      rw [ho]
      exact Function.update_self ..
    rw [hp]
    exact he
  | giveBack value line =>
    cases value with
    | some e => exact ⟨⟨he.part rfl rfl, hn⟩, .same⟩
    | none => exact ⟨⟨trivial, hn⟩, .same⟩

theorem stepFinish_located {signal : Signal} {next : Remaining}
    (hs : signal.Known (s.Declared program origins))
    (hn : next.Located (s.Suits program) (s.Declared program origins) w.scope t.waiting) :
    (stepFinish signal next w).1.Located (s.Suits program) (s.Declared program origins)
        (t.stepFinish signal next) (stepFinish signal next w).2.scope ∧
      w.Effect (s.Declared program origins) (s.Shallow program) (stepFinish signal next w).2 := by
  cases next with
  | outcome => cases signal <;> exact ⟨trivial, .same⟩
  | statements rest next =>
    cases signal with
    | normal => exact ⟨hn, .same⟩
    | returned v => exact ⟨⟨hs, hn.2⟩, .same⟩
  | round condition body next =>
    cases signal with
    | normal => exact ⟨⟨hn.1, hn⟩, .same⟩
    | returned v => exact ⟨⟨hs, hn.2.2⟩, .same⟩
  | blockEnd outer next => cases signal <;> exact ⟨⟨hs, hn⟩, .within⟩
  | callEnd outer next =>
    cases signal with
    | normal => exact ⟨⟨trivial, hn⟩, .within⟩
    | returned v => exact ⟨⟨hs, hn⟩, .within⟩

theorem stepAbort_located {f : Fault} {next : Remaining}
    (hn : next.Located (s.Suits program) (s.Declared program origins) w.scope t.waiting) :
    (stepAbort f next w).1.Located (s.Suits program) (s.Declared program origins)
        (t.stepAbort next) (stepAbort f next w).2.scope ∧
      w.Effect (s.Declared program origins) (s.Shallow program) (stepAbort f next w).2 := by
  cases next with
  | outcome => exact ⟨trivial, .same⟩
  | statements rest next => exact ⟨hn.2, .same⟩
  | round condition body next => exact ⟨hn.2.2, .same⟩
  | blockEnd outer next => exact ⟨hn, .within⟩
  | callEnd outer next => exact ⟨hn, .within⟩

/-- A located machine stays located; `s` and `origins` are what the step leaves. -/
theorem step_located {m : Machine} (hs : (step m w).2.store = s)
    (ho : (t.step m w).origins = origins)
    (hm : m.Located (s.Suits program) (s.Declared program origins) t w.scope)
    (hw : w.store.Known (s.Declared program origins)) :
    (step m w).1.Located (s.Suits program) (s.Declared program origins) (t.step m w)
        (step m w).2.scope ∧
      w.Effect (s.Declared program origins) (s.Shallow program) (step m w).2 := by
  have hg : (step m w).2.store.Grows s := hs ▸ Store.Grows.refl _
  cases m with
  | evaluate e next => exact stepEvaluate_located hm.1 hm.2 hw
  | arguments callee done rest line next =>
    obtain ⟨hc, hd, hr, hn⟩ := hm
    cases rest with
    | nil =>
      refine ⟨⟨hc, ?_, hn⟩, .same⟩
      exact fun v hv => hd v (List.mem_reverse.mp hv)
    | cons e rest => exact ⟨⟨hr.head, hc, hd, hr.tail, hn⟩, .same⟩
  | apply callee args line next =>
    have horigins : origins = t.origins := by
      rw [← ho]
      cases callee with
      | closure f =>
        simp only [Whereabouts.step, Whereabouts.stepApply]
        split <;> rfl
      | native | nil | bool | number | text => rfl
    exact stepApply_located hg horigins hm.1 hm.2.1 hm.2.2
  | give v next => exact stepGive_located hm.1 hm.2
  | raise f next => exact stepRaise_located hm
  | execute stmt next =>
    exact stepExecute_located hg (le_of_eq (congrArg Store.nextIdentity hs)) ho.symm hm.1 hm.2
  | sequence body next =>
    cases body with
    | nil => exact ⟨⟨trivial, hm.2⟩, .same⟩
    | cons stmt rest => exact ⟨⟨hm.1.head, hm.1.tail, hm.2⟩, .same⟩
  | finish signal next => exact stepFinish_located hm.1 hm.2
  | abort f next => exact stepAbort_located hm

end Machine

end ClosureLang
