import ClosureLang.Proofs.Frames.Names
import ClosureLang.Proofs.Frames.Restoration
import ClosureLang.Proofs.Grammar.Formation
import ClosureLang.Proofs.Loops.Lowering

namespace ClosureLang

mutual

theorem Awaiting.runsIn_of_confined {G D : Set FrameId} (hG : G ⊆ D) {scope : FrameId}
    (hs : scope ∈ D) : (a : Awaiting) → a.Confined G → a.RunsIn D scope ∧ a.base scope ∈ D
  | .outcome, _ => ⟨trivial, hs⟩
  | .operand _ _ next, h | .left _ _ _ next, h | .decision _ _ next, h | .assigned _ _ next, h
  | .callee _ _ next, h => next.runsIn_of_confined hG hs h
  | .right _ _ _ next, h => next.runsIn_of_confined hG hs h.2
  | .argument _ _ _ _ next, h => next.runsIn_of_confined hG hs h.2.2
  | .discarded next, h | .printed next, h | .initial _ next, h | .thenBranch _ next, h
  | .branches _ _ next, h | .condition _ _ next, h | .given next, h =>
    ⟨⟨hs, (next.runsIn_of_confined hG hs h).1⟩, (next.runsIn_of_confined hG hs h).2⟩

/-- What is left to do after a statement, and mentions frames of `D` only, runs in frames of `D`. -/
theorem Remaining.runsIn_of_confined {G D : Set FrameId} (hG : G ⊆ D) {scope : FrameId}
    (hs : scope ∈ D) : (r : Remaining) → r.Confined G → r.RunsIn D scope ∧ r.base scope ∈ D
  | .outcome, _ => ⟨trivial, hs⟩
  | .statements _ next, h | .round _ _ next, h =>
    ⟨⟨hs, (next.runsIn_of_confined hG hs h).1⟩, (next.runsIn_of_confined hG hs h).2⟩
  | .blockEnd _ next, h => next.runsIn_of_confined hG (hG h.1) h.2
  | .callEnd _ next, h => next.runsIn_of_confined hG (hG h.1) h.2

end

namespace Session

variable {D : Set FrameId} {σ σ' : Session}

/-- The statements that are under way, and those of later tasks, run in frames of `D`. -/
structure RunsIn (D : Set FrameId) (σ : Session) : Prop where
  machine : σ.machine.RunsIn D σ.world.scope
  base : σ.machine.base σ.world.scope ∈ D
  fresh : ∀ i, σ.world.store.frames.size ≤ i → i ∈ D

theorem RunsIn.step (h : σ.RunsIn D) (hs : Step σ σ') :
    σ'.RunsIn D ∧ σ.world.store.SameNames D σ'.world.store := by
  obtain ⟨hm, hb, hf⟩ := h
  cases hs with
  | evaluate e => exact ⟨⟨trivial, hb, hf⟩, .refl _⟩
  | execute s => exact ⟨⟨⟨hb, trivial⟩, hb, hf⟩, .refl _⟩
  | @going m m' w w' hs =>
    obtain ⟨hr, hn⟩ := Machine.step_runsIn (m := m) (w := w) hm (hf _ le_rfl)
    have hbase := m.step_base w
    have hle := (m.step_change w).size_le
    rw [hs] at hr hn hbase hle
    have hnext : m'.base w'.scope = m.base w.scope := hbase
    exact ⟨⟨hr, hnext ▸ hb, fun i hi => hf i (hle.trans hi)⟩, hn⟩
  | @ended m w w' o hs =>
    have hbase := m.step_base w
    rw [hs] at hbase
    cases Machine.step_ended hs
    have hscope : w.scope ∈ D := by
      change m.base w.scope ∈ D at hb
      rwa [← hbase] at hb
    exact ⟨⟨trivial, hscope, hf⟩, .refl _⟩

/-- Frames in which nothing is left to run keep their names for the rest of a session. -/
theorem RunsIn.later (h : σ.RunsIn D) (hl : Later σ σ') :
    σ'.RunsIn D ∧ σ.world.store.SameNames D σ'.world.store := by
  induction hl with
  | refl => exact ⟨h, .refl _⟩
  | tail _ hs ih =>
    obtain ⟨hr, hn⟩ := ih.1.step hs
    exact ⟨hr, ih.2.trans hn⟩

end Session

theorem Frame.bindings_eq_nil {f : Frame} (h : ∀ name, f.declares name = false) :
    f.bindings = [] := by
  obtain ⟨enclosing, bindings⟩ := f
  cases bindings with
  | nil => rfl
  | cons b rest =>
    have hb := h b.1
    simp [Frame.declares] at hb

/-- A frame that is empty, and in which nothing that is left runs, stays empty. -/
theorem Session.RunsIn.empty {D : Set FrameId} {σ σ' : Session} (h : σ.RunsIn D)
    (hl : Later σ σ') {i k : FrameId} (hi : i ∉ D)
    (hf : σ.world.store.frames[i]? = some ⟨some k, []⟩) :
    σ'.world.store.frames[i]? = some ⟨some k, []⟩ := by
  obtain ⟨f, hf', he, -⟩ := hl.grows i _ hf
  have hnames : ∀ name, f.declares name = false := by
    intro name
    have hn := (h.later hl).2 i hi name
    rw [Store.declares_of_frame hf, Store.declares_of_frame hf'] at hn
    exact hn
  have hb := Frame.bindings_eq_nil hnames
  obtain ⟨enclosing, bindings⟩ := f
  cases hb
  cases he
  exact hf'

theorem Stmt.undeclaring_of_formed {inside : Bool} : (s : Stmt) → s.Formed inside →
    s.declared? = none → s.Undeclaring
  | .create _ _ _, _, h | .function _ _ _ _, _, h => by simp [Stmt.declared?] at h
  | .ifThen _ yes, h, _ => yes.undeclaring_of_formed h.2 h.1
  | .ifElse _ yes no, h, _ =>
    ⟨yes.undeclaring_of_formed h.1.2 h.1.1, no.undeclaring_of_formed h.2.2 h.2.1⟩
  | .loop _ body, h, _ => body.undeclaring_of_formed h.2 h.1
  | .expression _, _, _ | .output _, _, _ | .block _, _, _ | .giveBack _ _, _, _ => trivial

/-- The reader has read the `for` loop `l` to its end, and `t` comes next. -/
def ForLoop.ReadBy (l : ForLoop) (b : Builder) (t : Token) (opened : List Open) : Prop :=
  b.Completes t l.body (.forBody l.initial l.condition l.increment :: opened)

/-- The body of a loop that is read declares nothing in the frame it runs in. -/
theorem ForLoop.undeclaring_of_read {l : ForLoop} {ts : List Token} {t : Token}
    {opened : List Open} (h : l.ReadBy (ts.foldl Builder.feed .start) t opened) :
    l.body.Undeclaring := by
  obtain ⟨_, inside, ho, hs⟩ := (Builder.formed_foldl ts).completes h
  cases ho
  exact l.body.undeclaring_of_formed hs.1 (hs.2 rfl)

theorem Executes.grows {i : FrameId} {c : Stmt} {s t : State} {r : Except Fault Signal}
    (hw : (s.within i).WellFormed) (h : Executes i c s r t) : s.store.Grows t.store := by
  obtain ⟨n, hn⟩ := (execute_iff hw c _ _).mpr ⟨r, t, h, rfl, rfl⟩
  exact (Session.later_execute hn).grows

/-- A statement that declares nothing in its frame leaves every name found where it was found. -/
theorem Executes.resolve?_eq {i : FrameId} {c : Stmt} (hc : c.Undeclaring) {s t : State}
    {r : Except Fault Signal} (hw : (s.within i).WellFormed) (h : Executes i c s r t)
    {j : FrameId} (hj : j < s.fresh) (name : String) :
    t.store.resolve? name j = s.store.resolve? name j := by
  have hself : (s.within i).Like .same (.identity s.fresh) (s.within i) :=
    hw.like Likeness.same_reflexive rfl
  -- the same statement, run in a frame of its own, can declare nothing in the frames around it
  have hchild := like_child hself
  have hin : c.LikeIn .same (Pairing.skip (.identity s.fresh) s.fresh i i) s.fresh i c :=
    ⟨Likeness.same_reflexive.stmt c, .inr hc⟩
  obtain ⟨q, r₁, t₁, hq, h₁, -, ht⟩ := h.like' hchild hin
  obtain ⟨n, hn⟩ := (execute_iff hchild.wellFormed c _ _).mpr ⟨r₁, t₁, h₁, rfl, rfl⟩
  have hnames : ∀ k < s.fresh, t.store.declares k name = s.store.declares k name := by
    intro k hk
    have hcore : q.Core k k := hq.core (hself.store.core_skip.mpr ⟨⟨rfl, hk⟩, nofun⟩)
    obtain ⟨f, f', hf, hf', hl⟩ := ht.store.frame hcore
    have hsame : t₁.store.declares k name = (s.child i []).store.declares k name := by
      refine Machine.execute_sameNames (.inr ⟨n, _, hn⟩) k ?_ name
      rintro (hk' | hk')
      · exact absurd hk' (Nat.ne_of_lt hk)
      · have hle : s.store.frames.size + 1 ≤ k := by
          simpa [State.within, State.child] using hk'
        exact absurd hle (Nat.not_le.mpr (Nat.lt_succ_of_lt hk))
    calc t.store.declares k name = f'.declares name := Store.declares_of_frame hf' name
      _ = f.declares name := (hl.declares name).symm
      _ = t₁.store.declares k name := (Store.declares_of_frame hf name).symm
      _ = (s.child i []).store.declares k name := hsame
      _ = s.store.declares k name := Store.declares_push hk _ _ name
  have ordered : s.store.Ordered := hw.ordered
  have ordered' : t.store.Ordered := ht.store.ordered'
  obtain ⟨chain, hchain'⟩ := ordered.exists_chain hj
  rw [(hchain'.grows (h.grows hw)).resolve? ordered', hchain'.resolve? ordered]
  exact List.find?_congr fun k hk => hnames k ((hchain'.le ordered hk).trans_lt hj)

/-- The tree of the loop, run in `w`, ended with `o` in `u`, and the loop itself after `n` rounds
with `r` and the state `t`: they printed the same and ended alike, and their frames are the same,
in the same order, except that the tree has an empty frame of its own for each round, inside the
frame of the loop. -/
structure ForLoop.Agrees (l : ForLoop) (w : World) (n : Nat) (o : Outcome) (u : World)
    (r : Except Fault Signal) (t : State) (q : Pairing) : Prop where
  scope : u.scope = w.scope
  output : u.output = t.output
  outcome : o.Like .same q (.ofSignal r)
  store : u.store.Like .same q t.store
  old : ∀ i < w.store.frames.size, q.Core i i
  spare : ∃ new : List FrameId, new.length = n * l.perRound ∧ q.spare = new.map (·, l.frame w)

theorem ForLoop.agrees_of_gains {l : ForLoop} {w : World} {n : Nat} {q : Pairing}
    {r r' : Except Fault Signal} {t t' : State}
    (hq : (Pairing.identity w.store.frames.size).Gains (l.frame w) (n * l.perRound) q)
    (hr : q.SameEnd r r') (ht : (t.within w.scope).Like .same q (t'.within w.scope)) :
    l.Agrees w n (.ofSignal r) (t.within w.scope) r' t' q := by
  refine ⟨rfl, ht.output, Outcome.like_ofSignal_iff.mpr hr, ht.store, ?_, ?_⟩
  · exact fun i hi => hq.core ⟨⟨rfl, hi⟩, nofun⟩
  · obtain ⟨new, hn, hs⟩ := hq.spare
    exact ⟨new, hn, hs.trans (List.append_nil _)⟩

/-- The frames of the rounds stay empty, in the run of the loop and in whatever is run after it. -/
theorem ForLoop.Agrees.empty {l : ForLoop} {w : World} {n : Nat} {o : Outcome} {u : World}
    {r : Except Fault Signal} {t : State} {q : Pairing} (hw : w.WellFormed)
    (h : l.Agrees w n o u r t q) (r₁ : Except Fault Signal) {next : Remaining}
    (hn : next.Confined w.existing) {σ : Session}
    (hl : Session.Later (.busy (Machine.conclude r₁ next) u) σ) {i k : FrameId}
    (hi : (i, k) ∈ q.spare) : σ.world.store.frames[i]? = some ⟨some k, []⟩ := by
  -- nothing that is left to do runs in a spare frame
  let D : Set FrameId := {i | ∀ k, (i, k) ∉ q.spare}
  have hold : w.existing ⊆ D := fun i hi => (h.old i hi).2
  have hscope : u.scope ∈ D := h.scope ▸ hold hw.scope
  obtain ⟨hr, hb⟩ := next.runsIn_of_confined hold hscope hn
  have hruns : (Session.busy (Machine.conclude r₁ next) u).RunsIn D := by
    refine ⟨?_, ?_, fun i hi k hs => Nat.not_lt.mpr hi (h.store.spare_lt hs)⟩
    · cases r₁ <;> exact hr
    · cases r₁ <;> exact hb
  exact hruns.empty hl (fun hd => hd k hi) (h.store.spare hi).1

/-- A `for` loop that is read goes on as its tree. In every well-formed world the tree ends exactly
if the loop itself, said directly, ends, and then they agree; the frames that the tree has for its
rounds stay empty, whatever else is left to do in the frames that were there before the loop and
whatever is done later. The body leaves every name found where it was found, so the increment sees
nothing that the body declared. -/
theorem forLoop_tree_means_loop {l : ForLoop} {ts : List Token} {next : Token}
    {opened : List Open} (hl : l.ReadBy (ts.foldl Builder.feed .start) next opened) :
    (ts.foldl Builder.feed .start).feed next =
      (ts.foldl Builder.feed .start).afterStatement next l.lowered opened ∧
    (∀ w : World, w.WellFormed →
      (∀ k o u, w.execute k l.lowered = some (o, u) →
        ∃ n r t q, l.Runs w.scope n w.state r t ∧ l.Agrees w n o u r t q) ∧
      (∀ n r t, l.Runs w.scope n w.state r t →
        ∃ k o u q, w.execute k l.lowered = some (o, u) ∧ l.Agrees w n o u r t q) ∧
      ∀ n o u r t q, l.Agrees w n o u r t q →
        ∀ (r₁ : Except Fault Signal) (rest : Remaining), rest.Confined w.existing →
          ∀ σ, Session.Later (.busy (Machine.conclude r₁ rest) u) σ →
            ∀ i k, (i, k) ∈ q.spare → σ.world.store.frames[i]? = some ⟨some k, []⟩) ∧
    ∀ i s r t, (State.within s i).WellFormed → Executes i l.body s r t →
      ∀ j < s.fresh, ∀ name, t.store.resolve? name j = s.store.resolve? name j := by
  have hb := ForLoop.undeclaring_of_read hl
  refine ⟨(Builder.Completes.forBody hl).feed, ?_, ?_⟩
  · intro w hw
    refine ⟨?_, ?_, ?_⟩
    · intro k o u hrun
      obtain ⟨r, t, he, rfl, rfl⟩ := (execute_iff hw l.lowered o u).mp ⟨k, hrun⟩
      obtain ⟨n, h⟩ := ForLoop.executes_lowered_iff.mp he
      obtain ⟨q, r', t', hq, h', hr, ht⟩ := ForLoop.runs_of_tree hb hw h
      exact ⟨n, r', t', q, h', ForLoop.agrees_of_gains hq hr ht⟩
    · intro n r' t' h
      obtain ⟨q, r, t, hq, h', hr, ht⟩ := ForLoop.tree_of_runs hb hw h
      have he := ForLoop.executes_lowered_iff.mpr ⟨n, h'⟩
      obtain ⟨k, hk⟩ := (execute_iff hw l.lowered _ _).mpr ⟨r, t, he, rfl, rfl⟩
      exact ⟨k, _, _, q, hk, ForLoop.agrees_of_gains hq hr ht⟩
    · intro n o u r t q h r₁ rest hrest σ hσ i k hi
      exact h.empty hw r₁ hrest hσ hi
  · intro i s r t hw h j hj name
    exact h.resolve?_eq hb hw hj name

/-- The tokens `for (create i; !i; i = true) { func f() { return i; } output f(); }`. -/
def counting : List Token :=
  [.make .for "for" 1, .make .leftParen "(" 1, .make .create "create" 1, .make .identifier "i" 1,
   .make .semicolon ";" 1, .make .bang "!" 1, .make .identifier "i" 1, .make .semicolon ";" 1,
   .make .identifier "i" 1, .make .equal "=" 1, .make .true "true" 1, .make .rightParen ")" 1,
   .make .leftBrace "\x7b" 2,
   .make .func "func" 2, .make .identifier "f" 2, .make .leftParen "(" 2, .make .rightParen ")" 2,
   .make .leftBrace "\x7b" 2, .make .return "return" 2, .make .identifier "i" 2,
   .make .semicolon ";" 2, .make .rightBrace "\x7d" 2,
   .make .output "output" 3, .make .identifier "f" 3, .make .leftParen "(" 3,
   .make .rightParen ")" 3, .make .semicolon ";" 3,
   .make .rightBrace "\x7d" 4]

def countingLoop : ForLoop where
  initial := some (.create "i" none 1)
  condition := some (.unary .not (.lookup "i" 1) 1)
  increment := some (.assign "i" (.literal (.bool true)) 1)
  body := .block [.function "f" [] [.giveBack (some (.lookup "i" 2)) 2] 2,
    .output (.call (.lookup "f" 3) [] 3)]

/-- The loop declares a function in each round and calls it; it means what its tree does. -/
theorem forLoop_tree_means_loop_counting : ∃ n r t q u,
    World.initial.execute 100 countingLoop.lowered = some (.signal .normal, u) ∧
    countingLoop.Runs 0 n World.initial.state r t ∧
    countingLoop.Agrees World.initial n (.signal .normal) u r t q ∧ t.output.text = "nil\n" := by
  have hread : countingLoop.ReadBy (counting.foldl Builder.feed .start) (.endOfInput 4) [] :=
    .read rfl
  have hrun : ∃ u, World.initial.execute 100 countingLoop.lowered = some (.signal .normal, u) ∧
      u.output.text = "nil\n" := ⟨_, by with_unfolding_all rfl, by with_unfolding_all rfl⟩
  obtain ⟨u, hu, htext⟩ := hrun
  obtain ⟨-, hworlds, -⟩ := forLoop_tree_means_loop hread
  obtain ⟨n, r, t, q, hr, ha⟩ := (hworlds World.initial initial_wellFormed).1 100 _ u hu
  exact ⟨n, r, t, q, u, hu, hr, ha, ha.output ▸ htext⟩

end ClosureLang
