import ClosureLang.Proofs.Frames.Restoration
import ClosureLang.Proofs.Scopes.Step

namespace ClosureLang

/-- Every node runs in a frame that suits its place, every function was declared in one, no chain is
longer than the program is nested, and the session comes back to the global frame. -/
structure Session.Lexical (program : List Stmt) (t : Whereabouts) (σ : Session) : Prop where
  located : σ.machine.Located (σ.world.store.Suits program)
    (σ.world.store.Declared program t.origins) t σ.world.scope
  known : σ.world.store.Known (σ.world.store.Declared program t.origins)
  shallow : ∀ i < σ.world.store.frames.size,
    ∃ c, σ.world.store.Chain i c ∧ c.length ≤ Stmt.nestingAll program + 1
  base : σ.machine.base σ.world.scope = 0

theorem World.Change.nextIdentity_le {G : Set FrameId} {w w' : World} (h : w.Change G w') :
    w.store.nextIdentity ≤ w'.store.nextIdentity := by
  cases h with
  | declare => exact Nat.le_succ _
  | same | within | println | bindAt | push => exact le_rfl

theorem Whereabouts.step_origins (t : Whereabouts) (m : Machine) (w : World) {i : Nat}
    (hi : i < w.store.nextIdentity) : (t.step m w).origins i = t.origins i := by
  cases m with
  | evaluate e next => cases e <;> rfl
  | arguments callee done rest line next => cases rest <;> rfl
  | apply callee args line next =>
    cases callee with
    | closure f =>
      simp only [step, stepApply]
      split <;> rfl
    | native | nil | bool | number | text => rfl
  | give v next =>
    cases next with
    | decision op right next =>
      simp only [step, stepGive]
      split <;> rfl
    | thenBranch yes next =>
      simp only [step, stepGive]
      split <;> rfl
    | condition condition body next =>
      simp only [step, stepGive]
      split <;> rfl
    | outcome | operand | left | right | assigned | callee | argument | discarded | printed
    | initial | branches | given => rfl
  | raise f next => cases next <;> rfl
  | execute s next =>
    cases s with
    | function name params body line => exact Function.update_of_ne hi.ne _ _
    | create name initial line => cases initial <;> rfl
    | giveBack value line => cases value <;> rfl
    | expression | output | block | ifThen | ifElse | loop => rfl
  | sequence body next => cases body <;> rfl
  | finish s next => cases s <;> cases next <;> rfl
  | abort f next => cases next <;> rfl

theorem World.Effect.chain_le {F : Closure → Prop} {n : Nat} {w w' : World}
    (h : w.Effect F (fun i => ∃ c, w'.store.Chain i c ∧ c.length ≤ n) w')
    (hg : w.store.Grows w'.store)
    (hw : ∀ i < w.store.frames.size, ∃ c, w.store.Chain i c ∧ c.length ≤ n + 1) :
    ∀ i < w'.store.frames.size, ∃ c, w'.store.Chain i c ∧ c.length ≤ n + 1 := by
  have hold : ∀ i < w.store.frames.size, ∃ c, w'.store.Chain i c ∧ c.length ≤ n + 1 := by
    intro i hi
    obtain ⟨c, hc, hl⟩ := hw i hi
    exact ⟨c, hc.grows hg, hl⟩
  cases h with
  | same | within | println => exact hold
  | bindAt | declare =>
    intro i hi
    exact hold i (Nat.lt_of_lt_of_eq hi Store.define_size)
  | push he hb =>
    intro i hi
    have hle : i < w.store.frames.size + 1 := Nat.lt_of_lt_of_eq hi Store.push_size
    rcases Nat.lt_succ_iff_lt_or_eq.mp hle with hlt | rfl
    · exact hold i hlt
    · obtain ⟨c, hc, hl⟩ := he
      exact ⟨_, .inner Array.getElem?_push_size rfl hc, Nat.succ_le_succ hl⟩

namespace Session.Lexical

variable {program : List Stmt} {t : Whereabouts} {w : World}

theorem start : Lexical program .start (.idle .initial) := by
  refine ⟨⟨trivial, trivial⟩, ?_, ?_, rfl⟩
  · intro i f hf b hb
    have hi : i < 1 := (Array.getElem?_eq_some_iff.mp hf).1
    cases Nat.lt_one_iff.mp hi
    cases Option.some.inj hf
    rcases List.mem_cons.mp hb with rfl | hb
    · trivial
    · cases List.mem_singleton.mp hb
      trivial
  · intro i hi
    cases Nat.lt_one_iff.mp hi
    exact ⟨[0], .root rfl rfl, Nat.le_add_left 1 _⟩

theorem execute (h : Lexical program t (.idle w)) (sound : (Session.idle w).Sound) {i : Nat}
    {s : Stmt} (hs : program[i]? = some s) :
    Lexical program (t.begin [i]) (.busy (.execute s .outcome) w) := by
  have hscope : w.scope = 0 := h.base
  have hsize : w.scope < w.store.frames.size := sound.grounded.world.scope
  obtain ⟨c, hc⟩ := sound.ordered.exists_chain hsize
  have hroot : c = [w.scope] := by
    cases hc with
    | root => rfl
    | inner hf he hc =>
      have hlt := sound.ordered _ _ _ hf he
      rw [hscope] at hlt
      exact absurd hlt (Nat.not_lt_zero _)
  refine ⟨⟨⟨0, c, .top hs, hc, ?_⟩, trivial⟩, h.known, h.shallow, h.base⟩
  rw [hroot]
  rfl

/-- A step goes to the next node of the text, in a frame that suits its place. -/
theorem going {m m' : Machine} {w' : World} (h : Lexical program t (.busy m w))
    (hs : m.step w = (.going m', w')) : Lexical program (t.step m w) (.busy m' w') := by
  have hchange := m.step_change w
  have hbase := m.step_base w
  rw [hs] at hchange hbase
  have hg : w.store.Grows w'.store := hchange.grows
  have hF : ∀ f, w.store.Declared program t.origins f →
      w'.store.Declared program (t.step m w).origins f := fun f hf =>
    hf.grows hg hchange.nextIdentity_le fun i hi => t.step_origins m w hi
  have hA : ∀ scope p node, w.store.Suits program scope p node →
      w'.store.Suits program scope p node := fun scope p node hp => hp.grows hg
  obtain ⟨hm, heffect⟩ := Machine.step_located (congrArg (·.2.store) hs) rfl
    (h.located.mono hA hF) (h.known.mono hF)
  rw [hs] at hm heffect
  exact ⟨hm, heffect.known (h.known.mono hF), heffect.chain_le hg h.shallow,
    hbase.trans h.base⟩

theorem ended {m : Machine} {w' : World} {o : Outcome} (h : Lexical program t (.busy m w))
    (hs : m.step w = (.ended o, w')) : Lexical program t (.idle w') := by
  have hbase := m.step_base w
  rw [hs] at hbase
  cases Machine.step_ended hs
  exact ⟨⟨trivial, trivial⟩, h.known, h.shallow, hbase.trans h.base⟩

end Session.Lexical

namespace Visits

variable {program : List Stmt} {t : Whereabouts} {w : World}

/-- Every state of a session that is followed through the text of a program is lexical. -/
theorem lexical {σ : Session} (h : Visits program t σ) : σ.Lexical program t := by
  induction h with
  | start => exact .start
  | execute h hs ih => exact ih.execute h.reachable.sound hs
  | going _ hs ih => exact ih.going hs
  | ended _ hs ih => exact ih.ended hs

theorem leads {m m' : Machine} {w' : World} (h : Visits program t (.busy m w))
    (hl : Machine.Leads m w m' w') : ∃ t', Visits program t' (.busy m' w') := by
  induction hl generalizing t with
  | refl => exact ⟨t, h⟩
  | head hs _ ih => exact ih (h.going hs)

theorem run {n : Nat} {m : Machine} {w' : World} {o : Outcome} (h : Visits program t (.busy m w))
    (hr : m.run n w = some (o, w')) : ∃ t', Visits program t' (.idle w') := by
  induction n generalizing m w t with
  | zero => simp [Machine.run] at hr
  | succ n ih =>
    rcases Machine.run_succ_cases hr with hs | ⟨m₁, w₁, hs, hr⟩
    · exact ⟨t, h.ended hs⟩
    · exact ih (h.going hs) hr

theorem interpret {n : Nat} {statements : List Stmt} {w' : World} {r : Except Fault Unit}
    (h : Visits program t (.idle w)) (hsub : statements ⊆ program)
    (hr : w.interpret n statements = some (r, w')) : ∃ t', Visits program t' (.idle w') := by
  induction statements generalizing w t with
  | nil =>
    cases Option.some.inj hr
    exact ⟨t, h⟩
  | cons s rest ih =>
    obtain ⟨i, hi⟩ := List.mem_iff_getElem?.mp (hsub (List.mem_cons_self ..))
    have hrest : rest ⊆ program := fun x hx => hsub (List.mem_cons_of_mem _ hx)
    simp only [World.interpret] at hr
    split at hr
    next => simp at hr
    next f w₁ he =>
      cases Option.some.inj hr
      exact (h.execute hi).run he
    next o w₁ _ he =>
      obtain ⟨t₁, h₁⟩ := (h.execute hi).run he
      exact ih h₁ hrest hr

end Visits

/-- All states of a run of the program are visited, those between its statements, at its end and at
every step of a statement. In each of them the node that runs next stands in the text at the place
followed so far, and the chain of the current frame ends with the global frame and has one frame
more than there are blocks and function bodies around that place. Every function that a frame holds
was declared in a frame for which the same is true of the place of the declaration. So no chain is
longer than the program is nested, whatever calls are under way. -/
theorem chains_follow_text (program : List Stmt) :
    (∀ n r w, World.initial.interpret n program = some (r, w) →
      ∃ t, Visits program t (.idle w)) ∧
    (∀ n k w₀ s m w, World.initial.interpret n (program.take k) = some (.ok (), w₀) →
      program[k]? = some s → Machine.Leads (.execute s .outcome) w₀ m w →
      ∃ t, Visits program t (.busy m w)) ∧
    ∀ t σ, Visits program t σ →
      (∀ node, σ.machine.node? = some node → (∃ d, Occurs program t.here node d) ∧
        ∀ d, Occurs program t.here node d →
          ∃ c, σ.world.store.Chain σ.world.scope c ∧ c.length = d + 1 ∧ c.getLast? = some 0) ∧
      (∀ (i : FrameId) (f : Frame) (name : String) (g : Closure),
        σ.world.store.frames[i]? = some f → (name, .closure g) ∈ f.bindings →
        ∃ line d c, Occurs program (t.origins g.identity)
            (.stmt (.function g.name g.params g.body line)) d ∧
          σ.world.store.Chain g.home c ∧ c.length = d + 1) ∧
      (∀ i < σ.world.store.frames.size,
        ∃ c, σ.world.store.Chain i c ∧ c.length ≤ Stmt.nestingAll program + 1) := by
  refine ⟨?_, ?_, ?_⟩
  · intro n r w h
    exact Visits.start.interpret (fun s hs => hs) h
  · intro n k w₀ s m w h hs hl
    obtain ⟨t, ht⟩ := Visits.start.interpret (List.take_subset k program) h
    exact (ht.execute hs).leads hl
  · intro t σ h
    have hlex := h.lexical
    have sound := h.reachable.sound
    refine ⟨?_, ?_, hlex.shallow⟩
    · intro node hnode
      have hsuits : σ.world.store.Suits program σ.world.scope t.here node := by
        have hl := hlex.located
        cases hm : σ.machine with
        | evaluate e next =>
          rw [hm] at hnode hl
          cases Option.some.inj hnode
          exact hl.1
        | execute s next =>
          rw [hm] at hnode hl
          cases Option.some.inj hnode
          exact hl.1
        | arguments | apply | give | raise | sequence | finish | abort =>
          simp [hm, Machine.node?] at hnode
      obtain ⟨d, c, hd, hc, hlen⟩ := hsuits
      refine ⟨⟨d, hd⟩, ?_⟩
      intro d' hd'
      obtain ⟨-, rfl⟩ := hd.unique hd'
      exact ⟨c, hc, hlen, hc.getLast? sound.rooted⟩
    · intro i f name g hf hb
      obtain ⟨-, line, d, c, hd, hc, hlen⟩ := hlex.known i f hf _ hb
      exact ⟨line, d, c, hd, hc, hlen⟩

/-- The program `{ func f(n) { if (n) { f(false); } } f(true); }`. -/
def descent : List Stmt :=
  [.block [.function "f" ["n"] [.ifThen (.lookup "n" 1)
      (.block [.expression (.call (.lookup "f" 1) [.literal (.bool false)] 1)])] 1,
    .expression (.call (.lookup "f" 1) [.literal (.bool true)] 1)]]

/-- The declaration of `f` is reached in a frame with a chain of two, and the five frames that the
two calls leave have chains of at most four. -/
theorem chains_follow_text_descent :
    (∃ t m w s next, Visits descent t (.busy m w) ∧ m = .execute s next ∧
      Occurs descent t.here (.stmt s) 1 ∧
      ∃ c, w.store.Chain w.scope c ∧ c.length = 2 ∧ c.getLast? = some 0) ∧
    ∃ w, World.initial.interpret 60 descent = some (.ok (), w) ∧ w.store.frames.size = 5 ∧
      ∃ c, w.store.Chain 4 c ∧ c.length ≤ 4 := by
  obtain ⟨hend, -, hstate⟩ := chains_follow_text descent
  constructor
  · have hstart : Visits descent .start (.idle .initial) := .start
    have hblock : Occurs descent [0] _ 0 := .top rfl
    have hdeclaration : Occurs descent [0, 0] _ 1 := hblock.part rfl
    have hvisit := ((hstart.execute (i := 0) rfl).going rfl).going rfl
    exact ⟨_, _, _, _, _, hvisit, rfl, hdeclaration,
      ((hstate _ _ hvisit).1 _ rfl).2 1 hdeclaration⟩
  · have hrun : ∃ w, World.initial.interpret 60 descent = some (.ok (), w) ∧
        w.store.frames.size = 5 := ⟨_, by with_unfolding_all rfl, by decide⟩
    obtain ⟨w, hrun, hsize⟩ := hrun
    obtain ⟨t, ht⟩ := hend 60 _ w hrun
    refine ⟨w, hrun, hsize, (hstate t _ ht).2.2 4 ?_⟩
    change 4 < w.store.frames.size
    omega

end ClosureLang
