import ClosureLang.Proofs.Scopes.Nodes

namespace ClosureLang

/-- Every function among the values is known. -/
def Value.Known (F : Closure → Prop) : Value → Prop
  | .closure f => F f
  | _ => True

def Signal.Known (F : Closure → Prop) : Signal → Prop
  | .normal => True
  | .returned v => v.Known F

def Store.Known (F : Closure → Prop) (s : Store) : Prop :=
  ∀ (i : FrameId) (f : Frame), s.frames[i]? = some f → ∀ b ∈ f.bindings, b.2.Known F

/-- The nodes stand one after the other from the place `p` on. -/
def NodesAt (A : FrameId → Path → Node → Prop) (scope : FrameId) (p : Path) (nodes : List Node) :
    Prop :=
  ∀ (i : Nat) (node : Node), nodes[i]? = some node → A scope (p.after i) node

mutual

/-- What waits for a value is kept for the places `ps`, the current frame being `scope`. -/
def Awaiting.Located (A : FrameId → Path → Node → Prop) (F : Closure → Prop) (scope : FrameId)
    (ps : List Path) : Awaiting → Prop
  | .outcome => True
  | .operand _ _ next | .assigned _ _ next => next.Located A F scope ps.tail
  | .left _ right _ next =>
    A scope (1 :: ps.headD []) (.expr right) ∧ next.Located A F scope ps.tail
  | .right left _ _ next => left.Known F ∧ next.Located A F scope ps.tail
  | .decision _ right next =>
    A scope (1 :: ps.headD []) (.expr right) ∧ next.Located A F scope ps.tail
  | .callee args _ next =>
    NodesAt A scope (1 :: ps.headD []) (args.map .expr) ∧ next.Located A F scope ps.tail
  | .argument callee done rest _ next =>
    callee.Known F ∧ (∀ v ∈ done, v.Known F) ∧
      NodesAt A scope ((done.length + 2) :: ps.headD []) (rest.map .expr) ∧
      next.Located A F scope ps.tail
  | .discarded next | .printed next | .initial _ next | .given next =>
    next.Located A F scope ps.tail
  | .thenBranch yes next =>
    A scope (1 :: ps.headD []) (.stmt yes) ∧ next.Located A F scope ps.tail
  | .branches yes no next =>
    A scope (1 :: ps.headD []) (.stmt yes) ∧ A scope (2 :: ps.headD []) (.stmt no) ∧
      next.Located A F scope ps.tail
  | .condition condition body next =>
    A scope (0 :: ps.headD []) (.expr condition) ∧ A scope (1 :: ps.headD []) (.stmt body) ∧
      next.Located A F scope ps.tail

/-- What is left to do is kept for the places `ps`, the current frame being `scope`. -/
def Remaining.Located (A : FrameId → Path → Node → Prop) (F : Closure → Prop) (scope : FrameId)
    (ps : List Path) : Remaining → Prop
  | .outcome => True
  | .statements rest next =>
    NodesAt A scope (Path.after 1 (ps.headD [])) (rest.map .stmt) ∧
      next.Located A F scope ps.tail
  | .round condition body next =>
    A scope (0 :: ps.headD []) (.expr condition) ∧ A scope (1 :: ps.headD []) (.stmt body) ∧
      next.Located A F scope ps.tail
  | .blockEnd outer next => next.Located A F outer ps.tail
  | .callEnd outer next => next.Located A F outer ps.tail

end

/-- The machine is at the place where the whereabouts say. -/
def Machine.Located (A : FrameId → Path → Node → Prop) (F : Closure → Prop) (t : Whereabouts)
    (scope : FrameId) : Machine → Prop
  | .evaluate e next => A scope t.here (.expr e) ∧ next.Located A F scope t.waiting
  | .arguments callee done rest _ next =>
    callee.Known F ∧ (∀ v ∈ done, v.Known F) ∧
      NodesAt A scope ((done.length + 1) :: t.here) (rest.map .expr) ∧
      next.Located A F scope t.waiting
  | .apply callee args _ next =>
    callee.Known F ∧ (∀ v ∈ args, v.Known F) ∧ next.Located A F scope t.waiting
  | .give v next => v.Known F ∧ next.Located A F scope t.waiting
  | .raise _ next => next.Located A F scope t.waiting
  | .execute s next => A scope t.here (.stmt s) ∧ next.Located A F scope t.waiting
  | .sequence body next =>
    NodesAt A scope t.here (body.map .stmt) ∧ next.Located A F scope t.waiting
  | .finish s next => s.Known F ∧ next.Located A F scope t.waiting
  | .abort _ next => next.Located A F scope t.waiting

def Progress.Located (A : FrameId → Path → Node → Prop) (F : Closure → Prop) (t : Whereabouts)
    (scope : FrameId) : Progress → Prop
  | .ended _ => True
  | .going m => m.Located A F t scope

/-- What one step can do to a world: the values that it binds are known, and the frames that it
creates belong to frames of `E`. -/
inductive World.Effect (F : Closure → Prop) (E : FrameId → Prop) (w : World) : World → Prop where
  | same : Effect F E w w
  | within {scope : FrameId} : Effect F E w (w.within scope)
  | println {line : String} : Effect F E w (w.println line)
  | bindAt {i : FrameId} {name : String} {v : Value} (hv : v.Known F) :
      Effect F E w (w.bindAt i name v)
  | declare {name : String} {params : List String} {body : List Stmt}
      (hf : F ⟨name, params, body, w.scope, w.store.nextIdentity⟩) :
      Effect F E w (w.declare name params body)
  | push {enclosing : FrameId} {bindings : List (String × Value)} (he : E enclosing)
      (hb : ∀ b ∈ bindings, b.2.Known F) : Effect F E w (w.push enclosing bindings)

section Monotone

variable {A A' : FrameId → Path → Node → Prop} {F F' : Closure → Prop}

theorem Value.Known.mono (hF : ∀ f, F f → F' f) {v : Value} (h : v.Known F) : v.Known F' := by
  cases v with
  | closure f => exact hF f h
  | nil | bool | number | text | native => trivial

theorem Signal.Known.mono (hF : ∀ f, F f → F' f) {s : Signal} (h : s.Known F) : s.Known F' := by
  cases s with
  | normal => trivial
  | returned v => exact Value.Known.mono hF h

theorem Store.Known.mono (hF : ∀ f, F f → F' f) {s : Store} (h : s.Known F) : s.Known F' :=
  fun i f hf b hb => (h i f hf b hb).mono hF

theorem NodesAt.mono (hA : ∀ scope p node, A scope p node → A' scope p node) {scope : FrameId}
    {p : Path} {nodes : List Node} (h : NodesAt A scope p nodes) : NodesAt A' scope p nodes :=
  fun i node hi => hA _ _ _ (h i node hi)

mutual

theorem Awaiting.located_mono (hA : ∀ scope p node, A scope p node → A' scope p node)
    (hF : ∀ f, F f → F' f) {scope : FrameId} {ps : List Path} :
    (a : Awaiting) → a.Located A F scope ps → a.Located A' F' scope ps
  | .outcome, _ => trivial
  | .operand _ _ next, h | .assigned _ _ next, h => next.located_mono hA hF h
  | .left _ _ _ next, h | .decision _ _ next, h => ⟨hA _ _ _ h.1, next.located_mono hA hF h.2⟩
  | .right _ _ _ next, h => ⟨h.1.mono hF, next.located_mono hA hF h.2⟩
  | .callee _ _ next, h => ⟨h.1.mono hA, next.located_mono hA hF h.2⟩
  | .argument _ _ _ _ next, ⟨hc, hd, hr, hn⟩ =>
    ⟨hc.mono hF, fun v hv => (hd v hv).mono hF, hr.mono hA, next.located_mono hA hF hn⟩
  | .discarded next, h | .printed next, h | .initial _ next, h | .given next, h =>
    next.located_mono hA hF h
  | .thenBranch _ next, h => ⟨hA _ _ _ h.1, next.located_mono hA hF h.2⟩
  | .branches _ _ next, h | .condition _ _ next, h =>
    ⟨hA _ _ _ h.1, hA _ _ _ h.2.1, next.located_mono hA hF h.2.2⟩

theorem Remaining.located_mono (hA : ∀ scope p node, A scope p node → A' scope p node)
    (hF : ∀ f, F f → F' f) {scope : FrameId} {ps : List Path} :
    (r : Remaining) → r.Located A F scope ps → r.Located A' F' scope ps
  | .outcome, _ => trivial
  | .statements _ next, h => ⟨h.1.mono hA, next.located_mono hA hF h.2⟩
  | .round _ _ next, h => ⟨hA _ _ _ h.1, hA _ _ _ h.2.1, next.located_mono hA hF h.2.2⟩
  | .blockEnd _ next, h => next.located_mono hA hF h
  | .callEnd _ next, h => next.located_mono hA hF h

end

/-- A machine that is located stays so if frames suit more places and more functions are known. -/
theorem Machine.Located.mono (hA : ∀ scope p node, A scope p node → A' scope p node)
    (hF : ∀ f, F f → F' f) {t : Whereabouts} {scope : FrameId} {m : Machine}
    (h : m.Located A F t scope) : m.Located A' F' t scope := by
  cases m with
  | evaluate e next => exact ⟨hA _ _ _ h.1, next.located_mono hA hF h.2⟩
  | arguments callee done rest line next =>
    obtain ⟨hc, hd, hr, hn⟩ := h
    exact ⟨hc.mono hF, fun v hv => (hd v hv).mono hF, hr.mono hA, next.located_mono hA hF hn⟩
  | apply callee args line next =>
    obtain ⟨hc, ha, hn⟩ := h
    exact ⟨hc.mono hF, fun v hv => (ha v hv).mono hF, next.located_mono hA hF hn⟩
  | give v next => exact ⟨h.1.mono hF, next.located_mono hA hF h.2⟩
  | raise f next => exact next.located_mono hA hF h
  | execute s next => exact ⟨hA _ _ _ h.1, next.located_mono hA hF h.2⟩
  | sequence body next => exact ⟨h.1.mono hA, next.located_mono hA hF h.2⟩
  | finish s next => exact ⟨h.1.mono hF, next.located_mono hA hF h.2⟩
  | abort f next => exact next.located_mono hA hF h

end Monotone

section Values

variable {F : Closure → Prop}

theorem Value.known_of_ne_closure {v : Value} (h : ∀ f, v ≠ .closure f) : v.Known F := by
  cases v with
  | closure f => exact absurd rfl (h f)
  | nil | bool | number | text | native => trivial

theorem Store.Known.get {s : Store} {name : String} {i : FrameId} {line : Nat} {v : Value}
    (hs : s.Known F) (h : s.get i name line = .ok v) : v.Known F := by
  unfold Store.get at h
  split at h
  next u hu =>
    cases Except.ok.inj h
    obtain ⟨j, -, hu⟩ := Option.bind_eq_some_iff.mp hu
    obtain ⟨f, hf, hu⟩ := Option.bind_eq_some_iff.mp hu
    obtain ⟨before, after, he, -⟩ := List.lookup_eq_some_iff.mp hu
    exact hs j f hf (name, v) (by simp [he])
  next => simp at h

theorem Store.Known.define {s : Store} {i : FrameId} {name : String} {v : Value} (hs : s.Known F)
    (hv : v.Known F) : (s.define i name v).Known F := by
  intro j f hf b hb
  rw [define_frames] at hf
  split at hf
  next =>
    obtain ⟨old, ho, rfl⟩ := Option.map_eq_some_iff.mp hf
    rcases Frame.mem_bind hb with he | hb
    · exact he ▸ hv
    · exact hs j old ho b hb
  next => exact hs j f hf b hb

theorem World.Effect.known {E : FrameId → Prop} {w w' : World} (h : w.Effect F E w')
    (hw : w.store.Known F) : w'.store.Known F := by
  cases h with
  | same | within | println => exact hw
  | bindAt hv => exact hw.define hv
  | declare hf =>
    have hs : Store.Known F { w.store with nextIdentity := w.store.nextIdentity + 1 } := hw
    exact hs.define hf
  | push he hb =>
    intro j f hf
    rw [World.push, Store.push_frames] at hf
    split at hf
    next =>
      cases Option.some.inj hf
      exact hb
    next => exact hw j f hf

end Values

end ClosureLang
