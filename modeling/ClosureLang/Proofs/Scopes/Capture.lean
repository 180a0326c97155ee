import ClosureLang.Proofs.Frames.Variables
import ClosureLang.Tree.Builder

namespace ClosureLang

/-- The name that the next step declares in the current frame. -/
def Machine.declaring? : Machine → Option String
  | .give _ (.initial name _) => some name
  | .execute (.create name none _) _ => some name
  | .execute (.function name _ _ _) _ => some name
  | _ => none

/-- The next step of the session declares `name` in frame `i`. -/
def Session.Declares (σ : Session) (i : FrameId) (name : String) : Prop :=
  σ.machine.declaring? = some name ∧ σ.world.scope = i

/-- From `σ` to `σ'` a declaration of `name` is executed in frame `i`. -/
def Session.DeclaredSince (σ σ' : Session) (i : FrameId) (name : String) : Prop :=
  ∃ σ₁ σ₂, σ.Later σ₁ ∧ σ₁.Step σ₂ ∧ σ₂.Later σ' ∧ σ₁.Declares i name

namespace Store

theorem declares_define {s : Store} {i j : FrameId} (hi : i < s.frames.size) (n name : String)
    (v : Value) :
    (s.define j n v).declares i name = (s.declares i name || (j == i && n == name)) := by
  have hf : s.frames[i]? = some s.frames[i] := Array.getElem?_eq_getElem hi
  by_cases h : j = i
  · subst h
    have hd : (s.define j n v).frames[j]? = some (s.frames[j].define n v) := by
      rw [define_frames, if_pos rfl, hf]
      rfl
    rw [declares_of_frame hd, declares_of_frame hf, Frame.declares_define, Bool.or_comm]
    simp
  · have hd : (s.define j n v).frames[i]? = some s.frames[i] := by
      rw [define_frames, if_neg h, hf]
    rw [declares_of_frame hd, declares_of_frame hf]
    simp [h]

end Store

namespace Machine

/-- What a step does to the frames: it leaves them, creates one, gives a declared name a new value,
or declares a name in the current frame. -/
theorem step_frames (m : Machine) (w : World) :
    (m.declaring? = none ∧ ((step m w).2.store = w.store ∨
      (∃ enclosing bindings, (step m w).2.store = w.store.push enclosing bindings) ∨
      ∃ i name v, w.store.declares i name ∧ (step m w).2.store = w.store.define i name v)) ∨
    ∃ (name : String) (v : Value) (s : Store), m.declaring? = some name ∧
      s.frames = w.store.frames ∧ (step m w).2.store = s.define w.scope name v := by
  cases m with
  | evaluate e next =>
    cases e <;> exact .inl ⟨rfl, .inl rfl⟩
  | arguments callee done rest line next =>
    cases rest <;> exact .inl ⟨rfl, .inl rfl⟩
  | apply callee args line next =>
    refine .inl ⟨rfl, ?_⟩
    cases callee with
    | closure f =>
      simp only [step, going, stepApply]
      split
      next => exact .inr (.inl ⟨_, _, rfl⟩)
      next => exact .inl rfl
    | native f =>
      simp only [step, going, stepApply]
      split
      next => exact .inl rfl
      next => exact .inl rfl
    | nil | bool | number | text => exact .inl rfl
  | give v next =>
    cases next with
    | assigned name line next =>
      refine .inl ⟨rfl, ?_⟩
      simp only [step, stepGive]
      split
      next i hi => exact .inr (.inr ⟨i, name, v, Store.declares_of_resolve? hi, rfl⟩)
      next => exact .inl rfl
    | initial name next => exact .inr ⟨name, v, w.store, rfl, rfl, rfl⟩
    | outcome | operand | left | right | decision | callee | argument | discarded | printed
    | thenBranch | branches | condition | given => exact .inl ⟨rfl, .inl rfl⟩
  | raise f next =>
    cases next <;> exact .inl ⟨rfl, .inl rfl⟩
  | execute s next =>
    cases s with
    | create name initial line =>
      cases initial with
      | some e => exact .inl ⟨rfl, .inl rfl⟩
      | none => exact .inr ⟨name, .nil, w.store, rfl, rfl, rfl⟩
    | block body => exact .inl ⟨rfl, .inr (.inl ⟨_, _, rfl⟩)⟩
    | function name params body line =>
      exact .inr ⟨name, _, (w.store.declare name params body w.scope).2, rfl, rfl, rfl⟩
    | giveBack value line => cases value <;> exact .inl ⟨rfl, .inl rfl⟩
    | expression | output | ifThen | ifElse | loop => exact .inl ⟨rfl, .inl rfl⟩
  | sequence body next =>
    cases body <;> exact .inl ⟨rfl, .inl rfl⟩
  | finish s next =>
    cases next <;> cases s <;> exact .inl ⟨rfl, .inl rfl⟩
  | abort f next =>
    cases next <;> exact .inl ⟨rfl, .inl rfl⟩

/-- A frame that is there gains by a step the name that is declared in it, and no other. -/
theorem step_declares (m : Machine) (w : World) {i : FrameId} (hi : i < w.store.frames.size)
    (name : String) :
    (step m w).2.store.declares i name ↔
      w.store.declares i name ∨ (m.declaring? = some name ∧ w.scope = i) := by
  rcases step_frames m w with ⟨hn, hs | ⟨enclosing, bindings, hs⟩ | ⟨j, n, v, hd, hs⟩⟩ |
    ⟨n, v, s, hn, hf, hs⟩
  · simp [hs, hn]
  · simp [hs, hn, Store.declares_push hi]
  · rw [hs, Store.declares_define hi, hn]
    have hold : j = i → n = name → w.store.declares i name := by
      rintro rfl rfl
      exact hd
    simpa using hold
  · have hsame : s.declares i name = w.store.declares i name := by
      simp only [Store.declares, hf]
    rw [hs, Store.declares_define (by rwa [hf]), hn, hsame]
    simp [and_comm]

end Machine

namespace Session

variable {σ σ' : Session}

theorem Step.declares (h : Step σ σ') {i : FrameId} (hi : i < σ.world.store.frames.size)
    (name : String) :
    σ'.world.store.declares i name ↔ σ.world.store.declares i name ∨ σ.Declares i name := by
  cases h with
  | evaluate e => simp [Session.world, Declares, Session.machine, Machine.declaring?]
  | execute s => simp [Session.world, Declares, Session.machine, Machine.declaring?]
  | @going m m' w w' hs =>
    have hd := m.step_declares w hi name
    rw [hs] at hd
    exact hd
  | @ended m w w' o hs =>
    have hd := m.step_declares w hi name
    rw [hs] at hd
    exact hd

theorem Later.exists_frame (h : Later σ σ') {i : FrameId} (hi : i < σ.world.store.frames.size) :
    i < σ'.world.store.frames.size := by
  obtain ⟨f, hf, -⟩ := h.grows i _ (Array.getElem?_eq_getElem hi)
  exact (Array.getElem?_eq_some_iff.mp hf).1

theorem DeclaredSince.tail {σ₁ : Session} {i : FrameId} {name : String}
    (h : σ.DeclaredSince σ₁ i name) (hs : Step σ₁ σ') : σ.DeclaredSince σ' i name := by
  obtain ⟨τ, τ', h₁, h₂, h₃, hd⟩ := h
  exact ⟨τ, τ', h₁, h₂, h₃.tail hs, hd⟩

/-- A frame has the names that it had, and those that have been declared in it since. -/
theorem Later.declares (h : Later σ σ') {i : FrameId} (hi : i < σ.world.store.frames.size)
    (name : String) :
    σ'.world.store.declares i name ↔
      σ.world.store.declares i name ∨ σ.DeclaredSince σ' i name := by
  constructor
  · intro hd
    induction h with
    | refl => exact .inl hd
    | @tail τ τ' hl hs ih =>
      rcases (hs.declares (Later.exists_frame hl hi) name).mp hd with hd | hd
      · exact (ih hd).imp_right fun hs' => hs'.tail hs
      · exact .inr ⟨τ, τ', hl, hs, .refl, hd⟩
  · rintro (hd | ⟨τ, τ', h₁, hs, h₂, hd⟩)
    · exact h.grows.declares hd
    · exact h₂.grows.declares ((hs.declares (h₁.exists_frame hi) name).mpr (.inr hd))

end Session

theorem Frame.declares_bindAll {params : List String} {args : List Value} {name : String}
    (h : name ∉ params) (enclosing : Option FrameId) :
    (Frame.mk enclosing (Frame.bindAll params args)).declares name = false := by
  have go : ∀ (pairs : List (String × Value)) (f : Frame), (∀ p ∈ pairs, p.1 ≠ name) →
      f.declares name = false →
      (Frame.mk f.enclosing (pairs.foldl (fun bs p => Frame.bind p.1 p.2 bs) f.bindings)).declares
        name = false := by
    intro pairs
    induction pairs with
    | nil => exact fun f _ hf => hf
    | cons p rest ih =>
      intro f hp hf
      obtain ⟨hne, hrest⟩ := List.forall_mem_cons.mp hp
      refine ih (f.define p.1 p.2) hrest ?_
      simp [Frame.declares_define, hf, hne]
  refine go (params.zip args) ⟨enclosing, []⟩ ?_ rfl
  rintro p hp rfl
  exact h (List.of_mem_zip hp).1

namespace Store

theorem Chain.suffix {s : Store} {i j : FrameId} {inner outer : List FrameId}
    (h : s.Chain i (inner ++ j :: outer)) : s.Chain j (j :: outer) := by
  induction inner generalizing i with
  | nil =>
    cases h with
    | root hf he => exact .root hf he
    | inner hf he h => exact .inner hf he h
  | cons k inner ih =>
    generalize hc : k :: inner ++ j :: outer = c at h
    cases h with
    | root => simp at hc
    | inner _ _ h =>
      obtain ⟨-, rfl⟩ := List.cons.inj hc
      exact ih h

/-- A name is found from a frame where it is found from the outer frames that are seen from it. -/
theorem Sees.resolve?_eq {s : Store} (ordered : s.Ordered) {name : String} {i j : FrameId}
    (h : s.Sees name i j) : s.resolve? name i = s.resolve? name j := by
  obtain ⟨near, far, hc, hnear⟩ := h
  have hnone : (near.find? fun k => s.declares k name) = none :=
    List.find?_eq_none.mpr fun k hk => by simp [hnear k hk]
  rw [hc.resolve? ordered, hc.suffix.resolve? ordered, List.find?_append, hnone, Option.none_or]

/-- A new frame hides only the names that it is created with. -/
theorem sees_push {s : Store} (ordered : s.Ordered) {home : FrameId} (hh : home < s.frames.size)
    {bindings : List (String × Value)} {name : String}
    (hb : (Frame.mk (some home) bindings).declares name = false) :
    (s.push (some home) bindings).Sees name s.frames.size home := by
  obtain ⟨c, hc⟩ := ordered.exists_chain hh
  have hnew : (s.push (some home) bindings).frames[s.frames.size]? =
      some ⟨some home, bindings⟩ := by
    rw [push_frames, if_pos rfl]
  have hchain := Chain.inner hnew rfl (hc.grows (.push s (some home) bindings))
  obtain ⟨outer, rfl⟩ : ∃ outer, c = home :: outer := by
    cases hc <;> exact ⟨_, rfl⟩
  refine ⟨[s.frames.size], outer, hchain, fun i hi => ?_⟩
  rw [List.mem_singleton.mp hi, declares_of_frame hnew, hb]

end Store

namespace World

/-- In the current frame the name is read and assigned as it is in frame `home`. -/
structure UsesFrom (w : World) (name : String) (home : FrameId) : Prop where
  read : ∀ line next, Machine.step (.evaluate (.lookup name line) next) w =
    (.going (Machine.settle (w.store.get home name line) next), w)
  assigned : ∀ v line next i, w.store.resolve? name home = some i →
    Machine.step (.give v (.assigned name line next)) w = (.going (.give v next), w.bindAt i name v)
  undeclared : ∀ v line next, w.store.resolve? name home = none →
    Machine.step (.give v (.assigned name line next)) w =
      (.going (.raise (.undefinedVariable name line) next), w)

/-- A name is read and assigned as it is in an outer frame that is seen for it. -/
theorem usesFrom_of_sees {w : World} (ordered : w.store.Ordered) {name : String} {home : FrameId}
    (h : w.store.Sees name w.scope home) : w.UsesFrom name home := by
  have hr := h.resolve?_eq ordered
  constructor
  · intro line next
    simp only [Machine.step, Machine.going, Machine.stepEvaluate, Store.get, hr]
  · intro v line next i hi
    simp only [Machine.step, Machine.stepGive, hr, hi]
  · intro v line next hi
    simp only [Machine.step, Machine.stepGive, hr, hi]

end World

/-- If a name, looked up from where a function was declared, was once found in frame `g`, the frames
around the function are still the same in every later state, and the name is found in `g` exactly
as long as no declaration of it has been executed in a frame nearer to the function; if one has, the
name is found in the nearest such frame. Wherever no frame on the way to the function has the name,
it is read and assigned there, and every call begins at such a place for the names that are none of
the parameters. -/
theorem capture_follows_declarations {σ σ' : Session} (hσ : σ.Reachable) (hl : σ.Later σ')
    (f : Closure) (name : String) {g : FrameId}
    (hg : σ.world.store.resolve? name f.home = some g) :
    (∃ near far, σ.world.store.Chain f.home (near ++ g :: far) ∧
      σ'.world.store.Chain f.home (near ++ g :: far) ∧
      (σ'.world.store.resolve? name f.home = some g ↔
        ∀ i ∈ near, ¬ σ.DeclaredSince σ' i name) ∧
      ∀ nearer i farther, near = nearer ++ i :: farther → σ.DeclaredSince σ' i name →
        (∀ j ∈ nearer, ¬ σ.DeclaredSince σ' j name) →
        σ'.world.store.resolve? name f.home = some i) ∧
    (σ'.world.store.Sees name σ'.world.scope f.home → σ'.world.UsesFrom name f.home) ∧
    ∀ args next, name ∉ f.params →
      (Machine.enter f args next σ'.world).2.store.Sees name
        (Machine.enter f args next σ'.world).2.scope f.home := by
  have ordered := hσ.sound.ordered
  have ordered' := (hσ.sound.later hl).ordered
  have hh := Store.lt_size_of_resolve? hg
  refine ⟨?_, World.usesFrom_of_sees ordered', fun args next hname =>
    Store.sees_push ordered' (hl.exists_frame hh) (Frame.declares_bindAll hname _)⟩
  obtain ⟨c, hc⟩ := ordered.exists_chain hh
  rw [hc.resolve? ordered, List.find?_eq_some_iff_append] at hg
  obtain ⟨hd, near, far, rfl, hnear⟩ := hg
  have hc' := hc.grows hl.grows
  -- a nearer frame that has the name now has got it by a declaration since then
  have hsince : ∀ i ∈ near, (σ'.world.store.declares i name ↔ σ.DeclaredSince σ' i name) := by
    intro i hi
    have hlt : i < σ.world.store.frames.size :=
      (hc.le ordered (List.mem_append_left _ hi)).trans_lt hh
    rw [hl.declares hlt name, or_iff_right]
    simpa using hnear i hi
  have hfind : σ'.world.store.resolve? name f.home =
      (near.find? fun i => σ'.world.store.declares i name).or (some g) := by
    rw [hc'.resolve? ordered', List.find?_append, List.find?_cons, hl.grows.declares hd]
  refine ⟨near, far, hc, hc', ?_, ?_⟩
  · rw [hfind]
    constructor
    · intro h i hi hdecl
      cases hn : near.find? fun i => σ'.world.store.declares i name with
      | none =>
        have hnone := List.find?_eq_none.mp hn i hi
        exact hnone ((hsince i hi).mpr hdecl)
      | some k =>
        rw [hn] at h
        cases Option.some.inj h
        have hlt := (List.pairwise_append.mp (hc.decreasing ordered)).2.2 g
          (List.mem_of_find?_eq_some hn) g (List.mem_cons_self ..)
        exact absurd hlt (lt_irrefl g)
    · intro h
      have hnone : (near.find? fun i => σ'.world.store.declares i name) = none :=
        List.find?_eq_none.mpr fun i hi hd' => h i hi ((hsince i hi).mp hd')
      rw [hnone]
      rfl
  · rintro nearer i farther rfl hdecl hnot
    have hsome : ((nearer ++ i :: farther).find? fun i => σ'.world.store.declares i name) =
        some i := by
      refine List.find?_eq_some_iff_append.mpr ⟨?_, nearer, farther, rfl, ?_⟩
      · exact (hsince i (by simp)).mpr hdecl
      · intro j hj
        have hno := mt (hsince j (by simp [hj])).mp (hnot j hj)
        simpa using hno
    rw [hfind, hsome]
    rfl

/-- The machine and the world after `n` steps, if the run has not ended by then. -/
def Machine.advance : Nat → Machine → World → Option (Machine × World)
  | 0, m, w => some (m, w)
  | n + 1, m, w =>
    match step m w with
    | (.going m, w) => advance n m w
    | (.ended _, _) => none

theorem Session.later_of_advance {n : Nat} {m m' : Machine} {w w' : World}
    (h : m.advance n w = some (m', w')) : Later (.busy m w) (.busy m' w') := by
  induction n generalizing m w with
  | zero =>
    cases Option.some.inj h
    exact .refl
  | succ n ih =>
    unfold Machine.advance at h
    split at h
    next m₁ w₁ hs => exact .head (.going hs) (ih h)
    next => simp at h

/-- The tokens of `create a = "global"; { func show() { output a; } show(); create a = "block";
show(); }`: between two calls a name that the function uses is declared around it. -/
def shadowing : List Token :=
  [.make .create "create" 1, .make .identifier "a" 1, .make .equal "=" 1,
   .make .string "\"global\"" 1, .make .semicolon ";" 1,
   .make .leftBrace "\x7b" 2,
   .make .func "func" 2, .make .identifier "show" 2, .make .leftParen "(" 2,
   .make .rightParen ")" 2, .make .leftBrace "\x7b" 2, .make .output "output" 2,
   .make .identifier "a" 2, .make .semicolon ";" 2, .make .rightBrace "\x7d" 2,
   .make .identifier "show" 3, .make .leftParen "(" 3, .make .rightParen ")" 3,
   .make .semicolon ";" 3,
   .make .create "create" 4, .make .identifier "a" 4, .make .equal "=" 4,
   .make .string "\"block\"" 4, .make .semicolon ";" 4,
   .make .identifier "show" 5, .make .leftParen "(" 5, .make .rightParen ")" 5,
   .make .semicolon ";" 5,
   .make .rightBrace "\x7d" 6]

def shadowed : Stmt :=
  .create "a" (some (.literal (.text "global"))) 1

def shadowingBlock : Stmt :=
  .block [.function "show" [] [.output (.lookup "a" 2)] 2,
    .expression (.call (.lookup "show" 3) [] 3), .create "a" (some (.literal (.text "block"))) 4,
    .expression (.call (.lookup "show" 5) [] 5)]

/-- The function of the program, declared in the frame of the block. -/
def showing : Closure :=
  ⟨"show", [], [.output (.lookup "a" 2)], 1, 0⟩

/-- The states after the first call and after the second. -/
theorem shadowing_states : ∃ w σ σ',
    World.initial.execute 9 shadowed = some (.signal .normal, w) ∧
    Session.Later (.busy (.execute shadowingBlock .outcome) w) σ ∧ σ.Later σ' ∧
    σ.world.store.get 1 "show" 3 = .ok (.closure showing) ∧
    σ'.world.store.get 1 "show" 5 = .ok (.closure showing) ∧
    σ.world.store.resolve? "a" showing.home = some 0 ∧
    σ'.world.store.resolve? "a" showing.home = some 1 ∧
    σ.world.output.text = "global\n" ∧ σ'.world.output.text = "global\nblock\n" ∧
    σ.world.store.Chain 1 [1, 0] := by
  have hruns : ∃ w m₁ w₁ m₂ w₂,
      World.initial.execute 9 shadowed = some (.signal .normal, w) ∧
      (Machine.execute shadowingBlock .outcome).advance 19 w = some (m₁, w₁) ∧
      m₁.advance 21 w₁ = some (m₂, w₂) ∧
      w₁.store.get 1 "show" 3 = .ok (.closure showing) ∧
      w₂.store.get 1 "show" 5 = .ok (.closure showing) ∧
      w₁.store.resolve? "a" 1 = some 0 ∧ w₂.store.resolve? "a" 1 = some 1 ∧
      w₁.output.text = "global\n" ∧ w₂.output.text = "global\nblock\n" ∧
      w₁.store.Chain 1 [1, 0] :=
    ⟨_, _, _, _, _, rfl, by with_unfolding_all rfl, by with_unfolding_all rfl,
      by with_unfolding_all rfl, by with_unfolding_all rfl, by with_unfolding_all rfl,
      by with_unfolding_all rfl, by with_unfolding_all rfl, by with_unfolding_all rfl,
      .inner rfl rfl (.root rfl rfl)⟩
  obtain ⟨w, m₁, w₁, m₂, w₂, h, h₁, h₂, hrest⟩ := hruns
  exact ⟨w, .busy m₁ w₁, .busy m₂ w₂, h, Session.later_of_advance h₁,
    Session.later_of_advance h₂, hrest⟩

/-- Between the two calls of the program the name is declared in the block. -/
theorem capture_follows_declarations_shadowing : ∃ σ σ' : Session, σ.Reachable ∧ σ.Later σ' ∧
    σ.world.store.resolve? "a" showing.home = some 0 ∧
    σ'.world.store.resolve? "a" showing.home = some 1 ∧ σ.DeclaredSince σ' 1 "a" := by
  obtain ⟨w, σ, σ', h, hl, hl', -, -, h₁, h₂, -, -, hc⟩ := shadowing_states
  have hreach : σ.Reachable := ((Session.later_execute h).tail (.execute _)).trans hl
  obtain ⟨⟨near, far, hc', -, hstill, -⟩, -⟩ :=
    capture_follows_declarations hreach hl' showing "a" h₁
  refine ⟨σ, σ', hreach, hl', h₁, h₂, ?_⟩
  have hmoved : ∃ i ∈ near, σ.DeclaredSince σ' i "a" := by
    by_contra hnone
    push Not at hnone
    rw [hstill.mpr hnone] at h₂
    simp at h₂
  obtain ⟨i, hi, hd⟩ := hmoved
  have hnear : near ++ 0 :: far = [1, 0] := hc'.unique hc
  have hone : near = [1] := by
    match near, hnear with
    | [k], hnear => simpa using (List.cons.inj hnear).1
    | k :: l :: near, hnear => simp at hnear
  cases List.mem_singleton.mp (hone ▸ hi)
  exact hd

/-- A name that a function uses is found in the global frame at one call and in the frame of the
block at the next, in a program that is read without complaint. -/
theorem capture_redirected_by_declaration : ∃ w σ σ',
    parse shadowing = ⟨[shadowed, shadowingBlock], []⟩ ∧
    World.initial.execute 9 shadowed = some (.signal .normal, w) ∧
    Session.Later (.busy (.execute shadowingBlock .outcome) w) σ ∧ σ.Later σ' ∧
    σ.world.store.get 1 "show" 3 = .ok (.closure showing) ∧
    σ'.world.store.get 1 "show" 5 = .ok (.closure showing) ∧
    σ.world.store.resolve? "a" showing.home = some 0 ∧
    σ'.world.store.resolve? "a" showing.home = some 1 ∧
    σ.world.output.text = "global\n" ∧ σ'.world.output.text = "global\nblock\n" := by
  obtain ⟨w, σ, σ', h, hl, hl', hf, hf', h₁, h₂, ho, ho', -⟩ := shadowing_states
  exact ⟨w, σ, σ', rfl, h, hl, hl', hf, hf', h₁, h₂, ho, ho'⟩

end ClosureLang
