import ClosureLang.CommandLine
import ClosureLang.Proofs.Frames.Restoration

namespace ClosureLang

theorem Report.lines_append (texts more : List String) :
    lines (texts ++ more) = lines texts ++ lines more := by
  simp [lines, String.join_append]

namespace Output

/-- Prints the display form of each value on a line of its own. -/
def printAll (o : Output) (printed : List Value) : Output :=
  printed.foldl (fun o v => o.println v.display) o

theorem printAll_printAll (o : Output) (printed more : List Value) :
    (o.printAll printed).printAll more = o.printAll (printed ++ more) :=
  List.foldl_append.symm

/-- Printing values appends the lines of their display forms. -/
theorem printAll_eq (o : Output) (printed : List Value) :
    o.printAll printed = o.append (Report.lines (printed.map Value.display)) := by
  induction printed generalizing o with
  | nil => simp [printAll, Report.lines]
  | cons v printed ih =>
    rw [printAll, List.foldl_cons, ← printAll, ih, println_eq_append]
    simp [Report.lines]

end Output

namespace Machine

/-- The value that the next step prints. -/
def printing? : Machine → Option Value
  | .give v (.printed _) => some v
  | _ => none

/-- The values that at most `steps` steps print, in their order. -/
def printed : Nat → Machine → World → List Value
  | 0, _, _ => []
  | steps + 1, m, w =>
    m.printing?.toList ++
      match step m w with
      | (.ended _, _) => []
      | (.going m, w) => printed steps m w

variable {store : Store} {scope : FrameId}

/-- What happens from a store and a frame is the same for every output, and prints `printed`
behind it. -/
def Oblivious {α : Type} (store : Store) (scope : FrameId) (printed : List Value)
    (act : World → α × World) : Prop :=
  ∃ result store' scope', ∀ o : Output,
    act ⟨store, scope, o⟩ = (result, ⟨store', scope', o.printAll printed⟩)

theorem Oblivious.silent {α : Type} {act : World → α × World}
    (h : ∀ o, act ⟨store, scope, o⟩ =
      ((act ⟨store, scope, .empty⟩).1, { (act ⟨store, scope, .empty⟩).2 with output := o })) :
    Oblivious store scope [] act :=
  ⟨_, _, _, h⟩

theorem Oblivious.going {printed : List Value} {act : World → Machine × World}
    (h : Oblivious store scope printed act) :
    Oblivious store scope printed fun w => going (act w) := by
  obtain ⟨m, store', scope', h⟩ := h
  exact ⟨.going m, store', scope', fun o => congrArg Machine.going (h o)⟩

theorem stepEvaluate_oblivious (e : Expr) (next : Awaiting) :
    Oblivious store scope [] (stepEvaluate e next) := by
  cases e <;> exact .silent fun _ => rfl

theorem stepApply_oblivious (callee : Value) (args : List Value) (line : Nat) (next : Awaiting) :
    Oblivious store scope [] (stepApply callee args line next) := by
  cases callee with
  | closure f =>
    refine .silent fun o => ?_
    simp only [stepApply]
    split <;> rfl
  | native f =>
    refine .silent fun o => ?_
    simp only [stepApply]
    split <;> rfl
  | nil | bool | number | text => exact .silent fun _ => rfl

/-- Of the values that something waits for only the one of an `output` is printed. -/
theorem stepGive_oblivious (v : Value) (next : Awaiting) :
    Oblivious store scope (printing? (.give v next)).toList (stepGive v next) := by
  cases next with
  | printed next => exact ⟨_, store, scope, fun _ => rfl⟩
  | assigned name line next =>
    refine .silent fun o => ?_
    simp only [stepGive]
    split <;> rfl
  | _ => exact .silent fun _ => rfl

theorem stepRaise_oblivious (f : Fault) (next : Awaiting) :
    Oblivious store scope [] (stepRaise f next) := by
  cases next <;> exact .silent fun _ => rfl

theorem stepExecute_oblivious (s : Stmt) (next : Remaining) :
    Oblivious store scope [] (stepExecute s next) := by
  cases s with
  | create name initial line => cases initial <;> exact .silent fun _ => rfl
  | giveBack value line => cases value <;> exact .silent fun _ => rfl
  | _ => exact .silent fun _ => rfl

theorem stepFinish_oblivious (s : Signal) (next : Remaining) :
    Oblivious store scope [] (stepFinish s next) := by
  cases s <;> cases next <;> exact .silent fun _ => rfl

theorem stepAbort_oblivious (f : Fault) (next : Remaining) :
    Oblivious store scope [] (stepAbort f next) := by
  cases next <;> exact .silent fun _ => rfl

/-- A step goes the same way whatever was printed before it. -/
theorem step_oblivious (m : Machine) :
    Oblivious store scope m.printing?.toList (step m) := by
  cases m with
  | evaluate e next => exact (stepEvaluate_oblivious e next).going
  | arguments callee done rest line next => cases rest <;> exact .silent fun _ => rfl
  | apply callee args line next => exact (stepApply_oblivious callee args line next).going
  | give v next => exact stepGive_oblivious v next
  | raise f next => exact stepRaise_oblivious f next
  | execute s next => exact (stepExecute_oblivious s next).going
  | sequence body next => cases body <;> exact .silent fun _ => rfl
  | finish s next => exact stepFinish_oblivious s next
  | abort f next => exact stepAbort_oblivious f next

end Machine

/-- What is done from a store and a frame prints the same for every output. It ends for none, or for
every output alike and with what it prints behind it. -/
def EndsOblivious {α : Type} (store : Store) (scope : FrameId)
    (act : World → Option (α × World)) (printed : World → List Value) : Prop :=
  ∃ values, (∀ o : Output, printed ⟨store, scope, o⟩ = values) ∧
    ((∀ o : Output, act ⟨store, scope, o⟩ = none) ∨
      ∃ result store' scope', ∀ o : Output,
        act ⟨store, scope, o⟩ = some (result, ⟨store', scope', o.printAll values⟩))

/-- A run prints the values that its steps print one after the other, and ends with all of them
behind the output, whether with a value or with a fault. -/
theorem Machine.run_oblivious (n : Nat) (m : Machine) (store : Store) (scope : FrameId) :
    EndsOblivious store scope (m.run n) (m.printed n) := by
  induction n generalizing m store scope with
  | zero => exact ⟨[], fun _ => rfl, .inl fun _ => rfl⟩
  | succ n ih =>
    have hstep : Oblivious store scope m.printing?.toList (step m) := step_oblivious m
    obtain ⟨progress, store₁, scope₁, hs⟩ := hstep
    cases progress with
    | ended outcome =>
      refine ⟨m.printing?.toList, fun o => ?_, .inr ⟨outcome, store₁, scope₁, fun o => ?_⟩⟩
      · simp only [printed, hs, List.append_nil]
      · simp only [run, hs]
    | going m₁ =>
      obtain ⟨more, hmore, hr⟩ := ih m₁ store₁ scope₁
      have hgo : ∀ o, run (n + 1) m ⟨store, scope, o⟩ =
          run n m₁ ⟨store₁, scope₁, o.printAll m.printing?.toList⟩ := fun o => run_of_going (hs o)
      refine ⟨m.printing?.toList ++ more, fun o => ?_, ?_⟩
      · simp only [printed, hs, hmore]
      · obtain hnone | ⟨outcome, store', scope', hr⟩ := hr
        · exact .inl fun o => (hgo o).trans (hnone _)
        · refine .inr ⟨outcome, store', scope', fun o => ?_⟩
          rw [hgo, hr, Output.printAll_printAll]

namespace World

variable {steps : Nat}

/-- The values that statements print one after the other, up to the first fault. -/
def printed (steps : Nat) : List Stmt → World → List Value
  | [], _ => []
  | s :: rest, w =>
    (Machine.execute s .outcome).printed steps w ++
      match w.execute steps s with
      | none | some (.fault _, _) => []
      | some (_, w) => printed steps rest w

/-- A list of statements is interpreted part by part, and the second part only if the first ends
without a fault. -/
theorem interpret_append (first rest : List Stmt) (w : World) :
    interpret steps (first ++ rest) w =
      (interpret steps first w).bind fun
        | (.ok (), w) => interpret steps rest w
        | (.error f, w) => some (.error f, w) := by
  induction first generalizing w with
  | nil => rfl
  | cons s first ih =>
    rw [List.cons_append, interpret, interpret]
    split
    · rfl
    · rfl
    · exact ih _

/-- The second part of a list prints what it prints in the world that the first part leaves, and
nothing if that part ends with a fault. -/
theorem printed_append {first : List Stmt} {w w' : World} {r : Except Fault Unit}
    (h : interpret steps first w = some (r, w')) (rest : List Stmt) :
    printed steps (first ++ rest) w =
      printed steps first w ++ r.toOption.elim [] fun _ => printed steps rest w' := by
  induction first generalizing w with
  | nil =>
    cases Option.some.inj h
    rfl
  | cons s first ih =>
    rw [interpret] at h
    rw [List.cons_append, printed, printed, List.append_assoc]
    cases hs : w.execute steps s with
    | none => simp [hs] at h
    | some r =>
      obtain ⟨outcome, w₁⟩ := r
      rw [hs] at h
      cases outcome with
      | fault f =>
        cases Option.some.inj h
        simp [Except.toOption]
      | value | signal => exact congrArg (_ ++ ·) (ih h)

/-- Statements print one after the other, up to the first fault, and end alike for every output. -/
theorem interpret_oblivious (steps : Nat) (body : List Stmt) (store : Store) (scope : FrameId) :
    EndsOblivious store scope (interpret steps body) (printed steps body) := by
  induction body generalizing store scope with
  | nil => exact ⟨[], fun _ => rfl, .inr ⟨.ok (), store, scope, fun _ => rfl⟩⟩
  | cons s rest ih =>
    obtain ⟨values, hvalues, hrun⟩ := Machine.run_oblivious steps (.execute s .outcome) store scope
    obtain hnone | ⟨outcome, store₁, scope₁, hs⟩ := hrun
    · have hgo : ∀ o, execute steps s ⟨store, scope, o⟩ = none := hnone
      refine ⟨values, fun o => ?_, .inl fun o => ?_⟩
      · simp only [printed, hvalues, hgo, List.append_nil]
      · simp only [interpret, hgo]
    · have hgo : ∀ o, execute steps s ⟨store, scope, o⟩ =
          some (outcome, ⟨store₁, scope₁, o.printAll values⟩) := hs
      cases outcome with
      | fault f =>
        refine ⟨values, fun o => ?_, .inr ⟨.error f, store₁, scope₁, fun o => ?_⟩⟩
        · simp only [printed, hvalues, hgo, List.append_nil]
        · simp only [interpret, hgo]
      | value | signal =>
        obtain ⟨more, hmore, hrest⟩ := ih store₁ scope₁
        refine ⟨values ++ more, fun o => ?_, ?_⟩
        · simp only [printed, hvalues, hgo, hmore]
        · obtain hnone | ⟨result, store', scope', hr⟩ := hrest
          · exact .inl fun o => by simp only [interpret, hgo, hnone]
          · refine .inr ⟨result, store', scope', fun o => ?_⟩
            simp only [interpret, hgo, hr, Output.printAll_printAll]

/-- Whatever was printed before, the statements end with `result` and with the store `store'`, and
print `text` behind it: the display forms of all values handed to an `output` on the way, each on a
line of its own. -/
structure Prints (steps : Nat) (body : List Stmt) (scope : FrameId) (store : Store)
    (result : Except Fault Unit) (store' : Store) (text : String) : Prop where
  displayed : ∀ before : Output,
    text = Report.lines ((printed steps body ⟨store, scope, before⟩).map Value.display)
  ends : ∀ before : Output, interpret steps body ⟨store, scope, before⟩ =
    some (result, ⟨store', scope, before.append text⟩)

variable {body first rest : List Stmt} {scope : FrameId} {store store' store'' : Store}
  {result result' : Except Fault Unit} {text text' : String}

theorem none_or_prints (steps : Nat) (body : List Stmt) (scope : FrameId) (store : Store) :
    (∀ before, interpret steps body ⟨store, scope, before⟩ = none) ∨
      ∃ result store' text, Prints steps body scope store result store' text := by
  obtain ⟨values, hvalues, hnone | ⟨result, store', scope', h⟩⟩ :=
    interpret_oblivious steps body store scope
  · exact .inl hnone
  · have hscope : scope' = scope := interpret_scope (h .empty)
    refine .inr ⟨result, store', _, fun before => congrArg _ (congrArg _ (hvalues before).symm),
      fun before => ?_⟩
    rw [h, hscope, Output.printAll_eq]

theorem Prints.unique (h : Prints steps body scope store result store' text)
    (h' : Prints steps body scope store result' store'' text') :
    result' = result ∧ store'' = store' ∧ text' = text := by
  have he := (h'.ends .empty).symm.trans (h.ends .empty)
  simpa [Output.empty, Output.append] using he

theorem Prints.stop {f : Fault} (h : Prints steps first scope store (.error f) store' text)
    (rest : List Stmt) : Prints steps (first ++ rest) scope store (.error f) store' text := by
  refine ⟨fun before => ?_, fun before => ?_⟩
  · rw [printed_append (h.ends before), h.displayed before]
    simp [Except.toOption]
  · rw [interpret_append, h.ends]
    rfl

theorem Prints.append (h : Prints steps first scope store (.ok ()) store' text)
    (h' : Prints steps rest scope store' result store'' text') :
    Prints steps (first ++ rest) scope store result store'' (text ++ text') := by
  refine ⟨fun before => ?_, fun before => ?_⟩
  · rw [printed_append (h.ends before), List.map_append, Report.lines_append, ← h.displayed]
    exact congrArg (text ++ ·) (h'.displayed (before.append text))
  · rw [interpret_append, h.ends, ← Output.append_append]
    exact h'.ends (before.append text)

/-- Statements that end for some steps end alike whatever was printed before, with a fault or
without one, and print the same text behind it, which holds all that was handed to an `output` on
the way. If the list is split, the first part alone prints that text and stops with the fault, or
the text is what the first part prints and then what the second part prints. -/
theorem interpret_prints_behind (steps : Nat) (body : List Stmt) (scope : FrameId)
    (store : Store) :
    (∀ before, interpret steps body ⟨store, scope, before⟩ = none) ∨
      ∃ result store' text, Prints steps body scope store result store' text ∧
        ∀ first rest, body = first ++ rest →
          (∃ f, result = .error f ∧ Prints steps first scope store (.error f) store' text) ∨
            ∃ between before behind, Prints steps first scope store (.ok ()) between before ∧
              Prints steps rest scope between result store' behind ∧ text = before ++ behind := by
  obtain hnone | ⟨result, store', text, h⟩ := none_or_prints steps body scope store
  · exact .inl hnone
  refine .inr ⟨result, store', text, h, ?_⟩
  rintro first rest rfl
  have hends := h.ends .empty
  rw [interpret_append] at hends
  -- the first part ends because the list does; if it fails, the list ends there
  obtain hnone | ⟨r, between, before, hfirst⟩ := none_or_prints steps first scope store
  · simp [hnone] at hends
  cases r with
  | error f =>
    obtain ⟨rfl, rfl, rfl⟩ := h.unique (hfirst.stop rest)
    exact .inl ⟨f, rfl, hfirst⟩
  | ok =>
    obtain hnone | ⟨r, store'', behind, hrest⟩ := none_or_prints steps rest scope between
    · simp [hfirst.ends, hnone] at hends
    obtain ⟨rfl, rfl, rfl⟩ := h.unique (hfirst.append hrest)
    exact .inr ⟨between, before, behind, hfirst, hrest, rfl⟩

def printingOne : Stmt :=
  .output (.literal (.number 1))

/-- A block that prints a number and then divides by zero. -/
def failingBlock : Stmt :=
  .block [.output (.literal (.number 2)),
    .output (.binary (.literal (.number 1)) .div (.literal (.number 0)) 1)]

/-- The block keeps what it printed before the fault, behind what was printed before the block. -/
theorem interpret_prints_behind_failingBlock : ∃ between store',
    Prints 18 [printingOne, failingBlock] 0 World.initial.store (.error (.divisionByZero 1)) store'
      "1\n2\n" ∧
    Prints 18 [printingOne] 0 World.initial.store (.ok ()) between "1\n" ∧
    Prints 18 [failingBlock] 0 between (.error (.divisionByZero 1)) store' "2\n" := by
  have hruns : ∃ w w', interpret 18 [printingOne, failingBlock] .initial =
        some (.error (.divisionByZero 1), w) ∧
      interpret 18 [printingOne] .initial = some (.ok (), w') :=
    ⟨_, _, by with_unfolding_all rfl, by with_unfolding_all rfl⟩
  have hvalues : printed 18 [printingOne, failingBlock] .initial = [.number 1, .number 2] := by
    with_unfolding_all rfl
  have hvalue : printed 18 [printingOne] .initial = [.number 1] := by with_unfolding_all rfl
  have hlines : Report.lines ([Value.number 1, .number 2].map Value.display) = "1\n2\n" := by
    decide +kernel
  have hline : Report.lines ([Value.number 1].map Value.display) = "1\n" := by decide +kernel
  obtain ⟨w, w', hrun, hfirst⟩ := hruns
  obtain hnone | ⟨result, store', text, h, hsplit⟩ :=
    interpret_prints_behind 18 [printingOne, failingBlock] 0 World.initial.store
  · cases (hnone .empty).symm.trans hrun
  cases (h.ends .empty).symm.trans hrun
  obtain ⟨f, -, hstop⟩ | ⟨between, before, behind, hbefore, hbehind, hjoin⟩ :=
    hsplit [printingOne] [failingBlock] rfl
  · cases (hstop.ends .empty).symm.trans hfirst
  have htext : text = "1\n" ++ "2\n" := by
    rw [h.displayed .empty]
    exact (congrArg (Report.lines <| ·.map Value.display) hvalues).trans hlines
  have hshown : before = "1\n" := by
    rw [hbefore.displayed .empty]
    exact (congrArg (Report.lines <| ·.map Value.display) hvalue).trans hline
  rw [hshown, htext] at hjoin
  obtain rfl := (String.append_right_inj "1\n").mp hjoin
  subst htext hshown
  exact ⟨between, _, h, hbefore, hbehind⟩

end World

end ClosureLang
