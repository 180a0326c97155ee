import ClosureLang.Proofs.Evaluation.Agreement
import ClosureLang.Proofs.Likeness.Machines

namespace ClosureLang

open Machine

variable {L : Likeness} {p : Pairing}

namespace Machine

variable {m m' : Machine} {w w' : World}

theorem run_like_left (hm : m.Like L p w.scope w'.scope m') (hw : w.Like L p w') {n : Nat}
    {o : Outcome} {u : World} (h : run n m w = some (o, u)) :
    ∃ q o' u', p.Extends q ∧ run n m' w' = some (o', u') ∧ o.Like L q o' ∧ u.Like L q u' := by
  rcases run_like hm hw n with ⟨hn, -⟩ | ⟨q, o₁, o', u₁, u', hq, h₁, h', ho, hu⟩
  · simp [h] at hn
  · cases h.symm.trans h₁
    exact ⟨q, o', u', hq, h', ho, hu⟩

theorem run_like_right (hm : m.Like L p w.scope w'.scope m') (hw : w.Like L p w') {n : Nat}
    {o' : Outcome} {u' : World} (h : run n m' w' = some (o', u')) :
    ∃ q o u, p.Extends q ∧ run n m w = some (o, u) ∧ o.Like L q o' ∧ u.Like L q u' := by
  rcases run_like hm hw n with ⟨-, hn⟩ | ⟨q, o, o₁, u, u₁, hq, h₁, h', ho, hu⟩
  · simp [h] at hn
  · cases h.symm.trans h'
    exact ⟨q, o, u, hq, h₁, ho, hu⟩

end Machine

theorem Outcome.like_ofSignal_iff {r r' : Except Fault Signal} :
    (Outcome.ofSignal r).Like L p (.ofSignal r') ↔ L.Result (Signal.Like L p) r r' := by
  constructor
  · intro h
    cases r with
    | ok s =>
      cases r' with
      | ok s' =>
        cases h with
        | signal h => exact .ok h
      | error f => cases h
    | error f =>
      cases r' with
      | ok s' => cases h
      | error f' =>
        cases h with
        | fault h => exact .error h
  · intro h
    cases h with
    | ok h => exact .signal h
    | error h => exact .fault h

theorem Outcome.like_ofValue {r r' : Except Fault Value}
    (h : (Outcome.ofValue r).Like L p (.ofValue r')) : L.Result (Value.Like L p) r r' := by
  cases r with
  | ok v =>
    cases r' with
    | ok v' =>
      cases h with
      | value h => exact .ok h
    | error f => cases h
  | error f =>
    cases r' with
    | ok v' => cases h
    | error f' =>
      cases h with
      | fault h => exact .error h

section

variable {i j : FrameId} {s s' t t' : State}

/-- What an expression gives in one of two worlds that are alike, it gives in the other, with frames
that are alike. -/
theorem Evaluates.like (hw : (s.within i).Like L p (s'.within j)) {e e' : Expr}
    (he : e.Like L e') {r : Except Fault Value} (h : Evaluates i e s r t) :
    ∃ q r' t', p.Extends q ∧ Evaluates j e' s' r' t' ∧ L.Result (Value.Like L q) r r' ∧
      (t.within i).Like L q (t'.within j) := by
  obtain ⟨n, hn⟩ := (evaluate_iff hw.wellFormed e _ _).mpr ⟨r, t, h, rfl, rfl⟩
  have hm : Machine.Like L p i j (.evaluate e .outcome) (.evaluate e' .outcome) :=
    .evaluate he .outcome
  obtain ⟨q, o', u', hq, hn', ho, hu⟩ := run_like_left hm hw hn
  obtain ⟨r', t', h', rfl, rfl⟩ := (evaluate_iff hw.wellFormed' e' _ _).mp ⟨n, hn'⟩
  exact ⟨q, r', t', hq, h', Outcome.like_ofValue ho, hu⟩

theorem Evaluates.like' (hw : (s.within i).Like L p (s'.within j)) {e e' : Expr}
    (he : e.Like L e') {r' : Except Fault Value} (h : Evaluates j e' s' r' t') :
    ∃ q r t, p.Extends q ∧ Evaluates i e s r t ∧ L.Result (Value.Like L q) r r' ∧
      (t.within i).Like L q (t'.within j) := by
  obtain ⟨n, hn⟩ := (evaluate_iff hw.wellFormed' e' _ _).mpr ⟨r', t', h, rfl, rfl⟩
  have hm : Machine.Like L p i j (.evaluate e .outcome) (.evaluate e' .outcome) :=
    .evaluate he .outcome
  obtain ⟨q, o, u, hq, hn', ho, hu⟩ := run_like_right hm hw hn
  obtain ⟨r, t, h', rfl, rfl⟩ := (evaluate_iff hw.wellFormed e _ _).mp ⟨n, hn'⟩
  exact ⟨q, r, t, hq, h', Outcome.like_ofValue ho, hu⟩

/-- What a statement does in one of two worlds that are alike, it does in the other, with frames
that are alike. -/
theorem Executes.like (hw : (s.within i).Like L p (s'.within j)) {c c' : Stmt}
    (hc : c.LikeIn L p i j c') {r : Except Fault Signal} (h : Executes i c s r t) :
    ∃ q r' t', p.Extends q ∧ Executes j c' s' r' t' ∧ L.Result (Signal.Like L q) r r' ∧
      (t.within i).Like L q (t'.within j) := by
  obtain ⟨n, hn⟩ := (execute_iff hw.wellFormed c _ _).mpr ⟨r, t, h, rfl, rfl⟩
  have hm : Machine.Like L p i j (.execute c .outcome) (.execute c' .outcome) :=
    .execute hc .outcome
  obtain ⟨q, o', u', hq, hn', ho, hu⟩ := run_like_left hm hw hn
  obtain ⟨r', t', h', rfl, rfl⟩ := (execute_iff hw.wellFormed' c' _ _).mp ⟨n, hn'⟩
  exact ⟨q, r', t', hq, h', Outcome.like_ofSignal_iff.mp ho, hu⟩

theorem Executes.like' (hw : (s.within i).Like L p (s'.within j)) {c c' : Stmt}
    (hc : c.LikeIn L p i j c') {r' : Except Fault Signal} (h : Executes j c' s' r' t') :
    ∃ q r t, p.Extends q ∧ Executes i c s r t ∧ L.Result (Signal.Like L q) r r' ∧
      (t.within i).Like L q (t'.within j) := by
  obtain ⟨n, hn⟩ := (execute_iff hw.wellFormed' c' _ _).mpr ⟨r', t', h, rfl, rfl⟩
  have hm : Machine.Like L p i j (.execute c .outcome) (.execute c' .outcome) :=
    .execute hc .outcome
  obtain ⟨q, o, u, hq, hn', ho, hu⟩ := run_like_right hm hw hn
  obtain ⟨r, t, h', rfl, rfl⟩ := (execute_iff hw.wellFormed c _ _).mp ⟨n, hn'⟩
  exact ⟨q, r, t, hq, h', Outcome.like_ofSignal_iff.mp ho, hu⟩

/-- If statements go together one by one, so do lists of them. -/
theorem ExecutesAll.follow {R : Pairing → State → State → Prop}
    {C : Pairing → Stmt → Stmt → Prop}
    {V : Pairing → Except Fault Signal → Except Fault Signal → Prop}
    (hone : ∀ {p s s' c c' r t}, R p s s' → C p c c' → Executes i c s r t →
      ∃ q r' t', p.Extends q ∧ Executes j c' s' r' t' ∧ V q r r' ∧ R q t t')
    (hkeep : ∀ {p q c c'}, p.Extends q → C p c c' → C q c c')
    (hnormal : ∀ {p r r'}, V p r r' → (r = .ok .normal ↔ r' = .ok .normal))
    (hend : ∀ p, V p (.ok .normal) (.ok .normal))
    {cs cs' : List Stmt} (hc : List.Forall₂ (C p) cs cs') {r : Except Fault Signal}
    (hR : R p s s') (h : ExecutesAll i cs s r t) :
    ∃ q r' t', p.Extends q ∧ ExecutesAll j cs' s' r' t' ∧ V q r r' ∧ R q t t' := by
  induction cs generalizing p s s' cs' with
  | nil =>
    cases hc
    cases h
    exact ⟨p, _, s', .refl p, .nil, hend p, hR⟩
  | cons c cs ih =>
    obtain _ | ⟨hc, hcs⟩ := hc
    rcases executesAll_cons_iff.mp h with ⟨h, hr⟩ | ⟨u, h, hrest⟩
    · obtain ⟨q, r', t', hq, h', hV, hR'⟩ := hone hR hc h
      have hstop := mt (hnormal hV).mpr hr
      exact ⟨q, r', t', hq, executesAll_cons_iff.mpr (.inl ⟨h', hstop⟩), hV, hR'⟩
    · obtain ⟨q, r', u', hq, h', hV, hR'⟩ := hone hR hc h
      cases (hnormal hV).mp rfl
      obtain ⟨q', r', t', hq', hrest', hV', hR''⟩ :=
        ih (hcs.imp fun _ _ h => hkeep hq h) hR' hrest
      exact ⟨q', r', t', hq.trans hq', .next h' hrest', hV', hR''⟩

theorem ExecutesAll.like (hw : (s.within i).Like L p (s'.within j)) {cs cs' : List Stmt}
    (hc : List.Forall₂ (Stmt.LikeIn L p i j) cs cs') {r : Except Fault Signal}
    (h : ExecutesAll i cs s r t) :
    ∃ q r' t', p.Extends q ∧ ExecutesAll j cs' s' r' t' ∧ L.Result (Signal.Like L q) r r' ∧
      (t.within i).Like L q (t'.within j) :=
  h.follow (R := fun p s s' => (s.within i).Like L p (s'.within j))
    (C := fun p => Stmt.LikeIn L p i j) (V := fun p => L.Result (Signal.Like L p))
    (fun hw hc h => h.like hw hc) (fun hq h => h.extend hq) (fun h => h.normal_iff)
    (fun _ => .ok .normal) hc hw

theorem ExecutesAll.like' (hw : (s.within i).Like L p (s'.within j)) {cs cs' : List Stmt}
    (hc : List.Forall₂ (Stmt.LikeIn L p i j) cs cs') {r' : Except Fault Signal}
    (h : ExecutesAll j cs' s' r' t') :
    ∃ q r t, p.Extends q ∧ ExecutesAll i cs s r t ∧ L.Result (Signal.Like L q) r r' ∧
      (t.within i).Like L q (t'.within j) :=
  h.follow (R := fun p s' s => (s.within i).Like L p (s'.within j))
    (C := fun p c' c => c.LikeIn L p i j c') (V := fun p r' r => L.Result (Signal.Like L p) r r')
    (fun hw hc h => h.like' hw hc) (fun hq h => h.extend hq) (fun h => h.normal_iff.symm)
    (fun _ => .ok .normal) hc.flip hw

end

end ClosureLang
