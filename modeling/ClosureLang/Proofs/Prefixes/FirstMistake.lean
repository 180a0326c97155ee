import ClosureLang.Proofs.Prefixes.Steps
import ClosureLang.Proofs.Recovery.Boundaries

namespace ClosureLang

open Grammar

namespace Builder

/-- How many tokens are read before the first complaint, or before the end. -/
def quietLength (b : Builder) : List Token → Nat
  | [] => 0
  | t :: ts =>
    if t.kind ≠ .eof ∧ (b.feed t).errors = [] then (b.feed t).quietLength ts + 1 else 0

variable {b : Builder} {t : Token} {ts : List Token}

theorem quietLength_prefix (hb : b.errors = []) (ts : List Token) :
    (∀ t ∈ ts.take (b.quietLength ts), t.kind ≠ .eof) ∧
      ((ts.take (b.quietLength ts)).foldl feed b).errors = [] := by
  induction ts generalizing b with
  | nil => exact ⟨List.forall_mem_nil _, hb⟩
  | cons t ts ih =>
    unfold quietLength
    split
    next h =>
      obtain ⟨hend, herrors⟩ := ih h.2
      exact ⟨List.forall_mem_cons.mpr ⟨h.1, hend⟩, herrors⟩
    next => exact ⟨List.forall_mem_nil _, hb⟩

/-- The token behind those that are read without complaint ends the input or is complained about. -/
theorem quietLength_next (b : Builder) (ts : List Token) :
    ∀ t ∈ (ts.drop (b.quietLength ts)).head?,
      t.kind = .eof ∨ (((ts.take (b.quietLength ts)).foldl feed b).feed t).errors ≠ [] := by
  induction ts generalizing b with
  | nil => simp
  | cons t ts ih =>
    unfold quietLength
    split
    next => exact ih (b.feed t)
    next h =>
      rintro u ⟨⟩
      by_cases ht : t.kind = .eof
      · exact .inl ht
      · exact .inr fun he => h ⟨ht, he⟩

/-- As long as nothing is complained about, what may follow is what completes the tokens to a
program. -/
theorem remainder_foldl (hts : ∀ t ∈ ts, t.kind ≠ .eof) (he : (ts.foldl feed start).errors = []) :
    (ts.foldl feed start).remainder =
      (words productions .program).leftQuotient (ts.map Token.kind) := by
  induction ts using List.reverseRecOn with
  | nil => exact (words_eq productions .program).symm
  | append_singleton ts t ih =>
    obtain ⟨hts, ht⟩ := List.forall_mem_append.mp hts
    rw [List.foldl_append] at he ⊢
    have hquiet : (ts.foldl feed start).errors = [] :=
      List.suffix_nil.mp (he ▸ errors_feed (b := ts.foldl feed start) (t := t))
    rw [List.map_append, Language.leftQuotient_append, ← ih hts hquiet]
    have hanswers := answers_feed (t := t) (formed_foldl ts)
      (spells_foldl hts hquiet).not_recovering
    cases hanswers with
    | word _ _ hM => exact hM
    | stop hk => exact absurd hk (ht t List.mem_cons_self)
    | mistake x herrors => simp [herrors] at he
    | other d x herrors => simp [herrors] at he

variable {M : Language TokenKind} {x : SyntaxError} {es : List SyntaxError}

/-- If the first complaint is about a token that does not fit, nothing may follow behind it. -/
theorem Answers.first (h : Answers M [] t b) (he : b.errors.reverse = x :: es)
    (hx : x.found?.isSome) : x.found? = some t.describe ∧ x.line = t.line ∧ M = 0 := by
  cases h with
  | word _ hb => simp [hb] at he
  | stop _ hb => simp [hb] at he
  | mistake y hb hf hl hM =>
    rw [hb] at he
    cases he
    exact ⟨hf, hl, hM⟩
  | other d y hb hf =>
    rw [hb, List.reverse_append] at he
    cases he
    simp [hf] at hx

/-- The same at the end, where blocks that are still open are complained about as well. -/
theorem Answers.first_finish (h : Answers M [] t (b.feed t)) (ht : t.kind = .eof)
    (he : (b.finish t).errors = x :: es) (hx : x.found?.isSome) :
    x.found? = some t.describe ∧ x.line = t.line ∧ M = 0 := by
  unfold finish at he
  dsimp only at he
  rw [List.reverse_append, List.reverse_replicate] at he
  by_cases hq : (b.feed t).errors = []
  · -- Nothing was complained about before, so it is a block that is not closed.
    rw [hq, List.reverse_nil, List.nil_append] at he
    obtain ⟨hn, rfl⟩ := List.mem_replicate.mp (he ▸ List.mem_cons_self : x ∈ List.replicate _ _)
    refine ⟨rfl, rfl, ?_⟩
    cases h with
    | word hk => exact absurd ht hk
    | stop _ _ hp hM =>
      rw [← hM, remainder, hp]
      exact Open.remainder_leftQuotient_eof hn
    | mistake y hb => simp [hb] at hq
    | other d y hb => simp [hb] at hq
  · obtain ⟨y, ys, hy⟩ := List.exists_cons_of_ne_nil (mt List.reverse_eq_nil_iff.mp hq)
    rw [hy] at he
    cases he
    exact h.first hy hx

/-- What is complained about first is the next token, if that ends the input or is complained
about. -/
theorem first_run (hb : ∀ t, Answers (b.remainder.leftQuotient [t.kind]) [] t (b.feed t))
    (hts : ∀ t ∈ ts.head?, t.kind = .eof ∨ (b.feed t).errors ≠ [])
    (he : (b.run ts).errors = x :: es) (hx : x.found?.isSome) (t : Token)
    (ht : t = ts.head?.getD (.endOfInput 0)) :
    x.found? = some t.describe ∧ x.line = t.line ∧ b.remainder.leftQuotient [t.kind] = 0 := by
  cases ts with
  | nil =>
    subst ht
    exact (hb _).first_finish rfl he hx
  | cons u ts =>
    cases ht
    rw [run] at he
    split at he
    next hu => exact (hb u).first_finish hu he hx
    next hu =>
      have hne := (hts u rfl).resolve_left hu
      obtain ⟨y, ys, hy⟩ := List.exists_cons_of_ne_nil (mt List.reverse_eq_nil_iff.mp hne)
      have hp := errors_run (b := b.feed u) ts
      rw [hy, he] at hp
      obtain rfl := (List.cons_prefix_cons.mp hp).1
      exact (hb u).first hy hx

end Builder

/-- The index of the token at which the first complaint is made, or of the end. -/
def mistakeIndex (ts : List Token) : Nat :=
  Builder.start.quietLength ts

/-- If the first complaint is about a token that does not fit, it is made as early as possible: some
program begins with the tokens before, and none with them and that token. Since programs end with
the end token, at the end of the input this says that the tokens before are no program. -/
theorem first_mistake_earliest (ts : List Token) {x : SyntaxError} {es : List SyntaxError}
    (h : (parse ts).errors = x :: es) (hx : x.found?.isSome) :
    let i := mistakeIndex ts
    let t := ts[i]?.getD (.endOfInput 0)
    x.found? = some t.describe ∧ x.line = t.line ∧
      (∃ w, (ts.take i).map Token.kind ++ w ∈ words productions .program) ∧
      ∀ w, (ts.take i).map Token.kind ++ t.kind :: w ∉ words productions .program := by
  intro i t
  set b := (ts.take i).foldl Builder.feed .start
  obtain ⟨hends, hquiet⟩ : (∀ u ∈ ts.take i, u.kind ≠ .eof) ∧ b.errors = [] :=
    Builder.quietLength_prefix rfl ts
  have hnext : ∀ u ∈ (ts.drop i).head?, u.kind = .eof ∨ (b.feed u).errors ≠ [] :=
    Builder.quietLength_next .start ts
  have hrest : b.remainder =
      (words productions .program).leftQuotient ((ts.take i).map Token.kind) :=
    Builder.remainder_foldl hends hquiet
  have hanswers : ∀ u, Builder.Answers (b.remainder.leftQuotient [u.kind]) [] u (b.feed u) :=
    fun u => hquiet ▸ Builder.answers_feed (Builder.formed_foldl (ts.take i))
      (Builder.spells_foldl hends hquiet).not_recovering
  rw [parse, ← List.take_append_drop i ts, Builder.run_append hends] at h
  have ht : t = (ts.drop i).head?.getD (.endOfInput 0) := by rw [List.head?_drop]
  obtain ⟨hfound, hline, hnone⟩ := Builder.first_run hanswers hnext h hx t ht
  refine ⟨hfound, hline, ?_, fun w hw => ?_⟩
  · obtain ⟨w, hw⟩ : Grammar.HasWord b.remainder :=
      b.position.hasWord_remainder (Open.hasWord_remainder b.opened)
    rw [hrest] at hw
    exact ⟨w, hw⟩
  · rw [hrest, ← Language.leftQuotient_append] at hnone
    have hmem : w ∈ (words productions .program).leftQuotient
        ((ts.take i).map Token.kind ++ [t.kind]) := by
      rw [Language.mem_leftQuotient, List.append_assoc]
      exact hw
    rw [hnone] at hmem
    exact hmem

/-- The tokens `if (a) b; else else`. -/
def doubleElse : List Token :=
  openEnded ++ [.make .else "else" 2, .make .else "else" 3]

/-- What stands before the second `else` begins a program, and no program goes on with that
`else`. -/
theorem first_mistake_earliest_doubleElse :
    (parse doubleElse).errors = [.expectedExpression "'else'" 3] ∧
    (∃ w, (doubleElse.take 7).map Token.kind ++ w ∈ words productions .program) ∧
    ∀ w, doubleElse.map Token.kind ++ w ∉ words productions .program := by
  have herrors : (parse doubleElse).errors = [.expectedExpression "'else'" 3] := rfl
  obtain ⟨-, -, hsome, hnone⟩ := first_mistake_earliest doubleElse herrors rfl
  exact ⟨herrors, hsome, hnone⟩

end ClosureLang
