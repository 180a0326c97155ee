import ClosureLang.Proofs.Descent.Statements

namespace ClosureLang

namespace Builder

variable {b : Builder}

theorem list_upTo {ss : List Stmt} {c : Cursor} : (b.list ss).upTo c = (b.upTo c).list ss := by
  obtain ⟨p, opened, ss, es⟩ := b
  cases opened with
  | nil => rfl
  | cons o opened => cases o <;> rfl

/-- Where declarations are listed, a mistake leaves the open constructs as they are. -/
theorem AtList.recovering (h : b.AtList) : b.recovering = b.moveTo .discard := by
  obtain ⟨p, opened, ss, es⟩ := b
  cases opened with
  | nil => rfl
  | cons o opened =>
    have ho : o.isBlock = true := h o rfl
    simp [Builder.recovering, moveTo, ho]

end Builder

namespace Cursor

variable {ts : List Token} {c : Cursor} {b : Builder}

theorem reads_listed {s : Stmt} (h : b.AtList) :
    c.reads ts (b.moveTo (.completed s)) = c.reads ts ((b.list [s]).moveTo .declaration) := by
  have hl : (b.upTo c).AtList := h
  rw [reads_eq_after, reads_eq_after]
  change c.after ts (((b.upTo c).moveTo (.completed s)).feed _) =
    c.after ts ((((b.list [s]).upTo c).moveTo .declaration).atDeclaration _)
  rw [Builder.feed_completed, hl.afterStatement, Builder.moveTo_atDeclaration, Builder.list_upTo]

end Cursor

namespace Descent

variable {ι : Type} {ts : List Token} {c : Cursor}

/-- At the end nothing is read, so where a builder that gave up stands does not matter. -/
theorem reads_at_end {b : Builder} {p : Position} (hk : (c.peek ts).kind = .eof)
    (hp : p = .discard ∨ p = .skip ∨ p = .declaration) :
    c.reads ts (b.moveTo p) = (b.upTo c).conclude (c.peek ts) := by
  rw [Cursor.reads_eq_after, Cursor.after, if_pos hk]
  obtain rfl | rfl | rfl := hp <;>
    simp [Builder.feed, Builder.upTo, Builder.moveTo, Builder.atDeclaration, Builder.conclude, hk]

theorem afterDropping_cases (t : Token) :
    Builder.afterDropping t = .discard ∨ Builder.afterDropping t = .skip ∨
      Builder.afterDropping t = .declaration := by
  unfold Builder.afterDropping
  split <;> simp

theorem feed_skip {b : Builder} {t : Token} :
    (b.moveTo .skip).feed t =
      if resumes t.kind then b.atDeclaration t else b.moveTo (Builder.afterDropping t) := by
  rw [← Builder.moveTo_atDeclaration (b := b) (p := .skip)]
  unfold resumes Builder.feed
  simp only [Builder.moveTo]
  split <;> simp_all

theorem skip_eq : skip ts c =
    if (c.peek ts).kind = .eof ∨ (c.previous ts).kind = .semicolon ∨ resumes (c.peek ts).kind then
      some (.ok ⟨⟩, c)
    else skip ts (c.next ts) := by
  conv_lhs => rw [skip.eq_1, bind_ok (p := get) rfl]
  split <;> rfl

/-- Dropping tokens ends, behind the same tokens that builders drop. -/
theorem skip_tracks (hc : c.InText ts) :
    ∃ c', skip ts c = some (.ok ⟨⟩, c') ∧ c.current ≤ c'.current ∧ c'.InText ts ∧
      ∀ b : Builder, c.reads ts (b.moveTo (Builder.afterDropping (c.previous ts))) =
        c'.reads ts (b.moveTo .declaration) := by
  induction c, hc using Cursor.InText.induction with
  | step c hc ih =>
    rw [skip_eq]
    split
    next hstop =>
      refine ⟨c, rfl, Nat.le_refl _, hc, fun b => ?_⟩
      -- Behind a semicolon the builder is at a declaration already; elsewhere it skips up to here.
      by_cases hk : (c.peek ts).kind = .eof
      · rw [reads_at_end hk (afterDropping_cases _), reads_at_end hk (.inr (.inr rfl))]
      unfold Builder.afterDropping
      split
      next => rfl
      next hprevious =>
        have hresumes : resumes (c.peek ts).kind = true := by simp_all
        rw [Cursor.reads_eq_after, Cursor.reads_eq_after]
        change c.after ts (((b.upTo c).moveTo .skip).feed _) = _
        rw [feed_skip, if_pos hresumes, ← Builder.moveTo_atDeclaration]
        rfl
    next hgo =>
      rw [not_or, not_or] at hgo
      obtain ⟨hne, hprevious, hresumes⟩ := hgo
      have hlt := Cursor.lt_next hne
      obtain ⟨c', hrun, hle, hc', hreads⟩ := ih (c.next ts) hc.next hlt
      refine ⟨c', hrun, hlt.le.trans hle, hc', fun b => ?_⟩
      rw [← hreads b, Cursor.previous_next hne, Builder.afterDropping, if_neg hprevious]
      refine Cursor.reads_eq_next hne ?_
      change ((b.upTo c).moveTo .skip).feed _ = _
      rw [feed_skip, if_neg hresumes]
      rfl

/-- Recovery drops the tokens that a recovering builder drops, the one of the mistake at least, and
goes on where a declaration may start. -/
theorem synchronize_tracks (hc : c.InText ts) :
    ∃ c', synchronize ts c = some (.ok ⟨⟩, c') ∧ c.current ≤ c'.current ∧ c'.InText ts ∧
      ((c.peek ts).kind ≠ .eof → c.current < c'.current) ∧
      ∀ b : Builder, c.reads ts (b.moveTo .discard) = c'.reads ts (b.moveTo .declaration) := by
  obtain ⟨c', hrun, hle, hc', hreads⟩ := skip_tracks hc.next
  have hsync : synchronize ts c = some (.ok ⟨⟩, c') := (bind_ok rfl).trans hrun
  refine ⟨c', hsync, c.le_next.trans hle, hc', fun hne => (Cursor.lt_next hne).trans_le hle,
    fun b => ?_⟩
  rw [← hreads]
  by_cases hk : (c.peek ts).kind = .eof
  · rw [Cursor.next, if_pos hk, reads_at_end hk (.inl rfl), reads_at_end hk (afterDropping_cases _)]
  · rw [Cursor.previous_next hk]
    exact Cursor.reads_eq_next hk rfl

/-- A declaration is read or given up, never without moving on. -/
theorem declarationOrRecover_tracks (inside : Bool) (hc : c.InText ts) (h : LaterStatements ts c) :
    ∃ r c', declarationOrRecover ts inside c = some (.ok r, c') ∧ c.current ≤ c'.current ∧
      c'.InText ts ∧ ((c.peek ts).kind ≠ .eof → c.current < c'.current) ∧
      ∀ b : Builder, (c.peek ts).kind ≠ .eof → b.AtList → b.opened.any Open.isBody = inside →
        ((c.peek ts).kind = .rightBrace → b.opened = []) →
        c.reads ts (b.moveTo .declaration) =
          c'.reads ts ((b.list r.toList).moveTo .declaration) := by
  obtain ⟨r, c₁, hrun, hle, hc₁, hr⟩ := declaration_tracks inside
    (fun b : { b : Builder // (c.peek ts).kind ≠ .eof ∧ b.opened.any Open.isBody = inside ∧
      ((c.peek ts).kind = .rightBrace → b.opened = []) } => b.1)
    hc h (fun b => b.2.2.1) (fun b => b.2.1) (fun b => b.2.2.2)
  rw [declarationOrRecover.eq_1]
  cases r with
  | ok s =>
    refine ⟨some s, c₁, ?_, hle, hc₁, fun _ => hr.1, fun b hne hl hi hb => ?_⟩
    · simp only [hrun, Option.bind_eq_bind, Option.bind_some]
      rfl
    · exact (hr.2 ⟨b, hne, hi, hb⟩).trans (Cursor.reads_listed hl)
  | error x =>
    obtain ⟨c₂, hsync, hle₂, hc₂, hlt₂, hreads⟩ := synchronize_tracks (c := c₁.report x) hc₁
    refine ⟨none, c₂, ?_, hle.trans hle₂, hc₂, fun hne => ?_, fun b hne hl hi hb => ?_⟩
    · simp only [hrun, Option.bind_eq_bind, Option.bind_some, hsync]
      rfl
    · -- A mistake at the end is one that the declaration went all the way to.
      by_cases hk : (c₁.peek ts).kind = .eof
      · have hend := hc₁.peek_eof_iff.mp hk
        have hlt := hc.lt_of_peek hne
        have hle₂' : c₁.current ≤ c₂.current := hle₂
        omega
      · exact Nat.lt_of_le_of_lt hle (hlt₂ hk)
    · rw [Option.toList_none, Builder.list_nil, ← hreads, ← hl.recovering]
      exact hr ⟨b, hne, hi, hb⟩

theorem countP_dropWhile_not {α : Type} (p : α → Bool) (l : List α) :
    (l.dropWhile (! p ·)).countP p = l.countP p := by
  induction l with
  | nil => rfl
  | cons a l ih =>
    cases h : p a with
    | true => simp [h]
    | false => simp [h, ih]

/-- A block that is still open at the end lacks its brace like those around it. -/
theorem reads_unclosed {o : OpenBlock} {done : List Stmt} (hk : (c.peek ts).kind = .eof) :
    c.reads ts (o.entered done) =
      (c.report (.expectedToken "Expect '\x7d' after block." (c.peek ts).describe
        (c.peek ts).line)).reads ts o.builder.recovering := by
  have hentered : o.entered done = (o.entered done).moveTo .declaration := rfl
  have hrecovering : o.builder.recovering = o.builder.recovering.moveTo .discard := rfl
  rw [hentered, hrecovering, reads_at_end hk (.inr (.inr rfl)),
    reads_at_end (c := c.report _) hk (.inl rfl)]
  -- Both count the blocks around this one; the builder counts this one too.
  simp only [Builder.conclude, Builder.upTo, Builder.recovering, OpenBlock.entered, Builder.enter,
    List.countP_cons, OpenBlock.construct_isBlock, countP_dropWhile_not, Cursor.report, if_true,
    List.replicate_succ']
  simp [Cursor.peek]

/-- A block is read up to its closing brace, or the input ends and the brace is complained about. -/
theorem block_tracks (inside : Bool) (done : List Stmt) (o : ι → OpenBlock) (hc : c.InText ts)
    (h : LaterStatements ts c) (hi : ∀ i, (o i).inBody = inside) :
    TracksBlock ts (block ts inside done) c done o := by
  rw [block.eq_1]
  refine Tracks.look ?_
  split
  next hk =>
    refine .consume (fun i _ => (o i).builder.moveTo (.completed ((o i).statement done.reverse)))
      hc (by decide) (fun i => ?_) fun _ c₁ hlt hc₁ => .result hc₁ hlt fun _ => rfl
    by_cases hbrace : (c.peek ts).kind = .rightBrace
    · rw [Cursor.reads_eq_after, Cursor.needs, Builder.need_of_eq hbrace]
      exact congrArg (c.after ts) (OpenBlock.entered_atDeclaration (o := ⟨(o i).builder.upTo c, _⟩)
        hbrace)
    · have heof := hk.resolve_left hbrace
      rw [reads_unclosed heof, Cursor.needs_of_ne hbrace]
  next hk =>
    rw [not_or] at hk
    obtain ⟨r, c₁, hrun, hle, hc₁, hlt, hreads⟩ := declarationOrRecover_tracks inside hc h
    refine .step hrun hle ?_
    have hlist := fun i => hreads ((o i).entered done) hk.2 (.enter OpenBlock.construct_isBlock)
      (OpenBlock.entered_inBody.trans (hi i)) fun hb => absurd hb hk.1
    cases r with
    | some s =>
      have hrest := (h c₁ hc₁ (hlt hk.2)).block inside (s :: done) o hi
      refine (hrest.restart fun i => (hlist i).trans ?_).weaken fun _ _ _ => (hlt hk.2).trans
      rw [Option.toList_some, OpenBlock.entered_list]
      rfl
    | none =>
      have hrest := (h c₁ hc₁ (hlt hk.2)).block inside done o hi
      refine (hrest.restart fun i => (hlist i).trans ?_).weaken fun _ _ _ => (hlt hk.2).trans
      rw [Option.toList_none, Builder.list_nil]
      rfl

/-- Statements and blocks track builders, from every cursor. -/
theorem statementsTrack (hc : c.InText ts) : StatementsTrack ts c := by
  induction c, hc using Cursor.InText.induction with
  | step c hc h =>
    exact
      { statement := fun inside b hi => statement_tracks inside b hc h hi
        block := fun inside done o hi => block_tracks inside done o hc h hi }

theorem laterStatements (ts : List Token) (c : Cursor) : LaterStatements ts c :=
  fun _ hc' _ => statementsTrack hc'

/-- The program ends at the first end token, with what the builder has read. -/
theorem program_tracks (hc : c.InText ts) (done : List Stmt) :
    ∃ ss c', program ts done c = some (.ok ss, c') ∧ c.current ≤ c'.current ∧
      c'.current = endIndex ts ∧
      c.reads ts ⟨.declaration, [], done, []⟩ = ⟨ss, c'.errors.reverse⟩ := by
  induction c, hc using Cursor.InText.induction generalizing done with
  | step c hc ih =>
    rw [program.eq_1, bind_ok (p := look ts) rfl]
    split
    next hk =>
      refine ⟨done.reverse, c, rfl, Nat.le_refl _, hc.peek_eof_iff.mp hk, ?_⟩
      exact reads_at_end (b := ⟨.declaration, [], done, []⟩) hk (.inr (.inr rfl))
    next hk =>
      obtain ⟨r, c₁, hrun, hle, hc₁, hlt, hreads⟩ :=
        declarationOrRecover_tracks false hc (laterStatements ts c)
      have hlist := hreads ⟨.declaration, [], done, []⟩ hk nofun rfl fun _ => rfl
      rw [bind_ok hrun]
      cases r with
      | some s =>
        obtain ⟨ss, c', hprogram, hle', hstop, hresult⟩ := ih c₁ hc₁ (hlt hk) (s :: done)
        exact ⟨ss, c', hprogram, hle.trans hle', hstop, hlist.trans hresult⟩
      | none =>
        obtain ⟨ss, c', hprogram, hle', hstop, hresult⟩ := ih c₁ hc₁ (hlt hk) done
        exact ⟨ss, c', hprogram, hle.trans hle', hstop, hlist.trans hresult⟩

end Descent

end ClosureLang
