import UniMem.MarketSettlement.Settle

/-!
# Lift is paid once

A statement pays the share of what a basis grows, and the book keeps the new basis. So the payments for a
listing add up to its share of its basis, as long as a call commits to the book that it has read.
-/

namespace UniMem.MarketSettlement

open Library

theorem basisOf_assign (bases : List (String × ℚ)) (listing other : String) (basis : ℚ) :
    basisOf (assign listing basis bases) other = if other = listing then basis else basisOf bases other := by
  rw [basisOf, lookup_assign]
  split_ifs with hother
  · rfl
  · rfl

/-- What a line pays as the outcome share of a listing. -/
def Line.paid (listing : String) (line : Line) : ℚ :=
  match line.charge with
  | .fee _ => 0
  | .outcomeShare _ => if line.listing = listing then line.amount else 0

def paid (lines : List Line) (listing : String) : ℚ := (lines.map (Line.paid listing)).sum

theorem paid_append (first second : List Line) (listing : String) :
    paid (first ++ second) listing = paid first listing + paid second listing := by
  rw [paid, List.map_append, List.sum_append]
  rfl

theorem paid_fee (market : Market) (period : String) (observation : Observation) (row : Row)
    (listing : String) : paid (fee market period observation row) listing = 0 := by
  have hline : ∀ line ∈ fee market period observation row, line.paid listing = 0 := by
    intro line hline
    unfold fee at hline
    dsimp only at hline
    split at hline
    · cases hline
    · split_ifs at hline
      · cases hline
      · cases hline
      · rw [List.mem_singleton.mp hline, Line.paid]
  exact List.sum_eq_zero fun amount hamount ↦ by
    obtain ⟨line, hmem, rfl⟩ := List.mem_map.mp hamount
    exact hline line hmem

/-- The basis that a row proves. -/
def Market.basis (market : Market) (observation : Observation) (row : Row) : Option ℚ :=
  match (market.licence row.listing).outcomeShare, market.valuePerOccasion with
  | some _, some value => (proved observation row value).toOption.map Prod.snd
  | _, _ => none

theorem outcome_cases (market : Market) (bases : List (String × ℚ)) (observation : Observation)
    (account : Account) (row : Row) :
    ((outcome market bases observation account row).bases = account.bases ∧
      (outcome market bases observation account row).lines = account.lines) ∨
    ∃ basis evidence licence, market.basis observation row = some basis ∧ basisOf bases row.listing ≤ basis ∧
      (outcome market bases observation account row).bases = assign row.listing basis account.bases ∧
      (outcome market bases observation account row).lines = account.lines ++ [⟨row.publisher, row.listing,
        row.slug, .outcomeShare evidence, (basis - basisOf bases row.listing) * market.share row.listing,
        licence⟩] := by
  unfold outcome Market.basis Market.share
  dsimp only
  cases hshare : (market.licence row.listing).outcomeShare with
  | none => exact Or.inl ⟨rfl, rfl⟩
  | some share =>
    cases hvalue : market.valuePerOccasion with
    | none => exact Or.inl ⟨rfl, rfl⟩
    | some value =>
      dsimp only
      cases proved observation row value with
      | error reason => exact Or.inl ⟨rfl, rfl⟩
      | ok result =>
        dsimp only
        split_ifs with hdelta
        · exact Or.inl ⟨rfl, rfl⟩
        · refine Or.inr ⟨result.2, ⟨result.1, value, result.2, _, share⟩, _, ?_, ?_, rfl, rfl⟩
          · simp [Except.toOption]
          · linarith

/-- The payments after some rows: each listing is paid the share of what its basis grew. -/
structure Settles (market : Market) (book : Book) (observation : Observation) (rows : List Row)
    (account : Account) : Prop where
  paid_eq : ∀ listing, paid account.lines listing =
    (basisOf account.bases listing - basisOf book.outcomeBasis listing) * market.share listing
  le : ∀ listing, basisOf book.outcomeBasis listing ≤ basisOf account.bases listing
  untouched : ∀ listing, listing ∉ rows.map Row.listing →
    basisOf account.bases listing = basisOf book.outcomeBasis listing
  proved : ∀ listing, basisOf account.bases listing = basisOf book.outcomeBasis listing ∨
    ∃ row ∈ rows, row.listing = listing ∧
      market.basis observation row = some (basisOf account.bases listing)

variable {observation : Observation} {world next : World} {call : ℕ} {draft : Draft} {action : Action}

theorem Settles.settleRow {market : Market} {book : Book} {rows : List Row} {account : Account}
    (h : Settles market book observation rows account) (period : String) {row : Row}
    (hrow : row.listing ∉ rows.map Row.listing) :
    Settles market book observation (rows ++ [row]) (settleRow market book period observation account row) := by
  unfold MarketSettlement.settleRow
  have hbook := h.untouched row.listing hrow
  have hkept : ∀ listing, listing ∉ (rows ++ [row]).map Row.listing → listing ∉ rows.map Row.listing := by
    intro listing hlisting hmem
    exact hlisting (by rw [List.map_append]; exact List.mem_append_left _ hmem)
  have hlast : row.listing ∈ (rows ++ [row]).map Row.listing :=
    List.mem_map.mpr ⟨row, List.mem_append_right _ List.mem_cons_self, rfl⟩
  obtain ⟨hbases, hlines⟩ | ⟨basis, evidence, licence, hbasis, hle, hbases, hlines⟩ :=
    outcome_cases market book.outcomeBasis observation
      { account with lines := account.lines ++ fee market period observation row } row
  · refine ⟨?_, ?_, ?_, ?_⟩
    · intro listing
      rw [hbases, hlines, paid_append, paid_fee, add_zero, h.paid_eq]
    · intro listing
      rw [hbases]
      exact h.le listing
    · intro listing hlisting
      rw [hbases]
      exact h.untouched listing (hkept listing hlisting)
    · intro listing
      rw [hbases]
      obtain hsame | ⟨other, hother, heq⟩ := h.proved listing
      · exact Or.inl hsame
      · exact Or.inr ⟨other, List.mem_append_left _ hother, heq⟩
  · refine ⟨?_, ?_, ?_, ?_⟩
    · intro listing
      rw [hbases, hlines, paid_append, paid_append, paid_fee, add_zero, h.paid_eq, basisOf_assign]
      by_cases hsame : listing = row.listing
      · subst hsame
        rw [if_pos rfl, hbook]
        simp [paid, Line.paid]
      · rw [if_neg hsame]
        simp [paid, Line.paid, Ne.symm hsame]
    · intro listing
      rw [hbases, basisOf_assign]
      split_ifs with hsame
      · rw [hsame]
        exact hle
      · exact h.le listing
    · intro listing hlisting
      rw [hbases, basisOf_assign, if_neg]
      · exact h.untouched listing (hkept listing hlisting)
      · rintro rfl
        exact hlisting hlast
    · intro listing
      rw [hbases, basisOf_assign]
      split_ifs with hsame
      · exact Or.inr ⟨row, List.mem_append_right _ List.mem_cons_self, hsame.symm, hbasis⟩
      · obtain hold | ⟨other, hother, heq⟩ := h.proved listing
        · exact Or.inl hold
        · exact Or.inr ⟨other, List.mem_append_left _ hother, heq⟩

theorem settles_account (market : Market) (book : Book) (period : String) (observation : Observation) :
    Settles market book observation observation.installed (account market book period observation) := by
  have hprefix : ∀ rows rest, rows ++ rest = observation.installed →
      Settles market book observation rows
        (rows.foldl (MarketSettlement.settleRow market book period observation) ⟨[], [], book.outcomeBasis⟩) := by
    intro rows
    induction rows using List.reverseRecOn with
    | nil =>
      intro rest _
      refine ⟨?_, fun _ ↦ le_rfl, fun _ _ ↦ rfl, fun _ ↦ Or.inl rfl⟩
      intro listing
      simp [paid]
    | append_singleton rows row ih =>
      intro rest hsplit
      rw [List.append_assoc, List.singleton_append] at hsplit
      rw [List.foldl_append]
      refine (ih _ hsplit).settleRow period ?_
      have hunique := observation.unique
      rw [← hsplit, List.map_append, List.map_cons, List.nodup_append] at hunique
      intro hmem
      exact hunique.2.2 _ hmem _ List.mem_cons_self rfl
  exact hprefix _ [] (List.append_nil _)

variable {market : Market} {digest : Digest}

/-- A call commits to the book that it has read. -/
def Undisturbed (world : World) : Action → Prop
  | .draft _ _ _ => True
  | .commit call => ∀ draft, world.drafts call = some draft → draft.book = world.book

/-- All payments for a listing. -/
def paidTotal (book : Book) (listing : String) : ℚ :=
  (book.statements.map fun statement ↦ paid statement.lines listing).sum

/-- A statement names the digest of the one before it. -/
def Follows (first second : Statement) : Prop := second.previousDigest = some first.digest

/-- The payments of a listing are its share of its basis, which some call has proved. -/
structure Fair (market : Market) (world : World) : Prop where
  paid_eq : ∀ listing, paidTotal world.book listing =
    basisOf world.book.outcomeBasis listing * market.share listing
  proved : ∀ listing, basisOf world.book.outcomeBasis listing = 0 ∨
    ∃ observation ∈ world.observed, ∃ row ∈ observation.installed, row.listing = listing ∧
      market.basis observation row = some (basisOf world.book.outcomeBasis listing)
  observed : ∀ call draft, world.drafts call = some draft → draft.observation ∈ world.observed
  periods : (world.book.statements.map Statement.period).Nodup
  chain : world.book.statements.IsChain Follows
  first : ∀ statement ∈ world.book.statements.head?, statement.previousDigest = none

theorem step_commit_eq_ok (h : step market digest world (.commit call) = .ok next) :
    next = world ∨ ∃ draft, world.drafts call = some draft ∧ world.book.settled draft.period = false ∧
      next = { world with
        book := world.book.commit market digest draft
        drafts := Function.update world.drafts call none } := by
  unfold step at h
  dsimp only at h
  split at h
  · exact Or.inl (Except.ok.inj h).symm
  · rename_i draft hdraft
    obtain ⟨_, hrequire, heq⟩ := Py.of_bind h
    refine Or.inr ⟨draft, hdraft, ?_, (Except.ok.inj heq).symm⟩
    simpa using hrequire

theorem step_draft_eq_ok {period : String}
    (h : step market digest world (.draft call period observation) = .ok next) :
    next = { world with
      drafts := Function.update world.drafts call (some ⟨world.book, period, observation⟩)
      observed := world.observed ++ [observation] } := by
  obtain ⟨_, heq⟩ := Py.of_rest h
  exact (Except.ok.inj heq).symm

theorem basisOf_commit_le (book : Book) (hbook : draft.book = book) (listing : String) :
    basisOf book.outcomeBasis listing ≤ basisOf (book.commit market digest draft).outcomeBasis listing := by
  have h := settles_account market draft.book draft.period draft.observation
  rw [← hbook]
  exact h.le listing

theorem paidTotal_commit (book : Book) (hbook : draft.book = book) (listing : String) :
    paidTotal (book.commit market digest draft) listing = paidTotal book listing +
      (basisOf (book.commit market digest draft).outcomeBasis listing - basisOf book.outcomeBasis listing) *
        market.share listing := by
  have h := settles_account market draft.book draft.period draft.observation
  rw [paidTotal, Book.commit, List.map_append, List.sum_append, List.map_singleton, List.sum_singleton, ← hbook]
  exact congrArg _ (h.paid_eq listing)

theorem Fair.commit (h : Fair market world) (hdraft : world.drafts call = some draft)
    (hbook : draft.book = world.book) (hperiod : world.book.settled draft.period = false) :
    Fair market { world with
      book := world.book.commit market digest draft
      drafts := Function.update world.drafts call none } := by
  refine ⟨?_, ?_, ?_, ?_, ?_, ?_⟩
  · intro listing
    rw [paidTotal_commit _ hbook, h.paid_eq]
    ring
  · intro listing
    have hsettles := settles_account market draft.book draft.period draft.observation
    obtain hsame | ⟨row, hrow, hlisting, hbasis⟩ := hsettles.proved listing
    · dsimp only [Book.commit]
      rw [hsame, hbook]
      exact h.proved listing
    · exact Or.inr ⟨draft.observation, h.observed call draft hdraft, row, hrow, hlisting, hbasis⟩
  · intro other draft' hdraft'
    dsimp only at hdraft'
    by_cases hother : other = call
    · subst hother
      rw [Function.update_self] at hdraft'
      cases hdraft'
    · rw [Function.update_of_ne hother] at hdraft'
      exact h.observed other draft' hdraft'
  · dsimp only [Book.commit]
    rw [List.map_append, List.map_singleton, ← List.concat_eq_append, List.nodup_concat]
    refine ⟨?_, h.periods⟩
    intro hmem
    obtain ⟨statement, hstatement, heq⟩ := List.mem_map.mp hmem
    have hsettled : world.book.settled draft.period = true :=
      List.any_eq_true.mpr ⟨statement, hstatement, decide_eq_true heq⟩
    rw [hperiod] at hsettled
    cases hsettled
  · dsimp only [Book.commit]
    rw [List.isChain_append]
    refine ⟨h.chain, List.isChain_singleton _, ?_⟩
    intro last hlast added hadded
    obtain rfl : _ = added := by simpa using hadded
    rw [Follows, MarketSettlement.statement, hbook, Option.mem_def.mp hlast, Option.map_some]
  · dsimp only [Book.commit]
    intro first hfirst
    cases hstatements : world.book.statements with
    | nil =>
      rw [hstatements] at hfirst
      obtain rfl : _ = first := by simpa using hfirst
      rw [MarketSettlement.statement, hbook, hstatements]
      rfl
    | cons statement statements =>
      rw [hstatements] at hfirst
      apply h.first
      rw [hstatements]
      exact hfirst

theorem Fair.step (h : Fair market world) (hundisturbed : Undisturbed world action)
    (hstep : step market digest world action = .ok next) :
    Fair market next := by
  cases action with
  | draft call period observation =>
    rw [step_draft_eq_ok hstep]
    refine ⟨h.paid_eq, ?_, ?_, h.periods, h.chain, h.first⟩
    · intro listing
      obtain hzero | ⟨other, hother, hrow⟩ := h.proved listing
      · exact Or.inl hzero
      · exact Or.inr ⟨other, List.mem_append_left _ hother, hrow⟩
    · intro other draft hdraft
      dsimp only at hdraft
      by_cases hcall : other = call
      · subst hcall
        rw [Function.update_self, Option.some.injEq] at hdraft
        rw [← hdraft]
        exact List.mem_append_right _ List.mem_cons_self
      · rw [Function.update_of_ne hcall] at hdraft
        exact List.mem_append_left _ (h.observed other draft hdraft)
  | commit call =>
    obtain rfl | ⟨draft, hdraft, hperiod, rfl⟩ := step_commit_eq_ok hstep
    · exact h
    · exact h.commit hdraft (hundisturbed draft hdraft) hperiod

theorem fair_empty : Fair market .empty := by
  refine ⟨?_, fun _ ↦ Or.inl rfl, ?_, List.nodup_nil, .nil, ?_⟩
  · intro listing
    simp [World.empty, Book.empty, paidTotal, basisOf]
  · intro call draft hdraft
    cases hdraft
  · intro statement hstatement
    cases hstatement

theorem basisOf_le_step (hundisturbed : Undisturbed world action)
    (hstep : step market digest world action = .ok next) (listing : String) :
    basisOf world.book.outcomeBasis listing ≤ basisOf next.book.outcomeBasis listing := by
  cases action with
  | draft call period observation =>
    rw [step_draft_eq_ok hstep]
  | commit call =>
    obtain rfl | ⟨draft, hdraft, -, rfl⟩ := step_commit_eq_ok hstep
    · exact le_rfl
    · exact basisOf_commit_le _ (hundisturbed draft hdraft) listing

/-- When every call commits to the book it read, payments stay within the largest proved share. -/
theorem lift_paid_once (market : Market) (digest : Digest) (actions others : List Action)
    (h : Along (step market digest) Undisturbed .empty (actions ++ others)) :
    let world := run (step market digest) .empty (actions ++ others)
    (∀ listing bound, 0 ≤ bound →
      (∀ observation ∈ world.observed, ∀ row ∈ observation.installed, row.listing = listing →
        ∀ basis, market.basis observation row = some basis → basis ≤ bound) →
      paidTotal world.book listing ≤ bound * market.share listing) ∧
    (∀ listing, basisOf (run (step market digest) .empty actions).book.outcomeBasis listing ≤
      basisOf world.book.outcomeBasis listing) ∧
    (world.book.statements.map Statement.period).Nodup ∧ world.book.statements.IsChain Follows ∧
    ∀ statement ∈ world.book.statements.head?, statement.previousDigest = none := by
  intro world
  have hfair : Fair market world :=
    run_invariant_along (fun state action next h hcondition hstep ↦ h.step hcondition hstep) fair_empty h
  refine ⟨?_, ?_, hfair.periods, hfair.chain, hfair.first⟩
  · intro listing bound hbound hproved
    rw [hfair.paid_eq]
    apply mul_le_mul_of_nonneg_right _ (market.share_nonneg listing)
    obtain hzero | ⟨observation, hobservation, row, hrow, hlisting, hbasis⟩ := hfair.proved listing
    · rw [hzero]
      exact hbound
    · exact hproved observation hobservation row hrow hlisting _ hbasis
  · intro listing
    have hgrows : ∀ state action next,
        basisOf (run (step market digest) .empty actions).book.outcomeBasis listing ≤
          basisOf state.book.outcomeBasis listing → Undisturbed state action →
        step market digest state action = .ok next →
        basisOf (run (step market digest) .empty actions).book.outcomeBasis listing ≤
          basisOf next.book.outcomeBasis listing := by
      intro state action next hle hcondition hstep
      exact hle.trans (basisOf_le_step hcondition hstep listing)
    have hmono := run_invariant_along hgrows le_rfl (along_append.mp h).2
    rw [← run_append] at hmono
    exact hmono

namespace Sample

def halves : Market where
  licence _ := ⟨"terms", none, some (1 / 2), by simp⟩
  valuePerOccasion := some 10
  decimal char := char.isDigit

def proven : Observation where
  installed := [⟨"listing", "lesson", "publisher", "2026-01-05"⟩]
  unique := List.nodup_singleton _
  status _ := some "active"
  effect _ := some ⟨.helps, 1, 1, 2, 2⟩
  issuedAt := "2026-02-01"

def digests : Digest := Statement.period

def racing : List Action :=
  [.draft 0 "2026-01" proven, .draft 1 "2026-02" proven, .commit 0, .commit 1]

def ordered : List Action :=
  [.draft 0 "2026-01" proven, .commit 0, .draft 1 "2026-02" proven, .commit 1]

end Sample

/-- Two calls that read the same book pay the same lift twice. -/
theorem lift_paid_twice :
    let world := run (step Sample.halves Sample.digests) .empty Sample.racing
    paidTotal world.book "listing" = 20 ∧
      (∀ observation ∈ world.observed, ∀ row ∈ observation.installed, Sample.halves.basis observation row = some 20) ∧
      ¬paidTotal world.book "listing" ≤ 20 * Sample.halves.share "listing" ∧
      world.book.statements.map Statement.previousDigest = [none, none] := by
  decide +kernel

theorem lift_paid_once_ordered :
    paidTotal (run (step Sample.halves Sample.digests) .empty Sample.ordered).book "listing" ≤
      20 * Sample.halves.share "listing" := by
  have h : Along (step Sample.halves Sample.digests) Undisturbed .empty (Sample.ordered ++ []) := by
    refine ⟨trivial, ?_, trivial, ?_, trivial⟩
    · intro draft hdraft
      cases hdraft
      rfl
    · intro draft hdraft
      cases hdraft
      rfl
  refine (lift_paid_once Sample.halves Sample.digests Sample.ordered [] h).1 "listing" 20 (by norm_num) ?_
  decide +kernel

end UniMem.MarketSettlement
