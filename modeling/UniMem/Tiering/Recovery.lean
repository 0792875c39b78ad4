import UniMem.Tiering.Durability

/-!
# What the operations on tiers keep

A move copies every blob before it records the new state, and removes the old copies afterwards. An erasure
removes the blobs of an artifact before it records the erasure, so that it can be repeated.
-/

namespace UniMem.Tiering

open Library FrontierProtocol NextwaveStore

variable {runtime : Runtime} {environment : Environment} {values : List Json} {tier next middle : Tier}
  {digests : List String}

/-! ## Moves -/

/-- What copies leave: the rows and the hot files are the same. -/
structure Copied (tier next : Tier) : Prop where
  active : next.active = tier.active
  begun : next.begun = tier.begun
  hot : next.hot = tier.hot
  state : next.state = tier.state

/-- What restored files leave: the rows and the cold files are the same. -/
structure Restored (tier next : Tier) : Prop where
  active : next.active = tier.active
  puts : next.puts = tier.puts
  begun : next.begun = tier.begun
  cold : next.cold = tier.cold
  state : next.state = tier.state

theorem copied_of_attempt (h : attempt (apply runtime) tier (digests.map .copy) = (next, none)) :
    Copied tier next ∧ ∀ digest, (digest ∈ digests ∨ tier.cold.lookup digest = tier.hot.lookup digest) →
        next.cold.lookup digest = tier.hot.lookup digest := by
  induction digests generalizing tier with
  | nil =>
    obtain ⟨rfl, -⟩ := Prod.mk.inj h
    exact ⟨⟨rfl, rfl, rfl, rfl⟩, fun digest hdigest ↦ hdigest.resolve_left List.not_mem_nil⟩
  | cons first digests ih =>
    rw [List.map_cons] at h
    cases hfirst : apply runtime tier (.copy first) with
    | error error =>
      rw [attempt_cons_of_error hfirst] at h
      cases h
    | ok middle =>
      rw [attempt_cons_of_ok hfirst] at h
      obtain ⟨raw, hraw, rfl⟩ := copy_eq_ok hfirst
      obtain ⟨hcopied, hall⟩ := ih h
      refine ⟨⟨hcopied.active, hcopied.begun, hcopied.hot, hcopied.state⟩, ?_⟩
      intro digest hdigest
      apply hall
      dsimp only
      rw [lookup_assign]
      by_cases heq : digest = first
      · rw [if_pos heq, heq]
        exact Or.inr hraw.symm
      · rw [if_neg heq]
        exact hdigest.imp_left fun hmem ↦ (List.mem_cons.mp hmem).resolve_left heq

theorem restored_of_attempt (h : attempt (apply runtime) tier (digests.map .restore) = (next, none)) :
    Restored tier next ∧ ∀ digest, (digest ∈ digests ∨ tier.hot.lookup digest = tier.cold.lookup digest) →
        next.hot.lookup digest = tier.cold.lookup digest := by
  induction digests generalizing tier with
  | nil =>
    obtain ⟨rfl, -⟩ := Prod.mk.inj h
    exact ⟨⟨rfl, rfl, rfl, rfl, rfl⟩, fun digest hdigest ↦ hdigest.resolve_left List.not_mem_nil⟩
  | cons first digests ih =>
    rw [List.map_cons] at h
    cases hfirst : apply runtime tier (.restore first) with
    | error error =>
      rw [attempt_cons_of_error hfirst] at h
      cases h
    | ok middle =>
      rw [attempt_cons_of_ok hfirst] at h
      obtain ⟨raw, hraw, rfl⟩ := restore_eq_ok hfirst
      obtain ⟨hrestored, hall⟩ := ih h
      refine ⟨⟨hrestored.active, hrestored.puts, hrestored.begun, hrestored.cold, hrestored.state⟩, ?_⟩
      intro digest hdigest
      apply hall
      dsimp only
      rw [lookup_assign]
      by_cases heq : digest = first
      · rw [if_pos heq, heq]
        exact Or.inr hraw.symm
      · rw [if_neg heq]
        exact hdigest.imp_left fun hmem ↦ (List.mem_cons.mp hmem).resolve_left heq

section

variable (h : Intact runtime values tier)
include h

theorem safe_copies (hwarm : tier.state.cold = false) :
    Safe (apply runtime) (Intact runtime values) tier (digests.map .copy) := by
  refine safe_map (fun state ↦ state.state.cold = false) hwarm h fun state digest _ next hguard hintact hnext ↦ ?_
  have hkept := hintact.copy hguard hnext
  obtain ⟨raw, -, rfl⟩ := copy_eq_ok hnext
  exact ⟨hguard, hkept⟩

theorem safe_restores (hcold : tier.state.cold = true) :
    Safe (apply runtime) (Intact runtime values) tier (digests.map .restore) := by
  refine safe_map (fun state ↦ state.state.cold = true) hcold h fun state digest _ next hguard hintact hnext ↦ ?_
  have hkept := hintact.restore hguard hnext
  obtain ⟨raw, -, rfl⟩ := restore_eq_ok hnext
  exact ⟨hguard, hkept⟩

theorem safe_unlinks (hcold : tier.state.cold = true) :
    Safe (apply runtime) (Intact runtime values) tier (digests.map .unlink) := by
  refine safe_map (fun state ↦ state.state.cold = true) hcold h fun state digest _ next hguard hintact hnext ↦
    ⟨?_, hintact.unlink hguard hnext⟩
  obtain rfl := Except.ok.inj hnext
  exact hguard

theorem safe_cleanups (hwarm : tier.state.cold = false) :
    Safe (apply runtime) (Intact runtime values) tier (digests.map .cleanup) := by
  refine safe_map (fun state ↦ state.state.cold = false) hwarm h fun state digest _ next hguard hintact hnext ↦
    ⟨?_, hintact.cleanup hguard hnext⟩
  obtain rfl := Except.ok.inj hnext
  exact hguard

omit h in
theorem attempt_cleanups (runtime : Runtime) (tier : Tier) (digests : List String) :
    ∃ cold, attempt (apply runtime) tier (digests.map .cleanup) = ({ tier with cold }, none) := by
  induction digests generalizing tier with
  | nil => exact ⟨tier.cold, rfl⟩
  | cons digest digests ih =>
    obtain ⟨cold, hcold⟩ := ih { tier with cold := discard digest tier.cold }
    have hfirst : apply runtime tier (.cleanup digest) =
        .ok { tier with cold := discard digest tier.cold } := rfl
    rw [List.map_cons, attempt_cons_of_ok hfirst, hcold]
    exact ⟨cold, rfl⟩

variable {plan : List Effect} {kind : Kind} {deleted : List String} {row : NextwaveStore.Event}

theorem safe_mark {state : TierState}
    (hready : ∀ row ∈ tier.active, ∀ digest, row.digest = some digest → tier.Available digest →
      Tier.Available { tier with state } digest)
    (hrest : Intact runtime values { tier with state } →
      Safe (apply runtime) (Intact runtime values) { tier with state } plan) :
    Safe (apply runtime) (Intact runtime values) tier (.mark state :: plan) := by
  intro next hnext
  have hkept := h.mark hready hnext
  obtain rfl := Except.ok.inj hnext
  exact ⟨hkept, hrest hkept⟩

/-! ## Hibernation -/

omit h in
theorem mem_files {digest : String} {files : Files} (h : files.lookup digest ≠ none) :
    digest ∈ sortBy id (files.map Prod.fst).dedup := by
  rw [mem_sortBy, List.mem_dedup]
  by_contra hnot
  exact h (List.lookup_eq_none_iff.mpr fun entry hentry ↦ by
    rw [bne_iff_ne]
    rintro rfl
    exact hnot (List.mem_map_of_mem hentry))

theorem safe_hibernate (hplan : hibernateEffects environment tier = .ok plan) :
    Safe (apply runtime) (Intact runtime values) tier plan := by
  obtain ⟨_, hplan⟩ := Py.of_rest hplan
  obtain ⟨_, hplan⟩ := Py.of_rest hplan
  by_cases hidle : (!environment.idle) = true
  · rw [if_pos hidle] at hplan
    obtain rfl := Except.ok.inj hplan
    trivial
  · rw [if_neg hidle] at hplan
    obtain ⟨_, hplan⟩ := Py.of_rest hplan
    obtain ⟨_, hplan⟩ := Py.of_rest hplan
    obtain ⟨_, hplan⟩ := Py.of_rest hplan
    by_cases hcold : tier.state.cold = true
    · rw [if_pos hcold] at hplan
      obtain rfl := Except.ok.inj hplan
      trivial
    · rw [if_neg hcold] at hplan
      dsimp only at hplan
      obtain ⟨_, hplan⟩ := Py.of_rest hplan
      obtain rfl := Except.ok.inj hplan
      have hwarm : tier.state.cold = false := Bool.eq_false_iff.mpr hcold
      rw [List.append_assoc]
      refine (safe_copies h hwarm).append fun middle hmiddle ↦ ?_
      have hintact := (safe_copies h hwarm).of_attempt h hmiddle
      obtain ⟨hcopied, hall⟩ := copied_of_attempt hmiddle
      refine safe_mark hintact ?_ fun hmarked ↦ safe_unlinks hmarked rfl
      intro row _ digest _ havailable
      obtain hbegun | ⟨raw, hraw⟩ := havailable
      · exact Or.inl hbegun
      · refine Or.inr ⟨raw, ?_⟩
        unfold Tier.Holds at hraw ⊢
        rw [hcopied.state, hwarm, hcopied.hot] at hraw
        simp only [Bool.false_eq_true, if_false] at hraw
        have hmem : digest ∈ sortBy id (tier.hot.map Prod.fst).dedup := mem_files (by simp [hraw])
        simp only [if_true]
        exact ⟨hmem, (hall digest (Or.inl hmem)).trans hraw⟩

/-! ## Warming -/

theorem safe_cleanup_all (hwarm : tier.state.cold = false) :
    Safe (apply runtime) (Intact runtime values) tier (digests.map .cleanup ++ [.mark .hot]) := by
  refine (safe_cleanups h hwarm).append fun middle hmiddle ↦ ?_
  have hintact := (safe_cleanups h hwarm).of_attempt h hmiddle
  obtain ⟨cold, hcold⟩ := attempt_cleanups runtime tier digests
  obtain rfl : { tier with cold } = middle := (Prod.mk.inj (hcold.symm.trans hmiddle)).1
  refine safe_mark hintact ?_ fun _ ↦ trivial
  intro row _ digest _ havailable
  unfold Tier.Available Tier.Holds at havailable ⊢
  dsimp only at havailable ⊢
  rw [hwarm] at havailable
  exact havailable

end

/-- The blobs that a cold namespace restores when it becomes warm. -/
def wanted (tier : Tier) : List String :=
  tier.state.payloads.filter (· ∈ tier.active.filterMap NextwaveStore.Event.digest)

theorem warmEffects_of_cold (hcold : tier.state.cold = true) (h : warmEffects environment tier = .ok plan) :
    plan = (wanted tier).map .restore ++ (.mark ⟨false, tier.state.payloads, true⟩ ::
      (tier.state.payloads.map .cleanup ++ [.mark .hot])) := by
  obtain ⟨_, h⟩ := Py.of_rest h
  rw [if_pos hcold] at h
  obtain ⟨rows, hrows, h⟩ := Py.of_bind h
  obtain ⟨_, h⟩ := Py.of_rest h
  obtain ⟨_, hrows⟩ := Py.of_rest hrows
  obtain rfl := Except.ok.inj hrows
  obtain rfl := Except.ok.inj h
  rw [List.append_assoc, List.append_assoc]
  rfl

theorem available_of_restored (hcold : tier.state.cold = true)
    (hmiddle : attempt (apply runtime) tier ((wanted tier).map .restore) = (middle, none)) :
    ∀ row ∈ middle.active, ∀ digest, row.digest = some digest → middle.Available digest →
      Tier.Available { middle with state := ⟨false, tier.state.payloads, true⟩ } digest := by
  obtain ⟨hrestored, hall⟩ := restored_of_attempt hmiddle
  intro row hrow digest hdigest havailable
  obtain hbegun | ⟨raw, hraw⟩ := havailable
  · exact Or.inl hbegun
  · refine Or.inr ⟨raw, ?_⟩
    unfold Tier.Holds at hraw ⊢
    rw [hrestored.state, hcold, hrestored.cold] at hraw
    simp only [if_true] at hraw
    simp only [Bool.false_eq_true, if_false]
    rw [hrestored.active] at hrow
    have hwanted : digest ∈ wanted tier :=
      List.mem_filter.mpr ⟨hraw.1, decide_eq_true (List.mem_filterMap.mpr ⟨row, hrow, hdigest⟩)⟩
    exact (hall digest (Or.inl hwanted)).trans hraw.2

theorem safe_warm (h : Intact runtime values tier) (hplan : warmEffects environment tier = .ok plan) :
    Safe (apply runtime) (Intact runtime values) tier plan := by
  by_cases hcold : tier.state.cold = true
  · rw [warmEffects_of_cold hcold hplan]
    refine (safe_restores h hcold).append fun middle hmiddle ↦ ?_
    have hintact := (safe_restores h hcold).of_attempt h hmiddle
    exact safe_mark hintact (available_of_restored hcold hmiddle) fun hmarked ↦ safe_cleanup_all hmarked rfl
  · obtain ⟨_, hplan⟩ := Py.of_rest hplan
    rw [if_neg hcold] at hplan
    by_cases hpending : tier.state.cleanupPending = true
    · rw [if_pos hpending] at hplan
      obtain rfl := Except.ok.inj hplan
      exact safe_cleanup_all h (Bool.eq_false_iff.mpr hcold)
    · rw [if_neg hpending] at hplan
      obtain rfl := Except.ok.inj hplan
      trivial

/-- A namespace that was warmed is hot, with the same artifacts. -/
structure Warmed (tier next : Tier) : Prop where
  active : next.active = tier.active
  puts : next.puts = tier.puts
  begun : next.begun = tier.begun
  hot : next.state.cold = false

theorem warmed_of_cleanup_all
    (h : attempt (apply runtime) tier (digests.map .cleanup ++ [.mark .hot]) = (next, none)) :
    Warmed tier next := by
  obtain ⟨cold, hcold⟩ := attempt_cleanups runtime tier digests
  rw [attempt_append_of_none hcold] at h
  obtain rfl := (Prod.mk.inj h).1
  exact ⟨rfl, rfl, rfl, rfl⟩

theorem warmed_of_ok (h : Tiering.warm runtime environment tier = (.ok (), next)) : Warmed tier next := by
  unfold Tiering.warm carryOut at h
  split at h
  · cases h
  · rename_i plan hplan
    split at h
    · rename_i final hattempt
      obtain rfl := (Prod.mk.inj h).2
      by_cases hcold : tier.state.cold = true
      · rw [warmEffects_of_cold hcold hplan] at hattempt
        cases hrestores : attempt (apply runtime) tier ((wanted tier).map .restore) with
        | mk middle raised =>
          cases raised with
          | some error =>
            rw [attempt_append_of_some hrestores] at hattempt
            cases hattempt
          | none =>
            rw [attempt_append_of_none hrestores] at hattempt
            obtain ⟨hrestored, -⟩ := restored_of_attempt hrestores
            have hwarmed : Warmed { middle with state := ⟨false, tier.state.payloads, true⟩ } final :=
              warmed_of_cleanup_all hattempt
            obtain ⟨hactive, hputs, hbegun, hhot⟩ := hwarmed
            exact ⟨hactive.trans hrestored.active, hputs.trans hrestored.puts, hbegun.trans hrestored.begun, hhot⟩
      · obtain ⟨_, hplan⟩ := Py.of_rest hplan
        rw [if_neg hcold] at hplan
        by_cases hpending : tier.state.cleanupPending = true
        · rw [if_pos hpending] at hplan
          obtain rfl := Except.ok.inj hplan
          exact warmed_of_cleanup_all hattempt
        · rw [if_neg hpending] at hplan
          obtain rfl := Except.ok.inj hplan
          obtain rfl := (Prod.mk.inj hattempt).1
          exact ⟨rfl, rfl, rfl, Bool.eq_false_iff.mpr hcold⟩
    · cases h

section

variable (h : Intact runtime values tier)
include h

theorem Intact.carryOut {plan : Py (List Effect)}
    (hplan : ∀ effects, plan = .ok effects → Safe (apply runtime) (Intact runtime values) tier effects) :
    Intact runtime values (Tiering.carryOut runtime tier plan).2 := by
  unfold Tiering.carryOut
  cases plan with
  | error error => exact h
  | ok effects =>
    dsimp only
    cases hattempt : attempt (apply runtime) tier effects with
    | mk final raised =>
      have hfinal := (hplan effects rfl).of_attempt h hattempt
      cases raised with
      | none => exact hfinal
      | some error => exact hfinal

/-! ## Puts -/

theorem safe_put {request : Request} (hwarm : tier.state.cold = false)
    (hvalue : request.value ∈ values) (hplan : putEffects runtime environment tier request = .ok plan) :
    Safe (apply runtime) (Intact runtime values) tier plan := by
  obtain ⟨data, hdata, hplan⟩ := Py.of_bind hplan
  obtain ⟨hwirable, rfl⟩ := wire_eq_ok_iff.mp hdata
  obtain ⟨_, hsize, hplan⟩ := Py.of_bind hplan
  obtain ⟨_, hplan⟩ := Py.of_rest hplan
  obtain ⟨_, hplan⟩ := Py.of_rest hplan
  obtain ⟨_, hplan⟩ := Py.of_rest hplan
  obtain ⟨_, hplan⟩ := Py.of_rest hplan
  obtain ⟨_, hplan⟩ := Py.of_rest hplan
  dsimp only at hplan
  obtain ⟨_, hplan⟩ := Py.of_rest hplan
  obtain ⟨_, hblob, hplan⟩ := Py.of_bind hplan
  obtain ⟨rows, hrows, hplan⟩ := Py.of_bind hplan
  obtain ⟨_, hrows⟩ := Py.of_rest hrows
  obtain rfl := Except.ok.inj hrows
  have hsize' : (canonicalBytes request.value).length ≤ maxBlob :=
    of_decide_eq_true (Py.require_eq_ok_iff.mp hsize)
  have hgenuine : Genuine runtime values (runtime.sha256 (canonicalBytes request.value))
      (contents request.value) := ⟨request.value, hvalue, hwirable, hsize', rfl, rfl⟩
  have hnamed : runtime.sha256 (canonicalBytes request.value) ≠ "" := by
    intro hempty
    rw [hempty] at hblob
    cases hblob
  cases hfind : tier.kind.objects.find? (·.id = (request.row (runtime.sha256 (canonicalBytes request.value))).id) with
  | some old =>
    rw [hfind] at hplan
    obtain ⟨_, hplan⟩ := Py.of_rest hplan
    obtain ⟨_, hplan⟩ := Py.of_rest hplan
    obtain ⟨_, hplan⟩ := Py.of_rest hplan
    obtain rfl := Except.ok.inj hplan
    trivial
  | none =>
    rw [hfind] at hplan
    obtain ⟨_, hcount, hplan⟩ := Py.of_bind hplan
    obtain ⟨_, hplan⟩ := Py.of_rest hplan
    obtain ⟨_, hplan⟩ := Py.of_rest hplan
    obtain rfl := Except.ok.inj hplan
    have hfew : tier.kind.objects.length + 1 ≤ maxObjects := by
      have hhigh := (count_eq_ok_iff.mp hcount).1.2
      exact_mod_cast hhigh
    have hnew : request.identity ∉ tier.kind.objects.map NextwaveStore.Event.id := by
      intro hmem
      obtain ⟨row, hrow, heq⟩ := List.mem_map.mp hmem
      have hnone := List.find?_eq_none.mp hfind row hrow
      exact hnone (decide_eq_true heq)
    have hrecorded : Recorded runtime values [(request.identity, request.value)]
        (request.row (runtime.sha256 (canonicalBytes request.value))) :=
      ⟨request.value, hvalue, List.mem_cons_self, rfl, hnamed⟩
    by_cases hthere : (tier.hot.lookup (runtime.sha256 (canonicalBytes request.value))).isSome = true
    · rw [if_pos hthere, List.nil_append]
      intro next hnext
      refine ⟨h.record hwarm rfl rfl ?_ hnew hfew hrecorded hnext, trivial⟩
      exact Option.isSome_iff_ne_none.mp hthere
    · rw [if_neg hthere]
      intro written hwritten
      have hintact := h.write hwarm hgenuine hwritten
      obtain rfl := Except.ok.inj hwritten
      refine ⟨hintact, fun next hnext ↦ ⟨?_, trivial⟩⟩
      refine hintact.record hwarm rfl rfl ?_ hnew hfew hrecorded hnext
      dsimp only
      rw [lookup_assign, if_pos rfl]
      exact Option.some_ne_none _

/-! ## Erasures -/

omit h in
theorem attempt_purges (runtime : Runtime) (tier : Tier) (digests : List String) :
    ∃ cold begun, attempt (apply runtime) tier (digests.map .purge) = ({ tier with cold, begun }, none) ∧
      ∀ digest, (digest ∈ digests ∨ tier.cold.lookup digest = none) → cold.lookup digest = none := by
  induction digests generalizing tier with
  | nil => exact ⟨tier.cold, tier.begun, rfl, fun digest h ↦ h.resolve_left List.not_mem_nil⟩
  | cons first digests ih =>
    obtain ⟨cold, begun, hattempt, hall⟩ :=
      ih { tier with cold := discard first tier.cold, begun := first :: tier.begun }
    have hfirst : apply runtime tier (.purge first) =
        .ok { tier with cold := discard first tier.cold, begun := first :: tier.begun } := rfl
    rw [List.map_cons, attempt_cons_of_ok hfirst]
    refine ⟨cold, begun, hattempt, ?_⟩
    intro digest hdigest
    apply hall
    dsimp only
    rw [lookup_discard]
    by_cases heq : digest = first
    · exact Or.inr (if_pos heq)
    · rw [if_neg heq]
      exact hdigest.imp_left fun hmem ↦ (List.mem_cons.mp hmem).resolve_left heq

omit h in
theorem attempt_erases (runtime : Runtime) (tier : Tier) (digests : List String) :
    ∃ hot begun pending,
      attempt (apply runtime) tier (digests.map .erase) = ({ tier with hot, begun, pending }, none) ∧
        ∀ digest, (digest ∈ digests ∨ tier.hot.lookup digest = none) → hot.lookup digest = none := by
  induction digests generalizing tier with
  | nil => exact ⟨tier.hot, tier.begun, tier.pending, rfl, fun digest h ↦ h.resolve_left List.not_mem_nil⟩
  | cons first digests ih =>
    obtain ⟨hot, begun, pending, hattempt, hall⟩ :=
      ih { tier with
        hot := discard first tier.hot
        begun := first :: tier.begun
        pending := tier.pending.filter (· ≠ first) }
    have hfirst : apply runtime tier (.erase first) =
        .ok { tier with
          hot := discard first tier.hot
          begun := first :: tier.begun
          pending := tier.pending.filter (· ≠ first) } := rfl
    rw [List.map_cons, attempt_cons_of_ok hfirst]
    refine ⟨hot, begun, pending, hattempt, ?_⟩
    intro digest hdigest
    apply hall
    dsimp only
    rw [lookup_discard]
    by_cases heq : digest = first
    · exact Or.inr (if_pos heq)
    · rw [if_neg heq]
      exact hdigest.imp_left fun hmem ↦ (List.mem_cons.mp hmem).resolve_left heq

theorem safe_purges :
    Safe (apply runtime) (Intact runtime values) tier (digests.map .purge) :=
  safe_map (fun _ ↦ True) trivial h fun _ _ _ _ _ hintact hnext ↦ ⟨trivial, hintact.purge hnext⟩

theorem safe_erases (hgone : ∀ digest ∈ digests, tier.cold.lookup digest = none) :
    Safe (apply runtime) (Intact runtime values) tier (digests.map .erase) := by
  refine safe_map (fun state ↦ ∀ digest ∈ digests, state.cold.lookup digest = none) hgone h
    fun state digest hdigest next hguard hintact hnext ↦
    ⟨?_, hintact.erase (hguard digest hdigest) hnext⟩
  obtain rfl := Except.ok.inj hnext
  exact hguard

/-- What an erasure relies on for the rows that it still has to visit. -/
structure Erasing (kind : Kind) (deleted : List String) (tier : Tier) (rows : List NextwaveStore.Event) : Prop where
  rows : ∀ row ∈ rows, row ∈ tier.kind.objects ∧ row ∈ kind.events ∧ kind.touches deleted row = true
  spared : ∀ digest ∈ kind.live deleted,
    ∃ other ∈ tier.active, kind.touches deleted other = false ∧ other.digest = some digest

theorem safe_eraseRow {rows : List NextwaveStore.Event}
    (herasing : Erasing kind deleted tier (row :: rows)) (hnew : ∀ other ∈ rows, other.id ≠ row.id) :
    Safe (apply runtime) (Intact runtime values) tier (eraseRow (kind.live deleted) kind row) ∧
      ∀ middle, attempt (apply runtime) tier (eraseRow (kind.live deleted) kind row) = (middle, none) →
        Erasing kind deleted middle rows := by
  obtain ⟨hobject, hevent, htouched⟩ := herasing.rows row List.mem_cons_self
  unfold eraseRow
  by_cases hstatus : row.status = some .erased
  · rw [if_pos hstatus]
    refine ⟨trivial, ?_⟩
    intro middle hmiddle
    obtain rfl := (Prod.mk.inj hmiddle).1
    exact ⟨fun other hother ↦ herasing.rows other (List.mem_cons_of_mem _ hother), herasing.spared⟩
  · rw [if_neg hstatus]
    dsimp only
    generalize hremoved : (kind.versions row.id).dedup.filter (· ∉ kind.live deleted) = removed
    obtain ⟨cold, begun, hpurges, hcold⟩ := attempt_purges runtime tier (sortBy id removed)
    obtain ⟨hot, begun', pending, herases, hhot⟩ := attempt_erases runtime { tier with cold, begun } removed
    have hpurged : Safe (apply runtime) (Intact runtime values) tier ((sortBy id removed).map .purge) :=
      safe_purges h
    have hintact := hpurged.of_attempt h hpurges
    have hsafe : Safe (apply runtime) (Intact runtime values) { tier with cold, begun }
        (removed.map .erase) :=
      safe_erases hintact fun digest hdigest ↦ hcold digest (Or.inl (mem_sortBy.mpr hdigest))
    have hclean := hsafe.of_attempt hintact herases
    -- No other artifact has the id of a row that is visited.
    have hapart : ∀ other ∈ tier.active, kind.touches deleted other = false → other.id ≠ row.id := by
      intro other hother hspared hid
      obtain rfl := List.inj_on_of_nodup_map (nodup_objects tier.kind) (mem_active.mp hother).1 hobject hid
      rw [htouched] at hspared
      cases hspared
    rw [List.append_assoc]
    constructor
    · refine hpurged.append fun middle hmiddle ↦ ?_
      obtain rfl := (Prod.mk.inj (hpurges.symm.trans hmiddle)).1
      refine hsafe.append fun middle hmiddle ↦ ?_
      obtain rfl := (Prod.mk.inj (herases.symm.trans hmiddle)).1
      intro next hnext
      refine ⟨?_, trivial⟩
      obtain ⟨value, -, -, hdigest, hnamed⟩ :=
        h.recorded row (key_of_lastWith (mem_objects_iff.mp hobject)).1
      refine hclean.bury hobject hdigest ?_ hnext
      by_cases hlive : runtime.sha256 (canonicalBytes value) ∈ kind.live deleted
      · obtain ⟨other, hother, hspared, hsame⟩ := herasing.spared _ hlive
        exact Or.inr ⟨other, hother, hapart other hother hspared, hsame⟩
      · have hmem : runtime.sha256 (canonicalBytes value) ∈ removed := by
          rw [← hremoved]
          refine List.mem_filter.mpr ⟨List.mem_dedup.mpr ?_, decide_eq_true hlive⟩
          refine List.mem_filter.mpr ⟨List.mem_filterMap.mpr ⟨row, ?_, hdigest⟩, ?_⟩
          · exact List.mem_filter.mpr ⟨hevent, decide_eq_true rfl⟩
          · simpa [String.isEmpty_iff] using hnamed
        refine Or.inl ?_
        rintro (hstored | hstored)
        · exact hstored (hhot _ (Or.inl hmem))
        · exact hstored (hcold _ (Or.inl (mem_sortBy.mpr hmem)))
    · intro middle hmiddle
      rw [attempt_append_of_none hpurges, attempt_append_of_none herases] at hmiddle
      obtain rfl := (Prod.mk.inj hmiddle).1
      constructor
      · intro other hother
        obtain ⟨hmem, hrest⟩ := herasing.rows other (List.mem_cons_of_mem _ hother)
        have hother' : other.id ≠ row.tombstone.id := hnew other hother
        exact ⟨(mem_objects_of_events rfl).mpr (Or.inr ⟨hmem, hother'⟩), hrest⟩
      · intro digest hdigest
        obtain ⟨other, hother, hspared, hsame⟩ := herasing.spared digest hdigest
        refine ⟨other, mem_active.mpr ⟨?_, (mem_active.mp hother).2⟩, hspared, hsame⟩
        have hother' : other.id ≠ row.tombstone.id := hapart other hother hspared
        exact (mem_objects_of_events rfl).mpr (Or.inr ⟨(mem_active.mp hother).1, hother'⟩)

theorem safe_eraseRows {rows : List NextwaveStore.Event}
    (herasing : Erasing kind deleted tier rows) (hnodup : (rows.map NextwaveStore.Event.id).Nodup) :
    Safe (apply runtime) (Intact runtime values) tier (rows.flatMap (eraseRow (kind.live deleted) kind)) := by
  induction rows generalizing tier with
  | nil => trivial
  | cons row rows ih =>
    rw [List.map_cons, List.nodup_cons] at hnodup
    have hnew : ∀ other ∈ rows, other.id ≠ row.id := by
      rintro other hother hid
      rw [← hid] at hnodup
      exact hnodup.1 (List.mem_map_of_mem hother)
    obtain ⟨hsafe, hnext⟩ := safe_eraseRow h herasing hnew
    rw [List.flatMap_cons]
    exact hsafe.append fun middle hmiddle ↦ ih (hsafe.of_attempt h hmiddle) (hnext middle hmiddle) hnodup.2

theorem safe_erase (hplan : eraseEffects environment tier deleted = .ok plan) :
    Safe (apply runtime) (Intact runtime values) tier plan := by
  obtain ⟨_, hplan⟩ := Py.of_rest hplan
  obtain ⟨_, hplan⟩ := Py.of_rest hplan
  obtain rfl := Except.ok.inj hplan
  refine safe_eraseRows h ⟨?_, ?_⟩ ?_
  · intro row hrow
    obtain ⟨hobject, htouched⟩ := mem_affected.mp hrow
    exact ⟨hobject, (key_of_lastWith (mem_objects_iff.mp hobject)).1, htouched⟩
  · intro digest hdigest
    obtain ⟨row, hrow, hsome⟩ := List.mem_filterMap.mp hdigest
    obtain ⟨hobject, hlive⟩ := List.mem_filter.mp hrow
    rw [Bool.and_eq_true, Bool.not_eq_true', decide_eq_true_eq] at hlive
    exact ⟨row, mem_active.mpr ⟨hobject, hlive.2⟩, hlive.1, hsome⟩
  · have hperm := ((sortBy_perm NextwaveStore.Event.id (tier.kind.objects.filter (tier.kind.touches deleted))).map
      NextwaveStore.Event.id)
    exact hperm.nodup_iff.mpr ((nodup_objects tier.kind).sublist (List.filter_sublist.map _))

/-! ## Runs -/

/-- A namespace without artifacts. -/
def Tier.empty (name : String) : Tier := ⟨name, [], [], [], .hot, [], [], []⟩

/-- The value that an action puts. -/
def Action.value : Action → Option Json
  | .put _ request _ => some request.value
  | _ => none

omit h in
theorem intact_empty (name : String) : Intact runtime values (Tier.empty name) where
  genuine _ _ h := by simp [Tier.empty] at h
  recorded _ h := by cases h
  distinct := List.nodup_nil
  known _ h := by cases h
  few := Nat.zero_le _
  available _ h := by cases mem_events_of_active h
  gone _ _ h := by
    obtain ⟨row, hrow, -⟩ := h
    cases hrow

theorem intact_of_stop {effects : Py (List Effect)} {steps : ℕ}
    (hsafe : ∀ plan, effects = .ok plan → Safe (apply runtime) (Intact runtime values) tier plan)
    (hnext : stop runtime tier effects steps = .ok next) : Intact runtime values next := by
  obtain ⟨plan, hplan, hnext⟩ := Py.of_bind hnext
  obtain rfl := Except.ok.inj hnext
  exact (hsafe plan hplan).attempt_take h steps

theorem intact_of_act {action : Action}
    (hvalue : ∀ value, action.value = some value → value ∈ values)
    (hnext : act runtime tier action = .ok next) : Intact runtime values next := by
  cases action with
  | put environment request steps =>
    obtain ⟨_, hnext⟩ := Py.of_rest hnext
    have hwarmed : Intact runtime values (Tiering.warm runtime environment tier).2 :=
      h.carryOut fun plan hplan ↦ safe_warm h hplan
    split at hnext
    · rename_i error warmed hwarm
      obtain rfl := Except.ok.inj hnext
      rw [hwarm] at hwarmed
      exact hwarmed
    · rename_i warmed hwarm
      rw [hwarm] at hwarmed
      split at hnext
      · obtain rfl := Except.ok.inj hnext
        exact hwarmed
      · rename_i plan hplan
        obtain rfl := Except.ok.inj hnext
        exact (safe_put hwarmed (warmed_of_ok hwarm).hot (hvalue _ rfl) hplan).attempt_take hwarmed steps
  | hibernate environment steps => exact intact_of_stop h (fun plan hplan ↦ safe_hibernate h hplan) hnext
  | warm environment steps => exact intact_of_stop h (fun plan hplan ↦ safe_warm h hplan) hnext
  | get environment =>
    obtain rfl := Except.ok.inj hnext
    exact h.carryOut fun plan hplan ↦ safe_warm h hplan
  | erase environment deleted steps => exact intact_of_stop h (fun plan hplan ↦ safe_erase h hplan) hnext

end

theorem intact_run {actions : List Action} (name : String)
    (hvalues : ∀ action ∈ actions, ∀ value, action.value = some value → value ∈ values) :
    Intact runtime values (run (act runtime) (Tier.empty name) actions) := by
  have hstep : ∀ tier action next, Intact runtime values tier →
      (∀ value, action.value = some value → value ∈ values) → act runtime tier action = .ok next →
      Intact runtime values next :=
    fun _ _ _ hintact hvalue hnext ↦ intact_of_act hintact hvalue hnext
  refine run_invariant_along hstep (intact_empty name) ?_
  exact along_of_forall hvalues

/-! ## Reading what was put -/

/-- `json.loads` reads the files of some values back, and their digests tell them apart. -/
structure Faithful (runtime : Runtime) (values : List Json) : Prop where
  loads : ∀ value ∈ values, Wirable value → ∃ loaded, runtime.jsonLoads (contents value) = some loaded ∧
    Wirable loaded ∧ canonicalBytes loaded = canonicalBytes value
  injective : ∀ first ∈ values, ∀ second ∈ values,
    runtime.sha256 (canonicalBytes first) = runtime.sha256 (canonicalBytes second) →
      canonicalBytes first = canonicalBytes second

theorem contentDigest_of_genuine {digest : String} {raw : Bytes} (hfaithful : Faithful runtime values)
    (h : Genuine runtime values digest raw) : contentDigest runtime raw = .ok digest := by
  obtain ⟨value, hmem, hwirable, -, rfl, rfl⟩ := h
  obtain ⟨loaded, hloaded, hbounds, hsame⟩ := hfaithful.loads value hmem hwirable
  rw [contentDigest, hloaded, ← hsame]
  exact digest_eq_ok_iff.mpr ⟨hbounds, rfl⟩

theorem latest_of_intact (h : Intact runtime values tier) : latest tier.kind = .ok tier.kind.objects := by
  rw [latest, count_of_mem _ (Int.natCast_nonneg _) (by exact_mod_cast h.few)]
  rfl

/-- No erasure of an artifact has begun. -/
def Tier.Settled (tier : Tier) : Prop :=
  ∀ row ∈ tier.active, ∀ digest, row.digest = some digest → digest ∉ tier.begun

theorem holds_of_active (hfaithful : Faithful runtime values) (h : Intact runtime values tier)
    (hrow : row ∈ tier.active) :
    ∃ value digest, (row.id, value) ∈ tier.puts ∧ row.digest = some digest ∧ (digest ∈ tier.begun ∨
        (tier.Holds digest (contents value) ∧ Genuine runtime values digest (contents value))) := by
  obtain ⟨value, hmem, hput, hdigest, -⟩ := h.recorded row (mem_events_of_active hrow)
  refine ⟨value, _, hput, hdigest, ?_⟩
  obtain hbegun | ⟨raw, hholds⟩ := h.available row hrow _ hdigest
  · exact Or.inl hbegun
  · refine Or.inr ?_
    have hstored : tier.hot.lookup (runtime.sha256 (canonicalBytes value)) = some raw ∨
        tier.cold.lookup (runtime.sha256 (canonicalBytes value)) = some raw := by
      unfold Tier.Holds at hholds
      split_ifs at hholds
      · exact Or.inr hholds.2
      · exact Or.inl hholds
    have hgenuine := h.genuine _ raw hstored
    obtain ⟨other, hother, -, -, rfl, heq⟩ := hgenuine
    have hsame := hfaithful.injective value hmem other hother heq
    have hcontents : contents value = contents other := by rw [contents, contents, hsame]
    rw [hcontents]
    exact ⟨hholds, h.genuine _ _ hstored⟩

theorem attempt_restores (hfaithful : Faithful runtime values) (h : Intact runtime values tier)
    (hcold : tier.state.cold = true) (hsettled : tier.Settled) :
    ∃ final, attempt (apply runtime) tier ((wanted tier).map .restore) = (final, none) ∧ final.cold = tier.cold := by
  have hstep : ∀ state : Tier, ∀ effect ∈ (wanted tier).map Effect.restore, state.cold = tier.cold →
      ∃ next, apply runtime state effect = .ok next ∧ next.cold = tier.cold := by
    intro state effect heffect hguard
    obtain ⟨digest, hdigest, rfl⟩ := List.mem_map.mp heffect
    obtain ⟨-, hactive⟩ := List.mem_filter.mp hdigest
    obtain ⟨row, hrow, hsome⟩ := List.mem_filterMap.mp (of_decide_eq_true hactive)
    obtain ⟨value, found, -, hfound, hbegun | ⟨hholds, hgenuine⟩⟩ := holds_of_active hfaithful h hrow
    · exact absurd hbegun (hsettled row hrow found hfound)
    · obtain rfl := Option.some.inj (hsome.symm.trans hfound)
      unfold Tier.Holds at hholds
      rw [if_pos hcold] at hholds
      refine ⟨{ state with hot := assign digest (contents value) state.hot }, ?_, hguard⟩
      rw [apply, hguard, hholds.2]
      dsimp only
      simp only [contentDigest_of_genuine hfaithful hgenuine, Py.bind_ok, decide_true, Py.require_true]
      rfl
  exact attempt_eq_none rfl hstep

theorem attempt_cleanup_all (runtime : Runtime) (tier : Tier) (digests : List String) :
    ∃ final, attempt (apply runtime) tier (digests.map .cleanup ++ [.mark .hot]) = (final, none) := by
  obtain ⟨cold, hcold⟩ := attempt_cleanups runtime tier digests
  rw [attempt_append_of_none hcold]
  exact ⟨_, rfl⟩

theorem exists_warm (hfaithful : Faithful runtime values) (h : Intact runtime values tier)
    (hresident : environment.resident = true)
    (hadmits : environment.admits (activeSources tier.kind.objects) = true) (hsettled : tier.Settled) :
    ∃ next, Tiering.warm runtime environment tier = (.ok (), next) := by
  have hcarry : ∀ plan, warmEffects environment tier = .ok plan →
      (∃ final, attempt (apply runtime) tier plan = (final, none)) →
      ∃ next, Tiering.warm runtime environment tier = (.ok (), next) := by
    rintro plan hplan ⟨final, hfinal⟩
    refine ⟨final, ?_⟩
    unfold Tiering.warm carryOut
    rw [hplan]
    dsimp only
    rw [hfinal]
  by_cases hcold : tier.state.cold = true
  · have hplan : ∃ plan, warmEffects environment tier = .ok plan := by
      unfold warmEffects
      rw [hresident, Py.require_true, Py.bind_ok, if_pos hcold, latest_of_intact h, Py.bind_ok, hadmits,
        Py.require_true, Py.bind_ok]
      exact ⟨_, rfl⟩
    obtain ⟨plan, hplan⟩ := hplan
    refine hcarry plan hplan ?_
    obtain ⟨middle, hmiddle, -⟩ := attempt_restores hfaithful h hcold hsettled
    rw [warmEffects_of_cold hcold hplan, attempt_append_of_none hmiddle]
    exact attempt_cleanup_all runtime _ _
  · by_cases hpending : tier.state.cleanupPending = true
    · refine hcarry (tier.state.payloads.map .cleanup ++ [.mark .hot]) ?_ (attempt_cleanup_all runtime tier _)
      unfold warmEffects
      rw [hresident, Py.require_true, Py.bind_ok, if_neg hcold, if_pos hpending]
    · refine hcarry [] ?_ ⟨tier, rfl⟩
      unfold warmEffects
      rw [hresident, Py.require_true, Py.bind_ok, if_neg hcold, if_neg hpending]

theorem read_of_active (hfaithful : Faithful runtime values) (h : Intact runtime values tier)
    (hwarm : tier.state.cold = false) (hsettled : tier.Settled) (hrow : row ∈ tier.active)
    (hreadable : environment.readable row = true) :
    ∃ value, (row.id, value) ∈ tier.puts ∧ read runtime environment tier row.id = .ok (contents value) := by
  obtain ⟨value, digest, hput, hdigest, hbegun | ⟨hholds, hgenuine⟩⟩ := holds_of_active hfaithful h hrow
  · exact absurd hbegun (hsettled row hrow digest hdigest)
  · obtain ⟨hobject, hstatus⟩ := mem_active.mp hrow
    have hfind : tier.kind.objects.find? (·.id = row.id) = some row := by
      cases hfound : tier.kind.objects.find? (·.id = row.id) with
      | none => exact absurd (decide_eq_true rfl) (List.find?_eq_none.mp hfound row hobject)
      | some other =>
        have hid : other.id = row.id := by simpa using List.find?_some hfound
        have hmem := List.mem_of_find?_eq_some hfound
        rw [List.inj_on_of_nodup_map (nodup_objects tier.kind) hmem hobject hid]
    have hsize : (contents value).length ≤ maxBlob + 1 := by
      obtain ⟨other, -, -, hlength, heq, -⟩ := hgenuine
      rw [heq, contents, List.length_append]
      exact Nat.succ_le_succ hlength
    unfold Tier.Holds at hholds
    rw [hwarm] at hholds
    simp only [Bool.false_eq_true, if_false] at hholds
    refine ⟨value, hput, ?_⟩
    unfold read
    rw [latest_of_intact h, Py.bind_ok, hfind]
    dsimp only
    rw [hstatus, hreadable, hdigest]
    dsimp only
    rw [hholds]
    dsimp only
    rw [contentDigest_of_genuine hfaithful hgenuine]
    simp [hsize]

namespace Sample

def digest : String := String.ofList (List.replicate 64 'a')

def interpreter : Runtime where
  sha256 _ := digest
  hmacSha256 _ _ := ""
  ed25519PublicBytes := id
  ed25519Sign _ _ := ""
  ed25519Verify _ _ _ := true
  jsonLoads _ := some .null
  retainedSize _ := 0

def permissive : Environment where
  operator := true
  resident := true
  idle := true
  mutable _ := true
  admits _ := true
  writable _ _ _ := true
  readable _ := true
  erasable _ := true

def request : Request := ⟨"note", .null, ["team"], ["memory"]⟩

def filled : Tier where
  name := "tier"
  events := [request.row digest]
  hot := [(digest, contents .null)]
  cold := []
  state := .hot
  puts := [("note", .null)]
  begun := []
  pending := []

def hibernated : Tier :=
  { filled with hot := [], cold := [(digest, contents .null)], state := ⟨true, [digest], false⟩ }

/-- The namespace when the erasure of the artifact stops after the cold blob. -/
def halved : Tier := { hibernated with cold := [], begun := [digest] }

theorem wire_null : wire .null = .ok (canonicalBytes .null) :=
  (wirable_of_fits rfl).wire_eq

theorem contentDigest_eq (raw : Bytes) : contentDigest interpreter raw = .ok digest := by
  rw [contentDigest]
  dsimp only [interpreter]
  rw [FrontierProtocol.digest, wire_null]
  rfl

theorem act_put : act interpreter (Tier.empty "tier") (.put permissive request 2) = .ok filled := by
  have hplan : putEffects interpreter permissive (Tier.empty "tier") request =
      .ok [.write digest (contents .null), .record (request.row digest) .null] := by
    unfold putEffects
    rw [show request.value = .null from rfl, wire_null]
    rfl
  have hwarm : Tiering.warm interpreter permissive (Tier.empty "tier") = (.ok (), Tier.empty "tier") := rfl
  rw [act, hwarm]
  dsimp only
  rw [hplan]
  rfl

theorem act_hibernate : act interpreter filled (.hibernate permissive 3) = .ok hibernated := by
  have hplan : hibernateEffects permissive filled =
      .ok [.copy digest, .mark ⟨true, [digest], false⟩, .unlink digest] := rfl
  have hcopy : apply interpreter filled (.copy digest) =
      .ok { filled with cold := [(digest, contents .null)] } := by
    rw [apply, show filled.hot.lookup digest = some (contents .null) from rfl]
    dsimp only
    rw [contentDigest_eq]
    rfl
  rw [act, stop, hplan, Py.bind_ok]
  dsimp only [List.take]
  rw [attempt_cons_of_ok hcopy]
  rfl

theorem act_erase : act interpreter hibernated (.erase permissive ["memory"] 1) = .ok halved := rfl

end Sample

end UniMem.Tiering
