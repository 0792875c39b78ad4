import UniMem.Library.Transitions
import UniMem.NextwaveStore.Closure
import UniMem.Tiering.Tiers

/-!
# What the tiers keep

A blob of an artifact that is not erased is hot, or cold and listed while the namespace is cold. Every effect of
every operation keeps this, wherever the operation stops.
-/

namespace UniMem.Tiering

open Library FrontierProtocol NextwaveStore

/-- Whether a digest names a file. -/
def Tier.Stores (tier : Tier) (digest : String) : Prop :=
  tier.hot.lookup digest ≠ none ∨ tier.cold.lookup digest ≠ none

/-- The blob that a digest is read as, once the namespace is warm. -/
def Tier.Holds (tier : Tier) (digest : String) (raw : Bytes) : Prop :=
  if tier.state.cold then digest ∈ tier.state.payloads ∧ tier.cold.lookup digest = some raw
  else tier.hot.lookup digest = some raw

/-- The artifacts of a namespace that are not erased. -/
def Tier.active (tier : Tier) : List NextwaveStore.Event := activeRows tier.kind.objects

/-- A digest whose artifacts are all there to be read. -/
def Tier.Available (tier : Tier) (digest : String) : Prop :=
  digest ∈ tier.begun ∨ ∃ raw, tier.Holds digest raw

/-- The file of one of some values, under its digest. -/
def Genuine (runtime : Runtime) (values : List Json) (digest : String) (raw : Bytes) : Prop :=
  ∃ value ∈ values, Wirable value ∧ (canonicalBytes value).length ≤ maxBlob ∧ raw = contents value ∧
    digest = runtime.sha256 (canonicalBytes value)

/-- The row of one of some values. -/
def Recorded (runtime : Runtime) (values : List Json) (puts : List (String × Json)) (row : NextwaveStore.Event) :
    Prop :=
  ∃ value ∈ values, (row.id, value) ∈ puts ∧ row.digest = some (runtime.sha256 (canonicalBytes value)) ∧
    runtime.sha256 (canonicalBytes value) ≠ ""

/-- What holds in every state of a namespace. -/
structure Intact (runtime : Runtime) (values : List Json) (tier : Tier) : Prop where
  genuine : ∀ digest raw, tier.hot.lookup digest = some raw ∨ tier.cold.lookup digest = some raw →
    Genuine runtime values digest raw
  recorded : ∀ row ∈ tier.events, Recorded runtime values tier.puts row
  distinct : (tier.puts.map Prod.fst).Nodup
  known : ∀ entry ∈ tier.puts, entry.1 ∈ tier.kind.objects.map NextwaveStore.Event.id
  few : tier.kind.objects.length ≤ maxObjects
  available : ∀ row ∈ tier.active, ∀ digest, row.digest = some digest → tier.Available digest
  gone : ∀ digest, tier.Stores digest → (∃ row ∈ tier.events, row.digest = some digest) →
    digest ∈ tier.pending ∨ ∃ row ∈ tier.active, row.digest = some digest

variable {runtime : Runtime} {values : List Json} {tier next : Tier} {digest : String}

variable {kind : Kind} {row : NextwaveStore.Event} {other : String} {raw : Bytes} {files : Files}

theorem mem_objects_append {other : NextwaveStore.Event} :
    other ∈ Kind.objects { kind with events := kind.events ++ [row] } ↔
      other = row ∨ (other ∈ kind.objects ∧ other.id ≠ row.id) := by
  rw [mem_objects_iff, mem_objects_iff, lastWith_append]
  by_cases hid : row.id = other.id
  · have hlast : lastWith NextwaveStore.Event.id [row] other.id = some row := by simp [lastWith, hid]
    rw [hlast, Option.some_or, Option.some.injEq]
    constructor
    · exact fun heq ↦ Or.inl heq.symm
    · rintro (heq | ⟨-, hne⟩)
      · exact heq.symm
      · exact absurd hid.symm hne
  · have hlast : lastWith NextwaveStore.Event.id [row] other.id = none := by simp [lastWith, hid]
    rw [hlast, Option.none_or]
    constructor
    · exact fun hother ↦ Or.inr ⟨hother, fun heq ↦ hid heq.symm⟩
    · rintro (rfl | ⟨hother, -⟩)
      · exact absurd rfl hid
      · exact hother

theorem mem_objects_of_events {other : NextwaveStore.Event} (hevents : next.events = tier.events ++ [row]) :
    other ∈ next.kind.objects ↔ other = row ∨ (other ∈ tier.kind.objects ∧ other.id ≠ row.id) := by
  have hobjects : next.kind.objects =
      Kind.objects { tier.kind with events := tier.kind.events ++ [row] } := by
    unfold Kind.objects Tier.kind
    rw [hevents]
  rw [hobjects]
  exact mem_objects_append

theorem mem_active :
    row ∈ tier.active ↔ row ∈ tier.kind.objects ∧ row.status = some .active := by
  rw [Tier.active, activeRows, List.mem_filter, decide_eq_true_eq]

theorem mem_events_of_active (h : row ∈ tier.active) : row ∈ tier.events :=
  (key_of_lastWith (mem_objects_iff.mp (mem_active.mp h).1)).1

theorem length_objects_append :
    (Kind.objects { kind with events := kind.events ++ [row] }).length ≤ kind.objects.length + 1 ∧
      (row.id ∈ kind.objects.map NextwaveStore.Event.id →
        (Kind.objects { kind with events := kind.events ++ [row] }).length ≤ kind.objects.length) := by
  have hnodup := nodup_objects { kind with events := kind.events ++ [row] }
  have hsubset : (Kind.objects { kind with events := kind.events ++ [row] }).map NextwaveStore.Event.id ⊆
      row.id :: kind.objects.map NextwaveStore.Event.id := by
    intro identity hidentity
    obtain ⟨other, hother, rfl⟩ := List.mem_map.mp hidentity
    obtain rfl | ⟨hother, -⟩ := mem_objects_append.mp hother
    · exact List.mem_cons_self
    · exact List.mem_cons_of_mem _ (List.mem_map_of_mem hother)
  constructor
  · have hlength := (hnodup.subperm hsubset).length_le
    simpa using hlength
  · intro hmem
    have hknown : row.id :: kind.objects.map NextwaveStore.Event.id ⊆ kind.objects.map NextwaveStore.Event.id :=
      List.cons_subset.mpr ⟨hmem, List.Subset.refl _⟩
    have hlength := (hnodup.subperm fun _ hidentity ↦ hknown (hsubset hidentity)).length_le
    simpa using hlength

theorem copy_eq_ok (h : apply runtime tier (.copy digest) = .ok next) :
    ∃ raw, tier.hot.lookup digest = some raw ∧ next = { tier with cold := assign digest raw tier.cold } := by
  cases hraw : tier.hot.lookup digest with
  | none =>
    rw [apply, hraw] at h
    cases h
  | some raw =>
    rw [apply, hraw] at h
    obtain ⟨_, h⟩ := Py.of_rest h
    obtain ⟨_, h⟩ := Py.of_rest h
    exact ⟨raw, rfl, (Except.ok.inj h).symm⟩

theorem restore_eq_ok (h : apply runtime tier (.restore digest) = .ok next) :
    ∃ raw, tier.cold.lookup digest = some raw ∧ next = { tier with hot := assign digest raw tier.hot } := by
  cases hraw : tier.cold.lookup digest with
  | none =>
    rw [apply, hraw] at h
    cases h
  | some raw =>
    rw [apply, hraw] at h
    obtain ⟨_, h⟩ := Py.of_rest h
    obtain ⟨_, h⟩ := Py.of_rest h
    exact ⟨raw, rfl, (Except.ok.inj h).symm⟩

theorem Intact.write (h : Intact runtime values tier) (hwarm : tier.state.cold = false)
    (hgenuine : Genuine runtime values digest raw) (hnext : apply runtime tier (.write digest raw) = .ok next) :
    Intact runtime values next := by
  obtain rfl := Except.ok.inj hnext
  refine ⟨?_, h.recorded, h.distinct, h.known, h.few, ?_, ?_⟩
  · intro other found hfound
    dsimp only at hfound
    rw [lookup_assign] at hfound
    by_cases heq : other = digest
    · subst heq
      rw [if_pos rfl] at hfound
      obtain hfound | hfound := hfound
      · obtain rfl := Option.some.inj hfound
        exact hgenuine
      · exact h.genuine other found (Or.inr hfound)
    · rw [if_neg heq] at hfound
      exact h.genuine other found hfound
  · intro row hrow other hother
    obtain hbegun | ⟨found, hholds⟩ := h.available row hrow other hother
    · exact Or.inl hbegun
    · refine Or.inr ?_
      unfold Tier.Holds at hholds ⊢
      rw [hwarm] at hholds
      dsimp only
      rw [hwarm, lookup_assign]
      by_cases heq : other = digest
      · exact ⟨raw, by simp [heq]⟩
      · exact ⟨found, by simpa [heq] using hholds⟩
  · intro other hstores hrow
    by_cases heq : other = digest
    · subst heq
      exact Or.inl List.mem_cons_self
    · have hstores' : tier.Stores other := by
        unfold Tier.Stores at hstores ⊢
        dsimp only at hstores
        rwa [lookup_assign, if_neg heq] at hstores
      obtain hpending | hactive := h.gone other hstores' hrow
      · exact Or.inl (List.mem_cons_of_mem _ hpending)
      · exact Or.inr hactive

theorem Intact.record (h : Intact runtime values tier) {value : Json} (hwarm : tier.state.cold = false)
    (hstatus : row.status = some .active) (hdigest : row.digest = some digest)
    (hhot : tier.hot.lookup digest ≠ none) (hnew : row.id ∉ tier.kind.objects.map NextwaveStore.Event.id)
    (hfew : tier.kind.objects.length + 1 ≤ maxObjects) (hrecorded : Recorded runtime values [(row.id, value)] row)
    (hnext : apply runtime tier (.record row value) = .ok next) : Intact runtime values next := by
  obtain rfl := Except.ok.inj hnext
  have hobjects : ∀ other, other ∈ Tier.active { tier with
      events := tier.events ++ [row]
      puts := tier.puts ++ [(row.id, value)]
      begun := tier.begun.filter fun digest ↦ row.digest ≠ some digest
      pending := tier.pending.filter fun digest ↦ row.digest ≠ some digest } ↔
      other = row ∨ other ∈ tier.active := by
    intro other
    rw [mem_active, mem_active]
    rw [mem_objects_of_events rfl]
    constructor
    · rintro ⟨rfl | ⟨hother, -⟩, hactive⟩
      · exact Or.inl rfl
      · exact Or.inr ⟨hother, hactive⟩
    · rintro (rfl | ⟨hother, hactive⟩)
      · exact ⟨Or.inl rfl, hstatus⟩
      · refine ⟨Or.inr ⟨hother, fun heq ↦ hnew ?_⟩, hactive⟩
        rw [← heq]
        exact List.mem_map_of_mem hother
  have hlower : ∀ {other : NextwaveStore.Event} {puts : List (String × Json)}, puts ⊆ tier.puts ++ [(row.id, value)] →
      Recorded runtime values puts other →
      Recorded runtime values (tier.puts ++ [(row.id, value)]) other := by
    rintro other puts hsubset ⟨found, hfound, hput, hrest⟩
    exact ⟨found, hfound, hsubset hput, hrest⟩
  refine ⟨h.genuine, ?_, ?_, ?_, ?_, ?_, ?_⟩
  · rw [List.forall_mem_append, List.forall_mem_singleton]
    exact ⟨fun other hother ↦ hlower (List.subset_append_left _ _) (h.recorded other hother),
      hlower (List.subset_append_right _ _) hrecorded⟩
  · rw [List.map_append, List.nodup_append]
    refine ⟨h.distinct, List.nodup_singleton _, ?_⟩
    intro identity hidentity other hother
    obtain ⟨entry, hentry, rfl⟩ := List.mem_map.mp hidentity
    rw [List.mem_singleton.mp hother]
    rintro (heq : entry.1 = row.id)
    rw [← heq] at hnew
    exact hnew (h.known entry hentry)
  · intro entry hentry
    rw [List.mem_map]
    obtain hentry | hentry := List.mem_append.mp hentry
    · obtain ⟨other, hother, heq⟩ := List.mem_map.mp (h.known entry hentry)
      refine ⟨other, (mem_objects_of_events rfl).mpr (Or.inr ⟨hother, fun hid ↦ hnew ?_⟩), heq⟩
      rw [← hid]
      exact List.mem_map_of_mem hother
    · rw [List.mem_singleton.mp hentry]
      exact ⟨row, (mem_objects_of_events rfl).mpr (Or.inl rfl), rfl⟩
  · exact length_objects_append.1.trans hfew
  · intro other hother found hfound
    have hhere : ∃ raw, Tier.Holds { tier with
        events := tier.events ++ [row]
        puts := tier.puts ++ [(row.id, value)]
        begun := tier.begun.filter fun digest ↦ row.digest ≠ some digest
        pending := tier.pending.filter fun digest ↦ row.digest ≠ some digest } digest raw := by
      obtain ⟨raw, hraw⟩ := Option.ne_none_iff_exists'.mp hhot
      refine ⟨raw, ?_⟩
      unfold Tier.Holds
      dsimp only
      rw [hwarm]
      simpa using hraw
    by_cases heq : found = digest
    · subst heq
      exact Or.inr hhere
    · obtain rfl | hactive := (hobjects other).mp hother
      · exact absurd (Option.some.inj (hfound.symm.trans hdigest)) heq
      · obtain hbegun | hholds := h.available other hactive found hfound
        · refine Or.inl (List.mem_filter.mpr ⟨hbegun, decide_eq_true ?_⟩)
          rw [hdigest]
          exact fun hsame ↦ heq (Option.some.inj hsame).symm
        · exact Or.inr hholds
  · intro found hstores hrow
    by_cases heq : found = digest
    · subst heq
      exact Or.inr ⟨row, (hobjects row).mpr (Or.inl rfl), hdigest⟩
    · obtain ⟨other, hother, hfound⟩ := hrow
      have hold : other ∈ tier.events := by
        obtain hold | hlast := List.mem_append.mp hother
        · exact hold
        · rw [List.mem_singleton.mp hlast, hdigest] at hfound
          exact absurd (Option.some.inj hfound).symm heq
      obtain hpending | ⟨active, hactive, hsame⟩ := h.gone found hstores ⟨other, hold, hfound⟩
      · refine Or.inl (List.mem_filter.mpr ⟨hpending, decide_eq_true ?_⟩)
        rw [hdigest]
        exact fun hsame ↦ heq (Option.some.inj hsame).symm
      · exact Or.inr ⟨active, (hobjects active).mpr (Or.inr hactive), hsame⟩

theorem Intact.move (h : Intact runtime values tier) (hevents : next.events = tier.events)
    (hputs : next.puts = tier.puts)
    (hfiles : ∀ digest raw, next.hot.lookup digest = some raw ∨ next.cold.lookup digest = some raw →
      tier.hot.lookup digest = some raw ∨ tier.cold.lookup digest = some raw)
    (hpending : ∀ digest ∈ tier.pending, next.Stores digest → digest ∈ next.pending)
    (havailable : ∀ row ∈ tier.active, ∀ digest, row.digest = some digest → tier.Available digest →
      next.Available digest) : Intact runtime values next := by
  have hobjects : next.kind.objects = tier.kind.objects := by
    unfold Kind.objects Tier.kind
    rw [hevents]
  have hactive : next.active = tier.active := by rw [Tier.active, Tier.active, hobjects]
  have hstored : ∀ digest, next.Stores digest → tier.Stores digest := by
    intro digest hstores
    have hsome : ∃ raw, next.hot.lookup digest = some raw ∨ next.cold.lookup digest = some raw := by
      obtain hhot | hcold := hstores
      · obtain ⟨raw, hraw⟩ := Option.ne_none_iff_exists'.mp hhot
        exact ⟨raw, Or.inl hraw⟩
      · obtain ⟨raw, hraw⟩ := Option.ne_none_iff_exists'.mp hcold
        exact ⟨raw, Or.inr hraw⟩
    obtain ⟨raw, hraw⟩ := hsome
    obtain hhot | hcold := hfiles digest raw hraw
    · exact Or.inl (by simp [hhot])
    · exact Or.inr (by simp [hcold])
  refine ⟨fun digest raw hraw ↦ h.genuine digest raw (hfiles digest raw hraw), ?_, ?_, ?_, ?_, ?_, ?_⟩
  · rw [hevents, hputs]
    exact h.recorded
  · rw [hputs]
    exact h.distinct
  · rw [hputs, hobjects]
    exact h.known
  · rw [hobjects]
    exact h.few
  · rw [hactive]
    exact fun row hrow digest hdigest ↦
      havailable row hrow digest hdigest (h.available row hrow digest hdigest)
  · rw [hevents, hactive]
    intro digest hstores hrow
    obtain hpend | hother := h.gone digest (hstored digest hstores) hrow
    · exact Or.inl (hpending digest hpend hstores)
    · exact Or.inr hother

theorem lookup_of_discard (h : (discard digest files).lookup other = some raw) : files.lookup other = some raw := by
  rw [lookup_discard] at h
  split_ifs at h
  exact h

theorem lookup_of_assign {copies : Files} {found : Bytes} (hraw : files.lookup digest = some raw)
    (h : (assign digest raw copies).lookup other = some found) :
    files.lookup other = some found ∨ copies.lookup other = some found := by
  rw [lookup_assign] at h
  split_ifs at h with heq
  · exact Or.inl (heq ▸ hraw.trans h)
  · exact Or.inr h

theorem Tier.Available.congr (h : tier.Available digest) (hbegun : next.begun = tier.begun)
    (hholds : ∀ raw, next.Holds digest raw ↔ tier.Holds digest raw) : next.Available digest := by
  simpa only [Tier.Available, hbegun, hholds] using h

section

variable (h : Intact runtime values tier)
include h

theorem Intact.copy (hwarm : tier.state.cold = false)
    (hnext : apply runtime tier (.copy digest) = .ok next) : Intact runtime values next := by
  obtain ⟨raw, hraw, rfl⟩ := copy_eq_ok hnext
  refine h.move rfl rfl ?_ (fun _ hpending _ ↦ hpending) fun _ _ _ _ havailable ↦
    havailable.congr rfl fun raw ↦ by simp [Tier.Holds, hwarm]
  exact fun other found hfound ↦ hfound.elim Or.inl (lookup_of_assign hraw)

theorem Intact.mark {state : TierState}
    (hready : ∀ row ∈ tier.active, ∀ digest, row.digest = some digest → tier.Available digest →
      Tier.Available { tier with state } digest)
    (hnext : apply runtime tier (.mark state) = .ok next) : Intact runtime values next := by
  obtain rfl := Except.ok.inj hnext
  exact h.move rfl rfl (fun _ _ hfound ↦ hfound) (fun _ hpending _ ↦ hpending) hready

theorem Intact.unlink (hcold : tier.state.cold = true)
    (hnext : apply runtime tier (.unlink digest) = .ok next) : Intact runtime values next := by
  obtain rfl := Except.ok.inj hnext
  exact h.move rfl rfl (fun _ _ hfound ↦ hfound.imp_left lookup_of_discard) (fun _ hpending _ ↦ hpending)
    fun _ _ _ _ havailable ↦ havailable.congr rfl fun raw ↦ by simp [Tier.Holds, hcold]

theorem Intact.restore (hcold : tier.state.cold = true)
    (hnext : apply runtime tier (.restore digest) = .ok next) : Intact runtime values next := by
  obtain ⟨raw, hraw, rfl⟩ := restore_eq_ok hnext
  refine h.move rfl rfl ?_ (fun _ hpending _ ↦ hpending) fun _ _ _ _ havailable ↦
    havailable.congr rfl fun raw ↦ by simp [Tier.Holds, hcold]
  exact fun other found hfound ↦ hfound.elim (fun hhot ↦ (lookup_of_assign hraw hhot).symm) Or.inr

theorem Intact.cleanup (hwarm : tier.state.cold = false)
    (hnext : apply runtime tier (.cleanup digest) = .ok next) : Intact runtime values next := by
  obtain rfl := Except.ok.inj hnext
  exact h.move rfl rfl (fun _ _ hfound ↦ hfound.imp_right lookup_of_discard) (fun _ hpending _ ↦ hpending)
    fun _ _ _ _ havailable ↦ havailable.congr rfl fun raw ↦ by simp [Tier.Holds, hwarm]

omit h in
theorem Tier.Available.begin (h : tier.Available other) (hbegun : next.begun = digest :: tier.begun)
    (hholds : other ≠ digest → ∀ raw, tier.Holds other raw → next.Holds other raw) : next.Available other := by
  unfold Tier.Available
  rw [hbegun]
  by_cases heq : other = digest
  · exact Or.inl (heq ▸ List.mem_cons_self)
  · exact h.imp (List.mem_cons_of_mem _) fun ⟨raw, hraw⟩ ↦ ⟨raw, hholds heq raw hraw⟩

theorem Intact.purge
    (hnext : apply runtime tier (.purge digest) = .ok next) : Intact runtime values next := by
  obtain rfl := Except.ok.inj hnext
  refine h.move rfl rfl (fun _ _ hfound ↦ hfound.imp_right lookup_of_discard) (fun _ hpending _ ↦ hpending) ?_
  intro row _ other _ havailable
  refine havailable.begin rfl fun hne raw hraw ↦ ?_
  unfold Tier.Holds at hraw ⊢
  dsimp only
  rwa [lookup_discard, if_neg hne]

theorem Intact.erase (hgone : tier.cold.lookup digest = none)
    (hnext : apply runtime tier (.erase digest) = .ok next) : Intact runtime values next := by
  obtain rfl := Except.ok.inj hnext
  refine h.move rfl rfl (fun _ _ hfound ↦ hfound.imp_left lookup_of_discard) ?_ ?_
  · intro other hpending hstores
    refine List.mem_filter.mpr ⟨hpending, decide_eq_true ?_⟩
    rintro rfl
    unfold Tier.Stores at hstores
    dsimp only at hstores
    rw [lookup_discard, if_pos rfl, hgone] at hstores
    simp at hstores
  · intro row _ other _ havailable
    refine havailable.begin rfl fun hne raw hraw ↦ ?_
    unfold Tier.Holds at hraw ⊢
    dsimp only
    rwa [lookup_discard, if_neg hne]

theorem Intact.bury (hrow : row ∈ tier.kind.objects)
    (hdigest : row.digest = some digest)
    (hfree : ¬tier.Stores digest ∨ ∃ other ∈ tier.active, other.id ≠ row.id ∧ other.digest = some digest)
    (hnext : apply runtime tier (.bury row) = .ok next) : Intact runtime values next := by
  obtain rfl := Except.ok.inj hnext
  have hactive : ∀ other, other ∈ Tier.active { tier with events := tier.events ++ [row.tombstone] } ↔
      other ∈ tier.active ∧ other.id ≠ row.id := by
    intro other
    rw [mem_active, mem_active]
    rw [mem_objects_of_events rfl]
    constructor
    · rintro ⟨rfl | ⟨hother, hne⟩, hstatus⟩
      · cases hstatus
      · exact ⟨⟨hother, hstatus⟩, hne⟩
    · rintro ⟨⟨hother, hstatus⟩, hne⟩
      exact ⟨Or.inr ⟨hother, hne⟩, hstatus⟩
  have hevent : row ∈ tier.events := (key_of_lastWith (mem_objects_iff.mp hrow)).1
  refine ⟨h.genuine, ?_, h.distinct, ?_, ?_, ?_, ?_⟩
  · rw [List.forall_mem_append, List.forall_mem_singleton]
    exact ⟨h.recorded, h.recorded row hevent⟩
  · intro entry hentry
    rw [List.mem_map]
    obtain ⟨other, hother, heq⟩ := List.mem_map.mp (h.known entry hentry)
    by_cases hid : other.id = row.id
    · exact ⟨row.tombstone, (mem_objects_of_events rfl).mpr (Or.inl rfl), hid.symm.trans heq⟩
    · have hapart : other.id ≠ row.tombstone.id := hid
      exact ⟨other, (mem_objects_of_events rfl).mpr (Or.inr ⟨hother, hapart⟩), heq⟩
  · have hmem : row.id ∈ tier.kind.objects.map NextwaveStore.Event.id := List.mem_map_of_mem hrow
    have hlength : (Kind.objects { tier.kind with events := tier.kind.events ++ [row.tombstone] }).length ≤
        tier.kind.objects.length := length_objects_append.2 hmem
    exact hlength.trans h.few
  · exact fun other hother ↦ h.available other ((hactive other).mp hother).1
  · intro found hstores hfound
    have hold : ∃ other ∈ tier.events, other.digest = some found := by
      obtain ⟨other, hother, heq⟩ := hfound
      obtain hother | hlast := List.mem_append.mp hother
      · exact ⟨other, hother, heq⟩
      · rw [List.mem_singleton.mp hlast] at heq
        exact ⟨row, hevent, heq⟩
    by_cases heq : found = digest
    · subst heq
      obtain hnot | ⟨other, hother, hne, hsame⟩ := hfree
      · exact absurd hstores hnot
      · exact Or.inr ⟨other, (hactive other).mpr ⟨hother, hne⟩, hsame⟩
    · obtain hpending | ⟨other, hother, hsame⟩ := h.gone found hstores hold
      · exact Or.inl hpending
      · refine Or.inr ⟨other, (hactive other).mpr ⟨hother, fun hid ↦ heq ?_⟩, hsame⟩
        obtain rfl := List.inj_on_of_nodup_map (nodup_objects tier.kind) (mem_active.mp hother).1 hrow hid
        exact Option.some.inj (hsame.symm.trans hdigest)

end

end UniMem.Tiering
