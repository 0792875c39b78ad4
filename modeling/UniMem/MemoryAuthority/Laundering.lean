import UniMem.MemoryAuthority.Derivation

/-!
# Derivations keep trust and owners

Every receipt has at most the rank of its writer and of the receipts of its sources, and a chain of derivations
keeps the owners of every dimension.
-/

namespace UniMem.MemoryAuthority

open Library Origin FrontierProtocol

variable {runtime : Runtime}

variable {authority result : Authority} {caller : Caller} {kind : String} {row first last : Row}
  {prior : List (Key × Row)} {store next : Store}

theorem rank_authorityOf {rank : ℕ} (h : authorityOf rank = .ok authority) :
    authority.rank = rank := by
  unfold authorityOf at h
  cases hfind : ([.external, .agent, .user, .operator] : List Authority).find? (fun name ↦ name.rank = rank) with
  | none =>
    rw [hfind] at h
    cases h
  | some found =>
    rw [hfind] at h
    obtain rfl := Except.ok.inj h
    simpa using List.find?_some hfind

theorem rank_least (first second : Authority) : (first.least second).rank = min first.rank second.rank := by
  unfold Authority.least
  split_ifs with h <;> omega

theorem rank_boundWriter {guards : Guards} {bound : String × Authority}
    (h : boundWriter guards caller = .ok bound) : bound.2.rank = caller.rank := by
  unfold boundWriter at h
  unfold Caller.rank
  cases hdelegation : caller.delegation with
  | none =>
    rw [hdelegation] at h
    rw [← Except.ok.inj h]
    rfl
  | some delegation =>
    rw [hdelegation] at h
    obtain ⟨_, h⟩ := Py.of_rest h
    obtain ⟨authority, hauthority, h⟩ := Py.of_bind h
    rw [← Except.ok.inj h]
    dsimp only [Option.elim]
    rw [rank_authorityOf hauthority, min_assoc]

theorem rank_effectiveWriter {call : Call} {effective : String × Authority}
    (h : effectiveWriter call kind = .ok effective) : effective.2.rank = call.caller.rank := by
  obtain ⟨bound, hbound, h⟩ := Py.of_bind h
  have hrank := rank_boundWriter hbound
  cases hdelegation : call.caller.delegation with
  | none =>
    rw [hdelegation] at h
    rw [← Except.ok.inj h]
    exact hrank
  | some delegation =>
    rw [hdelegation] at h
    dsimp only at h
    split_ifs at h with hkind
    · rw [← Except.ok.inj h]
      exact hrank
    · obtain ⟨_, h⟩ := Py.of_rest h
      obtain ⟨_, h⟩ := Py.of_rest h
      obtain ⟨_, h⟩ := Py.of_rest h
      obtain ⟨_, h⟩ := Py.of_rest h
      obtain ⟨_, h⟩ := Py.of_rest h
      obtain ⟨authority, hauthority, h⟩ := Py.of_bind h
      rw [← Except.ok.inj h, Caller.rank, hdelegation]
      have hname := rank_authorityOf hauthority
      dsimp only [Option.elim]
      omega

/-- The rank of a row. -/
def rankOf (row : Row) : ℕ :=
  match readAuthority row with
  | .ok authority => authority.rank
  | .error _ => 0

theorem rankOf_eq (h : readAuthority row = .ok authority) :
    rankOf row = authority.rank := by
  unfold rankOf
  rw [h]

theorem rank_inheritedAuthority {inherited : List (Option Row)}
    (h : inheritedAuthority authority inherited = .ok result) :
    result.rank ≤ authority.rank ∧ ∀ source ∈ inherited, result.rank ≤ source.elim 0 rankOf := by
  unfold inheritedAuthority at h
  cases inherited with
  | nil =>
    obtain rfl := Except.ok.inj h
    exact ⟨le_rfl, by simp⟩
  | cons first rest =>
    dsimp only at h
    obtain ⟨ranks, hranks, h⟩ := Py.of_bind h
    have hresult := rank_authorityOf h
    rw [hresult]
    refine ⟨(foldl_min_le ranks authority.rank).1, ?_⟩
    intro source hsource
    obtain ⟨rank, hrank, hread⟩ :=
      exists_of_mem_forall₂ (Py.collect_always_eq_ok_iff.mp hranks) hsource
    apply ((foldl_min_le ranks authority.rank).2 rank hrank).trans
    cases source with
    | none => exact (Except.ok.inj hread).symm.le
    | some row =>
      obtain ⟨found, hfound, heq⟩ := Py.of_bind hread
      rw [Option.elim, rankOf_eq hfound]
      exact (Except.ok.inj heq).symm.le

/-- Every dimension of a source has the same values in a derived record. -/
def Preserves (source derived : Row) : Prop :=
  ∃ before after, ownersOf source = .ok before ∧ ownersOf derived = .ok after ∧
    ∀ dimension values, before.lookup dimension = some values →
      ∃ kept, after.lookup dimension = some kept ∧ ∀ value, value ∈ kept ↔ value ∈ values

theorem Preserves.trans {middle : Row} (h : Preserves first middle) (h' : Preserves middle last) :
    Preserves first last := by
  obtain ⟨before, between, hfirst, hmiddle, hkeep⟩ := h
  obtain ⟨other, after, hother, hlast, hkeep'⟩ := h'
  obtain rfl := Except.ok.inj (hmiddle.symm.trans hother)
  refine ⟨before, after, hfirst, hlast, ?_⟩
  intro dimension values hvalues
  obtain ⟨kept, hkept, hsame⟩ := hkeep dimension values hvalues
  obtain ⟨final, hfinal, hsame'⟩ := hkeep' dimension kept hkept
  exact ⟨final, hfinal, fun value ↦ (hsame' value).trans (hsame value)⟩

theorem preserves_of_checkSourceScopes {derived : Row} {sources : List Row}
    (h : checkSourceScopes derived sources = .ok ()) : ∀ source ∈ sources, Preserves source derived := by
  obtain ⟨wanted, hwanted, h⟩ := Py.of_bind h
  intro source hsource
  obtain ⟨dimensions, hdimensions, hkeeps⟩ := Py.of_bind (Py.forM_eq_ok_iff.mp h source hsource)
  rw [Py.require_eq_ok_iff, keepsOwners, List.all_eq_true] at hkeeps
  refine ⟨dimensions, wanted, hdimensions, hwanted, ?_⟩
  intro dimension values hvalues
  obtain ⟨kept, hkept, hsame⟩ := (Option.any_eq_true _ _).mp (hkeeps _ (mem_of_lookup hvalues))
  refine ⟨kept, hkept, ?_⟩
  rw [Bool.and_eq_true, List.all_eq_true, List.all_eq_true] at hsame
  intro value
  constructor
  · exact fun hmem ↦ of_decide_eq_true (hsame.1 value hmem)
  · exact fun hmem ↦ of_decide_eq_true (hsame.2 value hmem)

/-- The identity of the record of an entry. -/
def Entry.key (entry : Entry) : Option Key := (hashKey (idOf entry.record)).toOption

/-- The rank of a receipt. -/
def Entry.rank (entry : Entry) : ℕ := rankOf entry.row

/-- The last receipt of a record. -/
def lastReceipt (entries : List Entry) (key : Key) : Option Entry := lastWith Entry.key entries (some key)

/-- A row that verifies and reads as its call wrote it. -/
structure Entry.Faithful (runtime : Runtime) (signing : Signing) (entry : Entry) : Prop where
  verified : verify runtime signing entry.row = .ok true
  record : recordOf entry.row = entry.record
  key : ∃ key, hashKey (idOf entry.record) = .ok key

theorem Entry.Faithful.of_extends {later earlier : Signing} (h : later.Extends earlier) {entry : Entry}
    (hentry : entry.Faithful runtime earlier) : entry.Faithful runtime later :=
  ⟨verify_of_extends h hentry.verified, hentry.record, hentry.key⟩

theorem latest_readPrior {signing : Signing} {entries : List Entry} {wanted : List Key}
    (hfaithful : ∀ entry ∈ entries, entry.Faithful runtime signing)
    (h : readPrior runtime signing wanted (entries.map Entry.row) = .ok prior) {key : Key} (hkey : key ∈ wanted) :
    latest prior key = (lastReceipt entries key).map Entry.row := by
  have hfilter : prior.filter (fun entry ↦ entry.1 = key) =
      (entries.filter fun entry ↦ entry.key = some key).map fun entry ↦ (key, entry.row) := by
    unfold readPrior at h
    rw [Py.collect_map] at h
    induction entries generalizing prior with
    | nil =>
      obtain rfl := Except.ok.inj h
      rfl
    | cons entry entries ih =>
      rw [List.forall_mem_cons] at hfaithful
      obtain ⟨found, rest, hfound, hrest, rfl⟩ := Py.collect_cons_eq_ok_iff.mp h
      obtain ⟨id, hid⟩ := hfaithful.1.key
      have hentry : entry.key = some id := by
        rw [Entry.key, hid]
        rfl
      rw [hfaithful.1.record, hid, hfaithful.1.verified, Py.bind_ok] at hfound
      rw [List.filter_append, ih hfaithful.2 hrest, List.filter_cons, hentry]
      by_cases hsame : id = key
      · subst hsame
        rw [if_pos hkey] at hfound
        obtain rfl := Except.ok.inj hfound
        simp
      · have hskip : found.toList.filter (fun entry ↦ entry.1 = key) = [] := by
          by_cases hwanted : id ∈ wanted
          · rw [if_pos hwanted] at hfound
            obtain rfl := Except.ok.inj hfound
            simp [hsame]
          · rw [if_neg hwanted] at hfound
            obtain rfl := Except.ok.inj hfound
            rfl
        rw [hskip]
        simp [hsame]
  unfold latest lastReceipt lastWith
  rw [hfilter, List.getLast?_map, Option.map_map]
  rfl

theorem bindWith_fields {signing : Signing} {writer : Writer} {record : Row}
    (h : bindWith runtime signing writer record = .ok row) :
    recordOf row = record ∧ readAuthority row = .ok writer.authority := by
  obtain ⟨found, -, h⟩ := Py.of_bind h
  cases found with
  | none => cases h
  | some bytes =>
    obtain ⟨-, rfl⟩ := bind_eq_ok_iff.mp h
    refine ⟨rfl, ?_⟩
    have hauthority : ∀ tail, List.lookup "authority" (body runtime (.obj record)
        ⟨writer.principal, "local-store", writer.authority.name, bytes, signing.algorithm⟩ ++ tail) =
          some (.str writer.authority.name) := fun tail ↦ rfl
    unfold readAuthority
    rw [hauthority]
    cases writer.authority <;> decide +kernel

theorem pinned_of_signingKey {signing : Signing} {bytes : Bytes}
    (h : signingKey runtime signing = .ok bytes) (halgorithm : signing.algorithm = .ed25519) :
    signing.Pinned runtime := by
  obtain ⟨found, hkey, h⟩ := Py.of_bind h
  cases found with
  | none => cases h
  | some stored =>
    obtain ⟨_, hpinned, -⟩ := Py.of_bind h
    rw [halgorithm] at hkey
    have hstored := key_ed25519_eq_ok hkey
    intro other hother
    obtain rfl := Option.some.inj (hstored.symm.trans hother)
    simpa [halgorithm] using hpinned

/-- What a receipt keeps of the receipts before it. -/
structure Lawful (before : List Entry) (entry : Entry) : Prop where
  writer : entry.rank ≤ entry.caller.rank
  sources : ∀ source ∈ entry.sources, entry.rank ≤ (lastReceipt before (.text source)).elim 0 Entry.rank
  record : ∀ key, entry.key = some key → ∀ last, lastReceipt before key = some last → entry.rank ≤ last.rank
  owners : recordClass entry.record ≠ .ok "journal" → ∀ source ∈ entry.sources, ∀ first,
    lastReceipt before (.text source) = some first → Preserves first.record entry.record

theorem receiptAuthority_spec {call : Call} {id : Key}
    (h : receiptAuthority call kind authority id prior = .ok result) :
    result.rank ≤ authority.rank ∧
    (∀ source ∈ call.sources, result.rank ≤ (latest prior (.text source)).elim 0 rankOf) ∧
    (∀ row, latest prior id = some row → result.rank ≤ rankOf row) ∧
    (kind ≠ "journal" → ∀ source ∈ call.sources, ∀ row, latest prior (.text source) = some row →
      Preserves (recordOf row) call.record) := by
  obtain ⟨own, hown, h⟩ := Py.of_bind h
  obtain ⟨_, hscopes, h⟩ := Py.of_bind h
  obtain ⟨hle, hsources⟩ := rank_inheritedAuthority h
  have hbefore : own.rank ≤ authority.rank ∧ ∀ row, latest prior id = some row → own.rank ≤ rankOf row := by
    cases hlatest : latest prior id with
    | none =>
      rw [hlatest] at hown
      obtain rfl := Except.ok.inj hown
      exact ⟨le_rfl, by simp⟩
    | some before =>
      rw [hlatest] at hown
      obtain ⟨_, hown⟩ := Py.of_rest hown
      obtain ⟨_, hown⟩ := Py.of_rest hown
      obtain ⟨found, hfound, hown⟩ := Py.of_bind hown
      obtain rfl := Except.ok.inj hown
      rw [rank_least]
      refine ⟨min_le_left _ _, ?_⟩
      intro row hrow
      rw [← Option.some.inj hrow, rankOf_eq hfound]
      exact min_le_right _ _
  refine ⟨hle.trans hbefore.1, ?_, fun row hrow ↦ hle.trans (hbefore.2 row hrow), ?_⟩
  · intro source hsource
    exact hsources _ (List.mem_map.mpr ⟨source, hsource, rfl⟩)
  · intro hkind source hsource row hrow
    rw [checkScopes, if_neg hkind] at hscopes
    apply preserves_of_checkSourceScopes hscopes
    refine List.mem_map.mpr ⟨row, List.mem_filterMap.mpr ⟨some row, ?_, rfl⟩, rfl⟩
    exact List.mem_map.mpr ⟨source, hsource, hrow⟩

theorem bind_spec (hed : runtime.Ed25519Correct) {call : Call}
    (hfaithful : ∀ entry ∈ store.entries, entry.Faithful runtime store.signing)
    (h : bind runtime store call = .ok (next, row)) :
    ∃ entry, next.entries = store.entries ++ [entry] ∧ Lawful store.entries entry ∧
      entry.Faithful runtime next.signing ∧ next.signing.Extends store.signing := by
  obtain ⟨kind, hkind, h⟩ := Py.of_bind h
  obtain ⟨_, h⟩ := Py.of_rest h
  obtain ⟨⟨principal, authority⟩, heffective, h⟩ := Py.of_bind h
  dsimp only at h
  generalize hsigning : (if store.signing.algorithm = .hmacSha256 then
      createKey store.signing ⟨principal, authority, call.entropy, call.length_entropy⟩
    else store.signing) = signing at h
  have hextends : signing.Extends store.signing := by
    rw [← hsigning]
    split_ifs
    · exact extends_createKey _ _
    · exact Signing.Extends.refl _
  obtain ⟨bytes, hsigningKey, h⟩ := Py.of_bind h
  obtain ⟨id, hid, h⟩ := Py.of_bind h
  obtain ⟨prior, hprior, h⟩ := Py.of_bind h
  obtain ⟨result, hresult, h⟩ := Py.of_bind h
  obtain ⟨signed, hsigned, h⟩ := Py.of_bind h
  obtain ⟨rfl, -⟩ := Prod.mk.inj (Except.ok.inj h)
  obtain ⟨hrecord, hauthority⟩ := bindWith_fields hsigned
  have hrank := rankOf_eq hauthority
  have hlater : ∀ entry ∈ store.entries, entry.Faithful runtime signing :=
    fun entry hentry ↦ (hfaithful entry hentry).of_extends hextends
  have hlatest : ∀ key ∈ id :: call.sources.map Key.text,
      latest prior key = (lastReceipt store.entries key).map Entry.row :=
    fun key hkey ↦ latest_readPrior hlater hprior hkey
  have hsource : ∀ source ∈ call.sources,
      latest prior (.text source) = (lastReceipt store.entries (.text source)).map Entry.row :=
    fun source hsource ↦ hlatest _ (List.mem_cons_of_mem _ (List.mem_map.mpr ⟨source, hsource, rfl⟩))
  obtain ⟨hwriter, hsources, hbefore, howners⟩ := receiptAuthority_spec hresult
  refine ⟨_, rfl, ⟨?_, ?_, ?_, ?_⟩, ⟨?_, hrecord, id, hid⟩, hextends⟩
  · rw [Entry.rank, hrank, ← rank_effectiveWriter heffective]
    exact hwriter
  · intro source hmem
    have hle := hsources source hmem
    rw [hsource source hmem, Option.elim_map] at hle
    rw [Entry.rank, hrank]
    exact hle
  · intro key hkey last hlast
    have hsame : id = key := by
      dsimp only [Entry.key] at hkey
      rw [hid] at hkey
      exact Option.some.inj hkey
    subst hsame
    have hle := hbefore last.row
    rw [hlatest id List.mem_cons_self, hlast] at hle
    rw [Entry.rank, hrank]
    exact hle rfl
  · intro hclass source hmem first hfirst
    have hpreserves := howners ?_ source hmem first.row
    · rw [hsource source hmem, hfirst, (hlater first (key_of_lastWith hfirst).1).record] at hpreserves
      exact hpreserves rfl
    · rintro rfl
      exact hclass hkind
  · exact verify_bindWith_of_ed25519 hed (pinned_of_signingKey hsigningKey) hsigned

/-- Every receipt verifies and is lawful for those before it. -/
structure Sound (runtime : Runtime) (store : Store) : Prop where
  faithful : ∀ entry ∈ store.entries, entry.Faithful runtime store.signing
  lawful : ∀ before entry after, store.entries = before ++ entry :: after → Lawful before entry

theorem Sound.step (hed : runtime.Ed25519Correct) {call : Call} (h : Sound runtime store)
    (hstep : step runtime store call = .ok next) : Sound runtime next := by
  obtain ⟨⟨bound, row⟩, hbind, heq⟩ := Py.of_bind hstep
  obtain rfl := Except.ok.inj heq
  obtain ⟨entry, hentries, hlawful, hfaithful, hextends⟩ := bind_spec hed h.faithful hbind
  constructor
  · rw [hentries]
    intro other hother
    obtain hold | hnew := List.mem_append.mp hother
    · exact (h.faithful other hold).of_extends hextends
    · rwa [List.mem_singleton.mp hnew]
  · intro before other after hsplit
    rw [hentries] at hsplit
    obtain rfl | ⟨rest, last, rfl⟩ := after.eq_nil_or_concat
    · obtain ⟨rfl, hlast⟩ := List.append_inj' hsplit rfl
      rwa [← List.singleton_inj.mp hlast]
    · rw [List.concat_eq_append, ← List.cons_append, ← List.append_assoc] at hsplit
      exact h.lawful before other rest (List.append_inj' hsplit rfl).1

theorem Sound.rank_le (h : Sound runtime store) {entries after : List Entry}
    (hstore : store.entries = entries ++ after) : ∀ before entry rest, entries = before ++ entry :: rest →
      ∀ earlier ∈ before, earlier.key = entry.key → entry.rank ≤ earlier.rank := by
  -- The last receipt before an entry lies between the entry and every earlier one.
  induction entries using List.reverseRecOn generalizing after with
  | nil => simp
  | append_singleton entries new ih =>
    intro before entry rest hsplit earlier hearlier hkey
    rw [List.append_assoc] at hstore
    obtain rfl | ⟨front, last, rfl⟩ := rest.eq_nil_or_concat
    · obtain ⟨rfl, hnew⟩ := List.append_inj' hsplit rfl
      obtain rfl := List.singleton_inj.mp hnew
      have hmem : new ∈ store.entries := by
        rw [hstore]
        exact List.mem_append_right _ List.mem_cons_self
      obtain ⟨key, hid⟩ := (h.faithful new hmem).key
      have hnewKey : new.key = some key := by
        rw [Entry.key, hid]
        rfl
      have hsome : (lastReceipt entries key).isSome := by
        rw [Option.isSome_iff_ne_none, lastReceipt, lastWith, ne_eq, List.getLast?_eq_none_iff]
        apply List.ne_nil_of_mem
        exact List.mem_filter.mpr ⟨hearlier, by simpa using hkey.trans hnewKey⟩
      obtain ⟨last, hlast⟩ := Option.isSome_iff_exists.mp hsome
      have hle := (h.lawful entries new after hstore).record key hnewKey last hlast
      obtain ⟨front, back, rfl, hback⟩ := exists_append_of_lastWith hlast
      obtain hfront | hlater := List.mem_append.mp hearlier
      · refine hle.trans (ih hstore front last back rfl earlier hfront ?_)
        rw [hkey, hnewKey, (key_of_lastWith hlast).2]
      · obtain rfl | hlater := List.mem_cons.mp hlater
        · exact hle
        · exact absurd (hkey.trans hnewKey) (hback earlier hlater)
    · rw [List.concat_eq_append, ← List.cons_append, ← List.append_assoc] at hsplit
      exact ih hstore before entry front (List.append_inj' hsplit rfl).1 earlier hearlier hkey

/-- A receipt of a record that is in no journal, and the last receipt of a source then. -/
def Derived (entries : List Entry) (first next : Entry) : Prop :=
  ∃ before after, entries = before ++ next :: after ∧ recordClass next.record ≠ .ok "journal" ∧
    ∃ source ∈ next.sources, lastReceipt before (.text source) = some first

/-- In every run receipts verify, ranks fall along derivations, and owners stay. -/
theorem derivation_never_launders (runtime : Runtime) (hed : runtime.Ed25519Correct) (signing : Signing)
    (calls : List Call) :
    let store := run (step runtime) ⟨signing, []⟩ calls
    (∀ entry ∈ store.entries, verify runtime store.signing entry.row = .ok true) ∧
    (∀ before entry after, store.entries = before ++ entry :: after →
      (∀ earlier ∈ before, earlier.key = entry.key → entry.rank ≤ earlier.rank) ∧
      (∀ source ∈ entry.sources, entry.rank ≤ (lastReceipt before (.text source)).elim 0 Entry.rank) ∧
      entry.rank ≤ entry.caller.rank) ∧
    ∀ first last, Relation.TransGen (Derived store.entries) first last → Preserves first.record last.record := by
  intro store
  have hstep : ∀ state call next, Sound runtime state → step runtime state call = .ok next →
      Sound runtime next := fun state call next hstate hnext ↦ hstate.step hed hnext
  have hsound : Sound runtime store := by
    apply run_invariant hstep
    exact ⟨by simp, by simp⟩
  refine ⟨fun entry hentry ↦ (hsound.faithful entry hentry).verified, ?_, ?_⟩
  · intro before entry after hsplit
    have hlawful := hsound.lawful before entry after hsplit
    refine ⟨?_, hlawful.sources, hlawful.writer⟩
    exact hsound.rank_le (List.append_nil _).symm before entry after hsplit
  · intro first last hchain
    have hderived : ∀ source derived, Derived store.entries source derived →
        Preserves source.record derived.record := by
      rintro source derived ⟨before, after, hsplit, hkind, name, hname, hlast⟩
      exact (hsound.lawful before derived after hsplit).owners hkind name hname source hlast
    induction hchain with
    | single hlast => exact hderived _ _ hlast
    | tail _ hlast ih => exact ih.trans (hderived _ _ hlast)

namespace Sample

def plainRuntime : Runtime where
  sha256 bytes := toString bytes.length
  hmacSha256 _ _ := "0"
  ed25519PublicBytes key := key
  ed25519Sign _ _ := "0"
  ed25519Verify _ _ _ := true
  jsonLoads _ := none
  retainedSize _ := 0

def signing : Signing := ⟨.hmacSha256, none, none, none⟩

def guards : Guards := ⟨.ok (), .ok (), .ok (), true, .ok true⟩

def call (record : Row) (sources : List String) : Call :=
  ⟨record, sources, ⟨"local", .operator, none⟩, guards, List.replicate 32 0, length_zeros⟩

def fact (id owner : String) : Row :=
  [("id", .str id), ("statement", .str "s"), ("category", .str "c"), ("scopes", .arr [.str owner])]

def journalCalls : List Call :=
  [call (fact "a" "user:alice") [], call [("id", .str "j"), ("event", .str "read")] ["a"]]

def reboundCalls : List Call :=
  [call (fact "a" "user:alice") [], call (fact "b" "user:alice") ["a"], call (fact "b" "user:bob") [],
    call (fact "c" "user:bob") ["b"]]

def entries (calls : List Call) : List Entry := (run (step plainRuntime) ⟨signing, []⟩ calls).entries

def view (entry : Entry) : Option Key × List String × Py (List (String × List String)) :=
  (entry.key, entry.sources, ownersOf entry.record)

theorem not_preserves {owners : List (String × List String)} (hfirst : ownersOf first = .ok [("user", ["alice"])])
    (hlast : ownersOf last = .ok owners)
    (hother : ∀ values, owners.lookup "user" = some values → "alice" ∉ values) : ¬Preserves first last := by
  rintro ⟨before, after, hbefore, hafter, hkeep⟩
  obtain rfl := Except.ok.inj (hfirst.symm.trans hbefore)
  obtain rfl := Except.ok.inj (hlast.symm.trans hafter)
  obtain ⟨kept, hkept, hsame⟩ := hkeep "user" ["alice"] rfl
  exact hother kept hkept ((hsame "alice").mpr List.mem_cons_self)

end Sample

/-- The source of an entry by its identity. -/
def Names (first next : Entry) : Prop := ∃ source ∈ next.sources, first.key = some (.text source)

set_option synthInstance.maxSize 400 in
/-- Owners change along a chain of identities when a record is bound again. -/
theorem owners_change_along_identities :
    (∃ first ∈ Sample.entries Sample.journalCalls, ∃ last ∈ Sample.entries Sample.journalCalls,
      Names first last ∧ ¬Preserves first.record last.record) ∧
    ∃ first ∈ Sample.entries Sample.reboundCalls, ∃ last ∈ Sample.entries Sample.reboundCalls,
      (∃ middle ∈ Sample.entries Sample.reboundCalls, ∃ again ∈ Sample.entries Sample.reboundCalls,
        Names first middle ∧ middle.key = again.key ∧ Names again last) ∧ ¬Preserves first.record last.record := by
  constructor
  · have hview : (Sample.entries Sample.journalCalls).map Sample.view =
        [(some (.text "a"), [], .ok [("user", ["alice"])]), (some (.text "j"), ["a"], .ok [])] := by
      decide +kernel
    obtain ⟨first, rest, hentries, hfirst, hrest⟩ := List.map_eq_cons_iff.mp hview
    obtain ⟨last, _, rfl, hlast, -⟩ := List.map_eq_cons_iff.mp hrest
    simp only [Sample.view, Prod.mk.injEq] at hfirst hlast
    rw [hentries]
    refine ⟨first, by simp, last, by simp, ⟨"a", by simp [hlast.2.1], hfirst.1⟩, ?_⟩
    exact Sample.not_preserves hfirst.2.2 hlast.2.2 (by simp)
  · have hview : (Sample.entries Sample.reboundCalls).map Sample.view =
        [(some (.text "a"), [], .ok [("user", ["alice"])]), (some (.text "b"), ["a"], .ok [("user", ["alice"])]),
          (some (.text "b"), [], .ok [("user", ["bob"])]), (some (.text "c"), ["b"], .ok [("user", ["bob"])])] := by
      decide +kernel
    obtain ⟨first, rest, hentries, hfirst, hrest⟩ := List.map_eq_cons_iff.mp hview
    obtain ⟨middle, _, rfl, hmiddle, hrest⟩ := List.map_eq_cons_iff.mp hrest
    obtain ⟨again, _, rfl, hagain, hrest⟩ := List.map_eq_cons_iff.mp hrest
    obtain ⟨last, _, rfl, hlast, -⟩ := List.map_eq_cons_iff.mp hrest
    simp only [Sample.view, Prod.mk.injEq] at hfirst hmiddle hagain hlast
    rw [hentries]
    refine ⟨first, by simp, last, by simp, ⟨middle, by simp, again, by simp, ⟨"a", ?_, hfirst.1⟩, ?_, "b", ?_,
      hagain.1⟩, ?_⟩
    · simp [hmiddle.2.1]
    · rw [hmiddle.1, hagain.1]
    · simp [hlast.2.1]
    · exact Sample.not_preserves hfirst.2.2 hlast.2.2 (by simp)

/-- The receipts of a fact that was bound again. -/
theorem derivation_never_launders_rebound : (Sample.entries Sample.reboundCalls).length = 4 ∧
    ∀ first last, Relation.TransGen (Derived (Sample.entries Sample.reboundCalls)) first last →
      Preserves first.record last.record := by
  obtain ⟨-, -, howners⟩ := derivation_never_launders Sample.plainRuntime (fun _ _ ↦ rfl) Sample.signing
    Sample.reboundCalls
  exact ⟨by decide +kernel, howners⟩

end UniMem.MemoryAuthority
