import UniMem.ChangeStream.Outbox
import UniMem.FrontierProtocol.Sizes

/-!
# What can be recovered once it is staged

`stage` bounds the canonical text of a signed intent and `_intent` the indented one, and only `_intent`
bounds the number of changes. `publish` checks each change once more.
-/

namespace UniMem.ChangeStream

open Library FrontierProtocol MemoryAuthority

variable {env : Environment} {nameSpace : Namespace}

/-- Every digest passes for an identifier. -/
def DigestsAreIdentifiers (runtime : Runtime) : Prop :=
  ∀ message, text (runtime.sha256 message) "identifier" 512 = .ok (runtime.sha256 message)

variable {before after current : Snapshot} {transaction : String} {items : List Json} {bound : ℕ}

theorem stateHash_ok_of_intentOf {runtime : Runtime} {intent : Intent}
    (h : intentOf runtime nameSpace before after = .ok intent) :
    stateHash runtime before = .ok intent.before ∧ stateHash runtime after = .ok intent.after := by
  obtain ⟨beforeHash, hbefore, h⟩ := Py.of_bind h
  obtain ⟨afterHash, hafter, h⟩ := Py.of_bind h
  obtain ⟨transaction, -, h⟩ := Py.of_bind h
  cases h
  exact ⟨hbefore, hafter⟩

theorem intentOf_spec {runtime : Runtime} {intent : Intent}
    (h : intentOf runtime nameSpace before after = .ok intent) :
    intent.nameSpace = nameSpace ∧ intent.changes = changesOf nameSpace before after ∧
      digest runtime (.obj intent.body) = .ok intent.transaction := by
  obtain ⟨beforeHash, -, h⟩ := Py.of_bind h
  obtain ⟨afterHash, -, h⟩ := Py.of_bind h
  obtain ⟨transaction, htransaction, h⟩ := Py.of_bind h
  cases h
  exact ⟨rfl, rfl, htransaction⟩

theorem intentOf_eq_ok {runtime : Runtime} {before after : Snapshot} {hash hash' transaction : String}
    (hbefore : stateHash runtime before = .ok hash) (hafter : stateHash runtime after = .ok hash')
    (hdigest : digest runtime (.obj (Intent.mk nameSpace hash hash'
      (changesOf nameSpace before after) "").body) = .ok transaction) :
    intentOf runtime nameSpace before after =
      .ok ⟨nameSpace, hash, hash', changesOf nameSpace before after, transaction⟩ := by
  rw [intentOf, hbefore, hafter, Py.bind_ok, Py.bind_ok]
  dsimp only
  rw [hdigest, Py.bind_ok, Py.pure_eq_ok]

theorem sign_eq_ok {intent : Intent} {file : File} (h : sign env intent = .ok file) :
    file.intent = intent ∧ bindWith env.runtime env.signing env.writer intent.row = .ok file.signed := by
  obtain ⟨_, h⟩ := Py.of_rest h
  split at h
  · cases h
  · rename_i hbind
    cases h
    exact ⟨rfl, hbind⟩

theorem stage_spec {pending : Option File} {file : File}
    (h : stage env nameSpace pending before after = .ok (some file)) :
    changesOf nameSpace before after ≠ [] ∧ intentOf env.runtime nameSpace before after = .ok file.intent ∧
      bindWith env.runtime env.signing env.writer file.intent.row = .ok file.signed := by
  unfold stage at h
  split_ifs at h with hchanges
  · cases h
  · obtain ⟨_, h⟩ := Py.of_rest h
    obtain ⟨intent, hintent, h⟩ := Py.of_bind h
    obtain ⟨signed, hsigned, h⟩ := Py.of_bind h
    obtain ⟨_, h⟩ := Py.of_rest h
    cases h
    obtain ⟨rfl, hbind⟩ := sign_eq_ok hsigned
    exact ⟨hchanges, hintent, hbind⟩

theorem readIntent_staged (hed : env.runtime.Ed25519Correct)
    (hpinned : env.signing.algorithm = .ed25519 → env.signing.Pinned env.runtime)
    {pending : Option File} {before after : Snapshot} {file : File}
    (h : stage env nameSpace pending before after = .ok (some file)) {found : Option Intent} :
    readIntent env nameSpace (some file) = .ok found ↔ (writeJson (.obj file.signed)).length ≤ maxBytes ∧
        (changesOf nameSpace before after).length ≤ 2048 ∧ found = some file.intent := by
  obtain ⟨hchanges, hintent, hbind⟩ := stage_spec h
  obtain ⟨hname, hlist, hdigest⟩ := intentOf_spec hintent
  have hverify := verify_bindWith_of_ed25519 hed hpinned hbind
  have hpositive : 1 ≤ (changesOf nameSpace before after).length :=
    List.length_pos_iff.mpr hchanges
  rw [readIntent]
  simp only [Py.bind_eq_ok_iff, Py.require_eq_ok_iff, hverify, hdigest, hname, hlist,
    Except.ok.injEq, count_eq_ok_iff, decide_eq_true_eq, Bool.and_eq_true, Py.pure_eq_ok]
  constructor
  · rintro ⟨_, hsize, verified, rfl, _, -, transaction, rfl, _, -, _, ⟨⟨-, hcount⟩, -⟩, rfl⟩
    exact ⟨hsize, by exact_mod_cast hcount, rfl⟩
  · rintro ⟨hsize, hcount, rfl⟩
    exact ⟨(), hsize, true, rfl, (), ⟨rfl, trivial⟩, _, rfl, (), rfl, _,
      ⟨⟨by exact_mod_cast hpositive, by exact_mod_cast hcount⟩, rfl⟩, rfl⟩

theorem readIntent_spec {file : Option File} {intent : Intent}
    (h : readIntent env nameSpace file = .ok (some intent)) :
    (∃ found, file = some found ∧ found.intent = intent) ∧ intent.changes.length ≤ 2048 := by
  cases file with
  | none => cases h
  | some file =>
    obtain ⟨_, h⟩ := Py.of_rest h
    obtain ⟨_, h⟩ := Py.of_rest h
    obtain ⟨_, h⟩ := Py.of_rest h
    obtain ⟨_, h⟩ := Py.of_rest h
    obtain ⟨_, h⟩ := Py.of_rest h
    obtain ⟨_, hcount, h⟩ := Py.of_bind h
    cases h
    have hbound := (count_eq_ok_iff.mp hcount).1.2
    exact ⟨⟨file, rfl, rfl⟩, by exact_mod_cast hbound⟩

/-- The identity of an event. -/
def eventId (runtime : Runtime) (transaction : String) (index : ℕ) : String :=
  runtime.sha256 (canonicalBytes (eventName transaction index))

/-- The events of an intent. -/
def eventsOf (runtime : Runtime) (intent : Intent) : List Event :=
  intent.changes.zipIdx.map fun item ↦
    eventOf item.1 (eventId runtime intent.transaction item.2)

/-- A journal takes an event: its identity is bound to it, or is new and there is room. -/
def Admits (env : Environment) (journal : List Event) (event : Event) : Prop :=
  match journal.find? fun other ↦ other.eventId = event.eventId with
  | some prior => prior = event
  | none => journal.length < maxRows ∧ env.fits journal event = true

/-- Whether a journal takes some events one after another. -/
def Room (env : Environment) : List Event → List Event → Prop
  | _, [] => True
  | journal, event :: events =>
    Admits env journal event ∧ Room env (deliver Event.eventId journal event) events

theorem ne_empty_of_text {value label result : String} {maximum : ℕ}
    (h : text value label maximum = .ok result) : value ≠ "" := by
  rintro rfl
  exact (text_eq_ok_iff.mp h).1 (Or.inl rfl)

theorem publish_eq_ok_iff {journal next : List Event} {change : Change} {identity : String}
    (hidentity : text identity "identifier" 512 = .ok identity) :
    publish env journal change identity = .ok next ↔
      checkChange change = .ok () ∧ Admits env journal (eventOf change identity) ∧
        next = deliver Event.eventId journal (eventOf change identity) := by
  have hne := ne_empty_of_text hidentity
  have hid : (eventOf change identity).eventId = identity := rfl
  unfold publish Admits
  rw [if_neg hne, if_neg hne, hidentity, Py.map_ok, Py.bind_eq_ok_iff, Py.bind_ok, hid]
  cases hfind : journal.find? fun event ↦ event.eventId = identity with
  | some prior =>
    have hmem := List.mem_of_find?_eq_some hfind
    simp only
    constructor
    · rintro ⟨_, hcheck, h⟩
      split_ifs at h with hprior
      cases h
      exact ⟨hcheck, hprior, (deliver_of_mem (hprior ▸ hmem)).symm⟩
    · rintro ⟨hcheck, hprior, rfl⟩
      refine ⟨(), hcheck, ?_⟩
      rw [if_pos hprior, deliver_of_mem (hprior ▸ hmem)]
  | none =>
    have hfresh : ∀ other ∈ journal, other.eventId ≠ (eventOf change identity).eventId := by
      intro other hother heq
      have hnot := List.find?_eq_none.mp hfind other hother
      exact hnot (decide_eq_true heq)
    have hcount : (0 : ℤ) ≤ journal.length ∧ (journal.length : ℤ) ≤ (maxRows : ℤ) - 1 ↔
        journal.length < maxRows := by omega
    simp only [append, Py.bind_eq_ok_iff, count_eq_ok_iff, Py.require_eq_ok_iff, Py.pure_eq_ok,
      Except.ok.injEq, hcount, deliver_of_fresh hfresh]
    constructor
    · rintro ⟨_, hcheck, _, ⟨hroom, -⟩, _, hfits, rfl⟩
      exact ⟨hcheck, ⟨hroom, hfits⟩, rfl⟩
    · rintro ⟨hcheck, ⟨hroom, hfits⟩, rfl⟩
      exact ⟨(), hcheck, _, ⟨hroom, rfl⟩, (), hfits, rfl⟩

theorem length_utf8_le (text : String) : (Json.utf8 text).length ≤ 4 * text.length := by
  have hchars : ∀ chars : List Char, (chars.flatMap String.utf8EncodeChar).length ≤ 4 * chars.length := by
    intro chars
    induction chars with
    | nil => exact le_rfl
    | cons char chars ih =>
      have hchar := Char.utf8Size_le_four char
      rw [List.flatMap_cons, List.length_append, List.length_cons, String.length_utf8EncodeChar]
      omega
  have htext := hchars text.toList
  rwa [String.length_toList] at htext

theorem small_index {index : ℕ} (h : index ≤ 2048) :
    scalarBytes (.int index) ≤ 10 ∧ size (.int index) ≤ 16 := by
  constructor
  · have hbits : bitLength index ≤ 12 := by
      unfold bitLength
      split_ifs with hzero
      · exact Nat.zero_le _
      · have hlog : Nat.log2 index < 12 := (Nat.log2_lt hzero).mpr (h.trans_lt (by decide))
        omega
    rw [scalarBytes, Int.natAbs_natCast]
    omega
  · have hdigits : index.repr.length ≤ 4 :=
      (Nat.length_repr_le_iff (by decide)).mpr (h.trans_lt (by decide))
    have hbytes := length_utf8_le index.repr
    have hsize : size (.int index) = (Json.utf8 index.repr).length := rfl
    omega

theorem wirable_eventName {index : ℕ} (htransaction : text transaction "identifier" 512 = .ok transaction)
    (hindex : index ≤ 2048) :
    Wirable (eventName transaction index) := by
  obtain ⟨hscalar, hsize⟩ := small_index hindex
  have htext := (text_eq_ok_iff.mp htransaction).1
  have hlength : transaction.length ≤ 512 := by
    by_contra hlong
    exact htext (Or.inr (Or.inl (not_le.mp hlong)))
  refine ⟨⟨?_, ?_, ?_⟩, ?_, ?_⟩
  · rw [eventName, nodes_eq]
    simp [Json.children, nodes, Json.total, maxNodes]
  · rw [eventName, minimumBytes_eq]
    simp only [Json.children, List.map_cons, List.map_nil, List.sum_cons, List.sum_nil, minimumBytes_eq,
      keyBytes, scalarBytes] at hscalar ⊢
    simp only [maxBytes]
    omega
  · rw [eventName, Json.everywhere_iff]
    refine ⟨Nat.zero_le _, ?_⟩
    simp [Json.children, Json.Everywhere, NodeAdmissible]
  · have hsmall : ¬10 ^ maxStrDigits ≤ index := by
      have hpower : 10 ^ 4 ≤ 10 ^ maxStrDigits := Nat.pow_le_pow_right (by decide) (by decide)
      omega
    rw [convertible_iff, unconvertible, eventName, total_arr]
    simp [Json.total, hsmall]
  · rw [length_canonicalBytes]
    have hquote := quote_le_length transaction
    have harr := @size_arr_add_one [.str transaction, .int index] (by simp)
    have hstr : size (.str transaction) = (Json.quote transaction).length := rfl
    simp only [List.map_cons, List.map_nil, List.sum_cons, List.sum_nil, hstr] at harr
    rw [eventName, maxBytes]
    omega

theorem digest_eventName {runtime : Runtime} {index : ℕ}
    (htransaction : text transaction "identifier" 512 = .ok transaction) (hindex : index ≤ 2048) :
    digest runtime (eventName transaction index) = .ok (eventId runtime transaction index) :=
  digest_eq_ok_iff.mpr ⟨wirable_eventName htransaction hindex, rfl⟩

/-- The store with an event in its journal. -/
def State.deliver (state : State) (event : Event) : State :=
  { state with journal := Library.deliver Event.eventId state.journal event }

theorem apply_publish_eq_ok_iff (hdigests : DigestsAreIdentifiers env.runtime) {state next : State}
    {transaction : String} {index : ℕ} {change : Change}
    (htransaction : text transaction "identifier" 512 = .ok transaction) (hindex : index ≤ 2048) :
    apply env state (.publish transaction index change) = .ok next ↔ checkChange change = .ok () ∧
        Admits env state.journal (eventOf change (eventId env.runtime transaction index)) ∧
        next = state.deliver (eventOf change (eventId env.runtime transaction index)) := by
  have hidentity : text (eventId env.runtime transaction index) "identifier" 512 =
      .ok (eventId env.runtime transaction index) := hdigests _
  rw [apply, digest_eventName htransaction hindex, Py.bind_ok]
  simp only [Py.bind_eq_ok_iff, publish_eq_ok_iff hidentity, Py.pure_eq_ok, Except.ok.injEq]
  constructor
  · rintro ⟨journal, ⟨hcheck, hadmits, rfl⟩, rfl⟩
    exact ⟨hcheck, hadmits, rfl⟩
  · rintro ⟨hcheck, hadmits, rfl⟩
    exact ⟨_, ⟨hcheck, hadmits, rfl⟩, rfl⟩

/-- What `complete` publishes of some changes of a transaction. -/
def publications (transaction : String) (items : List (Change × ℕ)) : List Effect :=
  items.map fun item ↦ .publish transaction item.2 item.1

/-- The events of some changes of a transaction. -/
def eventsFor (runtime : Runtime) (transaction : String) (items : List (Change × ℕ)) : List Event :=
  items.map fun item ↦ eventOf item.1 (eventId runtime transaction item.2)

theorem attempt_publications_iff (hdigests : DigestsAreIdentifiers env.runtime) {state : State}
    (htransaction : text transaction "identifier" 512 = .ok transaction) {items : List (Change × ℕ)}
    (hindex : ∀ item ∈ items, item.2 ≤ 2048) :
    (attempt (apply env) state (publications transaction items)).2 = none ↔
      (∀ item ∈ items, checkChange item.1 = .ok ()) ∧
        Room env state.journal (eventsFor env.runtime transaction items) := by
  induction items generalizing state with
  | nil => simp [publications, eventsFor, Room]
  | cons item items ih =>
    rw [List.forall_mem_cons] at hindex
    have hstep := fun next ↦ @apply_publish_eq_ok_iff env hdigests state next transaction item.2 item.1
      htransaction hindex.1
    rw [publications, List.map_cons, eventsFor, List.map_cons, Room, List.forall_mem_cons]
    cases heffect : apply env state (.publish transaction item.2 item.1) with
    | error error =>
      rw [attempt_cons_of_error heffect]
      refine iff_of_false (by simp) ?_
      rintro ⟨⟨hcheck, -⟩, hadmits, -⟩
      rw [(hstep _).mpr ⟨hcheck, hadmits, rfl⟩] at heffect
      cases heffect
    | ok next =>
      obtain ⟨hcheck, hadmits, rfl⟩ := (hstep next).mp heffect
      rw [attempt_cons_of_ok heffect]
      refine (ih hindex.2).trans ?_
      constructor
      · rintro ⟨hchecks, hroom⟩
        exact ⟨⟨hcheck, hchecks⟩, hadmits, hroom⟩
      · rintro ⟨⟨-, hchecks⟩, -, hroom⟩
        exact ⟨hchecks, hroom⟩

theorem attempt_unlink (state : State) (plan : List Effect) :
    attempt (apply env) state (plan ++ [.unlink]) =
      match attempt (apply env) state plan with
      | (final, none) => ({ final with file := none }, none)
      | (final, some error) => (final, some error) := by
  cases hplan : attempt (apply env) state plan with
  | mk final raised =>
    cases raised with
    | none =>
      rw [attempt_append_of_none hplan]
      rfl
    | some error => exact attempt_append_of_some hplan

theorem complete_iff {state : State} {intent : Intent}
    (hread : readIntent env nameSpace state.file = .ok (some intent)) :
    (∃ final, complete env nameSpace state = (.ok true, final) ∧ final.file = none) ↔
      (attempt (apply env) state (publishEffects intent)).2 = none := by
  unfold complete
  rw [hread]
  dsimp only
  rw [attempt_unlink]
  cases hplan : attempt (apply env) state (publishEffects intent) with
  | mk final raised =>
    cases raised with
    | none => simp
    | some error =>
      refine iff_of_false ?_ (by simp)
      rintro ⟨other, h, -⟩
      dsimp only at h
      split_ifs at h <;> cases h

theorem recover_after_iff {state : State} {intent : Intent}
    (hread : readIntent env nameSpace state.file = .ok (some intent))
    (hhash : stateHash env.runtime current = .ok intent.after) :
    (∃ final, recover env nameSpace current state = (.ok (), final) ∧ final.file = none) ↔
      ∃ final, complete env nameSpace state = (.ok true, final) ∧ final.file = none := by
  unfold recover
  rw [hread, hhash]
  dsimp only
  rw [if_pos rfl]
  cases hcomplete : complete env nameSpace state with
  | mk outcome final =>
    cases outcome with
    | error error => simp
    | ok done => cases done <;> simp

theorem recover_before {state : State} {intent : Intent}
    (hread : readIntent env nameSpace state.file = .ok (some intent))
    (hhash : stateHash env.runtime current = .ok intent.before) (hne : intent.before ≠ intent.after) :
    recover env nameSpace current state = (.ok (), { state with file := none }) := by
  unfold recover
  rw [hread, hhash]
  dsimp only
  rw [if_neg hne, if_pos rfl]

theorem publish_staged_iff (hdigests : DigestsAreIdentifiers env.runtime) {intent : Intent}
    (hintent : intentOf env.runtime nameSpace before after = .ok intent) (hcount : intent.changes.length ≤ 2048)
    {state : State} :
    (attempt (apply env) state (publishEffects intent)).2 = none ↔
      (∀ change ∈ intent.changes, checkChange change = .ok ()) ∧
        Room env state.journal (eventsOf env.runtime intent) := by
  have htransaction : text intent.transaction "identifier" 512 = .ok intent.transaction := by
    rw [← (digest_eq_ok_iff.mp (intentOf_spec hintent).2.2).2]
    exact hdigests _
  have hindex : ∀ item ∈ intent.changes.zipIdx, item.2 ≤ 2048 := by
    intro item hitem
    have hlt := (List.mem_zipIdx hitem).2.1
    omega
  refine (attempt_publications_iff hdigests htransaction hindex).trans (and_congr_left' ?_)
  rw [← List.forall_mem_map (f := Prod.fst) (P := fun change ↦ checkChange change = .ok ()), List.zipIdx_map_fst]

/-- An intent can be completed exactly when it is within its bounds and the journal takes its events. -/
theorem staged_recoverable_iff (hed : env.runtime.Ed25519Correct)
    (hpinned : env.signing.algorithm = .ed25519 → env.signing.Pinned env.runtime)
    (hdigests : DigestsAreIdentifiers env.runtime) {before after : Snapshot} {file : File}
    (hstage : stage env nameSpace none before after = .ok (some file)) {state : State}
    (hfile : state.file = some file) :
    (readIntent env nameSpace state.file = .ok (some file.intent) ∧
      (∃ final, complete env nameSpace state = (.ok true, final) ∧ final.file = none) ∧
      ∀ current ∈ [before, after], ∃ final,
        recover env nameSpace current state = (.ok (), final) ∧ final.file = none) ↔
      (changesOf nameSpace before after).length ≤ 2048 ∧ (writeJson (.obj file.signed)).length ≤ maxBytes ∧
      (∀ change ∈ changesOf nameSpace before after, checkChange change = .ok ()) ∧
      Room env state.journal (eventsOf env.runtime file.intent) := by
  obtain ⟨-, hintent, -⟩ := stage_spec hstage
  obtain ⟨hbefore, hafter⟩ := stateHash_ok_of_intentOf hintent
  obtain ⟨-, hchanges, -⟩ := intentOf_spec hintent
  have hread := @readIntent_staged env nameSpace hed hpinned none before after file hstage
    (some file.intent)
  rw [hfile]
  rw [← hchanges] at hread ⊢
  constructor
  · rintro ⟨haccepted, hcomplete, -⟩
    obtain ⟨hsize, hcount, -⟩ := hread.mp haccepted
    have hpublished := (complete_iff (hfile ▸ haccepted)).mp hcomplete
    obtain ⟨hchecks, hroom⟩ := (publish_staged_iff hdigests hintent hcount).mp hpublished
    exact ⟨hcount, hsize, hchecks, hroom⟩
  · rintro ⟨hcount, hsize, hchecks, hroom⟩
    have haccepted := hread.mpr ⟨hsize, hcount, rfl⟩
    have hcomplete := (complete_iff (hfile ▸ haccepted)).mpr
      ((publish_staged_iff hdigests hintent hcount).mpr ⟨hchecks, hroom⟩)
    have hrecover : ∀ current, stateHash env.runtime current = .ok file.intent.after → ∃ final,
        recover env nameSpace current state = (.ok (), final) ∧ final.file = none :=
      fun current hcurrent ↦ (recover_after_iff (hfile ▸ haccepted) hcurrent).mpr hcomplete
    refine ⟨haccepted, hcomplete, ?_⟩
    simp only [List.mem_cons, List.not_mem_nil, or_false, forall_eq_or_imp, forall_eq]
    refine ⟨?_, hrecover after hafter⟩
    by_cases heq : file.intent.before = file.intent.after
    · exact hrecover before (heq ▸ hbefore)
    · exact ⟨_, recover_before (hfile ▸ haccepted) hbefore heq, rfl⟩

theorem size_arr_le (h : ∀ item ∈ items, size item ≤ bound) :
    size (.arr items) ≤ 2 + items.length * (1 + bound) := by
  rcases eq_or_ne items [] with rfl | hne
  · exact le_self_add
  · have harr := size_arr_add_one hne
    have hsum := List.sum_le_card_nsmul (items.map fun item ↦ 1 + size item) (1 + bound) (by
      rw [List.forall_mem_map]
      exact fun item hitem ↦ Nat.add_le_add_left (h item hitem) 1)
    rw [List.length_map, smul_eq_mul] at hsum
    omega

theorem nodes_arr_le (h : ∀ item ∈ items, nodes item ≤ bound) :
    nodes (.arr items) ≤ 1 + items.length * bound := by
  have hsum := List.sum_le_card_nsmul (items.map nodes) bound (by
    rw [List.forall_mem_map]
    exact h)
  rw [List.length_map, smul_eq_mul] at hsum
  rw [nodes_eq, Json.children]
  omega

namespace Sample

def runtime : Runtime where
  sha256 _ := "digest"
  hmacSha256 _ _ := "signature"
  ed25519PublicBytes key := key
  ed25519Sign _ _ := ""
  ed25519Verify _ _ _ := true
  jsonLoads _ := none
  retainedSize _ := 0

def environment : Environment where
  runtime := runtime
  signing := ⟨.hmacSha256, none, some (List.replicate 32 0), none⟩
  writer := ⟨"local", .operator, List.replicate 32 0, length_zeros⟩
  fits _ _ := true

def letter (index : ℕ) : String := String.singleton (Char.ofNat (0x4e00 + index))

def entry : Entry := ⟨[], "", "active", false, "digest", ""⟩

theorem toNat_char {index : ℕ} (h : index < 2049) :
    (Char.ofNat (0x4e00 + index)).toNat = 0x4e00 + index := by
  have hvalid : (0x4e00 + index).isValidChar := Or.inl (by omega)
  rw [Char.ofNat, dif_pos hvalid]
  rfl

theorem letter_lt {first second : ℕ} (h : first < second) (hsecond : second < 2049) :
    letter first < letter second := by
  have hchar : Char.ofNat (0x4e00 + first) < Char.ofNat (0x4e00 + second) := by
    rw [Char.lt_def, UInt32.lt_iff_toNat_lt]
    change (Char.ofNat (0x4e00 + first)).toNat < (Char.ofNat (0x4e00 + second)).toNat
    rw [toNat_char (h.trans hsecond), toNat_char hsecond]
    omega
  rw [String.lt_iff_toList_lt]
  simp only [letter, String.toList_singleton]
  exact List.cons_lt_cons_iff.mpr (Or.inl hchar)

def crowd (total : ℕ) (h : total ≤ 2049) : Snapshot where
  entries := (List.range total).map fun index ↦ (letter index, entry)
  sorted := by
    rw [List.map_map, List.pairwise_map]
    refine List.pairwise_lt_range.imp_of_mem ?_
    intro first second _ hsecond hlt
    exact letter_lt hlt ((List.mem_range.mp hsecond).trans_le h)

def empty : Snapshot := ⟨[], List.Pairwise.nil⟩

def created (index : ℕ) : Change := ⟨.assert, letter index, [], .facts, "", ""⟩

theorem changesOf_crowd {total : ℕ} (h : total ≤ 2049) :
    changesOf .facts empty (crowd total h) = (List.range total).map created := by
  have hids : (crowd total h).identities = (List.range total).map letter := by
    rw [Snapshot.identities, crowd, List.map_map]
    rfl
  have hsorted : ((List.range total).map letter).Pairwise (· < ·) := hids ▸ (crowd total h).sorted
  have hnodup : ((List.range total).map letter).Nodup := hsorted.imp fun h ↦ ne_of_lt h
  have hsort : sortBy id ((List.range total).map letter) = (List.range total).map letter :=
    List.Pairwise.insertionSort_eq (hsorted.imp fun h ↦ le_of_lt h)
  rw [changesOf, hids, Snapshot.identities, empty, List.map_nil, List.nil_append,
    List.Nodup.dedup hnodup, hsort, List.filterMap_map, ← List.filterMap_eq_map]
  apply List.filterMap_congr
  intro index hindex
  have hkeys : ((crowd total h).entries.map Prod.fst).Nodup :=
    (crowd total h).sorted.imp fun h ↦ ne_of_lt h
  have hlookup : (crowd total h).get (letter index) = some entry := by
    rw [Snapshot.get, lookup_eq_some_iff_mem hkeys]
    exact List.mem_map_of_mem (f := fun index ↦ (letter index, entry)) hindex
  simp only [Function.comp_apply, Snapshot.get, List.lookup_nil] at hlookup ⊢
  rw [hlookup]
  rfl

/-! Its intent is far below the bounds of `wire`. -/

theorem quote_letter_le (index : ℕ) : (Json.quote (letter index)).length ≤ 8 :=
  (quote_le_length _).trans (by simp [letter])

theorem sizes :
    ((size entry.toJson ≤ 200 ∧ size (.str "assert") = 8 ∧ size (.arr []) = 2 ∧ size (.str "facts") = 7 ∧
      size (.str "") = 2 ∧ size (.str "unimem.canonical-change-intent") = 32 ∧ size (.str "digest") = 8) ∧
    size (.str "local") = 7 ∧ size (.str "local-store") = 13 ∧ size (.str "operator") = 10 ∧
    size (.str "signature") = 11) ∧
    ((["kind", "identity", "scopes", "namespace", "revision", "predicate"]).map fun key ↦
      2 + (Json.quote key).length).sum = 68 ∧
    ((["type", "namespace", "before", "after", "changes", "transaction"]).map fun key ↦
      2 + (Json.quote key).length).sum = 66 ∧
    ((["record", "principal", "organization", "authority", "digest", "signature"]).map fun key ↦
      2 + (Json.quote key).length).sum = 75 := by
  decide +kernel

theorem wirable_entry (index : ℕ) : Wirable (.arr [.str (letter index), entry.toJson]) := by
  have hquote := quote_letter_le index
  refine wirable_of_size ?_ ?_
  · simp [Entry.toJson, entry, Json.Everywhere, Json.EverywhereFields, Json.EverywhereItems, Plain]
  · have harr := @size_arr_add_one [.str (letter index), entry.toJson] (by simp)
    have hstr : size (.str (letter index)) = (Json.quote (letter index)).length := rfl
    have hentry := sizes.1.1.1
    simp only [List.map_cons, List.map_nil, List.sum_cons, List.sum_nil, hstr] at harr
    rw [maxNodes]
    omega

theorem stateHash_crowd {total : ℕ} (h : total ≤ 2049) :
    stateHash runtime (crowd total h) = .ok "digest" := by
  have hwire : ∀ item ∈ (crowd total h).entries, ∃ line, Py.always (fun item : String × Entry ↦
      wire (.arr [.str item.1, item.2.toJson])) item = .ok line := by
    intro item hitem
    obtain ⟨index, -, rfl⟩ := List.mem_map.mp hitem
    exact ⟨_, Py.always_eq_ok_iff.mpr (wirable_entry index).wire_eq⟩
  obtain ⟨lines, hlines⟩ := Py.exists_collect hwire
  rw [stateHash, hlines]
  rfl

theorem measures_created (index : ℕ) :
    nodes (created index).toJson = 7 ∧ size (created index).toJson ≤ 200 ∧
      ∀ depth ≤ 3, Json.Everywhere Plain depth (created index).toJson := by
  have hquote := quote_letter_le index
  refine ⟨rfl, ?_, ?_⟩
  · have hobj := size_obj_eq (List.cons_ne_nil ("kind", .str "assert") [("identity", .str (letter index)),
      ("scopes", .arr []), ("namespace", .str "facts"), ("revision", .str ""), ("predicate", .str "")])
    change size (created index).toJson + 1 = 2 + ((["kind", "identity", "scopes", "namespace", "revision",
      "predicate"]).map fun key ↦ 2 + (Json.quote key).length).sum +
      ([size (.str "assert"), size (.str (letter index)), size (.arr []), size (.str "facts"),
        size (.str ""), size (.str "")]).sum at hobj
    have hstr : size (.str (letter index)) = (Json.quote (letter index)).length := rfl
    simp only [List.sum_cons, List.sum_nil, hstr, sizes] at hobj
    omega
  · intro depth hdepth
    simp [Change.toJson, created, Json.Everywhere, Json.EverywhereFields, Json.EverywhereItems, Plain]
    omega

def intent (total : ℕ) : Intent := ⟨.facts, "digest", "digest", (List.range total).map created, "digest"⟩

def signed (total : ℕ) : List (String × Json) :=
  [("record", .obj (intent total).row), ("principal", .str "local"), ("organization", .str "local-store"),
    ("authority", .str "operator"), ("digest", .str "digest"), ("signature", .str "signature")]

def file (total : ℕ) : File := ⟨intent total, signed total, rfl⟩

theorem wirable_intent {total : ℕ} (h : total ≤ 2049) :
    Wirable (.obj (intent total).body) ∧ Wirable (.obj (intent total).row) ∧ Wirable (.obj (signed total)) := by
  have hchanges : ∀ property : Json → Prop, (∀ index, property (created index).toJson) →
      ∀ item ∈ (intent total).changes.map Change.toJson, property item := by
    intro property hproperty
    simp only [intent, List.forall_mem_map]
    exact fun index _ ↦ hproperty index
  have hlength : ((intent total).changes.map Change.toJson).length = total := by
    simp [intent]
  have hsize := size_arr_le (hchanges _ fun index ↦ (measures_created index).2.1)
  have hnodes := nodes_arr_le (hchanges (fun item ↦ nodes item ≤ 7) fun index ↦
    (measures_created index).1.le)
  have hplain : ∀ depth ≤ 2, Json.Everywhere Plain depth (.arr ((intent total).changes.map Change.toJson)) := by
    intro depth hdepth
    rw [Json.everywhere_iff]
    refine ⟨hdepth.trans (by decide), ?_⟩
    exact hchanges (Json.Everywhere Plain (depth + 1)) fun index ↦
      (measures_created index).2.2 _ (Nat.succ_le_succ hdepth)
  rw [hlength] at hsize hnodes
  -- The fields of the row other than the changes are fixed.
  have hrowSize : size (.obj (intent total).row) ≤ 500_000 := by
    have hobj := @size_obj_eq (intent total).row (by simp [Intent.row])
    have hkeys : (((intent total).row.map Prod.fst).map fun key ↦ 2 + (Json.quote key).length).sum = 66 :=
      sizes.2.2.1
    have hvalues : ((intent total).row.map Prod.snd).map size =
        [size (.str "unimem.canonical-change-intent"), size (.str "facts"), size (.str "digest"),
          size (.str "digest"), size (.arr ((intent total).changes.map Change.toJson)),
          size (.str "digest")] := rfl
    rw [hkeys, hvalues] at hobj
    simp only [List.sum_cons, List.sum_nil, sizes] at hobj
    omega
  have hrowNodes : nodes (.obj (intent total).row) ≤ 20_000 := by
    have hvalues : (Json.obj (intent total).row).children.map nodes =
        [1, 1, 1, 1, nodes (.arr ((intent total).changes.map Change.toJson)), 1] := rfl
    rw [nodes_eq, hvalues]
    simp only [List.sum_cons, List.sum_nil]
    omega
  have hrowPlain : ∀ depth ≤ 1, Json.Everywhere Plain depth (.obj (intent total).row) := by
    intro depth hdepth
    have harr := hplain (depth + 1) (Nat.succ_le_succ hdepth)
    simp only [Intent.row, Intent.body, List.cons_append, List.nil_append, Json.Everywhere,
      Json.EverywhereFields, Plain] at harr ⊢
    have hlow : depth ≤ 64 ∧ depth + 1 ≤ 64 := by omega
    simp [harr, hlow]
  have hrow : Wirable (.obj (intent total).row) := wirable_of_nodes (hrowPlain 0 (Nat.zero_le _))
    (hrowNodes.trans (by decide)) (hrowSize.trans (by decide))
  refine ⟨hrow.of_noLarger (NoLarger.obj_fields (List.sublist_append_left _ _).subperm), hrow, ?_⟩
  refine wirable_of_nodes ?_ ?_ ?_
  · have hrecord := hrowPlain 1 le_rfl
    simp only [signed, Json.Everywhere, Json.EverywhereFields, Plain] at hrecord ⊢
    simp [hrecord]
  · have hvalues : (Json.obj (signed total)).children.map nodes =
        [nodes (.obj (intent total).row), 1, 1, 1, 1, 1] := rfl
    rw [nodes_eq, hvalues]
    simp only [List.sum_cons, List.sum_nil, maxNodes]
    omega
  · have hobj := @size_obj_eq (signed total) (by simp [signed])
    have hkeys : (((signed total).map Prod.fst).map fun key ↦ 2 + (Json.quote key).length).sum = 75 :=
      sizes.2.2.2
    have hvalues : ((signed total).map Prod.snd).map size =
        [size (.obj (intent total).row), size (.str "local"), size (.str "local-store"),
          size (.str "operator"), size (.str "digest"), size (.str "signature")] := rfl
    rw [hkeys, hvalues] at hobj
    simp only [List.sum_cons, List.sum_nil, sizes] at hobj
    rw [maxBytes]
    omega

theorem stage_crowd {total : ℕ} (hpos : 0 < total) (h : total ≤ 2049) :
    stage environment .facts none empty (crowd total h) = .ok (some (file total)) := by
  obtain ⟨hbody, hrow, hsigned⟩ := wirable_intent h
  have hchanges := changesOf_crowd h
  have hintent : intentOf environment.runtime .facts empty (crowd total h) = .ok (intent total) := by
    have hempty : stateHash runtime empty = .ok "digest" := rfl
    have hdigest : digest runtime (.obj (intent total).body) = .ok "digest" :=
      digest_eq_ok_iff.mpr ⟨hbody, rfl⟩
    have hnamed := @intentOf_eq_ok .facts runtime empty (crowd total h) "digest" "digest" "digest"
      hempty (stateHash_crowd h)
    rw [hchanges] at hnamed
    exact hnamed hdigest
  have hsign : sign environment (intent total) = .ok (file total) := by
    rw [sign, hrow.wire_eq, Py.bind_ok]
    rfl
  have hne : changesOf .facts empty (crowd total h) ≠ [] := by
    rw [hchanges]
    simpa using hpos.ne'
  rw [stage, if_neg hne, hintent, Py.bind_ok, hsign]
  simp only [Option.isNone_none, Py.require_true, Py.bind_ok]
  change (wire (.obj (signed total)) >>= fun _ ↦ Except.ok (some (file total))) = _
  rw [hsigned.wire_eq, Py.bind_ok]

def pending (total : ℕ) : State := ⟨empty, some (file total), [], []⟩

theorem ed25519Correct : environment.runtime.Ed25519Correct := fun _ _ ↦ rfl

theorem digestsAreIdentifiers : DigestsAreIdentifiers environment.runtime := by
  intro message
  change text "digest" "identifier" 512 = .ok "digest"
  decide +kernel

end Sample

open Sample in
/-- The creation of one entry. -/
theorem staged_recoverable_iff_one :
    readIntent environment .facts (pending 1).file = .ok (some (file 1).intent) ∧
      (∃ final, complete environment .facts (pending 1) = (.ok true, final) ∧ final.file = none) ∧
      ∀ current ∈ [empty, crowd 1 (by decide)], ∃ final,
        recover environment .facts current (pending 1) = (.ok (), final) ∧ final.file = none := by
  refine (staged_recoverable_iff ed25519Correct (fun h ↦ by cases h) digestsAreIdentifiers
    (stage_crowd (by decide) (by decide)) rfl).mpr ⟨?_, ?_, ?_, ?_⟩
  · rw [changesOf_crowd]
    decide
  · decide +kernel
  · rw [changesOf_crowd]
    decide +kernel
  · exact ⟨⟨by decide, rfl⟩, trivial⟩

open Sample in
/-- The creation of 2049 entries is staged, and no later call gets past its intent. -/
theorem crowd_blocks_namespace :
    stage environment .facts none empty (crowd 2049 le_rfl) = .ok (some (file 2049)) ∧
      (∀ found, readIntent environment .facts (some (file 2049)) ≠ .ok found) ∧
      ∀ current state, state.file = some (file 2049) → (recover environment .facts current state).1 ≠ .ok () := by
  have hstage := stage_crowd (by decide) (le_refl 2049)
  have hread : ∀ found, readIntent environment .facts (some (file 2049)) ≠ .ok found := by
    intro found h
    have hcount := ((readIntent_staged ed25519Correct (fun h ↦ by cases h) hstage).mp h).2.1
    rw [changesOf_crowd, List.length_map, List.length_range] at hcount
    exact absurd hcount (by decide)
  refine ⟨hstage, hread, ?_⟩
  intro current state hfile h
  unfold recover at h
  rw [hfile] at h
  cases hfound : readIntent environment .facts (some (file 2049)) with
  | error error =>
    rw [hfound] at h
    cases h
  | ok found => exact hread found hfound

end UniMem.ChangeStream
