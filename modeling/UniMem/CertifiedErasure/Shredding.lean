import UniMem.CertifiedErasure.SubjectVault
import UniMem.FrontierProtocol.Sizes

/-!
# Crypto-shredding

A tombstone stays, so its subject is closed for ever. Every other subject keeps its key, and what was sealed
for it can be opened as long as the file of tombstones can be read.
-/

namespace UniMem.CertifiedErasure

open Library FrontierProtocol

variable {environment : Environment}

/-! ## Sizes of envelopes -/

theorem length_escape_digitChar : ∀ value < 16, (Json.escape (Nat.digitChar value)).length = 1 := by decide

theorem length_quote_hexText (bytes : Bytes) : (Json.quote (hexText bytes)).length = 2 * bytes.length + 2 := by
  rw [Json.length_quote_of_plain, length_hexText]
  intro char hchar
  rw [hexText, String.toList_ofList] at hchar
  obtain ⟨byte, -, hdigit⟩ := List.mem_flatMap.mp hchar
  have hbyte := byte.toNat_lt
  rw [List.mem_pair] at hdigit
  obtain rfl | rfl := hdigit
  · exact length_escape_digitChar _ (by omega)
  · exact length_escape_digitChar _ (by omega)

/-- The size of the envelope of a text, from the sizes of what it holds. -/
def envelopeSize (reference recordId plaintext encoded : String) (outer : Bool) : ℕ :=
  (Json.quote reference).length + (Json.quote recordId).length + 2 * plaintext.utf8ByteSize +
    2 * encoded.utf8ByteSize + (if outer then 4 else 5) + 247

theorem size_envelope (htagged : environment.cipher.Tagged) (key : Bytes)
    (reference recordId plaintext : String) (aad : Bytes) (wrapper : Option Wrapper) (random : Randomness) :
    size (envelope environment.cipher key reference recordId plaintext aad wrapper random).json =
      envelopeSize reference recordId plaintext (encodedKey wrapper random.dek) wrapper.isSome := by
  have hstr : ∀ text, size (.str text) = (Json.quote text).length := fun text ↦ rfl
  have hbool : size (.bool wrapper.isSome) = if wrapper.isSome then 4 else 5 := by
    cases wrapper.isSome <;> rfl
  have hkeys : ((["schema", "reference", "record_id", "ciphertext", "nonce", "wrapped_key", "wrap_nonce",
      "outer_wrapped"] : List String).map fun key ↦ 2 + (Json.quote key).length).sum = 105 := by decide
  have hschema : (Json.quote "subject-envelope-v1").length = 21 := by decide
  have hfields : ∀ fields : List (String × Json), fields ≠ [] → size (.obj fields) =
      1 + ((fields.map Prod.fst).map fun key ↦ 2 + (Json.quote key).length).sum +
        ((fields.map Prod.snd).map size).sum := by
    intro fields hne
    have hsize := size_obj_eq hne
    omega
  rw [Envelope.json, hfields _ (by simp), envelopeSize, ← hbool]
  simp only [envelope, List.map_cons, List.map_nil, List.sum_cons, List.sum_nil, hstr,
    length_quote_hexText, htagged _ _ _ _, random.nonce_length, random.wrapNonce_length, hschema] at hkeys ⊢
  omega

theorem wirable_envelope {given : Envelope} (h : size given.json ≤ maxBytes) : Wirable given.json := by
  apply wirable_of_nodes _ _ h
  · simp [Envelope.json, Json.Everywhere, Json.EverywhereFields, Plain]
  · simp [Envelope.json, nodes, Json.total, Json.totalFields, maxNodes]

theorem utf8ByteSize_ofList_le (chars : List Char) :
    (String.ofList chars).utf8ByteSize ≤ 4 * chars.length := by
  induction chars with
  | nil => exact le_rfl
  | cons char chars ih =>
    have hchar := Char.utf8Size_le_four char
    have hsingle : (String.ofList [char]).utf8ByteSize = char.utf8Size := String.utf8ByteSize_singleton
    rw [← List.singleton_append, String.ofList_append, String.utf8ByteSize_append, List.length_append,
      List.length_singleton]
    omega

variable {plaintext : String} {vault : Vault} {keys : List (String × Bytes)}

variable {reference recordId other : String} {key : Bytes} {entry : Sealed} {result : Envelope}
  {wrapper : Option Wrapper} {tombstone : Tombstone} {plan : List Effect} {action : Action} {seen : ℕ}

theorem envelopeSize_le {dek : Bytes} (hreference : reference.length = 64)
    (hrecord : text recordId "identifier" 512 = .ok recordId)
    (hplaintext : text plaintext "subject content" 64_000 = .ok plaintext) (hdek : dek.length = 32) :
    envelopeSize reference recordId plaintext (hexText dek) false ≤ maxBytes := by
  obtain ⟨hrecord, -⟩ := text_eq_ok_iff.mp hrecord
  obtain ⟨hplaintext, -⟩ := text_eq_ok_iff.mp hplaintext
  simp only [not_or, not_lt] at hrecord hplaintext
  have hkey : (hexText dek).utf8ByteSize ≤ 4 * (hexText dek).length := by
    have h := utf8ByteSize_ofList_le (hexText dek).toList
    rwa [String.ofList_toList, String.length_toList] at h
  rw [length_hexText, hdek] at hkey
  have hquote := quote_le_length reference
  have hquote' := quote_le_length recordId
  have hlong := hrecord.2.1
  have hbytes := hplaintext.2.2.1
  unfold envelopeSize maxBytes
  simp only [Bool.false_eq_true, if_false]
  omega

/-! ## Keys -/

theorem vaultKey_eq_ok_iff {subject : String} {fresh : Option Bytes} :
    vaultKey environment vault subject fresh = .ok (key, keys) ↔
      ∃ reference, environment.reference subject = .ok reference ∧ readLoop vault.tombstones 0 0 = .ok () ∧
        (∀ tombstone ∈ vault.tombstones, tombstone.reference ≠ reference) ∧
        keys = createKey vault.keys reference fresh ∧ keys.lookup reference = some key ∧ key.length = 32 := by
  unfold vaultKey readTombstones
  rw [Py.bind_eq_ok_iff]
  apply exists_congr
  intro reference
  apply and_congr_right
  intro _
  cases readLoop vault.tombstones 0 0 with
  | error error => simp
  | ok result =>
    simp only [Py.bind_ok, Py.pure_eq_ok, Py.bind_eq_ok_iff, Py.require_eq_ok_iff, List.all_eq_true,
      decide_eq_true_eq, Unique.exists_iff]
    cases hlookup : (createKey vault.keys reference fresh).lookup reference with
    | none =>
      simp only [Py.throw_eq_error, reduceCtorEq, and_false, true_and, false_iff, not_and]
      rintro - rfl
      simp [hlookup]
    | some found =>
      simp only [Py.bind_eq_ok_iff, Py.require_eq_ok_iff, decide_eq_true_eq, Unique.exists_iff, Except.ok.injEq,
        Prod.mk.injEq, true_and]
      constructor
      · rintro ⟨hall, hlength, rfl, rfl⟩
        exact ⟨hall, rfl, hlookup, hlength⟩
      · rintro ⟨hall, rfl, hkey, hlength⟩
        obtain rfl := Option.some.inj (hlookup.symm.trans hkey)
        exact ⟨hall, hlength, rfl, rfl⟩

theorem lookup_createKey_of_some {fresh : Option Bytes} (h : keys.lookup other = some key) :
    (createKey keys reference fresh).lookup other = some key := by
  unfold createKey
  cases hreference : keys.lookup reference with
  | some found => cases fresh <;> exact h
  | none =>
    cases fresh with
    | none => exact h
    | some created =>
      dsimp only
      rw [lookup_assign, if_neg, h]
      rintro rfl
      rw [hreference] at h
      cases h

theorem lookup_filter_of_ne (h : other ≠ reference) :
    (keys.filter (·.1 ≠ reference)).lookup other = keys.lookup other := by
  induction keys with
  | nil => rfl
  | cons entry keys ih =>
    by_cases hentry : entry.1 = reference
    · have hne : (other == entry.1) = false := beq_eq_false_iff_ne.mpr (hentry ▸ h)
      rw [List.filter_cons_of_neg (by simpa using hentry), ih, List.lookup_cons, hne]
    · rw [List.filter_cons_of_pos (by simpa using hentry), List.lookup_cons, List.lookup_cons, ih]

/-! ## Envelopes -/

/-- A key opens an envelope. -/
structure Opens (environment : Environment) (key : Bytes) (entry : Sealed) : Prop where
  reference : environment.reference entry.subject = .ok entry.envelope.reference
  schema : entry.envelope.schema = "subject-envelope-v1"
  wirable : Wirable entry.envelope.json
  length : key.length = 32
  text : ∃ aad, additional entry.envelope.reference entry.envelope.recordId = .ok aad ∧
    plaintextOf environment.cipher key aad entry.envelope (entry.wrapper.map Wrapper.unwrap) =
      some entry.plaintext

theorem plaintextOf_envelope (hinverts : environment.cipher.Inverts) (key : Bytes)
    (reference recordId plaintext : String) (aad : Bytes) (wrapper : Option Wrapper) (random : Randomness) :
    plaintextOf environment.cipher key aad
      (envelope environment.cipher key reference recordId plaintext aad wrapper random)
      (wrapper.map Wrapper.unwrap) = some plaintext := by
  unfold plaintextOf envelope
  simp only [fromHex_hexText, Option.bind_eq_bind, Option.bind_some, hinverts _ _ _ _]
  cases wrapper with
  | none => simp [encodedKey, fromHex_hexText, hinverts _ _ _ _]
  | some wrapper => simp [encodedKey, wrapper.unwrap_wrap, fromHex_hexText, hinverts _ _ _ _]

theorem Opens.openEnvelope_eq (h : Opens environment key entry)
    (hreadable : readLoop vault.tombstones 0 0 = .ok ())
    (hlive : ∀ tombstone ∈ vault.tombstones, tombstone.reference ≠ entry.envelope.reference)
    (hkey : vault.keys.lookup entry.envelope.reference = some key) :
    openEnvelope environment vault entry.subject entry.envelope (entry.wrapper.map Wrapper.unwrap) =
      .ok entry.plaintext := by
  have hvault : vaultKey environment vault entry.subject none = .ok (key, vault.keys) := by
    refine vaultKey_eq_ok_iff.mpr ⟨_, h.reference, hreadable, hlive, ?_, hkey, h.length⟩
    unfold createKey
    rw [hkey]
  obtain ⟨aad, haad, htext⟩ := h.text
  unfold openEnvelope
  rw [h.wirable.wire_eq, h.schema, h.reference, hvault, haad]
  simp [htext]

/-! ## Every run -/

/-- A call within the bounds on envelopes and on the file of tombstones. -/
def Within (environment : Environment) (vault : Vault) : Action → Prop
  | .sealEnvelope subject recordId plaintext wrapper random => ∀ reference,
      environment.reference subject = .ok reference → wrapper.isSome →
        envelopeSize reference recordId plaintext (encodedKey wrapper random.dek) true ≤ maxBytes
  | .openEnvelope _ _ _ => True
  | .destroy subject now _ => ∀ reference, environment.reference subject = .ok reference →
      (∀ tombstone ∈ vault.tombstones, tombstone.reference ≠ reference) →
        readLoop (vault.tombstones ++ [⟨reference, now⟩]) 0 0 = .ok ()

/-- The tombstones can be read, once for each subject, and the envelopes of others can be opened. -/
structure Sound (environment : Environment) (vault : Vault) : Prop where
  readable : readLoop vault.tombstones 0 0 = .ok ()
  unique : (vault.tombstones.map Tombstone.reference).Nodup
  destroyed : ∀ tombstone ∈ vault.tombstones, ∃ subject ∈ vault.destroyed,
    environment.reference subject = .ok tombstone.reference
  references : ∀ entry ∈ vault.envelopes, environment.reference entry.subject = .ok entry.envelope.reference
  envelopes : ∀ entry ∈ vault.envelopes,
    (∀ tombstone ∈ vault.tombstones, tombstone.reference ≠ entry.envelope.reference) →
      ∃ key, vault.keys.lookup entry.envelope.reference = some key ∧ Opens environment key entry

theorem sealEnvelope_spec {next : Vault} {subject : String} {random : Randomness}
    (h : sealEnvelope environment vault subject recordId plaintext wrapper random = .ok (next, result)) :
    ∃ reference key aad, environment.reference subject = .ok reference ∧
      text recordId "identifier" 512 = .ok recordId ∧ text plaintext "subject content" 64_000 = .ok plaintext ∧
      (createKey vault.keys reference (some random.key)).lookup reference = some key ∧ key.length = 32 ∧
      additional reference recordId = .ok aad ∧
      result = envelope environment.cipher key reference recordId plaintext aad wrapper random ∧ next = { vault with
        keys := createKey vault.keys reference (some random.key)
        envelopes := vault.envelopes ++ [⟨subject, plaintext, wrapper, result⟩] } := by
  obtain ⟨record, hrecord, h⟩ := Py.of_bind h
  obtain ⟨content, hcontent, h⟩ := Py.of_bind h
  obtain ⟨⟨key, keys⟩, hkey, h⟩ := Py.of_bind h
  obtain ⟨reference, hreference, h⟩ := Py.of_bind h
  obtain ⟨aad, haad, h⟩ := Py.of_bind h
  obtain ⟨other, hother, -, -, rfl, hlookup, hlength⟩ := vaultKey_eq_ok_iff.mp hkey
  obtain rfl := Except.ok.inj (hreference.symm.trans hother)
  obtain ⟨rfl, rfl⟩ := Prod.mk.inj (Except.ok.inj h)
  obtain rfl := (text_eq_ok_iff.mp hrecord).2
  obtain rfl := (text_eq_ok_iff.mp hcontent).2
  exact ⟨reference, key, aad, hreference, hrecord, hcontent, hlookup, hlength, haad, rfl, rfl⟩

theorem reference_length (hdigest : ∀ subject, (environment.digest subject).length = 64) {subject : String}
    (h : environment.reference subject = .ok reference) :
    reference.length = 64 := by
  obtain ⟨checked, -, heq⟩ := Py.of_bind h
  rw [← Except.ok.inj heq]
  exact hdigest checked

section Preservation

variable (hinverts : environment.cipher.Inverts) (htagged : environment.cipher.Tagged)
  (hdigest : ∀ subject, (environment.digest subject).length = 64)
include hinverts htagged hdigest

theorem Sound.sealEnvelope {next : Vault} {subject : String} {random : Randomness} (h : Sound environment vault)
    (hwithin : Within environment vault (.sealEnvelope subject recordId plaintext wrapper random))
    (hseal : CertifiedErasure.sealEnvelope environment vault subject recordId plaintext wrapper random =
      .ok (next, result)) :
    Sound environment next := by
  obtain ⟨reference, key, aad, hreference, hrecord, hplaintext, hlookup, hlength, haad, rfl, rfl⟩ :=
    sealEnvelope_spec hseal
  refine ⟨h.readable, h.unique, h.destroyed, ?_, ?_⟩
  · intro entry hentry
    obtain hold | hnew := List.mem_append.mp hentry
    · exact h.references entry hold
    · obtain rfl := List.mem_singleton.mp hnew
      exact hreference
  intro entry hentry hlive
  obtain hold | hnew := List.mem_append.mp hentry
  · obtain ⟨old, hkey, hopens⟩ := h.envelopes entry hold hlive
    exact ⟨old, lookup_createKey_of_some hkey, hopens⟩
  · obtain rfl := List.mem_singleton.mp hnew
    refine ⟨key, hlookup, hreference, rfl, wirable_envelope ?_, hlength, aad, haad, ?_⟩
    · rw [size_envelope htagged]
      cases wrapper with
      | none =>
        exact envelopeSize_le (reference_length hdigest hreference) hrecord hplaintext random.dek_length
      | some wrapper => exact hwithin reference hreference rfl
    · exact plaintextOf_envelope hinverts key reference recordId plaintext aad wrapper random

end Preservation

theorem Sound.append {vault : Vault} (h : Sound environment vault) {subject reference now : String}
    (hreference : environment.reference subject = .ok reference)
    (hnew : ∀ tombstone ∈ vault.tombstones, tombstone.reference ≠ reference)
    (hreadable : readLoop (vault.tombstones ++ [⟨reference, now⟩]) 0 0 = .ok ()) :
    Sound environment (apply vault (.append subject ⟨reference, now⟩)) := by
  refine ⟨hreadable, ?_, ?_, h.references, ?_⟩
  · dsimp only [apply]
    rw [List.map_append, List.map_singleton, ← List.concat_eq_append, List.nodup_concat]
    refine ⟨?_, h.unique⟩
    intro hmem
    obtain ⟨tombstone, htombstone, heq⟩ := List.mem_map.mp hmem
    exact hnew tombstone htombstone heq
  · intro tombstone htombstone
    obtain hold | hlast := List.mem_append.mp htombstone
    · obtain ⟨other, hother, heq⟩ := h.destroyed tombstone hold
      exact ⟨other, List.mem_append_left _ hother, heq⟩
    · obtain rfl := List.mem_singleton.mp hlast
      exact ⟨subject, List.mem_append_right _ List.mem_cons_self, hreference⟩
  · intro entry hentry hlive
    exact h.envelopes entry hentry fun tombstone htombstone ↦ hlive tombstone (List.mem_append_left _ htombstone)

theorem Sound.unlink (h : Sound environment vault) (hmem : tombstone ∈ vault.tombstones) :
    Sound environment (apply vault (.unlink tombstone.reference)) := by
  refine ⟨h.readable, h.unique, h.destroyed, h.references, ?_⟩
  intro entry hentry hlive
  obtain ⟨key, hkey, hopens⟩ := h.envelopes entry hentry hlive
  refine ⟨key, ?_, hopens⟩
  dsimp only [apply]
  rw [lookup_filter_of_ne (hlive tombstone hmem).symm]
  exact hkey

theorem destroyPlan_spec {subject now : String}
    (h : destroyPlan environment vault subject now = .ok (tombstone, plan)) :
    environment.reference subject = .ok tombstone.reference ∧
      ((tombstone ∈ vault.tombstones ∧ plan = [.unlink tombstone.reference]) ∨
        ((∀ other ∈ vault.tombstones, other.reference ≠ tombstone.reference) ∧
          tombstone = ⟨tombstone.reference, now⟩ ∧
          plan = [.append subject tombstone, .unlink tombstone.reference])) := by
  obtain ⟨reference, hreference, h⟩ := Py.of_bind h
  obtain ⟨tombstones, htombstones, h⟩ := Py.of_bind h
  obtain ⟨_, heq⟩ := Py.of_rest htombstones
  obtain rfl := Except.ok.inj heq
  cases hfind : vault.tombstones.find? (·.reference = reference) with
  | some prior =>
    rw [hfind] at h
    obtain ⟨rfl, rfl⟩ := Prod.mk.inj (Except.ok.inj h)
    obtain rfl : prior.reference = reference := by simpa using List.find?_some hfind
    exact ⟨hreference, Or.inl ⟨List.mem_of_find?_eq_some hfind, rfl⟩⟩
  | none =>
    rw [hfind] at h
    obtain ⟨_, h⟩ := Py.of_rest h
    obtain ⟨rfl, rfl⟩ := Prod.mk.inj (Except.ok.inj h)
    refine ⟨hreference, Or.inr ⟨?_, rfl, rfl⟩⟩
    intro other hother heq
    exact List.find?_eq_none.mp hfind other hother (by simpa using heq)

theorem Sound.destroy {subject now : String} (h : Sound environment vault) {steps : ℕ}
    (hwithin : Within environment vault (.destroy subject now steps))
    (hplan : destroyPlan environment vault subject now = .ok (tombstone, plan)) :
    Sound environment (interrupt apply vault plan steps) := by
  obtain ⟨hreference, ⟨hmem, rfl⟩ | ⟨hnew, htombstone, rfl⟩⟩ := destroyPlan_spec hplan
  · cases steps with
    | zero => exact h
    | succ steps =>
      rw [interrupt_of_length_le (by simp)]
      exact h.unlink hmem
  · have hreadable := hwithin _ hreference hnew
    rw [← htombstone] at hreadable
    have hafter : Sound environment (apply vault (.append subject tombstone)) := by
      rw [htombstone]
      rw [htombstone] at hreadable
      exact h.append hreference hnew hreadable
    match steps with
    | 0 => exact h
    | 1 => exact hafter
    | steps + 2 =>
      rw [interrupt_of_length_le (by simp)]
      exact hafter.unlink (List.mem_append_right _ List.mem_cons_self)

theorem mem_tombstones_step {next : Vault} (hmem : tombstone ∈ vault.tombstones)
    (hstep : step environment vault action = .ok next) :
    tombstone ∈ next.tombstones := by
  cases action with
  | sealEnvelope subject recordId plaintext wrapper random =>
    obtain ⟨⟨result, sealed⟩, hseal, heq⟩ := Py.of_bind hstep
    obtain rfl := Except.ok.inj heq
    obtain ⟨_, _, _, -, -, -, -, -, -, -, hnext⟩ := sealEnvelope_spec hseal
    rw [hnext]
    exact hmem
  | openEnvelope subject envelope unwrapper =>
    obtain ⟨_, heq⟩ := Py.of_rest hstep
    obtain rfl := Except.ok.inj heq
    exact hmem
  | destroy subject now steps =>
    obtain ⟨⟨found, plan⟩, -, heq⟩ := Py.of_bind hstep
    obtain rfl := Except.ok.inj heq
    have heffect : ∀ state : Vault, ∀ effect ∈ plan, tombstone ∈ state.tombstones →
        tombstone ∈ (apply state effect).tombstones := by
      intro state effect _ hstate
      cases effect with
      | append _ _ => exact List.mem_append_left _ hstate
      | unlink _ => exact hstate
    exact interrupt_invariant heffect hmem steps

theorem Sound.step {next : Vault} (hinverts : environment.cipher.Inverts) (htagged : environment.cipher.Tagged)
    (hdigest : ∀ subject, (environment.digest subject).length = 64) (h : Sound environment vault)
    (hwithin : Within environment vault action) (hstep : step environment vault action = .ok next) :
    Sound environment next := by
  cases action with
  | sealEnvelope subject recordId plaintext wrapper random =>
    obtain ⟨⟨result, sealed⟩, hseal, heq⟩ := Py.of_bind hstep
    obtain rfl := Except.ok.inj heq
    exact h.sealEnvelope hinverts htagged hdigest hwithin hseal
  | openEnvelope subject envelope unwrapper =>
    obtain ⟨_, heq⟩ := Py.of_rest hstep
    obtain rfl := Except.ok.inj heq
    exact h
  | destroy subject now steps =>
    obtain ⟨⟨found, plan⟩, hplan, heq⟩ := Py.of_bind hstep
    obtain rfl := Except.ok.inj heq
    exact h.destroy hwithin hplan

theorem vaultKey_ne_ok {subject : String} (hmem : tombstone ∈ vault.tombstones)
    (hreference : environment.reference subject = .ok tombstone.reference) (fresh : Option Bytes)
    (result : Bytes × List (String × Bytes)) :
    vaultKey environment vault subject fresh ≠ .ok result := by
  intro h
  obtain ⟨reference, hsame, -, hnone, -⟩ := vaultKey_eq_ok_iff.mp h
  obtain rfl := Except.ok.inj (hreference.symm.trans hsame)
  exact hnone tombstone hmem rfl

theorem Sound.destroy_again (h : Sound environment vault) {subject : String} (hmem : tombstone ∈ vault.tombstones)
    (hreference : environment.reference subject = .ok tombstone.reference) (now : String) :
    CertifiedErasure.destroy environment vault subject now =
      .ok ({ vault with keys := vault.keys.filter (·.1 ≠ tombstone.reference) }, tombstone) := by
  have hfind : vault.tombstones.find? (·.reference = tombstone.reference) = some tombstone := by
    cases hfound : vault.tombstones.find? (·.reference = tombstone.reference) with
    | none => exact absurd (List.find?_eq_none.mp hfound tombstone hmem) (by simp)
    | some other =>
      have hsame : other.reference = tombstone.reference := by simpa using List.find?_some hfound
      rw [List.inj_on_of_nodup_map h.unique (List.mem_of_find?_eq_some hfound) hmem hsame]
  unfold CertifiedErasure.destroy destroyPlan readTombstones
  rw [hreference, h.readable]
  simp [hfind, apply]

/-- Within its bounds, a destroyed subject stays closed and every other one can be opened. -/
theorem shredding_permanent_and_isolated (environment : Environment)
    (hinverts : environment.cipher.Inverts) (htagged : environment.cipher.Tagged)
    (hdigest : ∀ subject, (environment.digest subject).length = 64) (actions others : List Action)
    (h : Along (step environment) (Within environment) .empty (actions ++ others)) :
    let vault := run (step environment) .empty (actions ++ others)
    (∀ tombstone ∈ (run (step environment) .empty actions).tombstones, ∀ subject,
      environment.reference subject = .ok tombstone.reference → (∀ recordId plaintext wrapper random result,
          sealEnvelope environment vault subject recordId plaintext wrapper random ≠ .ok result) ∧
        (∀ envelope unwrapper result, openEnvelope environment vault subject envelope unwrapper ≠ .ok result) ∧
        ∀ now, destroy environment vault subject now =
          .ok ({ vault with keys := vault.keys.filter (·.1 ≠ tombstone.reference) }, tombstone)) ∧
    ∀ entry ∈ vault.envelopes, entry.subject ∉ vault.destroyed →
      (∀ subject ∈ vault.destroyed, environment.reference subject = environment.reference entry.subject →
        subject = entry.subject) →
      openEnvelope environment vault entry.subject entry.envelope (entry.wrapper.map Wrapper.unwrap) =
        .ok entry.plaintext := by
  intro vault
  have hsound : Sound environment vault := by
    refine run_invariant_along (fun state action next hstate hcondition hstep ↦
      hstate.step hinverts htagged hdigest hcondition hstep) ?_ h
    refine ⟨rfl, List.nodup_nil, ?_, ?_, ?_⟩ <;> simp [Vault.empty]
  constructor
  · intro tombstone hmem subject hreference
    have hstays : tombstone ∈ vault.tombstones := by
      have hstep : ∀ state action next, tombstone ∈ state.tombstones →
          step environment state action = .ok next → tombstone ∈ next.tombstones :=
        fun state action next hstate hnext ↦ mem_tombstones_step hstate hnext
      have hrun := run_invariant hstep hmem others
      rw [← run_append] at hrun
      exact hrun
    refine ⟨?_, ?_, fun now ↦ hsound.destroy_again hstays hreference now⟩
    · intro recordId plaintext wrapper random result hseal
      obtain ⟨_, hseal⟩ := Py.of_rest hseal
      obtain ⟨_, hseal⟩ := Py.of_rest hseal
      obtain ⟨key, hkey, -⟩ := Py.of_bind hseal
      exact vaultKey_ne_ok hstays hreference _ key hkey
    · intro envelope unwrapper result hopen
      obtain ⟨_, hopen⟩ := Py.of_rest hopen
      obtain ⟨_, hopen⟩ := Py.of_rest hopen
      obtain ⟨_, hopen⟩ := Py.of_rest hopen
      obtain ⟨_, hopen⟩ := Py.of_rest hopen
      obtain ⟨key, hkey, -⟩ := Py.of_bind hopen
      exact vaultKey_ne_ok hstays hreference _ key hkey
  · intro entry hentry hdestroyed hcollision
    by_cases hlive : ∀ tombstone ∈ vault.tombstones, tombstone.reference ≠ entry.envelope.reference
    · obtain ⟨key, hkey, hopens⟩ := hsound.envelopes entry hentry hlive
      exact hopens.openEnvelope_eq hsound.readable hlive hkey
    · push Not at hlive
      obtain ⟨tombstone, hmem, heq⟩ := hlive
      obtain ⟨subject, hsubject, hreference⟩ := hsound.destroyed tombstone hmem
      have hsame : subject = entry.subject := by
        apply hcollision subject hsubject
        rw [hreference, hsound.references entry hentry, heq]
      exact absurd (hsame ▸ hsubject) hdestroyed

/-! ## A crowd of destroyed subjects -/

theorem length_le_of_readLoop {rows : List Tombstone} {total : ℕ} (hseen : seen ≤ maxRows)
    (h : readLoop rows total seen = .ok ()) : seen + rows.length ≤ maxRows := by
  induction rows generalizing total seen with
  | nil => exact hseen
  | cons row rows ih =>
    rw [readLoop] at h
    split_ifs at h with htotal hrow
    rw [not_or, not_le] at hrow
    have hrest := ih hrow.1 h
    rw [List.length_cons]
    omega

theorem readLoop_of_small {rows : List Tombstone} {bound total : ℕ} (hbound : bound ≤ maxBytes)
    (hsize : ∀ row ∈ rows, row.size ≤ bound) (htotal : total + rows.length * bound ≤ 64 * maxBytes)
    (hseen : seen + rows.length ≤ maxRows) : readLoop rows total seen = .ok () := by
  induction rows generalizing total seen with
  | nil => rfl
  | cons row rows ih =>
    rw [List.forall_mem_cons] at hsize
    rw [List.length_cons, Nat.succ_mul] at htotal
    rw [List.length_cons] at hseen
    rw [readLoop, if_neg (by omega), if_neg (by omega)]
    apply ih hsize.2
    · omega
    · omega

namespace Sample

def cipher : Cipher where
  encrypt _ _ text _ := text.toByteArray.data.toList ++ List.replicate 16 0
  decrypt _ _ data _ := String.fromUTF8? ⟨(data.take (data.length - 16)).toArray⟩

theorem cipher_inverts : cipher.Inverts := by
  intro key nonce text aad
  have htake : (text.toByteArray.data.toList ++ List.replicate 16 (0 : UInt8)).take
      ((text.toByteArray.data.toList ++ List.replicate 16 (0 : UInt8)).length - 16) =
        text.toByteArray.data.toList := by
    rw [List.length_append, List.length_replicate, Nat.add_sub_cancel, List.take_left']
    rfl
  have hvalid : text.toByteArray.IsValidUTF8 := text.isValidUTF8
  dsimp only [cipher]
  rw [htake, Array.toArray_toList]
  exact dif_pos hvalid

theorem cipher_tagged : cipher.Tagged := by
  intro key nonce text aad
  dsimp only [cipher]
  rw [List.length_append, List.length_replicate, Array.length_toList]
  rfl

def vaults : Environment where
  cipher := cipher
  digest subject := String.ofList ((subject.toList ++ List.replicate 64 'a').take 64)

theorem length_digest (subject : String) : (vaults.digest subject).length = 64 := by
  dsimp only [vaults]
  rw [String.length_ofList, List.length_take, List.length_append, List.length_replicate]
  omega

def random : Randomness where
  key := List.replicate 32 0
  dek := List.replicate 32 0
  nonce := List.replicate 12 0
  wrapNonce := List.replicate 12 0
  key_length := List.length_replicate
  dek_length := List.length_replicate
  nonce_length := List.length_replicate
  wrapNonce_length := List.length_replicate

def now : String := "2026-01-01T00:00:00+00:00"

theorem size_le (subject : String) : (Tombstone.mk (vaults.digest subject) now).size ≤ 600 := by
  have hquote := quote_le_length (vaults.digest subject)
  have hlength := Json.length_encode_obj .spaced (List.cons_ne_nil ("reference", .str (vaults.digest subject))
    [("destroyed_at", .str now), ("kind", .str "filesystem-vault-key-destruction")])
  have hnow : (Json.quote now).length = 27 := by decide
  have hkind : (Json.quote "filesystem-vault-key-destruction").length = 34 := by decide
  have hkeys : (Json.quote "reference").length = 11 ∧ (Json.quote "destroyed_at").length = 14 ∧
    (Json.quote "kind").length = 6 := by decide
  have hstr : ∀ text, Json.encode .spaced (.str text) = Json.quote text := fun text ↦ rfl
  have hstyle : Json.Style.spaced.item.length = 2 ∧ Json.Style.spaced.key.length = 2 := ⟨rfl, rfl⟩
  simp only [List.map_cons, List.map_nil, List.sum_cons, List.sum_nil, Json.fieldLength, hstr] at hlength
  rw [length_digest] at hquote
  unfold Tombstone.size dumps Tombstone.row
  dsimp only
  omega

theorem additional_wirable (subject : String) :
    Wirable (.obj [("reference", .str (vaults.digest subject)), ("record_id", .str "r")]) := by
  apply wirable_of_size
  · simp [Json.Everywhere, Json.EverywhereFields, Plain]
  · have hquote := quote_le_length (vaults.digest subject)
    have hrecord : (Json.quote "r").length = 3 := by decide
    have hkeys : (Json.quote "reference").length = 11 ∧ (Json.quote "record_id").length = 11 := by decide
    have hsize := size_obj_eq (List.cons_ne_nil ("reference", Json.str (vaults.digest subject))
      [("record_id", .str "r")])
    simp only [List.map_cons, List.map_nil, List.sum_cons, List.sum_nil] at hsize
    have hstr : ∀ text, size (.str text) = (Json.quote text).length := fun text ↦ rfl
    rw [hstr, hstr] at hsize
    rw [length_digest] at hquote
    unfold maxNodes
    omega

def subject (i : ℕ) : String := String.singleton (Char.ofNat (65_536 + i))

variable {i : ℕ}

theorem toNat_char (h : i ≤ maxRows) : (Char.ofNat (65_536 + i)).toNat = 65_536 + i := by
  unfold maxRows at h
  have hvalid : Nat.isValidChar (65_536 + i) := Or.inr ⟨by omega, by omega⟩
  rw [Char.ofNat, dif_pos hvalid]
  rfl

theorem subject_inj {j : ℕ} (hi : i ≤ maxRows) (hj : j ≤ maxRows)
    (h : vaults.digest (subject i) = vaults.digest (subject j)) : i = j := by
  have hfirst : ∀ k, (vaults.digest (subject k)).toList.head? = some (Char.ofNat (65_536 + k)) := by
    intro k
    simp [vaults, subject]
  have hchar := (hfirst i).symm.trans (congrArg (·.toList.head?) h |>.trans (hfirst j))
  have hnat := congrArg (Option.map Char.toNat) hchar
  rw [Option.map_some, Option.map_some, toNat_char hi, toNat_char hj] at hnat
  have := Option.some.inj hnat
  omega

theorem digest_ne_kept (h : i ≤ maxRows) : vaults.digest (subject i) ≠ vaults.digest "kept" := by
  intro heq
  have hfirst : (vaults.digest (subject i)).toList.head? = some (Char.ofNat (65_536 + i)) := by
    simp [vaults, subject]
  rw [heq] at hfirst
  have hkept : (vaults.digest "kept").toList.head? = some 'k' := by decide
  have hnat := congrArg (Option.map Char.toNat) (hkept.symm.trans hfirst)
  rw [Option.map_some, Option.map_some, toNat_char h] at hnat
  have hcode := Option.some.inj hnat
  have hsmall : 'k'.toNat = 107 := rfl
  omega

theorem reference_subject (h : i ≤ maxRows) :
    vaults.reference (subject i) = .ok (vaults.digest (subject i)) := by
  have htext : text (subject i) "subject" 1024 = .ok (subject i) := by
    apply text_eq_ok_iff.mpr
    have hsize := Char.utf8Size_le_four (Char.ofNat (65_536 + i))
    refine ⟨?_, rfl⟩
    rintro (hempty | hlong | hbytes | hzero)
    · simp [subject] at hempty
    · simp [subject] at hlong
    · rw [subject, String.utf8ByteSize_singleton] at hbytes
      omega
    · rw [subject, String.toList_singleton, List.mem_singleton] at hzero
      have hnat := congrArg Char.toNat hzero
      rw [toNat_char h] at hnat
      have hcode : '\x00'.toNat = 0 := rfl
      omega
  unfold Environment.reference
  rw [htext]
  rfl

/-- One envelope that stays, and then one subject after another that is destroyed. -/
def crowd (n : ℕ) : List Action :=
  .sealEnvelope "kept" "r" "hello" none random :: (List.range n).flatMap fun i ↦
    [.sealEnvelope (subject i) "r" "hello" none random, .destroy (subject i) now 2]

/-- The vault after the crowd. -/
structure Crowded (n : ℕ) (entry : Sealed) (vault : Vault) : Prop where
  tombstones : vault.tombstones = (List.range n).map fun i ↦ ⟨vaults.digest (subject i), now⟩
  keys : vault.keys = [(vaults.digest "kept", random.key)]
  destroyed : vault.destroyed = (List.range n).map subject
  entry : entry ∈ vault.envelopes

variable {n : ℕ}

theorem Crowded.readable (h : Crowded n entry vault) (hn : n ≤ maxRows) :
    readLoop vault.tombstones 0 0 = .ok () := by
  rw [h.tombstones]
  have hsize : ∀ row ∈ (List.range n).map fun i ↦ Tombstone.mk (vaults.digest (subject i)) now, row.size ≤ 600 := by
    intro row hrow
    obtain ⟨i, -, rfl⟩ := List.mem_map.mp hrow
    exact size_le (subject i)
  apply readLoop_of_small (by decide) hsize
  · rw [List.length_map, List.length_range]
    unfold maxRows at hn
    unfold maxBytes
    omega
  · rw [List.length_map, List.length_range]
    omega

theorem Crowded.fresh (h : Crowded n entry vault) (hn : n ≤ maxRows) :
    ∀ tombstone ∈ vault.tombstones, tombstone.reference ≠ vaults.digest (subject n) := by
  rw [h.tombstones]
  intro tombstone hmem
  obtain ⟨i, hi, rfl⟩ := List.mem_map.mp hmem
  rw [List.mem_range] at hi
  intro heq
  have hsame := subject_inj (by omega) hn heq
  omega

theorem perform_seal {vault : Vault} {name : String} (hname : vaults.reference name = .ok (vaults.digest name))
    (hreadable : readLoop vault.tombstones 0 0 = .ok ())
    (hfresh : ∀ tombstone ∈ vault.tombstones, tombstone.reference ≠ vaults.digest name)
    (hkey : vault.keys.lookup (vaults.digest name) = none) :
    ∃ entry : Sealed, entry.subject = name ∧ entry.plaintext = "hello" ∧ entry.wrapper = none ∧
      perform (step vaults) vault (.sealEnvelope name "r" "hello" none random) = { vault with
          keys := assign (vaults.digest name) random.key vault.keys
          envelopes := vault.envelopes ++ [entry] } := by
  have hcreate : createKey vault.keys (vaults.digest name) (some random.key) =
      assign (vaults.digest name) random.key vault.keys := by
    unfold createKey
    rw [hkey]
  have hvault : vaultKey vaults vault name (some random.key) =
      .ok (random.key, assign (vaults.digest name) random.key vault.keys) := by
    refine vaultKey_eq_ok_iff.mpr ⟨_, hname, hreadable, hfresh, hcreate.symm, ?_, random.key_length⟩
    rw [lookup_assign, if_pos rfl]
  have hrecord : text "r" "identifier" 512 = .ok "r" := by decide +kernel
  have hplain : text "hello" "subject content" 64_000 = .ok "hello" := by decide +kernel
  refine ⟨⟨name, "hello", none, envelope vaults.cipher random.key (vaults.digest name) "r" "hello"
    (canonicalBytes (.obj [("reference", .str (vaults.digest name)), ("record_id", .str "r")])) none random⟩,
    rfl, rfl, rfl, ?_⟩
  apply perform_eq_of_ok
  dsimp only [step]
  unfold sealEnvelope additional
  rw [hrecord, hplain, hvault, hname]
  simp [(additional_wirable name).wire_eq]

theorem Crowded.next {n : ℕ} {entry : Sealed} {vault : Vault} (h : Crowded n entry vault) (hn : n ≤ maxRows) :
    Crowded (n + 1) entry (run (step vaults) vault
      [.sealEnvelope (subject n) "r" "hello" none random, .destroy (subject n) now 2]) := by
  have hname := reference_subject hn
  have hlookup : vault.keys.lookup (vaults.digest (subject n)) = none := by
    rw [h.keys, List.lookup_cons, beq_eq_false_iff_ne.mpr (digest_ne_kept hn), List.lookup_nil]
  obtain ⟨added, -, -, -, hseal⟩ := perform_seal hname (h.readable hn) (h.fresh hn) hlookup
  have hdestroy : ∀ middle : Vault, middle.tombstones = vault.tombstones →
      middle.keys.lookup (vaults.digest (subject n)) = some random.key →
      perform (step vaults) middle (.destroy (subject n) now 2) =
        apply (apply middle (.append (subject n) ⟨vaults.digest (subject n), now⟩))
          (.unlink (vaults.digest (subject n))) := by
    intro middle htombstones hkey
    have hfind : middle.tombstones.find? (·.reference = vaults.digest (subject n)) = none := by
      rw [List.find?_eq_none, htombstones]
      intro tombstone hmem
      simpa using h.fresh hn tombstone hmem
    have hreadable := h.readable hn
    rw [← htombstones] at hreadable
    apply perform_eq_of_ok
    dsimp only [step]
    unfold destroyPlan readTombstones
    rw [hname, hreadable]
    simp [hfind, hkey, interrupt]
  have hassign : assign (vaults.digest (subject n)) random.key vault.keys =
      [(vaults.digest "kept", random.key), (vaults.digest (subject n), random.key)] := by
    rw [h.keys]
    simp [assign, (digest_ne_kept hn).symm]
  have hcreated : (assign (vaults.digest (subject n)) random.key vault.keys).lookup (vaults.digest (subject n)) =
      some random.key := by
    rw [lookup_assign, if_pos rfl]
  rw [run_cons, run_cons, run_nil, hseal, hdestroy { vault with
      keys := assign (vaults.digest (subject n)) random.key vault.keys
      envelopes := vault.envelopes ++ [added] } rfl hcreated, hassign]
  refine ⟨?_, ?_, ?_, List.mem_append_left _ h.entry⟩
  · dsimp only [apply]
    rw [h.tombstones, List.range_succ, List.map_append, List.map_singleton]
  · dsimp only [apply]
    rw [List.filter_cons_of_pos (by simpa using (digest_ne_kept hn).symm), List.filter_cons_of_neg (by simp),
      List.filter_nil]
  · dsimp only [apply]
    rw [h.destroyed, List.range_succ, List.map_append, List.map_singleton]

theorem exists_crowded (n : ℕ) (hn : n ≤ maxRows + 1) : ∃ entry : Sealed, entry.subject = "kept" ∧
    entry.plaintext = "hello" ∧ entry.wrapper = none ∧ Crowded n entry (run (step vaults) .empty (crowd n)) := by
  induction n with
  | zero =>
    have hname : vaults.reference "kept" = .ok (vaults.digest "kept") := by decide +kernel
    obtain ⟨entry, hsubject, hplaintext, hwrapper, hseal⟩ :=
      @perform_seal Vault.empty "kept" hname rfl (by simp [Vault.empty]) rfl
    refine ⟨entry, hsubject, hplaintext, hwrapper, ?_⟩
    change Crowded 0 entry (perform (step vaults) .empty (.sealEnvelope "kept" "r" "hello" none random))
    rw [hseal]
    exact ⟨rfl, rfl, rfl, List.mem_append_right _ List.mem_cons_self⟩
  | succ n ih =>
    obtain ⟨entry, hsubject, hplaintext, hwrapper, hcrowded⟩ := ih (by omega)
    refine ⟨entry, hsubject, hplaintext, hwrapper, ?_⟩
    have hsplit : crowd (n + 1) = crowd n ++
        [.sealEnvelope (subject n) "r" "hello" none random, .destroy (subject n) now 2] := by
      simp [crowd, List.range_succ]
    rw [hsplit, run_append]
    exact hcrowded.next (by omega)

end Sample

/-- After more destroyed subjects than the file may have rows, another subject cannot be opened. -/
theorem kept_closed_by_crowd : Sample.vaults.cipher.Inverts ∧
    ∃ entry ∈ (run (step Sample.vaults) .empty (Sample.crowd (maxRows + 1))).envelopes, entry.subject = "kept" ∧
      "kept" ∉ (run (step Sample.vaults) .empty (Sample.crowd (maxRows + 1))).destroyed ∧
      ∀ text, openEnvelope Sample.vaults (run (step Sample.vaults) .empty (Sample.crowd (maxRows + 1))) "kept"
        entry.envelope none ≠ .ok text := by
  obtain ⟨entry, hsubject, -, -, hcrowded⟩ := Sample.exists_crowded (maxRows + 1) le_rfl
  refine ⟨Sample.cipher_inverts, entry, hcrowded.entry, hsubject, ?_, ?_⟩
  · rw [hcrowded.destroyed]
    intro hmem
    obtain ⟨i, -, heq⟩ := List.mem_map.mp hmem
    have hlength := congrArg String.length heq
    rw [Sample.subject, String.length_singleton] at hlength
    exact absurd hlength (by decide)
  · intro text hopen
    obtain ⟨_, hopen⟩ := Py.of_rest hopen
    obtain ⟨_, hopen⟩ := Py.of_rest hopen
    obtain ⟨_, hopen⟩ := Py.of_rest hopen
    obtain ⟨_, hopen⟩ := Py.of_rest hopen
    obtain ⟨key, hkey, -⟩ := Py.of_bind hopen
    obtain ⟨_, -, hreadable, -⟩ := vaultKey_eq_ok_iff.mp hkey
    have hrows := length_le_of_readLoop (Nat.zero_le _) hreadable
    rw [hcrowded.tombstones, List.length_map, List.length_range] at hrows
    omega

theorem Sample.along_crowd_one : Along (step Sample.vaults) (Within Sample.vaults) .empty (Sample.crowd 1 ++ []) := by
  have hcrowd : Sample.crowd 1 ++ [] = [.sealEnvelope "kept" "r" "hello" none Sample.random,
      .sealEnvelope (Sample.subject 0) "r" "hello" none Sample.random,
      .destroy (Sample.subject 0) Sample.now 2] := rfl
  have hnone : (run (step Sample.vaults) .empty [.sealEnvelope "kept" "r" "hello" none Sample.random,
      .sealEnvelope (Sample.subject 0) "r" "hello" none Sample.random]).tombstones = [] := by decide +kernel
  rw [hcrowd]
  refine ⟨?_, ?_, ?_, trivial⟩
  · rintro _ - hwrapper
    cases hwrapper
  · rintro _ - hwrapper
    cases hwrapper
  · intro reference hreference _
    change readLoop ((run (step Sample.vaults) .empty [.sealEnvelope "kept" "r" "hello" none Sample.random,
      .sealEnvelope (Sample.subject 0) "r" "hello" none Sample.random]).tombstones ++ _) 0 0 = _
    rw [Sample.reference_subject (Nat.zero_le _)] at hreference
    obtain rfl := Except.ok.inj hreference
    rw [hnone]
    have hsize := Sample.size_le (Sample.subject 0)
    apply readLoop_of_small (show 600 ≤ maxBytes by decide)
    · simpa using hsize
    · simp [maxBytes]
    · simp [maxRows]

/-- One destroyed subject closes no other. -/
theorem shredding_permanent_and_isolated_one :
    (∀ result, sealEnvelope Sample.vaults (run (step Sample.vaults) .empty (Sample.crowd 1 ++ []))
      (Sample.subject 0) "r" "hello" none Sample.random ≠ .ok result) ∧
    ∃ entry ∈ (run (step Sample.vaults) .empty (Sample.crowd 1 ++ [])).envelopes, entry.subject = "kept" ∧
      openEnvelope Sample.vaults (run (step Sample.vaults) .empty (Sample.crowd 1 ++ [])) "kept" entry.envelope
        none = .ok "hello" := by
  obtain ⟨entry, hsubject, hplaintext, hwrapper, hcrowded⟩ := Sample.exists_crowded 1 (by decide)
  obtain ⟨hpermanent, hisolated⟩ := shredding_permanent_and_isolated Sample.vaults Sample.cipher_inverts
    Sample.cipher_tagged Sample.length_digest (Sample.crowd 1) [] Sample.along_crowd_one
  rw [List.append_nil] at hpermanent hisolated ⊢
  constructor
  · have hmem : Tombstone.mk (Sample.vaults.digest (Sample.subject 0)) Sample.now ∈
        (run (step Sample.vaults) .empty (Sample.crowd 1)).tombstones := by
      rw [hcrowded.tombstones]
      exact List.mem_cons_self
    exact (hpermanent _ hmem _ (Sample.reference_subject (Nat.zero_le _))).1 "r" "hello" none Sample.random
  · refine ⟨entry, hcrowded.entry, hsubject, ?_⟩
    have hopen := hisolated entry hcrowded.entry
    rw [hsubject, hplaintext, hwrapper, hcrowded.destroyed] at hopen
    refine hopen (by decide +kernel) ?_
    intro name hname hreference
    obtain rfl : name = Sample.subject 0 := by simpa using hname
    rw [Sample.reference_subject (Nat.zero_le _)] at hreference
    exact absurd hreference (by decide +kernel)

end UniMem.CertifiedErasure
