import UniMem.Capabilities.Verification
import UniMem.FrontierProtocol.Sizes

/-!
# Issued tokens are accepted

What `attenuate` signs and what `verify` checks agree. A token from `grant` and `attenuate` is accepted while it is
current, unless it exceeds the bound that `grant` does not check.
-/

namespace UniMem.Capabilities

open Library FrontierProtocol MeshCrdt

variable {crypto : Crypto} {calendar : Calendar} {pins : Pins}

theorem fromHex_digits {high low : Char} {chars : List Char} {byte : UInt8} {rest : Bytes}
    (hspace : isSpace high = false) {first second : ℕ} (hhigh : MeshCrdt.hexValue high = some first)
    (hlow : MeshCrdt.hexValue low = some second) (hbyte : UInt8.ofNat (16 * first + second) = byte)
    (hrest : MeshCrdt.fromHex chars = some rest) : MeshCrdt.fromHex (high :: low :: chars) = some (byte :: rest) := by
  rw [MeshCrdt.fromHex, hspace, hhigh, hlow, hrest, ← hbyte]
  rfl

/-- A hexadecimal digit as a character. -/
def hexChar (value : ℕ) : Char := Char.ofNat (Json.hexDigit value).toNat

theorem hexChar_spec : ∀ value < 16, MeshCrdt.hexValue (hexChar value) = some value ∧
    isSpace (hexChar value) = false ∧ (hexChar value).toNat < 128 := by
  decide +kernel

theorem toList_hex_cons (byte : UInt8) (bytes : Bytes) :
    (hex (byte :: bytes)).toList = hexChar (byte.toNat / 16) :: hexChar (byte.toNat % 16) :: (hex bytes).toList := by
  simp [hex, hexChar]

theorem fromHex_hex (bytes : Bytes) : MeshCrdt.fromHex (hex bytes).toList = some bytes := by
  induction bytes with
  | nil => simp [hex, MeshCrdt.fromHex]
  | cons byte bytes ih =>
    have hbyte : byte.toNat < 256 := byte.toNat_lt
    have hhigh := hexChar_spec (byte.toNat / 16) (by omega)
    have hlow := hexChar_spec (byte.toNat % 16) (by omega)
    rw [toList_hex_cons]
    refine fromHex_digits hhigh.2.1 hhigh.1 hlow.1 ?_ ih
    rw [Nat.div_add_mod]
    exact UInt8.ofNat_toNat

theorem length_hex (bytes : Bytes) : (hex bytes).length = 2 * bytes.length := by
  rw [← String.length_toList]
  induction bytes with
  | nil => rfl
  | cons byte bytes ih =>
    rw [toList_hex_cons, List.length_cons, List.length_cons, ih, List.length_cons]
    omega

theorem ascii_hex (bytes : Bytes) : (hex bytes).toList.all (·.toNat < 128) = true := by
  induction bytes with
  | nil => rfl
  | cons byte bytes ih =>
    have hbyte : byte.toNat < 256 := byte.toNat_lt
    have hhigh := hexChar_spec (byte.toNat / 16) (by omega)
    have hlow := hexChar_spec (byte.toNat % 16) (by omega)
    rw [toList_hex_cons, List.all_cons, List.all_cons, ih]
    simp [hhigh.2.2, hlow.2.2]

/-- The key under which a verifier checks what a key has signed. -/
def verificationKey (crypto : Crypto) (algorithm : String) (key : Bytes) : Bytes :=
  if algorithm = "hmac-sha256" then key else crypto.ed25519PublicBytes key

variable {signature now : String} {key : Bytes} {stamp : ℤ} {caveats root own : Json} {rules wide : Policy}
  {parent : Link}

theorem verifySignature_sign (hcorrect : crypto.Correct) {algorithm : String} {data : Bytes}
    (h : sign crypto algorithm key data = .ok signature) :
    verifySignature crypto algorithm (verificationKey crypto algorithm key) data (.str signature) = .ok () := by
  have hsign := h
  simp only [sign, Py.bind_eq_ok_iff, Py.require_eq_ok_iff, decide_eq_true_eq, Py.pure_eq_ok, Except.ok.injEq] at h
  obtain ⟨_, ⟨halgorithm, hlength⟩, hsignature⟩ := h
  by_cases hhmac : algorithm = "hmac-sha256"
  · rw [if_pos hhmac] at hsignature
    obtain ⟨raw, hraw, hhex⟩ := hcorrect.hmac_hex key data
    have hsize : signature.length = 64 := by rw [← hsignature, hhex, length_hex, hraw]
    have hcompare : compareDigest signature signature = .ok true := by
      have hascii := ascii_hex raw
      rw [← hhex, hsignature] at hascii
      rw [compareDigest, List.all_append, hascii]
      simp
    simp [verifySignature, verificationKey, hhmac, hlength, hsize, hhmac ▸ hsign, hhmac ▸ halgorithm, hcompare]
  · rw [if_neg hhmac] at hsignature
    have hraw : MeshCrdt.fromHex signature.toList = some (crypto.ed25519RawSign key data) := by
      rw [← hsignature, fromHex_hex]
    simp [verifySignature, verificationKey, hhmac, halgorithm, hcorrect.public_length key hlength, hraw,
      hcorrect.ed25519_verify]

/-- `_prefix`. -/
def firstLinks (token : Json) (count : ℕ) : Json :=
  match token with
  | .obj fields =>
    match fields.lookup "links" with
    | some (.arr nodes) =>
      .obj [("version", .int 1), ("algorithm", (fields.lookup "algorithm").getD .null),
        ("links", .arr (nodes.take count))]
    | _ => token
  | _ => token

theorem node_of_readLink {node : Json} {link : Link} (h : readLink node = .ok link) :
    link.node = node := by
  cases node with
  | obj fields =>
    obtain ⟨_, h⟩ := Py.of_rest h
    obtain ⟨record, -, h⟩ := Py.of_bind h
    split at h
    · simp only [Py.bind_eq_ok_iff, Py.pure_eq_ok, Except.ok.injEq] at h
      obtain ⟨_, _, _, _, rfl⟩ := h
      rfl
    · cases h
  | _ => cases h

variable {links : List Link} {revoked : List String}

theorem map_node_of_collect {nodes : List Json} (h : Py.collect (Py.always readLink) nodes = .ok links) :
    links.map Link.node = nodes := by
  have hforall := Py.collect_always_eq_ok_iff.mp h
  clear h
  induction hforall with
  | nil => rfl
  | cons hlink _ ih => rw [List.map_cons, node_of_readLink hlink, ih]

variable {token : Json} {chain : Token}

theorem WellFormed.firstLinks_eq (h : WellFormed token chain) (count : ℕ) :
    firstLinks token count = envelope chain.algorithm ((chain.links.take count).map Link.node) := by
  obtain ⟨fields, nodes, rfl, -, -, halgorithm, hlinks, -, -, hnodes⟩ := h.fields
  simp only [firstLinks, hlinks, halgorithm, Option.getD_some, envelope]
  rw [List.map_take, map_node_of_collect hnodes]

theorem WellFormed.noLarger (h : WellFormed token chain) (count : ℕ) :
    NoLarger (firstLinks token count) token := by
  obtain ⟨fields, nodes, rfl, hkeys, hversion, halgorithm, hlinks, -, -, hnodes⟩ := h.fields
  have hperm := perm_of_keys hkeys (by decide)
  simp only [List.map_cons, List.map_nil, hversion, halgorithm, hlinks, Option.getD_some] at hperm
  refine NoLarger.trans ?_ (NoLarger.obj_fields hperm.symm.subperm)
  simp only [firstLinks, hlinks, halgorithm, Option.getD_some]
  refine NoLarger.obj (.cons ⟨rfl, .refl _⟩ (.cons ⟨rfl, .refl _⟩ (.cons ⟨rfl, ?_⟩ .nil)))
  exact NoLarger.arr (List.take_sublist _ _).subperm

theorem WellFormed.take (h : WellFormed token chain) {count : ℕ} (hcount : 1 ≤ count) :
    WellFormed (firstLinks token count) ⟨chain.algorithm, chain.links.take count⟩ := by
  have hsmall := h.noLarger count
  have hlength := h.length_le
  rw [length_canonicalBytes] at hlength
  obtain ⟨fields, nodes, rfl, -, -, halgorithm, hlinks, hone, hmax, hnodes⟩ := h.fields
  refine ⟨⟨[("version", .int 1), ("algorithm", .str chain.algorithm),
    ("links", .arr (nodes.take count))], nodes.take count, ?_, List.Perm.refl _, rfl, rfl, rfl, ?_, ?_,
    ?_⟩, h.algorithm_mem, h.wirable.of_noLarger hsmall, ?_⟩
  · simp only [firstLinks, hlinks, halgorithm, Option.getD_some]
  · rw [List.length_take]
    omega
  · rw [List.length_take]
    omega
  · have hforall := Py.collect_always_eq_ok_iff.mp hnodes
    exact Py.collect_always_eq_ok_iff.mpr (List.forall₂_take count hforall)
  · rw [length_canonicalBytes]
    exact hsmall.size_le.trans hlength

theorem verify_returns_iff :
    (∃ verified, verify crypto calendar pins token now revoked = .ok verified) ↔
      ∃ chain root rest stamp ids, readToken token = .ok chain ∧
        chain.algorithm = pins.algorithm ∧ chain.links = root :: rest ∧
        verifyRoot crypto calendar pins root now = .ok stamp ∧
        verifyLinks crypto calendar pins stamp revoked [] chain.links = .ok ids := by
  constructor
  · rintro ⟨verified, h⟩
    obtain ⟨chain, root, rest, stamp, leaf, caveats, hchain, halgorithm, hcons, hroot, hlinks, -⟩ :=
      verify_eq_ok h
    exact ⟨chain, root, rest, stamp, _, hchain, halgorithm, hcons, hroot, hlinks⟩
  · rintro ⟨chain, root, rest, stamp, ids, hchain, halgorithm, hcons, hroot, hlinks⟩
    have hwellFormed := readToken_eq_ok_iff.mp hchain
    obtain ⟨leaf, hleaf⟩ : ∃ leaf, chain.links.getLast? = some leaf := by
      rw [hcons]
      exact ⟨_, List.getLast?_eq_some_getLast (List.cons_ne_nil _ _)⟩
    obtain ⟨caveats, rules, hcaveats, hrules⟩ : ∃ caveats rules,
        leaf.record.lookup "caveats" = some caveats ∧ policy calendar caveats = .ok rules := by
      obtain ⟨before, hbefore⟩ := List.getLast?_eq_some_iff.mp hleaf
      rw [hbefore] at hlinks
      obtain ⟨_, _, -, hlast, -⟩ := verifyLinks_append_eq_ok_iff.mp hlinks
      simp only [verifyLinks, verifyLink, Py.bind_eq_ok_iff, field_eq_ok_iff] at hlast
      obtain ⟨_, ⟨caveats, hcaveats, rules, hrules, -⟩, -⟩ := hlast
      exact ⟨caveats, rules, hcaveats, hrules⟩
    have hdigest := digest_eq_ok_iff.mpr ⟨hwellFormed.wirable, Eq.refl (crypto.sha256 (canonicalBytes token))⟩
    rw [hcons] at hlinks hleaf
    refine ⟨⟨pins.tenant, pins.issuer, rules, ids, crypto.sha256 (canonicalBytes token)⟩, ?_⟩
    simp only [verify, hchain, Py.bind_ok, halgorithm, decide_true, Py.require_true, hcons, hroot,
      hlinks, lastLink_eq_ok_iff.mpr hleaf, field_eq_ok_iff.mpr hcaveats, hrules, hdigest, Py.pure_eq_ok]

theorem verify_firstLinks {verified : Verified} (h : verify crypto calendar pins token now revoked = .ok verified)
    {count : ℕ} (hcount : 1 ≤ count) :
    ∃ other, verify crypto calendar pins (firstLinks token count) now revoked = .ok other := by
  obtain ⟨chain, root, rest, stamp, ids, hchain, halgorithm, hcons, hroot, hlinks⟩ :=
    verify_returns_iff.mp ⟨verified, h⟩
  have hwellFormed := readToken_eq_ok_iff.mp hchain
  rw [← List.take_append_drop count chain.links] at hlinks
  obtain ⟨left, -, hleft, -, -⟩ := verifyLinks_append_eq_ok_iff.mp hlinks
  obtain ⟨previous, rfl⟩ : ∃ previous, count = previous + 1 := ⟨count - 1, by omega⟩
  refine verify_returns_iff.mpr ⟨_, root, rest.take previous, stamp, left,
    readToken_eq_ok_iff.mpr (hwellFormed.take hcount), halgorithm, ?_, hroot, hleft⟩
  rw [hcons, List.take_succ_cons]

theorem verify_of_revoked {count : ℕ} {id : String} (hchain : readToken token = .ok chain) (hcount : 1 ≤ count)
    (hlength : count ≤ chain.links.length) (hid : digest crypto.toRuntime (firstLinks token count) = .ok id)
    (hrevoked : id ∈ revoked) (verified : Verified) :
    verify crypto calendar pins token now revoked ≠ .ok verified := by
  intro h
  obtain ⟨found, root, rest, stamp, ids, hfound, halgorithm, hcons, hroot, hlinks⟩ :=
    verify_returns_iff.mp ⟨verified, h⟩
  obtain rfl : chain = found := Except.ok.inj (hchain.symm.trans hfound)
  have hwellFormed := readToken_eq_ok_iff.mp hchain
  rw [hwellFormed.firstLinks_eq, halgorithm] at hid
  obtain ⟨previous, rfl⟩ : ∃ previous, count = previous + 1 := ⟨count - 1, by omega⟩
  rw [← List.take_append_drop (previous + 1) chain.links] at hlinks
  obtain ⟨left, -, hleft, -, -⟩ := verifyLinks_append_eq_ok_iff.mp hlinks
  have hlast : chain.links.take (previous + 1) =
      chain.links.take previous ++ [chain.links[previous]] :=
    (List.take_append_getElem (by omega)).symm
  rw [hlast] at hleft hid
  obtain ⟨_, _, -, hnode, -⟩ := verifyLinks_append_eq_ok_iff.mp hleft
  simp only [verifyLinks, verifyLink, Py.bind_eq_ok_iff, List.nil_append, Py.require_eq_ok_iff,
    decide_eq_true_eq] at hnode
  obtain ⟨_, ⟨_, -, _, -, _, -, _, -, _, -, found, hfound, _, hnot, -⟩, -⟩ := hnode
  rw [hid, Except.ok.injEq] at hfound
  exact hnot (hfound ▸ hrevoked)

/-- A token that `grant` and `attenuate` have built, each link with the key of its parent's audience. -/
inductive Issued (crypto : Crypto) (calendar : Calendar) (pins : Pins) (root : Json) : Json → Prop
  | grant {caveats : Json} {nonce now : String} {key : Bytes}
      (key_eq : pins.key = verificationKey crypto pins.algorithm key)
      (granted : grant crypto calendar caveats pins.issuer pins.tenant nonce now pins.algorithm key =
        .ok root) : Issued crypto calendar pins root root
  | attenuate {token child caveats own : Json} {chain : Token} {parent : Link} {rules : Policy}
      {key : Bytes} (issued : Issued crypto calendar pins root token)
      (read : readToken token = .ok chain) (last : chain.links.getLast? = some parent)
      (own_eq : parent.record.lookup "caveats" = some own)
      (rules_eq : policy calendar own = .ok rules)
      (holder : pins.holderKey rules.audience = .ok (verificationKey crypto pins.algorithm key))
      (attenuated : attenuate crypto calendar token caveats key = .ok child) :
      Issued crypto calendar pins root child

/-- The bound that `_token` puts on the size of a token. -/
def Fits (token : Json) : Prop := Wirable token ∧ (canonicalBytes token).length ≤ maxToken

/-- The links of a token of any size. -/
def linksOf (token : Json) : List Link :=
  match token.get? "links" with
  | some (.arr nodes) => nodes.filterMap fun node ↦ (readLink node).toOption
  | _ => []

/-- A link that has not expired. -/
def Unexpired (calendar : Calendar) (stamp : ℤ) (link : Link) : Prop :=
  ∀ caveats rules expires, link.record.lookup "caveats" = some caveats →
    policy calendar caveats = .ok rules → instant calendar (.str rules.expiresAt) = .ok expires →
    stamp < expires

/-- A link that was issued at or before a time. -/
def IssuedBy (calendar : Calendar) (stamp : ℤ) (link : Link) : Prop :=
  ∀ value issued, link.record.lookup "issued_at" = some value →
    instant calendar value = .ok issued → issued ≤ stamp

/-- No digest of the first links is revoked. -/
def Unrevoked (crypto : Crypto) (algorithm : String) (revoked : List String) (links : List Link) :
    Prop :=
  ∀ count, 1 ≤ count → count ≤ links.length → ∀ id,
    digest crypto.toRuntime (envelope algorithm ((links.take count).map Link.node)) = .ok id →
    id ∉ revoked

/-- The link with a record and its signatures. -/
def linkOf (record : List (String × Json)) (signature authorization : String) : Link :=
  ⟨nodeOf record signature authorization, record, .str signature, .str authorization⟩

theorem isText_str (content : String) : Origin.isText (some (.str content)) content = true := by
  simp [Origin.isText]

theorem lookup_rootRecord (issuer tenant nonce issuedAt : String) (rules : Policy) :
    (rootRecord issuer tenant nonce issuedAt rules).lookup "type" = some (.str "unimem.capability.root.v1") ∧
      (rootRecord issuer tenant nonce issuedAt rules).lookup "issuer" = some (.str issuer) ∧
      (rootRecord issuer tenant nonce issuedAt rules).lookup "tenant" = some (.str tenant) ∧
      (rootRecord issuer tenant nonce issuedAt rules).lookup "nonce" = some (.str nonce) ∧
      (rootRecord issuer tenant nonce issuedAt rules).lookup "issued_at" = some (.str issuedAt) ∧
      (rootRecord issuer tenant nonce issuedAt rules).lookup "caveats" = some rules.toJson :=
  ⟨rfl, rfl, rfl, rfl, rfl, rfl⟩

theorem lookup_childRecord (parent : String) (rules : Policy) :
    (childRecord parent rules).lookup "type" = some (.str "unimem.capability.child.v1") ∧
      (childRecord parent rules).lookup "parent" = some (.str parent) ∧
      (childRecord parent rules).lookup "caveats" = some rules.toJson := ⟨rfl, rfl, rfl⟩

/-- What is kept about a token while it is issued. -/
structure Sound (crypto : Crypto) (calendar : Calendar) (pins : Pins) (root token : Json)
    (first : Link) (rest : List Link) : Prop where
  token_eq : token = envelope pins.algorithm ((first :: rest).map Link.node)
  links_eq : Py.collect (Py.always readLink) ((first :: rest).map Link.node) = .ok (first :: rest)
  algorithm_mem : pins.algorithm ∈ algorithms
  length_le : (first :: rest).length ≤ 16
  fits_root : Fits token → Fits root
  fits : Fits root → Fits token
  verifyRoot_eq : ∀ now stamp, instant calendar (.str now) = .ok stamp →
    IssuedBy calendar stamp first → verifyRoot crypto calendar pins first now = .ok stamp
  verifyLinks_eq : ∀ stamp revoked, Fits root →
    (∀ link ∈ first :: rest, Unexpired calendar stamp link) →
    Unrevoked crypto pins.algorithm revoked (first :: rest) →
    ∃ ids, verifyLinks crypto calendar pins stamp revoked [] (first :: rest) = .ok ids

theorem verifyLink_eq_ok (before : List Link) {node : Link} (hcalendar : calendar.RoundTrip)
    (hcaveats : node.record.lookup "caveats" = some caveats) (hrules : policy calendar caveats = .ok rules)
    (hunexpired : Unexpired calendar stamp node)
    (hparent : verifyParent crypto calendar pins before node rules = .ok ())
    (hfits : Fits (envelope pins.algorithm ((before ++ [node]).map Link.node)))
    (hunrevoked : Unrevoked crypto pins.algorithm revoked (before ++ [node])) :
    ∃ id, verifyLink crypto calendar pins stamp revoked before node = .ok id := by
  obtain ⟨expires, hexpires⟩ := exists_expiry hcalendar hrules
  have hdigest := digest_eq_ok_iff.mpr ⟨hfits.1, Eq.refl (crypto.sha256 (canonicalBytes _))⟩
  have hid : crypto.sha256 (canonicalBytes
      (envelope pins.algorithm ((before ++ [node]).map Link.node))) ∉ revoked := by
    refine hunrevoked (before ++ [node]).length (by simp) le_rfl _ ?_
    rw [List.take_length]
    exact hdigest
  refine ⟨crypto.sha256 (canonicalBytes (envelope pins.algorithm ((before ++ [node]).map Link.node))), ?_⟩
  simp only [verifyLink, field_eq_ok_iff.mpr hcaveats, Py.bind_ok, hrules, hexpires,
    hunexpired caveats rules expires hcaveats hrules hexpires, decide_true, Py.require_true, hparent,
    hdigest, hid, not_false_eq_true, Py.pure_eq_ok]

theorem sound_of_grant (hcorrect : crypto.Correct) (hcalendar : calendar.RoundTrip) {nonce : String}
    (hkey : pins.key = verificationKey crypto pins.algorithm key)
    (h : grant crypto calendar caveats pins.issuer pins.tenant nonce now pins.algorithm key = .ok root) :
    ∃ first, Sound crypto calendar pins root root first [] := by
  simp only [grant, Py.bind_eq_ok_iff, Py.require_eq_ok_iff, Py.pure_eq_ok, Except.ok.injEq] at h
  obtain ⟨rules, hrules, issued, hissued, expires, hexpires, valid, hvalid, _, hlifetime, issuer,
    hissuer, tenant, htenant, name, hname, data, hdata, signature, hsignature, rfl⟩ := h
  obtain ⟨heq, hissuer⟩ := label_of_label hissuer
  obtain rfl := Json.str.inj heq
  obtain ⟨heq, htenant⟩ := label_of_label htenant
  obtain rfl := Json.str.inj heq
  have hpolicy := policy_toJson hcalendar hrules
  have halgorithm : pins.algorithm ∈ algorithms := by
    simp only [sign, Py.bind_eq_ok_iff, Py.require_eq_ok_iff, decide_eq_true_eq] at hsignature
    obtain ⟨_, ⟨halgorithm, -⟩, -⟩ := hsignature
    exact halgorithm
  refine ⟨linkOf (rootRecord pins.issuer pins.tenant name (calendar.isoformat issued) rules) signature
    "", rfl, rfl, halgorithm, by simp, id, id, ?_, ?_⟩
  · intro now stamp hstamp hby
    have hagain := instant_isoformat hcalendar hissued
    have hle : issued ≤ stamp := hby _ issued rfl hagain
    have hverify := verifySignature_sign hcorrect hsignature
    rw [← hkey] at hverify
    have hfields : keysAre (rootRecord pins.issuer pins.tenant name (calendar.isoformat issued) rules)
        ["type", "issuer", "tenant", "nonce", "issued_at", "caveats"] = true :=
      keysAre_iff.mpr (List.Perm.refl _)
    have hlookups := lookup_rootRecord pins.issuer pins.tenant name (calendar.isoformat issued) rules
    simp only [verifyRoot, linkOf, hfields, hlookups, field, isText_str, Py.bind_ok, hagain, hstamp,
      hpolicy, hle, hexpires, hvalid, hlifetime, (label_of_label hname).2, hdata, hverify, Bool.and_self,
      decide_true, Py.require_true, Py.pure_eq_ok]
  · intro stamp revoked hfits hunexpired hunrevoked
    obtain ⟨id, hid⟩ := verifyLink_eq_ok [] hcalendar rfl hpolicy
      (hunexpired _ List.mem_cons_self) rfl hfits hunrevoked
    exact ⟨[id], by simp [verifyLinks, hid]⟩

theorem verifyChild_of_signLink (hcorrect : crypto.Correct) (hcalendar : calendar.RoundTrip)
    {parentDigest authorization : String} (halgorithm : pins.algorithm ∈ algorithms)
    (hlast : links.getLast? = some parent) (hown : parent.record.lookup "caveats" = some own)
    (hwide : policy calendar own = .ok wide) (hrules : policy calendar rules.toJson = .ok rules)
    (hnarrower : Narrower calendar rules wide)
    (hholder : pins.holderKey wide.audience = .ok (verificationKey crypto pins.algorithm key))
    (hdigest : digest crypto.toRuntime (envelope pins.algorithm (links.map Link.node)) = .ok parentDigest)
    (hsigned : signLink crypto pins.algorithm parent (childRecord parentDigest rules) key =
      .ok (signature, authorization)) :
    verifyChild crypto calendar pins links
      (linkOf (childRecord parentDigest rules) signature authorization) rules = .ok () := by
  have hfields : keysAre (childRecord parentDigest rules) ["type", "parent", "caveats"] = true :=
    keysAre_iff.mpr (List.Perm.refl _)
  have hlookups := lookup_childRecord parentDigest rules
  have hsubset : subset calendar wide.toJson rules.toJson = .ok () :=
    subset_eq_ok_iff.mpr ⟨wide, rules, policy_toJson hcalendar hwide, hrules, hnarrower⟩
  simp only [signLink, Py.bind_eq_ok_iff] at hsigned
  obtain ⟨data, hdata, hsigned⟩ := hsigned
  simp only [verifyChild, linkOf, hfields, hlookups, isText_str, Bool.and_self, Py.require_true,
    Py.bind_ok, hdigest, lastLink_eq_ok_iff.mpr hlast, field_eq_ok_iff.mpr hown, hwide, hsubset, hdata, hholder]
  by_cases hhmac : pins.algorithm = "hmac-sha256"
  · rw [if_pos hhmac] at hsigned ⊢
    simp only [Py.bind_eq_ok_iff, Py.pure_eq_ok, Except.ok.injEq, Prod.mk.injEq] at hsigned
    obtain ⟨previous, hprevious, found, hfound, holder, hmessage, other, hother, rfl, rfl⟩ := hsigned
    have hlink := verifySignature_sign hcorrect hfound
    have hauthorized := verifySignature_sign hcorrect hother
    rw [verificationKey, if_pos rfl] at hlink
    simp only [hprevious, Py.bind_ok, hhmac, hlink, hmessage, hauthorized]
  · have hother : pins.algorithm = "ed25519" := by
      simpa [algorithms, hhmac] using halgorithm
    rw [if_neg hhmac] at hsigned ⊢
    simp only [Py.bind_eq_ok_iff, Py.pure_eq_ok, Except.ok.injEq, Prod.mk.injEq] at hsigned
    obtain ⟨found, hfound, rfl, rfl⟩ := hsigned
    have hlink := verifySignature_sign hcorrect hfound
    rw [isText_str, Py.require_true, Py.bind_ok, hother]
    exact hlink

theorem withLinks_envelope (algorithm : String) (nodes others : List Json) :
    withLinks (envelope algorithm nodes) others = envelope algorithm others := rfl

theorem Sound.attenuate (hcorrect : crypto.Correct) (hcalendar : calendar.RoundTrip) {token child : Json}
    {first : Link} {rest : List Link} {chain : Token} (h : Sound crypto calendar pins root token first rest)
    (hchain : readToken token = .ok chain) (hlast : chain.links.getLast? = some parent)
    (hown : parent.record.lookup "caveats" = some own) (hwide : policy calendar own = .ok wide)
    (hholder : pins.holderKey wide.audience = .ok (verificationKey crypto pins.algorithm key))
    (hchild : attenuate crypto calendar token caveats key = .ok child) :
    ∃ link, Sound crypto calendar pins root child first (rest ++ [link]) := by
  have hwellFormed := readToken_eq_ok_iff.mp hchain
  have hroot : Fits root := h.fits_root ⟨hwellFormed.wirable, hwellFormed.length_le⟩
  have hlinks : chain.links = first :: rest := by
    obtain ⟨fields, nodes, hfields, -, -, -, hnodes, -, -, hcollect⟩ := hwellFormed.fields
    rw [h.token_eq, envelope, Json.obj.injEq] at hfields
    subst hfields
    cases hnodes
    exact Except.ok.inj (hcollect.symm.trans h.links_eq)
  have halgorithm : chain.algorithm = pins.algorithm := by
    obtain ⟨fields, nodes, hfields, -, -, hfound, -⟩ := hwellFormed.fields
    rw [h.token_eq, envelope, Json.obj.injEq] at hfields
    subst hfields
    have hsame : some (Json.str pins.algorithm) = some (.str chain.algorithm) := hfound
    exact (Json.str.inj (Option.some.inj hsame)).symm
  rw [hlinks] at hlast
  simp only [Capabilities.attenuate, hchain, Py.bind_ok, hlinks, lastLink_eq_ok_iff.mpr hlast,
    field_eq_ok_iff.mpr hown, Py.bind_eq_ok_iff, Py.require_eq_ok_iff, Py.pure_eq_ok,
    Except.ok.injEq, halgorithm, decide_eq_true_eq] at hchild
  obtain ⟨_, hdepth, rules, hrules, _, hsubset, parentDigest, hdigest, ⟨signature, authorization⟩,
    hsigned, extended, hextended, rfl⟩ := hchild
  obtain ⟨before, after, hbefore, hafter, hnarrower⟩ := subset_eq_ok_iff.mp hsubset
  obtain rfl : wide = before := Except.ok.inj (hwide.symm.trans hbefore)
  have hpolicy := policy_toJson hcalendar hrules
  obtain rfl : rules = after := Except.ok.inj (hpolicy.symm.trans hafter)
  have hnew : (first :: rest).map Link.node ++ [nodeOf (childRecord parentDigest rules) signature
      authorization] = (first :: (rest ++ [linkOf (childRecord parentDigest rules) signature
        authorization])).map Link.node := by
    simp [linkOf]
  rw [h.token_eq, withLinks_envelope, hnew] at hextended ⊢
  rw [h.token_eq] at hdigest
  have hfits : Fits (envelope pins.algorithm ((first :: (rest ++ [linkOf
      (childRecord parentDigest rules) signature authorization])).map Link.node)) :=
    ⟨(readToken_eq_ok_iff.mp hextended).wirable, (readToken_eq_ok_iff.mp hextended).length_le⟩
  refine ⟨linkOf (childRecord parentDigest rules) signature authorization, rfl, ?_, h.algorithm_mem,
    ?_, fun _ ↦ hroot, fun _ ↦ hfits, h.verifyRoot_eq, ?_⟩
  · rw [← hnew]
    refine Py.collect_always_eq_ok_iff.mpr ?_
    rw [← List.cons_append]
    exact List.rel_append (Py.collect_always_eq_ok_iff.mp h.links_eq) (.cons rfl .nil)
  · rw [← List.cons_append, List.length_append]
    simpa using hdepth
  · intro stamp revoked _ hunexpired hunrevoked
    rw [← List.cons_append] at hunexpired hunrevoked ⊢
    have hbefore : Unrevoked crypto pins.algorithm revoked (first :: rest) := by
      intro count hone hcount id hid
      refine hunrevoked count hone (hcount.trans (by simp)) id ?_
      rw [List.take_append_of_le_length hcount]
      exact hid
    obtain ⟨ids, hids⟩ := h.verifyLinks_eq stamp revoked hroot
      (fun link hlink ↦ hunexpired link (List.mem_append_left _ hlink)) hbefore
    have hparent := verifyChild_of_signLink hcorrect hcalendar h.algorithm_mem hlast hown hwide hpolicy
      hnarrower hholder hdigest hsigned
    obtain ⟨id, hid⟩ := verifyLink_eq_ok (first :: rest) hcalendar rfl hpolicy
      (hunexpired _ (by simp)) (by rw [verifyParent, if_neg (List.cons_ne_nil _ _)]; exact hparent)
      hfits hunrevoked
    refine ⟨ids ++ [id], verifyLinks_append_eq_ok_iff.mpr ⟨ids, [id], hids, ?_, rfl⟩⟩
    simp [verifyLinks, hid]

theorem Issued.sound (hcorrect : crypto.Correct) (hcalendar : calendar.RoundTrip) {token : Json}
    (h : Issued crypto calendar pins root token) :
    ∃ first rest, Sound crypto calendar pins root token first rest := by
  induction h with
  | grant hkey hgranted =>
    obtain ⟨first, hsound⟩ := sound_of_grant hcorrect hcalendar hkey hgranted
    exact ⟨first, [], hsound⟩
  | attenuate _ hread hlast hown hrules hholder hattenuated ih =>
    obtain ⟨first, rest, hsound⟩ := ih
    obtain ⟨link, hnext⟩ :=
      hsound.attenuate hcorrect hcalendar hread hlast hown hrules hholder hattenuated
    exact ⟨first, rest ++ [link], hnext⟩

theorem linksOf_envelope {nodes : List Json} (algorithm : String)
    (h : Py.collect (Py.always readLink) nodes = .ok links) :
    linksOf (envelope algorithm nodes) = links := by
  change nodes.filterMap (fun node ↦ (readLink node).toOption) = links
  have hforall := Py.collect_always_eq_ok_iff.mp h
  clear h
  induction hforall with
  | nil => rfl
  | cons hlink _ ih => rw [List.filterMap_cons, hlink, ih]; rfl

theorem WellFormed.linksOf_eq (h : WellFormed token chain) : linksOf token = chain.links := by
  obtain ⟨fields, nodes, rfl, -, -, -, hlinks, -, -, hnodes⟩ := h.fields
  have hget : (Json.obj fields).get? "links" = some (.arr nodes) := hlinks
  rw [linksOf, hget]
  exact linksOf_envelope "" hnodes

/-- A time at which an issued token is current, and a list of revoked chains without its first links. -/
structure Current (crypto : Crypto) (calendar : Calendar) (token : Json) (stamp : ℤ)
    (revoked : List String) : Prop where
  issued : ∀ link ∈ (linksOf token).head?, IssuedBy calendar stamp link
  unexpired : ∀ link ∈ linksOf token, Unexpired calendar stamp link
  unrevoked : ∀ count, 1 ≤ count → count ≤ (linksOf token).length → ∀ id,
    digest crypto.toRuntime (firstLinks token count) = .ok id → id ∉ revoked

theorem verify_of_issued (hcorrect : crypto.Correct) (hcalendar : calendar.RoundTrip)
    (h : Issued crypto calendar pins root token) (hfits : Fits root)
    (hstamp : instant calendar (.str now) = .ok stamp) (hcurrent : Current crypto calendar token stamp revoked) :
    ∃ verified, verify crypto calendar pins token now revoked = .ok verified := by
  obtain ⟨first, rest, hsound⟩ := h.sound hcorrect hcalendar
  have hlinks : linksOf token = first :: rest := by
    rw [hsound.token_eq]
    exact linksOf_envelope _ hsound.links_eq
  have hwellFormed : WellFormed token ⟨pins.algorithm, first :: rest⟩ := by
    have htoken := hsound.fits hfits
    refine ⟨⟨_, _, hsound.token_eq, List.Perm.refl _, rfl, rfl, rfl, ?_, ?_, hsound.links_eq⟩,
      hsound.algorithm_mem, htoken.1, htoken.2⟩
    · simp
    · rw [List.length_map]
      exact hsound.length_le
  have hunrevoked : Unrevoked crypto pins.algorithm revoked (first :: rest) := by
    intro count hone hcount id hid
    refine hcurrent.unrevoked count hone (hlinks ▸ hcount) id ?_
    rw [hwellFormed.firstLinks_eq]
    exact hid
  obtain ⟨ids, hids⟩ := hsound.verifyLinks_eq stamp revoked hfits (hlinks ▸ hcurrent.unexpired)
    hunrevoked
  refine verify_returns_iff.mpr ⟨_, first, rest, stamp, ids, readToken_eq_ok_iff.mpr hwellFormed, rfl,
    rfl, hsound.verifyRoot_eq now stamp hstamp ?_, hids⟩
  exact hcurrent.issued first (by rw [hlinks]; rfl)

end UniMem.Capabilities
