import UniMem.Capabilities.Attenuation
import UniMem.CapabilityIo.Quarantine

/-!
# Chains that were accepted

A chain that was accepted is accepted until its last link expires or one of its ids is revoked. So the check
of a row in the journal either returns or raises `PermissionError`.
-/

namespace UniMem.CapabilityIo

open Library FrontierProtocol Capabilities

variable {crypto : Crypto} {calendar : Calendar} {pins : Pins}

variable {revoked : List String} {links : List Link} {root link : Link} {other stamp' : ℤ} {config : Config}
  {token : Json} {tenantId later : String} {verified : Verified}

theorem verifyLinks_valid {stamp : ℤ} {before : List Link} {ids : List String}
    (h : verifyLinks crypto calendar pins stamp revoked before links = .ok ids) :
    (∀ link ∈ links, Unexpired calendar stamp link) ∧ ∀ id ∈ ids, id ∉ revoked := by
  induction links generalizing before ids with
  | nil =>
    obtain rfl := Except.ok.inj h
    simp
  | cons node rest ih =>
    rw [verifyLinks] at h
    obtain ⟨id, hid, h⟩ := Py.of_bind h
    obtain ⟨others, hothers, h⟩ := Py.of_bind h
    obtain rfl := Except.ok.inj h
    obtain ⟨hunexpired, hunrevoked⟩ := ih hothers
    simp only [verifyLink, Py.bind_eq_ok_iff, field_eq_ok_iff, Py.require_eq_ok_iff, decide_eq_true_eq] at hid
    obtain ⟨caveats, hcaveats, rules, hrules, expires, hexpires, _, hlater, _, -, chainId, -, _, hnew, heq⟩ := hid
    obtain rfl := Except.ok.inj heq
    rw [List.forall_mem_cons, List.forall_mem_cons]
    refine ⟨⟨?_, hunexpired⟩, hnew, hunrevoked⟩
    intro caveats' rules' expires' hcaveats' hrules' hexpires'
    obtain rfl := Option.some.inj (hcaveats.symm.trans hcaveats')
    obtain rfl := Except.ok.inj (hrules.symm.trans hrules')
    obtain rfl := Except.ok.inj (hexpires.symm.trans hexpires')
    exact hlater

theorem verifyLinks_later {stamp other : ℤ} {revoked revoked' : List String} {before links : List Link}
    {ids : List String} (h : verifyLinks crypto calendar pins stamp revoked before links = .ok ids) :
    (verifyLinks crypto calendar pins other revoked' before links = .ok ids ∨
      ∃ message, verifyLinks crypto calendar pins other revoked' before links = .error (.permissionError message)) ∧
    ((∀ link ∈ links, Unexpired calendar other link) → (∀ id ∈ ids, id ∉ revoked') →
      verifyLinks crypto calendar pins other revoked' before links = .ok ids) := by
  induction links generalizing before ids with
  | nil => exact ⟨Or.inl h, fun _ _ ↦ h⟩
  | cons node rest ih =>
    rw [verifyLinks] at h
    obtain ⟨id, hid, h⟩ := Py.of_bind h
    obtain ⟨others, hothers, h⟩ := Py.of_bind h
    obtain rfl := Except.ok.inj h
    obtain ⟨hrest, hgood⟩ := ih hothers
    simp only [verifyLink, Py.bind_eq_ok_iff, field_eq_ok_iff, Py.require_eq_ok_iff, decide_eq_true_eq] at hid
    obtain ⟨caveats, hcaveats, rules, hrules, expires, hexpires, _, -, _, hparent, chainId, hchain, _, -, heq⟩ := hid
    obtain rfl := Except.ok.inj heq
    have hlink : verifyLink crypto calendar pins other revoked' before node =
        (do Py.require (other < expires) (.permissionError "UniMem capability expired")
            Py.require (chainId ∉ revoked') (.permissionError "UniMem capability chain was revoked")
            return chainId) := by
      unfold verifyLink
      rw [field_eq_ok_iff.mpr hcaveats, Py.bind_ok, hrules, Py.bind_ok, hexpires, Py.bind_ok, hparent, hchain]
      rfl
    rw [verifyLinks, hlink]
    by_cases htime : other < expires
    · by_cases hrevoked : chainId ∈ revoked'
      · refine ⟨Or.inr ⟨_, by simp [htime, hrevoked]; rfl⟩, ?_⟩
        intro _ hids
        exact absurd hrevoked (hids chainId List.mem_cons_self)
      · simp only [htime, hrevoked, decide_true, not_false_eq_true, Py.require_true, Py.bind_ok, Py.pure_eq_ok]
        constructor
        · obtain hok | ⟨message, herror⟩ := hrest
          · exact Or.inl (by rw [hok]; rfl)
          · exact Or.inr ⟨message, by rw [herror]; rfl⟩
        · intro hunexpired hids
          rw [List.forall_mem_cons] at hunexpired hids
          rw [hgood hunexpired.2 hids.2]
          rfl
    · refine ⟨Or.inr ⟨_, by simp [htime]; rfl⟩, ?_⟩
      intro hunexpired _
      exact absurd (hunexpired node List.mem_cons_self caveats rules expires hcaveats hrules hexpires) htime

theorem verifyRoot_later {now now' : String} {stamp : ℤ}
    (h : verifyRoot crypto calendar pins root now = .ok stamp) (hnow : instant calendar (.str now') = .ok other)
    (hissued : IssuedBy calendar other root) :
    verifyRoot crypto calendar pins root now' = .ok other := by
  unfold verifyRoot at h ⊢
  obtain ⟨_, hfields, h⟩ := Py.of_bind h
  obtain ⟨value, hvalue, h⟩ := Py.of_bind h
  obtain ⟨issued, hinstant, h⟩ := Py.of_bind h
  obtain ⟨_, h⟩ := Py.of_rest h
  obtain ⟨caveats, hcaveats, h⟩ := Py.of_bind h
  obtain ⟨rules, hrules, h⟩ := Py.of_bind h
  obtain ⟨_, h⟩ := Py.of_rest h
  obtain ⟨expires, hexpires, h⟩ := Py.of_bind h
  obtain ⟨valid, hvalid, h⟩ := Py.of_bind h
  obtain ⟨_, hlifetime, h⟩ := Py.of_bind h
  obtain ⟨nonce, hnonce, h⟩ := Py.of_bind h
  obtain ⟨named, hlabel, h⟩ := Py.of_bind h
  obtain ⟨_, hauthorization, h⟩ := Py.of_bind h
  obtain ⟨data, hdata, h⟩ := Py.of_bind h
  obtain ⟨_, hsignature, -⟩ := Py.of_bind h
  have htime : issued ≤ other := hissued value issued (field_eq_ok_iff.mp hvalue) hinstant
  rw [hfields, hvalue]
  simp only [Py.bind_ok, hinstant, hnow, hcaveats, hrules, htime, decide_true, Py.require_true, hexpires, hvalid,
    hlifetime, hnonce, hlabel, hauthorization, hdata, hsignature, Py.pure_eq_ok]

theorem issuedBy_of_verifyRoot {now : String} {stamp : ℤ}
    (h : verifyRoot crypto calendar pins root now = .ok stamp) :
    instant calendar (.str now) = .ok stamp ∧ IssuedBy calendar stamp root := by
  obtain ⟨_, h⟩ := Py.of_rest h
  obtain ⟨value, hvalue, h⟩ := Py.of_bind h
  obtain ⟨issued, hinstant, h⟩ := Py.of_bind h
  obtain ⟨found, hnow, h⟩ := Py.of_bind h
  obtain ⟨caveats, -, h⟩ := Py.of_bind h
  obtain ⟨rules, -, h⟩ := Py.of_bind h
  obtain ⟨_, hissued, h⟩ := Py.of_bind h
  obtain ⟨_, h⟩ := Py.of_rest h
  obtain ⟨_, h⟩ := Py.of_rest h
  obtain ⟨_, h⟩ := Py.of_rest h
  obtain ⟨_, h⟩ := Py.of_rest h
  obtain ⟨_, h⟩ := Py.of_rest h
  obtain ⟨_, h⟩ := Py.of_rest h
  obtain ⟨_, h⟩ := Py.of_rest h
  obtain ⟨_, heq⟩ := Py.of_rest h
  obtain rfl := Except.ok.inj heq
  refine ⟨hnow, ?_⟩
  intro value' issued' hvalue' hinstant'
  obtain rfl := Option.some.inj ((field_eq_ok_iff.mp hvalue).symm.trans hvalue')
  obtain rfl := Except.ok.inj (hinstant.symm.trans hinstant')
  simpa using hissued

/-- What `check` has passed, apart from the time. -/
structure Checked (crypto : Crypto) (calendar : Calendar) (config : Config) (token : Json) (tenantId : String)
    (verified : Verified) (root : Link) (links : List Link) : Prop where
  /-- The tenant that the first link names. -/
  tenant : root.record.lookup "tenant" = some (.str (effectiveTenant config tenantId))
  links_eq : ∃ chain, readToken token = .ok chain ∧ chain.links = links
  root_eq : ∃ rest, links = root :: rest
  /-- The check at another time. -/
  later : ∀ (now : String) (stamp : ℤ) (revoked : List String), instant calendar (.str now) = .ok stamp →
    IssuedBy calendar stamp root →
    (check crypto calendar config token tenantId now revoked = .ok verified ∨
      ∃ message, check crypto calendar config token tenantId now revoked = .error (.permissionError message)) ∧
    ((∀ link ∈ links, Unexpired calendar stamp link) → (∀ id ∈ verified.chainIds, id ∉ revoked) →
      check crypto calendar config token tenantId now revoked = .ok verified)

theorem checked_of_check {now : String}
    (h : check crypto calendar config token tenantId now revoked = .ok verified) :
    ∃ root links stamp, Checked crypto calendar config token tenantId verified root links ∧
      instant calendar (.str now) = .ok stamp ∧ IssuedBy calendar stamp root ∧
      (∀ link ∈ links, Unexpired calendar stamp link) ∧ ∃ leaf caveats, links.getLast? = some leaf ∧
        leaf.record.lookup "caveats" = some caveats ∧ policy calendar caveats = .ok verified.caveats ∧
        ∃ pins, verifyLinks crypto calendar pins stamp revoked [] links = .ok verified.chainIds := by
  obtain ⟨chain, hchain, h⟩ := Py.of_bind h
  obtain ⟨root, hroot, h⟩ := Py.of_bind h
  obtain ⟨trust, htrust, h⟩ := Py.of_bind h
  obtain ⟨found, hverify, h⟩ := Py.of_bind h
  obtain ⟨_, hmaximum, h⟩ := Py.of_bind h
  obtain ⟨_, hclearance, h⟩ := Py.of_bind h
  obtain rfl := Except.ok.inj h
  obtain ⟨chain', root', rest, stamp, leaf, caveats, hchain', halgorithm, hlinks, hverifyRoot, hverifyLinks, hleaf,
    hcaveats, hrules⟩ := verify_eq_ok hverify
  obtain rfl := Except.ok.inj (hchain.symm.trans hchain')
  obtain rfl : root = root' := by
    rw [hlinks] at hroot
    exact (Except.ok.inj hroot).symm
  obtain ⟨hnow, hissued⟩ := issuedBy_of_verifyRoot hverifyRoot
  have htenant : root.record.lookup "tenant" = some (.str (effectiveTenant config tenantId)) := by
    obtain ⟨_, hfields, -⟩ := Py.of_bind hverifyRoot
    rw [Py.require_eq_ok_iff, Bool.and_eq_true] at hfields
    exact Origin.isText_iff.mp hfields.2
  refine ⟨root, chain.links, stamp, ⟨htenant, ⟨chain, hchain, rfl⟩, ⟨rest, hlinks⟩, ?_⟩, hnow, hissued,
    (verifyLinks_valid hverifyLinks).1, leaf, caveats, hleaf, hcaveats, hrules, _, hverifyLinks⟩
  intro now' stamp' revoked' hnow' hissued'
  have hroot' := verifyRoot_later hverifyRoot hnow' hissued'
  obtain ⟨hboth, hgood⟩ := @verifyLinks_later crypto calendar _ stamp stamp' revoked revoked' [] chain.links _
    hverifyLinks
  -- Only the links depend on the time and on the revocations.
  simp only [verify, hchain, Py.bind_ok, halgorithm, decide_true, Py.require_true, hlinks, hverifyRoot,
    Py.bind_eq_ok_iff, Py.pure_eq_ok, Except.ok.injEq] at hverify
  obtain ⟨ids, hids, last, hlast, own, hown, rules, hpolicy, digest, hdigest, rfl⟩ := hverify
  have hverify' : verify crypto calendar (pinsOf crypto config trust tenantId) token now' revoked' =
      (do let ids ← verifyLinks crypto calendar (pinsOf crypto config trust tenantId) stamp' revoked' [] chain.links
          return ⟨(pinsOf crypto config trust tenantId).tenant, (pinsOf crypto config trust tenantId).issuer, rules,
            ids, digest⟩) := by
    simp only [verify, hchain, Py.bind_ok, halgorithm, decide_true, Py.require_true, hlinks, hroot', hlast, hown,
      hpolicy, hdigest]
  have hcheck : check crypto calendar config token tenantId now' revoked' =
      (do let ids ← verifyLinks crypto calendar (pinsOf crypto config trust tenantId) stamp' revoked' [] chain.links
          return ⟨(pinsOf crypto config trust tenantId).tenant, (pinsOf crypto config trust tenantId).issuer, rules,
            ids, digest⟩) := by
    unfold check
    rw [hchain, Py.bind_ok, hroot, Py.bind_ok, htrust, Py.bind_ok, hverify']
    cases verifyLinks crypto calendar (pinsOf crypto config trust tenantId) stamp' revoked' [] chain.links with
    | error error => rfl
    | ok others => simp only [Py.bind_ok, Py.pure_eq_ok, hmaximum, hclearance]
  rw [hcheck]
  constructor
  · obtain hok | ⟨message, herror⟩ := hboth
    · exact Or.inl (by rw [hok]; rfl)
    · exact Or.inr ⟨message, by rw [herror]; rfl⟩
  · intro hunexpired hunrevoked
    rw [hgood hunexpired hunrevoked]
    rfl

theorem effectiveTenant_effectiveTenant (config : Config) (tenantId : String) :
    effectiveTenant config (effectiveTenant config tenantId) = effectiveTenant config tenantId := by
  unfold effectiveTenant
  split_ifs with htenant hown
  · rw [hown]
  · rfl
  · rfl

theorem check_effectiveTenant (config : Config) (token : Json) (tenantId now : String) (revoked : List String) :
    check crypto calendar config token (effectiveTenant config tenantId) now revoked =
      check crypto calendar config token tenantId now revoked := by
  have hpins : ∀ trust, pinsOf crypto config trust (effectiveTenant config tenantId) =
      pinsOf crypto config trust tenantId := by
    intro trust
    unfold pinsOf
    rw [effectiveTenant_effectiveTenant]
  unfold check
  simp only [hpins]

theorem chainTenant_eq (h : Checked crypto calendar config token tenantId verified root links) :
    chainTenant token = .ok (effectiveTenant config tenantId) := by
  obtain ⟨chain, hchain, hlinks⟩ := h.links_eq
  obtain ⟨rest, hrest⟩ := h.root_eq
  obtain ⟨fields, nodes, rfl, -, -, -, hnodes, hpos, -, hcollect⟩ := (readToken_eq_ok_iff.mp hchain).fields
  rw [hlinks, hrest] at hcollect
  have hforall := Py.collect_always_eq_ok_iff.mp hcollect
  cases nodes with
  | nil => simp at hpos
  | cons first nodes =>
    have hfirst := (List.forall₂_cons.mp hforall).1
    have hrecord : first.get? "record" = some (.obj root.record) := by
      unfold readLink at hfirst
      cases first with
      | obj inner =>
        obtain ⟨_, hfirst⟩ := Py.of_rest hfirst
        obtain ⟨record, hrecord, hfirst⟩ := Py.of_bind hfirst
        cases record with
        | obj found =>
          obtain ⟨_, hfirst⟩ := Py.of_rest hfirst
          obtain ⟨_, hfirst⟩ := Py.of_rest hfirst
          rw [← Except.ok.inj hfirst]
          exact field_eq_ok_iff.mp hrecord
        | _ => cases hfirst
      | _ => cases hfirst
    unfold chainTenant
    have hget : Json.get? "links" (.obj fields) = some (.arr (first :: nodes)) := hnodes
    have hinner : (Json.obj root.record).get? "tenant" = some (.str (effectiveTenant config tenantId)) := h.tenant
    rw [hget]
    dsimp only
    rw [hrecord, Option.bind_some, hinner]

/-- A row as `stamp` leaves it: its chain was accepted when it was written. -/
def Stamped (crypto : Crypto) (calendar : Calendar) (config : Config) (stamp : ℤ) (row : WriteRow) : Prop :=
  ∃ earlier past tenantId revoked verified, instant calendar (.str earlier) = .ok past ∧ past ≤ stamp ∧
    check crypto calendar config row.chain tenantId earlier revoked = .ok verified

/-- A row whose chain `check` accepts. -/
def Accepted (crypto : Crypto) (calendar : Calendar) (input : Input) (now : String) (row : WriteRow) : Prop :=
  ∃ tenant verified, chainTenant row.chain = .ok tenant ∧
    check crypto calendar input.config row.chain tenant now input.revoked = .ok verified

theorem IssuedBy.mono {stamp : ℤ} (h : IssuedBy calendar stamp link) (hle : stamp ≤ other) :
    IssuedBy calendar other link :=
  fun value issued hvalue hissued ↦ (h value issued hvalue hissued).trans hle

theorem Unexpired.anti {stamp : ℤ} (h : Unexpired calendar stamp link) (hle : other ≤ stamp) :
    Unexpired calendar other link :=
  fun caveats rules expires hcaveats hrules hexpires ↦
    hle.trans_lt (h caveats rules expires hcaveats hrules hexpires)

variable {input : Input} {now : String} {stamp : ℤ} {row : WriteRow}

theorem accepts_eq_ok_iff (hcalendar : calendar.RoundTrip) :
    (∃ expiry, accepts crypto calendar input now row = .ok expiry) ↔ Accepted crypto calendar input now row := by
  constructor
  · rintro ⟨expiry, h⟩
    obtain ⟨tenant, htenant, h⟩ := Py.of_bind h
    obtain ⟨verified, hcheck, -⟩ := Py.of_bind h
    exact ⟨tenant, verified, htenant, hcheck⟩
  · rintro ⟨tenant, verified, htenant, hcheck⟩
    obtain ⟨_, _, _, -, -, -, -, _, caveats, -, -, hrules, -⟩ := checked_of_check hcheck
    obtain ⟨expiry, hexpiry⟩ := exists_expiry hcalendar hrules
    refine ⟨expiry, ?_⟩
    unfold accepts
    rw [htenant, Py.bind_ok, hcheck, Py.bind_ok]
    exact hexpiry

theorem Stamped.accepts_cases (hcalendar : calendar.RoundTrip) (h : Stamped crypto calendar input.config stamp row)
    (hnow : instant calendar (.str now) = .ok stamp) :
    (∃ expiry, accepts crypto calendar input now row = .ok expiry) ∨
      ∃ message, accepts crypto calendar input now row = .error (.permissionError message) := by
  obtain ⟨earlier, past, tenantId, revoked, verified, hpast, hle, hcheck⟩ := h
  obtain ⟨root, links, stamp', hchecked, hstamp', hissued, -⟩ := checked_of_check hcheck
  obtain rfl := Except.ok.inj (hpast.symm.trans hstamp')
  obtain ⟨hboth, -⟩ := hchecked.later now stamp input.revoked hnow (IssuedBy.mono hissued hle)
  have htenant := chainTenant_eq hchecked
  obtain hok | ⟨message, herror⟩ := hboth
  · left
    rw [accepts_eq_ok_iff hcalendar]
    exact ⟨_, verified, htenant, by rw [check_effectiveTenant, hok]⟩
  · right
    refine ⟨message, ?_⟩
    unfold accepts
    rw [htenant, Py.bind_ok, check_effectiveTenant, herror]
    rfl

theorem Stamped.accepted_before (h : Stamped crypto calendar input.config stamp row)
    (hnow : instant calendar (.str now) = .ok stamp) (hlater : instant calendar (.str later) = .ok stamp')
    (hle : stamp ≤ stamp') (haccepted : Accepted crypto calendar input later row) :
    Accepted crypto calendar input now row := by
  obtain ⟨tenant, verified, htenant, hcheck⟩ := haccepted
  obtain ⟨root, links, found, hchecked, hfound, -, hunexpired, _, _, -, -, -, _, hverifyLinks⟩ :=
    checked_of_check hcheck
  obtain rfl := Except.ok.inj (hlater.symm.trans hfound)
  obtain ⟨earlier, past, tenantId, revoked, other, hpast, hpastLe, hcheck'⟩ := h
  obtain ⟨root', links', found', hchecked', hfound', hissued', -⟩ := checked_of_check hcheck'
  obtain rfl := Except.ok.inj (hpast.symm.trans hfound')
  have hroot : root = root' := by
    obtain ⟨chain, hchain, hlinks⟩ := hchecked.links_eq
    obtain ⟨chain', hchain', hlinks'⟩ := hchecked'.links_eq
    obtain ⟨rest, hrest⟩ := hchecked.root_eq
    obtain ⟨rest', hrest'⟩ := hchecked'.root_eq
    obtain rfl := Except.ok.inj (hchain.symm.trans hchain')
    rw [← hlinks, hlinks', hrest'] at hrest
    exact (List.cons.inj hrest).1.symm
  obtain ⟨-, hgood⟩ := hchecked.later now stamp input.revoked hnow (IssuedBy.mono (hroot ▸ hissued') hpastLe)
  refine ⟨tenant, verified, htenant, hgood ?_ (verifyLinks_valid hverifyLinks).2⟩
  exact fun link hlink ↦ Unexpired.anti (hunexpired link hlink) hle

theorem accepted_later (hcalendar : calendar.RoundTrip) {expiry : ℤ}
    (hnow : instant calendar (.str now) = .ok stamp) (hlater : instant calendar (.str later) = .ok stamp')
    (hle : stamp ≤ stamp') (hbefore : stamp' < expiry) (h : accepts crypto calendar input now row = .ok expiry) :
    Accepted crypto calendar input later row := by
  obtain ⟨tenant, htenant, h⟩ := Py.of_bind h
  obtain ⟨verified, hcheck, hexpiry⟩ := Py.of_bind h
  obtain ⟨root, links, found, hchecked, hfound, hissued, -, leaf, caveats, hleaf, hcaveats, hrules, pins,
    hverifyLinks⟩ := checked_of_check hcheck
  obtain rfl := Except.ok.inj (hnow.symm.trans hfound)
  obtain ⟨-, hgood⟩ := hchecked.later later stamp' input.revoked hlater (IssuedBy.mono hissued hle)
  refine ⟨tenant, verified, htenant, hgood ?_ (verifyLinks_valid hverifyLinks).2⟩
  intro link hlink own rules expires hown hpolicy hexpires
  obtain ⟨first, second, hsplit⟩ := List.append_of_mem hlink
  rw [hsplit] at hverifyLinks hleaf
  obtain ⟨_, _, -, hrest, -⟩ := verifyLinks_append_eq_ok_iff.mp hverifyLinks
  rw [List.getLast?_append_of_ne_nil _ (List.cons_ne_nil _ _)] at hleaf
  obtain ⟨wide, narrow, own', last, hown', hwide, hlast, hnarrow, hnarrower⟩ :=
    narrower_of_verifyLinks hcalendar hrest hleaf
  obtain rfl := Option.some.inj (hown.symm.trans hown')
  obtain rfl := Except.ok.inj (hpolicy.symm.trans hwide)
  obtain rfl := Option.some.inj (hcaveats.symm.trans hlast)
  obtain rfl := Except.ok.inj (hrules.symm.trans hnarrow)
  obtain ⟨first', second', hfirst', hsecond', hexpiryLe⟩ := hnarrower.expiry
  obtain rfl := Except.ok.inj (hexpiry.symm.trans hfirst')
  obtain rfl := Except.ok.inj (hexpires.symm.trans hsecond')
  omega

end UniMem.CapabilityIo
