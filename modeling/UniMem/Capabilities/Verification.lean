import UniMem.Capabilities.Token

/-!
# What a verified token has passed

The inversion of `_token`, of `verify` and of its loop over the links, which runs over the parts of
a chain one after the other.
-/

namespace UniMem.Capabilities

open Library FrontierProtocol

variable {crypto : Crypto} {calendar : Calendar} {pins : Pins} {stamp : ℤ} {revoked : List String}

theorem lastLink_eq_ok_iff {links : List Link} {link : Link} :
    lastLink links = .ok link ↔ links.getLast? = some link := by
  unfold lastLink
  cases links.getLast? <;> simp

/-- What `_token` checks. -/
structure WellFormed (token : Json) (chain : Token) : Prop where
  fields : ∃ fields nodes, token = .obj fields ∧
    (fields.map Prod.fst).Perm ["version", "algorithm", "links"] ∧
    fields.lookup "version" = some (.int 1) ∧
    fields.lookup "algorithm" = some (.str chain.algorithm) ∧
    fields.lookup "links" = some (.arr nodes) ∧ 1 ≤ nodes.length ∧ nodes.length ≤ 16 ∧
    Py.collect (Py.always readLink) nodes = .ok chain.links
  algorithm_mem : chain.algorithm ∈ algorithms
  wirable : Wirable token
  length_le : (canonicalBytes token).length ≤ maxToken

theorem readToken_eq_ok_iff {token : Json} {chain : Token} :
    readToken token = .ok chain ↔ WellFormed token chain := by
  constructor
  · intro h
    unfold readToken at h
    cases token with
    | obj fields =>
      obtain ⟨_, hkeys, h⟩ := Py.of_bind h
      obtain ⟨version, hversion, h⟩ := Py.of_bind h
      obtain ⟨algorithm, halgorithm, h⟩ := Py.of_bind h
      rw [Py.require_eq_ok_iff, keysAre_iff] at hkeys
      rw [field_eq_ok_iff] at hversion halgorithm
      split at h
      · obtain ⟨_, hmem, h⟩ := Py.of_bind h
        obtain ⟨links, hlinks, h⟩ := Py.of_bind h
        rw [Py.require_eq_ok_iff, decide_eq_true_eq] at hmem
        rw [field_eq_ok_iff] at hlinks
        split at h
        · simp only [Py.bind_eq_ok_iff, Py.require_eq_ok_iff, decide_eq_true_eq, Py.pure_eq_ok, Except.ok.injEq] at h
          obtain ⟨_, hcount, encoded, hwire, _, hlength, nodes, hnodes, rfl⟩ := h
          obtain ⟨hwirable, rfl⟩ := wire_eq_ok_iff.mp hwire
          exact ⟨⟨fields, _, rfl, hkeys, hversion, halgorithm, hlinks, hcount.1, hcount.2, hnodes⟩,
            hmem, hwirable, hlength⟩
        · cases h
      · cases h
      · cases h
      · cases h
    | _ => cases h
  · rintro ⟨⟨fields, nodes, rfl, hkeys, hversion, halgorithm, hlinks, hone, hmax, hnodes⟩, hmem, hwirable, hlength⟩
    simp only [readToken, keysAre_iff.mpr hkeys, field_eq_ok_iff.mpr hversion,
      field_eq_ok_iff.mpr halgorithm, field_eq_ok_iff.mpr hlinks, Py.require_true, Py.bind_ok,
      hmem, decide_true, hone, hmax, and_self, hwirable.wire_eq, hlength, hnodes, Py.pure_eq_ok]

theorem verify_eq_ok {token : Json} {now : String} {verified : Verified}
    (h : verify crypto calendar pins token now revoked = .ok verified) :
    ∃ chain root rest stamp leaf caveats, readToken token = .ok chain ∧
      chain.algorithm = pins.algorithm ∧ chain.links = root :: rest ∧
      verifyRoot crypto calendar pins root now = .ok stamp ∧
      verifyLinks crypto calendar pins stamp revoked [] chain.links = .ok verified.chainIds ∧
      chain.links.getLast? = some leaf ∧ leaf.record.lookup "caveats" = some caveats ∧
      policy calendar caveats = .ok verified.caveats := by
  obtain ⟨chain, hchain, hrest⟩ := Py.of_bind h
  obtain ⟨_, halgorithm, hrest⟩ := Py.of_bind hrest
  rw [Py.require_eq_ok_iff, decide_eq_true_eq] at halgorithm
  cases hlinks : chain.links with
  | nil =>
    rw [hlinks] at hrest
    cases hrest
  | cons root rest =>
    rw [hlinks] at hrest
    simp only [Py.bind_eq_ok_iff, lastLink_eq_ok_iff, field_eq_ok_iff, Py.pure_eq_ok, Except.ok.injEq] at hrest
    obtain ⟨stamp, hroot, chainIds, hlinks', leaf, hleaf, caveats, hcaveats, rules, hrules, _, _,
      rfl⟩ := hrest
    rw [← hlinks] at hlinks' hleaf
    exact ⟨chain, root, rest, stamp, leaf, caveats, hchain, halgorithm, hlinks, hroot, hlinks', hleaf,
      hcaveats, hrules⟩

theorem verifyLinks_append_eq_ok_iff {before first second : List Link} {ids : List String} :
    verifyLinks crypto calendar pins stamp revoked before (first ++ second) = .ok ids ↔
      ∃ left right, verifyLinks crypto calendar pins stamp revoked before first = .ok left ∧
        verifyLinks crypto calendar pins stamp revoked (before ++ first) second = .ok right ∧
        ids = left ++ right := by
  induction first generalizing before ids with
  | nil => simp [verifyLinks, eq_comm]
  | cons node first ih =>
    rw [List.cons_append, verifyLinks, verifyLinks]
    simp only [Py.bind_eq_ok_iff, Py.pure_eq_ok, Except.ok.injEq, ih]
    constructor
    · rintro ⟨id, hid, rest, ⟨left, right, hleft, hright, rfl⟩, rfl⟩
      refine ⟨id :: left, right, ⟨id, hid, left, hleft, rfl⟩, ?_, rfl⟩
      rw [List.append_assoc] at hright
      exact hright
    · rintro ⟨left, right, ⟨id, hid, left, hleft, rfl⟩, hright, rfl⟩
      refine ⟨id, hid, left ++ right, ⟨left, right, hleft, ?_, rfl⟩, rfl⟩
      rw [List.append_assoc]
      exact hright

end UniMem.Capabilities
