import UniMem.Capabilities.Agreement

/-!
# Attenuation never widens

`verify` compares each link with its parent only. The comparison is transitive, so the last link of an
accepted token is narrower than every link of it.
-/

namespace UniMem.Capabilities

open Library FrontierProtocol

variable {crypto : Crypto} {calendar : Calendar} {pins : Pins} {stamp : ℤ} {revoked : List String}

theorem narrower_of_verifyLink (hcalendar : calendar.RoundTrip) {before : List Link}
    {parent node : Link} {id : String}
    (h : verifyLink crypto calendar pins stamp revoked (before ++ [parent]) node = .ok id) :
    ∃ wide narrow caveats own, parent.record.lookup "caveats" = some caveats ∧
      policy calendar caveats = .ok wide ∧ node.record.lookup "caveats" = some own ∧
      policy calendar own = .ok narrow ∧ Narrower calendar narrow wide := by
  simp only [verifyLink, Py.bind_eq_ok_iff, field_eq_ok_iff] at h
  obtain ⟨own, hown, narrow, hnarrow, _, -, _, -, _, hchild, -⟩ := h
  rw [verifyParent, if_neg (by simp)] at hchild
  simp only [verifyChild, Py.bind_eq_ok_iff, lastLink_eq_ok_iff, field_eq_ok_iff] at hchild
  obtain ⟨_, -, _, -, _, -, found, hfound, caveats, hcaveats, wide, hwide, _, hsubset, -⟩ := hchild
  rw [List.getLast?_concat, Option.some.injEq] at hfound
  obtain ⟨before', after', hbefore', hafter', hnarrower⟩ := subset_eq_ok_iff.mp hsubset
  obtain rfl := Except.ok.inj ((policy_toJson hcalendar hwide).symm.trans hbefore')
  obtain rfl := Except.ok.inj ((policy_toJson hcalendar hnarrow).symm.trans hafter')
  exact ⟨_, _, caveats, own, hfound ▸ hcaveats, hwide, hown, hnarrow, hnarrower⟩

theorem narrower_of_verifyLinks (hcalendar : calendar.RoundTrip) {before rest : List Link}
    {node leaf : Link} {ids : List String}
    (h : verifyLinks crypto calendar pins stamp revoked before (node :: rest) = .ok ids)
    (hleaf : (node :: rest).getLast? = some leaf) :
    ∃ wide narrow caveats own, node.record.lookup "caveats" = some caveats ∧
      policy calendar caveats = .ok wide ∧ leaf.record.lookup "caveats" = some own ∧
      policy calendar own = .ok narrow ∧ Narrower calendar narrow wide := by
  induction rest generalizing before node ids with
  | nil =>
    rw [List.getLast?_singleton, Option.some.injEq] at hleaf
    subst hleaf
    simp only [verifyLinks, verifyLink, Py.bind_eq_ok_iff, field_eq_ok_iff] at h
    obtain ⟨_, ⟨caveats, hcaveats, rules, hrules, expires, hexpires, -⟩, -⟩ := h
    exact ⟨rules, rules, caveats, caveats, hcaveats, hrules, hcaveats, hrules, Narrower.refl hexpires⟩
  | cons next rest ih =>
    rw [verifyLinks] at h
    simp only [Py.bind_eq_ok_iff] at h
    obtain ⟨_, -, others, hothers, -⟩ := h
    obtain ⟨middle, narrow, own, last, hown, hmiddle, hlast, hnarrow, hnarrower⟩ :=
      ih hothers (by rwa [List.getLast?_cons_cons] at hleaf)
    rw [verifyLinks] at hothers
    obtain ⟨_, hnext, -⟩ := Py.of_bind hothers
    obtain ⟨wide, middle', caveats, own', hcaveats, hwide, hown', hmiddle', hstep⟩ :=
      narrower_of_verifyLink hcalendar hnext
    obtain rfl : own = own' := Option.some.inj (hown.symm.trans hown')
    obtain rfl : middle = middle' := Except.ok.inj (hmiddle.symm.trans hmiddle')
    exact ⟨wide, narrow, caveats, last, hcaveats, hwide, hlast, hnarrow, hnarrower.trans hstep⟩

end UniMem.Capabilities
