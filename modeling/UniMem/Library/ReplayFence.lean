import UniMem.Library.Transitions

/-!
# Fences against replay

A visitor checks that its key has not expired, and later deletes the expired keys and inserts its own. A key is
accepted once as long as no deletion overtakes a visitor past its expiry.
-/

namespace UniMem.Library.ReplayFence

/-- A key and the time at which it expires. -/
structure Entry (κ : Type) where
  key : κ
  expires : ℤ
  deriving DecidableEq

/-- What the visitors of a table do. -/
structure Fence (ε κ γ : Type) where
  /-- The check of a request at a reading of the clock. -/
  check : ℤ → γ → Except ε (Entry κ)
  /-- The transaction with that reading. -/
  consume : ℤ → Entry κ → List (Entry κ) → Except ε (List (Entry κ))

variable {ε κ γ : Type}

/-- A checked request has not expired. Its transaction purges, and fails on a stored key. -/
structure Fence.Lawful (fence : Fence ε κ γ) : Prop where
  fresh : ∀ now request entry, fence.check now request = .ok entry → now < entry.expires
  keeps : ∀ now entry rows next, fence.consume now entry rows = .ok next →
    ∀ other ∈ rows, now < other.expires → other ∈ next
  inserts : ∀ now entry rows next, fence.consume now entry rows = .ok next → entry ∈ next
  rejects : ∀ now entry rows next, fence.consume now entry rows = .ok next →
    ∀ other ∈ rows, other.key = entry.key → other.expires ≤ now

/-- A request that has passed its check. -/
structure Waiting (κ : Type) where
  now : ℤ
  entry : Entry κ
  deriving DecidableEq

/-- The clock, the table, the requests between check and transaction, and what was accepted or deleted. -/
structure State (κ : Type) where
  clock : ℤ
  rows : List (Entry κ)
  waiting : List (Waiting κ)
  accepted : List (Entry κ)
  purges : List ℤ
  deriving DecidableEq

inductive Action (γ : Type) where
  | tick (elapsed : ℕ)
  | check (request : γ)
  | consume (index : ℕ)
  | abandon (index : ℕ)

variable {fence : Fence ε κ γ}

/-- One step of some visitor. A transaction that fails changes no row. -/
def step (fence : Fence ε κ γ) (state : State κ) : Action γ → Except ε (State κ)
  | .tick elapsed => .ok { state with clock := state.clock + elapsed }
  | .check request => do
    let entry ← fence.check state.clock request
    return { state with waiting := state.waiting ++ [⟨state.clock, entry⟩] }
  | .consume index =>
    match state.waiting[index]? with
    | none => .ok state
    | some ⟨now, entry⟩ =>
      let rest := state.waiting.eraseIdx index
      match fence.consume now entry state.rows with
      | .error _ => .ok { state with waiting := rest }
      | .ok next =>
        .ok { state with
          rows := next
          waiting := rest
          accepted := state.accepted ++ [entry]
          purges := state.purges ++ [now] }
  | .abandon index => .ok { state with waiting := state.waiting.eraseIdx index }

/-- A request comes before every deletion that has reached its expiry. -/
def Timely (state : State κ) : Action γ → Prop
  | .consume index => ∀ request ∈ state.waiting[index]?, ∀ now ∈ state.purges, now < request.entry.expires
  | _ => True

instance (state : State κ) : ∀ action : Action γ, Decidable (Timely state action)
  | .tick _ => inferInstanceAs (Decidable True)
  | .check _ => inferInstanceAs (Decidable True)
  | .consume index =>
    inferInstanceAs (Decidable (∀ request ∈ state.waiting[index]?, ∀ now ∈ state.purges, now < request.entry.expires))
  | .abandon _ => inferInstanceAs (Decidable True)

/-- What holds after steps in time. -/
structure Sound (state : State κ) : Prop where
  fresh : ∀ request ∈ state.waiting, request.now < request.entry.expires
  stored : ∀ entry ∈ state.accepted, entry ∈ state.rows ∨ ∃ now ∈ state.purges, entry.expires ≤ now
  once : state.accepted.Nodup

variable {state next : State κ} {now : ℤ} {entry : Entry κ} {rows : List (Entry κ)}

theorem notMem_accepted (hlawful : fence.Lawful) (hsound : Sound state) (hfresh : now < entry.expires)
    (htimely : ∀ reading ∈ state.purges, reading < entry.expires)
    (h : fence.consume now entry state.rows = .ok rows) : entry ∉ state.accepted := by
  intro haccepted
  obtain hstored | ⟨reading, hreading, hreached⟩ := hsound.stored entry haccepted
  · exact absurd (hlawful.rejects _ _ _ _ h entry hstored rfl) (not_le.mpr hfresh)
  · exact absurd (htimely reading hreading) (not_lt.mpr hreached)

theorem stored_consume (hlawful : fence.Lawful) (hsound : Sound state)
    (h : fence.consume now entry state.rows = .ok rows) :
    ∀ other ∈ state.accepted ++ [entry], other ∈ rows ∨ ∃ reading ∈ state.purges ++ [now],
      other.expires ≤ reading := by
  intro other hother
  obtain hold | hlast := List.mem_append.mp hother
  · obtain hstored | ⟨reading, hreading, hreached⟩ := hsound.stored other hold
    · by_cases hexpired : other.expires ≤ now
      · exact Or.inr ⟨now, List.mem_append_right _ List.mem_cons_self, hexpired⟩
      · exact Or.inl (hlawful.keeps _ _ _ _ h other hstored (not_le.mp hexpired))
    · exact Or.inr ⟨reading, List.mem_append_left _ hreading, hreached⟩
  · obtain rfl := List.mem_singleton.mp hlast
    exact Or.inl (hlawful.inserts _ _ _ _ h)

theorem nodup_append_singleton {entries : List (Entry κ)} (hnodup : entries.Nodup) (hnew : entry ∉ entries) :
    (entries ++ [entry]).Nodup := by
  refine List.nodup_append.mpr ⟨hnodup, List.nodup_singleton _, ?_⟩
  rintro other hother _ hentry rfl
  exact hnew (List.mem_singleton.mp hentry ▸ hother)

theorem sound_step (hlawful : fence.Lawful) {action : Action γ} (hsound : Sound state) (htimely : Timely state action)
    (h : step fence state action = .ok next) : Sound next := by
  have herase : ∀ index, ∀ request ∈ state.waiting.eraseIdx index, request.now < request.entry.expires :=
    fun index request hrequest ↦ hsound.fresh request (List.mem_of_mem_eraseIdx hrequest)
  cases action with
  | tick elapsed =>
    obtain rfl := Except.ok.inj h
    exact ⟨hsound.fresh, hsound.stored, hsound.once⟩
  | abandon index =>
    obtain rfl := Except.ok.inj h
    exact ⟨herase index, hsound.stored, hsound.once⟩
  | check request =>
    rw [step] at h
    cases hcheck : fence.check state.clock request with
    | error error => rw [hcheck] at h; cases h
    | ok entry =>
      rw [hcheck] at h
      obtain rfl := Except.ok.inj h
      refine ⟨?_, hsound.stored, hsound.once⟩
      intro other hother
      obtain hold | hnew := List.mem_append.mp hother
      · exact hsound.fresh other hold
      · obtain rfl := List.mem_singleton.mp hnew
        exact hlawful.fresh _ _ _ hcheck
  | consume index =>
    rw [step] at h
    cases hwaiting : state.waiting[index]? with
    | none =>
      rw [hwaiting] at h
      obtain rfl := Except.ok.inj h
      exact hsound
    | some request =>
      rw [hwaiting] at h
      dsimp only at h
      cases hconsume : fence.consume request.now request.entry state.rows with
      | error error =>
        rw [hconsume] at h
        obtain rfl := Except.ok.inj h
        exact ⟨herase index, hsound.stored, hsound.once⟩
      | ok rows =>
        rw [hconsume] at h
        obtain rfl := Except.ok.inj h
        have hnew := notMem_accepted hlawful hsound (hsound.fresh _ (List.mem_of_getElem? hwaiting))
          (htimely request hwaiting) hconsume
        exact ⟨herase index, stored_consume hlawful hsound hconsume, nodup_append_singleton hsound.once hnew⟩

/-- The start: nobody has visited the table. -/
def initial (clock : ℤ) (rows : List (Entry κ)) : State κ := ⟨clock, rows, [], [], []⟩

theorem nodup_accepted (hlawful : fence.Lawful) (clock : ℤ) (rows : List (Entry κ)) (actions : List (Action γ))
    (htimely : Along (step fence) Timely (initial clock rows) actions) :
    (run (step fence) (initial clock rows) actions).accepted.Nodup := by
  have hinitial : Sound (initial clock rows) :=
    ⟨fun _ h ↦ absurd h List.not_mem_nil, fun _ h ↦ absurd h List.not_mem_nil, List.nodup_nil⟩
  exact (run_invariant_along (fun _ _ _ hsound htimely hstep ↦ sound_step hlawful hsound htimely hstep) hinitial
    htimely).once

end UniMem.Library.ReplayFence
