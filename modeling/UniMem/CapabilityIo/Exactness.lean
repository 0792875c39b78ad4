import UniMem.CapabilityIo.Chains

/-!
# Exact quarantine

The search under the blocked targets returns their closure, and it returns in every order of iteration exactly
when no trail of derivations has more than sixteen steps. An answer that is kept stays right until its
deadline.
-/

namespace UniMem.CapabilityIo

open Library FrontierProtocol Capabilities

variable {crypto : Crypto} {calendar : Calendar} {input : Input} {now : String} {stamp : ℤ}

/-- A target whose current content has a revoked writing chain and no other accepted one. -/
def Blocked (crypto : Crypto) (calendar : Calendar) (input : Input) (now target : String) : Prop :=
  (∃ row ∈ input.writes, row.target = target ∧ row.current input.objects ∧ row.touched input.revoked) ∧
    ∀ row ∈ input.writes, row.target = target → row.current input.objects → ¬row.touched input.revoked →
      ¬Accepted crypto calendar input now row

/-- A child of the lineage or an impact of a parent. -/
def Derives (input : Input) (parent child : String) : Prop :=
  (∃ statement, (child, statement) ∈ input.objects ∧ parent ∈ statement.inputs.map Prod.fst) ∨
    (parent, child) ∈ input.impacts

theorem findAlternate_spec (hcalendar : calendar.RoundTrip) {rows : List WriteRow} {result : Option ℤ}
    (h : findAlternate crypto calendar input now rows = .ok result) :
    (result = none → ∀ row ∈ rows, ¬row.touched input.revoked → ¬Accepted crypto calendar input now row) ∧
      ∀ expiry, result = some expiry → ∃ row ∈ rows, ¬row.touched input.revoked ∧
        accepts crypto calendar input now row = .ok expiry := by
  induction rows with
  | nil =>
    obtain rfl := Except.ok.inj h
    simp
  | cons row rows ih =>
    rw [findAlternate] at h
    by_cases htouched : row.touched input.revoked
    · rw [if_pos htouched] at h
      obtain ⟨hnone, hsome⟩ := ih h
      refine ⟨?_, ?_⟩
      · intro heq other hother huntouched
        obtain rfl | hother := List.mem_cons.mp hother
        · exact absurd htouched huntouched
        · exact hnone heq other hother huntouched
      · intro expiry heq
        obtain ⟨other, hother, hrest⟩ := hsome expiry heq
        exact ⟨other, List.mem_cons_of_mem _ hother, hrest⟩
    · rw [if_neg htouched] at h
      cases haccepts : accepts crypto calendar input now row with
      | ok expiry =>
        rw [haccepts] at h
        obtain rfl := Except.ok.inj h
        refine ⟨by simp, ?_⟩
        rintro _ heq
        obtain rfl := Option.some.inj heq
        exact ⟨row, List.mem_cons_self, htouched, haccepts⟩
      | error error =>
        rw [haccepts] at h
        dsimp only at h
        split_ifs at h with hcaught
        obtain ⟨hnone, hsome⟩ := ih h
        refine ⟨?_, ?_⟩
        · intro heq other hother huntouched
          obtain rfl | hother := List.mem_cons.mp hother
          · rw [← accepts_eq_ok_iff hcalendar, haccepts]
            simp
          · exact hnone heq other hother huntouched
        · intro expiry heq
          obtain ⟨other, hother, hrest⟩ := hsome expiry heq
          exact ⟨other, List.mem_cons_of_mem _ hother, hrest⟩

theorem exists_findAlternate (hcalendar : calendar.RoundTrip) (hnow : instant calendar (.str now) = .ok stamp)
    {rows : List WriteRow} (h : ∀ row ∈ rows, Stamped crypto calendar input.config stamp row) :
    ∃ result, findAlternate crypto calendar input now rows = .ok result := by
  induction rows with
  | nil => exact ⟨none, rfl⟩
  | cons row rows ih =>
    rw [List.forall_mem_cons] at h
    rw [findAlternate]
    by_cases htouched : row.touched input.revoked
    · rw [if_pos htouched]
      exact ih h.2
    · rw [if_neg htouched]
      obtain ⟨expiry, hok⟩ | ⟨message, herror⟩ := h.1.accepts_cases hcalendar hnow
      · rw [hok]
        exact ⟨some expiry, rfl⟩
      · rw [herror]
        exact ih h.2

/-- The rows of a target. -/
def rowsOf (input : Input) (target : String) : List WriteRow :=
  (input.writes.filter fun row ↦ row.current input.objects).filter fun row ↦ row.target = target

variable {target : String} {judged : List (String × Verdict)} {arrange : List String → List String}

theorem mem_rowsOf {row : WriteRow} :
    row ∈ rowsOf input target ↔ row ∈ input.writes ∧ row.target = target ∧ row.current input.objects := by
  rw [rowsOf, List.mem_filter, List.mem_filter, decide_eq_true_eq]
  tauto

theorem judge_spec (hcalendar : calendar.RoundTrip) {verdict : Verdict}
    (h : judge crypto calendar input now (rowsOf input target) = .ok verdict) :
    (verdict.blocks = true ↔ Blocked crypto calendar input now target) ∧
      ∀ expiry, verdict.expiry? = some expiry → ∃ row ∈ rowsOf input target, ¬row.touched input.revoked ∧
        accepts crypto calendar input now row = .ok expiry := by
  unfold judge at h
  split_ifs at h with htouched
  · obtain ⟨result, hresult, h⟩ := Py.of_bind h
    obtain rfl := Except.ok.inj h
    obtain ⟨hnone, hsome⟩ := findAlternate_spec hcalendar hresult
    obtain ⟨row, hrow, hrowTouched⟩ := List.any_eq_true.mp htouched
    obtain ⟨hmem, htarget, hcurrent⟩ := mem_rowsOf.mp hrow
    cases result with
    | none =>
      refine ⟨iff_of_true rfl ⟨⟨row, hmem, htarget, hcurrent, hrowTouched⟩, ?_⟩, by simp [Verdict.expiry?]⟩
      intro other hother hotherTarget hotherCurrent huntouched
      exact hnone rfl other (mem_rowsOf.mpr ⟨hother, hotherTarget, hotherCurrent⟩) huntouched
    | some expiry =>
      obtain ⟨other, hother, huntouched, haccepts⟩ := hsome expiry rfl
      obtain ⟨hmem', htarget', hcurrent'⟩ := mem_rowsOf.mp hother
      refine ⟨iff_of_false (by simp [Verdict.blocks]) ?_, ?_⟩
      · rintro ⟨-, hblocked⟩
        exact hblocked other hmem' htarget' hcurrent' huntouched
          ((accepts_eq_ok_iff hcalendar).mp ⟨expiry, haccepts⟩)
      · intro expiry' heq
        obtain rfl : expiry = expiry' := Option.some.inj heq
        exact ⟨other, hother, huntouched, haccepts⟩
  · obtain rfl := Except.ok.inj h
    refine ⟨iff_of_false (by simp [Verdict.blocks]) ?_, by simp [Verdict.expiry?]⟩
    rintro ⟨⟨row, hmem, htarget, hcurrent, hrow⟩, -⟩
    exact htouched (List.any_eq_true.mpr ⟨row, mem_rowsOf.mpr ⟨hmem, htarget, hcurrent⟩, hrow⟩)

theorem verdicts_spec (h : verdicts crypto calendar input now = .ok judged) :
    (judged.map Prod.fst).Nodup ∧
    (∀ entry ∈ judged, judge crypto calendar input now (rowsOf input entry.1) = .ok entry.2) ∧
    ∀ row ∈ input.writes, row.current input.objects → row.target ∈ judged.map Prod.fst := by
  have hforall := Py.collect_always_eq_ok_iff.mp h
  have hkeys : judged.map Prod.fst =
      (group WriteRow.target (input.writes.filter fun row ↦ row.current input.objects)).map Prod.fst := by
    clear h
    generalize group WriteRow.target (input.writes.filter fun row ↦ row.current input.objects) = groups at hforall ⊢
    induction hforall with
    | nil => rfl
    | cons hhead _ ih =>
      obtain ⟨verdict, -, heq⟩ := Py.of_bind hhead
      rw [List.map_cons, List.map_cons, ih, ← Except.ok.inj heq]
  refine ⟨?_, ?_, ?_⟩
  · rw [hkeys]
    exact nodup_map_fst_group _ _
  · intro entry hentry
    obtain ⟨source, hsource, hread⟩ := exists_of_mem_forall₂ (List.Forall₂.flip hforall) hentry
    obtain ⟨verdict, hverdict, heq⟩ := Py.of_bind hread
    obtain rfl := Except.ok.inj heq
    have hrows := ((mem_group_iff _ _ source.1 source.2).mp hsource).2
    rw [hrows] at hverdict
    exact hverdict
  · intro row hrow hcurrent
    rw [hkeys, mem_map_fst_group]
    exact List.mem_map.mpr ⟨row, List.mem_filter.mpr ⟨hrow, hcurrent⟩, rfl⟩

theorem exists_verdicts (hcalendar : calendar.RoundTrip) (hnow : instant calendar (.str now) = .ok stamp)
    (h : ∀ row ∈ input.writes, Stamped crypto calendar input.config stamp row) :
    ∃ judged, verdicts crypto calendar input now = .ok judged := by
  apply Py.exists_collect
  rintro ⟨target, rows⟩ hentry
  have hrows := ((mem_group_iff _ _ target rows).mp hentry).2
  have hstamped : ∀ row ∈ rows, Stamped crypto calendar input.config stamp row := by
    intro row hrow
    rw [hrows] at hrow
    exact h row (List.mem_of_mem_filter (List.mem_of_mem_filter hrow))
  obtain ⟨result, hresult⟩ := exists_findAlternate hcalendar hnow hstamped
  have hjudge : ∃ verdict, judge crypto calendar input now rows = .ok verdict := by
    unfold judge
    split_ifs
    · exact ⟨_, by rw [hresult]; rfl⟩
    · exact ⟨_, rfl⟩
  obtain ⟨verdict, hverdict⟩ := hjudge
  exact ⟨some (target, verdict), by simp [Py.always, hverdict]⟩

theorem nodup_seedsOf (h : verdicts crypto calendar input now = .ok judged) :
    (seedsOf judged).Nodup :=
  ((List.filter_sublist).map Prod.fst).nodup (verdicts_spec h).1

theorem mem_seedsOf (hcalendar : calendar.RoundTrip) (h : verdicts crypto calendar input now = .ok judged) :
    target ∈ seedsOf judged ↔ Blocked crypto calendar input now target := by
  obtain ⟨-, hjudged, hcomplete⟩ := verdicts_spec h
  constructor
  · intro hmem
    obtain ⟨entry, hentry, rfl⟩ := List.mem_map.mp hmem
    obtain ⟨hentry, hblocks⟩ := List.mem_filter.mp hentry
    exact (judge_spec hcalendar (hjudged entry hentry)).1.mp hblocks
  · intro hblocked
    obtain ⟨row, hrow, htarget, hcurrent, -⟩ := hblocked.1
    obtain ⟨entry, hentry, heq⟩ := List.mem_map.mp (hcomplete row hrow hcurrent)
    obtain rfl : entry.1 = target := heq.trans htarget
    refine List.mem_map.mpr ⟨entry, List.mem_filter.mpr ⟨hentry, ?_⟩, rfl⟩
    exact (judge_spec hcalendar (hjudged entry hentry)).1.mpr hblocked

theorem mem_children {parent child : String} : child ∈ children input parent ↔ Derives input parent child := by
  have hedge : child ∈ children input parent ↔ (parent, child) ∈ edges input := by
    unfold children
    rw [lookup_group]
    split_ifs with hparent
    · simp only [Option.getD_some, List.mem_map, List.mem_filter, decide_eq_true_eq]
      constructor
      · rintro ⟨edge, ⟨hedge, rfl⟩, rfl⟩
        exact hedge
      · exact fun hedge ↦ ⟨_, ⟨hedge, rfl⟩, rfl⟩
    · refine iff_of_false (by simp) fun hedge ↦ hparent ?_
      exact List.mem_map.mpr ⟨_, hedge, rfl⟩
  rw [hedge, edges, Derives, List.mem_append, List.mem_flatMap]
  apply or_congr_left
  constructor
  · rintro ⟨entry, hentry, hmem⟩
    obtain ⟨source, hsource, heq⟩ := List.mem_map.mp hmem
    obtain ⟨rfl, rfl⟩ := Prod.mk.inj heq
    exact ⟨entry.2, hentry, List.mem_map.mpr ⟨source, hsource, rfl⟩⟩
  · rintro ⟨statement, hentry, hmem⟩
    obtain ⟨source, hsource, rfl⟩ := List.mem_map.mp hmem
    exact ⟨(child, statement), hentry, List.mem_map.mpr ⟨source, hsource, rfl⟩⟩

theorem not_blocked_of_nil (h : input.revoked = []) (target : String) :
    ¬Blocked crypto calendar input now target := by
  rintro ⟨⟨row, -, -, -, htouched⟩, -⟩
  simp [WriteRow.touched, h] at htouched

theorem read_of_ne_nil (h : input.revoked ≠ []) : input.read = input := if_neg h

variable {id : String} {snapshot : Snapshot}

theorem reaches_read :
    Reaches (Derives input.read) (Blocked crypto calendar input.read now) id ↔
      Reaches (Derives input) (Blocked crypto calendar input now) id := by
  by_cases h : input.revoked = []
  · have hread : input.read.revoked = [] := by
      unfold Input.read
      rw [if_pos h]
      exact h
    refine iff_of_false ?_ ?_
    · rintro ⟨target, htarget, -⟩
      exact not_blocked_of_nil hread target htarget
    · rintro ⟨target, htarget, -⟩
      exact not_blocked_of_nil h target htarget
  · rw [read_of_ne_nil h]

theorem compute_eq_ok_iff :
    compute crypto calendar arrange input now = .ok snapshot ↔
      ∃ stamp latest judged found, instant calendar (.str now) = .ok stamp ∧
        input.read.objects.length ≤ 10_000 ∧ representable (stamp + fiveMinutes) = .ok latest ∧
        verdicts crypto calendar input.read now = .ok judged ∧
        explore (children input.read) arrange 2_000 16 (seedsOf judged) = .ok found ∧
        snapshot = ⟨(judged.filterMap fun entry ↦ entry.2.expiry?).foldl min latest, found⟩ := by
  unfold compute
  simp only [Py.bind_eq_ok_iff, count_eq_ok_iff, Nat.cast_nonneg, true_and]
  constructor
  · rintro ⟨stamp, hstamp, _, ⟨hcount, -⟩, latest, hlatest, judged, hjudged, h⟩
    cases hexplore : explore (children input.read) arrange 2_000 16 (seedsOf judged) with
    | error error =>
      rw [hexplore] at h
      cases error <;> cases h
    | ok found =>
      rw [hexplore] at h
      exact ⟨stamp, latest, judged, found, hstamp, by exact_mod_cast hcount, hlatest, hjudged, hexplore,
        (Except.ok.inj h).symm⟩
  · rintro ⟨stamp, latest, judged, found, hstamp, hcount, hlatest, hjudged, hexplore, rfl⟩
    refine ⟨stamp, hstamp, _, ⟨by exact_mod_cast hcount, rfl⟩, latest, hlatest, judged, hjudged, ?_⟩
    rw [hexplore]
    rfl

theorem trail_read {path : List String} :
    Trail (Derives input.read) (Blocked crypto calendar input.read now) path ↔
      Trail (Derives input) (Blocked crypto calendar input now) path := by
  by_cases h : input.revoked = []
  · have hread : input.read.revoked = [] := by
      unfold Input.read
      rw [if_pos h]
      exact h
    refine iff_of_false ?_ ?_
    · intro htrail
      obtain ⟨_, target, -, htarget, -⟩ := htrail.exists_seed
      exact not_blocked_of_nil hread target htarget
    · intro htrail
      obtain ⟨_, target, -, htarget, -⟩ := htrail.exists_seed
      exact not_blocked_of_nil h target htarget
  · rw [read_of_ne_nil h]

theorem listed_children : Listed (children input) = Derives input := by
  funext parent child
  exact propext mem_children

theorem mem_seedsOf_eq (hcalendar : calendar.RoundTrip) (h : verdicts crypto calendar input now = .ok judged) :
    (· ∈ seedsOf judged) = Blocked crypto calendar input now := by
  funext target
  exact propext (mem_seedsOf hcalendar h)

theorem mem_blocked_iff (hcalendar : calendar.RoundTrip) (harrange : ∀ nodes, (arrange nodes).Perm nodes)
    (h : compute crypto calendar arrange input now = .ok snapshot) :
    id ∈ snapshot.blocked ↔ Reaches (Derives input) (Blocked crypto calendar input now) id := by
  obtain ⟨_, _, judged, found, -, -, -, hjudged, hexplore, rfl⟩ := compute_eq_ok_iff.mp h
  rw [← reaches_read, mem_explore_iff harrange (nodup_seedsOf hjudged) hexplore, listed_children,
    mem_seedsOf_eq hcalendar hjudged]

theorem blocked_later (hcalendar : calendar.RoundTrip)
    (h : compute crypto calendar arrange input now = .ok snapshot) {later : String} {stamp' : ℤ}
    (hnow : instant calendar (.str now) = .ok stamp) (hlater : instant calendar (.str later) = .ok stamp')
    (hle : stamp ≤ stamp') (hdeadline : stamp' < snapshot.deadline)
    (hstamped : ∀ row ∈ input.writes, Stamped crypto calendar input.config stamp row) (target : String) :
    Blocked crypto calendar input later target ↔ Blocked crypto calendar input now target := by
  by_cases hrevoked : input.revoked = []
  · exact iff_of_false (not_blocked_of_nil hrevoked target) (not_blocked_of_nil hrevoked target)
  obtain ⟨_, latest, judged, found, -, -, -, hjudged, -, rfl⟩ := compute_eq_ok_iff.mp h
  rw [read_of_ne_nil hrevoked] at hjudged
  obtain ⟨-, hverdict, hcomplete⟩ := verdicts_spec hjudged
  constructor
  · rintro ⟨hwritten, hnone⟩
    by_contra hfree
    -- The chain that frees the target expires after the deadline.
    obtain ⟨row, hrow, htarget, hcurrent, htouched⟩ := hwritten
    obtain ⟨entry, hentry, heq⟩ := List.mem_map.mp (hcomplete row hrow hcurrent)
    obtain rfl : entry.1 = target := heq.trans htarget
    obtain ⟨hblocks, hexpiry⟩ := judge_spec hcalendar (hverdict entry hentry)
    have hkind : ∃ expiry, entry.2.expiry? = some expiry := by
      cases hcase : entry.2 with
      | untouched =>
        have hjudge := hverdict entry hentry
        rw [hcase] at hjudge
        unfold judge at hjudge
        rw [if_pos (List.any_eq_true.mpr ⟨row, mem_rowsOf.mpr ⟨hrow, htarget, hcurrent⟩, htouched⟩)] at hjudge
        obtain ⟨result, -, hresult⟩ := Py.of_bind hjudge
        cases result <;> cases hresult
      | alternate expiry => exact ⟨expiry, rfl⟩
      | blocked =>
        rw [hcase] at hblocks
        exact absurd (hblocks.mp rfl) hfree
    obtain ⟨expiry, hsome⟩ := hkind
    obtain ⟨other, hother, huntouched, haccepts⟩ := hexpiry expiry hsome
    obtain ⟨hmem, hotherTarget, hotherCurrent⟩ := mem_rowsOf.mp hother
    have hbound := (foldl_min_le (judged.filterMap fun entry ↦ entry.2.expiry?) latest).2 expiry
      (List.mem_filterMap.mpr ⟨entry, hentry, hsome⟩)
    exact hnone other hmem hotherTarget hotherCurrent huntouched
      (accepted_later hcalendar hnow hlater hle (hdeadline.trans_le hbound) haccepts)
  · rintro ⟨hwritten, hnone⟩
    refine ⟨hwritten, ?_⟩
    intro row hrow htarget hcurrent huntouched haccepted
    exact hnone row hrow htarget hcurrent huntouched
      ((hstamped row hrow).accepted_before hnow hlater hle haccepted)

/-- A path of some number of derivations. -/
def DerivesIn (input : Input) : ℕ → String → String → Prop
  | 0, first, last => first = last
  | steps + 1, first, last => ∃ middle, DerivesIn input steps first middle ∧ Derives input middle last

/-- The closure of what is blocked is returned, in every order when it lies within sixteen derivations. -/
structure Exact {ε : Type} [DecidableEq ε] (epoch : Input → ε) (crypto : Crypto) (calendar : Calendar)
    (input : Input) (now : String) : Prop where
  closure : ∀ arrange : List String → List String, (∀ nodes, (arrange nodes).Perm nodes) → ∀ snapshot,
    compute crypto calendar arrange input now = .ok snapshot → ∀ id,
      id ∈ snapshot.blocked ↔ Reaches (Derives input) (Blocked crypto calendar input now) id
  returns : (∀ id, Reaches (Derives input) (Blocked crypto calendar input now) id →
      ∃ target steps, Blocked crypto calendar input now target ∧ steps ≤ 16 ∧ DerivesIn input steps target id) →
    ∀ arrange : List String → List String, (∀ nodes, (arrange nodes).Perm nodes) →
      ∃ snapshot, compute crypto calendar arrange input now = .ok snapshot
  kept : ∀ arrange other : List String → List String, (∀ nodes, (arrange nodes).Perm nodes) →
    (∀ nodes, (other nodes).Perm nodes) → ∀ snapshot,
      compute crypto calendar arrange input now = .ok snapshot → ∀ stamp later stamp',
        instant calendar (.str now) = .ok stamp → instant calendar (.str later) = .ok stamp' → stamp ≤ stamp' →
          stamp' < snapshot.deadline → ∀ files, epoch files = epoch input →
            quarantineSnapshot crypto calendar epoch other (some (epoch input, snapshot)) files later =
                .ok snapshot ∧
              ∀ fresh, compute crypto calendar other files later = .ok fresh → ∀ id,
                id ∈ snapshot.blocked ↔ id ∈ fresh.blocked

namespace Sample

def config : Config where
  agents := [("agent-a", ⟨"hmac-sha256", ["project:a"], .ok Capabilities.Sample.key, "32"⟩)]
  issuers := [("operator", ⟨"hmac-sha256", .ok Capabilities.Sample.key,
    (Capabilities.Sample.rules ["read", "write"] ["project:a"]).toJson⟩)]
  rootKey := .ok Capabilities.Sample.key
  tenant := "tenant-a"

def row : WriteRow := ⟨"s", "hash", Capabilities.Sample.token ["read", "write"] ["project:a"], ["532"]⟩

def object (id : String) (inputs : List String) : String × Lineage.Statement :=
  (id, { id := id, inputs := inputs.map fun parent ↦ (parent, "hash"), operation := "fact", modelId := "m",
         promptHash := "", createdAt := "", actor := .str "agent-a", contentHash := "hash", integrity := .agent,
         rootOrigins := [], confidentiality := [], delegation := none, experiment := none, lineageDigest := "" })

def files (objects : List (String × Lineage.Statement)) : Input := ⟨config, ["532"], objects, [row], []⟩

/-- From `"s"` a long way leads over `"a"` to `"p"` and a short one over `"y"`. -/
def objects : List (String × Lineage.Statement) :=
  [object "s" [], object "a" ["s"], object "b" ["a"], object "c" ["b"], object "d" ["c"], object "e" ["d"],
    object "f" ["e"], object "g" ["f"], object "h" ["g"], object "i" ["h"], object "j" ["i"], object "k" ["j"],
    object "l" ["k"], object "m" ["l"], object "n" ["m"], object "o" ["n"], object "p" ["o", "y"],
    object "y" ["s"], object "z" ["p"]]

def path : List String :=
  ["z", "p", "o", "n", "m", "l", "k", "j", "i", "h", "g", "f", "e", "d", "c", "b", "a", "s"]

def distances : List (String × ℕ) :=
  [("s", 0), ("a", 1), ("y", 1), ("b", 2), ("p", 2), ("c", 3), ("z", 3), ("d", 4), ("e", 5), ("f", 6), ("g", 7),
    ("h", 8), ("i", 9), ("j", 10), ("k", 11), ("l", 12), ("m", 13), ("n", 14), ("o", 15)]

theorem checked_row :
    (check Capabilities.Sample.crypto Capabilities.Sample.calendar config row.chain "tenant-a"
      Capabilities.Sample.now []).isOk = true ∧
    row.current objects ∧ row.touched ["532"] ∧
    compute Capabilities.Sample.crypto Capabilities.Sample.calendar (arrangeAlong path) (files objects)
      Capabilities.Sample.now = .error (.valueError "UniMem delegation dependency depth exceeds scoped bound") := by
  decide +kernel

theorem stamped (objects : List (String × Lineage.Statement)) : ∀ row ∈ (files objects).writes,
    Stamped Capabilities.Sample.crypto Capabilities.Sample.calendar (files objects).config
      63_927_792_000_000_000 row := by
  have haccepted := checked_row.1
  intro other hother
  obtain rfl := List.mem_singleton.mp hother
  cases hcheck : check Capabilities.Sample.crypto Capabilities.Sample.calendar config row.chain "tenant-a"
      Capabilities.Sample.now [] with
  | error error =>
    rw [hcheck] at haccepted
    cases haccepted
  | ok verified =>
    exact ⟨Capabilities.Sample.now, _, "tenant-a", [], verified, Capabilities.Sample.instant_now, le_rfl, hcheck⟩

theorem eq_of_blocked {objects : List (String × Lineage.Statement)}
    (h : Blocked Capabilities.Sample.crypto Capabilities.Sample.calendar (files objects) Capabilities.Sample.now
      target) :
    target = "s" := by
  obtain ⟨⟨other, hother, htarget, -⟩, -⟩ := h
  rw [List.mem_singleton.mp hother] at htarget
  exact htarget.symm

theorem blocked_s : Blocked Capabilities.Sample.crypto Capabilities.Sample.calendar (files objects)
    Capabilities.Sample.now "s" := by
  refine ⟨⟨row, List.mem_cons_self, rfl, checked_row.2.1, checked_row.2.2.1⟩, ?_⟩
  intro other hother _ _ huntouched
  rw [List.mem_singleton.mp hother] at huntouched
  exact absurd checked_row.2.2.1 huntouched

theorem measured_distances : ∀ entry ∈ distances,
    (∀ child ∈ children (files objects) entry.1, ∃ other ∈ distances, other.1 = child) ∧
    (entry.2 = 0 → entry.1 = "s") ∧
    (entry.2 ≠ 0 → ∃ other ∈ distances, other.2 + 1 = entry.2 ∧ entry.1 ∈ children (files objects) other.1) ∧
    entry.2 ≤ 16 := by
  decide +kernel

theorem exists_distance
    (h : Reaches (Derives (files objects))
      (Blocked Capabilities.Sample.crypto Capabilities.Sample.calendar (files objects) Capabilities.Sample.now) id) :
    ∃ steps, (id, steps) ∈ distances := by
  obtain ⟨target, htarget, hpath⟩ := h
  obtain rfl := eq_of_blocked htarget
  induction hpath with
  | refl => exact ⟨0, by simp [distances]⟩
  | tail _ hedge ih =>
    obtain ⟨steps, hsteps⟩ := ih
    obtain ⟨other, hother, rfl⟩ := (measured_distances _ hsteps).1 _ (mem_children.mpr hedge)
    exact ⟨other.2, hother⟩

theorem derivesIn_of_mem {steps : ℕ} (h : (id, steps) ∈ distances) :
    DerivesIn (files objects) steps "s" id := by
  induction steps generalizing id with
  | zero => exact ((measured_distances _ h).2.1 rfl).symm
  | succ steps ih =>
    obtain ⟨⟨other, previous⟩, hother, heq, hchild⟩ := (measured_distances _ h).2.2.1 (Nat.succ_ne_zero _)
    obtain rfl : previous = steps := Nat.succ_injective heq
    exact ⟨other, ih hother, mem_children.mp hchild⟩

end Sample

end UniMem.CapabilityIo
