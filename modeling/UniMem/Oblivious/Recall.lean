import UniMem.Oblivious.Clusters

/-!
# Private recall

The client fetches every block of the selected clusters from two replicas, decodes the blocks and ranks
the records. Over all clusters it finds exactly the records that the clearance admits.
-/

namespace UniMem.Oblivious

open Library FrontierProtocol

/-! ## Replicas -/

/-- `XorPIRReplica`. -/
structure Replica where
  blockBytes : ℤ
  clusters : List (String × List Bytes)

/-- One turn of the loop of `XorPIRReplica.__init__`. -/
def checkCluster (blockBytes : ℤ) (entry : String × List Bytes) : Py Unit := do
  let _ ← text entry.1 "cluster name" 96
  batchBudget entry.2.length blockBytes
  Py.require (entry.2.all fun block ↦ block.length = blockBytes)
    (.valueError "database blocks are not fixed-size")

/-- `XorPIRReplica.__init__`. -/
def Replica.init (clusters : List (String × List Bytes)) (blockBytes : ℤ) : Py Replica := do
  let _ ← count blockBytes 1 maxBlockBytes "count"
  Py.require (1 ≤ clusters.length ∧ clusters.length ≤ maxClusters)
    (.valueError "PIR replica must contain 1..256 clusters")
  let _ ← Py.collect (Py.always (checkCluster blockBytes)) clusters
  Py.require ((clusters.map fun entry ↦ entry.2.length).dedup.length = 1)
    (.valueError "PIR clusters must have a uniform public capacity")
  return ⟨blockBytes, clusters⟩

/-- `self._clusters.get(cluster)`. -/
def Replica.blocks (replica : Replica) (cluster : String) : Py (List Bytes) :=
  match replica.clusters.lookup cluster with
  | some blocks => .ok blocks
  | none => .error (.keyError "unknown public cluster")

/-- `handle_many`. -/
def Replica.handleMany (replica : Replica) (cluster : String) (shares : List Bytes) :
    Py (List Bytes) := do
  serverAnswerMany (← replica.blocks cluster) shares replica.blockBytes

/-- What `fetch_pair` returns: the metadata of a cluster, or batches of answers. -/
inductive Reply where
  | metadata (count blockBytes : ℤ)
  | answers (batches : List (List Bytes))

/-- A `fetch_pair` that asks two replicas, and the first one for metadata. -/
def fetchPair (first second : Replica) (cluster : String) :
    Option (List Bytes × List Bytes) → Py Reply
  | none => do
    let blocks ← first.blocks cluster
    return .metadata blocks.length first.blockBytes
  | some (shares, shares') => do
    let answers ← first.handleMany cluster shares
    let answers' ← second.handleMany cluster shares'
    return .answers [answers, answers']

/-! ## The client -/

/-- `_decode_block`. -/
def decodeBlock (loads : Bytes → Option Json) (block : Bytes) : Py (Option Json) :=
  let value := block.rdropWhile (· = 0)
  if value.isEmpty then .ok none
  else
    match loads value with
    | none => .error (.valueError "PIR block does not contain valid bounded JSON")
    | some (.obj fields) => do
      let _ ← wire (.obj fields)
      return some (.obj fields)
    | some _ => .error (.valueError "PIR block is not a memory object")

variable {κ : Type}

/-- What the client is given besides `fetch_pair`, after its checks. -/
structure Query where
  labels : List String
  clearance : String
  ceiling : ℕ
  vector : List ℚ

/-- The distance and the identity by which a record is ranked. -/
def rankKey (distance : List ℚ → List ℚ → κ) (query : Query) (record : Json) : Py (κ ×ₗ String) := do
  let numbers ← vector ((record.get? "vector").getD .null)
  return toLex (← distanceOf distance query.vector numbers, recordId record)

/-- The check on the label of a decoded record. -/
def checkLabel (query : Query) (record : Json) : Py Unit :=
  let outside : PyError := .valueError "server returned a label outside the configured hierarchy"
  match record.get? "label" with
  | some (.str label) => do
    Py.require (query.clearance ∈ query.labels ∧ label ∈ query.labels) outside
    Py.require (query.labels.idxOf label ≤ query.ceiling)
      (.valueError "server returned content above the requested clearance")
  | _ => .error outside

/-- The check on the identity of a decoded record. -/
def checkIdentity (record : Json) : Py String :=
  match record.get? "id" with
  | some (.str identity) => text identity "memory id" 256
  | _ => .error (.valueError "memory id must be a string")

/-- The checks on a decoded record. -/
def checkRecord (distance : List ℚ → List ℚ → κ) (query : Query) (record : Json) : Py Json := do
  checkLabel query record
  let _ ← checkIdentity record
  let _ ← rankKey distance query record
  return record

/-- The record of a block, when it holds one. -/
def readBlock (distance : List ℚ → List ℚ → κ) (loads : Bytes → Option Json) (query : Query)
    (block : Bytes) : Py (Option Json) := do
  match ← decodeBlock loads block with
  | none => return none
  | some record => return some (← checkRecord distance query record)

/-- One turn of the loop over the clusters, with the randomness of each. -/
def fetchCluster (distance : List ℚ → List ℚ → κ) (loads : Bytes → Option Json)
    (tokenBytes : String → ℕ → ℕ → Bytes)
    (fetch : String → Option (List Bytes × List Bytes) → Py Reply) (query : Query)
    (cluster : String) : Py (List Json × ℕ) := do
  match ← fetch cluster none with
  | .answers _ => throw (.valueError "PIR server metadata requires count and block_bytes")
  | .metadata size blockBytes =>
    batchBudget size blockBytes
    let shares ← Py.collect (Py.always fun index : ℕ ↦
      splitQuery index size (tokenBytes cluster index (bitmapBytes size.toNat))) (List.range size.toNat)
    match ← fetch cluster (some (shares.map Prod.fst, shares.map Prod.snd)) with
    | .answers [first, second] =>
      Py.require ([first, second].all fun batch ↦ batch.length = size)
        (.valueError "PIR server returned an incomplete answer batch")
      Py.require ([first, second].all fun batch ↦ batch.all fun block ↦ block.length = blockBytes)
        (.valueError "PIR response blocks do not match the advertised fixed size")
      let records ← Py.collect (fun answers ↦ do
        readBlock distance loads query (← reconstruct answers.1 answers.2)) (first.zip second)
      return (records, (first.zip second).length)
    | _ => throw (.valueError "PIR requires exactly two server answer batches")

/-- The loop over the selected clusters. -/
def fetchClusters (distance : List ℚ → List ℚ → κ) (loads : Bytes → Option Json)
    (tokenBytes : String → ℕ → ℕ → Bytes)
    (fetch : String → Option (List Bytes × List Bytes) → Py Reply) (query : Query) :
    List String → Py (List Json × ℕ)
  | [] => .ok ([], 0)
  | cluster :: clusters => do
    let (records, fetched) ← fetchCluster distance loads tokenBytes fetch query cluster
    let (rest, count) ← fetchClusters distance loads tokenBytes fetch query clusters
    return (records ++ rest, fetched + count)

/-- What `client_recall` returns, besides its constants. -/
structure Recall where
  results : List Json
  clustersFetched : ℕ
  clusterCount : ℕ
  blocksFetched : ℕ

variable [LinearOrder κ] in
/-- The clusters that the client selects, the nearest first. -/
def selectClusters (distance : List ℚ → List ℚ → κ) (query : List ℚ)
    (centroids : List (String × List ℚ)) (total : ℤ) : Py (List String) := do
  let keyed ← distances distance query centroids
  return ((sortBy id keyed).map fun key ↦ (ofLex key).2).take total.toNat

variable [LinearOrder κ] in
/-- `sorted(found, key=...)`. -/
def rank (distance : List ℚ → List ℚ → κ) (query : Query) (found : List Json) : Py (List Json) := do
  let keyed ← Py.collect (Py.always fun record ↦ do
    return (← rankKey distance query record, record)) found
  return (sortBy Prod.fst keyed).map Prod.snd

variable [LinearOrder κ] in
/-- `client_recall`. -/
def clientRecall (distance : List ℚ → List ℚ → κ) (loads : Bytes → Option Json)
    (tokenBytes : String → ℕ → ℕ → Bytes)
    (fetch : String → Option (List Bytes × List Bytes) → Py Reply)
    (centroids : List (String × Json)) (queryVector : Json) (clearance : String) (limit : ℤ)
    (clustersToFetch : Option ℤ) (labels : List String) : Py Recall := do
  let _ ← count limit 1 100 "count"
  let ceiling ← hierarchy labels clearance
  Py.require (centroids ≠ [] ∧ centroids.length ≤ maxClusters)
    (.valueError "centroid index must contain 1..256 clusters")
  let numbers ← vector queryVector
  let vectors ← readCentroids centroids
  let total ← clustersToFetch.elim (.ok (vectors.length : ℤ) : Py ℤ) fun wanted ↦
    count wanted 1 (min maxClusters vectors.length : ℕ) "count"
  let selected ← selectClusters distance numbers vectors total
  let query : Query := ⟨labels, clearance, ceiling, numbers⟩
  let (found, fetched) ← fetchClusters distance loads tokenBytes fetch query selected
  let ranked ← rank distance query found
  return ⟨ranked.take limit.toNat, selected.length, vectors.length, fetched⟩

/-! ## Blocks and records -/

theorem component_sortKeys (value : Json) : component value.sortKeys = component value := by
  cases value <;> rfl

theorem vector_sortKeys (value : Json) : vector value.sortKeys = vector value := by
  cases value with
  | arr items =>
    have hread : (fun value : Json ↦ Py.always component value.sortKeys) = Py.always component := by
      funext value
      rw [Py.always, Py.always, component_sortKeys]
    rw [Json.sortKeys, Json.sortKeysItems_eq, vector, vector, List.length_map, Py.collect_map, hread]
  | _ => rfl

theorem recordId_sortKeys (record : Json) : recordId record.sortKeys = recordId record := by
  rw [recordId, recordId, Json.get?_sortKeys]
  cases record.get? "id" with
  | none => rfl
  | some value => cases value <;> rfl

theorem canonicalBytes_obj (fields : List (String × Json)) :
    ∃ start, canonicalBytes (.obj fields) = start ++ [0x7d] := by
  rw [canonicalBytes, Json.sortKeys]
  cases (Json.sortKeysFields fields).insertionSort fun a b ↦ a.1 ≤ b.1 with
  | nil => exact ⟨[0x7b], rfl⟩
  | cons field fields =>
    rw [Json.encode, ← List.cons_append]
    exact ⟨_, rfl⟩

theorem rdropWhile_ljust (fields : List (String × Json)) (blockBytes : ℕ) :
    (ljust (canonicalBytes (.obj fields)) blockBytes).rdropWhile (· = 0) = canonicalBytes (.obj fields) := by
  obtain ⟨start, hstart⟩ := canonicalBytes_obj fields
  rw [ljust, hstart]
  induction blockBytes - (start ++ [0x7d]).length with
  | zero =>
    rw [List.replicate_zero, List.append_nil]
    exact List.rdropWhile_concat_neg _ _ _ (by decide)
  | succ total ih =>
    rw [List.replicate_succ', ← List.append_assoc, List.rdropWhile_concat_pos _ _ _ (by decide), ih]

theorem rdropWhile_zeros (blockBytes : ℕ) :
    (List.replicate blockBytes (0 : UInt8)).rdropWhile (· = 0) = [] := by
  rw [List.rdropWhile_eq_nil_iff]
  intro byte hbyte
  exact decide_eq_true (List.eq_of_mem_replicate hbyte)

/-- The numbers of the vector of a record. -/
def numbersOf (record : Json) : List ℚ :=
  ((vector ((record.get? "vector").getD .null)).toOption).getD []

/-- The position of a record for a query. -/
def rankOf (distance : List ℚ → List ℚ → κ) (numbers : List ℚ) (record : Json) : κ ×ₗ String :=
  toLex (distance numbers (numbersOf record), recordId record)

theorem numbersOf_sortKeys (record : Json) : numbersOf record.sortKeys = numbersOf record := by
  rw [numbersOf, numbersOf, Json.get?_sortKeys]
  cases record.get? "vector" with
  | none => rfl
  | some value => rw [Option.map_some, Option.getD_some, Option.getD_some, vector_sortKeys]

theorem rankOf_sortKeys (distance : List ℚ → List ℚ → κ) (numbers : List ℚ) (record : Json) :
    rankOf distance numbers record.sortKeys = rankOf distance numbers record := by
  rw [rankOf, rankOf, numbersOf_sortKeys, recordId_sortKeys]

theorem rankKey_sortKeys (distance : List ℚ → List ℚ → κ) (query : Query) (record : Json) :
    rankKey distance query record.sortKeys = rankKey distance query record := by
  rw [rankKey, rankKey, Json.get?_sortKeys, recordId_sortKeys]
  cases record.get? "vector" with
  | none => rfl
  | some value => rw [Option.map_some, Option.getD_some, Option.getD_some, vector_sortKeys]

variable {record : Json} {query : Query} {found admitted : List Json} {clearance : String}
  {labels selected : List String} {blocksPerCluster : ℤ} {checked : Settings} {numbers : List ℚ}

theorem Admitted.rankKey_eq {settings : Settings} (h : Admitted settings record) (distance : List ℚ → List ℚ → κ)
    (hne : query.vector ≠ []) (hvectors : settings.vectors ≠ [])
    (hdimension : ∀ entry ∈ settings.vectors, query.vector.length = entry.2.length) :
    rankKey distance query record = .ok (rankOf distance query.vector record) := by
  obtain ⟨value, numbers, hvalue, hnumbers, hlengths⟩ := h.vector
  obtain ⟨entry, hentry⟩ := List.exists_mem_of_ne_nil _ hvectors
  have hdistance : distanceOf distance query.vector numbers = .ok (distance query.vector numbers) := by
    refine distanceOf_eq_ok_iff.mpr ⟨⟨?_, hne⟩, rfl⟩
    rw [hdimension entry hentry, hlengths entry hentry]
  rw [rankKey, rankOf, numbersOf, hvalue, Option.getD_some, hnumbers, Py.bind_ok, hdistance]
  rfl

theorem Admitted.readBlock_eq {settings : Settings} (h : Admitted settings record)
    (distance : List ℚ → List ℚ → κ) {loads : Bytes → Option Json}
    (hloads : loads (canonicalBytes record) = some record.sortKeys) (hlabels : query.labels = settings.labels)
    (hceiling : query.ceiling = settings.ceiling) (hclearance : query.clearance ∈ query.labels)
    (hne : query.vector ≠ []) (hvectors : settings.vectors ≠ [])
    (hdimension : ∀ entry ∈ settings.vectors, query.vector.length = entry.2.length) :
    readBlock distance loads query (block settings record) = .ok (some record.sortKeys) := by
  obtain ⟨label, hlabel, hmem, hbelow⟩ := h.label
  obtain ⟨hidentity, htext⟩ := h.identity
  have hrank := h.rankKey_eq distance hne hvectors hdimension
  have hcheck : checkRecord distance query record.sortKeys = .ok record.sortKeys := by
    rw [checkRecord, checkLabel, checkIdentity, rankKey_sortKeys, hrank, Json.get?_sortKeys,
      Json.get?_sortKeys, hlabel, hidentity, hlabels, hceiling]
    simp only [Option.map_some, Json.sortKeys, htext, hlabels ▸ hclearance, hmem, hbelow, and_self,
      decide_true, Py.require_true, Py.bind_ok, Py.pure_eq_ok]
  cases record with
  | obj fields =>
    have hdecode : decodeBlock loads (block settings (.obj fields)) =
        .ok (some (Json.obj fields).sortKeys) := by
      obtain ⟨start, hstart⟩ := canonicalBytes_obj fields
      have hnonempty : (canonicalBytes (.obj fields)).isEmpty = false := by
        rw [hstart]
        simp
      have hwire := (h.wirable.of_noLarger (noLarger_sortKeys _)).wire_eq
      rw [Json.sortKeys] at hloads hwire ⊢
      rw [decodeBlock, block, rdropWhile_ljust, hnonempty, hloads]
      simp only [Bool.false_eq_true, if_false, hwire, Py.bind_ok, Py.pure_eq_ok]
    rw [readBlock, hdecode, Py.bind_ok]
    simp only [hcheck, Py.bind_ok, Py.pure_eq_ok]
  | _ => simp [Json.get?] at hlabel

theorem readBlock_zeros (distance : List ℚ → List ℚ → κ) (loads : Bytes → Option Json) (query : Query)
    (blockBytes : ℕ) : readBlock distance loads query (List.replicate blockBytes 0) = .ok none := by
  rw [readBlock, decodeBlock, rdropWhile_zeros]
  rfl

/-! ## Fetches -/

/-- The answer of a server that does not raise. -/
def answerOf (blocks : List Bytes) (blockBytes : ℤ) (share : Bytes) : Bytes :=
  ((serverAnswer blocks share blockBytes).toOption).getD []

/-- The shares of the query for every block of a cluster. -/
def sharesOf (token : ℕ → Bytes) (total : ℕ) : List (Bytes × Bytes) :=
  (List.range total).map fun index ↦ (token index, flip (token index) index)

theorem collect_splitQuery (token : ℕ → Bytes) {total : ℕ} (hpos : 0 < total) (hmax : total ≤ maxBlocksPerCluster)
    (htoken : ∀ index, (token index).length = bitmapBytes total) :
    Py.collect (Py.always fun index : ℕ ↦ splitQuery index total (token index)) (List.range total) =
      .ok (sharesOf token total) := by
  refine Py.collect_always_eq_ok fun index hindex ↦ ?_
  rw [List.mem_range] at hindex
  have hlength : (token index).length = bitmapBytes (total : ℤ).toNat := htoken index
  rw [splitQuery, count_of_mem _ (by omega) (by omega), count_of_mem _ (by omega) (by omega), decide_eq_true hlength]
  rfl

theorem answers_spec {blocks : List Bytes} {blockBytes : ℤ} (hbudget : batchBudget blocks.length blockBytes = .ok ())
    (hblocks : ∀ block ∈ blocks, block.length = blockBytes.toNat) {token : ℕ → Bytes}
    (htoken : ∀ index, (token index).length = bitmapBytes blocks.length) {index : ℕ}
    (hindex : index < blocks.length) :
    serverAnswer blocks (token index) blockBytes = .ok (answerOf blocks blockBytes (token index)) ∧
      serverAnswer blocks (flip (token index) index) blockBytes =
        .ok (answerOf blocks blockBytes (flip (token index) index)) ∧
      (answerOf blocks blockBytes (token index)).length = blockBytes.toNat ∧
      (answerOf blocks blockBytes (flip (token index) index)).length = blockBytes.toNat ∧
      reconstruct (answerOf blocks blockBytes (token index))
        (answerOf blocks blockBytes (flip (token index) index)) = .ok (blocks.getD index []) := by
  have hblock : blocks[index]? = some (blocks.getD index []) := by
    rw [List.getElem?_eq_getElem hindex, List.getD_eq_getElem _ _ hindex]
  obtain ⟨first, second, hfirst, hsecond, hfirstLength, hsecondLength, hreconstruct⟩ :=
    reconstruct_serverAnswer hbudget hblocks (htoken index) hblock
  have hanswer : answerOf blocks blockBytes (token index) = first := by
    rw [answerOf, hfirst]
    rfl
  have hanswer' : answerOf blocks blockBytes (flip (token index) index) = second := by
    rw [answerOf, hsecond]
    rfl
  rw [hanswer, hanswer']
  exact ⟨hfirst, hsecond, hfirstLength, hsecondLength, hreconstruct⟩

variable {blockBytes : ℤ} {provision : Provision}

theorem serverAnswerMany_eq {blocks : List Bytes} (hbudget : batchBudget blocks.length blockBytes = .ok ())
    {shares : List Bytes} (hlength : shares.length = blocks.length)
    (hanswers : ∀ share ∈ shares, serverAnswer blocks share blockBytes = .ok (answerOf blocks blockBytes share)) :
    serverAnswerMany blocks shares blockBytes = .ok (shares.map (answerOf blocks blockBytes)) := by
  rw [serverAnswerMany, decide_eq_true hlength, Py.require_true, Py.bind_ok, hbudget, Py.bind_ok,
    Py.collect_always_eq_ok hanswers]

theorem fetchCluster_eq (distance : List ℚ → List ℚ → κ) (loads : Bytes → Option Json)
    {tokenBytes : String → ℕ → ℕ → Bytes}
    (htoken : ∀ cluster index total, (tokenBytes cluster index total).length = total)
    {first second : Replica} {cluster : String} {blocks : List Bytes}
    (hfirst : first.clusters.lookup cluster = some blocks)
    (hsecond : second.clusters.lookup cluster = some blocks) (hbytes : second.blockBytes = first.blockBytes)
    (hbudget : batchBudget blocks.length first.blockBytes = .ok ())
    (hblocks : ∀ block ∈ blocks, block.length = first.blockBytes.toNat) (query : Query) :
    fetchCluster distance loads tokenBytes (fetchPair first second) query cluster =
      (fun records ↦ (records, blocks.length)) <$> Py.collect (readBlock distance loads query) blocks := by
  obtain ⟨⟨hpos, hmax⟩, hpositive, -⟩ := batchBudget_eq_ok_iff.mp hbudget
  let token : ℕ → Bytes := fun index ↦ tokenBytes cluster index (bitmapBytes blocks.length)
  have hlength : ∀ index, (token index).length = bitmapBytes blocks.length :=
    fun index ↦ htoken cluster index _
  have hanswer := @answers_spec blocks first.blockBytes hbudget hblocks token hlength
  have hshares : Py.collect (Py.always fun index : ℕ ↦ splitQuery index blocks.length
      (tokenBytes cluster index (bitmapBytes blocks.length))) (List.range blocks.length) =
      .ok (sharesOf token blocks.length) := collect_splitQuery token (by omega) (by omega) hlength
  have hbatch : first.handleMany cluster ((sharesOf token blocks.length).map Prod.fst) =
      .ok ((List.range blocks.length).map fun index ↦ answerOf blocks first.blockBytes (token index)) := by
    rw [Replica.handleMany, Replica.blocks, hfirst, Py.bind_ok, serverAnswerMany_eq hbudget]
    · simp only [sharesOf, List.map_map, Function.comp_def]
    · simp [sharesOf]
    · simp only [sharesOf, List.map_map, List.forall_mem_map, List.mem_range, Function.comp_apply]
      exact fun index hindex ↦ (hanswer hindex).1
  have hbatch' : second.handleMany cluster ((sharesOf token blocks.length).map Prod.snd) =
      .ok ((List.range blocks.length).map fun index ↦
        answerOf blocks first.blockBytes (flip (token index) index)) := by
    rw [Replica.handleMany, Replica.blocks, hsecond, Py.bind_ok, hbytes, serverAnswerMany_eq hbudget]
    · simp only [sharesOf, List.map_map, Function.comp_def]
    · simp [sharesOf]
    · simp only [sharesOf, List.map_map, List.forall_mem_map, List.mem_range, Function.comp_apply]
      exact fun index hindex ↦ (hanswer hindex).2.1
  have hread : Py.collect (fun answers : Bytes × Bytes ↦ do
        readBlock distance loads query (← reconstruct answers.1 answers.2))
      ((List.range blocks.length).map fun index ↦ (answerOf blocks first.blockBytes (token index),
        answerOf blocks first.blockBytes (flip (token index) index))) =
      Py.collect (readBlock distance loads query) blocks := by
    have hself : (List.range blocks.length).map (fun index ↦ blocks.getD index []) = blocks := by
      refine List.ext_getElem (by simp) fun index hindex hindex' ↦ ?_
      rw [List.getElem_map, List.getElem_range, List.getD_eq_getElem _ _ hindex']
    conv_rhs => rw [← hself]
    rw [Py.collect_map, Py.collect_map]
    refine Py.collect_congr fun index hindex ↦ ?_
    rw [(hanswer (List.mem_range.mp hindex)).2.2.2.2, Py.bind_ok]
  have hcount : (first.blocks cluster) = .ok blocks := by rw [Replica.blocks, hfirst]
  rw [fetchCluster, fetchPair, hcount, Py.bind_ok, Py.pure_eq_ok, Py.bind_ok]
  have hsizes : ([(List.range blocks.length).map fun index ↦ answerOf blocks first.blockBytes (token index),
      (List.range blocks.length).map fun index ↦
        answerOf blocks first.blockBytes (flip (token index) index)].all
      fun batch ↦ (batch.length : ℤ) = blocks.length) = true := by simp
  have hfixed : ([(List.range blocks.length).map fun index ↦ answerOf blocks first.blockBytes (token index),
      (List.range blocks.length).map fun index ↦
        answerOf blocks first.blockBytes (flip (token index) index)].all
      fun batch ↦ batch.all fun block ↦ (block.length : ℤ) = first.blockBytes) = true := by
    simp only [List.all_cons, List.all_nil, Bool.and_true, Bool.and_eq_true, List.all_eq_true,
      List.forall_mem_map, List.mem_range, decide_eq_true_eq]
    constructor
    · intro index hindex
      have hlengths := (hanswer hindex).2.2.1
      omega
    · intro index hindex
      have hlengths := (hanswer hindex).2.2.2.1
      omega
  simp only [hbudget, Py.bind_ok, Int.toNat_natCast, hshares, fetchPair, hbatch, hbatch', Py.pure_eq_ok,
    hsizes, hfixed, Py.require_true, List.zip_map', hread, List.length_map, List.length_range]
  cases Py.collect (readBlock distance loads query) blocks <;> rfl

theorem fetchClusters_eq_ok {distance : List ℚ → List ℚ → κ} {loads : Bytes → Option Json}
    {tokenBytes : String → ℕ → ℕ → Bytes} {fetch : String → Option (List Bytes × List Bytes) → Py Reply}
    {blocks : String → List Bytes} {clusters : List String}
    (hfetch : ∀ cluster ∈ clusters, fetchCluster distance loads tokenBytes fetch query cluster =
      (fun records ↦ (records, (blocks cluster).length)) <$>
        Py.collect (readBlock distance loads query) (blocks cluster))
    (hfound : Py.collect (readBlock distance loads query) (clusters.flatMap blocks) = .ok found) :
    fetchClusters distance loads tokenBytes fetch query clusters = .ok (found, (clusters.flatMap blocks).length) := by
  induction clusters generalizing found with
  | nil =>
    cases hfound
    rfl
  | cons cluster clusters ih =>
    rw [List.forall_mem_cons] at hfetch
    rw [List.flatMap_cons] at hfound
    obtain ⟨records, rest, hrecords, hrest, rfl⟩ := Py.collect_append_eq_ok_iff.mp hfound
    rw [fetchClusters, hfetch.1, hrecords, Py.map_ok, Py.bind_ok, ih hfetch.2 hrest, List.flatMap_cons,
      List.length_append]
    rfl

/-! ## Replicas of the clusters -/

theorem extend_spec {settings : Settings} (h : Filled settings admitted provision) {entry : String × List Bytes}
    (hentry : entry ∈ provision.clusters) :
    (extend settings entry.2).length = settings.blocksPerCluster ∧
      ∀ block ∈ extend settings entry.2, block.length = settings.blockBytes := by
  constructor
  · have hroom := h.room entry hentry
    rw [extend, List.length_append, List.length_replicate]
    omega
  · rw [extend, List.forall_mem_append]
    constructor
    · intro bytes hbytes
      have hmem : bytes ∈ provision.clusters.flatMap Prod.snd := List.mem_flatMap.mpr ⟨entry, hentry, hbytes⟩
      obtain ⟨record, hrecord, rfl⟩ := List.mem_map.mp (h.blocks.mem_iff.mp hmem)
      have hlength := (h.admitted record hrecord).length_le
      rw [block, ljust, List.length_append, List.length_replicate]
      omega
    · intro bytes hbytes
      rw [List.eq_of_mem_replicate hbytes, List.length_replicate]

theorem init_eq {centroids : List (String × Json)} {records : ℕ}
    (hchecked : settings centroids clearance labels blockBytes blocksPerCluster records = .ok checked)
    (h : Filled checked admitted provision) :
    Replica.init (padded checked provision) blockBytes = .ok ⟨blockBytes, padded checked provision⟩ := by
  obtain ⟨⟨hne, hmax⟩, hbytes, hbudget, -, hvectors, -, hblockBytes, hcapacity⟩ := settings_spec hchecked
  obtain ⟨hnames, htexts, -⟩ := readCentroids_spec hvectors
  have hlength : provision.clusters.length = centroids.length := by
    have hlengths := congrArg List.length h.names
    rw [(sortBy_perm id _).length_eq, hnames, List.length_map, List.length_map] at hlengths
    exact hlengths
  have hpos : 0 < centroids.length := List.length_pos_iff.mpr hne
  have hclusters : Py.collect (Py.always (checkCluster blockBytes)) (padded checked provision) =
      .ok ((padded checked provision).map fun _ ↦ ()) := by
    refine Py.collect_always_eq_ok ?_
    rw [padded, List.forall_mem_map]
    intro entry hentry
    obtain ⟨htotal, hsizes⟩ := extend_spec h hentry
    obtain ⟨hcapacityBounds, -⟩ := batchBudget_eq_ok_iff.mp hbudget
    have hname : text entry.1 "cluster name" 96 = .ok entry.1 := by
      have hmem : entry.1 ∈ sortBy id (checked.vectors.map Prod.fst) := by
        rw [← h.names]
        exact List.mem_map.mpr ⟨entry, hentry, rfl⟩
      exact htexts entry.1 (mem_sortBy.mp hmem)
    have hcapacity' : ((extend checked entry.2).length : ℤ) = blocksPerCluster := by omega
    have hall : (extend checked entry.2).all (fun block ↦ (block.length : ℤ) = blockBytes) = true := by
      rw [List.all_eq_true]
      intro bytes hmem
      have hsize := hsizes bytes hmem
      exact decide_eq_true (by omega)
    rw [checkCluster, hname, Py.bind_ok, hcapacity', hbudget, Py.bind_ok, hall, Py.require_true]
  have huniform : ((padded checked provision).map fun entry ↦ entry.2.length) =
      List.replicate provision.clusters.length checked.blocksPerCluster := by
    rw [padded, List.map_map, List.eq_replicate_iff]
    refine ⟨by simp, ?_⟩
    rw [List.forall_mem_map]
    exact fun entry hentry ↦ (extend_spec h hentry).1
  rw [Replica.init, count_of_mem _ (by omega) hbytes.2, Py.bind_ok, hclusters, huniform,
    List.replicate_dedup (by omega), padded, List.length_map, hlength]
  have hbounds : 1 ≤ centroids.length ∧ centroids.length ≤ maxClusters := ⟨hpos, hmax⟩
  simp only [hbounds, and_self, decide_true, Py.require_true, Py.bind_ok, List.length_singleton, Py.pure_eq_ok]

theorem names_padded {settings : Settings} (h : Filled settings admitted provision) :
    (padded settings provision).map Prod.fst = sortBy id (settings.vectors.map Prod.fst) := by
  rw [padded, List.map_map, ← h.names]
  rfl

theorem flatMap_lookup_perm {clusters : List (String × List Bytes)} (hnodup : (clusters.map Prod.fst).Nodup)
    (h : selected.Perm (clusters.map Prod.fst)) :
    (selected.flatMap fun cluster ↦ (clusters.lookup cluster).getD []).Perm (clusters.flatMap Prod.snd) := by
  refine (h.flatMap_right _).trans (List.Perm.of_eq ?_)
  rw [List.flatMap_map]
  apply List.flatMap_congr
  intro entry hentry
  rw [(lookup_eq_some_iff_mem hnodup).mpr hentry, Option.getD_some]

theorem collect_readBlock (distance : List ℚ → List ℚ → κ) {loads : Bytes → Option Json} {settings : Settings}
    (h : Filled settings admitted provision)
    (hread : ∀ record ∈ admitted, readBlock distance loads query (block settings record) = .ok (some record.sortKeys))
    {blocks : List Bytes} (hblocks : blocks.Perm ((padded settings provision).flatMap Prod.snd)) :
    ∃ found, Py.collect (readBlock distance loads query) blocks = .ok found ∧
      found.Perm (admitted.map Json.sortKeys) := by
  have hzeros : Py.collect (readBlock distance loads query) (provision.clusters.flatMap fun entry ↦
      List.replicate (settings.blocksPerCluster - entry.2.length)
        (List.replicate settings.blockBytes 0)) = .ok [] := by
    have hnone : ∀ bytes ∈ provision.clusters.flatMap fun entry ↦
        List.replicate (settings.blocksPerCluster - entry.2.length)
          (List.replicate settings.blockBytes 0),
        readBlock distance loads query bytes = .ok none := by
      intro bytes hbytes
      obtain ⟨entry, -, hmem⟩ := List.mem_flatMap.mp hbytes
      rw [List.eq_of_mem_replicate hmem]
      exact readBlock_zeros distance loads query _
    rw [Py.collect_eq_ok hnone, List.filterMap_none]
  have hrecords : Py.collect (readBlock distance loads query) (admitted.map (block settings)) =
      .ok (admitted.map Json.sortKeys) := by
    rw [Py.collect_map, Py.collect_eq_ok hread, List.filterMap_eq_map']
  have hperm : blocks.Perm (admitted.map (block settings) ++ provision.clusters.flatMap fun entry ↦
      List.replicate (settings.blocksPerCluster - entry.2.length)
        (List.replicate settings.blockBytes 0)) := by
    rw [padded, List.flatMap_map] at hblocks
    refine hblocks.trans ((List.flatMap_append_perm _ _ _).symm.trans ?_)
    exact h.blocks.append_right _
  have hall := Py.collect_append_eq_ok_iff.mpr ⟨_, _, hrecords, hzeros, rfl⟩
  obtain ⟨found, hfound, hsame⟩ := Py.collect_perm hperm.symm hall
  rw [List.append_nil] at hsame
  exact ⟨found, hfound, hsame.symm⟩

theorem fetchClusters_padded (distance : List ℚ → List ℚ → κ) {loads : Bytes → Option Json}
    {tokenBytes : String → ℕ → ℕ → Bytes}
    (htoken : ∀ cluster index total, (tokenBytes cluster index total).length = total)
    {centroids : List (String × Json)} {records : ℕ}
    (hchecked : settings centroids clearance labels blockBytes blocksPerCluster records = .ok checked)
    (h : Filled checked admitted provision) (hvectors : (checked.vectors.map Prod.fst).Nodup)
    (hread : ∀ record ∈ admitted, readBlock distance loads query (block checked record) = .ok (some record.sortKeys))
    (hselected : selected.Perm (checked.vectors.map Prod.fst)) :
    ∃ found fetched, fetchClusters distance loads tokenBytes
        (fetchPair ⟨blockBytes, padded checked provision⟩ ⟨blockBytes, padded checked provision⟩) query
        selected = .ok (found, fetched) ∧ found.Perm (admitted.map Json.sortKeys) := by
  obtain ⟨-, -, hbudget, -, -, -, hblockBytes, hcapacity⟩ := settings_spec hchecked
  have hpos := (batchBudget_eq_ok_iff.mp hbudget).1
  have hnodup : ((padded checked provision).map Prod.fst).Nodup := by
    rw [names_padded h]
    exact (sortBy_perm id _).nodup_iff.mpr hvectors
  have hnames : selected.Perm ((padded checked provision).map Prod.fst) := by
    rw [names_padded h]
    exact hselected.trans (sortBy_perm id _).symm
  obtain ⟨found, hfound, hsame⟩ := collect_readBlock distance h hread (flatMap_lookup_perm hnodup hnames)
  refine ⟨found, _, fetchClusters_eq_ok (fun cluster hcluster ↦ ?_) hfound, hsame⟩
  obtain ⟨entry, hentry, rfl⟩ := List.mem_map.mp (hnames.mem_iff.mp hcluster)
  have hlookup := (lookup_eq_some_iff_mem hnodup).mpr hentry
  obtain ⟨source, hsource, rfl⟩ := List.mem_map.mp hentry
  obtain ⟨htotal, hsizes⟩ := extend_spec h hsource
  have hcount : ((extend checked source.2).length : ℤ) = blocksPerCluster := by omega
  rw [hlookup, Option.getD_some]
  refine fetchCluster_eq distance loads htoken hlookup hlookup rfl ?_ ?_ query
  · rw [hcount]
    exact hbudget
  · intro bytes hbytes
    rw [hsizes bytes hbytes, hblockBytes]

/-! ## Ranking -/

theorem rankOf_inj {distance : List ℚ → List ℚ → κ} {records : List Json} (hnodup : (records.map recordId).Nodup) :
    ∀ a ∈ records, ∀ b ∈ records, rankOf distance numbers a = rankOf distance numbers b → a = b := by
  intro a ha b hb heq
  have hid : recordId a = recordId b := congrArg (fun key ↦ (ofLex key).2) heq
  exact List.inj_on_of_nodup_map hnodup ha hb hid

variable [LinearOrder κ]

theorem rank_eq {distance : List ℚ → List ℚ → κ}
    (h : ∀ record ∈ found, rankKey distance query record = .ok (rankOf distance query.vector record)) :
    rank distance query found = .ok (sortBy (rankOf distance query.vector) found) := by
  have hkeyed : Py.collect (Py.always fun record ↦ do
      return (← rankKey distance query record, record)) found =
      .ok (found.map fun record ↦ (rankOf distance query.vector record, record)) := by
    refine Py.collect_always_eq_ok fun record hrecord ↦ ?_
    rw [h record hrecord]
    rfl
  rw [rank, hkeyed, Py.bind_ok, sortBy_map, List.map_map]
  exact congrArg Except.ok (List.map_id _)

theorem nodup_found {settings : Settings} (h : Filled settings admitted provision)
    (hfound : found.Perm (admitted.map Json.sortKeys)) :
    (found.map recordId).Nodup := by
  refine (hfound.map recordId).nodup_iff.mpr ?_
  have hids : (recordId ∘ Json.sortKeys) = recordId := funext recordId_sortKeys
  rw [List.map_map, hids]
  exact h.identities.nodup_iff.mp h.nodup

theorem rank_admitted (distance : List ℚ → List ℚ → κ) {settings : Settings} {admitted found : List Json}
    {provision : Provision} (h : Filled settings admitted provision) {query : Query}
    (hne : query.vector ≠ []) (hvectors : settings.vectors ≠ [])
    (hdimension : ∀ entry ∈ settings.vectors, query.vector.length = entry.2.length)
    (hfound : found.Perm (admitted.map Json.sortKeys)) :
    rank distance query found = .ok ((sortBy (rankOf distance query.vector) admitted).map Json.sortKeys) := by
  have hkeys : ∀ record ∈ found,
      rankKey distance query record = .ok (rankOf distance query.vector record) := by
    intro record hrecord
    obtain ⟨source, hsource, rfl⟩ := List.mem_map.mp (hfound.mem_iff.mp hrecord)
    rw [rankKey_sortKeys, rankOf_sortKeys]
    exact (h.admitted source hsource).rankKey_eq distance hne hvectors hdimension
  have hsorted : sortBy (rankOf distance query.vector) found =
      sortBy (rankOf distance query.vector) (admitted.map Json.sortKeys) :=
    sortBy_eq_of_perm hfound (rankOf_inj (nodup_found h (List.Perm.refl _)))
  rw [rank_eq hkeys, hsorted, sortBy_map]
  simp only [rankOf_sortKeys]

theorem selectClusters_spec (distance : List ℚ → List ℚ → κ) {vectors : List (String × List ℚ)}
    (hne : numbers ≠ []) (hdimension : ∀ entry ∈ vectors, numbers.length = entry.2.length) :
    ∃ selected, selectClusters distance numbers vectors vectors.length = .ok selected ∧
      selected.Perm (vectors.map Prod.fst) := by
  have hkeyed : distances distance numbers vectors = .ok _ :=
    (distances_eq_ok_iff hne).mpr ⟨hdimension, rfl⟩
  rw [selectClusters, hkeyed, Py.bind_ok, Py.pure_eq_ok]
  refine ⟨_, rfl, ?_⟩
  have hperm := (sortBy_perm id (vectors.map fun entry ↦
    toLex (distance numbers entry.2, entry.1))).map fun key ↦ (ofLex key).2
  have hlength := hperm.length_eq
  rw [List.length_map, List.length_map, List.length_map] at hlength
  rw [Int.toNat_natCast, List.take_of_length_le (by rw [List.length_map]; exact hlength.le)]
  rw [List.map_map] at hperm
  exact hperm

/-- The client reconstructs every admitted record once and returns the first by distance. -/
theorem clientRecall_exact (distance : List ℚ → List ℚ → κ) {loads : Bytes → Option Json}
    {tokenBytes : String → ℕ → ℕ → Bytes}
    (htoken : ∀ cluster index total, (tokenBytes cluster index total).length = total)
    {records : List Json} {centroids : List (String × Json)} {clearance : String} {labels : List String}
    {blockBytes blocksPerCluster : ℤ} {clusters : List (String × List Bytes)}
    (hrecords : ∀ record ∈ records, ∀ fields, record = .obj fields → (fields.map Prod.fst).Nodup)
    (hcentroids : (centroids.map Prod.fst).Nodup) (hloads : ∀ record ∈ records, Wirable record →
      loads (canonicalBytes record) = some record.sortKeys)
    (hclusters : clusterRecords distance records centroids clearance labels blockBytes blocksPerCluster =
      .ok clusters) {queryVector : Json} {numbers : List ℚ} (hquery : vector queryVector = .ok numbers)
    (hdimension : ∀ centroid ∈ centroids, ∀ other, vector centroid.2 = .ok other → numbers.length = other.length)
    {limit : ℤ} (hlimit : 1 ≤ limit ∧ limit ≤ 100) :
    ∃ replica ceiling selected found fetched result,
      Replica.init clusters blockBytes = .ok replica ∧ hierarchy labels clearance = .ok ceiling ∧
      selected.Perm (centroids.map Prod.fst) ∧ fetchClusters distance loads tokenBytes (fetchPair replica replica)
        ⟨labels, clearance, ceiling, numbers⟩ selected = .ok (found, fetched) ∧
      found.Perm ((records.filter (admits labels ceiling)).map Json.sortKeys) ∧ (found.map recordId).Nodup ∧
      clientRecall distance loads tokenBytes (fetchPair replica replica) centroids queryVector clearance
        limit none labels = .ok result ∧ result.results = ((sortBy (rankOf distance numbers)
        (records.filter (admits labels ceiling))).take limit.toNat).map Json.sortKeys := by
  obtain ⟨checked, provision, hchecked, hfilled, rfl⟩ := clusterRecords_spec hrecords hcentroids hclusters
  have hinit := init_eq hchecked hfilled
  obtain ⟨hindex, hbytes, hbudget, hceiling, hvectors, hlabels, hblockBytes, hcapacity⟩ :=
    settings_spec hchecked
  obtain ⟨hnames, -, hcentroid⟩ := readCentroids_spec hvectors
  obtain ⟨hclearance, -⟩ := hierarchy_spec hceiling
  have hne := ne_nil_of_vector hquery
  have hsome : checked.vectors ≠ [] := by
    intro hnil
    rw [hnil, List.map_nil] at hnames
    exact hindex.1 (List.map_eq_nil_iff.mp hnames.symm)
  have hlengths : ∀ entry ∈ checked.vectors, numbers.length = entry.2.length := by
    intro entry hentry
    obtain ⟨centroid, hmem, hvector⟩ := hcentroid entry hentry
    exact hdimension centroid hmem entry.2 hvector
  obtain ⟨selected, hselected, hperm⟩ := selectClusters_spec distance hne hlengths
  have hreads : ∀ record ∈ records.filter (admits labels checked.ceiling),
      readBlock distance loads ⟨labels, clearance, checked.ceiling, numbers⟩ (block checked record) =
        .ok (some record.sortKeys) := by
    intro record hrecord
    have hadmitted := hfilled.admitted record hrecord
    exact hadmitted.readBlock_eq distance (hloads record (List.mem_of_mem_filter hrecord) hadmitted.wirable)
      hlabels.symm rfl hclearance hne hsome hlengths
  obtain ⟨found, fetched, hfetch, hsame⟩ := fetchClusters_padded distance htoken hchecked hfilled
    (hnames ▸ hcentroids) hreads hperm
  have hranked := @rank_admitted κ _ distance checked _ found provision hfilled
    ⟨labels, clearance, checked.ceiling, numbers⟩ hne hsome hlengths hsame
  have hlimitOk : count limit 1 100 "count" = .ok limit := count_of_mem _ hlimit.1 hlimit.2
  have hreturns : clientRecall distance loads tokenBytes
      (fetchPair ⟨blockBytes, padded checked provision⟩ ⟨blockBytes, padded checked provision⟩) centroids
      queryVector clearance limit none labels = .ok ⟨((sortBy (rankOf distance numbers)
        (records.filter (admits labels checked.ceiling))).map Json.sortKeys).take limit.toNat,
        selected.length, checked.vectors.length, fetched⟩ := by
    rw [clientRecall, hlimitOk, Py.bind_ok, hceiling, Py.bind_ok, decide_eq_true hindex, Py.require_true,
      Py.bind_ok, hquery, Py.bind_ok, hvectors, Py.bind_ok, Option.elim_none, Py.bind_ok, hselected, Py.bind_ok]
    simp only [hfetch, hranked, Py.bind_ok, Py.pure_eq_ok]
  exact ⟨_, _, selected, found, fetched, _, hinit, hceiling, hperm.trans (List.Perm.of_eq hnames), hfetch,
    hsame, nodup_found hfilled hsame, hreturns, List.map_take.symm⟩

namespace Sample

def memory (identity label : String) (place : ℤ) : Json :=
  .obj [("id", .str identity), ("vector", .arr [.int place]), ("label", .str label)]

def records : List Json := [memory "a" "public" 3, memory "b" "secret" 1, memory "c" "public" 2]

def centroids : List (String × Json) := [("near", .arr [.int 0])]

def distance (first second : List ℚ) : ℚ := (List.zipWith (fun x y ↦ (x - y) ^ 2) first second).sum

def loads (bytes : Bytes) : Option Json :=
  (records.find? fun record ↦ canonicalBytes record = bytes).map Json.sortKeys

def clusters : List (String × List Bytes) :=
  [("near", [ljust (canonicalBytes (memory "a" "public" 3)) 256,
    ljust (canonicalBytes (memory "c" "public" 2)) 256, List.replicate 256 0])]

def tokenBytes (_ : String) (_ total : ℕ) : Bytes := List.replicate total 0xa5

theorem clusterRecords_sample :
    clusterRecords distance records centroids "public" ["public", "secret"] 256 3 = .ok clusters := by
  decide +kernel

theorem loads_sample : ∀ record ∈ records, loads (canonicalBytes record) = some record.sortKeys := by
  have hdifferent : (records.map canonicalBytes).Nodup := by decide +kernel
  intro record hrecord
  have hfind : records.find? (fun other ↦ canonicalBytes other = canonicalBytes record) = some record := by
    cases hfound : records.find? fun other ↦ canonicalBytes other = canonicalBytes record with
    | none =>
      have hnone := List.find?_eq_none.mp hfound record hrecord
      simp at hnone
    | some other =>
      have hsame : canonicalBytes other = canonicalBytes record := by simpa using List.find?_some hfound
      rw [List.inj_on_of_nodup_map hdifferent (List.mem_of_find?_eq_some hfound) hrecord hsame]
  rw [loads, hfind, Option.map_some]

end Sample

open Sample in
/-- Two of three memories are public, and the nearer one comes first. -/
theorem clientRecall_sample :
    ∃ replica result, Replica.init clusters 256 = .ok replica ∧
      clientRecall distance loads tokenBytes (fetchPair replica replica) centroids
        (.arr [.int 0]) "public" 5 none ["public", "secret"] = .ok result ∧
      result.results.map recordId = ["c", "a"] := by
  have hkeys : ∀ record ∈ records, ∀ fields, record = .obj fields → (fields.map Prod.fst).Nodup := by
    rintro record hrecord fields rfl
    simp only [records, memory, List.mem_cons, List.not_mem_nil, or_false, Json.obj.injEq] at hrecord
    rcases hrecord with rfl | rfl | rfl <;> simp
  have hchecks : vector (.arr [.int 0]) = .ok [0] ∧ hierarchy ["public", "secret"] "public" = .ok 0 := by
    decide +kernel
  have hranked : ((sortBy (rankOf distance [0])
      (records.filter (admits ["public", "secret"] 0))).take (5 : ℤ).toNat).map recordId = ["c", "a"] := by
    decide +kernel
  have htoken : ∀ cluster index total, (tokenBytes cluster index total).length = total :=
    fun _ _ _ ↦ List.length_replicate
  have hdimension : ∀ centroid ∈ centroids, ∀ other, vector centroid.2 = .ok other →
      [(0 : ℚ)].length = other.length := by
    simp only [centroids, List.forall_mem_singleton]
    intro other hother
    rw [hchecks.1] at hother
    cases hother
    rfl
  have hlimit : (1 : ℤ) ≤ 5 ∧ (5 : ℤ) ≤ 100 := by decide
  obtain ⟨replica, ceiling, -, -, -, result, hreplica, hceiling, -, -, -, -, hreturns, hresults⟩ :=
    clientRecall_exact distance htoken hkeys (by simp [centroids])
      (fun record hrecord _ ↦ loads_sample record hrecord) clusterRecords_sample hchecks.1 hdimension hlimit
  rw [hchecks.2] at hceiling
  cases hceiling
  refine ⟨replica, result, hreplica, hreturns, ?_⟩
  have hids : (recordId ∘ Json.sortKeys) = recordId := funext recordId_sortKeys
  rw [hresults, List.map_map, hids]
  exact hranked

end UniMem.Oblivious
