import SpoolCache.Prefix.Hashing
import SpoolCache.Store.Provenance
import SpoolCache.Store.Recency

/-!
# Bounded inventories keep chains

`scan_offers`, `token_files.py:702–723`, offers the smallest keys by span, and
`InventoryReporter.replace`, `quorum.py:108–121`, cuts the offers once more. A parent has a smaller
span than its child, so a cut that keeps a file keeps its parent.
-/

namespace SpoolCache.Store

open SpoolCache.Base SpoolCache.Layout SpoolCache.Prefix SpoolCache.Quorum
open PrefixRequest (Keyed KeyAt)

section

variable (config : StoreConfig) (requests : List PrefixRequest)

/-- Commits of keys that `prefix_digests` returned for the requests, failing or not, evictions,
quarantines, withdrawals and views, from an empty store. -/
inductive InventoryRun : RankState → Prop where
  | start (reporter : InventoryReporter) : InventoryRun ⟨.empty, .empty, [], reporter⟩
  | commit {s : RankState} (h : InventoryRun s) (hooked : Bool) (oracle : CommitOracle)
      {r : PrefixRequest} (hr : r ∈ requests) {boundaries : Option (List PyInt)}
      {prefixes : List PrefixDigest}
      (hkeys : r.digests config.layout.chunkTokens boundaries = .ok prefixes)
      (blockTables : List (List Nat)) :
      InventoryRun (commitKeys config hooked oracle s prefixes blockTables).1
  | evict {s : RankState} (h : InventoryRun s) (hooked : Bool) (key : Digest) :
      InventoryRun (evict hooked s key).1
  | quarantine {s : RankState} (h : InventoryRun s) (hooked : Bool) (key : Digest) :
      InventoryRun (quarantineBad hooked s key)
  | withdraw {s : RankState} (h : InventoryRun s) (hooked : Bool) (key : Digest) :
      InventoryRun (recordWithdrawal hooked (markWithdrawn s key) key)
  | acknowledge {s : RankState} (h : InventoryRun s) (key : Digest) :
      InventoryRun (clearWithdrawal s key)
  | view {s : RankState} (h : InventoryRun s) (hooked : Bool) (entryId : Digest) :
      InventoryRun (restoreView config hooked s entryId).1
  | leave {s : RankState} (h : InventoryRun s) (view : Nat) (times : Nat → Nat)
      (touched : Bool) : InventoryRun (exitRestore times s view touched)

/-- Offers that do not cut a chain: at most `limit`, of open files without a marker, with the parent
of every data file that has an open one, and with every open file when there is room. -/
structure BoundedInventory (s : RankState) (limit : Nat) (offers : List (Digest × Nat)) : Prop where
  length_le : offers.length ≤ limit
  distinct : (offers.map Prod.fst).Nodup
  openable : ∀ e ∈ offers, e.1 ∉ s.markers.keys ∧
    ∃ desc, openChunk config s e.1 false = .ok desc ∧ desc.spanTokens = e.2
  parents : ∀ e ∈ offers, ∀ desc parent parentDesc, openChunk config s e.1 false = .ok desc →
    desc.kind = .data → config.layout.chunkTokens < desc.spanTokens → desc.parent = some parent →
    openChunk config s parent false = .ok parentDesc → (parent, parentDesc.spanTokens) ∈ offers
  complete : offers.length < limit → ∀ key desc, openChunk config s key false = .ok desc →
    (key, desc.spanTokens) ∈ offers

end

section

variable {config : StoreConfig} {requests : List PrefixRequest}

/-! ### Files of a run -/

section

variable {fileOk : Digest → TokenFile → Prop}

private theorem filesOk_of_loses {s s' : RankState}
    (h : ∀ a, s'.files.get? a = s.files.get? a ∨ s'.files.get? a = none)
    (hs : FilesOk fileOk s) : FilesOk fileOk s' := by
  intro key file hf
  rcases h key with he | he
  · rw [he] at hf
    exact hs key file hf
  · rw [he] at hf
    cases hf

private theorem filesOk_set {s : RankState} {key : Digest} {file : TokenFile}
    (hs : FilesOk fileOk s)
    (hf : fileOk key file) : FilesOk fileOk { s with files := s.files.set key file } := by
  intro a file' ha
  dsimp only at ha
  rw [OrderedDict.get?_set] at ha
  split at ha
  · next he =>
    cases ha
    exact he ▸ hf
  · exact hs a file' ha

private theorem filesOk_validChunk (hooked : Bool) {s : RankState} (hs : FilesOk fileOk s)
    (key : Digest)
    (header : TokenHeader) : FilesOk fileOk (validChunk config hooked s key header).1 :=
  filesOk_of_loses (quarantines_validChunk hooked s key header).loses.2 hs

private theorem filesOk_probeBatch (hooked : Bool) (jobs : List CommitJob) {s : RankState}
    (hs : FilesOk fileOk s) (resolved : OrderedDict Digest TokenFileDescriptor) :
    FilesOk fileOk (probeBatch config hooked s resolved jobs).1 ∧
      (probeBatch config hooked s resolved jobs).2.2 ⊆ jobs := by
  induction jobs generalizing s resolved with
  | nil => exact ⟨hs, List.Subset.refl _⟩
  | cons job jobs ih =>
    have hv : FilesOk fileOk (validChunk config hooked s job.key job.header).1 :=
      filesOk_validChunk hooked hs job.key job.header
    unfold probeBatch
    split
    · next s1 desc hvalid =>
      rw [hvalid] at hv
      obtain ⟨hfiles, hsub⟩ := ih hv (resolved.set job.key desc)
      exact ⟨hfiles, List.subset_cons_of_subset _ hsub⟩
    · next s1 hvalid =>
      rw [hvalid] at hv
      obtain ⟨hfiles, hsub⟩ := ih hv resolved
      exact ⟨hfiles, List.cons_subset_cons _ hsub⟩

private theorem filesOk_publishChunk (hooked : Bool) (oracle : PublishOracle) {s : RankState}
    (hs : FilesOk fileOk s) {job : CommitJob} (hjob : Allowed fileOk config job) :
    FilesOk fileOk (publishChunk config hooked oracle s job.key job.header).1 := by
  unfold publishChunk
  split
  · exact hs
  · next hheader =>
    obtain ⟨segments, hpayload, -⟩ := bind_ok hheader
    split
    · exact hs
    · have hset := filesOk_set hs (hjob ⟨some job.header, true, oracle.modified job.key,
        oracle.storedBytes job.key, oracle.inode job.key⟩ segments hpayload rfl rfl)
      dsimp only
      split
      · exact hs
      · intro key file hf
        rw [files_recordWithdrawal] at hf
        exact hset key file hf
      · exact hset

private theorem filesOk_publishBatch (hooked : Bool) (oracle : CommitOracle) {jobs : List CommitJob}
    (hjobs : ∀ job ∈ jobs, Allowed fileOk config job) {s : RankState} (hs : FilesOk fileOk s)
    (resolved : OrderedDict Digest TokenFileDescriptor) :
    FilesOk fileOk (publishBatch config hooked oracle s resolved jobs).1 := by
  induction jobs generalizing s resolved with
  | nil => exact hs
  | cons job jobs ih =>
    rw [List.forall_mem_cons] at hjobs
    have hp := filesOk_publishChunk hooked oracle.publish hs hjobs.1
    unfold publishBatch
    split
    · next s1 e hpublish =>
      rw [hpublish] at hp
      exact hp
    · next s1 desc hpublish =>
      rw [hpublish] at hp
      exact ih hjobs.2 hp _

private theorem filesOk_commitBatch (hooked : Bool) (oracle : CommitOracle) {jobs : List CommitJob}
    (hjobs : ∀ job ∈ jobs, Allowed fileOk config job) {s : RankState} (hs : FilesOk fileOk s) :
    FilesOk fileOk (commitBatch config hooked oracle s jobs).1 := by
  obtain ⟨hprobe, hsub⟩ : FilesOk fileOk (probeBatch config hooked s .empty jobs).1 ∧
      (probeBatch config hooked s .empty jobs).2.2 ⊆ jobs := filesOk_probeBatch hooked jobs hs .empty
  have hp := filesOk_publishBatch hooked oracle (fun job hj ↦ hjobs job (hsub hj)) hprobe
    (probeBatch config hooked s .empty jobs).2.1
  unfold commitBatch
  dsimp only
  split
  · next s1 e hpublish =>
    rw [hpublish] at hp
    exact hp
  · next s1 resolved hpublish =>
    rw [hpublish] at hp
    exact hp

private theorem filesOk_commitBatches (hooked : Bool) (oracle : CommitOracle)
    {batches : List (List CommitJob)}
    (hjobs : ∀ jobs ∈ batches, ∀ job ∈ jobs, Allowed fileOk config job) {s : RankState}
    (hs : FilesOk fileOk s) :
    FilesOk fileOk (commitBatches config hooked oracle s batches).1 := by
  induction batches generalizing s with
  | nil => exact hs
  | cons jobs batches ih =>
    rw [List.forall_mem_cons] at hjobs
    have hb := filesOk_commitBatch hooked oracle hjobs.1 hs
    unfold commitBatches
    split
    · next s1 e hbatch =>
      rw [hbatch] at hb
      exact hb
    · next s1 objects hbatch =>
      rw [hbatch] at hb
      have hrest := ih hjobs.2 hb
      split
      · next s2 e hmore =>
        rw [hmore] at hrest
        exact hrest
      · next s2 more hmore =>
        rw [hmore] at hrest
        exact hrest

private theorem filesOk_touchAll (ht : ∀ key file time, fileOk key file →
      fileOk key { file with modified := time }) (times : Nat → Nat) {s : RankState}
    (hs : FilesOk fileOk s) (keys : List Digest) : FilesOk fileOk (touchAll times s keys).1 := by
  induction keys generalizing s times with
  | nil => exact hs
  | cons key keys ih =>
    unfold touchAll
    split
    · exact hs
    · next file hf => exact ih _ (filesOk_set hs (ht key file _ (hs key file hf)))

private theorem filesOk_commitKeys (hooked : Bool) (oracle : CommitOracle)
    {prefixes : List PrefixDigest}
    (ht : ∀ key file time, fileOk key file → fileOk key { file with modified := time })
    {s : RankState} (hs : FilesOk fileOk s) (blockTables : List (List Nat))
    (hjobs : ∀ batchCount, commitBatchCount config prefixes blockTables = .ok batchCount →
      ∀ jobs ∈ commitPlan config batchCount prefixes, ∀ job ∈ jobs, Allowed fileOk config job) :
    FilesOk fileOk (commitKeys config hooked oracle s prefixes blockTables).1 := by
  unfold commitKeys
  split
  · exact hs
  · exact hs
  · next batchCount tail hcount htail =>
    have hb := filesOk_commitBatches hooked oracle (hjobs batchCount hcount) hs
    split
    · next s1 e hbatches =>
      rw [hbatches] at hb
      exact hb
    · next s1 objects hbatches =>
      rw [hbatches] at hb
      unfold finishCommit
      split
      · exact hb
      · have htouch := filesOk_touchAll ht oracle.times hb
          (objects.map TokenFileDescriptor.key).reverse
        split
        · next s2 e htouched =>
          rw [touch] at htouched
          rw [htouched] at htouch
          exact htouch
        · next s2 htouched =>
          rw [touch] at htouched
          rw [htouched] at htouch
          exact htouch

end

/-- The file of a key as a commit for one of the requests writes it. -/
def WrittenFor (config : StoreConfig) (requests : List PrefixRequest) (key : Digest)
    (file : TokenFile) : Prop :=
  ∃ header segments, file.header = some header ∧ headerPayload config key header = .ok segments ∧
    ∃ r ∈ requests, ∃ i, (∀ j ≤ i, KeyAt r config.layout.chunkTokens j) ∧
      ((⟨key, header⟩ : CommitJob) = dataJob r config.layout.chunkTokens i ∨
        (⟨key, header⟩ : CommitJob) = stateJob ⟨(i + 1) * config.layout.chunkTokens,
          r.key config.layout.chunkTokens (i + 1)⟩)

private theorem writtenFor_touched (key : Digest) (file : TokenFile) (time : Nat)
    (h : WrittenFor config requests key file) :
    WrittenFor config requests key { file with modified := time } := h

/-- The digests of a request at consecutive boundaries are its keys. -/
theorem keys_of_digests {r : PrefixRequest} {chunk : Nat} {boundaries : Option (List PyInt)}
    {prefixes : List PrefixDigest} (h : r.digests chunk boundaries = .ok prefixes)
    (hspans : prefixes.map PrefixDigest.spanTokens =
      (List.range prefixes.length).map fun i ↦ (i + 1) * chunk) :
    prefixes = r.keys chunk prefixes.length ∧ ∀ i < prefixes.length, KeyAt r chunk i := by
  have hat : ∀ (i : Nat) (hi : i < prefixes.length),
      prefixes[i] = ⟨(i + 1) * chunk, r.key chunk (i + 1)⟩ ∧ KeyAt r chunk i := by
    intro i hi
    obtain ⟨hpos, hv, m, hs, hle, hd⟩ := PrefixRequest.digests_ok h (List.getElem_mem hi)
    have hspan : (prefixes[i]).spanTokens = (i + 1) * chunk := by
      have hget := congrArg (fun l ↦ l[i]?) hspans
      simpa [hi] using hget
    have hm : m = i := by
      have := Nat.eq_of_mul_eq_mul_right hpos (hs.symm.trans hspan)
      omega
    subst hm
    rw [hspan] at hd hle
    have hkey : r.key chunk (m + 1) = (prefixes[m]).digest := by
      unfold PrefixRequest.key
      rw [hd]
    refine ⟨?_, hpos, hv, hle, ?_⟩
    · rw [hkey, ← hspan]
    · rw [hkey]
      exact hd
  refine ⟨?_, fun i hi ↦ (hat i hi).2⟩
  apply List.ext_getElem
  · simp [PrefixRequest.keys]
  · intro i hi hi'
    rw [(hat i hi).1]
    simp [PrefixRequest.keys]

private theorem InventoryRun.writtenFor {s : RankState} (h : InventoryRun config requests s) :
    FilesOk (WrittenFor config requests) s := by
  induction h with
  | start reporter => exact fun _ _ hf ↦ (by cases hf)
  | @commit s _ hooked oracle r hr boundaries prefixes hkeys blockTables ih =>
    apply filesOk_commitKeys hooked oracle writtenFor_touched ih
    intro batchCount hcount jobs hjobs job hj file segments hpayload hheader _
    obtain ⟨hprefixes, hat⟩ := keys_of_digests hkeys (commitBatchCount_ok hcount).2
    rcases mem_commitPlan hjobs hj with hdata | ⟨-, tail, htail, rfl⟩
    · rw [hprefixes, dataJobs_keys, List.mem_map] at hdata
      obtain ⟨i, hi, rfl⟩ := hdata
      rw [List.mem_range] at hi
      exact ⟨_, segments, hheader, hpayload, _, hr, i, fun j hj ↦ hat j (by omega), .inl rfl⟩
    · rw [List.getLast?_eq_getElem?] at htail
      obtain ⟨hlt, htail⟩ := List.getElem?_eq_some_iff.mp htail
      rw [List.getElem_of_eq hprefixes] at htail
      simp only [PrefixRequest.keys, List.getElem_map, List.getElem_range] at htail
      refine ⟨_, segments, hheader, hpayload, r, hr, prefixes.length - 1,
        fun j hj ↦ hat j (by omega), .inr ?_⟩
      rw [htail]
  | evict _ hooked key ih => exact (steps_evict hooked _ key).changes.filesOk ih
  | quarantine _ hooked key ih => exact (steps_quarantineBad hooked _ key).changes.filesOk ih
  | withdraw _ hooked key ih => exact (steps_withdraw hooked _ key).changes.filesOk ih
  | acknowledge _ key ih => exact ih
  | view _ hooked entryId ih => exact (steps_restoreView hooked _ entryId).changes.filesOk ih
  | leave _ view times touched ih =>
    unfold exitRestore
    split
    · exact filesOk_touchAll writtenFor_touched times ih _
    · exact ih

/-- The parent of a data file has a smaller span. -/
theorem parent_span_lt (hinj : NoCollisions (universeInputs config.layout.chunkTokens requests))
    (hdomain : NoDomainDigest config.layout.chunkTokens requests) {s : RankState}
    (hf : FilesOk (WrittenFor config requests) s) {key parent : Digest}
    {desc parentDesc : TokenFileDescriptor} (hopen : openChunk config s key false = .ok desc)
    (hkind : desc.kind = .data) (hparent : desc.parent = some parent)
    (hparentOpen : openChunk config s parent false = .ok parentDesc) :
    parentDesc.spanTokens < desc.spanTokens := by
  obtain ⟨-, file, header, segments, hget, hheader, hpayload, rfl⟩ := openChunk_ok hopen
  obtain ⟨-, pfile, pheader, psegments, hpget, hpheader, -, rfl⟩ := openChunk_ok hparentOpen
  obtain ⟨header', -, hheader', -, r, hr, i, hat, hjob⟩ := hf key file hget
  obtain ⟨pheader', -, hpheader', -, r', hr', j, hat', hpjob⟩ := hf parent pfile hpget
  obtain rfl : header = header' := Option.some.inj (hheader.symm.trans hheader')
  obtain rfl : pheader = pheader' := Option.some.inj (hpheader.symm.trans hpheader')
  dsimp only at hkind hparent ⊢
  rcases hjob with hjob | hjob
  · cases hjob
    dsimp only [parentKey] at hparent ⊢
    split at hparent
    · cases hparent
    · next hne =>
      cases hparent
      obtain ⟨i, rfl⟩ : ∃ k, i = k + 1 := ⟨i - 1, by omega⟩
      have hbefore := hat i (by omega)
      have hlt : config.layout.chunkTokens < 2 ^ 62 := by
        have htwo : 2 * config.layout.chunkTokens ≤ (i + 1 + 1) * config.layout.chunkTokens :=
          Nat.mul_le_mul_right _ (by omega)
        have hspan := (span_of_headerPayload hpayload).2
        have hmc : maxCounter = 2 ^ 63 - 1 := rfl
        dsimp only at hspan
        omega
      rcases hpjob with hpjob | hpjob
      · obtain ⟨hkey, hpheader⟩ := CommitJob.mk.inj hpjob
        have hij := key_span_inj hinj hdomain hlt hr hr' hbefore (hat' j le_rfl) hkey
        rw [hpheader, hij]
        exact Nat.mul_lt_mul_of_pos_right (by omega) hbefore.pos
      · obtain ⟨hkey, -⟩ := CommitJob.mk.inj hpjob
        exact absurd hkey (key_ne_boundaryStateKey hinj hr hr' hbefore (hat' j le_rfl))
  · cases hjob
    cases hkind

/-! ### Offers -/

/-- The order of the offers. -/
def SmallerOffer (a b : Digest × Nat) : Prop := a.2 < b.2 ∨ a.2 = b.2 ∧ a.1 ≤ b.1

instance : DecidableRel SmallerOffer := fun a b ↦
  inferInstanceAs (Decidable (a.2 < b.2 ∨ a.2 = b.2 ∧ a.1 ≤ b.1))

instance : Std.Total SmallerOffer := by
  refine ⟨fun a b ↦ ?_⟩
  unfold SmallerOffer
  rcases lt_trichotomy a.2 b.2 with h | h | h
  · exact .inl (.inl h)
  · rcases le_total a.1 b.1 with hk | hk
    · exact .inl (.inr ⟨h, hk⟩)
    · exact .inr (.inr ⟨h.symm, hk⟩)
  · exact .inr (.inl h)

instance : IsTrans (Digest × Nat) SmallerOffer := by
  refine ⟨fun a b c hab hbc ↦ ?_⟩
  unfold SmallerOffer at *
  rcases hab with hab | ⟨hab, hk⟩ <;> rcases hbc with hbc | ⟨hbc, hk'⟩
  · exact .inl (hab.trans hbc)
  · exact .inl (by omega)
  · exact .inl (by omega)
  · exact .inr ⟨hab.trans hbc, hk.trans hk'⟩

/-- All offers, smallest first. -/
def sortedOffers (config : StoreConfig) (s : RankState) : List (Digest × Nat) :=
  (offers config s).insertionSort SmallerOffer

private theorem scanOffers_eq (s : RankState) (limit : Nat) :
    scanOffers config s limit = (sortedOffers config s).take limit := rfl

private theorem mem_sortedOffers {s : RankState} {key : Digest} {span : Nat} :
    (key, span) ∈ sortedOffers config s ↔
      ∃ desc, openChunk config s key false = .ok desc ∧ desc.spanTokens = span := by
  rw [sortedOffers, (List.perm_insertionSort _ _).mem_iff, offers, List.mem_filterMap]
  constructor
  · rintro ⟨key', -, he⟩
    cases ho : openChunk config s key' false with
    | error e =>
      rw [ho] at he
      cases he
    | ok desc =>
      rw [ho] at he
      have hk := (headerSpan_of_openChunk ho).1
      obtain ⟨rfl, rfl⟩ := Prod.mk.inj (Option.some.inj he)
      rw [hk]
      exact ⟨desc, ho, rfl⟩
  · rintro ⟨desc, ho, rfl⟩
    obtain ⟨-, file, header, segments, hget, -, -, rfl⟩ := openChunk_ok ho
    refine ⟨key, (OrderedDict.mem_keys_iff _ _).mpr ⟨file, hget⟩, ?_⟩
    rw [ho]

private theorem filterMap_sublist_of_eq {α : Type} {f : α → Option α}
    (h : ∀ a b, f a = some b → b = a) (l : List α) : (l.filterMap f).Sublist l := by
  induction l with
  | nil => exact List.Sublist.refl _
  | cons a l ih =>
    rw [List.filterMap_cons]
    split
    · exact ih.cons a
    · next b hb =>
      rw [h a b hb]
      exact ih.cons_cons a

private theorem nodup_sortedOffers (s : RankState) :
    ((sortedOffers config s).map Prod.fst).Nodup := by
  have hperm : (sortedOffers config s).Perm (offers config s) := List.perm_insertionSort _ _
  rw [(hperm.map Prod.fst).nodup_iff, offers, List.map_filterMap]
  refine s.files.nodup_keys.sublist (filterMap_sublist_of_eq ?_ _)
  intro key key' he
  cases ho : openChunk config s key false with
  | error e =>
    rw [ho] at he
    cases he
  | ok desc =>
    rw [ho] at he
    cases he
    exact (headerSpan_of_openChunk ho).1

private theorem boundedInventory_take
    (hinj : NoCollisions (universeInputs config.layout.chunkTokens requests))
    (hdomain : NoDomainDigest config.layout.chunkTokens requests) {s : RankState}
    (hf : FilesOk (WrittenFor config requests) s) (limit : Nat) :
    BoundedInventory config s limit ((sortedOffers config s).take limit) := by
  have hsorted : (sortedOffers config s).Pairwise SmallerOffer :=
    List.pairwise_insertionSort SmallerOffer _
  rw [← List.take_append_drop limit (sortedOffers config s)] at hsorted
  constructor
  case length_le => exact List.length_take_le _ _
  case distinct => exact (nodup_sortedOffers s).sublist ((List.take_sublist _ _).map _)
  case openable =>
    rintro ⟨key, span⟩ he
    obtain ⟨desc, hopen, hspan⟩ := mem_sortedOffers.mp (List.mem_of_mem_take he)
    exact ⟨(openChunk_ok hopen).1 rfl, desc, hopen, hspan⟩
  case parents =>
    rintro ⟨key, span⟩ he desc parent parentDesc hopen hkind - hparent hparentOpen
    have hlt := parent_span_lt hinj hdomain hf hopen hkind hparent hparentOpen
    have hspan : desc.spanTokens = span := by
      obtain ⟨desc', hopen', hspan'⟩ := mem_sortedOffers.mp (List.mem_of_mem_take he)
      rw [hopen] at hopen'
      cases hopen'
      exact hspan'
    have hall : (parent, parentDesc.spanTokens) ∈ sortedOffers config s :=
      mem_sortedOffers.mpr ⟨parentDesc, hparentOpen, rfl⟩
    rw [← List.take_append_drop limit (sortedOffers config s), List.mem_append] at hall
    rcases hall with hall | hall
    · exact hall
    · -- an offer behind the cut has no smaller span than one before it
      rcases (List.pairwise_append.mp hsorted).2.2 _ he _ hall with hle | ⟨heq, -⟩
      · dsimp only at hle
        omega
      · dsimp only at heq
        omega
  case complete =>
    intro hlen key desc hopen
    rw [List.length_take] at hlen
    rw [List.take_of_length_le (by omega)]
    exact mem_sortedOffers.mpr ⟨desc, hopen, rfl⟩

/-! ### The second cut -/

private theorem selectEntries_eq_take (bounds : InventoryBounds) (count : Nat)
    (entries : List RawEntry) :
    InventoryReporter.selectEntries bounds count entries =
      entries.take (bounds.inventoryCapacity - count) := by
  induction entries generalizing count with
  | nil => simp [InventoryReporter.selectEntries]
  | cons e entries ih =>
    unfold InventoryReporter.selectEntries
    split
    · next hover =>
      rw [InventoryBounds.overBound_iff] at hover
      rw [Nat.sub_eq_zero_of_le (by omega), List.take_zero]
    · next hfits =>
      rw [InventoryBounds.overBound_iff] at hfits
      rw [ih]
      obtain ⟨k, hk⟩ : ∃ k, bounds.inventoryCapacity - count = k + 1 :=
        ⟨bounds.inventoryCapacity - count - 1, by omega⟩
      rw [hk, List.take_succ_cons]
      congr 2
      omega

private theorem exists_entries {offers : List (Digest × Nat)}
    (h : ∀ e ∈ offers, 0 < e.2 ∧ e.2 ≤ maxCounter) :
    ∃ entries : List Entry, entries.map (fun e ↦ (e.1, e.2.val)) = offers := by
  induction offers with
  | nil => exact ⟨[], rfl⟩
  | cons e offers ih =>
    rw [List.forall_mem_cons] at h
    obtain ⟨entries, hentries⟩ := ih h.2
    exact ⟨(e.1, ⟨e.2, h.1⟩) :: entries, by rw [List.map_cons, hentries]⟩

/-- A reporter that is given offers holds the first of them, last one first. -/
theorem replace_offers (reporter : InventoryReporter) {offers : List (Digest × Nat)}
    (hspan : ∀ e ∈ offers, 0 < e.2 ∧ e.2 ≤ maxCounter) (hnodup : (offers.map Prod.fst).Nodup) :
    ∃ reporter', reporter.replace (offers.map rawOffer) = .ok reporter' ∧
      reporter'.held.items.map (fun e ↦ (e.1, e.2.val)) =
        (offers.take reporter.config.bounds.inventoryCapacity).reverse := by
  obtain ⟨entries, rfl⟩ := exists_entries hspan
  have hraw : (entries.map fun e ↦ (e.1, e.2.val)).map rawOffer = entries.map rawEntry := by
    rw [List.map_map]
    rfl
  have hkeys : ((entries.take reporter.config.bounds.inventoryCapacity).reverse.map
      Prod.fst).Nodup := by
    rw [List.map_map] at hnodup
    rw [List.map_reverse, List.nodup_reverse]
    exact List.Nodup.sublist ((List.take_sublist _ _).map _) hnodup
  refine ⟨{ reporter with held := .ofItems (entries.take
    reporter.config.bounds.inventoryCapacity).reverse, dirty := true }, ?_, ?_⟩
  · unfold InventoryReporter.replace
    rw [hraw, selectEntries_eq_take, Nat.sub_zero, ← List.map_take, validateEntries_rawEntry,
      ok_bind]
    rfl
  · dsimp only
    rw [OrderedDict.items_ofItems _ hkeys, List.map_reverse, List.map_take]

private theorem BoundedInventory.reverse {s : RankState} {limit : Nat}
    {offers : List (Digest × Nat)} (h : BoundedInventory config s limit offers) :
    BoundedInventory config s limit offers.reverse := by
  constructor
  case length_le =>
    rw [List.length_reverse]
    exact h.length_le
  case distinct =>
    rw [List.map_reverse, List.nodup_reverse]
    exact h.distinct
  case openable =>
    simp only [List.mem_reverse]
    exact h.openable
  case parents =>
    simp only [List.mem_reverse]
    exact h.parents
  case complete =>
    simp only [List.mem_reverse, List.length_reverse]
    exact h.complete

/-- A bounded inventory never cuts a chain in the middle: neither the offers of a scan nor what a
reporter keeps of them. -/
theorem bounded_inventory_keeps_chains
    (hinj : NoCollisions (universeInputs config.layout.chunkTokens requests))
    (hdomain : NoDomainDigest config.layout.chunkTokens requests) {s : RankState}
    (h : InventoryRun config requests s) (limit : Nat) :
    BoundedInventory config s limit (scanOffers config s limit) ∧
      ∀ reporter : InventoryReporter, ∃ reporter',
        reporter.replace ((scanOffers config s limit).map rawOffer) = .ok reporter' ∧
        BoundedInventory config s (min limit reporter.config.bounds.inventoryCapacity)
          (reporter'.held.items.map fun e ↦ (e.1, e.2.val)) := by
  have hf := h.writtenFor
  have hscan := boundedInventory_take hinj hdomain hf limit
  refine ⟨hscan, ?_⟩
  intro reporter
  have hspan : ∀ e ∈ scanOffers config s limit, 0 < e.2 ∧ e.2 ≤ maxCounter :=
    fun e he ↦ (live_of_mem_offers (mem_offers_of_mem_scanOffers he)).2
  obtain ⟨reporter', hreplace, hheld⟩ := replace_offers reporter hspan hscan.distinct
  refine ⟨reporter', hreplace, ?_⟩
  rw [hheld, scanOffers_eq, List.take_take, Nat.min_comm]
  exact (boundedInventory_take hinj hdomain hf _).reverse

end

/-! ### Prompts without media -/

/-- What is hashed for the first chunks of a prompt without media, each input once. -/
def textInputs (r : PrefixRequest) (chunk n : Nat) : List Bytes :=
  initialInput r.deployment r.salt :: (List.range n).flatMap fun i ↦
    [chunkInput (r.chain chunk i) (r.chunkAt chunk i), boundaryStateInput (r.key chunk (i + 1))]

private theorem mem_textInputs {r : PrefixRequest} {chunk : Nat} (hno : r.features = [])
    {input : Bytes} (h : input ∈ universeInputs chunk [r]) :
    input ∈ textInputs r chunk (r.tokens.length / chunk) := by
  unfold universeInputs at h
  rw [List.flatMap_singleton] at h
  obtain ⟨i, hi, hinput⟩ := List.mem_flatMap.mp h
  have hpos : 0 < chunk := by
    rcases Nat.eq_zero_or_pos chunk with rfl | hpos
    · rw [Nat.div_zero] at hi
      cases hi
    · exact hpos
  have hlt := List.mem_range.mp hi
  unfold textInputs
  rcases List.mem_cons.mp hinput with rfl | hinput
  · exact List.mem_cons_of_mem _ (List.mem_flatMap.mpr ⟨i, hi, by simp⟩)
  unfold PrefixRequest.hashInputs PrefixRequest.mediaInputs at hinput
  rw [hno, Nat.mul_div_cancel _ hpos] at hinput
  rcases List.mem_append.mp hinput with hinput | hmedia
  · rcases List.mem_cons.mp hinput with rfl | hchunk
    · exact List.mem_cons_self
    · obtain ⟨j, hj, rfl⟩ := List.mem_map.mp hchunk
      have hj := List.mem_range.mp hj
      exact List.mem_cons_of_mem _
        (List.mem_flatMap.mpr ⟨j, List.mem_range.mpr (by omega), by simp⟩)
  · cases hmedia

private theorem map_sha256_textInputs {r : PrefixRequest} (hno : r.features = []) (chunk n : Nat) :
    (textInputs r chunk n).map sha256 = r.chain chunk 0 ::
      (List.range n).flatMap fun i ↦ [r.key chunk (i + 1), boundaryStateKey (r.key chunk (i + 1))] := by
  unfold textInputs
  rw [List.map_cons, List.map_flatMap]
  refine congrArg₂ _ rfl (List.flatMap_congr fun i _ ↦ ?_)
  rw [PrefixRequest.key_of_no_features hno]
  rfl

private theorem noCollisions_of_textInputs {r : PrefixRequest} {chunk : Nat} (hno : r.features = [])
    (h : ((textInputs r chunk (r.tokens.length / chunk)).map sha256).Nodup) :
    NoCollisions (universeInputs chunk [r]) := fun _ hx _ hy he ↦
  List.inj_on_of_nodup_map h (mem_textInputs hno hx) (mem_textInputs hno hy) he

private theorem noDomainDigest_of_textInputs {r : PrefixRequest} {chunk : Nat}
    (hno : r.features = [])
    (h : ∀ digest ∈ (textInputs r chunk (r.tokens.length / chunk)).map sha256,
      digest.toBytes.take domain.length ≠ domain) : NoDomainDigest chunk [r] := fun _ hinput ↦
  h _ (List.mem_map_of_mem (mem_textInputs hno hinput))

/-! ### A sample run -/

/-- Prompts of one chunk, and of two, and one token. -/
def inventoryPrompt : PrefixRequest := ⟨.ofNat 7, "", List.replicate 257 0, []⟩

def chainPrompt : PrefixRequest := ⟨.ofNat 7, "", List.replicate 513 0, []⟩

/-- The keys of the two chunks. -/
def inventoryKey : Digest :=
  .ofNat 33509512533090496868781870164266611675673921706344860439390720672573290967476

def chainKey : Digest :=
  .ofNat 73925214234154944068559465512216182360688130381680971856321732478309073651363

/-- The longer prompt is committed. -/
def chainCommit : RankState × Except PyError TokenSnapshot :=
  commitKeys recencyConfig true
    ⟨⟨fun _ ↦ .published, fun _ ↦ 1, fun _ ↦ 10, fun _ ↦ 0⟩, fun i ↦ i + 2⟩ recencyStart
    [⟨256, inventoryKey⟩, ⟨512, chainKey⟩] [[1, 2]]

/-- The sample prompt has one key. -/
theorem digests_inventoryPrompt :
    inventoryPrompt.digests 256 (some (chunkBoundaries 256 256)) = .ok [⟨256, inventoryKey⟩] := by
  decide +kernel

private theorem key_inventoryPrompt : inventoryPrompt.key 256 1 = inventoryKey := by
  obtain ⟨hkeys, -⟩ := keys_of_digests digests_inventoryPrompt rfl
  exact (congrArg PrefixDigest.digest (List.cons.inj hkeys).1).symm

/-- The tokens of a chunk of a prompt that repeats one token. -/
theorem take_drop_replicate {n i c : Nat} (h : i + c ≤ n) (t : Int) :
    ((List.replicate n t).drop i).take c = List.replicate c t := by
  rw [List.drop_replicate, List.take_replicate, Nat.min_eq_left (by omega)]

private theorem key_chainPrompt_one : chainPrompt.key 256 1 = inventoryKey := by
  rw [← key_inventoryPrompt, PrefixRequest.key_of_no_features rfl,
    PrefixRequest.key_of_no_features rfl]
  have hlong : chainPrompt.tokens.take 256 = List.replicate 256 0 :=
    take_drop_replicate (n := 513) (i := 0) (c := 256) (by omega) 0
  have hshort : inventoryPrompt.tokens.take 256 = List.replicate 256 0 :=
    take_drop_replicate (n := 257) (i := 0) (c := 256) (by omega) 0
  exact PrefixRequest.chain_congr ⟨rfl, rfl, hlong.trans hshort.symm⟩

private theorem key_chainPrompt_two : chainPrompt.key 256 2 = chainKey := by
  have hone := key_chainPrompt_one
  rw [PrefixRequest.key_of_no_features rfl] at hone
  have hchunk : chainPrompt.chunkAt 256 1 = List.replicate 256 0 :=
    take_drop_replicate (n := 513) (i := 1 * 256) (c := 256) (by omega) 0
  rw [PrefixRequest.key_of_no_features rfl, PrefixRequest.chain_succ, hone, hchunk]
  decide +kernel

private theorem digests_chainPrompt : chainPrompt.digests 256 (some (chunkBoundaries 256 512)) =
    .ok [⟨256, inventoryKey⟩, ⟨512, chainKey⟩] := by
  have hhashable : chainPrompt.Hashable := by decide +kernel
  have haccepted : chainPrompt.Accepted := trivial
  have hlength : 2 * 256 ≤ chainPrompt.tokens.length := by decide +kernel
  have hkeyed : chainPrompt.digests 256 (some (chunkBoundaries 256 (2 * 256))) =
      .ok (chainPrompt.keys 256 2) :=
    PrefixRequest.keyed_of_hashable hhashable haccepted (Nat.succ_pos 255) hlength
  rw [← key_chainPrompt_one, ← key_chainPrompt_two]
  exact hkeyed

private theorem sha256_inventoryPrompt :
    (textInputs inventoryPrompt 256 (inventoryPrompt.tokens.length / 256)).map sha256 =
      [sha256 (initialInput (.ofNat 7) ""), inventoryKey, boundaryStateKey inventoryKey] := by
  have hlen : inventoryPrompt.tokens.length / 256 = 1 := by
    rw [inventoryPrompt, List.length_replicate]
  rw [map_sha256_textInputs rfl, hlen, ← key_inventoryPrompt]
  rfl

private theorem sha256_chainPrompt :
    (textInputs chainPrompt 256 (chainPrompt.tokens.length / 256)).map sha256 =
      [sha256 (initialInput (.ofNat 7) ""), inventoryKey, boundaryStateKey inventoryKey, chainKey,
        boundaryStateKey chainKey] := by
  have hlen : chainPrompt.tokens.length / 256 = 2 := by
    rw [chainPrompt, List.length_replicate]
  rw [map_sha256_textInputs rfl, hlen, ← key_chainPrompt_one, ← key_chainPrompt_two]
  rfl

/-- The inputs of the sample prompt do not collide. -/
theorem noCollisions_inventoryPrompt : NoCollisions (universeInputs 256 [inventoryPrompt]) := by
  refine noCollisions_of_textInputs rfl ?_
  rw [sha256_inventoryPrompt]
  decide +kernel

private theorem noCollisions_chainPrompt : NoCollisions (universeInputs 256 [chainPrompt]) := by
  refine noCollisions_of_textInputs rfl ?_
  rw [sha256_chainPrompt]
  decide +kernel

private theorem noDomainDigest_chainPrompt : NoDomainDigest 256 [chainPrompt] := by
  refine noDomainDigest_of_textInputs rfl ?_
  rw [sha256_chainPrompt]
  decide +kernel

/-- Of a chain of two chunks a scan for one offers the first, and a scan for three offers both. -/
theorem bounded_inventory_keeps_chains_sample :
    scanOffers recencyConfig chainCommit.1 1 = [(inventoryKey, 256)] ∧
      scanOffers recencyConfig chainCommit.1 3 = [(inventoryKey, 256), (chainKey, 512)] ∧
      (∀ limit, BoundedInventory recencyConfig chainCommit.1 limit
        (scanOffers recencyConfig chainCommit.1 limit)) ∧
      ∃ reporter', recencyStart.reporter.replace
          ((scanOffers recencyConfig chainCommit.1 3).map rawOffer) = .ok reporter' ∧
        BoundedInventory recencyConfig chainCommit.1
          (min 3 recencyStart.reporter.config.bounds.inventoryCapacity)
          (reporter'.held.items.map fun e ↦ (e.1, e.2.val)) := by
  have hchunk : recencyConfig.layout.chunkTokens = 256 := by decide +kernel
  have hkeys : chainPrompt.digests recencyConfig.layout.chunkTokens
      (some (chunkBoundaries 256 512)) = .ok [⟨256, inventoryKey⟩, ⟨512, chainKey⟩] := by
    rw [hchunk]
    exact digests_chainPrompt
  have hrun : InventoryRun recencyConfig [chainPrompt] chainCommit.1 :=
    .commit (.start _) true _ List.mem_cons_self hkeys _
  have hinj := noCollisions_chainPrompt
  have hdomain := noDomainDigest_chainPrompt
  rw [← hchunk] at hinj hdomain
  have hall := bounded_inventory_keeps_chains hinj hdomain hrun
  exact ⟨by decide +kernel, by decide +kernel, fun limit ↦ (hall limit).1, (hall 3).2 _⟩

end SpoolCache.Store
