import SpoolCache.Base.Recency
import SpoolCache.Store.Chains
import SpoolCache.Store.Commit

/-!
# The files of a successful commit

A commit that returns has every file it needs, with the header it computed for it, each touched at
its own time. Files of other keys, and the pins, are as they were. This holds with and without the
hook, as long as no key repeats.
-/

namespace SpoolCache.Store

open SpoolCache.Base SpoolCache.Layout SpoolCache.Prefix SpoolCache.Quorum

section

variable {config : StoreConfig} {hooked : Bool}

/-- Pins and the files of all other keys are as they were. -/
structure Framed (keys : List Digest) (s s' : RankState) : Prop where
  pins : s'.pins = s.pins
  files : ∀ a, a ∉ keys → s'.files.get? a = s.files.get? a

private theorem Framed.refl (keys : List Digest) (s : RankState) : Framed keys s s :=
  ⟨rfl, fun _ _ ↦ rfl⟩

private theorem Framed.trans {keys keys' : List Digest} {a b c : RankState} (h : Framed keys a b)
    (h' : Framed keys' b c) : Framed (keys ++ keys') a c := by
  refine ⟨h'.pins.trans h.pins, fun x hx ↦ ?_⟩
  rw [List.mem_append, not_or] at hx
  rw [h'.files x hx.2, h.files x hx.1]

private theorem Framed.mono {keys keys' : List Digest} {s s' : RankState} (h : Framed keys s s')
    (hs : keys ⊆ keys') : Framed keys' s s' :=
  ⟨h.pins, fun a ha ↦ h.files a fun hmem ↦ ha (hs hmem)⟩

/-- The file of a job is there, with a valid header. -/
def HoldsJob (config : StoreConfig) (s : RankState) (job : CommitJob) : Prop :=
  ∃ file segments, s.files.get? job.key = some file ∧ file.header = some job.header ∧
    headerPayload config job.key job.header = .ok segments

private theorem HoldsJob.framed {keys : List Digest} {s s' : RankState} {job : CommitJob}
    (h : HoldsJob config s job) (hf : Framed keys s s') (hk : job.key ∉ keys) :
    HoldsJob config s' job := by
  obtain ⟨file, segments, hget, hrest⟩ := h
  exact ⟨file, segments, by rw [hf.files _ hk, hget], hrest⟩

/-! ### Probes -/

/-- The report of a withdrawal leaves the pins alone. -/
theorem pins_recordWithdrawal (hooked : Bool) (s : RankState) (key : Digest) :
    (recordWithdrawal hooked s key).pins = s.pins := by
  unfold recordWithdrawal
  split <;> rfl

/-- A quarantine touches the file of its key only. -/
theorem framed_quarantineBad (hooked : Bool) (s : RankState) (key : Digest) :
    Framed [key] s (quarantineBad hooked s key) := by
  refine ⟨?_, fun a ha ↦ files_quarantineBad fun he ↦ ha (List.mem_singleton.mpr he)⟩
  have hw : (recordWithdrawal hooked (markWithdrawn s key) key).pins = s.pins :=
    pins_recordWithdrawal hooked _ key
  unfold quarantineBad
  split
  · exact hw
  · unfold quarantineManifest
    dsimp only
    split
    · exact hw
    · split <;> exact hw

private theorem framed_validChunk (s : RankState) (key : Digest) (header : TokenHeader) :
    Framed [key] s (validChunk config hooked s key header).1 := by
  unfold validChunk
  split
  · exact .refl _ s
  · exact framed_quarantineBad hooked s key
  · split
    · exact framed_quarantineBad hooked s key
    · split
      · exact framed_quarantineBad hooked s key
      · exact .refl _ s

/-- A probe that finds a file has found the one it asked for. -/
theorem holdsJob_validChunk {s s' : RankState} {key : Digest} {header : TokenHeader}
    {desc : TokenFileDescriptor}
    (h : validChunk config hooked s key header = (s', some desc)) :
    s' = s ∧ desc.key = key ∧ HoldsJob config s ⟨key, header⟩ := by
  unfold validChunk at h
  split at h
  · cases h
  · cases h
  · next d ho =>
    split at h
    · cases h
    · next heq =>
      split at h
      · cases h
      · cases h
        obtain ⟨-, file, found, segments, hget, hheader, hp, rfl⟩ := openChunk_ok ho
        have heq := not_not.mp heq
        rw [Prod.mk.injEq, Prod.mk.injEq] at heq
        obtain ⟨kind, parent, span⟩ := header
        obtain ⟨kind', parent', span'⟩ := found
        obtain ⟨rfl, rfl, rfl⟩ := heq
        exact ⟨rfl, rfl, file, segments, hget, hheader, hp⟩

/-- Resolved keys are those of their descriptors. -/
def ResolvedKeys (resolved : OrderedDict Digest TokenFileDescriptor) : Prop :=
  ∀ key desc, resolved.get? key = some desc → desc.key = key

private theorem ResolvedKeys.set {resolved : OrderedDict Digest TokenFileDescriptor}
    (h : ResolvedKeys resolved) {key : Digest} {desc : TokenFileDescriptor} (hd : desc.key = key) :
    ResolvedKeys (resolved.set key desc) := by
  intro k d hget
  rw [OrderedDict.get?_set] at hget
  split at hget
  · next he =>
    cases hget
    exact hd.trans he.symm
  · exact h k d hget

/-- The probes of a batch touch their own files, and leave the jobs that are missing. -/
theorem probeBatch_files {jobs : List CommitJob} {s s' : RankState}
    {resolved resolved' : OrderedDict Digest TokenFileDescriptor} {missing : List CommitJob}
    (hr : ResolvedKeys resolved)
    (h : probeBatch config hooked s resolved jobs = (s', resolved', missing)) :
    Framed (jobs.map CommitJob.key) s s' ∧ missing.Sublist jobs ∧ ResolvedKeys resolved' ∧
      (∀ key ∈ resolved.keys, key ∈ resolved'.keys) ∧
      (∀ job ∈ jobs, job ∈ missing ∨ job.key ∈ resolved'.keys) ∧
      ((jobs.map CommitJob.key).Nodup → ∀ job ∈ jobs, job ∈ missing ∨ HoldsJob config s' job) := by
  induction jobs generalizing s resolved missing with
  | nil =>
    cases h
    exact ⟨.refl _ _, List.Sublist.refl _, hr, fun _ hk ↦ hk, fun _ hj ↦ (by cases hj),
      fun _ _ hj ↦ (by cases hj)⟩
  | cons job jobs ih =>
    rw [List.map_cons, List.nodup_cons]
    unfold probeBatch at h
    split at h
    · next s1 desc hv =>
      obtain ⟨rfl, hkey, hholds⟩ := holdsJob_validChunk hv
      obtain ⟨hf, hsub, hr', hkeep, hall, hheld⟩ := ih (hr.set hkey) h
      refine ⟨hf.mono (List.subset_cons_self _ _), hsub.cons _, hr',
        fun k hk ↦ hkeep k ((OrderedDict.mem_keys_set _ _ _ _).mpr (.inr hk)), fun x hx ↦ ?_,
        fun hn x hx ↦ ?_⟩
      · rcases List.mem_cons.mp hx with rfl | hx
        · exact .inr (hkeep _ ((OrderedDict.mem_keys_set _ _ _ _).mpr (.inl rfl)))
        · exact hall x hx
      · rcases List.mem_cons.mp hx with rfl | hx
        · exact .inr (hholds.framed hf hn.1)
        · exact hheld hn.2 x hx
    · next s1 hv =>
      have hf1 : Framed [job.key] s s1 := by
        have hframe : Framed [job.key] s (validChunk config hooked s job.key job.header).1 :=
          framed_validChunk s job.key job.header
        rw [hv] at hframe
        exact hframe
      generalize hp : probeBatch config hooked s1 resolved jobs = out at h
      obtain ⟨s2, resolved2, missing2⟩ := out
      cases h
      obtain ⟨hf, hsub, hr', hkeep, hall, hheld⟩ := ih hr hp
      refine ⟨hf1.trans hf, hsub.cons_cons _, hr', hkeep, fun x hx ↦ ?_, fun hn x hx ↦ ?_⟩
      · rcases List.mem_cons.mp hx with rfl | hx
        · exact .inl List.mem_cons_self
        · exact (hall x hx).imp_left (List.mem_cons_of_mem _)
      · rcases List.mem_cons.mp hx with rfl | hx
        · exact .inl List.mem_cons_self
        · exact (hheld hn.2 x hx).imp_left (List.mem_cons_of_mem _)

/-! ### Publications -/

private theorem publishChunk_files {oracle : PublishOracle} {s s' : RankState} {job : CommitJob}
    {desc : TokenFileDescriptor}
    (h : publishChunk config hooked oracle s job.key job.header = (s', .ok desc)) :
    Framed [job.key] s s' ∧ desc.key = job.key ∧ HoldsJob config s' job := by
  unfold publishChunk at h
  split at h
  · cases h
  · next hok =>
    obtain ⟨segments, hp, -⟩ := bind_ok hok
    split at h
    · cases h
    · dsimp only at h
      split at h
      · cases h
      · cases h
      · rw [Prod.mk.injEq] at h
        obtain ⟨rfl, hopen⟩ := h
        refine ⟨⟨rfl, fun a ha ↦ ?_⟩, (parent_of_openChunk hopen).1, ?_⟩
        · change (s.files.set job.key _).get? a = _
          rw [OrderedDict.get?_set, if_neg (by simpa using ha)]
        · refine ⟨⟨some job.header, true, oracle.modified job.key, oracle.storedBytes job.key,
            oracle.inode job.key⟩, segments, ?_, rfl, hp⟩
          change (s.files.set job.key _).get? job.key = _
          rw [OrderedDict.get?_set, if_pos rfl]

private theorem publishBatch_files {oracle : CommitOracle} {jobs : List CommitJob}
    {s s' : RankState}
    {resolved resolved' : OrderedDict Digest TokenFileDescriptor} (hr : ResolvedKeys resolved)
    (h : publishBatch config hooked oracle s resolved jobs = (s', .ok resolved')) :
    Framed (jobs.map CommitJob.key) s s' ∧ ResolvedKeys resolved' ∧
      (∀ key ∈ resolved.keys, key ∈ resolved'.keys) ∧
      (∀ job ∈ jobs, job.key ∈ resolved'.keys) ∧
      ((jobs.map CommitJob.key).Nodup → ∀ job ∈ jobs, HoldsJob config s' job) := by
  induction jobs generalizing s resolved with
  | nil =>
    cases h
    exact ⟨.refl _ _, hr, fun _ hk ↦ hk, fun _ hj ↦ (by cases hj), fun _ _ hj ↦ (by cases hj)⟩
  | cons job jobs ih =>
    rw [List.map_cons, List.nodup_cons]
    unfold publishBatch at h
    split at h
    · cases h
    · next s1 desc hv =>
      obtain ⟨hf1, hkey, hholds⟩ := publishChunk_files hv
      obtain ⟨hf, hr', hkeep, hall, hheld⟩ := ih (hr.set hkey) h
      refine ⟨hf1.trans hf, hr',
        fun k hk ↦ hkeep k ((OrderedDict.mem_keys_set _ _ _ _).mpr (.inr hk)), fun x hx ↦ ?_,
        fun hn x hx ↦ ?_⟩
      · rcases List.mem_cons.mp hx with rfl | hx
        · exact hkeep _ ((OrderedDict.mem_keys_set _ _ _ _).mpr (.inl rfl))
        · exact hall x hx
      · rcases List.mem_cons.mp hx with rfl | hx
        · exact hholds.framed hf hn.1
        · exact hheld hn.2 x hx

/-! ### Batches -/

private theorem filterMap_resolved {jobs : List CommitJob}
    {resolved : OrderedDict Digest TokenFileDescriptor} (hr : ResolvedKeys resolved)
    (h : ∀ job ∈ jobs, job.key ∈ resolved.keys) :
    (jobs.filterMap fun job ↦ resolved.get? job.key).map TokenFileDescriptor.key =
      jobs.map CommitJob.key := by
  induction jobs with
  | nil => rfl
  | cons job jobs ih =>
    obtain ⟨desc, hd⟩ := (OrderedDict.mem_keys_iff _ _).mp (h job List.mem_cons_self)
    rw [List.filterMap_cons, hd, List.map_cons, List.map_cons, hr _ _ hd,
      ih fun x hx ↦ h x (List.mem_cons_of_mem _ hx)]

private theorem commitBatch_files {oracle : CommitOracle} {jobs : List CommitJob} {s s' : RankState}
    {objects : List TokenFileDescriptor}
    (h : commitBatch config hooked oracle s jobs = (s', .ok objects)) :
    Framed (jobs.map CommitJob.key) s s' ∧
      objects.map TokenFileDescriptor.key = jobs.map CommitJob.key ∧
      ((jobs.map CommitJob.key).Nodup → ∀ job ∈ jobs, HoldsJob config s' job) := by
  unfold commitBatch at h
  generalize hp : probeBatch config hooked s .empty jobs = out at h
  obtain ⟨s1, resolved, missing⟩ := out
  dsimp only at h
  split at h
  · cases h
  · next s2 resolved2 hpub =>
    cases h
    obtain ⟨hf1, hsub, hr, -, hall, hheld⟩ := probeBatch_files (fun _ _ hget ↦ (by cases hget)) hp
    have hmissing : (missing.map CommitJob.key).Sublist (jobs.map CommitJob.key) := hsub.map _
    obtain ⟨hf2, hr2, hkeep, hall2, hheld2⟩ := publishBatch_files hr hpub
    have hframe : Framed (jobs.map CommitJob.key) s s' := by
      refine (hf1.trans hf2).mono fun key hk ↦ ?_
      exact (List.mem_append.mp hk).elim id fun hk ↦ hmissing.subset hk
    refine ⟨hframe, filterMap_resolved hr2 fun job hj ↦ ?_, fun hn job hj ↦ ?_⟩
    · exact (hall job hj).elim (hall2 job) (hkeep _)
    · by_cases hm : job ∈ missing
      · exact hheld2 (hmissing.nodup hn) job hm
      · refine ((hheld hn job hj).resolve_left hm).framed hf2 fun hmem ↦ hm ?_
        obtain ⟨other, ho, he⟩ := List.mem_map.mp hmem
        rwa [← List.inj_on_of_nodup_map hn (hsub.subset ho) hj he]

private theorem commitBatches_files {oracle : CommitOracle} {batches : List (List CommitJob)}
    {s s' : RankState} {objects : List TokenFileDescriptor}
    (h : commitBatches config hooked oracle s batches = (s', .ok objects)) :
    Framed (batches.flatten.map CommitJob.key) s s' ∧
      objects.map TokenFileDescriptor.key = batches.flatten.map CommitJob.key ∧
      ((batches.flatten.map CommitJob.key).Nodup →
        ∀ job ∈ batches.flatten, HoldsJob config s' job) := by
  induction batches generalizing s objects with
  | nil =>
    cases h
    exact ⟨.refl _ _, rfl, fun _ _ hj ↦ (by cases hj)⟩
  | cons jobs rest ih =>
    unfold commitBatches at h
    rw [List.flatten_cons, List.map_append]
    split at h
    · cases h
    · next s1 first hfirst =>
      split at h
      · cases h
      · next s2 more hmore =>
        cases h
        obtain ⟨hf1, hk1, hall1⟩ := commitBatch_files hfirst
        obtain ⟨hf2, hk2, hall2⟩ := ih hmore
        refine ⟨hf1.trans hf2, by rw [List.map_append, hk1, hk2], fun hn job hj ↦ ?_⟩
        obtain ⟨hn1, hn2, hdisjoint⟩ := List.nodup_append.mp hn
        rcases List.mem_append.mp hj with hj | hj
        · exact (hall1 hn1 job hj).framed hf2 fun hmem ↦
            hdisjoint _ (List.mem_map_of_mem hj) _ hmem rfl
        · exact hall2 hn2 job hj

/-! ### Touches -/

/-- The modification time that a key has after keys were touched: of the two readings that each
call takes, the second one of the last call for the key. -/
def modifiedTime (times : Nat → Nat) (keys : List Digest) (key : Digest) : Nat :=
  Forest.lastReading (fun i ↦ times (2 * i + 1)) keys key

/-- Touched files have the times of their last touches, and nothing else changes. -/
theorem touchAll_ok {times : Nat → Nat} {s s' : RankState} {keys : List Digest}
    (h : touchAll times s keys = (s', .ok ())) :
    s'.pins = s.pins ∧ ∀ a, s'.files.get? a =
      if a ∈ keys then
        (s.files.get? a).map fun file ↦ { file with modified := modifiedTime times keys a }
      else s.files.get? a := by
  induction keys generalizing s times with
  | nil =>
    cases h
    exact ⟨rfl, fun a ↦ by simp⟩
  | cons key keys ih =>
    unfold touchAll at h
    cases hf : s.files.get? key with
    | none =>
      rw [hf] at h
      cases h
    | some file =>
      rw [hf] at h
      obtain ⟨hp, hfiles⟩ := ih h
      refine ⟨hp, fun a ↦ ?_⟩
      have hlast : modifiedTime times (key :: keys) a =
          if a ∈ keys then modifiedTime (fun i ↦ times (i + 2)) keys a else times 1 := by
        unfold modifiedTime
        rw [Forest.lastReading]
        rfl
      rw [hfiles a, OrderedDict.get?_set, hlast]
      by_cases ha : a = key
      · subst ha
        by_cases hk : a ∈ keys <;> simp [hf, hk]
      · by_cases hk : a ∈ keys <;> simp [ha, hk]

/-- The files of a commit in order. -/
def commitJobs (config : StoreConfig) (prefixes : List PrefixDigest) : List CommitJob :=
  dataJobs prefixes ++
    if config.layout.hasBoundaryState then (prefixes.getLast?.map stateJob).toList else []

private theorem flatten_commitPlan {batchCount : Nat} (hb : 0 < batchCount)
    (prefixes : List PrefixDigest) :
    (commitPlan config batchCount prefixes).flatten = commitJobs config prefixes := by
  unfold commitPlan commitJobs
  rw [List.flatten_append]
  congr 1
  · rw [← List.flatMap_def]
    exact flatMap_page batchCount hb _
  · split
    · cases prefixes.getLast? <;> rfl
    · rfl

/-- A commit has a batch, and its prefixes end at consecutive chunks. -/
theorem commitBatchCount_ok {prefixes : List PrefixDigest} {blockTables : List (List Nat)}
    {batchCount : Nat} (h : commitBatchCount config prefixes blockTables = .ok batchCount) :
    0 < batchCount ∧ prefixes.map PrefixDigest.spanTokens =
      (List.range prefixes.length).map fun i ↦ (i + 1) * config.layout.chunkTokens := by
  unfold commitBatchCount at h
  dsimp only at h
  split at h
  · cases h
  · split at h
    · cases h
    · next hspans =>
      obtain ⟨_, -, h⟩ := bind_ok h
      obtain ⟨_, -, h⟩ := bind_ok h
      obtain ⟨_, -, h⟩ := bind_ok h
      obtain ⟨_, -, h⟩ := bind_ok h
      cases h
      exact ⟨by omega, not_not.mp hspans⟩

/-- What a commit that returns has done; where no key repeats, its files are as it needs them. -/
structure Committed (config : StoreConfig) (times : Nat → Nat) (prefixes : List PrefixDigest)
    (s s' : RankState) (snapshot : TokenSnapshot) : Prop where
  spans : prefixes.map PrefixDigest.spanTokens =
    (List.range prefixes.length).map fun i ↦ (i + 1) * config.layout.chunkTokens
  keys : snapshot.objects.map TokenFileDescriptor.key =
    (commitJobs config prefixes).map CommitJob.key
  framed : Framed ((commitJobs config prefixes).map CommitJob.key) s s'
  files : (snapshot.objects.map TokenFileDescriptor.key).Nodup →
    ∀ job ∈ commitJobs config prefixes, ∃ file segments, s'.files.get? job.key = some file ∧
      file.header = some job.header ∧ headerPayload config job.key job.header = .ok segments ∧
      file.modified =
        modifiedTime times (snapshot.objects.map TokenFileDescriptor.key).reverse job.key

/-- What a successful commit leaves behind. -/
theorem committed_commitKeys {oracle : CommitOracle} {s s' : RankState}
    {prefixes : List PrefixDigest} {blockTables : List (List Nat)} {snapshot : TokenSnapshot}
    (h : commitKeys config hooked oracle s prefixes blockTables = (s', .ok snapshot)) :
    Committed config oracle.times prefixes s s' snapshot := by
  unfold commitKeys at h
  split at h
  · cases h
  · cases h
  · next batchCount tail hcount htail =>
    obtain ⟨hb, hspans⟩ := commitBatchCount_ok hcount
    split at h
    · cases h
    · next s1 objects hbatches =>
      obtain ⟨hf, hk, hall⟩ := commitBatches_files hbatches
      rw [flatten_commitPlan hb] at hf hk hall
      unfold finishCommit at h
      split at h
      · cases h
      · next found hcovered =>
        split at h
        · cases h
        · next s2 htouch =>
          cases h
          obtain ⟨hpins, hfiles⟩ := touchAll_ok htouch
          have hobjects : snapshot.objects = objects := by
            rw [coveredSnapshot_ok hcovered]
          have hmem : ∀ a, a ∈ (objects.map TokenFileDescriptor.key).reverse ↔
              a ∈ (commitJobs config prefixes).map CommitJob.key := fun a ↦ by
            rw [List.mem_reverse, hk]
          refine ⟨hspans, by rw [hobjects, hk], ⟨hpins.trans hf.pins, fun a ha ↦ ?_⟩,
            fun hn job hj ↦ ?_⟩
          · rw [hfiles a, if_neg (mt (hmem a).mp ha), hf.files a ha]
          · rw [hobjects, hk] at hn
            obtain ⟨file, segments, hget, hheader, hp⟩ := hall hn job hj
            rw [hobjects]
            refine ⟨{ file with
              modified := modifiedTime oracle.times (objects.map TokenFileDescriptor.key).reverse
                job.key }, segments, ?_, hheader, hp, rfl⟩
            rw [hfiles job.key, if_pos ((hmem _).mpr (List.mem_map_of_mem hj)), hget]
            rfl

end

end SpoolCache.Store
