import SpoolCache.Store.Commit
import SpoolCache.Store.Steps

/-!
# A commit follows the discipline

A commit publishes a key only after its probe has found nothing to keep, and then the owner does
not hold it. When the commit succeeds, the last object it returns for a key describes the file of
that key, even if keys repeat.
-/

namespace SpoolCache.Store

open SpoolCache.Base SpoolCache.Layout SpoolCache.Prefix SpoolCache.Quorum

section

variable {fileOk : Digest → TokenFile → Prop} {config : StoreConfig}

/-- Steps of a commit on some keys: nothing new is held, and other files stay as they are. -/
structure Worked (fileOk : Digest → TokenFile → Prop) (keys : List Digest) (s s' : RankState) :
    Prop where
  changes : Changes fileOk s s'
  held : OrderedDict.SubDict s'.reporter.held s.reporter.held
  files : ∀ a, a ∉ keys → s'.files.get? a = s.files.get? a

private theorem Worked.refl (keys : List Digest) (s : RankState) : Worked fileOk keys s s :=
  ⟨Relation.ReflTransGen.refl, .refl _, fun _ _ ↦ rfl⟩

private theorem Worked.trans {keys keys' : List Digest} {a b c : RankState}
    (h : Worked fileOk keys a b)
    (h' : Worked fileOk keys' b c) : Worked fileOk (keys ++ keys') a c := by
  refine ⟨h.changes.trans h'.changes, h'.held.trans h.held, ?_⟩
  intro x hx
  rw [List.mem_append, not_or] at hx
  rw [h'.files x hx.2, h.files x hx.1]

private theorem Worked.mono {keys keys' : List Digest} {s s' : RankState}
    (h : Worked fileOk keys s s') (hs : keys ⊆ keys') : Worked fileOk keys' s s' :=
  ⟨h.changes, h.held, fun a ha ↦ h.files a fun hmem ↦ ha (hs hmem)⟩

private theorem Worked.not_held {keys : List Digest} {s s' : RankState}
    (h : Worked fileOk keys s s')
    {a : Digest} (ha : a ∉ s.reporter.held.keys) : a ∉ s'.reporter.held.keys := by
  intro hmem
  obtain ⟨span, hs⟩ := (OrderedDict.mem_keys_iff _ _).mp hmem
  exact ha ((OrderedDict.mem_keys_iff _ _).mpr ⟨span, h.held a span hs⟩)

private theorem Worked.headerSpan {keys : List Digest} {s s' : RankState}
    (h : Worked fileOk keys s s')
    {a : Digest} {span : Nat} (ha : a ∉ keys) (hs : HeaderSpan s a span) :
    HeaderSpan s' a span := by
  obtain ⟨file, header, hf, hrest⟩ := hs
  exact ⟨file, header, by rw [h.files a ha, hf], hrest⟩

private theorem worked_quarantineBad (s : RankState) (key : Digest) :
    Worked fileOk [key] s (quarantineBad true s key) :=
  ⟨steps_quarantineBad true s key, held_quarantineBad true s key,
    fun _ ha ↦ files_quarantineBad fun he ↦ ha (List.mem_singleton.mpr he)⟩

/-! ### Probes -/

/-- A descriptor of the file of a key, with a span that the inventory accepts. -/
structure Describes (s : RankState) (key : Digest) (desc : TokenFileDescriptor) : Prop where
  key_eq : desc.key = key
  headerSpan : HeaderSpan s key desc.spanTokens
  pos : 0 < desc.spanTokens
  le : desc.spanTokens ≤ maxCounter

private theorem describes_openChunk {s : RankState} {key : Digest} {allowWithdrawn : Bool}
    {desc : TokenFileDescriptor} (h : openChunk config s key allowWithdrawn = .ok desc) :
    Describes s key desc := by
  obtain ⟨hk, hs, hp, hl⟩ := headerSpan_of_openChunk h
  exact ⟨hk, hs, hp, hl⟩

private theorem Describes.worked {keys : List Digest} {s s' : RankState} {key : Digest}
    {desc : TokenFileDescriptor} (h : Describes s key desc) (hw : Worked fileOk keys s s')
    (hk : key ∉ keys) : Describes s' key desc :=
  ⟨h.key_eq, hw.headerSpan hk h.headerSpan, h.pos, h.le⟩

/-- A probe keeps the file it finds, and otherwise withdraws the key. -/
theorem validChunk_spec (fileOk : Digest → TokenFile → Prop) (config : StoreConfig)
    (s : RankState) (key : Digest) (header : TokenHeader) :
    (∃ desc, validChunk config true s key header = (s, some desc) ∧ Describes s key desc) ∨
      ∃ s', validChunk config true s key header = (s', none) ∧ Worked fileOk [key] s s' ∧
        (Honest s → key ∉ s'.reporter.held.keys) := by
  have hbad : Worked fileOk [key] s (quarantineBad true s key) ∧
      (Honest s → key ∉ (quarantineBad true s key).reporter.held.keys) :=
    ⟨worked_quarantineBad s key, fun _ ↦ not_mem_held_quarantineBad s key⟩
  unfold validChunk
  split
  · next ho =>
    refine .inr ⟨s, rfl, .refl _ s, ?_⟩
    intro hs hmem
    obtain ⟨span, hspan⟩ := (OrderedDict.mem_keys_iff _ _).mp hmem
    obtain ⟨hnone, hm⟩ := openChunk_fileNotFound ho
    exact hm rfl ((hs key span hspan).absent hnone)
  · exact .inr ⟨_, rfl, hbad⟩
  · next desc ho =>
    split
    · exact .inr ⟨_, rfl, hbad⟩
    · split
      · exact .inr ⟨_, rfl, hbad⟩
      · exact .inl ⟨desc, rfl, describes_openChunk ho⟩

/-- Keys resolved so far describe their files. -/
def ResolvedAt (s : RankState) (resolved : OrderedDict Digest TokenFileDescriptor)
    (key : Digest) : Prop := ∀ desc, resolved.get? key = some desc → Describes s key desc

private theorem ResolvedAt.worked {keys : List Digest} {s s' : RankState}
    {resolved : OrderedDict Digest TokenFileDescriptor} {key : Digest}
    (h : ResolvedAt s resolved key) (hw : Worked fileOk keys s s') (hk : key ∉ keys) :
    ResolvedAt s' resolved key := fun desc hd ↦ (h desc hd).worked hw hk

private theorem ResolvedAt.set {s : RankState} {resolved : OrderedDict Digest TokenFileDescriptor}
    {key k : Digest} {desc : TokenFileDescriptor} (hd : Describes s k desc)
    (h : key ≠ k → ResolvedAt s resolved key) : ResolvedAt s (resolved.set k desc) key := by
  intro desc' hget
  rw [OrderedDict.get?_set] at hget
  split at hget
  · next he =>
    cases hget
    exact he ▸ hd
  · next hne => exact h hne desc' hget

/-- Probing a batch: what is not missing describes its file, and what is missing is not held. -/
structure Probed (fileOk : Digest → TokenFile → Prop) (jobs : List CommitJob) (s : RankState)
    (resolved : OrderedDict Digest TokenFileDescriptor)
    (r : RankState × OrderedDict Digest TokenFileDescriptor × List CommitJob) : Prop where
  worked : Worked fileOk (jobs.map CommitJob.key) s r.1
  sub : r.2.2 ⊆ jobs
  notHeld : Honest s → ∀ job ∈ r.2.2, job.key ∉ r.1.reporter.held.keys
  total : ∀ job ∈ jobs, job.key ∈ r.2.1.keys ∨ job ∈ r.2.2
  keeps : ∀ key ∈ resolved.keys, key ∈ r.2.1.keys
  resolvedAt : ∀ key, ResolvedAt s resolved key →
    key ∉ r.2.2.map CommitJob.key → ResolvedAt r.1 r.2.1 key

private theorem probed_probeBatch (jobs : List CommitJob) (s : RankState)
    (resolved : OrderedDict Digest TokenFileDescriptor) :
    Probed fileOk jobs s resolved (probeBatch config true s resolved jobs) := by
  induction jobs generalizing s resolved with
  | nil =>
    exact ⟨.refl _ s, List.Subset.refl _, fun _ _ hj ↦ (by cases hj), fun _ hj ↦ (by cases hj),
      fun _ hk ↦ hk, fun _ h _ ↦ h⟩
  | cons job jobs ih =>
    rcases validChunk_spec fileOk config s job.key job.header with
      ⟨desc, he, hd⟩ | ⟨s1, he, hw, hn⟩
    · have hp := ih s (resolved.set job.key desc)
      have heq : probeBatch config true s resolved (job :: jobs) =
          probeBatch config true s (resolved.set job.key desc) jobs := by
        rw [probeBatch, he]
      rw [heq]
      refine ⟨hp.worked.mono (List.subset_cons_self _ _),
        fun x hx ↦ List.mem_cons_of_mem _ (hp.sub hx), hp.notHeld, ?_, ?_, ?_⟩
      · intro x hx
        rcases List.mem_cons.mp hx with rfl | hx
        · exact .inl (hp.keeps _ ((OrderedDict.mem_keys_set _ _ _ _).mpr (.inl rfl)))
        · exact hp.total x hx
      · intro key hk
        exact hp.keeps key ((OrderedDict.mem_keys_set _ _ _ _).mpr (.inr hk))
      · intro key hr hk
        exact hp.resolvedAt key (ResolvedAt.set hd fun _ ↦ hr) hk
    · have hp := ih s1 resolved
      have heq : probeBatch config true s resolved (job :: jobs) =
          ((probeBatch config true s1 resolved jobs).1,
            (probeBatch config true s1 resolved jobs).2.1,
            job :: (probeBatch config true s1 resolved jobs).2.2) := by
        rw [probeBatch, he]
      rw [heq]
      refine ⟨hw.trans hp.worked, ?_, ?_, ?_, hp.keeps, ?_⟩
      · intro x hx
        rcases List.mem_cons.mp hx with rfl | hx
        · exact List.mem_cons_self
        · exact List.mem_cons_of_mem _ (hp.sub hx)
      · intro hs x hx
        rcases List.mem_cons.mp hx with rfl | hx
        · exact hp.worked.not_held (hn hs)
        · exact hp.notHeld (hw.changes.honest hs) x hx
      · intro x hx
        rcases List.mem_cons.mp hx with rfl | hx
        · exact .inr List.mem_cons_self
        · exact (hp.total x hx).imp_right (List.mem_cons_of_mem _)
      · intro key hr hk
        rw [List.map_cons, List.mem_cons, not_or] at hk
        exact hp.resolvedAt key (hr.worked hw (by simpa using hk.1)) hk.2

/-! ### Publications -/

/-- The files that a commit publishes for a job are as the rules say. -/
def Allowed (fileOk : Digest → TokenFile → Prop) (config : StoreConfig) (job : CommitJob) : Prop :=
  ∀ file segments, headerPayload config job.key job.header = .ok segments →
    file.header = some job.header → file.authentic = true → fileOk job.key file

/-- A publication works on its key only; if it returns, it describes the new file. -/
theorem publishChunk_spec (oracle : PublishOracle) {s : RankState} {job : CommitJob}
    (hf : Allowed fileOk config job) (hn : job.key ∉ s.reporter.held.keys) :
    Worked fileOk [job.key] s (publishChunk config true oracle s job.key job.header).1 ∧
      ∀ desc, (publishChunk config true oracle s job.key job.header).2 = .ok desc →
        Describes (publishChunk config true oracle s job.key job.header).1 job.key desc := by
  have hself : Worked fileOk [job.key] s s := .refl _ s
  unfold publishChunk
  split
  · exact ⟨hself, fun _ h ↦ (by cases h)⟩
  · next hok =>
    obtain ⟨segments, hp, -⟩ := bind_ok hok
    split
    · exact ⟨hself, fun _ h ↦ (by cases h)⟩
    · dsimp only
      generalize hfile : (⟨some job.header, true, oracle.modified job.key,
        oracle.storedBytes job.key, oracle.inode job.key⟩ : TokenFile) = file
      have hlink : Change fileOk s { s with files := s.files.set job.key file } := by
        refine .publish s job.key file hn (hf file segments hp ?_ ?_)
        · rw [← hfile]
        · rw [← hfile]
      have hfiles : ∀ a, a ∉ [job.key] → (s.files.set job.key file).get? a = s.files.get? a := by
        intro a ha
        rw [OrderedDict.get?_set, if_neg (by simpa using ha)]
      split
      · exact ⟨hself, fun _ h ↦ (by cases h)⟩
      · refine ⟨⟨?_, held_recordWithdrawal true s job.key, ?_⟩, fun _ h ↦ (by cases h)⟩
        · exact (Relation.ReflTransGen.single hlink).trans (steps_withdraw true _ job.key)
        · intro a ha
          rw [files_recordWithdrawal]
          exact hfiles a ha
      · refine ⟨⟨?_, .refl _, hfiles⟩, fun desc h ↦ describes_openChunk h⟩
        have hmem : job.key ∈ (s.files.set job.key file).keys :=
          (OrderedDict.mem_keys_set _ _ _ _).mpr (.inl rfl)
        exact (Relation.ReflTransGen.single hlink).tail (.safe (.clear _ job.key hmem))

/-- Publishing keys that are not held: every resolved key describes its file afterwards. -/
theorem publishBatch_spec (oracle : CommitOracle) {jobs : List CommitJob}
    (hf : ∀ job ∈ jobs, Allowed fileOk config job) (s : RankState)
    (resolved : OrderedDict Digest TokenFileDescriptor)
    (hn : ∀ job ∈ jobs, job.key ∉ s.reporter.held.keys) :
    Worked fileOk (jobs.map CommitJob.key) s
        (publishBatch config true oracle s resolved jobs).1 ∧
      ∀ r, (publishBatch config true oracle s resolved jobs).2 = .ok r →
        (∀ job ∈ jobs, job.key ∈ r.keys) ∧ (∀ key ∈ resolved.keys, key ∈ r.keys) ∧
        ∀ key, (key ∉ jobs.map CommitJob.key → ResolvedAt s resolved key) →
          ResolvedAt (publishBatch config true oracle s resolved jobs).1 r key := by
  induction jobs generalizing s resolved with
  | nil =>
    refine ⟨.refl _ s, ?_⟩
    intro r hr
    cases hr
    exact ⟨fun _ hj ↦ (by cases hj), fun _ hk ↦ hk, fun key h ↦ h (by simp)⟩
  | cons job jobs ih =>
    obtain ⟨hw, hd⟩ := publishChunk_spec oracle.publish (hf job List.mem_cons_self)
      (hn job List.mem_cons_self)
    unfold publishBatch
    generalize publishChunk config true oracle.publish s job.key job.header = out at hw hd
    obtain ⟨s1, result⟩ := out
    cases result with
    | error e =>
      refine ⟨hw.mono ?_, fun _ h ↦ (by cases h)⟩
      simp
    | ok desc =>
      have hdesc := hd desc rfl
      have hn1 : ∀ x ∈ jobs, x.key ∉ s1.reporter.held.keys := fun x hx ↦
        hw.not_held (hn x (List.mem_cons_of_mem _ hx))
      obtain ⟨hws, hrest⟩ := ih (fun x hx ↦ hf x (List.mem_cons_of_mem _ hx)) s1
        (resolved.set job.key desc) hn1
      refine ⟨hw.trans hws, ?_⟩
      intro r hr
      obtain ⟨hall, hkeep, hres⟩ := hrest r hr
      have hset : ∀ key, key = job.key ∨ key ∈ resolved.keys → key ∈ r.keys := fun key hk ↦
        hkeep key ((OrderedDict.mem_keys_set _ _ _ _).mpr hk)
      refine ⟨?_, fun key hk ↦ hset key (.inr hk), ?_⟩
      · intro x hx
        rcases List.mem_cons.mp hx with rfl | hx
        · exact hset _ (.inl rfl)
        · exact hall x hx
      · intro key hk
        apply hres key
        intro hnot
        apply ResolvedAt.set hdesc
        intro hne
        have hs : ResolvedAt s resolved key := hk (by
          rw [List.map_cons, List.mem_cons, not_or]
          exact ⟨hne, hnot⟩)
        exact hs.worked hw (by simpa using hne)

/-! ### Batches -/

/-- The objects of a batch describe the files of its keys. -/
theorem commitBatch_spec (oracle : CommitOracle) {jobs : List CommitJob}
    (hf : ∀ job ∈ jobs, Allowed fileOk config job) {s : RankState} (hs : Honest s) :
    Worked fileOk (jobs.map CommitJob.key) s (commitBatch config true oracle s jobs).1 ∧
      ∀ objects, (commitBatch config true oracle s jobs).2 = .ok objects →
        objects.map TokenFileDescriptor.key = jobs.map CommitJob.key ∧
        ∀ o ∈ objects, Describes (commitBatch config true oracle s jobs).1 o.key o := by
  have hp : Probed fileOk jobs s .empty (probeBatch config true s .empty jobs) :=
    probed_probeBatch jobs s .empty
  unfold commitBatch
  generalize probeBatch config true s .empty jobs = out at hp
  obtain ⟨s1, resolved, missing⟩ := out
  obtain ⟨hw, hpub⟩ := publishBatch_spec oracle
    (fun job hj ↦ hf job (hp.sub hj)) s1 resolved (hp.notHeld hs)
  dsimp only
  generalize publishBatch config true oracle s1 resolved missing = out at hw hpub
  obtain ⟨s2, result⟩ := out
  have hworked : Worked fileOk (jobs.map CommitJob.key) s s2 := by
    refine (hp.worked.trans hw).mono ?_
    intro key hk
    rcases List.mem_append.mp hk with hk | hk
    · exact hk
    · obtain ⟨job, hj, rfl⟩ := List.mem_map.mp hk
      exact List.mem_map.mpr ⟨job, hp.sub hj, rfl⟩
  cases result with
  | error e => exact ⟨hworked, fun _ h ↦ (by cases h)⟩
  | ok r =>
    refine ⟨hworked, ?_⟩
    intro objects ho
    cases ho
    obtain ⟨hall, hkeep, hres⟩ := hpub r rfl
    have hat : ∀ key, ResolvedAt s2 r key := fun key ↦
      hres key fun hk ↦ hp.resolvedAt key (fun desc hd ↦ (by cases hd)) hk
    have hkeys : ∀ job ∈ jobs, job.key ∈ r.keys := by
      intro job hj
      rcases hp.total job hj with hk | hk
      · exact hkeep _ hk
      · exact hall job hk
    refine ⟨?_, ?_⟩
    · clear hworked hw hpub hf hp hall hkeep hres
      induction jobs with
      | nil => rfl
      | cons job jobs ih =>
        obtain ⟨desc, hd⟩ := (OrderedDict.mem_keys_iff _ _).mp (hkeys job List.mem_cons_self)
        rw [List.filterMap_cons, hd, List.map_cons, List.map_cons, (hat _ desc hd).key_eq,
          ih fun x hx ↦ hkeys x (List.mem_cons_of_mem _ hx)]
    · intro o ho
      obtain ⟨job, -, hd⟩ := List.mem_filterMap.mp ho
      have hdesc := hat job.key o hd
      rw [hdesc.key_eq]
      exact hdesc

/-- The last object for a key describes its file after all batches. -/
theorem commitBatches_spec (oracle : CommitOracle) {batches : List (List CommitJob)}
    (hf : ∀ jobs ∈ batches, ∀ job ∈ jobs, Allowed fileOk config job) {s : RankState}
    (hs : Honest s) :
    Worked fileOk (batches.flatten.map CommitJob.key) s
        (commitBatches config true oracle s batches).1 ∧
      ∀ objects, (commitBatches config true oracle s batches).2 = .ok objects →
        objects.map TokenFileDescriptor.key = batches.flatten.map CommitJob.key ∧
        (∀ o ∈ objects, 0 < o.spanTokens ∧ o.spanTokens ≤ maxCounter) ∧
        ∀ key span, LastOffer objects key span →
          HeaderSpan (commitBatches config true oracle s batches).1 key span := by
  induction batches generalizing s with
  | nil =>
    refine ⟨.refl _ s, ?_⟩
    intro objects ho
    cases ho
    refine ⟨rfl, fun _ h ↦ (by cases h), ?_⟩
    rintro key span ⟨before, o, after, he, -⟩
    simp at he
  | cons jobs rest ih =>
    obtain ⟨hw, hd⟩ := commitBatch_spec oracle (hf jobs List.mem_cons_self) hs
    unfold commitBatches
    generalize commitBatch config true oracle s jobs = out at hw hd
    obtain ⟨s1, result⟩ := out
    rw [List.flatten_cons, List.map_append]
    cases result with
    | error e =>
      exact ⟨hw.mono (List.subset_append_left _ _), fun _ h ↦ (by cases h)⟩
    | ok objects =>
      obtain ⟨hkeys, hdesc⟩ := hd objects rfl
      obtain ⟨hws, hrest⟩ := ih (fun x hx ↦ hf x (List.mem_cons_of_mem _ hx))
        (hw.changes.honest hs)
      dsimp only
      generalize commitBatches config true oracle s1 rest = out at hws hrest
      obtain ⟨s2, result⟩ := out
      refine ⟨?_, ?_⟩
      · cases result <;> exact hw.trans hws
      · intro all ha
        cases result with
        | error e => cases ha
        | ok more =>
          cases ha
          obtain ⟨hkeys', hv, hlast⟩ := hrest more rfl
          refine ⟨by rw [List.map_append, hkeys, hkeys'], ?_, ?_⟩
          · intro o ho
            rcases List.mem_append.mp ho with ho | ho
            · exact ⟨(hdesc o ho).pos, (hdesc o ho).le⟩
            · exact hv o ho
          · intro key span hl
            rcases hl.of_append with hl | ⟨⟨before, o, after, he, rfl, rfl, -⟩, hn⟩
            · exact hlast key span hl
            · rw [hkeys'] at hn
              exact hws.headerSpan hn (hdesc o (by simp [he])).headerSpan

/-! ### The whole commit -/

/-- Touching files changes no header. -/
theorem headerSpan_touchAll {times : Nat → Nat} {s : RankState} {keys : List Digest}
    {key : Digest} {span : Nat} (h : HeaderSpan s key span) :
    HeaderSpan (touchAll times s keys).1 key span := by
  induction keys generalizing s times with
  | nil => exact h
  | cons k keys ih =>
    unfold touchAll
    cases hf : s.files.get? k with
    | none => exact h
    | some file =>
      apply ih
      obtain ⟨old, header, hold, hh, hs⟩ := h
      by_cases he : key = k
      · rw [he, hf] at hold
        cases hold
        exact ⟨{ file with modified := times 1 }, header,
          by rw [OrderedDict.get?_set, if_pos he], hh, hs⟩
      · exact ⟨old, header, by rw [OrderedDict.get?_set, if_neg he, hold], hh, hs⟩

/-- A job of a commit is about a prefix, or about the state at the last one. -/
theorem mem_commitPlan {batchCount : Nat} {prefixes : List PrefixDigest} {jobs : List CommitJob}
    (h : jobs ∈ commitPlan config batchCount prefixes) {job : CommitJob} (hj : job ∈ jobs) :
    job ∈ dataJobs prefixes ∨
      (config.layout.hasBoundaryState = true ∧
        ∃ tail, prefixes.getLast? = some tail ∧ job = stateJob tail) := by
  unfold commitPlan at h
  rcases List.mem_append.mp h with hd | hs
  · obtain ⟨i, -, rfl⟩ := List.mem_map.mp hd
    exact .inl (mem_of_mem_page hj)
  · split at hs
    · next hb =>
      cases hl : prefixes.getLast? with
      | none =>
        rw [hl] at hs
        cases hs
      | some tail =>
        rw [hl] at hs
        have he : jobs = [stateJob tail] := List.mem_singleton.mp hs
        rw [he, List.mem_singleton] at hj
        exact .inr ⟨hb, tail, rfl, hj⟩
    · cases hs

/-- A commit takes steps of the owner, and the last object it returns for a key describes the
file of that key. -/
theorem commitKeys_spec (oracle : CommitOracle) {s : RankState} {prefixes : List PrefixDigest}
    (blockTables : List (List Nat))
    (ht : ∀ key file time, fileOk key file → fileOk key { file with modified := time })
    (hdata : ∀ job ∈ dataJobs prefixes, Allowed fileOk config job)
    (hstate : config.layout.hasBoundaryState = true → ∀ tail, prefixes.getLast? = some tail →
      Allowed fileOk config (stateJob tail)) (hs : Honest s) :
    Changes fileOk s (commitKeys config true oracle s prefixes blockTables).1 ∧
      ∀ snapshot, (commitKeys config true oracle s prefixes blockTables).2 = .ok snapshot →
        (∀ o ∈ snapshot.objects, 0 < o.spanTokens ∧ o.spanTokens ≤ maxCounter) ∧
        ∀ key span, LastOffer snapshot.objects key span →
          HeaderSpan (commitKeys config true oracle s prefixes blockTables).1 key span := by
  unfold commitKeys
  split
  · exact ⟨.refl, fun _ h ↦ (by cases h)⟩
  · exact ⟨.refl, fun _ h ↦ (by cases h)⟩
  · next batchCount tail hcount htail =>
    have hf : ∀ jobs ∈ commitPlan config batchCount prefixes, ∀ job ∈ jobs,
        Allowed fileOk config job := by
      intro jobs hjobs job hj
      rcases mem_commitPlan hjobs hj with hd | ⟨hb, t, hl, rfl⟩
      · exact hdata job hd
      · exact hstate hb t hl
    obtain ⟨hw, hd⟩ := commitBatches_spec oracle hf hs
    generalize commitBatches config true oracle s (commitPlan config batchCount prefixes) =
      out at hw hd
    obtain ⟨s1, result⟩ := out
    cases result with
    | error e => exact ⟨hw.changes, fun _ h ↦ (by cases h)⟩
    | ok objects =>
      obtain ⟨-, hv, hlast⟩ := hd objects rfl
      dsimp only
      unfold finishCommit
      cases hc : coveredSnapshot config tail.digest tail.spanTokens objects with
      | error e => exact ⟨hw.changes, fun _ h ↦ (by cases h)⟩
      | ok snapshot =>
        have hobjects : snapshot.objects = objects := by
          obtain ⟨_, -, he⟩ := bind_ok hc
          cases he
          rfl
        have htouch : Steps fileOk true s1
            (touch oracle.times s1 (objects.map TokenFileDescriptor.key)).1 :=
          steps_touchAll true ht oracle.times s1 _
        have hspan : ∀ key span, HeaderSpan s1 key span → HeaderSpan
            (touch oracle.times s1 (objects.map TokenFileDescriptor.key)).1 key span :=
          fun _ _ h ↦ headerSpan_touchAll h
        dsimp only
        generalize touch oracle.times s1 (objects.map TokenFileDescriptor.key) =
          out at htouch hspan
        obtain ⟨s2, result⟩ := out
        cases result with
        | error e => exact ⟨hw.changes.trans htouch, fun _ h ↦ (by cases h)⟩
        | ok u =>
          refine ⟨hw.changes.trans htouch, ?_⟩
          intro snapshot' he
          cases he
          rw [hobjects]
          exact ⟨hv, fun key span hl ↦ hspan key span (hlast key span hl)⟩

end

end SpoolCache.Store
