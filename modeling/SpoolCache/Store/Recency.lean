import SpoolCache.Base.Recency
import SpoolCache.Store.CommitFiles

/-!
# Eviction keeps the cache prefix-closed

Commits and restore views touch a chain from its end to its first chunk, so that a parent is always
more recent than its children, and the state file of a boundary is older than the last data file.
Capacity batches remove the oldest files that no view pins. So they never remove a parent before
its children, and nothing on disk is out of reach of a lookup.
-/

namespace SpoolCache.Store

open SpoolCache.Base SpoolCache.Layout SpoolCache.Prefix SpoolCache.Quorum

/-- The files of a root as a forest. -/
def forest (s : RankState) : Forest Digest where
  time key := (s.files.get? key).map TokenFile.modified
  parent key := (s.files.get? key).bind fun file ↦ file.header.bind TokenHeader.parent

private theorem time_forest {s : RankState} {key : Digest} {t : Nat}
    (h : (forest s).time key = some t) :
    ∃ file, s.files.get? key = some file ∧ file.modified = t := Option.map_eq_some_iff.mp h

private theorem parent_forest {s : RankState} {key : Digest} {file : TokenFile}
    {header : TokenHeader} (hf : s.files.get? key = some file) (hh : file.header = some header) :
    (forest s).parent key = header.parent := by
  simp [forest, hf, hh]

/-- The span of a parent and the span of its child differ by a chunk, or not at all when the child
is a state file. -/
def spanStep (config : StoreConfig) : FileKind → Nat
  | .data => config.layout.chunkTokens
  | .state => 0

section

variable (config : StoreConfig) (keys : Set Digest)

/-- The invariant of a cache at a time of the clock; `keys` are the keys that it may ever hold. -/
structure CacheInv (s : RankState) (clock : Nat) : Prop where
  recent : (forest s).Recent
  before : (forest s).Before clock
  known : ∀ key file, s.files.get? key = some file → key ∈ keys ∧ ∃ header segments,
    file.header = some header ∧ headerPayload config key header = .ok segments
  linked : ∀ key file header parent parentFile, s.files.get? key = some file →
    file.header = some header → header.parent = some parent →
    s.files.get? parent = some parentFile → ∃ parentHeader,
      parentFile.header = some parentHeader ∧ parentHeader.kind = .data ∧
      parentHeader.spanTokens + spanStep config header.kind = header.spanTokens
  pinned : ∀ pins ∈ s.pins, (∀ key ∈ pins, key ∈ s.files.keys) ∧
    (forest s).ParentsLast pins.reverse

/-! ### Runs -/

/-- Nothing was quarantined: every file is still there, with its header. -/
def Kept (s s' : RankState) : Prop :=
  ∀ key file, s.files.get? key = some file →
    ∃ file', s'.files.get? key = some file' ∧ file'.header = file.header

/-- Readings of a clock that only goes forward, the first `count` of them up to a later time. -/
structure Ticks (clock later : Nat) (times : Nat → Nat) (count : Nat) : Prop where
  increasing : StrictMono times
  after : clock < times 0
  until_ : ∀ i < count, times i ≤ later
  le : clock ≤ later

/-- Successful commits, restore views that overlap and end normally, and capacity batches, from an
empty store. Each touched file takes two readings of the clock. -/
inductive CacheRun : RankState → Nat → Prop where
  | start (reporter : InventoryReporter) (clock : Nat) :
      CacheRun ⟨.empty, .empty, [], reporter⟩ clock
  | commit {s s' : RankState} {clock later : Nat} (h : CacheRun s clock) (hooked : Bool)
      (oracle : CommitOracle) (prefixes : List PrefixDigest) (blockTables : List (List Nat))
      (snapshot : TokenSnapshot)
      (hcommit : commitKeys config hooked oracle s prefixes blockTables = (s', .ok snapshot))
      (hkeys : ∀ job ∈ commitJobs config prefixes, job.key ∈ keys)
      (hoffsets : ((commitJobs config prefixes).map fun job ↦ pinOffset job.key).Nodup)
      (hkept : Kept s s')
      (hticks : Ticks clock later oracle.times (2 * snapshot.objects.length)) :
      CacheRun s' later
  | enter {s s' : RankState} {clock : Nat} (h : CacheRun s clock) (hooked : Bool)
      (entryId : Digest) (result : Option TokenSnapshot)
      (henter : restoreView config hooked s entryId = (s', .ok result)) (hkept : Kept s s') :
      CacheRun s' clock
  | exit {s : RankState} {clock later : Nat} (h : CacheRun s clock) (view : Nat)
      (times : Nat → Nat) (hticks : Ticks clock later times (2 * (s.pins.getD view []).length)) :
      CacheRun (exitRestore times s view true) later
  | capacity {s : RankState} {clock : Nat} (h : CacheRun s clock) (hooked : Bool)
      (triggerBytes remaining : Nat) :
      CacheRun (maintainCapacityBatch hooked s triggerBytes remaining).1 clock

end

section

variable {config : StoreConfig} {keys : Set Digest}

/-! ### Views -/

private theorem loses_quarantineBad (hooked : Bool) (s : RankState) (key a : Digest) :
    (quarantineBad hooked s key).files.get? a = s.files.get? a ∨
      (quarantineBad hooked s key).files.get? a = none := by
  by_cases ha : a = key
  · subst ha
    have hw : (recordWithdrawal hooked (markWithdrawn s a) a).files = s.files :=
      files_recordWithdrawal hooked _ a
    have he : ((recordWithdrawal hooked (markWithdrawn s a) a).files.erase a).get? a = none := by
      rw [OrderedDict.get?_erase, if_pos rfl]
    unfold quarantineBad
    split
    · rw [hw]
      exact .inl rfl
    · unfold quarantineManifest
      dsimp only
      split
      · rw [hw]
        exact .inl rfl
      · split <;> exact .inr he
  · exact .inl (files_quarantineBad ha)

/-- Quarantines lose files, and nothing else. -/
theorem Quarantines.loses {hooked : Bool} {s s' : RankState}
    (h : Quarantines hooked s s') :
    s'.pins = s.pins ∧ ∀ a, s'.files.get? a = s.files.get? a ∨ s'.files.get? a = none := by
  induction h with
  | refl => exact ⟨rfl, fun _ ↦ .inl rfl⟩
  | @tail b c _ hlast ih =>
    obtain ⟨key, rfl⟩ := hlast
    refine ⟨(framed_quarantineBad hooked b key).pins.trans ih.1, fun a ↦ ?_⟩
    rcases loses_quarantineBad hooked b key a with he | he
    · rw [he]
      exact ih.2 a
    · exact .inr he

private theorem Quarantines.files_of_kept {hooked : Bool} {s s' : RankState}
    (h : Quarantines hooked s s') (hkept : Kept s s') (a : Digest) :
    s'.files.get? a = s.files.get? a := by
  rcases h.loses.2 a with he | he
  · exact he
  · cases hf : s.files.get? a with
    | none => exact he
    | some file =>
      obtain ⟨file', hf', -⟩ := hkept a file hf
      rw [he] at hf'
      cases hf'

private theorem parent_of_open {s : RankState} {key : Digest} {desc : TokenFileDescriptor}
    (h : openChunk config s key false = .ok desc) :
    desc.key ∈ s.files.keys ∧ (forest s).parent desc.key = desc.parent := by
  obtain ⟨-, file, header, _, hf, hh, -, rfl⟩ := openChunk_ok h
  exact ⟨(OrderedDict.mem_keys_iff _ _).mpr ⟨file, hf⟩, parent_forest hf hh⟩

private theorem Descends.parentsLast {s : RankState} {n : Nat} {key : Digest}
    {l : List TokenFileDescriptor} (h : Descends config s n key l) :
    (forest s).ParentsLast (l.map TokenFileDescriptor.key) := by
  induction h with
  | first hopen _ hnone _ =>
    refine ⟨fun p hp ↦ ?_, trivial⟩
    rw [(parent_of_open hopen).2, hnone] at hp
    cases hp
  | next hopen _ hsome _ hrest ih =>
    refine ⟨fun p hp ↦ ?_, ih⟩
    rw [(parent_of_open hopen).2, hsome] at hp
    cases hp
    obtain ⟨desc, rest, rfl, hkey, -⟩ := hrest.head
    rw [List.map_cons, hkey]
    exact List.mem_cons_self

/-- The files of a hit are there, and parents come before their children. -/
theorem ChainOf.pinned {s : RankState} {entryId : Digest} {n : Nat}
    {objects : List TokenFileDescriptor} (h : ChainOf config s entryId n objects) :
    (∀ key ∈ objects.map TokenFileDescriptor.key, key ∈ s.files.keys) ∧
      (forest s).ParentsLast (objects.map TokenFileDescriptor.key).reverse := by
  refine ⟨fun key hk ↦ ?_, ?_⟩
  · obtain ⟨desc, hd, rfl⟩ := List.mem_map.mp hk
    exact (parent_of_open (h.open_of_mem hd)).1
  · cases h with
    | data hdata _ =>
      rw [List.map_reverse, List.reverse_reverse]
      exact hdata.parentsLast
    | state hdata _ hopen _ hparent _ =>
      rw [List.map_append, List.reverse_append, List.map_reverse, List.reverse_reverse]
      refine ⟨fun p hp ↦ ?_, hdata.parentsLast⟩
      rw [(parent_of_open hopen).2, hparent] at hp
      cases hp
      obtain ⟨desc, rest, rfl, hkey, -⟩ := hdata.head
      rw [List.map_cons, hkey]
      exact List.mem_cons_self

/-- The files of two roots have the same keys and headers. -/
def SameHeaders (s s' : RankState) : Prop :=
  ∀ a, (s'.files.get? a).map TokenFile.header = (s.files.get? a).map TokenFile.header

private theorem SameHeaders.file {s s' : RankState} (h : SameHeaders s s') {a : Digest}
    {file' : TokenFile} (hf : s'.files.get? a = some file') :
    ∃ file, s.files.get? a = some file ∧ file'.header = file.header := by
  have ha := h a
  rw [hf, Option.map_some] at ha
  obtain ⟨file, hold, he⟩ := Option.map_eq_some_iff.mp ha.symm
  exact ⟨file, hold, he.symm⟩

private theorem SameHeaders.mem_keys {s s' : RankState} (h : SameHeaders s s') {a : Digest}
    (ha : a ∈ s.files.keys) : a ∈ s'.files.keys := by
  obtain ⟨file, hf⟩ := (OrderedDict.mem_keys_iff _ _).mp ha
  have he := h a
  rw [hf, Option.map_some] at he
  obtain ⟨file', hf', -⟩ := Option.map_eq_some_iff.mp he
  exact (OrderedDict.mem_keys_iff _ _).mpr ⟨file', hf'⟩

private theorem SameHeaders.parent {s s' : RankState} (h : SameHeaders s s') (a : Digest) :
    (forest s').parent a = (forest s).parent a := by
  have hbind : ∀ o : Option TokenFile, (o.bind fun file ↦ file.header.bind TokenHeader.parent) =
      (o.map TokenFile.header).bind fun header ↦ header.bind TokenHeader.parent := fun o ↦ by
    cases o <;> rfl
  unfold forest
  dsimp only
  rw [hbind, hbind, h a]

/-- Apart from the times, the invariant is about the headers of the files and the pins. -/
theorem CacheInv.of_sameHeaders {s s' : RankState} {clock later : Nat}
    (h : CacheInv config keys s clock) (hs : SameHeaders s s') (hr : (forest s').Recent)
    (hb : (forest s').Before later)
    (hpins : ∀ pins ∈ s'.pins, pins ∈ s.pins ∨ (∀ key ∈ pins, key ∈ s.files.keys) ∧
      (forest s).ParentsLast pins.reverse) : CacheInv config keys s' later := by
  constructor
  case recent => exact hr
  case before => exact hb
  case known =>
    intro key file' hf
    obtain ⟨file, hold, he⟩ := hs.file hf
    rw [he]
    exact h.known key file hold
  case linked =>
    intro key file' header parent parentFile' hf hh hp hpf
    obtain ⟨file, hold, he⟩ := hs.file hf
    obtain ⟨parentFile, hpold, hpe⟩ := hs.file hpf
    rw [hpe]
    exact h.linked key file header parent parentFile hold (he ▸ hh) hp hpold
  case pinned =>
    intro pins hm
    obtain ⟨hthere, hlast⟩ := (hpins pins hm).elim (h.pinned pins) id
    exact ⟨fun key hk ↦ hs.mem_keys (hthere key hk), hlast.congr fun k _ ↦ hs.parent k⟩

private theorem CacheInv.congr {s s' : RankState} {clock : Nat} (h : CacheInv config keys s clock)
    (hfiles : ∀ a, s'.files.get? a = s.files.get? a)
    (hpins : ∀ pins ∈ s'.pins, pins ∈ s.pins ∨ (∀ key ∈ pins, key ∈ s.files.keys) ∧
      (forest s).ParentsLast pins.reverse) : CacheInv config keys s' clock := by
  have hforest : forest s' = forest s := by
    unfold forest
    simp only [hfiles]
  have hs : SameHeaders s s' := fun a ↦ by rw [hfiles a]
  refine h.of_sameHeaders hs ?_ ?_ hpins
  · rw [hforest]
    exact h.recent
  · rw [hforest]
    exact h.before

private theorem CacheInv.enter {s s' : RankState} {clock : Nat} (h : CacheInv config keys s clock)
    {hooked : Bool} {entryId : Digest} {result : Option TokenSnapshot}
    (henter : restoreView config hooked s entryId = (s', .ok result)) (hkept : Kept s s') :
    CacheInv config keys s' clock := by
  cases result with
  | some snapshot =>
    obtain ⟨rfl, -, n, hchain, -⟩ := restoreView_hit henter
    refine h.congr (fun _ ↦ rfl) fun pins hm ↦ ?_
    rcases List.mem_append.mp hm with hm | hm
    · exact .inl hm
    · rw [List.mem_singleton.mp hm]
      exact .inr hchain.pinned
  | none =>
    unfold restoreView at henter
    split at henter
    · cases henter
    · next s1 hl =>
      cases henter
      have hq : Quarantines hooked s (lookup config hooked s entryId).1 :=
        quarantines_lookup hooked s entryId
      rw [hl] at hq
      refine h.congr (hq.files_of_kept hkept) fun pins hm ↦ ?_
      rcases List.mem_append.mp hm with hm | hm
      · exact .inl (hq.loses.1 ▸ hm)
      · rw [List.mem_singleton.mp hm]
        exact .inr ⟨fun _ hk ↦ (by cases hk), trivial⟩
    · cases henter

/-! ### Touches -/

/-- Touched with readings of the clock in the order of the list, parents last, every file has a
new time, up to the later time, and an earlier one than its parent. -/
theorem Ticks.modifiedTime {clock later : Nat} {times : Nat → Nat} {touched : List Digest}
    {f : Forest Digest} (h : Ticks clock later times (2 * touched.length))
    (hlast : f.ParentsLast touched) :
    (∀ key ∈ touched, ∀ parent, f.parent key = some parent → parent ∈ touched ∧
      modifiedTime times touched key < modifiedTime times touched parent) ∧
    (∀ key ∈ touched, clock < modifiedTime times touched key) ∧
    ∀ key ∈ touched, modifiedTime times touched key ≤ later := by
  have hsecond : StrictMono fun i ↦ times (2 * i + 1) := fun i j hij ↦ h.increasing (by omega)
  refine ⟨fun key hk parent hp ↦ ⟨hlast.mem hk hp, hlast.lastReading_lt hsecond hk hp⟩,
    fun key hk ↦ ?_, fun key hk ↦ ?_⟩
  · obtain ⟨i, -, he⟩ := Forest.exists_lastReading hk fun i ↦ times (2 * i + 1)
    have hlt : times 0 < times (2 * i + 1) := h.increasing (Nat.succ_pos _)
    exact (h.after.trans hlt).trans_eq he.symm
  · obtain ⟨i, hi, he⟩ := Forest.exists_lastReading hk fun i ↦ times (2 * i + 1)
    exact he.trans_le (h.until_ _ (by omega))

private theorem CacheInv.exit {s : RankState} {clock later : Nat} (h : CacheInv config keys s clock)
    {view : Nat} {times : Nat → Nat}
    (hticks : Ticks clock later times (2 * (s.pins.getD view []).length)) :
    CacheInv config keys (exitRestore times s view true) later := by
  have hpinned : (∀ key ∈ s.pins.getD view [], key ∈ s.files.keys) ∧
      (forest s).ParentsLast (s.pins.getD view []).reverse := by
    rw [List.getD_eq_getElem?_getD]
    cases hv : s.pins[view]? with
    | none => exact ⟨fun _ hk ↦ (by cases hk), trivial⟩
    | some pins => exact h.pinned pins (List.mem_of_getElem? hv)
  have hthere : ∀ key ∈ (s.pins.getD view []).reverse, key ∈ s.files.keys := fun key hk ↦
    hpinned.1 key (List.mem_reverse.mp hk)
  have hok := touchAll_eq_ok times hthere
  change CacheInv config keys
    { (touchAll times s (s.pins.getD view []).reverse).1 with
      pins := (touchAll times s (s.pins.getD view []).reverse).1.pins.eraseIdx view } later
  generalize s.pins.getD view [] = pinned at hpinned hthere hticks hok ⊢
  generalize hs' : touchAll times s pinned.reverse = out at hok ⊢
  obtain ⟨s', result⟩ := out
  dsimp only at hok ⊢
  subst hok
  obtain ⟨hpins, hfiles⟩ := touchAll_ok hs'
  have hs : SameHeaders s s' := by
    intro a
    rw [hfiles a]
    split
    · rw [Option.map_map]
      rfl
    · rfl
  have hrefreshed : (forest s).Refreshed (forest s') pinned.reverse
      (modifiedTime times pinned.reverse) := by
    refine ⟨fun k hk ↦ ?_, fun k hk ↦ ?_, fun k _ ↦ hs.parent k⟩
    · obtain ⟨file, hf⟩ := (OrderedDict.mem_keys_iff _ _).mp (hthere k hk)
      simp only [forest, hfiles, if_pos hk, hf, Option.map_some]
    · simp only [forest, hfiles, if_neg hk]
  rw [← List.length_reverse] at hticks
  obtain ⟨hinc, hnew, hlater⟩ := hticks.modifiedTime (hpinned.2.congr fun k _ ↦ hs.parent k)
  refine h.of_sameHeaders hs ?_ ?_ fun pins hm ↦ .inl (hpins ▸ List.mem_of_mem_eraseIdx hm)
  · exact hrefreshed.recent h.recent h.before hinc hnew
  · exact hrefreshed.before h.before hticks.le hlater

/-! ### Commits -/

/-- The job of a prefix has the prefix before it as its parent. -/
theorem getElem?_dataJobs (prefixes : List PrefixDigest) (i : Nat) :
    (dataJobs prefixes)[i]? = prefixes[i]?.map fun p ↦
      ⟨p.digest, .data, if i = 0 then none else prefixes[i - 1]?.map PrefixDigest.digest,
        p.spanTokens⟩ := by
  unfold dataJobs
  rw [List.getElem?_zipWith]
  cases i with
  | zero => cases prefixes[0]? <;> rfl
  | succ i =>
    rw [List.getElem?_cons_succ, List.getElem?_map]
    cases hp : prefixes[i + 1]? with
    | none => cases prefixes[i]? <;> rfl
    | some p =>
      have hlt : i < prefixes.length := by
        have := (List.getElem?_eq_some_iff.mp hp).1
        omega
      rw [List.getElem?_eq_getElem hlt]
      simp [List.getElem?_eq_getElem hlt]

/-- The parent of a file of a commit is an earlier data file of the commit. -/
theorem parent_of_split {prefixes : List PrefixDigest}
    (hspans : prefixes.map PrefixDigest.spanTokens =
      (List.range prefixes.length).map fun i ↦ (i + 1) * config.layout.chunkTokens)
    {before after : List CommitJob} {job : CommitJob}
    (h : commitJobs config prefixes = before ++ job :: after) {parent : Digest}
    (hp : job.header.parent = some parent) :
    ∃ other ∈ before, other.key = parent ∧ other.header.kind = .data ∧
      other.header.spanTokens + spanStep config job.header.kind = job.header.spanTokens := by
  have hspan : ∀ i p, prefixes[i]? = some p →
      p.spanTokens = (i + 1) * config.layout.chunkTokens := by
    intro i p hi
    have hlt := (List.getElem?_eq_some_iff.mp hi).1
    have he := congrArg (fun l ↦ l[i]?) hspans
    simp only [List.getElem?_map, hi, List.getElem?_range hlt, Option.map_some,
      Option.some.injEq] at he
    exact he
  have hlen : (dataJobs prefixes).length = prefixes.length := by
    simp [dataJobs]
  have hjob : (commitJobs config prefixes)[before.length]? = some job := by
    rw [h, List.getElem?_append_right le_rfl, Nat.sub_self]
    rfl
  -- an earlier data file of the commit
  have hother : ∀ i p, prefixes[i]? = some p → i < before.length →
      ∃ other ∈ before, other.key = p.digest ∧ other.header.kind = .data ∧
        other.header.spanTokens = (i + 1) * config.layout.chunkTokens := by
    intro i p hi hlt
    have hdata := getElem?_dataJobs prefixes i
    rw [hi, Option.map_some] at hdata
    have hpos : i < (dataJobs prefixes).length := (List.getElem?_eq_some_iff.mp hdata).1
    have hall : (commitJobs config prefixes)[i]? = (dataJobs prefixes)[i]? := by
      unfold commitJobs
      rw [List.getElem?_append_left hpos]
    rw [hdata, h, List.getElem?_append_left hlt] at hall
    exact ⟨_, List.mem_of_getElem? hall, rfl, rfl, hspan i p hi⟩
  unfold commitJobs at hjob
  by_cases hd : before.length < prefixes.length
  · rw [List.getElem?_append_left (hlen ▸ hd), getElem?_dataJobs] at hjob
    obtain ⟨p, hi, rfl⟩ := Option.map_eq_some_iff.mp hjob
    dsimp only at hp ⊢
    split at hp
    · cases hp
    · next hne =>
      obtain ⟨q, hq, rfl⟩ := Option.map_eq_some_iff.mp hp
      obtain ⟨other, hmem, hkey, hkind, hs⟩ := hother _ q hq (by omega)
      refine ⟨other, hmem, hkey, hkind, ?_⟩
      rw [hs, hspan _ p hi, Nat.sub_add_cancel (by omega), Nat.succ_mul]
      rfl
  · rw [List.getElem?_append_right (by omega)] at hjob
    have hmem := List.mem_of_getElem? hjob
    split at hmem
    · obtain ⟨tail, htail, rfl⟩ := Option.map_eq_some_iff.mp (Option.mem_toList.mp hmem)
      cases hp
      rw [List.getLast?_eq_getElem?] at htail
      have hlt := (List.getElem?_eq_some_iff.mp htail).1
      obtain ⟨other, hmem, hkey, hkind, hs⟩ := hother _ tail htail (by omega)
      refine ⟨other, hmem, hkey, hkind, ?_⟩
      rw [hs]
      exact (hspan _ tail htail).symm
    · cases hmem

private theorem Kept.parent {s s' : RankState} (h : Kept s s') {a : Digest}
    (ha : a ∈ s.files.keys) :
    (forest s').parent a = (forest s).parent a := by
  obtain ⟨file, hf⟩ := (OrderedDict.mem_keys_iff _ _).mp ha
  obtain ⟨file', hf', he⟩ := h a file hf
  unfold forest
  dsimp only
  rw [hf, hf', Option.bind_some, Option.bind_some, he]

private theorem Kept.mem_keys {s s' : RankState} (h : Kept s s') {a : Digest}
    (ha : a ∈ s.files.keys) :
    a ∈ s'.files.keys := by
  obtain ⟨file, hf⟩ := (OrderedDict.mem_keys_iff _ _).mp ha
  obtain ⟨file', hf', -⟩ := h a file hf
  exact (OrderedDict.mem_keys_iff _ _).mpr ⟨file', hf'⟩

private theorem Committed.jobFiles {s s' : RankState} {times : Nat → Nat}
    {prefixes : List PrefixDigest} {snapshot : TokenSnapshot}
    (hc : Committed config times prefixes s s' snapshot)
    (hoffsets : ((commitJobs config prefixes).map fun job ↦ pinOffset job.key).Nodup) :
    ∀ job ∈ commitJobs config prefixes, ∃ file segments, s'.files.get? job.key = some file ∧
      file.header = some job.header ∧ headerPayload config job.key job.header = .ok segments ∧
      file.modified =
        modifiedTime times ((commitJobs config prefixes).map CommitJob.key).reverse job.key := by
  have hnodup : (snapshot.objects.map TokenFileDescriptor.key).Nodup := by
    rw [hc.keys]
    refine List.Nodup.of_map pinOffset ?_
    rw [List.map_map]
    exact hoffsets
  have hfile := hc.files hnodup
  rw [hc.keys] at hfile
  exact hfile

private theorem Committed.refreshed {s s' : RankState} {times : Nat → Nat}
    {prefixes : List PrefixDigest} {snapshot : TokenSnapshot}
    (hc : Committed config times prefixes s s' snapshot)
    (hoffsets : ((commitJobs config prefixes).map fun job ↦ pinOffset job.key).Nodup) :
    (forest s).Refreshed (forest s') ((commitJobs config prefixes).map CommitJob.key).reverse
      (modifiedTime times ((commitJobs config prefixes).map CommitJob.key).reverse) := by
  have hmem : ∀ a, a ∈ ((commitJobs config prefixes).map CommitJob.key).reverse ↔
      a ∈ (commitJobs config prefixes).map CommitJob.key := fun a ↦ List.mem_reverse
  refine ⟨fun k hk ↦ ?_, fun k hk ↦ ?_, fun k hk ↦ ?_⟩
  · obtain ⟨job, hj, rfl⟩ := List.mem_map.mp ((hmem k).mp hk)
    obtain ⟨file, _, hf, -, -, ht⟩ := hc.jobFiles hoffsets job hj
    unfold forest
    dsimp only
    rw [hf, Option.map_some, ht]
  · unfold forest
    dsimp only
    rw [hc.framed.files k (mt (hmem k).mpr hk)]
  · unfold forest
    dsimp only
    rw [hc.framed.files k (mt (hmem k).mpr hk)]

private theorem Committed.parentsLast {s s' : RankState} {times : Nat → Nat}
    {prefixes : List PrefixDigest} {snapshot : TokenSnapshot}
    (hc : Committed config times prefixes s s' snapshot)
    (hoffsets : ((commitJobs config prefixes).map fun job ↦ pinOffset job.key).Nodup) :
    (forest s').ParentsLast ((commitJobs config prefixes).map CommitJob.key).reverse := by
  refine Forest.parentsLast_reverse fun before k after he p hp ↦ ?_
  obtain ⟨jobs, rest, hjobs, rfl, hrest⟩ := List.map_eq_append_iff.mp he
  obtain ⟨job, more, rfl, rfl, -⟩ := List.map_eq_cons_iff.mp hrest
  obtain ⟨file, _, hf, hh, -, -⟩ := hc.jobFiles hoffsets job (by rw [hjobs]; simp)
  rw [parent_forest hf hh] at hp
  obtain ⟨other, ho, rfl, -⟩ := parent_of_split hc.spans hjobs hp
  exact List.mem_map_of_mem ho

private theorem Committed.linked {s s' : RankState} {times : Nat → Nat}
    {prefixes : List PrefixDigest} {snapshot : TokenSnapshot}
    (hc : Committed config times prefixes s s' snapshot)
    (hoffsets : ((commitJobs config prefixes).map fun job ↦ pinOffset job.key).Nodup)
    {job : CommitJob} (hj : job ∈ commitJobs config prefixes) {parent : Digest}
    (hp : job.header.parent = some parent) {parentFile : TokenFile}
    (hpf : s'.files.get? parent = some parentFile) :
    ∃ parentHeader, parentFile.header = some parentHeader ∧ parentHeader.kind = .data ∧
      parentHeader.spanTokens + spanStep config job.header.kind = job.header.spanTokens := by
  obtain ⟨before, after, hsplit⟩ := List.append_of_mem hj
  obtain ⟨other, ho, rfl, hkind, hspan⟩ := parent_of_split hc.spans hsplit hp
  obtain ⟨otherFile, _, hof, hoh, -, -⟩ := hc.jobFiles hoffsets other (by rw [hsplit]; simp [ho])
  rw [hpf] at hof
  cases hof
  exact ⟨other.header, hoh, hkind, hspan⟩

private theorem CacheInv.commit {s s' : RankState} {clock later : Nat} {times : Nat → Nat}
    {prefixes : List PrefixDigest} {snapshot : TokenSnapshot} (h : CacheInv config keys s clock)
    (hc : Committed config times prefixes s s' snapshot)
    (hkeys : ∀ job ∈ commitJobs config prefixes, job.key ∈ keys)
    (hoffsets : ((commitJobs config prefixes).map fun job ↦ pinOffset job.key).Nodup)
    (hkept : Kept s s') (hticks : Ticks clock later times (2 * snapshot.objects.length)) :
    CacheInv config keys s' later := by
  have hfile := hc.jobFiles hoffsets
  have hlength : ((commitJobs config prefixes).map CommitJob.key).reverse.length =
      snapshot.objects.length := by
    rw [List.length_reverse, ← hc.keys, List.length_map]
  rw [← hlength] at hticks
  have hrefreshed := hc.refreshed hoffsets
  obtain ⟨hinc, hnew, hlater⟩ := hticks.modifiedTime (hc.parentsLast hoffsets)
  constructor
  case recent => exact hrefreshed.recent h.recent h.before hinc hnew
  case before => exact hrefreshed.before h.before hticks.le hlater
  case known =>
    intro key file hf
    by_cases hk : key ∈ (commitJobs config prefixes).map CommitJob.key
    · obtain ⟨job, hj, rfl⟩ := List.mem_map.mp hk
      obtain ⟨file', segments, hf', hh, hp, -⟩ := hfile job hj
      rw [hf] at hf'
      cases hf'
      exact ⟨hkeys job hj, job.header, segments, hh, hp⟩
    · rw [hc.framed.files key hk] at hf
      exact h.known key file hf
  case linked =>
    intro key file header parent parentFile hf hh hp hpf
    by_cases hk : key ∈ (commitJobs config prefixes).map CommitJob.key
    · obtain ⟨job, hj, rfl⟩ := List.mem_map.mp hk
      obtain ⟨file', _, hf', hh', -, -⟩ := hfile job hj
      rw [hf] at hf'
      cases hf'
      rw [hh'] at hh
      cases hh
      exact hc.linked hoffsets hj hp hpf
    · rw [hc.framed.files key hk] at hf
      have hparent : (forest s).parent key = some parent := (parent_forest hf hh).trans hp
      obtain ⟨_, htime, -⟩ := h.recent key file.modified parent
        (by unfold forest; dsimp only; rw [hf, Option.map_some]) hparent
      obtain ⟨old, hold, -⟩ := time_forest htime
      obtain ⟨parentFile', hpf', he⟩ := hkept parent old hold
      rw [hpf] at hpf'
      cases hpf'
      rw [he]
      exact h.linked key file header parent old hf hh hp hold
  case pinned =>
    intro pins hm
    rw [hc.framed.pins] at hm
    obtain ⟨hthere, hl⟩ := h.pinned pins hm
    exact ⟨fun key hk ↦ hkept.mem_keys (hthere key hk),
      hl.congr fun k hk ↦ hkept.parent (hthere k (List.mem_reverse.mp hk))⟩

/-! ### Capacity -/

/-- An eviction removes the file of its key unless that is pinned. -/
theorem busy_evict (hooked : Bool) (s : RankState) (key a : Digest) :
    (evict hooked s key).1.pins = s.pins ∧ ((evict hooked s key).1.files.get? a =
      if a = key ∧ busy s key = false then none else s.files.get? a) := by
  have hw : (recordWithdrawal hooked (markWithdrawn s key) key).files = s.files :=
    files_recordWithdrawal hooked _ key
  have hp : (recordWithdrawal hooked (markWithdrawn s key) key).pins = s.pins :=
    pins_recordWithdrawal hooked _ key
  unfold evict
  split
  · next hb => simp [hb]
  · next hb =>
    have hb : busy s key = false := by simpa using hb
    split
    · next hn =>
      refine ⟨rfl, ?_⟩
      split
      · next he =>
        rw [he.1]
        exact (OrderedDict.get?_eq_none_iff _ _).mpr hn
      · rfl
    · refine ⟨hp, ?_⟩
      dsimp only
      rw [OrderedDict.get?_erase, hw]
      by_cases he : a = key <;> simp [he, hb]

/-- Evicting keys that are not busy removes their files and no others. -/
theorem files_evictAll (hooked : Bool) {chosen : List Digest} {s : RankState}
    (h : ∀ key ∈ chosen, busy s key = false) (a : Digest) :
    (evictAll hooked s chosen).1.pins = s.pins ∧ (evictAll hooked s chosen).1.files.get? a =
      if a ∈ chosen then none else s.files.get? a := by
  induction chosen generalizing s with
  | nil => exact ⟨rfl, by simp [evictAll]⟩
  | cons key chosen ih =>
    have hone := fun x ↦ busy_evict hooked s key x
    have hbusy : ∀ x ∈ chosen, busy (evict hooked s key).1 x = false := by
      intro x hx
      unfold busy
      rw [(hone x).1]
      exact h x (List.mem_cons_of_mem _ hx)
    obtain ⟨hp, hf⟩ := ih hbusy
    refine ⟨hp.trans (hone a).1, hf.trans ?_⟩
    rw [(hone a).2, h key List.mem_cons_self]
    by_cases ha : a ∈ chosen
    · simp [ha]
    · by_cases he : a = key <;> simp [ha, he]

/-- The order in which files are evicted. -/
def OlderFile (a b : Digest × TokenFile) : Prop :=
  a.2.modified < b.2.modified ∨ a.2.modified = b.2.modified ∧ a.1 ≤ b.1

instance : DecidableRel OlderFile := fun a b ↦
  inferInstanceAs (Decidable (a.2.modified < b.2.modified ∨
    a.2.modified = b.2.modified ∧ a.1 ≤ b.1))

instance : Std.Total OlderFile := by
  refine ⟨fun a b ↦ ?_⟩
  unfold OlderFile
  rcases lt_trichotomy a.2.modified b.2.modified with h | h | h
  · exact .inl (.inl h)
  · rcases le_total a.1 b.1 with hk | hk
    · exact .inl (.inr ⟨h, hk⟩)
    · exact .inr (.inr ⟨h.symm, hk⟩)
  · exact .inr (.inl h)

instance : IsTrans (Digest × TokenFile) OlderFile := by
  refine ⟨fun a b c hab hbc ↦ ?_⟩
  unfold OlderFile at *
  rcases hab with hab | ⟨hab, hk⟩ <;> rcases hbc with hbc | ⟨hbc, hk'⟩
  · exact .inl (hab.trans hbc)
  · exact .inl (by omega)
  · exact .inl (by omega)
  · exact .inr ⟨hab.trans hbc, hk.trans hk'⟩

/-- The files that a batch may evict, oldest first. -/
def freeFiles (s : RankState) : List (Digest × TokenFile) :=
  (s.files.items.filter fun p ↦ !busy s p.1).insertionSort OlderFile

/-- The candidates are the four oldest files that are not pinned. -/
theorem evictionCandidates_eq (s : RankState) :
    evictionCandidates s = ((freeFiles s).take 4).map Prod.fst := rfl

/-- The free files are those that are not pinned. -/
theorem mem_freeFiles {s : RankState} {key : Digest} {file : TokenFile} :
    (key, file) ∈ freeFiles s ↔ s.files.get? key = some file ∧ busy s key = false := by
  unfold freeFiles
  rw [(List.perm_insertionSort _ _).mem_iff, List.mem_filter, OrderedDict.get?_eq_some_iff]
  simp

/-- The first files of the list are the oldest ones that are not busy. -/
theorem oldest_take (s : RankState) (m : Nat) :
    (forest s).Oldest {key | busy s key = false}
      {key | key ∈ ((freeFiles s).take m).map Prod.fst} := by
  have hsorted : (freeFiles s).Pairwise OlderFile := List.pairwise_insertionSort OlderFile _
  rw [← List.take_append_drop m (freeFiles s)] at hsorted
  refine ⟨fun key hk ↦ ?_, fun a ha b hb ta tb hta htb hlt ↦ ?_⟩
  · obtain ⟨⟨k, file⟩, hmem, rfl⟩ := List.mem_map.mp hk
    exact (mem_freeFiles.mp (List.mem_of_mem_take hmem)).2
  · obtain ⟨⟨k, file⟩, hmem, rfl⟩ := List.mem_map.mp ha
    obtain ⟨fileA, hfa, rfl⟩ := time_forest hta
    obtain ⟨fileB, hfb, rfl⟩ := time_forest htb
    have hsame : file = fileA := by
      have hk := (mem_freeFiles.mp (List.mem_of_mem_take hmem)).1
      dsimp only at hfa
      rw [hk] at hfa
      exact Option.some.inj hfa
    have hmemB : (b, fileB) ∈ freeFiles s := mem_freeFiles.mpr ⟨hfb, hb⟩
    rw [← List.take_append_drop m (freeFiles s)] at hmemB
    rcases List.mem_append.mp hmemB with hmemB | hmemB
    · exact List.mem_map.mpr ⟨_, hmemB, rfl⟩
    · -- a file behind the cut is not older than one before it
      rcases (List.pairwise_append.mp hsorted).2.2 _ hmem _ hmemB with hle | ⟨hle, -⟩
      · rw [hsame] at hle
        exact absurd hlt (Nat.lt_asymm hle)
      · rw [hsame] at hle
        exact absurd hlt (hle ▸ lt_irrefl _)

/-- A pinned file has its parent pinned, when no two keys share an offset. -/
theorem CacheInv.free {s : RankState} {clock : Nat} (h : CacheInv config keys s clock)
    (hinj : keys.InjOn pinOffset) {key parent : Digest} {t : Nat}
    (htime : (forest s).time key = some t) (hp : (forest s).parent key = some parent)
    (hfree : busy s parent = false) : busy s key = false := by
  by_contra hbusy
  have hbusy : busy s key = true := by simpa using hbusy
  unfold busy at hbusy
  obtain ⟨pins, hpins, hbusy⟩ := List.any_eq_true.mp hbusy
  obtain ⟨pinned, hmem, hoffset⟩ := List.any_eq_true.mp hbusy
  obtain ⟨hthere, hlast⟩ := h.pinned pins hpins
  obtain ⟨file, hf, -⟩ := time_forest htime
  obtain ⟨pinnedFile, hpf⟩ := (OrderedDict.mem_keys_iff _ _).mp (hthere pinned hmem)
  have he : pinned = key := hinj (h.known pinned pinnedFile hpf).1 (h.known key file hf).1
    (of_decide_eq_true hoffset)
  subst he
  have hparent := List.mem_reverse.mp (hlast.mem (List.mem_reverse.mpr hmem) hp)
  have hbusyParent : busy s parent = true :=
    List.any_eq_true.mpr ⟨pins, hpins, List.any_eq_true.mpr ⟨parent, hparent, by simp⟩⟩
  rw [hfree] at hbusyParent
  cases hbusyParent

private theorem CacheInv.evictAll {s : RankState} {clock : Nat} (h : CacheInv config keys s clock)
    (hinj : keys.InjOn pinOffset) (hooked : Bool) (m : Nat) :
    CacheInv config keys
      (evictAll hooked s (((freeFiles s).take m).map Prod.fst)).1 clock := by
  have hold := oldest_take s m
  have hfiles := fun a ↦ files_evictAll hooked (fun key hk ↦ hold.1 hk) a
  generalize hchosen : ((freeFiles s).take m).map Prod.fst = chosen at hold hfiles ⊢
  generalize Store.evictAll hooked s chosen = out at hfiles ⊢
  obtain ⟨s', count⟩ := out
  dsimp only at hfiles ⊢
  have hsub : ∀ a file, s'.files.get? a = some file → s.files.get? a = some file := by
    intro a file hf
    rw [(hfiles a).2] at hf
    split at hf
    · cases hf
    · exact hf
  have hremoved : (forest s).Removed (forest s') {key | key ∈ chosen} := by
    refine ⟨fun k hk ↦ ?_, fun k hk ↦ ?_, fun k hk ↦ ?_⟩
    · have hnone : s'.files.get? k = none := (hfiles k).2.trans (if_pos hk)
      unfold forest
      dsimp only
      rw [hnone]
      rfl
    · have hsame : s'.files.get? k = s.files.get? k := (hfiles k).2.trans (if_neg hk)
      unfold forest
      dsimp only
      rw [hsame]
    · have hsame : s'.files.get? k = s.files.get? k := (hfiles k).2.trans (if_neg hk)
      unfold forest
      dsimp only
      rw [hsame]
  constructor
  case recent => exact hremoved.recent h.recent hold fun k t p ht hp hfree ↦ h.free hinj ht hp hfree
  case before => exact hremoved.before h.before
  case known => exact fun key file hf ↦ h.known key file (hsub key file hf)
  case linked =>
    exact fun key file header parent parentFile hf hh hp hpf ↦
      h.linked key file header parent parentFile (hsub key file hf) hh hp (hsub _ _ hpf)
  case pinned =>
    intro pins hm
    rw [(hfiles (.ofNat 0)).1] at hm
    obtain ⟨hthere, hlast⟩ := h.pinned pins hm
    -- a pinned key is busy, so it was not chosen
    have hstay : ∀ key ∈ pins, key ∉ chosen := by
      intro key hk hc
      have hbusy : busy s key = true :=
        List.any_eq_true.mpr ⟨pins, hm, List.any_eq_true.mpr ⟨key, hk, by simp⟩⟩
      have hfree : busy s key = false := hold.1 hc
      rw [hfree] at hbusy
      cases hbusy
    refine ⟨fun key hk ↦ ?_, hlast.congr fun k hk ↦ ?_⟩
    · rw [OrderedDict.mem_keys_iff, (hfiles key).2, if_neg (hstay key hk),
        ← OrderedDict.mem_keys_iff]
      exact hthere key hk
    · exact hremoved.parent_of_not_mem k (hstay k (List.mem_reverse.mp hk))

private theorem CacheInv.capacity {s : RankState} {clock : Nat} (h : CacheInv config keys s clock)
    (hinj : keys.InjOn pinOffset) (hooked : Bool) (triggerBytes remaining : Nat) :
    CacheInv config keys (maintainCapacityBatch hooked s triggerBytes remaining).1 clock := by
  unfold maintainCapacityBatch
  split
  · exact h
  · dsimp only
    rw [evictionCandidates_eq, ← List.map_take, List.take_take]
    exact h.evictAll hinj hooked _

/-! ### Every run -/

private theorem CacheRun.inv (hinj : keys.InjOn pinOffset) {s : RankState} {clock : Nat}
    (h : CacheRun config keys s clock) : CacheInv config keys s clock := by
  induction h with
  | start reporter clock =>
    constructor
    case recent => exact fun _ _ _ ht ↦ (by cases ht)
    case before => exact fun _ _ ht ↦ (by cases ht)
    case known => exact fun _ _ hf ↦ (by cases hf)
    case linked => exact fun _ _ _ _ _ hf ↦ (by cases hf)
    case pinned => exact fun _ hm ↦ (by cases hm)
  | commit _ hooked oracle prefixes blockTables snapshot hcommit hkeys hoffsets hkept hticks ih =>
    exact ih.commit (committed_commitKeys hcommit) hkeys hoffsets hkept hticks
  | enter _ hooked entryId result henter hkept ih => exact ih.enter henter hkept
  | exit _ view times hticks ih => exact ih.exit hticks
  | capacity _ hooked triggerBytes remaining ih => exact ih.capacity hinj hooked triggerBytes remaining

/-- The file has its parent on disk: a data file of the chunk before, or of the same boundary for
a state file, with a strictly newer time. -/
def HasParent (config : StoreConfig) (s : RankState) (file : TokenFile) (header : TokenHeader) :
    Prop :=
  ∃ parent parentFile parentHeader, header.parent = some parent ∧
    s.files.get? parent = some parentFile ∧ parentFile.header = some parentHeader ∧
    parentHeader.kind = .data ∧
    parentHeader.spanTokens + spanStep config header.kind = header.spanTokens ∧
    file.modified < parentFile.modified

/-- The file of a key is the last of a chain on disk that begins with a first chunk. -/
inductive Rooted (config : StoreConfig) (s : RankState) : Digest → Prop where
  | first {key : Digest} {file : TokenFile} {header : TokenHeader}
      (hf : s.files.get? key = some file) (hh : file.header = some header)
      (hspan : header.spanTokens = config.layout.chunkTokens) : Rooted config s key
  | next {key parent : Digest} {file : TokenFile} {header : TokenHeader}
      (hf : s.files.get? key = some file) (hh : file.header = some header)
      (hp : header.parent = some parent) (h : Rooted config s parent) : Rooted config s key

private theorem CacheInv.hasParent {s : RankState} {clock : Nat} (h : CacheInv config keys s clock)
    {key parent : Digest} {file : TokenFile} {header : TokenHeader}
    (hf : s.files.get? key = some file) (hh : file.header = some header)
    (hp : header.parent = some parent) : HasParent config s file header := by
  have htime : (forest s).time key = some file.modified := by
    unfold forest
    dsimp only
    rw [hf, Option.map_some]
  obtain ⟨t, ht, hlt⟩ := h.recent key _ parent htime ((parent_forest hf hh).trans hp)
  obtain ⟨parentFile, hpf, rfl⟩ := time_forest ht
  obtain ⟨parentHeader, hph, hkind, hspan⟩ := h.linked key file header parent parentFile hf hh hp hpf
  exact ⟨parent, parentFile, parentHeader, hp, hpf, hph, hkind, hspan, hlt⟩

/-- Data files are rooted: each is one chunk longer than its parent. -/
theorem CacheInv.rooted_data {s : RankState} {clock : Nat} (h : CacheInv config keys s clock)
    (n : Nat) {key : Digest} {file : TokenFile} {header : TokenHeader}
    (hf : s.files.get? key = some file) (hh : file.header = some header)
    (hk : header.kind = .data) (hn : header.spanTokens ≤ n) : Rooted config s key := by
  induction n using Nat.strong_induction_on generalizing key file header with
  | _ n ih =>
    obtain ⟨-, header', segments, hh', hpayload⟩ := h.known key file hf
    rw [hh] at hh'
    cases hh'
    cases hp : header.parent with
    | none => exact .first hf hh (((parent_of_headerPayload hpayload).1 hk).mp hp)
    | some parent =>
      obtain ⟨p, parentFile, parentHeader, hp', hpf, hph, hkind, hspan, -⟩ := h.hasParent hf hh hp
      rw [hp] at hp'
      cases hp'
      rw [hk] at hspan
      have hstep : parentHeader.spanTokens + config.layout.chunkTokens = header.spanTokens := hspan
      have hpos := config.layout.chunkTokens_pos
      exact .next hf hh hp (ih parentHeader.spanTokens (by omega) hpf hph hkind le_rfl)

private theorem CacheInv.rooted {s : RankState} {clock : Nat} (h : CacheInv config keys s clock)
    {key : Digest} {file : TokenFile} {header : TokenHeader}
    (hf : s.files.get? key = some file) (hh : file.header = some header) : Rooted config s key := by
  cases hk : header.kind with
  | data => exact h.rooted_data _ hf hh hk le_rfl
  | state =>
    obtain ⟨-, header', segments, hh', hpayload⟩ := h.known key file hf
    rw [hh] at hh'
    cases hh'
    obtain ⟨parent, hp, -⟩ := Option.map_eq_some_iff.mp ((parent_of_headerPayload hpayload).2.1 hk).2
    obtain ⟨p, parentFile, parentHeader, hp', hpf, hph, hkind, -⟩ := h.hasParent hf hh hp
    rw [hp] at hp'
    cases hp'
    exact .next hf hh hp (h.rooted_data _ hpf hph hkind le_rfl)

/-- Eviction keeps the cache prefix-closed: between the operations of any run, a data file of more
than one chunk has its parent on disk, and a state file its tail, with a strictly newer time; so
every file is the last of a chain that is on disk from its first chunk on. -/
theorem eviction_prefix_closed (hinj : keys.InjOn pinOffset) {s : RankState} {clock : Nat}
    (h : CacheRun config keys s clock) {key : Digest} {file : TokenFile}
    (hf : s.files.get? key = some file) :
    ∃ header, file.header = some header ∧
      (header.kind = .data → config.layout.chunkTokens < header.spanTokens →
        HasParent config s file header) ∧
      (header.kind = .state → HasParent config s file header) ∧ Rooted config s key := by
  have hinv := h.inv hinj
  obtain ⟨-, header, segments, hh, hpayload⟩ := hinv.known key file hf
  obtain ⟨hdata, hstate, -⟩ := parent_of_headerPayload hpayload
  refine ⟨header, hh, fun hk hlt ↦ ?_, fun hk ↦ ?_, hinv.rooted hf hh⟩
  · cases hp : header.parent with
    | none =>
      have hspan := (hdata hk).mp hp
      omega
    | some parent => exact hinv.hasParent hf hh hp
  · obtain ⟨parent, hp, -⟩ := Option.map_eq_some_iff.mp (hstate hk).2
    exact hinv.hasParent hf hh hp

end

/-! ### A sample run -/

/-- A store with one full group. -/
def recencyConfig : StoreConfig :=
  ⟨Layout.fullSampleLayout, 64, fun _ ↦ 1, Layout.sampleLayer.pageSizeBytes_pos⟩

/-- Keys that differ in the part that is pinned. -/
def recencyKey (i : Nat) : Digest := .ofNat (i * 2 ^ 192)

/-- An empty store. -/
def recencyStart : RankState :=
  ⟨.empty, .empty, [], .create Quorum.sampleReporterConfig⟩

/-- Three chunks are committed, and touched from the last to the first. -/
def recencyCommit : RankState × Except PyError TokenSnapshot :=
  commitKeys recencyConfig true
    ⟨⟨fun _ ↦ .published, fun _ ↦ 1, fun _ ↦ 10, fun _ ↦ 0⟩, fun i ↦ i + 1⟩ recencyStart
    [⟨256, recencyKey 1⟩, ⟨512, recencyKey 2⟩, ⟨768, recencyKey 3⟩] [[1, 2, 3]]

/-- A view pins the first two chunks. -/
def recencyView : RankState × Except PyError (Option TokenSnapshot) :=
  restoreView recencyConfig true recencyCommit.1 (recencyKey 2)

/-- A batch evicts the third chunk. -/
def recencyEvicted : RankState := (maintainCapacityBatch true recencyView.1 1 0).1

/-- The third chunk is evicted, and the pinned second one has its parent. -/
theorem eviction_prefix_closed_pinned :
    recencyKey 3 ∉ recencyEvicted.files.keys ∧
    ∃ file, recencyEvicted.files.get? (recencyKey 2) = some file ∧
      ∃ header, file.header = some header ∧
        (header.kind = .data → 256 < header.spanTokens →
          HasParent recencyConfig recencyEvicted file header) ∧
        (header.kind = .state → HasParent recencyConfig recencyEvicted file header) ∧
        Rooted recencyConfig recencyEvicted (recencyKey 2) := by
  have hinj : Set.InjOn pinOffset {key | key ∈ [recencyKey 1, recencyKey 2, recencyKey 3]} := by
    have hlist : ∀ a ∈ [recencyKey 1, recencyKey 2, recencyKey 3],
        ∀ b ∈ [recencyKey 1, recencyKey 2, recencyKey 3], pinOffset a = pinOffset b → a = b := by
      decide +kernel
    exact fun a ha b hb ↦ hlist a ha b hb
  obtain ⟨snapshot, hcommit⟩ : ∃ snapshot, recencyCommit = (recencyCommit.1, .ok snapshot) := by
    have hok : recencyCommit.2.isOk = true := by decide +kernel
    cases hr : recencyCommit.2 with
    | error e =>
      rw [hr] at hok
      cases hok
    | ok snapshot => exact ⟨snapshot, Prod.ext rfl hr⟩
  obtain ⟨result, hview⟩ : ∃ result, recencyView = (recencyView.1, .ok result) := by
    have hok : recencyView.2.isOk = true := by decide +kernel
    cases hr : recencyView.2 with
    | error e =>
      rw [hr] at hok
      cases hok
    | ok result => exact ⟨result, Prod.ext rfl hr⟩
  have hkept : Kept recencyCommit.1 recencyView.1 := by
    have hfiles : recencyView.1.files.items = recencyCommit.1.files.items := by decide +kernel
    intro key file hf
    rw [OrderedDict.ext hfiles]
    exact ⟨file, hf, rfl⟩
  have hlength : snapshot.objects.length = 3 := by
    have hkeys := congrArg List.length (committed_commitKeys hcommit).keys
    rw [List.length_map] at hkeys
    exact hkeys
  have hticks : Ticks 0 9 (fun i ↦ i + 1) (2 * snapshot.objects.length) := by
    rw [hlength]
    exact ⟨fun i j hij ↦ Nat.succ_lt_succ hij, Nat.zero_lt_one, fun i hi ↦ (by omega),
      Nat.zero_le 9⟩
  have hrun : CacheRun recencyConfig {key | key ∈ [recencyKey 1, recencyKey 2, recencyKey 3]}
      recencyEvicted 9 := by
    refine .capacity (.enter (.commit (.start _ 0) _ _ _ _ snapshot hcommit ?_ ?_ ?_ hticks) _ _ result
      hview hkept) true 1 0
    · decide +kernel
    · decide +kernel
    · exact fun _ _ hf ↦ (by cases hf)
  have hthere : ∃ file, recencyEvicted.files.get? (recencyKey 2) = some file := by
    have hmem : recencyKey 2 ∈ recencyEvicted.files.keys := by decide +kernel
    exact (OrderedDict.mem_keys_iff _ _).mp hmem
  obtain ⟨file, hf⟩ := hthere
  exact ⟨by decide +kernel, file, hf, eviction_prefix_closed hinj hrun hf⟩

end SpoolCache.Store
