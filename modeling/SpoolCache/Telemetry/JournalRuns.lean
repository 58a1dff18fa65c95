import SpoolCache.Base.Cleanup
import SpoolCache.Base.Except
import SpoolCache.Telemetry.Journal

/-!
# Accuracy of the event journal

A rename survives a crash for certain only when the directory has been synced, and a failed
increment may leave it either way. So the file may be ahead of the totals in memory by increments
that failed, and a later write may undo that. Through any number of failures and restarts a
counter stays between what succeeded and what was attempted.
-/

namespace SpoolCache.Telemetry

open SpoolCache.Base SpoolCache.Store

/-- Totals that the journal can hold: counters of its vocabulary that were incremented, within the
bound. -/
def Sound (totals : Totals) : Prop :=
  ∀ key value, totals.get? key = some value →
    metricKey (.str key.name) (key.labels.map .str) = .ok key ∧ 0 < value ∧ value ≤ maxMetricValue

private theorem sound_empty : Sound .empty := fun _ _ h ↦ (by cases h)

/-! ### Reading back what was written -/

private theorem loadRecord_recordJson {key : MetricKey} {value : Nat}
    (hkey : metricKey (.str key.name) (key.labels.map .str) = .ok key)
    (hvalue : value ≤ maxMetricValue) : loadRecord (recordJson (key, value)) = .ok (key, value) := by
  have hfields : (recordJson (key, value)).hasFields ["name", "labels", "value"] = true := by
    simp [recordJson, Json.hasFields]
  have hname : (recordJson (key, value)).field? "name" = some (.str key.name) := by
    simp [recordJson, Json.field?]
  have hlabels : (recordJson (key, value)).field? "labels" = some (.arr (key.labels.map .str)) := by
    simp [recordJson, Json.field?]
  have hfield : (recordJson (key, value)).field? "value" = some (.int value) := by
    simp [recordJson, Json.field?]
  unfold loadRecord
  rw [if_neg (by rw [hfields]; decide), hname, hlabels]
  dsimp only
  rw [hkey, ok_bind, hfield]
  dsimp only
  rw [if_neg (by omega)]
  rfl

private theorem loadRecords_recordJson {entries : List (MetricKey × Nat)} {totals : Totals}
    (hentries : ∀ key value, (key, value) ∈ entries →
      metricKey (.str key.name) (key.labels.map .str) = .ok key ∧ value ≤ maxMetricValue)
    (hnodup : (totals.items ++ entries).Pairwise fun a b ↦ a.1 ≠ b.1) :
    ∃ totals', loadRecords (entries.map recordJson) totals = .ok totals' ∧
      totals'.items = totals.items ++ entries := by
  induction entries generalizing totals with
  | nil => exact ⟨totals, rfl, (List.append_nil _).symm⟩
  | cons entry entries ih =>
    obtain ⟨key, value⟩ := entry
    obtain ⟨hkey, hvalue⟩ := hentries key value List.mem_cons_self
    have hfresh : key ∉ totals.keys := by
      intro hk
      obtain ⟨old, hold⟩ := (OrderedDict.mem_keys_iff _ _).mp hk
      rw [OrderedDict.get?_eq_some_iff] at hold
      exact (List.pairwise_append.mp hnodup).2.2 _ hold _ List.mem_cons_self rfl
    have hset := OrderedDict.items_set_of_not_mem totals value hfresh
    obtain ⟨totals', hload, hitems⟩ := ih
      (fun k v h ↦ hentries k v (List.mem_cons_of_mem _ h))
      (by rw [hset, List.append_assoc]; exact hnodup)
    refine ⟨totals', ?_, ?_⟩
    · rw [List.map_cons, loadRecords, loadRecord_recordJson hkey hvalue, ok_bind]
      dsimp only
      rw [if_neg hfresh, hload]
    · rw [hitems, hset, List.append_assoc]
      rfl

private theorem canonical_recordJson (entry : MetricKey × Nat) : (recordJson entry).Canonical := by
  have hnames : (["labels", "name", "value"] : List String).Pairwise (· < ·) := by decide
  have htext : ∀ text : String, (Json.str text).Canonical := fun _ ↦ trivial
  have hlabels : Json.CanonicalItems (entry.1.labels.map .str) := Json.canonicalItems_map htext _
  exact ⟨hnames, hlabels, trivial, trivial, trivial⟩

private theorem loads_journalPayload (totals : Totals) :
    Json.loads (smallJsonLine (journalPayload totals)) = some (journalPayload totals) := by
  have hnames : (["schema", "totals"] : List String).Pairwise (· < ·) := by decide
  have hrecords : Json.CanonicalItems (totals.sortedItems.map recordJson) :=
    Json.canonicalItems_map canonical_recordJson _
  have hpayload : (journalPayload totals).Canonical := ⟨hnames, trivial, hrecords, trivial⟩
  exact Json.loads_canonicalJson hpayload ['\n'] (.inr rfl)

private theorem loadPayload_journalPayload {totals : Totals} (h : Sound totals) :
    ∃ totals', loadPayload (journalPayload totals) = .ok totals' ∧
      OrderedDict.Same totals' totals := by
  have hfields : (journalPayload totals).hasFields ["schema", "totals"] = true := by
    simp [journalPayload, Json.hasFields]
  have hschema : (journalPayload totals).textField? "schema" = some eventJournalSchema := by
    simp [journalPayload, Json.textField?, Json.field?]
  have hrecords : (journalPayload totals).field? "totals" =
      some (.arr (totals.sortedItems.map recordJson)) := by
    simp [journalPayload, Json.field?]
  have hnodup : (OrderedDict.empty.items ++ totals.sortedItems : List (MetricKey × Nat)).Pairwise
      fun a b ↦ a.1 ≠ b.1 := List.pairwise_map.mp totals.nodup_sortedItems_keys
  have hvalid : ∀ key value, (key, value) ∈ totals.sortedItems →
      metricKey (.str key.name) (key.labels.map .str) = .ok key ∧ value ≤ maxMetricValue := by
    intro key value hm
    obtain ⟨hkey, -, hvalue⟩ := h key value ((totals.mem_sortedItems key value).mp hm)
    exact ⟨hkey, hvalue⟩
  obtain ⟨totals', hload, hitems⟩ := loadRecords_recordJson hvalid hnodup
  refine ⟨totals', ?_, OrderedDict.Same.of_perm ?_⟩
  · unfold loadPayload
    rw [if_neg (by rw [hfields, hschema]; decide), hrecords]
    exact hload
  · rw [hitems]
    exact totals.perm_sortedItems

/-- The file of written totals. -/
def journalFile (totals : Totals) : SmallFile := ⟨true, smallJsonLine (journalPayload totals), true⟩

/-- A file that the journal writes is read back as the totals it was written from. -/
theorem loadFile_journalFile {totals : Totals} (h : Sound totals)
    (hsize : (smallJsonLine (journalPayload totals)).length ≤ maxEventJournalBytes) :
    ∃ totals', loadFile (journalFile totals) = .ok totals' ∧ OrderedDict.Same totals' totals := by
  obtain ⟨totals', hload, hsame⟩ := loadPayload_journalPayload h
  refine ⟨totals', ?_, hsame⟩
  have hpos : (smallJsonLine (journalPayload totals)).length ≠ 0 := by
    unfold smallJsonLine
    rw [List.length_append]
    have hnewline : (Json.encodeText ['\n']).length = 1 := by decide
    omega
  unfold loadFile journalFile
  dsimp only
  rw [if_neg (by decide), if_neg (by omega), loads_journalPayload]
  exact hload

/-! ### Programs -/

section

variable {Good : Unit → Option SmallFile → Prop}

private theorem runs_touchDescriptor (P : JournalDirectory → Prop) (name : String) :
    Program.Runs (Targets Good) P (touchDescriptor name) fun _ ↦ P :=
  Program.runs_look fun _ _ _ hp _ ↦ hp

/-- Syncing the directory keeps what its names show, and settles it when it returns. -/
theorem runs_fsyncStateDirectory (v : Option SmallFile) :
    Program.Runs (Targets Good) (fun d ↦ d.get? (.target ()) = v) fsyncStateDirectory
      fun _ d ↦ ∀ v', d.Possible (.target ()) v' → v' = v := by
  refine (runs_touchDescriptor _ "open").bind fun _ ↦ ?_
  refine Program.Runs.bind (X := fun _ d ↦ ∀ v', d.Possible (.target ()) v' → v' = v)
    (Program.Runs.onError (Program.runs_update ?_) (runs_touchDescriptor _ "close"))
    fun _ ↦ runs_touchDescriptor _ "close"
  intro d hd hv
  refine ⟨hd.sync, ?_⟩
  intro v' hv'
  rw [Directory.possible_sync.mp hv', hv]

/-- A write changes the journal to the file of the totals or not at all; once it has returned, the
journal has that file for good. -/
theorem runs_write (nonce : Nat) (totals : Totals)
    (hg : (smallJsonLine (journalPayload totals)).length ≤ maxEventJournalBytes →
      Good () (some (journalFile totals))) :
    Program.Runs (Targets Good) (fun _ ↦ True) (write nonce totals)
      fun _ d ↦ (smallJsonLine (journalPayload totals)).length ≤ maxEventJournalBytes ∧
        ∀ v, d.Possible (.target ()) v → v = some (journalFile totals) := by
  have hmodify : ∀ (d : JournalDirectory) name f g, d.get? name = some f →
      (d.modify name g).get? name = some (g f) := by
    intro d name f g hd
    rw [Directory.get?_modify, if_pos rfl, hd]
    rfl
  have hunlink : Program.Runs (Targets Good) (fun _ ↦ True)
      (unlinkMissingOk (.temporary () nonce)) fun _ _ ↦ True := runs_unlinkMissingOk () nonce
  unfold write
  dsimp only
  split
  · exact Program.runs_raise _
  next hsize =>
  refine Program.Runs.bind (X := fun _ d ↦ d.get? (.temporary () nonce) = some ⟨true, [], false⟩)
    (Program.runs_call ?_) fun _ ↦ ?_
  · intro d hd _
    split
    · exact ⟨hd, fun _ h ↦ (by cases h)⟩
    · refine ⟨hd.put_temporary () nonce _, fun _ _ ↦ ?_⟩
      exact (d.get?_put _ _ _).trans (if_pos rfl)
  refine Program.Runs.bind
    (X := fun _ d ↦ d.get? (.temporary () nonce) = some (journalFile totals)) ?_ fun _ ↦ ?_
  · refine Program.Runs.onError (Program.Runs.bind
      (X := fun _ d ↦ d.get? (.temporary () nonce) =
        some ⟨true, smallJsonLine (journalPayload totals), false⟩)
      (Program.runs_update ?_) fun _ ↦ Program.runs_update ?_)
      ((runs_touchDescriptor _ "close").bind fun _ ↦ hunlink)
    · intro d hd hf
      exact ⟨hd.modify_temporary () nonce _, hmodify d _ _ _ hf⟩
    · intro d hd hf
      exact ⟨hd.modify_temporary () nonce _, hmodify d _ _ _ hf⟩
  refine (runs_touchDescriptor _ "close").bind fun _ ↦ ?_
  refine Program.Runs.bind (X := fun _ d ↦ d.get? (.target ()) = some (journalFile totals))
    (Program.Runs.onError (Program.runs_call ?_) hunlink) fun _ ↦
      (runs_fsyncStateDirectory _).mono fun _ _ _ h ↦ ⟨Nat.le_of_not_lt hsize, h⟩
  intro d hd hf
  rw [hf]
  refine ⟨?_, fun _ _ ↦ (Directory.get?_put _ _ _ _).trans (if_pos rfl)⟩
  intro t v hv
  rcases hv.of_rename with ⟨he, rfl⟩ | ⟨he, -⟩ | hv
  · cases he
    exact hg (Nat.le_of_not_lt hsize)
  · cases he
  · exact hd t v hv

private theorem returns_touchDescriptor (P : JournalDirectory → Prop) (name : String) :
    Program.Returns P (touchDescriptor name) fun _ ↦ P :=
  Program.returns_look fun _ hd ↦ ⟨(), rfl, hd⟩

/-- A write that no fault disturbs returns when its temporary name is free and its text within the
bound. -/
theorem returns_write (nonce : Nat) (totals : Totals)
    (hsize : (smallJsonLine (journalPayload totals)).length ≤ maxEventJournalBytes) :
    Program.Returns (fun d ↦ d.get? (.temporary () nonce) = none) (write nonce totals)
      fun _ _ ↦ True := by
  have hmodify : ∀ (d : JournalDirectory) name g, d.get? name ≠ none →
      (d.modify name g).get? name ≠ none := by
    intro d name g hd
    rw [Directory.get?_modify, if_pos rfl]
    cases hget : d.get? name with
    | none => exact absurd hget hd
    | some f => exact fun h ↦ (by cases h)
  unfold write
  dsimp only
  rw [if_neg (Nat.not_lt.mpr hsize)]
  refine Program.Returns.bind (X := fun _ d ↦ d.get? (.temporary () nonce) ≠ none)
    (Program.returns_call ?_) fun _ ↦ ?_
  · intro d hd
    refine ⟨(), d.put (.temporary () nonce) ⟨true, [], false⟩, by rw [hd], ?_⟩
    rw [Directory.get?_put, if_pos rfl]
    exact fun h ↦ (by cases h)
  refine Program.Returns.bind (X := fun _ d ↦ d.get? (.temporary () nonce) ≠ none)
    (Program.Returns.onError ?_ _) fun _ ↦ ?_
  · exact (Program.returns_update fun d ↦ hmodify d _ _).bind fun _ ↦
      Program.returns_update fun d ↦ hmodify d _ _
  refine (returns_touchDescriptor _ "close").bind fun _ ↦ ?_
  refine Program.Returns.bind (X := fun _ _ ↦ True) (Program.Returns.onError
    (Program.returns_call ?_) _) fun _ ↦ ?_
  · intro d hd
    cases hget : d.get? (.temporary () nonce) with
    | none => exact absurd hget hd
    | some f => exact ⟨(), _, rfl, trivial⟩
  refine (returns_touchDescriptor _ "open").bind fun _ ↦ ?_
  exact (Program.Returns.onError (Program.returns_update fun _ _ ↦ trivial) _).bind fun _ ↦
    returns_touchDescriptor _ "close"

private theorem runs_removeAbandoned (nonces : List Nat) :
    Program.Runs (Targets Good) (fun _ ↦ True) (removeAbandoned nonces) fun _ _ ↦ True := by
  induction nonces with
  | nil => exact Program.runs_pure fun _ _ _ ↦ trivial
  | cons nonce rest ih =>
    refine Program.Runs.bind (Program.runs_look fun _ _ _ _ _ ↦ trivial) fun f ↦ ?_
    cases f with
    | none => exact ih
    | some f =>
      dsimp only
      split
      · exact Program.runs_raise _
      refine Program.Runs.bind (Program.Runs.handle (Program.Runs.bind (X := fun _ _ ↦ True)
        (Program.runs_call ?_) fun _ ↦ Program.runs_pure fun _ _ _ ↦ trivial) fun e ↦ ?_)
        fun removed ↦ Program.Runs.bind ih fun count ↦ Program.runs_pure fun _ _ _ ↦ trivial
      · intro d hd _
        refine ⟨?_, fun _ _ ↦ trivial⟩
        split
        · exact hd
        · exact hd.remove_temporary () nonce
      · split
        · exact Program.runs_pure fun _ _ _ ↦ trivial
        · exact Program.runs_raise e

private theorem runs_cleanupAbandoned :
    Program.Runs (Targets Good) (fun _ ↦ True) cleanupAbandonedTemporaries fun _ _ ↦ True := by
  refine Program.Runs.bind (Program.runs_look fun _ _ _ _ _ ↦ trivial) fun nonces ↦ ?_
  refine Program.Runs.bind (runs_removeAbandoned nonces) fun removed ↦ ?_
  split
  · exact Program.runs_pure fun _ _ _ ↦ trivial
  · refine (runs_touchDescriptor _ "open").bind fun _ ↦ ?_
    refine Program.Runs.bind (X := fun _ _ ↦ True)
      (Program.Runs.onError (Program.runs_update fun d hd _ ↦ ⟨hd.sync, trivial⟩)
        (runs_touchDescriptor _ "close")) fun _ ↦ runs_touchDescriptor _ "close"

/-- Opening the journal loads one of the values that it may have. -/
theorem runs_openJournal :
    Program.Runs (Targets Good) (fun _ ↦ True) openJournal
      fun totals _ ↦ ∃ v, Good () v ∧ loadContents v = .ok totals := by
  refine runs_cleanupAbandoned.bind fun _ ↦ ?_
  refine Program.Runs.bind (X := fun v _ ↦ Good () v) (Program.runs_look ?_) fun v ↦
    Program.runs_look fun d totals _ hv hload ↦ ⟨v, hv, hload⟩
  intro d v hd _ hv
  cases hv
  exact hd () _ (d.possible_get? _)

end

/-! ### Totals between bounds -/

/-- Every counter lies between two bounds. -/
def Within (low high : MetricKey → Nat) (totals : Totals) : Prop :=
  ∀ key, low key ≤ count totals key ∧ count totals key ≤ high key

private theorem Within.same {low high : MetricKey → Nat} {totals totals' : Totals}
    (h : Within low high totals) (hs : OrderedDict.Same totals' totals) :
    Within low high totals' := by
  intro key
  unfold count
  rw [hs key]
  exact h key

private theorem Sound.same {totals totals' : Totals} (h : Sound totals)
    (hs : OrderedDict.Same totals' totals) : Sound totals' := by
  intro key value hv
  rw [hs key] at hv
  exact h key value hv

/-- A journal that a crash does not touch, and that is loaded as totals within the bounds. -/
def Loads (low high : MetricKey → Nat) (_ : Unit) (v : Option SmallFile) : Prop :=
  (∀ f, v = some f → f.synced = true) ∧
    ∃ totals, loadContents v = .ok totals ∧ Sound totals ∧ Within low high totals

private theorem loads_journalFile {low high : MetricKey → Nat} {totals : Totals} (h : Sound totals)
    (hw : Within low high totals)
    (hsize : (smallJsonLine (journalPayload totals)).length ≤ maxEventJournalBytes) :
    Loads low high () (some (journalFile totals)) := by
  obtain ⟨totals', hload, hsame⟩ := loadFile_journalFile h hsize
  refine ⟨?_, totals', hload, h.same hsame, hw.same hsame⟩
  intro f hf
  cases hf
  rfl

private theorem Loads.mono {low high low' high' : MetricKey → Nat} {v : Option SmallFile}
    (h : Loads low high () v) (hl : ∀ key, low' key ≤ low key) (hh : ∀ key, high key ≤ high' key) :
    Loads low' high' () v := by
  obtain ⟨hsync, totals, hload, hsound, hw⟩ := h
  refine ⟨hsync, totals, hload, hsound, ?_⟩
  intro key
  have := hw key
  have := hl key
  have := hh key
  omega

private theorem loadFile_congr {f g : SmallFile} (hr : g.regular = f.regular)
    (hb : g.bytes = f.bytes) :
    loadFile g = loadFile f := by
  unfold loadFile
  rw [hr, hb]

private theorem targets_crash {low high : MetricKey → Nat} {d d' : JournalDirectory}
    (h : Targets (Loads low high) d) (hc : Directory.Crash SmallFile.Decays d d') :
    Targets (Loads low high) d' := by
  intro t v' hv'
  obtain ⟨v, hv, hrel⟩ := hc.possible hv'
  obtain ⟨hsync, totals, hload, hrest⟩ := h t v hv
  cases hrel with
  | none => exact ⟨hsync, totals, hload, hrest⟩
  | @some f g hdecay =>
    refine ⟨?_, totals, ?_, hrest⟩
    · intro f' hf'
      cases hf'
      exact hdecay.2.1
    · rw [← hload]
      exact loadFile_congr hdecay.1 (hdecay.2.2 (hsync f rfl))

/-! ### One increment -/

/-- The amount that an increment adds to a counter. -/
def added (key : MetricKey) (amount : Nat) (k : MetricKey) : Nat := if k = key then amount else 0

private theorem count_set (totals : Totals) (key : MetricKey) (amount : Nat) (k : MetricKey) :
    count (totals.set key (count totals key + amount)) k = count totals k + added key amount k := by
  unfold count added
  rw [OrderedDict.get?_set]
  split
  · next h =>
    subst h
    rfl
  · rfl

/-- An error takes the change in memory back. -/
theorem rollback_set {totals : Totals} (h : Sound totals) (key : MetricKey) (amount : Nat) :
    rollback (totals.set key (count totals key + amount)) key (count totals key) = totals := by
  unfold rollback
  cases hget : totals.get? key with
  | none =>
    have hzero : count totals key = 0 := by
      unfold count
      rw [hget]
      rfl
    have hnot : key ∉ totals.keys := (totals.get?_eq_none_iff key).mp hget
    rw [if_neg (by omega)]
    exact totals.erase_set_of_not_mem _ hnot
  | some value =>
    have hvalue : count totals key = value := by
      unfold count
      rw [hget]
      rfl
    have hpos := (h key value hget).2.1
    rw [if_pos (by omega), OrderedDict.set_set, hvalue]
    exact totals.set_get? hget

private theorem Sound.set {totals : Totals} (h : Sound totals) {key : MetricKey} {amount : Nat}
    (hkey : metricKey (.str key.name) (key.labels.map .str) = .ok key) (hpos : 0 < amount)
    (hmax : count totals key + amount ≤ maxMetricValue) :
    Sound (totals.set key (count totals key + amount)) := by
  intro k value hv
  rw [OrderedDict.get?_set] at hv
  split at hv
  · next he =>
    subst he
    cases hv
    exact ⟨hkey, by omega, hmax⟩
  · exact h k value hv

private theorem metricKey_eq {name : String} {labels : List String} {key : MetricKey}
    (h : metricKey (.str name) (labels.map .str) = .ok key) : key = ⟨name, labels⟩ := by
  unfold metricKey at h
  dsimp only at h
  rw [textsOf_map_str] at h
  split at h
  · cases h
  · split at h
    · cases h
    · split at h
      · cases h
      · dsimp only at h
        split at h
        · cases h
        · cases h
          rfl

/-- An increment of a counter of the vocabulary by a positive amount. -/
structure Attempt where
  name : String
  labels : List String
  amount : Int
  key : MetricKey
  key_ok : metricKey (.str name) (labels.map .str) = .ok key
  amount_pos : 0 < amount

/-- What an attempt adds when it succeeds. -/
def Attempt.added (a : Attempt) : MetricKey → Nat := Telemetry.added a.key a.amount.toNat

/-- `increment` with the arguments of an attempt. -/
def Attempt.run (a : Attempt) (nonce : Nat) (totals : Totals) (m : Machine JournalDirectory) :
    Incremented := increment nonce totals a.name a.labels a.amount m

/-- What an increment leaves: totals that changed exactly when it returned, and a file within the
bounds of what succeeded and what was attempted. -/
structure IncrementSpec (a : Attempt) (low high : MetricKey → Nat) (totals : Totals)
    (r : Incremented) : Prop where
  returned : r.outcome = .returned () →
    (∀ key, count r.totals key = count totals key + a.added key) ∧ Sound r.totals ∧
      Targets (Loads (fun key ↦ low key + a.added key) fun key ↦ high key + a.added key)
        r.machine.state
  raised : ∀ e, r.outcome = .raised e → r.totals = totals
  targets : Targets (Loads low fun key ↦ high key + a.added key) r.machine.state

/-- The totals that an increment writes. -/
def Attempt.update (a : Attempt) (totals : Totals) : Totals :=
  totals.set a.key (count totals a.key + a.amount.toNat)

private theorem Attempt.run_eq (a : Attempt) (nonce : Nat) (totals : Totals)
    (m : Machine JournalDirectory) :
    a.run nonce totals m =
      if (maxMetricValue : Int) - count totals a.key < a.amount then
        ⟨.raised (.valueError "event journal counter exceeds its fixed bound"), totals, m⟩
      else
        match write nonce (a.update totals) m with
        | (.returned (), m) => ⟨.returned (), a.update totals, m⟩
        | (.raised e, m) => ⟨.raised e, rollback (a.update totals) a.key (count totals a.key), m⟩
        | (.crashed, m) => ⟨.crashed, a.update totals, m⟩ := by
  have hpos := a.amount_pos
  unfold Attempt.run increment
  rw [a.key_ok]
  dsimp only
  rw [if_neg (Int.not_le.mpr hpos)]
  split
  · rfl
  · have hupdate : totals.set a.key (count totals a.key + a.amount.toNat) = a.update totals := rfl
    rewrite [hupdate]
    generalize write nonce (a.update totals) m = out
    obtain ⟨outcome, m'⟩ := out
    cases outcome with
    | returned u => rfl
    | raised e => rfl
    | crashed => rfl

/-- An increment that no fault disturbs returns exactly when the counter stays within its bound and
the text within its own. -/
theorem Attempt.returned_iff (a : Attempt) {nonce : Nat} (totals : Totals) {d : JournalDirectory}
    (hfree : d.get? (.temporary () nonce) = none) :
    (a.run nonce totals ⟨[], d⟩).outcome = .returned () ↔
      count totals a.key + a.amount ≤ (maxMetricValue : Int) ∧
        (smallJsonLine (journalPayload (a.update totals))).length ≤ maxEventJournalBytes := by
  have hrun := @runs_write (fun _ _ ↦ True) nonce (a.update totals) (fun _ ↦ trivial) ⟨[], d⟩
    ⟨fun _ _ _ ↦ trivial, trivial⟩
  rw [a.run_eq]
  split
  · next hbound =>
    constructor
    · intro h
      cases h
    · intro h
      have := h.1
      omega
  · next hbound =>
    constructor
    · intro h
      refine ⟨by omega, (hrun.2 () ?_).1⟩
      generalize write nonce (a.update totals) ⟨[], d⟩ = out at h
      obtain ⟨outcome, m⟩ := out
      cases outcome with
      | returned u => rfl
      | raised e => cases h
      | crashed => cases h
    · intro h
      obtain ⟨u, d', hwrite, -⟩ := returns_write nonce (a.update totals) h.2 d hfree
      rw [hwrite]

private theorem increment_spec (a : Attempt) (nonce : Nat) {low high : MetricKey → Nat}
    {totals : Totals}
    {m : Machine JournalDirectory} (hs : Sound totals) (hw : Within low high totals)
    (ht : Targets (Loads low high) m.state) :
    IncrementSpec a low high totals (a.run nonce totals m) := by
  have hmono : ∀ d : JournalDirectory, Targets (Loads low high) d →
      Targets (Loads low fun key ↦ high key + a.added key) d := by
    intro d hd t v hv
    exact (hd t v hv).mono (fun _ ↦ Nat.le_refl _) fun key ↦ Nat.le_add_right _ _
  rw [a.run_eq]
  split
  · exact ⟨fun h ↦ (by cases h), fun _ _ ↦ rfl, hmono _ ht⟩
  · next hbound =>
    have hkey : metricKey (.str a.key.name) (a.key.labels.map .str) = .ok a.key := by
      have h := a.key_ok
      rw [metricKey_eq a.key_ok] at h ⊢
      exact h
    have hpos := a.amount_pos
    have hsound : Sound (a.update totals) := hs.set hkey (by omega) (by omega)
    have hcount : ∀ key, count (a.update totals) key = count totals key + a.added key :=
      count_set totals a.key a.amount.toNat
    have hafter : Within (fun key ↦ low key + a.added key) (fun key ↦ high key + a.added key)
        (a.update totals) := by
      intro key
      have := hw key
      dsimp only
      rw [hcount]
      omega
    have hbetween : Within low (fun key ↦ high key + a.added key) (a.update totals) := by
      intro key
      have := hafter key
      dsimp only at this ⊢
      omega
    have hrun := runs_write nonce (a.update totals) (loads_journalFile hsound hbetween) m
      ⟨hmono _ ht, trivial⟩
    generalize write nonce (a.update totals) m = out at hrun
    obtain ⟨outcome, m'⟩ := out
    cases outcome with
    | returned u =>
      refine ⟨fun _ ↦ ⟨hcount, hsound, ?_⟩, fun _ h ↦ (by cases h), hrun.1⟩
      obtain ⟨hsize, hfile⟩ := hrun.2 u rfl
      intro t v hv
      rw [hfile v hv]
      exact loads_journalFile hsound hafter hsize
    | raised e =>
      exact ⟨fun h ↦ (by cases h), fun _ _ ↦ rollback_set hs _ _, hrun.1⟩
    | crashed => exact ⟨fun h ↦ (by cases h), fun _ h ↦ (by cases h), hrun.1⟩

/-! ### Every run -/

/-- A process with an open journal: its totals, those that `_refresh_worker_metrics` saw last, those
that were loaded, and what its successful increments have added since. -/
structure JournalProcess where
  totals : Totals
  cursor : Totals
  loaded : Totals
  gained : MetricKey → Nat

/-- The state directory, the process that has the journal open, and the sums of the increments of
all processes that succeeded and that were attempted. -/
structure JournalWorld where
  disk : JournalDirectory
  process : Option JournalProcess
  succeeded : MetricKey → Nat
  attempted : MetricKey → Nat

/-- A process that has just opened the journal. -/
def JournalProcess.opened (totals : Totals) : JournalProcess := ⟨totals, .empty, totals, fun _ ↦ 0⟩

/-- Opening, incrementing and refreshing, where every system call may fail or be the last one; the
end of a process; and a crash, which may take renames back that were not synced. -/
inductive JournalRun : JournalWorld → Prop where
  | start (d : JournalDirectory) (hdurable : ∀ name, d.stale name = [])
      (hfresh : d.get? (.target ()) = none) :
      JournalRun ⟨d, none, fun _ ↦ 0, fun _ ↦ 0⟩
  | opened {w : JournalWorld} (h : JournalRun w) (faults : List Fault) (totals : Totals)
      (m : Machine JournalDirectory)
      (hopen : openJournal ⟨faults, w.disk⟩ = (.returned totals, m)) :
      JournalRun { w with disk := m.state, process := some (.opened totals) }
  | notOpened {w : JournalWorld} (h : JournalRun w) (faults : List Fault) :
      JournalRun { w with disk := (openJournal ⟨faults, w.disk⟩).2.state, process := none }
  | returned {w : JournalWorld} (h : JournalRun w) {p : JournalProcess} (hp : w.process = some p)
      (a : Attempt) (nonce : Nat) (faults : List Fault)
      (hreturned : (a.run nonce p.totals ⟨faults, w.disk⟩).outcome = .returned ()) :
      JournalRun {
        disk := (a.run nonce p.totals ⟨faults, w.disk⟩).machine.state
        process := some { p with
          totals := (a.run nonce p.totals ⟨faults, w.disk⟩).totals
          gained := fun key ↦ p.gained key + a.added key }
        succeeded := fun key ↦ w.succeeded key + a.added key
        attempted := fun key ↦ w.attempted key + a.added key }
  | raised {w : JournalWorld} (h : JournalRun w) {p : JournalProcess} (hp : w.process = some p)
      (a : Attempt) (nonce : Nat) (faults : List Fault) (e : PyError)
      (hraised : (a.run nonce p.totals ⟨faults, w.disk⟩).outcome = .raised e) :
      JournalRun { w with
        disk := (a.run nonce p.totals ⟨faults, w.disk⟩).machine.state
        process := some { p with totals := (a.run nonce p.totals ⟨faults, w.disk⟩).totals }
        attempted := fun key ↦ w.attempted key + a.added key }
  | crashed {w : JournalWorld} (h : JournalRun w) {p : JournalProcess} (hp : w.process = some p)
      (a : Attempt) (nonce : Nat) (faults : List Fault)
      (hcrashed : (a.run nonce p.totals ⟨faults, w.disk⟩).outcome = .crashed) :
      JournalRun { w with
        disk := (a.run nonce p.totals ⟨faults, w.disk⟩).machine.state
        process := none
        attempted := fun key ↦ w.attempted key + a.added key }
  | refreshed {w : JournalWorld} (h : JournalRun w) {p : JournalProcess} (hp : w.process = some p)
      (deltas : List (MetricKey × Nat))
      (hdeltas : journalDeltas p.cursor p.totals.items = .ok deltas) :
      JournalRun { w with process := some { p with cursor := p.totals } }
  | ended {w : JournalWorld} (h : JournalRun w) : JournalRun { w with process := none }
  | powerLoss {w : JournalWorld} (h : JournalRun w) {d : JournalDirectory}
      (hcrash : Directory.Crash SmallFile.Decays w.disk d) :
      JournalRun { w with disk := d, process := none }

/-- What holds of an open journal. -/
structure ProcessInv (low high : MetricKey → Nat) (p : JournalProcess) : Prop where
  sound : Sound p.totals
  within : Within low high p.totals
  gained : ∀ key, count p.totals key = count p.loaded key + p.gained key
  cursor : ∀ key, count p.cursor key ≤ count p.totals key

/-- What holds between the steps of a run. -/
structure JournalInv (w : JournalWorld) : Prop where
  targets : Targets (Loads w.succeeded w.attempted) w.disk
  process : ∀ p, w.process = some p → ProcessInv w.succeeded w.attempted p

private theorem processInv_opened {low high : MetricKey → Nat} {totals : Totals} (hs : Sound totals)
    (hw : Within low high totals) : ProcessInv low high (.opened totals) :=
  ⟨hs, hw, fun _ ↦ rfl, fun _ ↦ Nat.zero_le _⟩

private theorem runs_opened {low high : MetricKey → Nat} {d : JournalDirectory}
    (h : Targets (Loads low high) d) (faults : List Fault) :
    Targets (Loads low high) (openJournal ⟨faults, d⟩).2.state ∧
      ∀ totals, (openJournal ⟨faults, d⟩).1 = .returned totals →
        Sound totals ∧ Within low high totals := by
  have hrun := @runs_openJournal (Loads low high) ⟨faults, d⟩ ⟨h, trivial⟩
  refine ⟨hrun.1, fun totals ht ↦ ?_⟩
  obtain ⟨v, ⟨-, totals', hload', hsound, hw⟩, hload⟩ := hrun.2 totals ht
  rw [hload] at hload'
  cases hload'
  exact ⟨hsound, hw⟩

/-- Every step keeps the invariant. -/
theorem JournalRun.inv {w : JournalWorld} (h : JournalRun w) : JournalInv w := by
  induction h with
  | start d hdurable hfresh =>
    refine ⟨?_, fun _ hp ↦ (by cases hp)⟩
    intro t v hv
    rcases hv with rfl | hv
    · rw [hfresh]
      exact ⟨fun _ h ↦ (by cases h), .empty, rfl, sound_empty,
        fun key ↦ ⟨Nat.zero_le _, Nat.le_refl 0⟩⟩
    · rw [hdurable] at hv
      cases hv
  | @opened w _ faults totals m hopen ih =>
    have hrun := runs_opened ih.targets faults
    rw [hopen] at hrun
    refine ⟨hrun.1, fun p hp ↦ ?_⟩
    cases hp
    obtain ⟨hs, hw⟩ := hrun.2 totals rfl
    exact processInv_opened hs hw
  | @notOpened w _ faults ih =>
    exact ⟨(runs_opened ih.targets faults).1, fun _ hp ↦ (by cases hp)⟩
  | @returned w _ p hp a nonce faults hreturned ih =>
    have hinv := ih.process p hp
    have hspec := increment_spec a nonce (m := ⟨faults, w.disk⟩) hinv.sound hinv.within ih.targets
    obtain ⟨hcount, hsound, htargets⟩ := hspec.returned hreturned
    refine ⟨htargets, fun p' hp' ↦ ?_⟩
    cases hp'
    refine ⟨hsound, ?_, ?_, ?_⟩
    · intro key
      have := hinv.within key
      dsimp only
      rw [hcount]
      omega
    · intro key
      have := hinv.gained key
      dsimp only
      rw [hcount]
      omega
    · intro key
      have := hinv.cursor key
      dsimp only
      rw [hcount]
      omega
  | @raised w _ p hp a nonce faults e hraised ih =>
    have hinv := ih.process p hp
    have hspec := increment_spec a nonce (m := ⟨faults, w.disk⟩) hinv.sound hinv.within ih.targets
    refine ⟨hspec.targets, fun p' hp' ↦ ?_⟩
    cases hp'
    rw [hspec.raised e hraised]
    refine ⟨hinv.sound, ?_, hinv.gained, hinv.cursor⟩
    intro key
    have := hinv.within key
    dsimp only
    omega
  | @crashed w _ p hp a nonce faults hcrashed ih =>
    have hinv := ih.process p hp
    have hspec := increment_spec a nonce (m := ⟨faults, w.disk⟩) hinv.sound hinv.within ih.targets
    exact ⟨hspec.targets, fun _ hp ↦ (by cases hp)⟩
  | @refreshed w _ p hp deltas hdeltas ih =>
    have hinv := ih.process p hp
    refine ⟨ih.targets, fun p' hp' ↦ ?_⟩
    cases hp'
    exact ⟨hinv.sound, hinv.within, hinv.gained, fun _ ↦ Nat.le_refl _⟩
  | ended _ ih => exact ⟨ih.targets, fun _ hp ↦ (by cases hp)⟩
  | powerLoss _ hcrash ih => exact ⟨targets_crash ih.targets hcrash, fun _ hp ↦ (by cases hp)⟩

private theorem journalDeltas_ok {cursor : Totals} {items : List (MetricKey × Nat)}
    (h : ∀ key total, (key, total) ∈ items → count cursor key ≤ total) :
    ∃ deltas, journalDeltas cursor items = .ok deltas := by
  induction items with
  | nil => exact ⟨[], rfl⟩
  | cons item items ih =>
    obtain ⟨key, total⟩ := item
    obtain ⟨deltas, hdeltas⟩ := ih fun k t hk ↦ h k t (List.mem_cons_of_mem _ hk)
    have hle := h key total List.mem_cons_self
    rw [journalDeltas, if_neg (Nat.not_lt.mpr hle), hdeltas]
    exact ⟨_, rfl⟩

/-- The journal is accurate in every run. In a process the totals are those it loaded and what its
successful increments added, so the connector never sees a counter move backwards; an increment
that fails leaves them as they were, and one that no fault disturbs, under a temporary name that
is free, fails exactly at a bound. An open journal, and every journal that a crash may leave,
counts at least what succeeded and at most what was attempted. -/
theorem journal_accurate {w : JournalWorld} (h : JournalRun w) :
    (∀ p, w.process = some p →
      (∀ key, count p.totals key = count p.loaded key + p.gained key) ∧
      (∀ key, w.succeeded key ≤ count p.totals key ∧ count p.totals key ≤ w.attempted key) ∧
      (∃ deltas, journalDeltas p.cursor p.totals.items = .ok deltas) ∧
      ∀ (a : Attempt) (nonce : Nat) (faults : List Fault),
        let r := a.run nonce p.totals ⟨faults, w.disk⟩
        (r.outcome = .returned () → ∀ key, count r.totals key = count p.totals key + a.added key) ∧
        (∀ e, r.outcome = .raised e → r.totals = p.totals) ∧
        (faults = [] → w.disk.get? (.temporary () nonce) = none →
          (r.outcome = .returned () ↔ count p.totals a.key + a.amount ≤ (maxMetricValue : Int) ∧
            (smallJsonLine (journalPayload (a.update p.totals))).length ≤
              maxEventJournalBytes))) ∧
      ∀ d, d = w.disk ∨ Directory.Crash SmallFile.Decays w.disk d →
        ∃ totals, loadContents (d.get? (.target ())) = .ok totals ∧
          ∀ key, w.succeeded key ≤ count totals key ∧ count totals key ≤ w.attempted key := by
  have hinv := h.inv
  constructor
  · intro p hp
    have hpinv := hinv.process p hp
    refine ⟨hpinv.gained, hpinv.within, ?_, ?_⟩
    · apply journalDeltas_ok
      intro key total hm
      have hcursor := hpinv.cursor key
      have hget : p.totals.get? key = some total := (p.totals.get?_eq_some_iff key total).mpr hm
      have htotal : count p.totals key = total := by
        unfold count
        rw [hget]
        rfl
      omega
    · intro a nonce faults
      have hspec := increment_spec a nonce (m := ⟨faults, w.disk⟩) hpinv.sound hpinv.within
        hinv.targets
      refine ⟨fun hr ↦ (hspec.returned hr).1, hspec.raised, ?_⟩
      rintro rfl hfree
      exact a.returned_iff p.totals hfree
  · intro d hd
    have htargets : Targets (Loads w.succeeded w.attempted) d := by
      rcases hd with rfl | hd
      · exact hinv.targets
      · exact targets_crash hinv.targets hd
    obtain ⟨-, totals, hload, -, hw⟩ := htargets () _ (d.possible_get? _)
    exact ⟨totals, hload, hw⟩

/-! ### A sample run -/

/-- One scrub shutdown that timed out. -/
def sampleAttempt : Attempt where
  name := "spoolcache_scrub_shutdown_failures_total"
  labels := []
  amount := 1
  key := ⟨"spoolcache_scrub_shutdown_failures_total", []⟩
  key_ok := by rfl
  amount_pos := by decide

/-- Every call of the increment succeeds up to the sync of the directory, which fails. -/
def failedSync : List Fault := List.replicate 6 .none ++ [.fail]

/-- The first increment of a fresh journal, which returns. -/
def firstIncrement : Incremented := sampleAttempt.run 0 .empty ⟨[], .durable .empty⟩

/-- The second increment, failing at the sync of the directory. -/
def failedIncrement : Incremented :=
  sampleAttempt.run 1 firstIncrement.totals ⟨failedSync, firstIncrement.machine.state⟩

set_option maxRecDepth 4096 in
private theorem firstIncrement_returned : firstIncrement.outcome = .returned () ∧
    count firstIncrement.totals sampleAttempt.key = 1 := by
  decide +kernel

set_option maxRecDepth 4096 in
private theorem failedIncrement_raised : failedIncrement.outcome = .raised (.osError "fsync") ∧
    count failedIncrement.totals sampleAttempt.key = 1 := by
  decide +kernel

/-- An increment that returned and one that raised, in a process that has just opened the
journal. -/
theorem JournalRun.returned_raised {d : JournalDirectory} {totals : Totals}
    (h : JournalRun ⟨d, some (.opened totals), fun _ ↦ 0, fun _ ↦ 0⟩) (a : Attempt)
    (nonce nonce' : Nat) (faults : List Fault) {e : PyError} {r r' : Incremented}
    (hr : a.run nonce totals ⟨[], d⟩ = r) (hreturned : r.outcome = .returned ())
    (hr' : a.run nonce' r.totals ⟨faults, r.machine.state⟩ = r') (hraised : r'.outcome = .raised e) :
    ∃ p, JournalRun ⟨r'.machine.state, some p, fun key ↦ 0 + a.added key,
      fun key ↦ 0 + a.added key + a.added key⟩ := by
  subst hr hr'
  exact ⟨_, (h.returned rfl a nonce [] hreturned).raised rfl a nonce' faults e hraised⟩

/-- One increment returned and one failed after its rename: memory has the first, and the file the
first or both. -/
theorem journal_accurate_failed_sync :
    count firstIncrement.totals sampleAttempt.key = 1 ∧
      count failedIncrement.totals sampleAttempt.key = 1 ∧
      ∃ totals, loadContents (failedIncrement.machine.state.get? (.target ())) = .ok totals ∧
        ∀ key, sampleAttempt.added key ≤ count totals key ∧
          count totals key ≤ sampleAttempt.added key + sampleAttempt.added key := by
  have hstart : JournalRun ⟨.durable .empty, none, fun _ ↦ 0, fun _ ↦ 0⟩ :=
    .start _ (fun _ ↦ rfl) rfl
  have hopened : JournalRun ⟨.durable .empty, some (.opened .empty), fun _ ↦ 0, fun _ ↦ 0⟩ :=
    hstart.opened [] .empty ⟨[], .durable .empty⟩ (by rfl)
  have hfirst : sampleAttempt.run 0 .empty ⟨[], .durable .empty⟩ = firstIncrement := rfl
  have hsecond : sampleAttempt.run 1 firstIncrement.totals
      ⟨failedSync, firstIncrement.machine.state⟩ = failedIncrement := rfl
  obtain ⟨p, hrun⟩ := hopened.returned_raised sampleAttempt 0 1 failedSync hfirst
    firstIncrement_returned.1 hsecond failedIncrement_raised.1
  obtain ⟨totals, hload, hwithin⟩ := (journal_accurate hrun).2 _ (.inl rfl)
  dsimp only at hload hwithin
  refine ⟨firstIncrement_returned.2, failedIncrement_raised.2, totals, hload, fun key ↦ ?_⟩
  have hkey := hwithin key
  rwa [Nat.zero_add] at hkey

end SpoolCache.Telemetry
