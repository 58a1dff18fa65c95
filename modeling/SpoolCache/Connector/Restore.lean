import SpoolCache.Connector.Honesty
import SpoolCache.Connector.LockStep
import SpoolCache.Store.Provenance

/-!
# Restores of live prefixes

When every file of a planned prefix is live on a rank, restoring it succeeds with exactly these
files, and what was live before stays live. So the loads of a step do not disturb each other.
-/

namespace SpoolCache.Connector

open SpoolCache.Base SpoolCache.Layout SpoolCache.Prefix SpoolCache.Quorum SpoolCache.Store
open PrefixRequest (KeyAt)

/-! ### Touching -/

private theorem markers_touchAll (times : Nat → Nat) (s : RankState) (keys : List Digest) :
    (touchAll times s keys).1.markers = s.markers := by
  induction keys generalizing s times with
  | nil => rfl
  | cons key keys ih =>
    unfold touchAll
    cases hf : s.files.get? key with
    | none => rfl
    | some file => exact ih _ _

private theorem live_touch {times : Nat → Nat} {s : RankState} {keys : List Digest} {key : Digest}
    {span : Nat} (h : Live s key span) : Live (touch times s keys).1 key span := by
  refine ⟨headerSpan_touchAll h.1, ?_⟩
  rw [touch, markers_touchAll]
  exact h.2

/-! ### One restore -/

section

variable {config : WorkerConfig} {requests : List PrefixRequest}

/-- Files that open as described and authenticate are streamed. -/
theorem streamObjects_ok {s : RankState} {descriptors : List TokenFileDescriptor}
    (h : ∀ d ∈ descriptors, openChunk config.store s d.key false = .ok d ∧
      ∃ file, s.files.get? d.key = some file ∧ file.authentic = true) :
    streamObjects config s descriptors = (s, .ok ()) := by
  induction descriptors with
  | nil => rfl
  | cons d ds ih =>
    obtain ⟨ho, file, hfile, ha⟩ := h d List.mem_cons_self
    unfold streamObjects
    simp only [ho, ne_eq, not_true_eq_false, if_false, hfile, Option.map_some, Option.getD_some, ha,
      Bool.true_eq_false]
    exact ih fun d' hd ↦ h d' (List.mem_cons_of_mem _ hd)

/-- What a restore does to a rank: safe steps that keep every live key live. -/
structure Restored (fileOk : Digest → TokenFile → Prop) (s s' : RankState) : Prop where
  steps : Steps fileOk true s s'
  live : ∀ key span, Live s key span → Live s' key span

private theorem Restored.refl (fileOk : Digest → TokenFile → Prop) (s : RankState) :
    Restored fileOk s s := ⟨.refl true s, fun _ _ h ↦ h⟩

private theorem Restored.trans {fileOk : Digest → TokenFile → Prop} {a b c : RankState}
    (h : Restored fileOk a b) (h' : Restored fileOk b c) : Restored fileOk a c :=
  ⟨h.steps.trans h'.steps, fun key span hl ↦ h'.live key span (h.live key span hl)⟩

private theorem restored_pins (fileOk : Digest → TokenFile → Prop) (s : RankState)
    (pins : List (List Digest)) : Restored fileOk s { s with pins := pins } :=
  ⟨.of_safe (.pin s pins), fun _ _ h ↦ h⟩

private theorem restored_touch (times : Nat → Nat) (s : RankState) (keys : List Digest) :
    Restored (Published config.store requests) s (touch times s keys).1 :=
  ⟨steps_touchAll true published_touched times s keys.reverse, fun _ _ h ↦ live_touch h⟩

/-- A plan for the first chunks of a request, all of them live, with pages to restore to. -/
structure Restorable (l : HMALayout) (requests : List PrefixRequest) (s : RankState)
    (plan : SpoolCachePlan) (r : PrefixRequest) (m : Nat) : Prop where
  request : r ∈ requests
  keyed : ∀ i < m + 1, KeyAt r l.chunkTokens i
  entryId : plan.entryId = r.key l.chunkTokens (m + 1)
  spanTokens : plan.spanTokens = (m + 1) * l.chunkTokens
  pages : ∃ pages, l.selectPhysicalPages plan.blockIdsByGroup plan.spanTokens = .ok pages
  live : PrefixLive l s r (m + 1)

/-- A plan stays restorable while its entries stay live. -/
theorem Restorable.of_live {l : HMALayout} {s s' : RankState} {plan : SpoolCachePlan}
    {r : PrefixRequest} {m : Nat} (h : Restorable l requests s plan r m)
    (hl : ∀ key span, Live s key span → Live s' key span) :
    Restorable l requests s' plan r m :=
  ⟨h.request, h.keyed, h.entryId, h.spanTokens, h.pages,
    ⟨fun i hi ↦ hl _ _ (h.live.data i hi), fun hb ↦ hl _ _ (h.live.state hb)⟩⟩

section

variable (hinj : NoCollisions (universeInputs config.store.layout.chunkTokens requests))
  {s : RankState} (hf : FilesOk (Published config.store requests) s) {plan : SpoolCachePlan}
  {r : PrefixRequest} {m : Nat} (h : Restorable config.store.layout requests s plan r m)

include hinj hf h

/-- The view of a restorable plan is a hit with the files of its prefix. -/
theorem restoreView_of_restorable :
    restoreView config.store true s plan.entryId =
      ({ s with pins := s.pins ++
          [(prefixJobs config.store.layout r (m + 1)).map CommitJob.key] },
        .ok (some (prefixSnapshot config.store.layout r (m + 1)))) := by
  rw [h.entryId]
  exact restoreView_of_prefixLive hinj hf h.request h.keyed rfl h.live

private theorem restoreEntryView_of_restorable :
    restoreEntryView config s (prefixSnapshot config.store.layout r (m + 1)) plan =
      (s, .ok ()) := by
  obtain ⟨pages, hpages⟩ := h.pages
  obtain ⟨⟨⟩, hcovered, -⟩ := bind_ok
    (coveredSnapshot_of_prefixLive hinj hf h.request h.keyed rfl h.live)
  have hstream : streamObjects config s (prefixSnapshot config.store.layout r (m + 1)).objects =
      (s, .ok ()) := by
    apply streamObjects_ok
    intro d hd
    obtain ⟨job, hj, rfl⟩ := List.mem_map.mp hd
    have ho := openChunk_of_prefixLive hinj hf h.request h.keyed rfl h.live hj
    obtain ⟨-, file, -, -, hfile, -⟩ := openChunk_ok ho
    exact ⟨ho, file, hfile, (hf _ _ hfile).1⟩
  unfold restoreEntryView
  rw [if_neg (by rw [h.spanTokens]; exact fun hne ↦ hne rfl)]
  have hc : config.store.layout.validateManifestCoverage
      (prefixSnapshot config.store.layout r (m + 1)).spanTokens
      ((prefixSnapshot config.store.layout r (m + 1)).objects.flatMap
        TokenFileDescriptor.segments) = .ok () := hcovered
  simp only [hc, hpages, hstream]

/-- Restoring a restorable plan succeeds with the files of its prefix. -/
theorem restoreEntry_of_restorable (times : Nat → Nat) :
    ∃ s', restoreEntry config times s plan =
        (s', .ok (prefixSnapshot config.store.layout r (m + 1))) ∧
      Restored (Published config.store requests) s s' := by
  obtain ⟨pins, hpins⟩ : ∃ pins, pins = s.pins ++
      [(prefixJobs config.store.layout r (m + 1)).map CommitJob.key] := ⟨_, rfl⟩
  have hview := restoreView_of_restorable hinj hf h
  rw [← hpins] at hview
  have hpinned := restored_pins (Published config.store requests) s pins
  have hbody := restoreEntryView_of_restorable (s := { s with pins := pins }) hinj hf
    (h.of_live hpinned.live)
  obtain ⟨keys, hkeys⟩ : ∃ keys, keys = (prefixSnapshot config.store.layout r
      (m + 1)).objects.map TokenFileDescriptor.key := ⟨_, rfl⟩
  have htouch : (touch times { s with pins := pins } keys).2 = .ok () := by
    apply touchAll_eq_ok
    intro key hk
    rw [List.mem_reverse, hkeys] at hk
    obtain ⟨d, hd, rfl⟩ := List.mem_map.mp hk
    obtain ⟨job, hj, rfl⟩ := List.mem_map.mp hd
    have ho := openChunk_of_prefixLive hinj hf h.request h.keyed rfl h.live hj
    obtain ⟨-, file, -, -, hfile, -⟩ := openChunk_ok ho
    exact (OrderedDict.mem_keys_iff _ _).mpr ⟨file, hfile⟩
  have htouched : Restored (Published config.store requests) { s with pins := pins } _ :=
    restored_touch times { s with pins := pins } keys
  have hrestored := hpinned.trans htouched
  unfold restoreEntry
  simp only [hview, hbody, ← hkeys]
  generalize touch times { s with pins := pins } keys = out at htouch hrestored
  obtain ⟨s1, result⟩ := out
  subst htouch
  exact ⟨_, rfl, hrestored.trans (restored_pins _ s1 _)⟩

end

/-- The loads of a step all succeed when their plans are restorable. -/
theorem restoreLoads_of_restorable
    (hinj : NoCollisions (universeInputs config.store.layout.chunkTokens requests))
    (times : Nat → Nat → Nat) {s : RankState} {plans : List SpoolCachePlan}
    (hf : FilesOk (Published config.store requests) s)
    (h : ∀ plan ∈ plans, ∃ r m, Restorable config.store.layout requests s plan r m) :
    ∃ s', restoreLoads config times s plans = (s', .ok ()) ∧
      Restored (Published config.store requests) s s' := by
  induction plans generalizing s with
  | nil => exact ⟨s, rfl, .refl _ s⟩
  | cons plan plans ih =>
    obtain ⟨r, m, hplan⟩ := h plan List.mem_cons_self
    obtain ⟨s1, hentry, hs1⟩ := restoreEntry_of_restorable hinj hf hplan (times plans.length)
    obtain ⟨s2, hrest, hs2⟩ := ih (hs1.steps.changes.filesOk hf) fun p hp ↦ by
      obtain ⟨r', m', hp'⟩ := h p (List.mem_cons_of_mem _ hp)
      exact ⟨r', m', hp'.of_live hs1.live⟩
    refine ⟨s2, ?_, hs1.trans hs2⟩
    unfold restoreLoads
    rw [hentry]
    exact hrest

end

end SpoolCache.Connector
