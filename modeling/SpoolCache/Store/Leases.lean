import SpoolCache.Store.CommitFiles
import SpoolCache.Store.Scrub

/-!
# Leases of restore views

`leases.py:26–94` and `token_files.py:540–566`. A restore view takes a credit of its process, pins
the files of its chain with byte locks while it holds the namespace lock, and gives everything back
when its block is left. Every operation that removes a file asks for its pins under the same lock.
The actions here are the sections of the namespace lock of any number of processes, and the steps
of views between them. A byte is locked as long as some open descriptor holds a lock on it.
-/

namespace SpoolCache.Store

open SpoolCache.Base SpoolCache.Layout SpoolCache.Prefix SpoolCache.Quorum

/-! ### What happens to pinned files -/

/-- The same file, possibly touched. -/
def SameBytes (a b : TokenFile) : Prop := b = { a with modified := b.modified }

private theorem SameBytes.refl (a : TokenFile) : SameBytes a a := rfl

private theorem SameBytes.trans {a b c : TokenFile} (h : SameBytes a b) (h' : SameBytes b c) :
    SameBytes a c := by
  unfold SameBytes at *
  rw [h', h]

/-- Pins stay, and so do files of busy keys, with their markers. -/
structure Respects (s s' : RankState) : Prop where
  pins : s'.pins = s.pins
  files : ∀ key file, busy s key = true → s.files.get? key = some file →
    ∃ file', s'.files.get? key = some file' ∧ SameBytes file file'
  markers : ∀ key, busy s key = true → key ∈ s.files.keys → key ∈ s.markers.keys →
    key ∈ s'.markers.keys

private theorem Respects.refl (s : RankState) : Respects s s :=
  ⟨rfl, fun _ file _ hf ↦ ⟨file, hf, .refl file⟩, fun _ _ _ hm ↦ hm⟩

private theorem Respects.busy_eq {s s' : RankState} (h : Respects s s') (key : Digest) :
    busy s' key = busy s key := by
  unfold busy
  rw [h.pins]

private theorem Respects.trans {a b c : RankState} (h : Respects a b) (h' : Respects b c) :
    Respects a c := by
  refine ⟨h'.pins.trans h.pins, fun key file hb hf ↦ ?_, fun key hb hk hm ↦ ?_⟩
  · obtain ⟨file1, hf1, hs1⟩ := h.files key file hb hf
    obtain ⟨file2, hf2, hs2⟩ := h'.files key file1 ((h.busy_eq key).trans hb) hf1
    exact ⟨file2, hf2, hs1.trans hs2⟩
  · obtain ⟨file, hf⟩ := (OrderedDict.mem_keys_iff _ _).mp hk
    obtain ⟨file1, hf1, -⟩ := h.files key file hb hf
    exact h'.markers key ((h.busy_eq key).trans hb) ((OrderedDict.mem_keys_iff _ _).mpr ⟨file1, hf1⟩)
      (h.markers key hb hk hm)

/-- An operation on one key that is not busy, or has no file, or keeps file and marker. -/
theorem respects_of_key {s s' : RankState} (key : Digest) (hp : s'.pins = s.pins)
    (hfiles : ∀ a, a ≠ key → s'.files.get? a = s.files.get? a)
    (hmarkers : ∀ a, a ≠ key → a ∈ s.markers.keys → a ∈ s'.markers.keys)
    (hkey : busy s key = true → key ∈ s.files.keys →
      s'.files.get? key = s.files.get? key ∧ (key ∈ s.markers.keys → key ∈ s'.markers.keys)) :
    Respects s s' := by
  refine ⟨hp, fun a file hb hf ↦ ?_, fun a hb hk hm ↦ ?_⟩
  · by_cases ha : a = key
    · subst ha
      obtain ⟨he, -⟩ := hkey hb ((OrderedDict.mem_keys_iff _ _).mpr ⟨file, hf⟩)
      exact ⟨file, he.trans hf, .refl file⟩
    · exact ⟨file, (hfiles a ha).trans hf, .refl file⟩
  · by_cases ha : a = key
    · subst ha
      exact (hkey hb hk).2 hm
    · exact hmarkers a ha hm

private theorem mem_markers_withdraw (hooked : Bool) (s : RankState) (key a : Digest) :
    a ∈ (recordWithdrawal hooked (markWithdrawn s key) key).markers.keys ↔
      a = key ∨ a ∈ s.markers.keys := by
  rw [markers_recordWithdrawal]
  exact OrderedDict.mem_keys_set _ _ _ _

private theorem respects_quarantineBad (hooked : Bool) (s : RankState) (key : Digest) :
    Respects s (quarantineBad hooked s key) := by
  refine respects_of_key key (framed_quarantineBad hooked s key).pins
    (fun a ha ↦ files_quarantineBad ha) (fun a ha hm ↦ ?_) fun hb _ ↦ ?_
  · have hw := (mem_markers_withdraw hooked s key a).mpr (.inr hm)
    unfold quarantineBad
    split
    · exact hw
    · unfold quarantineManifest
      dsimp only
      split
      · exact hw
      · split
        · exact (OrderedDict.mem_keys_erase _ _ _).mpr ⟨ha, hw⟩
        · exact hw
  · unfold quarantineBad
    rw [if_pos hb]
    exact ⟨by rw [files_recordWithdrawal]; rfl,
      fun _ ↦ (mem_markers_withdraw hooked s key key).mpr (.inl rfl)⟩

private theorem Quarantines.respects {hooked : Bool} {s s' : RankState}
    (h : Quarantines hooked s s') :
    Respects s s' := by
  induction h with
  | refl => exact .refl s
  | tail _ hlast ih =>
    obtain ⟨key, rfl⟩ := hlast
    exact ih.trans (respects_quarantineBad hooked _ key)

private theorem respects_evict (hooked : Bool) (s : RankState) (key : Digest) :
    Respects s (evict hooked s key).1 := by
  unfold evict
  split
  · exact .refl s
  · next hb =>
    split
    · exact .refl s
    · refine respects_of_key key (pins_recordWithdrawal hooked _ key) (fun a ha ↦ ?_)
        (fun a _ hm ↦ (mem_markers_withdraw hooked s key a).mpr (.inr hm)) fun hbusy ↦ absurd hbusy hb
      dsimp only
      rw [OrderedDict.get?_erase, if_neg ha, files_recordWithdrawal]
      rfl

private theorem respects_evictAll (hooked : Bool) (s : RankState) (keys : List Digest) :
    Respects s (evictAll hooked s keys).1 := by
  induction keys generalizing s with
  | nil => exact .refl s
  | cons key keys ih => exact (respects_evict hooked s key).trans (ih _)

private theorem respects_maintainCapacityBatch (hooked : Bool) (s : RankState)
    (triggerBytes remaining : Nat) :
    Respects s (maintainCapacityBatch hooked s triggerBytes remaining).1 := by
  unfold maintainCapacityBatch
  split
  · exact .refl s
  · exact respects_evictAll hooked s _

private theorem respects_touchAll (times : Nat → Nat) (s : RankState) (keys : List Digest) :
    Respects s (touchAll times s keys).1 := by
  induction keys generalizing s times with
  | nil => exact .refl s
  | cons key keys ih =>
    unfold touchAll
    cases hf : s.files.get? key with
    | none => exact .refl s
    | some file =>
      have hone : Respects s
          { s with files := s.files.set key { file with modified := times 1 } } := by
        refine ⟨rfl, fun a old _ hold ↦ ?_, fun _ _ _ hm ↦ hm⟩
        rw [OrderedDict.get?_set]
        split
        · next he =>
          rw [he, hf] at hold
          cases hold
          exact ⟨_, rfl, rfl⟩
        · exact ⟨old, hold, .refl old⟩
      exact hone.trans (ih _ _)

section

variable (config : StoreConfig)

private theorem respects_publishChunk (hooked : Bool) (oracle : PublishOracle) (s : RankState)
    (key : Digest) (header : TokenHeader) :
    Respects s (publishChunk config hooked oracle s key header).1 := by
  unfold publishChunk
  split
  · exact .refl s
  · split
    · exact .refl s
    · next habsent =>
      have hfiles : ∀ (file : TokenFile) (a : Digest), a ≠ key →
          (s.files.set key file).get? a = s.files.get? a := by
        intro file a ha
        rw [OrderedDict.get?_set, if_neg ha]
      dsimp only
      split
      · exact .refl s
      · refine respects_of_key key (pins_recordWithdrawal hooked _ key) (fun a ha ↦ ?_)
          (fun a _ hm ↦ (mem_markers_withdraw hooked _ key a).mpr (.inr hm))
          fun _ hk ↦ absurd hk habsent
        rw [files_recordWithdrawal]
        exact hfiles _ a ha
      · refine respects_of_key key rfl (hfiles _) (fun a ha hm ↦ ?_) fun _ hk ↦ absurd hk habsent
        exact (OrderedDict.mem_keys_erase _ _ _).mpr ⟨ha, hm⟩

private theorem respects_scrubAttempt (hooked readFails : Bool) {s : RankState} {key : Digest}
    (hfree : busy s key = false) :
    Respects s (scrubAttempt config hooked readFails s key).store := by
  unfold scrubAttempt
  split
  · exact .refl s
  · exact respects_quarantineBad hooked s key
  · split
    · exact respects_quarantineBad hooked s key
    · split
      · refine respects_of_key key rfl (fun _ _ ↦ rfl) (fun a ha hm ↦ ?_) fun hb ↦ ?_
        · exact (OrderedDict.mem_keys_erase _ _ _).mpr ⟨ha, hm⟩
        · rw [hfree] at hb
          cases hb
      · exact .refl s

/-! ### Operations on the root -/

/-- Sections of the namespace lock that are not part of a view. -/
inductive RootOp where
  | evict (key : Digest)
  | maintainCapacityBatch (triggerBytes remaining : Nat)
  | lookup (entryId : Digest)
  | validChunk (key : Digest) (header : TokenHeader)
  | publishChunk (oracle : PublishOracle) (key : Digest) (header : TokenHeader)
  | touch (times : Nat → Nat) (keys : List Digest)
  | scrub (readFails : Bool) (key : Digest)
  | quarantineBad (key : Digest)

/-- What a section does to the root. -/
def RootOp.run (hooked : Bool) (s : RankState) : RootOp → RankState
  | .evict key => (Store.evict hooked s key).1
  | .maintainCapacityBatch triggerBytes remaining =>
    (Store.maintainCapacityBatch hooked s triggerBytes remaining).1
  | .lookup entryId => (Store.lookup config hooked s entryId).1
  | .validChunk key header => (Store.validChunk config hooked s key header).1
  | .publishChunk oracle key header => (Store.publishChunk config hooked oracle s key header).1
  | .touch times keys => (Store.touch times s keys).1
  | .scrub readFails key =>
    if busy s key then s else (scrubAttempt config hooked readFails s key).store
  | .quarantineBad key => Store.quarantineBad hooked s key

private theorem RootOp.respects (hooked : Bool) (s : RankState) (op : RootOp) :
    Respects s (op.run config hooked s) := by
  cases op with
  | evict key => exact respects_evict hooked s key
  | maintainCapacityBatch triggerBytes remaining =>
    exact respects_maintainCapacityBatch hooked s triggerBytes remaining
  | lookup entryId => exact (quarantines_lookup hooked s entryId).respects
  | validChunk key header => exact (quarantines_validChunk hooked s key header).respects
  | publishChunk oracle key header => exact respects_publishChunk config hooked oracle s key header
  | touch times keys => exact respects_touchAll times s keys.reverse
  | scrub readFails key =>
    dsimp only [RootOp.run]
    split
    · exact .refl s
    · next hfree => exact respects_scrubAttempt config hooked readFails (by simpa using hfree)
  | quarantineBad key => exact respects_quarantineBad hooked s key

end

/-! ### Views -/

/-- Where the thread of a view is, `token_files.py:541–566`. -/
inductive ViewPlace where
  | credited
  | inside
  | closing
  | unpinning
  | releasing
  | ended
  deriving DecidableEq

/-- A use of `restore_view`: its descriptor among the pins, whether it is counted as active and
holds a credit, and its snapshot with the files as they were when it entered. -/
structure View where
  process : Nat
  place : ViewPlace
  pin : Option Nat
  counted : Bool
  credit : Bool
  snapshot : Option TokenSnapshot
  found : List (Digest × TokenFile)

/-- The keys of a lookup; none for a miss. -/
def resultKeys (result : Option TokenSnapshot) : List Digest :=
  (result.map fun snapshot ↦ snapshot.objects.map TokenFileDescriptor.key).getD []

/-- The keys of the view's snapshot. -/
def View.keys (view : View) : List Digest := resultKeys view.snapshot

/-- A root with the stores that are open on it and their views. A closed descriptor has no keys. -/
structure LeaseWorld where
  rank : RankState
  restoreCredits : Nat → Nat
  activeRestores : Nat → Nat
  views : List View

/-- Sections and what views do between them. -/
inductive LeaseAction where
  | root (hooked : Bool) (op : RootOp)
  | acquire (process : Nat)
  /-- The first section of a view; `pinFails` says that its descriptor cannot be opened or
  locked. -/
  | enter (view : Nat) (hooked : Bool) (entryId : Digest) (pinFails : Bool)
  /-- The body ends: normally, when the files are touched, or with an exception. -/
  | finish (view : Nat) (touched : Option (Nat → Nat))
  /-- The section in which the view is no longer counted; `locked` says that it gets the lock. -/
  | uncount (view : Nat) (locked : Bool)
  | unpin (view : Nat)
  | release (view : Nat)

section

variable (config : StoreConfig)

/-- The files of a snapshot. -/
def foundFiles (s : RankState) (snapshot : TokenSnapshot) : List (Digest × TokenFile) :=
  snapshot.objects.filterMap fun o ↦ (s.files.get? o.key).map fun file ↦ (o.key, file)

/-- The first section of a view, `token_files.py:546–556`. -/
def enterView (w : LeaseWorld) (v : Nat) (view : View) (hooked : Bool) (entryId : Digest)
    (pinFails : Bool) : LeaseWorld :=
  match restoreView config hooked w.rank entryId with
  | (rank, .error _) =>
    { w with rank := rank, views := w.views.set v { view with place := .releasing } }
  | (rank, .ok result) =>
    if pinFails then
      { w with
        rank := { rank with pins := w.rank.pins }
        views := w.views.set v { view with place := .releasing } }
    else
      { w with
        rank := rank
        activeRestores := Function.update w.activeRestores view.process
          (w.activeRestores view.process + 1)
        views := w.views.set v { view with
          place := .inside
          pin := some w.rank.pins.length
          counted := true
          snapshot := result
          found := (result.map (foundFiles w.rank)).getD [] } }

/-- One action; an action of a view that is elsewhere does nothing. -/
def leaseAct (w : LeaseWorld) : LeaseAction → LeaseWorld
  | .root hooked op => { w with rank := op.run config hooked w.rank }
  | .acquire process =>
    if w.restoreCredits process = 0 then w
    else
      { w with
        restoreCredits := Function.update w.restoreCredits process (w.restoreCredits process - 1)
        views := w.views ++ [⟨process, .credited, none, false, true, none, []⟩] }
  | .enter v hooked entryId pinFails =>
    match w.views[v]? with
    | some view =>
      if view.place = .credited then enterView config w v view hooked entryId pinFails else w
    | none => w
  | .finish v touched =>
    match w.views[v]? with
    | some view =>
      if view.place = .inside then
        { w with
          rank := match touched with
            | none => w.rank
            | some times => (touch times w.rank view.keys).1
          views := w.views.set v { view with place := .closing } }
      else w
    | none => w
  | .uncount v locked =>
    match w.views[v]? with
    | some view =>
      if view.place = .closing then
        if locked then
          { w with
            activeRestores := Function.update w.activeRestores view.process
              (w.activeRestores view.process - 1)
            views := w.views.set v { view with place := .unpinning, counted := false } }
        else { w with views := w.views.set v { view with place := .ended } }
      else w
    | none => w
  | .unpin v =>
    match w.views[v]? with
    | some view =>
      if view.place = .unpinning then
        { w with
          rank := { w.rank with pins := match view.pin with
            | none => w.rank.pins
            | some i => w.rank.pins.set i [] }
          views := w.views.set v { view with place := .releasing, pin := none } }
      else w
    | none => w
  | .release v =>
    match w.views[v]? with
    | some view =>
      if view.place = .releasing then
        { w with
          restoreCredits := Function.update w.restoreCredits view.process
            (w.restoreCredits view.process + 1)
          views := w.views.set v { view with place := .ended, credit := false } }
      else w
    | none => w

/-- Any interleaving of actions. -/
def leaseRun (w : LeaseWorld) (actions : List LeaseAction) : LeaseWorld :=
  actions.foldl (leaseAct config) w

end

/-! ### The invariant -/

/-- What a view holds at each place: its credit, its count, and its pin. -/
def ViewPlace.holds : ViewPlace → Bool × Bool × Bool
  | .credited => (true, false, false)
  | .inside => (true, true, true)
  | .closing => (true, true, true)
  | .unpinning => (true, false, true)
  | .releasing => (true, false, false)
  | .ended => (false, false, false)

/-- A view holds what belongs to its place. -/
def View.Regular (view : View) : Prop :=
  (view.credit, view.counted, view.pin.isSome) = view.place.holds

/-- The files of a view's snapshot have their names and bytes. -/
def View.Intact (s : RankState) (view : View) : Prop :=
  ∀ e ∈ view.found, ∃ file, s.files.get? e.1 = some file ∧ SameBytes e.2 file

/-- Every file of the snapshot was found. -/
def View.Complete (view : View) : Prop := view.found.map Prod.fst = view.keys

/-- What holds of a root with any leases. -/
structure LeaseInv (w : LeaseWorld) : Prop where
  regular : ∀ view ∈ w.views, view.place ≠ .ended → view.Regular
  complete : ∀ view ∈ w.views, view.Complete
  pinned : ∀ view ∈ w.views, ∀ i, view.pin = some i → w.rank.pins[i]? = some view.keys
  intact : ∀ view ∈ w.views, view.pin ≠ none → view.Intact w.rank
  apart : ∀ (u v i : Nat) (a b : View), w.views[u]? = some a → w.views[v]? = some b →
    a.pin = some i → b.pin = some i → u = v
  owned : ∀ i keys, w.rank.pins[i]? = some keys → keys ≠ [] →
    ∃ view ∈ w.views, view.pin = some i
  credits : ∀ p, w.restoreCredits p +
    w.views.countP (fun view ↦ view.process = p ∧ view.credit = true) = 2
  active : ∀ p, w.activeRestores p =
    w.views.countP fun view ↦ view.process = p ∧ view.counted = true

private theorem busy_of_mem {s : RankState} {i : Nat} {keys : List Digest} {key : Digest}
    (hi : s.pins[i]? = some keys) (hk : key ∈ keys) : busy s key = true :=
  List.any_eq_true.mpr ⟨keys, List.mem_of_getElem? hi, List.any_eq_true.mpr ⟨key, hk, by simp⟩⟩

/-- Operations on the root leave leases alone. -/
theorem LeaseInv.respects {w : LeaseWorld} (h : LeaseInv w) {rank : RankState}
    (hr : Respects w.rank rank) : LeaseInv { w with rank := rank } := by
  constructor
  case regular => exact h.regular
  case complete => exact h.complete
  case pinned =>
    intro view hv i hi
    rw [hr.pins]
    exact h.pinned view hv i hi
  case intact =>
    intro view hv hp e he
    obtain ⟨i, hi⟩ := Option.ne_none_iff_exists'.mp hp
    have hkey : e.1 ∈ view.keys := h.complete view hv ▸ List.mem_map_of_mem he
    obtain ⟨file, hf, hs⟩ := h.intact view hv hp e he
    obtain ⟨file', hf', hs'⟩ := hr.files e.1 file (busy_of_mem (h.pinned view hv i hi) hkey) hf
    exact ⟨file', hf', hs.trans hs'⟩
  case apart => exact h.apart
  case owned =>
    intro i keys hi
    rw [hr.pins] at hi
    exact h.owned i keys hi
  case credits => exact h.credits
  case active => exact h.active

private theorem getElem?_set_cases {views : List View} {u v : Nat} {view new : View}
    (h : (views.set v new)[u]? = some view) :
    u = v ∧ view = new ∨ u ≠ v ∧ views[u]? = some view := by
  rw [List.getElem?_set] at h
  split at h
  · next he =>
    split at h
    · exact .inl ⟨he.symm, (Option.some.inj h).symm⟩
    · cases h
  · next he => exact .inr ⟨fun hu ↦ he hu.symm, h⟩

private theorem countP_set_view {views : List View} {v : Nat} {old : View}
    (hv : views[v]? = some old) (new : View) (held : View → Bool) :
    (views.set v new).countP held + (if held old then 1 else 0) =
      views.countP held + if held new then 1 else 0 := by
  obtain ⟨hlt, he⟩ := List.getElem?_eq_some_iff.mp hv
  rw [List.countP_set hlt, he]
  have hpos : held old = true → 0 < views.countP held := fun hh ↦
    List.countP_pos_iff.mpr ⟨old, List.mem_of_getElem? hv, hh⟩
  split
  · next hh =>
    have := hpos hh
    split <;> omega
  · split <;> omega

/-- One view takes the place of another with the same index. -/
theorem LeaseInv.replace {w w' : LeaseWorld} (h : LeaseInv w) {v : Nat} {old new : View}
    (hv : w.views[v]? = some old) (hviews : w'.views = w.views.set v new)
    (hregular : new.place ≠ .ended → new.Regular) (hcomplete : new.Complete)
    (hpins : ∀ u view i, u ≠ v → w.views[u]? = some view → view.pin = some i →
      w'.rank.pins[i]? = w.rank.pins[i]?)
    (hfiles : w'.rank.files = w.rank.files)
    (hpinned : ∀ i, new.pin = some i → w'.rank.pins[i]? = some new.keys)
    (hintact : new.pin ≠ none → new.Intact w.rank)
    (hapart : ∀ u view i, u ≠ v → w.views[u]? = some view → view.pin = some i → new.pin ≠ some i)
    (howned : ∀ i keys, w'.rank.pins[i]? = some keys → keys ≠ [] → new.pin = some i ∨
      ∃ u view, u ≠ v ∧ w.views[u]? = some view ∧ view.pin = some i)
    (hcredits : ∀ p, w'.restoreCredits p +
        (if decide (new.process = p ∧ new.credit = true) then 1 else 0) =
      w.restoreCredits p + if decide (old.process = p ∧ old.credit = true) then 1 else 0)
    (hactive : ∀ p, w'.activeRestores p +
        (if decide (old.process = p ∧ old.counted = true) then 1 else 0) =
      w.activeRestores p + if decide (new.process = p ∧ new.counted = true) then 1 else 0) :
    LeaseInv w' := by
  have hmem : ∀ view ∈ w'.views, view = new ∨ ∃ u, u ≠ v ∧ w.views[u]? = some view := by
    intro view hm
    rw [hviews] at hm
    obtain ⟨u, hu⟩ := List.mem_iff_getElem?.mp hm
    rcases getElem?_set_cases hu with ⟨-, he⟩ | ⟨hne, hu⟩
    · exact .inl he
    · exact .inr ⟨u, hne, hu⟩
  constructor
  case regular =>
    intro view hm
    rcases hmem view hm with rfl | ⟨u, -, hu⟩
    · exact hregular
    · exact h.regular view (List.mem_of_getElem? hu)
  case complete =>
    intro view hm
    rcases hmem view hm with rfl | ⟨u, -, hu⟩
    · exact hcomplete
    · exact h.complete view (List.mem_of_getElem? hu)
  case pinned =>
    intro view hm i hi
    rcases hmem view hm with rfl | ⟨u, hne, hu⟩
    · exact hpinned i hi
    · rw [hpins u view i hne hu hi]
      exact h.pinned view (List.mem_of_getElem? hu) i hi
  case intact =>
    intro view hm hp e he
    rw [hfiles]
    rcases hmem view hm with rfl | ⟨u, -, hu⟩
    · exact hintact hp e he
    · exact h.intact view (List.mem_of_getElem? hu) hp e he
  case apart =>
    intro a b i viewA viewB ha hb hia hib
    rw [hviews] at ha hb
    rcases getElem?_set_cases ha with ⟨rfl, rfl⟩ | ⟨hna, hua⟩
    · rcases getElem?_set_cases hb with ⟨rfl, -⟩ | ⟨hnb, hub⟩
      · rfl
      · exact absurd hia (hapart b viewB i hnb hub hib)
    · rcases getElem?_set_cases hb with ⟨rfl, rfl⟩ | ⟨-, hub⟩
      · exact absurd hib (hapart a viewA i hna hua hia)
      · exact h.apart a b i viewA viewB hua hub hia hib
  case owned =>
    intro i keys hi hk
    obtain ⟨hlt, -⟩ := List.getElem?_eq_some_iff.mp hv
    rw [hviews]
    rcases howned i keys hi hk with hnew | ⟨u, view, hne, hu, hpin⟩
    · exact ⟨new, List.mem_iff_getElem?.mpr ⟨v, by rw [List.getElem?_set_self hlt]⟩, hnew⟩
    · exact ⟨view, List.mem_iff_getElem?.mpr ⟨u, by rw [List.getElem?_set_ne hne.symm, hu]⟩, hpin⟩
  case credits =>
    intro p
    have hcount := countP_set_view hv new fun view ↦ decide (view.process = p ∧ view.credit = true)
    have hold := h.credits p
    have hnew := hcredits p
    rw [hviews]
    omega
  case active =>
    intro p
    have hcount := countP_set_view hv new fun view ↦ decide (view.process = p ∧ view.counted = true)
    have hold := h.active p
    have hnew := hactive p
    rw [hviews]
    omega

/-- A view goes on with the same pin; only its place, its count and its credit change. -/
theorem LeaseInv.move {w w' : LeaseWorld} (h : LeaseInv w) {v : Nat} {old new : View}
    (hv : w.views[v]? = some old) (hviews : w'.views = w.views.set v new)
    (hrank : w'.rank = w.rank) (hpin : new.pin = old.pin) (hfound : new.found = old.found)
    (hsnapshot : new.snapshot = old.snapshot) (hregular : new.place ≠ .ended → new.Regular)
    (hcredits : ∀ p, w'.restoreCredits p +
        (if decide (new.process = p ∧ new.credit = true) then 1 else 0) =
      w.restoreCredits p + if decide (old.process = p ∧ old.credit = true) then 1 else 0)
    (hactive : ∀ p, w'.activeRestores p +
        (if decide (old.process = p ∧ old.counted = true) then 1 else 0) =
      w.activeRestores p + if decide (new.process = p ∧ new.counted = true) then 1 else 0) :
    LeaseInv w' := by
  have hold := List.mem_of_getElem? hv
  refine h.replace hv hviews hregular ?_ ?_ (by rw [hrank]) ?_ ?_ ?_ ?_ hcredits hactive
  · unfold View.Complete View.keys
    rw [hfound, hsnapshot]
    exact h.complete old hold
  · intro u view i _ _ _
    rw [hrank]
  · intro i hi
    have hkeys : new.keys = old.keys := congrArg resultKeys hsnapshot
    rw [hrank, hkeys]
    exact h.pinned old hold i (hpin ▸ hi)
  · intro hp e he
    rw [hfound] at he
    exact h.intact old hold (hpin ▸ hp) e he
  · intro u view i hne hu hi hnew
    exact hne (h.apart u v i view old hu hv hi (hpin ▸ hnew))
  · intro i keys hi hk
    rw [hrank] at hi
    obtain ⟨view, hm, hview⟩ := h.owned i keys hi hk
    obtain ⟨u, hu⟩ := List.mem_iff_getElem?.mp hm
    by_cases hne : u = v
    · subst hne
      rw [hv] at hu
      cases hu
      exact .inl (hpin.trans hview)
    · exact .inr ⟨u, view, hne, hu, hview⟩

section

variable {config : StoreConfig}

private theorem restoreView_error {hooked : Bool} {s s' : RankState} {entryId : Digest}
    {e : PyError} (h : restoreView config hooked s entryId = (s', .error e)) :
    s' = (lookup config hooked s entryId).1 := by
  unfold restoreView at h
  split at h
  · next hl =>
    cases h
    rw [hl]
  · cases h
  · cases h

private theorem restoreView_ok {hooked : Bool} {s s' : RankState} {entryId : Digest}
    {result : Option TokenSnapshot} (h : restoreView config hooked s entryId = (s', .ok result)) :
    s' = { (lookup config hooked s entryId).1 with
      pins := (lookup config hooked s entryId).1.pins ++ [resultKeys result] } := by
  unfold restoreView at h
  split at h
  · cases h
  · next hl =>
    cases h
    rw [hl]
    rfl
  · next hl =>
    cases h
    rw [hl]
    rfl

private theorem mem_foundFiles {s : RankState} {snapshot : TokenSnapshot} {e : Digest × TokenFile}
    (h : e ∈ foundFiles s snapshot) : s.files.get? e.1 = some e.2 := by
  obtain ⟨o, -, he⟩ := List.mem_filterMap.mp h
  obtain ⟨file, hf, rfl⟩ := Option.map_eq_some_iff.mp he
  exact hf

private theorem keys_foundFiles {s : RankState} {snapshot : TokenSnapshot}
    (h : ∀ o ∈ snapshot.objects, o.key ∈ s.files.keys) :
    (foundFiles s snapshot).map Prod.fst = snapshot.objects.map TokenFileDescriptor.key := by
  unfold foundFiles
  generalize snapshot.objects = objects at h
  induction objects with
  | nil => rfl
  | cons o objects ih =>
    obtain ⟨file, hf⟩ := (OrderedDict.mem_keys_iff _ _).mp (h o (List.mem_cons_self ..))
    rw [List.filterMap_cons, hf]
    dsimp only [Option.map_some]
    rw [List.map_cons, List.map_cons, ih fun o' ho' ↦ h o' (List.mem_cons_of_mem _ ho')]

/-- The files of a hit are there. -/
theorem mem_files_of_hit {hooked : Bool} {s s' : RankState} {entryId : Digest}
    {snapshot : TokenSnapshot}
    (h : restoreView config hooked s entryId = (s', .ok (some snapshot)))
    {o : TokenFileDescriptor} (ho : o ∈ snapshot.objects) : o.key ∈ s.files.keys := by
  obtain ⟨-, -, n, hchain, -⟩ := restoreView_hit h
  have hopen := hchain.open_of_mem ho
  unfold openChunk at hopen
  split at hopen
  · cases hopen
  · split at hopen
    · cases hopen
    · next file hf => exact (OrderedDict.mem_keys_iff _ _).mpr ⟨file, hf⟩

/-- What a view holds that has not ended. -/
theorem LeaseInv.holds {w : LeaseWorld} (h : LeaseInv w) {v : Nat} {view : View}
    (hv : w.views[v]? = some view) (hplace : view.place ≠ .ended) :
    view.credit = view.place.holds.1 ∧ view.counted = view.place.holds.2.1 ∧
      view.pin.isSome = view.place.holds.2.2 := by
  have hregular : view.Regular := h.regular view (List.mem_of_getElem? hv) hplace
  unfold View.Regular at hregular
  rw [← hregular]
  exact ⟨rfl, rfl, rfl⟩

/-- The first section of a view pins its files and counts it, or sends it to its clean-up. -/
theorem LeaseInv.enter {w : LeaseWorld} (h : LeaseInv w) {v : Nat} {view : View}
    (hv : w.views[v]? = some view) (hplace : view.place = .credited) (hooked : Bool)
    (entryId : Digest) (pinFails : Bool) :
    LeaseInv (enterView config w v view hooked entryId pinFails) := by
  obtain ⟨hcredit, hcounted, hpin⟩ := h.holds hv (by rw [hplace]; decide)
  rw [hplace] at hcredit hcounted hpin
  have hnone : view.pin = none := by simpa [ViewPlace.holds] using hpin
  have hlookup : Respects w.rank (lookup config hooked w.rank entryId).1 :=
    (quarantines_lookup hooked w.rank entryId).respects
  have hinv := h.respects hlookup
  -- a view that fails to enter keeps its credit for the clean-up
  have hfails : LeaseInv { w with
      rank := (lookup config hooked w.rank entryId).1
      views := w.views.set v { view with place := .releasing } } := by
    refine hinv.move hv rfl rfl rfl rfl rfl (fun _ ↦ ?_) (fun _ ↦ rfl) fun _ ↦ rfl
    unfold View.Regular
    rw [hcredit, hcounted, hnone]
    rfl
  unfold enterView
  split
  · next rank e hview =>
    rw [restoreView_error hview]
    exact hfails
  · next rank result hview =>
    obtain rfl := restoreView_ok hview
    split
    · rw [← hlookup.pins]
      exact hfails
    · have hhit : ∀ e ∈ (result.map (foundFiles w.rank)).getD [],
          (lookup config hooked w.rank entryId).1.files.get? e.1 = some e.2 := by
        intro e he
        cases result with
        | none => cases he
        | some snapshot =>
          have hf := mem_foundFiles he
          obtain ⟨heq, -⟩ := restoreView_hit hview
          have hfiles := congrArg RankState.files heq
          dsimp only at hfiles
          rw [hfiles]
          exact hf
      have hlen : w.rank.pins.length = (lookup config hooked w.rank entryId).1.pins.length := by
        rw [hlookup.pins]
      refine hinv.replace hv rfl (fun _ ↦ ?_) ?_ ?_ rfl ?_ ?_ ?_ ?_ (fun _ ↦ rfl) ?_
      · unfold View.Regular
        dsimp only
        rw [hcredit]
        rfl
      · cases result with
        | none => rfl
        | some snapshot => exact keys_foundFiles fun _ ho ↦ mem_files_of_hit hview ho
      · intro u other i _ hu hi
        have hget := hinv.pinned other (List.mem_of_getElem? hu) i hi
        dsimp only at hget ⊢
        exact (List.getElem?_append_left (List.getElem?_eq_some_iff.mp hget).1)
      · intro i hi
        cases hi
        dsimp only
        rw [hlen, List.getElem?_append_right le_rfl, Nat.sub_self]
        rfl
      · exact fun _ e he ↦ ⟨e.2, hhit e he, .refl e.2⟩
      · intro u other i _ hu hi hnew
        have hget := hinv.pinned other (List.mem_of_getElem? hu) i hi
        have hlt := (List.getElem?_eq_some_iff.mp hget).1
        dsimp only at hlt hnew
        rw [hlen, Option.some.injEq] at hnew
        omega
      · intro i keys' hi hne
        dsimp only at hi
        by_cases hlt : i < (lookup config hooked w.rank entryId).1.pins.length
        · rw [List.getElem?_append_left hlt] at hi
          obtain ⟨other, hm, hother⟩ := hinv.owned i keys' hi hne
          obtain ⟨u, hu⟩ := List.mem_iff_getElem?.mp hm
          refine .inr ⟨u, other, ?_, hu, hother⟩
          rintro rfl
          rw [hv] at hu
          cases hu
          rw [hnone] at hother
          cases hother
        · have hbound := (List.getElem?_eq_some_iff.mp hi).1
          rw [List.length_append, List.length_singleton] at hbound
          have hi : i = w.rank.pins.length := by omega
          exact .inl (by rw [hi])
      · intro p
        dsimp only
        rw [hcounted, Function.update_apply]
        by_cases hp : p = view.process
        · subst hp
          simp [ViewPlace.holds]
        · rw [if_neg hp]
          simp [Ne.symm hp]

/-- A view that starts takes a credit of its process. -/
theorem LeaseInv.acquire {w : LeaseWorld} (h : LeaseInv w) {process : Nat}
    (hfree : w.restoreCredits process ≠ 0) :
    LeaseInv { w with
      restoreCredits := Function.update w.restoreCredits process (w.restoreCredits process - 1)
      views := w.views ++ [⟨process, .credited, none, false, true, none, []⟩] } := by
  have hmem : ∀ view ∈ w.views ++ [⟨process, .credited, none, false, true, none, []⟩],
      view ∈ w.views ∨ view = ⟨process, .credited, none, false, true, none, []⟩ := fun view hm ↦
    (List.mem_append.mp hm).imp id List.mem_singleton.mp
  have hat : ∀ (u : Nat) (view : View) (i : Nat),
      (w.views ++ [⟨process, .credited, none, false, true, none, []⟩])[u]? = some view →
      view.pin = some i → w.views[u]? = some view := by
    intro u view i hu hi
    by_cases hlt : u < w.views.length
    · rwa [List.getElem?_append_left hlt] at hu
    · rw [List.getElem?_append_right (by omega)] at hu
      rw [List.mem_singleton.mp (List.mem_of_getElem? hu)] at hi
      cases hi
  constructor
  case regular =>
    intro view hm hp
    rcases hmem view hm with hm | rfl
    · exact h.regular view hm hp
    · rfl
  case complete =>
    intro view hm
    rcases hmem view hm with hm | rfl
    · exact h.complete view hm
    · rfl
  case pinned =>
    intro view hm i hi
    rcases hmem view hm with hm | rfl
    · exact h.pinned view hm i hi
    · cases hi
  case intact =>
    intro view hm hp
    rcases hmem view hm with hm | rfl
    · exact h.intact view hm hp
    · exact absurd rfl hp
  case apart =>
    intro a b i viewA viewB ha hb hia hib
    exact h.apart a b i viewA viewB (hat a viewA i ha hia) (hat b viewB i hb hib) hia hib
  case owned =>
    intro i keys hi hk
    obtain ⟨view, hm, hview⟩ := h.owned i keys hi hk
    exact ⟨view, List.mem_append_left _ hm, hview⟩
  case credits =>
    intro p
    have hold := h.credits p
    dsimp only
    rw [List.countP_append, Function.update_apply]
    by_cases hp : p = process
    · subst hp
      simp only [if_pos, List.countP_singleton, decide_true, and_self]
      omega
    · simp only [if_neg hp, List.countP_singleton, Ne.symm hp, false_and, decide_false]
      exact hold
  case active =>
    intro p
    have hold := h.active p
    dsimp only
    rw [List.countP_append]
    simpa using hold

/-- The body of a view ends, and nothing that it holds changes. -/
theorem LeaseInv.finish {w : LeaseWorld} (h : LeaseInv w) {v : Nat} {view : View}
    (hv : w.views[v]? = some view) (hplace : view.place = .inside) {rank : RankState}
    (hr : Respects w.rank rank) :
    LeaseInv { w with
      rank := rank
      views := w.views.set v { view with place := .closing } } := by
  have hregular : view.Regular := h.regular view (List.mem_of_getElem? hv) (by rw [hplace]; decide)
  unfold View.Regular at hregular
  rw [hplace] at hregular
  exact (h.respects hr).move hv rfl rfl rfl rfl rfl (fun _ ↦ hregular) (fun _ ↦ rfl) fun _ ↦ rfl

/-- A view that is no longer counted takes one off the count of its process. -/
theorem LeaseInv.uncount {w : LeaseWorld} (h : LeaseInv w) {v : Nat} {view : View}
    (hv : w.views[v]? = some view) (hplace : view.place = .closing) :
    LeaseInv { w with
      activeRestores := Function.update w.activeRestores view.process
        (w.activeRestores view.process - 1)
      views := w.views.set v { view with place := .unpinning, counted := false } } := by
  obtain ⟨hcredit, hcounted, hpin⟩ := h.holds hv (by rw [hplace]; decide)
  rw [hplace] at hcredit hcounted hpin
  refine h.move hv rfl rfl rfl rfl rfl (fun _ ↦ ?_) (fun _ ↦ rfl) fun p ↦ ?_
  · unfold View.Regular
    dsimp only
    rw [hcredit, hpin]
    rfl
  · have hcount := h.active view.process
    have hpos : 0 < w.views.countP
        fun other ↦ other.process = view.process ∧ other.counted = true :=
      List.countP_pos_iff.mpr
        ⟨view, List.mem_of_getElem? hv, by simp [hcounted, ViewPlace.holds]⟩
    dsimp only
    rw [hcounted, Function.update_apply]
    by_cases hp : p = view.process
    · subst hp
      simp [ViewPlace.holds]
      omega
    · rw [if_neg hp]
      simp [Ne.symm hp]

/-- A view that cannot be uncounted keeps its pin, its count and its credit. -/
theorem LeaseInv.stranded {w : LeaseWorld} (h : LeaseInv w) {v : Nat} {view : View}
    (hv : w.views[v]? = some view) :
    LeaseInv { w with views := w.views.set v { view with place := .ended } } :=
  h.move hv rfl rfl rfl rfl rfl (fun hne ↦ absurd rfl hne) (fun _ ↦ rfl) fun _ ↦ rfl

/-- A closed descriptor pins nothing, and no other view has it. -/
theorem LeaseInv.unpin {w : LeaseWorld} (h : LeaseInv w) {v : Nat} {view : View}
    (hv : w.views[v]? = some view) (hplace : view.place = .unpinning) {i : Nat}
    (hi : view.pin = some i) :
    LeaseInv { w with
      rank := { w.rank with pins := w.rank.pins.set i [] }
      views := w.views.set v { view with place := .releasing, pin := none } } := by
  obtain ⟨hcredit, hcounted, -⟩ := h.holds hv (by rw [hplace]; decide)
  rw [hplace] at hcredit hcounted
  have hcomplete : view.Complete := h.complete view (List.mem_of_getElem? hv)
  refine h.replace hv rfl (fun _ ↦ ?_) hcomplete ?_ rfl (fun _ he ↦ (by cases he))
    (fun hp ↦ absurd rfl hp) (fun _ _ _ _ _ _ he ↦ (by cases he)) ?_ (fun _ ↦ rfl) fun _ ↦ rfl
  · unfold View.Regular
    dsimp only
    rw [hcredit, hcounted]
    rfl
  · intro u other j hne hu hj
    refine List.getElem?_set_ne fun hij ↦ hne ?_
    exact h.apart u v j other view hu hv hj (hij ▸ hi)
  · intro j keys hj hk
    dsimp only at hj
    by_cases hij : i = j
    · rw [hij, List.getElem?_set] at hj
      simp only [if_pos] at hj
      split at hj
      · cases hj
        exact absurd rfl hk
      · cases hj
    · rw [List.getElem?_set_ne hij] at hj
      obtain ⟨other, hm, hother⟩ := h.owned j keys hj hk
      obtain ⟨u, hu⟩ := List.mem_iff_getElem?.mp hm
      refine .inr ⟨u, other, ?_, hu, hother⟩
      rintro rfl
      rw [hv] at hu
      cases hu
      exact hij (Option.some.inj (hi.symm.trans hother))

/-- A view that ends gives its credit back. -/
theorem LeaseInv.release {w : LeaseWorld} (h : LeaseInv w) {v : Nat} {view : View}
    (hv : w.views[v]? = some view) (hplace : view.place = .releasing) :
    LeaseInv { w with
      restoreCredits := Function.update w.restoreCredits view.process
        (w.restoreCredits view.process + 1)
      views := w.views.set v { view with place := .ended, credit := false } } := by
  obtain ⟨hcredit, -, -⟩ := h.holds hv (by rw [hplace]; decide)
  rw [hplace] at hcredit
  refine h.move hv rfl rfl rfl rfl rfl (fun hne ↦ absurd rfl hne) (fun p ↦ ?_) fun _ ↦ rfl
  dsimp only
  rw [hcredit, Function.update_apply]
  by_cases hp : p = view.process
  · subst hp
    simp [ViewPlace.holds]
  · rw [if_neg hp]
    simp [Ne.symm hp]

/-- Every action keeps the invariant. -/
theorem LeaseInv.act {w : LeaseWorld} (h : LeaseInv w) (action : LeaseAction) :
    LeaseInv (leaseAct config w action) := by
  cases action with
  | root hooked op => exact h.respects (op.respects config hooked w.rank)
  | acquire process =>
    dsimp only [leaseAct]
    split
    · exact h
    · next hfree => exact h.acquire hfree
  | enter v hooked entryId pinFails =>
    dsimp only [leaseAct]
    split
    · next view hv =>
      split
      · next hplace => exact h.enter hv hplace hooked entryId pinFails
      · exact h
    · exact h
  | finish v touched =>
    dsimp only [leaseAct]
    split
    · next view hv =>
      split
      · next hplace =>
        cases touched with
        | none => exact h.finish hv hplace (.refl _)
        | some times => exact h.finish hv hplace (respects_touchAll times w.rank _)
      · exact h
    · exact h
  | uncount v locked =>
    dsimp only [leaseAct]
    split
    · next view hv =>
      split
      · next hplace =>
        split
        · exact h.uncount hv hplace
        · exact h.stranded hv
      · exact h
    · exact h
  | unpin v =>
    dsimp only [leaseAct]
    split
    · next view hv =>
      split
      · next hplace =>
        obtain ⟨-, -, hpin⟩ := h.holds hv (by rw [hplace]; decide)
        rw [hplace] at hpin
        obtain ⟨i, hi⟩ := Option.isSome_iff_exists.mp hpin
        have hunpin := h.unpin hv hplace hi
        rw [hi]
        exact hunpin
      · exact h
    · exact h
  | release v =>
    dsimp only [leaseAct]
    split
    · next view hv =>
      split
      · next hplace => exact h.release hv hplace
      · exact h
    · exact h

/-! ### Runs -/

/-- What becomes of a view that has entered: it keeps its snapshot, and its pin until it has none. -/
structure View.Follows (old new : View) : Prop where
  place : new.place ≠ .credited
  snapshot : new.snapshot = old.snapshot
  found : new.found = old.found
  pin : new.pin = old.pin ∨ new.pin = none

private theorem View.Follows.refl {view : View} (h : view.place ≠ .credited) : view.Follows view :=
  ⟨h, rfl, rfl, .inl rfl⟩

private theorem View.Follows.trans {a b c : View} (h : a.Follows b) (h' : b.Follows c) :
    a.Follows c := by
  refine ⟨h'.place, h'.snapshot.trans h.snapshot, h'.found.trans h.found, ?_⟩
  rcases h'.pin with hc | hc
  · rw [hc]
    exact h.pin
  · exact .inr hc

/-- The namespace lock is obtained where a view is left. -/
def LeaseAction.Locked : LeaseAction → Prop
  | .uncount _ locked => locked = true
  | _ => True

/-- An action leaves the views, adds one, or moves one on. -/
theorem views_act (w : LeaseWorld) (action : LeaseAction) :
    (leaseAct config w action).views = w.views ∨
      (∃ new, new.place = .credited ∧ (leaseAct config w action).views = w.views ++ [new]) ∨
      ∃ v old new, w.views[v]? = some old ∧
        (leaseAct config w action).views = w.views.set v new ∧
        (old.place ≠ .credited → old.Follows new) ∧
        (action.Locked → new.place = .ended → old.place = .releasing ∧
          new = { old with place := .ended, credit := false }) := by
  cases action with
  | root hooked op => exact .inl rfl
  | acquire process =>
    dsimp only [leaseAct]
    split
    · exact .inl rfl
    · exact .inr (.inl ⟨_, rfl, rfl⟩)
  | enter v hooked entryId pinFails =>
    dsimp only [leaseAct]
    split
    · next view hv =>
      split
      · next hplace =>
        refine .inr (.inr ⟨v, view, ?_⟩)
        unfold enterView
        split
        · exact ⟨_, hv, rfl, fun hne ↦ absurd hplace hne, fun _ he ↦ (by cases he)⟩
        · split
          · exact ⟨_, hv, rfl, fun hne ↦ absurd hplace hne, fun _ he ↦ (by cases he)⟩
          · exact ⟨_, hv, rfl, fun hne ↦ absurd hplace hne, fun _ he ↦ (by cases he)⟩
      · exact .inl rfl
    · exact .inl rfl
  | finish v touched =>
    dsimp only [leaseAct]
    split
    · next view hv =>
      split
      · exact .inr (.inr ⟨v, view, _, hv, rfl, fun _ ↦ ⟨by simp, rfl, rfl, .inl rfl⟩,
          fun _ he ↦ (by cases he)⟩)
      · exact .inl rfl
    · exact .inl rfl
  | uncount v locked =>
    dsimp only [leaseAct]
    split
    · next view hv =>
      split
      · split
        · exact .inr (.inr ⟨v, view, _, hv, rfl, fun _ ↦ ⟨by simp, rfl, rfl, .inl rfl⟩,
            fun _ he ↦ (by cases he)⟩)
        · next hlock =>
          exact .inr (.inr ⟨v, view, _, hv, rfl, fun _ ↦ ⟨by simp, rfl, rfl, .inl rfl⟩,
            fun hlocked _ ↦ absurd hlocked hlock⟩)
      · exact .inl rfl
    · exact .inl rfl
  | unpin v =>
    dsimp only [leaseAct]
    split
    · next view hv =>
      split
      · exact .inr (.inr ⟨v, view, _, hv, rfl, fun _ ↦ ⟨by simp, rfl, rfl, .inr rfl⟩,
          fun _ he ↦ (by cases he)⟩)
      · exact .inl rfl
    · exact .inl rfl
  | release v =>
    dsimp only [leaseAct]
    split
    · next view hv =>
      split
      · next hplace =>
        exact .inr (.inr ⟨v, view, _, hv, rfl, fun _ ↦ ⟨by simp, rfl, rfl, .inl rfl⟩,
          fun _ _ ↦ ⟨hplace, rfl⟩⟩)
      · exact .inl rfl
    · exact .inl rfl

/-- Markers of pinned files stay. -/
theorem markers_act (w : LeaseWorld) (action : LeaseAction) {key : Digest}
    (hb : busy w.rank key = true) (hk : key ∈ w.rank.files.keys)
    (hm : key ∈ w.rank.markers.keys) : key ∈ (leaseAct config w action).rank.markers.keys := by
  cases action with
  | root hooked op => exact (op.respects config hooked w.rank).markers key hb hk hm
  | acquire process =>
    dsimp only [leaseAct]
    split <;> exact hm
  | enter v hooked entryId pinFails =>
    have hlookup : key ∈ (lookup config hooked w.rank entryId).1.markers.keys :=
      (quarantines_lookup hooked w.rank entryId).respects.markers key hb hk hm
    dsimp only [leaseAct]
    split
    · split
      · unfold enterView
        split
        · next hview =>
          rw [restoreView_error hview]
          exact hlookup
        · next hview =>
          rw [restoreView_ok hview]
          split <;> exact hlookup
      · exact hm
    · exact hm
  | finish v touched =>
    dsimp only [leaseAct]
    split
    · split
      · cases touched with
        | none => exact hm
        | some times => exact (respects_touchAll times w.rank _).markers key hb hk hm
      · exact hm
    · exact hm
  | uncount v locked =>
    dsimp only [leaseAct]
    split
    · split
      · split <;> exact hm
      · exact hm
    · exact hm
  | unpin v =>
    dsimp only [leaseAct]
    split
    · split <;> exact hm
    · exact hm
  | release v =>
    dsimp only [leaseAct]
    split
    · split <;> exact hm
    · exact hm

private theorem follows_act {w : LeaseWorld} {v : Nat} {view : View} (hv : w.views[v]? = some view)
    (hplace : view.place ≠ .credited) (action : LeaseAction) :
    ∃ new, (leaseAct config w action).views[v]? = some new ∧ view.Follows new := by
  have hlt := (List.getElem?_eq_some_iff.mp hv).1
  rcases @views_act config w action with he | ⟨added, -, he⟩ | ⟨u, old, new, hu, he, hmove, -⟩
  · rw [he]
    exact ⟨view, hv, .refl hplace⟩
  · rw [he, List.getElem?_append_left hlt]
    exact ⟨view, hv, .refl hplace⟩
  · rw [he]
    by_cases huv : u = v
    · subst huv
      rw [hv] at hu
      cases hu
      rw [List.getElem?_set_self hlt]
      exact ⟨new, rfl, hmove hplace⟩
    · rw [List.getElem?_set_ne huv]
      exact ⟨view, hv, .refl hplace⟩

private theorem follows_run {w : LeaseWorld} {v : Nat} {view : View} (hv : w.views[v]? = some view)
    (hplace : view.place ≠ .credited) (actions : List LeaseAction) :
    ∃ new, (leaseRun config w actions).views[v]? = some new ∧ view.Follows new := by
  induction actions generalizing w view with
  | nil => exact ⟨view, hv, .refl hplace⟩
  | cons action actions ih =>
    obtain ⟨mid, hmid, hfollows⟩ := @follows_act config _ _ _ hv hplace action
    obtain ⟨new, hnew, hrest⟩ := ih hmid hfollows.place
    exact ⟨new, hnew, hfollows.trans hrest⟩

private theorem LeaseInv.run {w : LeaseWorld} (h : LeaseInv w) (actions : List LeaseAction) :
    LeaseInv (leaseRun config w actions) := by
  induction actions generalizing w with
  | nil => exact h
  | cons action actions ih => exact ih (h.act action)

/-- The file of a key that a pinned view has. -/
theorem LeaseInv.file_of_mem {w : LeaseWorld} (h : LeaseInv w) {view : View} (hv : view ∈ w.views)
    (hpin : view.pin ≠ none) {key : Digest} (hk : key ∈ view.keys) :
    ∃ found file, (key, found) ∈ view.found ∧ w.rank.files.get? key = some file ∧
      SameBytes found file := by
  rw [← h.complete view hv] at hk
  obtain ⟨⟨k, found⟩, he, rfl⟩ := List.mem_map.mp hk
  obtain ⟨file, hf, hs⟩ := h.intact view hv hpin _ he
  exact ⟨found, file, he, hf, hs⟩

private theorem LeaseInv.busy_of_pinned {w : LeaseWorld} (h : LeaseInv w) {view : View}
    (hv : view ∈ w.views) (hpin : view.pin ≠ none) {key : Digest} (hk : key ∈ view.keys) :
    busy w.rank key = true := by
  obtain ⟨i, hi⟩ := Option.ne_none_iff_exists'.mp hpin
  exact busy_of_mem (h.pinned view hv i hi) hk

private theorem LeaseInv.marked_act {w : LeaseWorld} (h : LeaseInv w) {view : View}
    (hv : view ∈ w.views) (hpin : view.pin ≠ none) {key : Digest} (hk : key ∈ view.keys)
    (hm : key ∈ w.rank.markers.keys) (action : LeaseAction) :
    key ∈ (leaseAct config w action).rank.markers.keys := by
  obtain ⟨_, file, -, hf, -⟩ := h.file_of_mem hv hpin hk
  exact markers_act w action (h.busy_of_pinned hv hpin hk)
    ((OrderedDict.mem_keys_iff _ _).mpr ⟨file, hf⟩) hm

/-- Markers stay as long as a view is pinned. -/
theorem LeaseInv.marked_run {w : LeaseWorld} (h : LeaseInv w) {v : Nat} {view new : View}
    (hv : w.views[v]? = some view) (hplace : view.place ≠ .credited) {actions : List LeaseAction}
    (hnew : (leaseRun config w actions).views[v]? = some new) (hpin : new.pin ≠ none) {key : Digest}
    (hk : key ∈ view.keys) (hm : key ∈ w.rank.markers.keys) :
    key ∈ (leaseRun config w actions).rank.markers.keys := by
  induction actions generalizing w view with
  | nil => exact hm
  | cons action actions ih =>
    obtain ⟨mid, hmid, hfollows⟩ := @follows_act config _ _ _ hv hplace action
    -- the view is still pinned in between, since it never gets a pin back
    have hpinned : view.pin ≠ none := by
      obtain ⟨last, hlast, hrest⟩ := @follows_run config _ _ _ hv hplace (action :: actions)
      rw [hnew] at hlast
      cases hlast
      rcases hrest.pin with he | he
      · rwa [← he]
      · exact absurd he hpin
    have hkeys : mid.keys = view.keys := congrArg resultKeys hfollows.snapshot
    exact ih (h.act action) hmid hfollows.place hnew (hkeys ▸ hk)
      (h.marked_act (List.mem_of_getElem? hv) hpinned hk hm action)

/-- A view that is left under the lock keeps nothing. -/
theorem LeaseInv.regular_act {w : LeaseWorld} (h : LeaseInv w)
    (hall : ∀ view ∈ w.views, view.Regular) {action : LeaseAction} (hlocked : action.Locked) :
    ∀ view ∈ (leaseAct config w action).views, view.Regular := by
  intro view hm
  by_cases hplace : view.place = .ended
  · rcases @views_act config w action with he | ⟨added, hadded, he⟩ | ⟨u, old, new, hu, he, -, hend⟩
    · exact hall view (he ▸ hm)
    · rw [he] at hm
      rcases List.mem_append.mp hm with hm | hm
      · exact hall view hm
      · rw [List.mem_singleton.mp hm, hadded] at hplace
        cases hplace
    · rw [he] at hm
      obtain ⟨i, hi⟩ := List.mem_iff_getElem?.mp hm
      rcases getElem?_set_cases hi with ⟨-, rfl⟩ | ⟨-, hi⟩
      · obtain ⟨hold, rfl⟩ := hend hlocked hplace
        have hregular := hall old (List.mem_of_getElem? hu)
        unfold View.Regular at *
        rw [hold, ViewPlace.holds, Prod.mk.injEq] at hregular
        dsimp only
        rw [hregular.2]
        rfl
      · exact hall view (List.mem_of_getElem? hi)
  · exact (h.act action).regular view hm hplace

private theorem LeaseInv.regular_run {w : LeaseWorld} (h : LeaseInv w)
    (hall : ∀ view ∈ w.views, view.Regular) {actions : List LeaseAction}
    (hlocked : ∀ action ∈ actions, action.Locked) :
    ∀ view ∈ (leaseRun config w actions).views, view.Regular := by
  induction actions generalizing w with
  | nil => exact hall
  | cons action actions ih =>
    exact ih (h.act action) (h.regular_act hall (hlocked action (List.mem_cons_self ..)))
      fun a ha ↦ hlocked a (List.mem_cons_of_mem _ ha)

/-- A root without views, whatever its files. -/
def LeaseWorld.opened (rank : RankState) : LeaseWorld :=
  ⟨{ rank with pins := [] }, fun _ ↦ 2, fun _ ↦ 0, []⟩

private theorem leaseInv_opened (rank : RankState) : LeaseInv (LeaseWorld.opened rank) := by
  constructor
  case owned => exact fun _ _ hi ↦ (by cases hi)
  case apart => exact fun _ _ _ _ _ hu ↦ (by cases hu)
  case credits => exact fun _ ↦ rfl
  case active => exact fun _ ↦ rfl
  all_goals exact fun _ hv ↦ (by cases hv)

private theorem SameBytes.symm {a b : TokenFile} (h : SameBytes a b) : SameBytes b a := by
  unfold SameBytes at *
  rw [h]

private theorem pinOffset_le (key : Digest) : pinOffset key ≤ 2 ^ 63 - 2 := by
  unfold pinOffset
  have := Nat.mod_lt (key.toNat / 2 ^ 192) (by decide : 0 < 2 ^ 62)
  omega

/-- A key is busy when a pinned view has a key with its offset. -/
theorem LeaseInv.busy_iff {w : LeaseWorld} (h : LeaseInv w) (key : Digest) :
    busy w.rank key = true ↔ ∃ view ∈ w.views, view.pin ≠ none ∧
      ∃ pinned ∈ view.keys, pinOffset pinned = pinOffset key := by
  constructor
  · intro hb
    obtain ⟨keys, hk, hb⟩ := List.any_eq_true.mp hb
    obtain ⟨pinned, hp, hoff⟩ := List.any_eq_true.mp hb
    obtain ⟨i, hi⟩ := List.mem_iff_getElem?.mp hk
    obtain ⟨view, hv, hpin⟩ := h.owned i keys hi (List.ne_nil_of_mem hp)
    have hkeys := h.pinned view hv i hpin
    rw [hi, Option.some.injEq] at hkeys
    exact ⟨view, hv, by rw [hpin]; simp, pinned, hkeys ▸ hp, of_decide_eq_true hoff⟩
  · rintro ⟨view, hv, hpin, pinned, hp, hoff⟩
    obtain ⟨i, hi⟩ := Option.ne_none_iff_exists'.mp hpin
    have hkeys := List.mem_of_getElem? (h.pinned view hv i hi)
    exact List.any_eq_true.mpr ⟨_, hkeys, List.any_eq_true.mpr ⟨pinned, hp, by simp [hoff]⟩⟩

/-- While a view is pinned, every file of its snapshot keeps its name and its bytes, and a marker
that it gets. When views are left under the lock, each place holds what belongs to it, so that a
view that has ended holds nothing, and credits and counts add up. A pin locks a byte of a file
offset, and exactly the keys with the offset of a pinned key are busy. -/
theorem pinned_chain_kept (config : StoreConfig) (rank : RankState)
    (before after : List LeaseAction) (hlocked : ∀ action ∈ before ++ after, action.Locked) :
    let w := leaseRun config (.opened rank) before
    let w' := leaseRun config w after
    (∀ (v : Nat) (view view' : View), w.views[v]? = some view → w'.views[v]? = some view' →
      view.pin ≠ none → view'.pin ≠ none →
      view'.snapshot = view.snapshot ∧ ∀ key ∈ view.keys, ∃ file file',
        w.rank.files.get? key = some file ∧ w'.rank.files.get? key = some file' ∧
        SameBytes file file' ∧ (key ∈ w.rank.markers.keys → key ∈ w'.rank.markers.keys)) ∧
    (∀ view ∈ w'.views, (view.credit, view.counted, view.pin.isSome) = view.place.holds) ∧
    (∀ p, w'.restoreCredits p +
      w'.views.countP (fun view ↦ view.process = p ∧ view.credit = true) = 2) ∧
    (∀ p, w'.activeRestores p =
      w'.views.countP fun view ↦ view.process = p ∧ view.counted = true) ∧
    (∀ key, pinOffset key ≤ 2 ^ 63 - 2) ∧
    ∀ key, busy w'.rank key = true ↔ ∃ view ∈ w'.views, view.pin ≠ none ∧
      ∃ pinned ∈ view.keys, pinOffset pinned = pinOffset key := by
  intro w w'
  have hw : LeaseInv w := (leaseInv_opened rank).run before
  have hw' : LeaseInv w' := hw.run after
  have hregular : ∀ view ∈ w.views, view.Regular :=
    (leaseInv_opened rank).regular_run (fun _ hv ↦ (by cases hv))
      fun a ha ↦ hlocked a (List.mem_append_left _ ha)
  refine ⟨fun v view view' hv hv' hpin hpin' ↦ ?_, ?_, hw'.credits, hw'.active, pinOffset_le,
    hw'.busy_iff⟩
  · have hmem := List.mem_of_getElem? hv
    have hplace : view.place ≠ .credited := by
      intro hcredited
      have hholds := hregular view hmem
      unfold View.Regular at hholds
      rw [hcredited, ViewPlace.holds, Prod.mk.injEq, Prod.mk.injEq] at hholds
      exact hpin (by simpa using hholds.2.2)
    obtain ⟨new, hnew, hfollows⟩ := follows_run hv hplace after
    obtain rfl : view' = new := Option.some.inj (hv'.symm.trans hnew)
    refine ⟨hfollows.snapshot, fun key hk ↦ ?_⟩
    obtain ⟨found, file, hfound, hf, hs⟩ := hw.file_of_mem hmem hpin hk
    rw [← hfollows.found] at hfound
    obtain ⟨file', hf', hs'⟩ := hw'.intact view' (List.mem_of_getElem? hv') hpin' _ hfound
    exact ⟨file, file', hf, hf', hs.symm.trans hs',
      hw.marked_run hv hplace hv' hpin' hk⟩
  · exact hw.regular_run hregular fun a ha ↦ hlocked a (List.mem_append_right _ ha)

end

/-! ### A sample run -/

/-- A store with one full group. -/
def leaseConfig : StoreConfig :=
  ⟨Layout.fullSampleLayout, 64, fun _ ↦ 1, Layout.sampleLayer.pageSizeBytes_pos⟩

/-- An empty root. -/
def leaseRank : RankState :=
  ⟨.empty, .empty, [], .create Quorum.sampleReporterConfig⟩

/-- The key of the one chunk. -/
def leaseKey : Digest := .ofNat (2 ^ 192)

/-- One chunk is published and a view enters. -/
def leaseEntered : List LeaseAction :=
  [.root true (.publishChunk ⟨fun _ ↦ .published, fun _ ↦ 1, fun _ ↦ 10, fun _ ↦ 0⟩ leaseKey
      ⟨.data, none, 256⟩),
    .acquire 0, .enter 0 true leaseKey false]

/-- The file is found bad and evicted by another process, and the view is left. -/
def leaseLeft : List LeaseAction :=
  [.root false (.quarantineBad leaseKey), .root false (.evict leaseKey), .finish 0 none,
    .uncount 0 true]

/-- The key is withdrawn while the view is open, and the file keeps its bytes. -/
theorem pinned_chain_kept_marked :
    let w := leaseRun leaseConfig (.opened leaseRank) leaseEntered
    let w' := leaseRun leaseConfig w leaseLeft
    leaseKey ∉ w.rank.markers.keys ∧ leaseKey ∈ w'.rank.markers.keys ∧
    ∃ file file', w.rank.files.get? leaseKey = some file ∧
      w'.rank.files.get? leaseKey = some file' ∧ SameBytes file file' := by
  intro w w'
  have hlocked : ∀ action ∈ leaseEntered ++ leaseLeft, action.Locked := by
    intro action ha
    simp only [leaseEntered, leaseLeft, List.cons_append, List.nil_append, List.mem_cons,
      List.not_mem_nil, or_false] at ha
    rcases ha with rfl | rfl | rfl | rfl | rfl | rfl | rfl
    all_goals simp [LeaseAction.Locked]
  obtain ⟨hkept, -⟩ := pinned_chain_kept leaseConfig leaseRank leaseEntered leaseLeft hlocked
  have hview : (w.views[0]?.map fun view ↦ (view.pin, view.keys)) = some (some 0, [leaseKey]) := by
    decide +kernel
  have hview' : (w'.views[0]?.map fun view ↦ view.pin) = some (some 0) := by decide +kernel
  obtain ⟨view, hv, hpair⟩ := Option.map_eq_some_iff.mp hview
  obtain ⟨view', hv', hpin'⟩ := Option.map_eq_some_iff.mp hview'
  rw [Prod.mk.injEq] at hpair
  obtain ⟨-, hfiles⟩ := hkept 0 view view' hv hv' (by rw [hpair.1]; simp) (by rw [hpin']; simp)
  obtain ⟨file, file', hf, hf', hs, -⟩ := hfiles leaseKey (by rw [hpair.2]; simp)
  exact ⟨by decide +kernel, by decide +kernel, file, file', hf, hf', hs⟩

/-- A view whose exit cannot open the lock ends with its pin, its credit and its count. -/
theorem view_left_unlocked :
    let w := leaseRun leaseConfig (.opened leaseRank)
      (leaseEntered ++ [.finish 0 none, .uncount 0 false])
    w.views.map (fun view ↦ (view.place, view.pin, view.counted, view.credit)) =
      [(.ended, some 0, true, true)] ∧
    w.restoreCredits 0 = 1 ∧ w.activeRestores 0 = 1 ∧ busy w.rank leaseKey = true ∧
    (evict true w.rank leaseKey).2 = false := by
  decide +kernel

end SpoolCache.Store
