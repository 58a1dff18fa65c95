import Mathlib.Logic.Relation
import SpoolCache.Quorum.Emission
import SpoolCache.Store.TokenFiles

/-!
# The withdrawal discipline

What may happen to a rank root between two reports, said once. A process that is not the owner
of the inventory only takes `Safe` steps: it unlinks a file after it has marked its key, and
clears a marker only while the file is there. The owner also publishes, but only keys it does
not hold, and offers only entries whose file has that span. Under these rules every held entry
stays `Backed`: its file has its span, or its key is marked.
-/

namespace SpoolCache.Store

open SpoolCache.Base SpoolCache.Quorum
open InventoryReporter (Mutation)

/-! ### Honest inventories -/

/-- The file of a key has a header with the span. -/
def HeaderSpan (s : RankState) (key : Digest) (span : Nat) : Prop :=
  ∃ file header, s.files.get? key = some file ∧ file.header = some header ∧
    header.spanTokens = span

/-- The file of a key has a header with the span, and the key is not withdrawn. -/
def Live (s : RankState) (key : Digest) (span : Nat) : Prop :=
  HeaderSpan s key span ∧ key ∉ s.markers.keys

/-- The file of a key has the span, or it is gone and the key is withdrawn. -/
structure Backed (s : RankState) (key : Digest) (span : Nat) : Prop where
  absent : s.files.get? key = none → key ∈ s.markers.keys
  present : ∀ file, s.files.get? key = some file →
    ∃ header, file.header = some header ∧ header.spanTokens = span

/-- Every held entry is backed. -/
def Honest (s : RankState) : Prop :=
  ∀ key span, s.reporter.held.get? key = some span → Backed s key span.val

/-- A file with a header backs its key. -/
theorem HeaderSpan.backed {s : RankState} {key : Digest} {span : Nat}
    (h : HeaderSpan s key span) : Backed s key span := by
  obtain ⟨file, header, hf, hh, hs⟩ := h
  refine ⟨?_, ?_⟩
  · intro hn
    rw [hn] at hf
    cases hf
  · intro file' hf'
    rw [hf', Option.some.injEq] at hf
    rw [hf]
    exact ⟨header, hh, hs⟩

/-- A backed key without a marker is live. -/
theorem Backed.live {s : RankState} {key : Digest} {span : Nat} (h : Backed s key span)
    (hm : key ∉ s.markers.keys) : Live s key span := by
  refine ⟨?_, hm⟩
  cases hf : s.files.get? key with
  | none => exact absurd (h.absent hf) hm
  | some file =>
    obtain ⟨header, hh, hs⟩ := h.present file hf
    exact ⟨file, header, hf, hh, hs⟩

/-! ### Steps -/

section

variable (fileOk : Digest → TokenFile → Prop)

/-- A step that any process may take. `fileOk` says what files may be. -/
inductive Safe : RankState → RankState → Prop where
  | mark (s : RankState) (key : Digest) : Safe s (markWithdrawn s key)
  | clear (s : RankState) (key : Digest) (h : key ∈ s.files.keys) : Safe s (clearWithdrawal s key)
  | unlink (s : RankState) (key : Digest) (h : key ∈ s.markers.keys) :
      Safe s { s with files := s.files.erase key }
  | rewrite (s : RankState) (key : Digest) (old new : TokenFile)
      (h : s.files.get? key = some old) (hh : new.header = old.header)
      (hf : fileOk key old → fileOk key new) : Safe s { s with files := s.files.set key new }
  | pin (s : RankState) (pins : List (List Digest)) : Safe s { s with pins := pins }

/-- The last object of a list with a key has the span. -/
def LastOffer (objects : List TokenFileDescriptor) (key : Digest) (span : Nat) : Prop :=
  ∃ before o after, objects = before ++ o :: after ∧ o.key = key ∧ o.spanTokens = span ∧
    key ∉ after.map TokenFileDescriptor.key

/-- `reporter.add` of every object in order, `connector.py:772–774`. -/
def addObjects (r : InventoryReporter) (objects : List TokenFileDescriptor) : InventoryReporter :=
  objects.foldl (fun r o ↦ r.mutate (.add (some o.key) (some o.spanTokens))) r

/-- An inventory record of a scanned offer. -/
def rawOffer (offer : Digest × Nat) : RawEntry := .pair (some offer.1) (some offer.2)

/-- `reporter.replace` with scanned offers. -/
def replaceOffers (r : InventoryReporter) (offers : List (Digest × Nat)) : InventoryReporter :=
  r.mutate (.replace (offers.map rawOffer))

/-- A step of the owner of the inventory. -/
inductive Change : RankState → RankState → Prop where
  | safe {s s' : RankState} (h : Safe fileOk s s') : Change s s'
  | release (s : RankState) (key : Digest) (h : key ∉ s.reporter.held.keys) :
      Change s (clearWithdrawal s key)
  | publish (s : RankState) (key : Digest) (new : TokenFile)
      (h : key ∉ s.reporter.held.keys) (hf : fileOk key new) :
      Change s { s with files := s.files.set key new }
  | withdraw (s : RankState) (key : Digest) :
      Change s { s with reporter := s.reporter.remove key }
  | offer (s : RankState) (objects : List TokenFileDescriptor)
      (hv : ∀ o ∈ objects, 0 < o.spanTokens ∧ o.spanTokens ≤ maxCounter)
      (h : ∀ key span, LastOffer objects key span → HeaderSpan s key span) :
      Change s { s with reporter := addObjects s.reporter objects }
  | replace (s : RankState) (offers : List (Digest × Nat))
      (h : ∀ e ∈ offers, Backed s e.1 e.2) :
      Change s { s with reporter := replaceOffers s.reporter offers }

/-- Any number of steps of any process. -/
abbrev Safes : RankState → RankState → Prop := Relation.ReflTransGen (Safe fileOk)

/-- Any number of steps of the owner. -/
abbrev Changes : RankState → RankState → Prop := Relation.ReflTransGen (Change fileOk)

variable {fileOk}

/-- Safe steps are changes that any process may make. -/
theorem Safes.changes {s s' : RankState} (h : Safes fileOk s s') : Changes fileOk s s' :=
  Relation.ReflTransGen.mono (fun _ _ hstep ↦ Change.safe hstep) _ _ h

/-! ### Entries stay backed -/

private theorem Safe.reporter_eq {s s' : RankState} (h : Safe fileOk s s') : s'.reporter =
      s.reporter := by
  cases h <;> rfl

/-- A step of any process keeps every backed entry backed. -/
theorem Safe.backed {s s' : RankState} (h : Safe fileOk s s') {key : Digest} {span : Nat}
    (hb : Backed s key span) : Backed s' key span := by
  cases h with
  | mark k =>
    refine ⟨fun hn ↦ ?_, hb.present⟩
    exact (OrderedDict.mem_keys_set _ _ _ _).mpr (.inr (hb.absent hn))
  | clear k hk =>
    refine ⟨fun hn ↦ ?_, hb.present⟩
    apply (OrderedDict.mem_keys_erase _ _ _).mpr
    refine ⟨?_, hb.absent hn⟩
    rintro rfl
    exact (OrderedDict.get?_eq_none_iff _ _).mp hn hk
  | unlink k hk =>
    refine ⟨fun hn ↦ ?_, ?_⟩
    · rw [OrderedDict.get?_erase] at hn
      split at hn
      · next he => exact he ▸ hk
      · exact hb.absent hn
    · intro f hf
      rw [OrderedDict.get?_erase] at hf
      split at hf
      · cases hf
      · exact hb.present f hf
  | rewrite k old new hold hh hf =>
    refine ⟨fun hn ↦ ?_, ?_⟩
    · rw [OrderedDict.get?_set] at hn
      split at hn
      · cases hn
      · exact hb.absent hn
    · intro f hfile
      rw [OrderedDict.get?_set] at hfile
      split at hfile
      · next he =>
        cases hfile
        rw [hh]
        exact hb.present old (he ▸ hold)
      · exact hb.present f hfile
  | pin pins => exact ⟨hb.absent, hb.present⟩

/-- Safe steps leave the reporter alone. -/
theorem Safes.reporter_eq {s s' : RankState} (h : Safes fileOk s s') :
    s'.reporter = s.reporter := by
  induction h with
  | refl => rfl
  | tail _ hstep ih => rw [hstep.reporter_eq, ih]

/-- Safe steps keep a key backed. -/
theorem Safes.backed {s s' : RankState} (h : Safes fileOk s s') {key : Digest} {span : Nat}
    (hb : Backed s key span) : Backed s' key span := by
  induction h with
  | refl => exact hb
  | tail _ hstep ih => exact hstep.backed ih

/-! ### What the owner holds -/

/-- Removing a key tells of nothing new. -/
theorem held_remove {r : InventoryReporter} {key a : Digest} {span : Span}
    (h : (r.remove key).held.get? a = some span) : a ≠ key ∧ r.held.get? a = some span := by
  change (r.held.erase key).get? a = some span at h
  rw [OrderedDict.get?_erase] at h
  split at h
  · cases h
  · next hne => exact ⟨hne, h⟩

private theorem subDict_popOldest (held : Image) :
    OrderedDict.SubDict (InventoryReporter.popOldest held) held := by
  unfold InventoryReporter.popOldest
  split
  · exact .refl held
  · exact (OrderedDict.SubDict.refl held).erase_left _

private theorem validateSpan_nat {n : Nat} (hp : 0 < n) (hm : n ≤ maxCounter) :
    validateSpan (some (n : Int)) = .ok ⟨n, hp, hm⟩ := validateSpan_val ⟨n, hp, hm⟩

private theorem held_add {r : InventoryReporter} {key a : Digest} {n : Nat} {span : Span}
    (hp : 0 < n) (hm : n ≤ maxCounter)
    (h : (r.mutate (.add (some key) (some n))).held.get? a = some span) :
    (a = key ∧ span.val = n) ∨ (a ≠ key ∧ r.held.get? a = some span) := by
  simp only [InventoryReporter.mutate, InventoryReporter.add, validateEntry,
    validateSpan_nat hp hm, bind, Except.bind, pure, Except.pure] at h
  rw [OrderedDict.get?_set] at h
  split at h
  · next he =>
    cases h
    exact .inl ⟨he, rfl⟩
  · next hne =>
    refine .inr ⟨hne, ?_⟩
    have hsub : OrderedDict.SubDict (r.held.erase key) r.held :=
      (OrderedDict.SubDict.refl _).erase_left key
    split at h
    · exact hsub a span (subDict_popOldest _ a span h)
    · exact hsub a span h

private theorem LastOffer.append {l : List TokenFileDescriptor} {key : Digest} {span : Nat}
    (h : LastOffer l key span) {more : List TokenFileDescriptor}
    (hn : key ∉ more.map TokenFileDescriptor.key) : LastOffer (l ++ more) key span := by
  obtain ⟨before, o, after, rfl, hk, hs, hafter⟩ := h
  refine ⟨before, o, after ++ more, by simp, hk, hs, ?_⟩
  rw [List.map_append, List.mem_append]
  exact fun hmem ↦ hmem.elim hafter hn

/-- The last offer in a concatenation is the last one of its second part, or of its first part
when the second one does not mention the key. -/
theorem LastOffer.of_append {l more : List TokenFileDescriptor} {key : Digest} {span : Nat}
    (h : LastOffer (l ++ more) key span) :
    LastOffer more key span ∨
      (LastOffer l key span ∧ key ∉ more.map TokenFileDescriptor.key) := by
  obtain ⟨before, o, after, he, hk, hs, hafter⟩ := h
  rcases List.append_eq_append_iff.mp he with ⟨mid, rfl, rfl⟩ | ⟨mid, rfl, hm⟩
  · exact .inl ⟨mid, o, after, rfl, hk, hs, hafter⟩
  · cases mid with
    | nil =>
      rw [List.nil_append] at hm
      exact .inl ⟨[], o, after, by rw [← hm]; rfl, hk, hs, hafter⟩
    | cons m mid =>
      rw [List.cons_append, List.cons.injEq] at hm
      obtain ⟨rfl, rfl⟩ := hm
      rw [List.map_append, List.mem_append, not_or] at hafter
      exact .inr ⟨⟨before, o, mid, rfl, hk, hs, hafter.1⟩, hafter.2⟩

/-- After adding objects, a held entry is the last offer of its key or an older entry. -/
theorem held_addObjects {r : InventoryReporter} {objects : List TokenFileDescriptor}
    (hv : ∀ o ∈ objects, 0 < o.spanTokens ∧ o.spanTokens ≤ maxCounter) {a : Digest} {span : Span}
    (h : (addObjects r objects).held.get? a = some span) :
    LastOffer objects a span.val ∨
      (a ∉ objects.map TokenFileDescriptor.key ∧ r.held.get? a = some span) := by
  induction objects using List.reverseRecOn with
  | nil => exact .inr ⟨by simp, h⟩
  | append_singleton objects o ih =>
    rw [addObjects, List.foldl_append] at h
    obtain ⟨hp, hm⟩ := hv o (by simp)
    rcases held_add hp hm h with ⟨rfl, hs⟩ | ⟨hne, h'⟩
    · exact .inl ⟨objects, o, [], rfl, rfl, hs.symm, by simp⟩
    · have hn : a ∉ [o].map TokenFileDescriptor.key := by simpa using hne
      rcases ih (fun x hx ↦ hv x (List.mem_append_left _ hx)) h' with hl | ⟨hmem, hold⟩
      · exact .inl (hl.append hn)
      · refine .inr ⟨?_, hold⟩
        rw [List.map_append, List.mem_append]
        exact fun hx ↦ hx.elim hmem hn

private theorem mem_of_mem_selectEntries {bounds : InventoryBounds} {count : Nat}
    {entries : List RawEntry} {e : RawEntry}
    (h : e ∈ InventoryReporter.selectEntries bounds count entries) : e ∈ entries := by
  induction entries generalizing count with
  | nil => exact h
  | cons item items ih =>
    unfold InventoryReporter.selectEntries at h
    split at h
    · cases h
    · rcases List.mem_cons.mp h with rfl | h
      · exact List.mem_cons_self
      · exact List.mem_cons_of_mem _ (ih h)

/-- After a replacement, a held entry was offered, unless the offers were refused. -/
theorem held_replaceOffers {r : InventoryReporter} {offers : List (Digest × Nat)} {a : Digest}
    {span : Span} (h : (replaceOffers r offers).held.get? a = some span) :
    (a, span.val) ∈ offers ∨ r.held.get? a = some span := by
  simp only [replaceOffers, InventoryReporter.mutate, InventoryReporter.replace] at h
  cases hv : validateEntries (InventoryReporter.selectEntries r.config.bounds 0
      (offers.map rawOffer)) with
  | error e =>
    simp only [hv, bind, Except.bind] at h
    exact .inr h
  | ok selected =>
    simp only [hv, bind, Except.bind, pure, Except.pure] at h
    have hmem := OrderedDict.mem_of_mem_ofItems _ ((OrderedDict.get?_eq_some_iff _ _ _).mp h)
    have hraw : rawEntry (a, span) ∈ InventoryReporter.selectEntries r.config.bounds 0
        (offers.map rawOffer) := by
      rw [eq_map_rawEntry_of_validateEntries hv]
      exact List.mem_map.mpr ⟨_, List.mem_reverse.mp hmem, rfl⟩
    obtain ⟨⟨k, n⟩, hk, he⟩ := List.mem_map.mp (mem_of_mem_selectEntries hraw)
    simp only [rawOffer, rawEntry, RawEntry.pair.injEq, Option.some.injEq] at he
    have hn : n = span.val := by omega
    rw [← he.1, ← hn]
    exact .inl hk

/-- A step of the owner keeps an honest inventory honest. -/
theorem Change.honest {s s' : RankState} (h : Change fileOk s s') (hs : Honest s) : Honest s' := by
  cases h with
  | safe hsafe =>
    intro key span hk
    rw [hsafe.reporter_eq] at hk
    exact hsafe.backed (hs key span hk)
  | release k hn =>
    intro key span hk
    have hb := hs key span hk
    refine ⟨fun hnone ↦ ?_, hb.present⟩
    apply (OrderedDict.mem_keys_erase _ _ _).mpr
    refine ⟨?_, hb.absent hnone⟩
    rintro rfl
    exact hn ((OrderedDict.mem_keys_iff _ _).mpr ⟨span, hk⟩)
  | publish k new hn hf =>
    intro key span hk
    have hb := hs key span hk
    have hne : key ≠ k := by
      rintro rfl
      exact hn ((OrderedDict.mem_keys_iff _ _).mpr ⟨span, hk⟩)
    have hget : (s.files.set k new).get? key = s.files.get? key := by
      rw [OrderedDict.get?_set, if_neg hne]
    exact ⟨fun hnone ↦ hb.absent (hget ▸ hnone), fun f hf ↦ hb.present f (hget ▸ hf)⟩
  | withdraw k =>
    intro key span hk
    have hb := hs key span (held_remove hk).2
    exact ⟨hb.absent, hb.present⟩
  | offer objects hv hl =>
    intro key span hk
    rcases held_addObjects hv hk with hlast | ⟨-, hold⟩
    · have hb := (hl key span.val hlast).backed
      exact ⟨hb.absent, hb.present⟩
    · have hb := hs key span hold
      exact ⟨hb.absent, hb.present⟩
  | replace offers ho =>
    intro key span hk
    rcases held_replaceOffers hk with hmem | hold
    · have hb := ho _ hmem
      exact ⟨hb.absent, hb.present⟩
    · have hb := hs key span hold
      exact ⟨hb.absent, hb.present⟩

/-- Changes keep what is held live. -/
theorem Changes.honest {s s' : RankState} (h : Changes fileOk s s') (hs : Honest s) :
    Honest s' := by
  induction h with
  | refl => exact hs
  | tail _ hstep ih => exact hstep.honest ih

/-! ### Files and reporter along a run -/

/-- Every file is as the rules say. -/
def FilesOk (fileOk : Digest → TokenFile → Prop) (s : RankState) : Prop :=
  ∀ key f, s.files.get? key = some f → fileOk key f

private theorem Change.filesOk {s s' : RankState} (h : Change fileOk s s') (hs : FilesOk fileOk s) :
    FilesOk fileOk s' := by
  have hset : ∀ k new, fileOk k new →
      ∀ key f, (s.files.set k new).get? key = some f → fileOk key f := by
    intro k new hf key f hget
    rw [OrderedDict.get?_set] at hget
    split at hget
    · next he =>
      cases hget
      exact he ▸ hf
    · exact hs key f hget
  cases h with
  | safe hsafe =>
    cases hsafe with
    | unlink k hk =>
      intro key f hget
      exact hs key f ((OrderedDict.SubDict.refl _).erase_left k key f hget)
    | rewrite k old new hold hh hf => exact hset k new (hf (hs k old hold))
    | mark k => exact hs
    | clear k hk => exact hs
    | pin pins => exact hs
  | publish k new hn hf => exact hset k new hf
  | release k hn => exact hs
  | withdraw k => exact hs
  | offer objects hv hl => exact hs
  | replace offers ho => exact hs

/-- Changes keep what is known of the files. -/
theorem Changes.filesOk {s s' : RankState} (h : Changes fileOk s s') (hs : FilesOk fileOk s) :
    FilesOk fileOk s' := by
  induction h with
  | refl => exact hs
  | tail _ hstep ih => exact hstep.filesOk ih

/-- The reporter after some mutations. -/
def Mutated (r r' : InventoryReporter) : Prop :=
  ∃ mutations : List Mutation, r' = mutations.foldl InventoryReporter.mutate r

private theorem Mutated.trans {a b c : InventoryReporter} (h : Mutated a b) (h' : Mutated b c) :
    Mutated a c := by
  obtain ⟨ms, rfl⟩ := h
  obtain ⟨ms', rfl⟩ := h'
  exact ⟨ms ++ ms', by rw [List.foldl_append]⟩

private theorem Change.mutated {s s' : RankState} (h : Change fileOk s s') :
    Mutated s.reporter s'.reporter := by
  cases h with
  | safe hsafe =>
    rw [hsafe.reporter_eq]
    exact ⟨[], rfl⟩
  | release k hn => exact ⟨[], rfl⟩
  | publish k new hn hf => exact ⟨[], rfl⟩
  | withdraw k => exact ⟨[.remove k], rfl⟩
  | offer objects hv hl =>
    refine ⟨objects.map fun o ↦ .add (some o.key) (some o.spanTokens), ?_⟩
    rw [List.foldl_map]
    rfl
  | replace offers ho => exact ⟨[.replace (offers.map rawOffer)], rfl⟩

/-- Changes reach the reporter as notices only. -/
theorem Changes.mutated {s s' : RankState} (h : Changes fileOk s s') :
    Mutated s.reporter s'.reporter := by
  induction h with
  | refl => exact ⟨[], rfl⟩
  | tail _ hstep ih => exact ih.trans hstep.mutated

end

end SpoolCache.Store
