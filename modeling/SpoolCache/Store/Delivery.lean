import SpoolCache.Store.CrashRecovery
import SpoolCache.Store.FileReader
import SpoolCache.Store.ObjectStream

/-!
# Authenticated delivery

What `stream_objects` passes to its receivers, `token_files.py:568–682`: every file once and in
order, and no byte whose checksum was not compared first. Credits are returned whatever happens,
and the key that failed is marked before the error leaves.
-/

namespace SpoolCache.Store

open SpoolCache.Base SpoolCache.Base.Program
open TokenFileStore (Authentic Opened FileDescriptor)

/-! ### Credits -/

/-- A staging credit: at the pool, borrowed with so many files and bytes read into it, or complete. -/
inductive CreditPhase where
  | idle
  | holding (files bytes : Nat)
  | completed
  deriving DecidableEq

/-- What an event does to the credit; `none` when it must not happen there. A credit takes at most
sixteen files and no more bytes than it has, is completed once and then returned, and a key is
quarantined only while no credit is borrowed. -/
def creditStep (poolBytes : Nat) : Option CreditPhase → StreamEvent → Option CreditPhase
  | some .idle, .borrow => some (.holding 0 0)
  | some (.holding files bytes), .load _ n =>
    if files < maxBatchChunks ∧ bytes + n ≤ poolBytes then some (.holding (files + 1) (bytes + n))
    else none
  | some (.holding files bytes), .deliver _ _ => some (.holding files bytes)
  | some (.holding _ _), .complete => some .completed
  | some .completed, .release => some .idle
  | some .idle, .quarantine _ => some .idle
  | _, _ => none

/-- The credit after some events. -/
def creditPhase (poolBytes : Nat) (events : List StreamEvent) : Option CreditPhase :=
  events.foldl (creditStep poolBytes) (some .idle)

private theorem creditPhase_append (poolBytes : Nat) (events : List StreamEvent) (e : StreamEvent) :
    creditPhase poolBytes (events ++ [e]) = creditStep poolBytes (creditPhase poolBytes events) e :=
  List.foldl_concat ..

/-- Deliveries come in the order of the events. -/
@[simp] theorem deliveries_append (a b : List StreamEvent) :
    deliveries (a ++ b) = deliveries a ++ deliveries b := List.filterMap_append

/-- A borrowed buffer delivers nothing. -/
@[simp] theorem deliveries_borrow : deliveries [.borrow] = [] := rfl

/-- A load delivers nothing. -/
@[simp] theorem deliveries_load (key : Digest) (n : Nat) : deliveries [.load key n] = [] := rfl

/-- A delivery passes on its payload. -/
@[simp] theorem deliveries_deliver (key : Digest) (data : Bytes) :
    deliveries [.deliver key data] = [(key, data)] := rfl

/-- A completion delivers nothing. -/
@[simp] theorem deliveries_complete : deliveries [.complete] = [] := rfl

/-- A released buffer delivers nothing. -/
@[simp] theorem deliveries_release : deliveries [.release] = [] := rfl

/-- A quarantine delivers nothing. -/
@[simp] theorem deliveries_quarantine (key : Digest) : deliveries [.quarantine key] = [] := rfl

/-! ### Calls -/

/-- What lies at the path of a key, now or at an open to come, is allowed by `S`. -/
def Sources (S : Digest → Bytes → Prop) (w : StreamWorld) : Prop :=
  ∀ d, d = w.disk ∨ d ∈ w.later → ∀ key f, d.files.get? key = some f → S key f.data

/-- The events so far, and the key that was noted. -/
structure With (S : Digest → Bytes → Prop) (events : List StreamEvent) (failed : Option Digest)
    (w : StreamWorld) : Prop where
  events_eq : w.events = events
  failed_eq : w.failedKey = failed
  sources : Sources S w

/-- The bytes are those after the header of a file that lay at the path of the descriptor. -/
def FromFile (S : Digest → Bytes → Prop) (store : TokenFileStore) (desc : FileDescriptor)
    (payload : Bytes) : Prop :=
  ∃ data, S desc.key data ∧ store.openData desc.key data = .ok desc ∧
    payload = data.drop desc.payloadOffset

/-- What an open gave of a file that lay at the path of the key. -/
structure OpenedFrom (S : Digest → Bytes → Prop) (store : TokenFileStore) (key : Digest)
    (desc : FileDescriptor) (rest : Bytes) : Prop where
  opened : Opened store key desc rest
  source : FromFile S store desc rest

/-- An authentic payload of a file that lay at the path of the descriptor. -/
structure Genuine (S : Digest → Bytes → Prop) (store : TokenFileStore) (desc : FileDescriptor)
    (payload : Bytes) : Prop where
  authentic : Authentic store desc payload
  source : FromFile S store desc payload

section

variable {S : Digest → Bytes → Prop} {calm : Prop} {store : TokenFileStore}

/-- An open reads what is at the path, or raises `OSError` or `ManifestError`. -/
theorem under_openPath (key : Digest) (d : Disk) :
    Under calm (fun d' ↦ d' = d) (openPath store key false)
      (fun r d' ↦ d' = d ∧ ∃ f, d.files.get? key = some f ∧ store.openData key f.data = .ok r.1 ∧
        r.2 = f.data.drop r.1.payloadOffset)
      (fun e d' ↦ d' = d ∧ isStorageError e = true) fun d' ↦ d' = d := by
  have hgate : Under calm (fun d' ↦ d' = d) (withdrawalGate key false) (fun _ d' ↦ d' = d)
      (fun e d' ↦ d' = d ∧ isStorageError e = true) fun d' ↦ d' = d := by
    change Under calm _ (inventoryIsWithdrawn key) _ _ _
    exact under_look (fun _ _ h _ ↦ h) (fun _ e _ h ↦ by cases h) (fun _ h _ ↦ ⟨h, rfl⟩)
      fun _ h ↦ h
  unfold openPath
  refine hgate.bind fun withdrawn ↦ ?_
  split
  · exact under_raise fun _ h ↦ ⟨h, rfl⟩
  · refine under_look (fun d' r hd hr ↦ ⟨hd, ?_⟩) (fun d' e hd he ↦ ⟨hd, ?_⟩)
      (fun _ h _ ↦ ⟨h, rfl⟩) fun _ h ↦ h
    · subst hd
      split at hr
      · cases hr
      · next f hf =>
        cases hdata : store.openData key f.data with
        | error e =>
          rw [hdata] at hr
          cases hr
        | ok desc =>
          rw [hdata] at hr
          cases hr
          exact ⟨f, hf, hdata, rfl⟩
    · split at he
      · cases he
        rfl
      · next f hf =>
        cases hdata : store.openData key f.data with
        | error e' =>
          rw [hdata] at he
          cases he
          rw [← TokenFileStore.openBytes_eq_openData] at hdata
          obtain ⟨message, rfl⟩ := store.openBytes_raises key f.data e hdata
          rfl
        | ok desc =>
          rw [hdata] at he
          cases he

private theorem under_openObject {key : Digest} {events : List StreamEvent}
    {failed : Option Digest} :
    Under calm (With S events failed) (openObject store key)
      (fun r w ↦ With S events failed w ∧ OpenedFrom S store key r.1 r.2)
      (fun e w ↦ With S events failed w ∧ isStorageError e = true) (With S events failed) := by
  have hset : ∀ {w : StreamWorld} {d : Disk}, d = w.disk → With S events failed w →
      With S events failed { w with disk := d } := by
    rintro w d rfl h
    exact h
  unfold openObject onDisk
  refine Under.bind (X := fun _ ↦ With S events failed)
    (under_effect fun w h ↦ ⟨h.1, h.2, fun d hd ↦ h.3 d ?_⟩) fun _ ↦ ?_
  · rcases hd with rfl | hd
    · cases hlater : w.later with
      | nil => exact .inl rfl
      | cons d later => exact .inr List.mem_cons_self
    · exact .inr (List.mem_of_mem_tail hd)
  · refine under_zoom (fun w ↦ under_openPath key w.disk) (fun _ _ ↦ rfl) ?_ ?_
      fun w d h hd ↦ hset hd h
    · rintro w ⟨desc, rest⟩ d h ⟨hd, f, hf, hopen, hrest⟩
      dsimp only at hopen hrest
      have hopened := TokenFileStore.opened_of_openData hopen
      rw [← hrest] at hopened
      have hkey := hopened.key_eq
      subst hkey
      exact ⟨hset hd h, hopened, f.data, h.sources _ (.inl rfl) _ f hf, hopen, hrest⟩
    · rintro w e d h ⟨hd, he⟩
      exact ⟨hset hd h, he⟩

private theorem under_recordEvent {e : StreamEvent} {events : List StreamEvent}
    {failed : Option Digest} {E : PyError → StreamWorld → Prop} {C : StreamWorld → Prop} :
    Under calm (With S events failed) (recordEvent e) (fun _ ↦ With S (events ++ [e]) failed) E C :=
  under_effect fun _ h ↦ ⟨congrArg (· ++ [e]) h.1, h.2, h.3⟩

private theorem under_readInto {key : Digest} {rest : Bytes} {n : Nat} {events : List StreamEvent}
    {failed : Option Digest} :
    Under calm (With S events failed) (readInto key rest n)
      (fun view w ↦ With S (events ++ [.load key n]) failed w ∧ view = rest.take n ∧ n ≤ rest.length)
      (fun e w ↦ With S (events ++ [.load key n]) failed w ∧ isStorageError e = true)
      (With S (events ++ [.load key n]) failed) := by
  unfold readInto
  refine Under.bind under_recordEvent fun _ ↦ under_look (fun w view h hview ↦ ?_)
    (fun w e h he ↦ ?_) (fun w h _ ↦ ⟨h, rfl⟩) fun _ h ↦ h
  · split at hview
    · cases hview
    · next hle =>
      cases hview
      exact ⟨h, rfl, not_lt.mp hle⟩
  · split at he
    · cases he
      exact ⟨h, rfl⟩
    · cases he

/-- Without failing calls, a withdrawal of a pinned key marks it for good. -/
theorem under_quarantineBadPath (hooked : Bool) (key : Digest) :
    Under calm (fun _ ↦ True) (quarantineBadPath hooked true key)
      (fun _ d ↦ ∀ v, d.markers.Possible key v → v ≠ none) (fun _ _ ↦ ¬ calm) fun _ ↦ True := by
  unfold quarantineBadPath markInventoryWithdrawn
  rw [if_pos rfl]
  refine Under.bind (X := fun _ d ↦ ∀ v, d.markers.Possible key v → v ≠ none)
    (Under.bind (X := fun _ d ↦ d.markers.get? key ≠ none)
      (under_update (fun d _ ↦ ?_) (fun _ _ h ↦ h) fun _ _ ↦ trivial) fun _ ↦
    Under.bind (X := fun present d ↦ d.markers.get? key ≠ none ∧ present = true)
      (under_look (fun d present h hp ↦ ?_) (fun _ _ _ h ↦ by cases h) (fun _ _ h ↦ h)
        fun _ _ ↦ trivial) fun present ↦ ?_) fun _ ↦
    under_update (fun _ h ↦ h) (fun _ _ h ↦ h) fun _ _ ↦ trivial
  · split
    · next hsome => exact Option.isSome_iff_ne_none.mp hsome
    · change (d.markers.put key ()).get? key ≠ none
      rw [Directory.get?_put, if_pos rfl]
      exact Option.some_ne_none ()
  · cases hp
    exact ⟨h, Option.isSome_iff_ne_none.mpr h⟩
  · split
    · refine under_update (fun d h v hv ↦ ?_) (fun _ _ h ↦ h) fun _ _ ↦ trivial
      rw [Directory.possible_sync.mp hv]
      exact h.1
    · next hno => exact under_raise fun _ h ↦ absurd h.2 hno

end

/-! ### Deliveries -/

section

variable (S : Digest → Bytes → Prop) (store : TokenFileStore) (poolBytes : Nat)

/-- The parts in which a file is passed on: a small one whole, a larger one by its blocks. -/
def partsOf (desc : FileDescriptor) (payload : Bytes) : List Bytes :=
  if poolBytes < desc.byteLength then TokenFileStore.pieces store.slotBytes payload else [payload]

/-- These files, each passed on in full with an authentic payload, in order. -/
inductive Delivered : List FileDescriptor → List (Digest × Bytes) → Prop where
  | nil : Delivered [] []
  | cons {desc : FileDescriptor} {payload : Bytes} {descriptors : List FileDescriptor}
      {passed : List (Digest × Bytes)} (h : Genuine S store desc payload)
      (rest : Delivered descriptors passed) :
      Delivered (desc :: descriptors)
        ((partsOf store poolBytes desc payload).map (desc.key, ·) ++ passed)

/-- What was passed on of a file when its reading stopped: of a larger file blocks that had their
checksums, from the front; of a small one nothing, or an authentic payload. -/
def PartDelivered (desc : FileDescriptor) (passed : List (Digest × Bytes)) : Prop :=
  ∃ parts : List Bytes, passed = parts.map (desc.key, ·) ∧
    (poolBytes < desc.byteLength → parts.map sha256 <+: desc.blockSha256) ∧
    (desc.byteLength ≤ poolBytes → parts = [] ∨
      ∃ payload, Genuine S store desc payload ∧ parts = [payload])

/-- Where a stream of files stopped: the files before were passed on in full, and of one file a
part; `R` says more about the file and the part. -/
def Stopped (descriptors : List FileDescriptor) (before passed : List (Digest × Bytes))
    (R : FileDescriptor → List (Digest × Bytes) → Prop) : Prop :=
  ∃ done failing others full part, descriptors = done ++ failing :: others ∧
    Delivered S store poolBytes done full ∧ PartDelivered S store poolBytes failing part ∧
    passed = before ++ full ++ part ∧ R failing part

variable {S store poolBytes}

private theorem Delivered.append {a b : List FileDescriptor} {x y : List (Digest × Bytes)}
    (ha : Delivered S store poolBytes a x) (hb : Delivered S store poolBytes b y) :
    Delivered S store poolBytes (a ++ b) (x ++ y) := by
  induction ha with
  | nil => exact hb
  | cons h _ ih =>
    rw [List.append_assoc]
    exact .cons h ih

private theorem Delivered.single {desc : FileDescriptor} {payload : Bytes}
    (h : Genuine S store desc payload) :
    Delivered S store poolBytes [desc] ((partsOf store poolBytes desc payload).map (desc.key, ·)) := by
  have hone : Delivered S store poolBytes [desc]
      ((partsOf store poolBytes desc payload).map (desc.key, ·) ++ []) := .cons h .nil
  rwa [List.append_nil] at hone

private theorem partDelivered_nil (desc : FileDescriptor) : PartDelivered S store poolBytes desc
    [] :=
  ⟨[], rfl, fun _ ↦ List.nil_prefix, fun _ ↦ .inl rfl⟩

private theorem Stopped.mono {descriptors : List FileDescriptor}
    {before passed : List (Digest × Bytes)} {R R' : FileDescriptor → List (Digest × Bytes) → Prop}
    (h : Stopped S store poolBytes descriptors before passed R)
    (hR : ∀ d, d ∈ descriptors → ∀ part, R d part → R' d part) :
    Stopped S store poolBytes descriptors before passed R' := by
  obtain ⟨done, failing, others, full, part, rfl, hfull, hpart, hpassed, hr⟩ := h
  refine ⟨done, failing, others, full, part, rfl, hfull, hpart, hpassed, hR _ ?_ _ hr⟩
  exact List.mem_append_right _ List.mem_cons_self

/-- A stream that stopped has stopped among more files too. -/
theorem Stopped.extend (more : List FileDescriptor) {descriptors first : List FileDescriptor}
    {before full passed : List (Digest × Bytes)}
    {R : FileDescriptor → List (Digest × Bytes) → Prop}
    (hfirst : Delivered S store poolBytes first full)
    (h : Stopped S store poolBytes descriptors (before ++ full) passed R) :
    Stopped S store poolBytes (first ++ descriptors ++ more) before passed R := by
  obtain ⟨done, failing, others, full', part, rfl, hfull, hpart, hpassed, hr⟩ := h
  refine ⟨first ++ done, failing, others ++ more, full ++ full', part, ?_, hfirst.append hfull, hpart,
    ?_, hr⟩
  · rw [List.append_assoc, List.append_assoc, List.append_assoc, List.cons_append]
  · rw [hpassed, List.append_assoc before]

end

/-! ### One file of a batch -/

section

variable {S : Digest → Bytes → Prop} {calm : Prop} {store : TokenFileStore} {poolBytes : Nat}

private theorem under_noteFailure {α : Type} {key : Digest} {x : StreamProgram α}
    {P : StreamWorld → Prop}
    {X : α → StreamWorld → Prop} {E E' : PyError → StreamWorld → Prop} {C : StreamWorld → Prop}
    (hx : Under calm P x X E C)
    (hnoted : ∀ e w, E e w → isStorageError e = true → E' e { w with failedKey := some key })
    (hother : ∀ e w, E e w → isStorageError e = false → E' e w) :
    Under calm P (noteFailure key x) X E' C := by
  unfold noteFailure
  refine hx.handle fun e ↦ ?_
  refine Under.bind (X := fun _ ↦ E' e) ?_ fun _ ↦ under_raise fun _ h ↦ h
  unfold noteKey
  split
  · next hs => exact under_effect fun w h ↦ hnoted e w h hs
  · next hs => exact under_pure fun w h ↦ hother e w h (Bool.not_eq_true _ ▸ hs)

/-- The events of one file of a batch that has been read, and perhaps passed on. -/
def FileEvents (S : Digest → Bytes → Prop) (store : TokenFileStore) (desc : FileDescriptor)
    (events now : List StreamEvent) : Prop :=
  now = events ∨ now = events ++ [.load desc.key desc.byteLength] ∨
    ∃ payload, Genuine S store desc payload ∧
      now = events ++ [.load desc.key desc.byteLength] ++ [.deliver desc.key payload]

/-- How the reading of a file of a batch fails: without failing calls the error is of the file,
its key was noted, and nothing was passed on. -/
def FileFailed (S : Digest → Bytes → Prop) (calm : Prop) (store : TokenFileStore)
    (desc : FileDescriptor) (events : List StreamEvent) (e : PyError) (w : StreamWorld) : Prop :=
  (w.failedKey = none ∨ w.failedKey = some desc.key) ∧ FileEvents S store desc events w.events ∧
    (calm → isStorageError e = true ∧ w.failedKey = some desc.key ∧
      deliveries w.events = deliveries events)

/-- A slice within the pool has its full length. -/
theorem sliceLength_fits {poolBytes offset length : Nat} (h : offset + length ≤ poolBytes) :
    sliceLength poolBytes offset length = length := by
  unfold sliceLength
  omega

private theorem verifyBuffer_raises {desc : FileDescriptor} {view : Bytes} {e : PyError}
    (h : verifyBuffer store desc view = .error e) : isStorageError e = true := by
  have hblocks : ∀ {blocks : List Digest} {index : Nat} {e : PyError},
      verifyBlocks store.slotBytes blocks index view = .error e → isStorageError e = true := by
    intro blocks
    induction blocks with
    | nil =>
      intro index e h
      cases h
    | cons expected rest ih =>
      intro index e h
      unfold verifyBlocks at h
      split at h
      · cases h
        rfl
      · exact ih h
  unfold verifyBuffer at h
  cases hloop : verifyBlocks store.slotBytes desc.blockSha256 0 view with
  | error e' =>
    rw [hloop] at h
    cases h
    exact hblocks hloop
  | ok u =>
    rw [hloop, ok_bind] at h
    split at h
    · cases h
      rfl
    · cases h

/-- From an open file: an authentic payload is passed on, or nothing is. -/
theorem under_packedBody {desc current : FileDescriptor} {rest : Bytes} {offset : Nat}
    {events : List StreamEvent} (hopened : OpenedFrom S store desc.key current rest)
    (hfits : offset + desc.byteLength ≤ poolBytes) :
    Under calm (With S events none)
      (if current ≠ desc then .raise (.manifestError "pinned token metadata changed")
        else do
          let view ← readInto desc.key rest (sliceLength poolBytes offset desc.byteLength)
          .ofExcept (verifyBuffer store desc view)
          receive desc.key view : StreamProgram Unit)
      (fun _ w ↦ ∃ payload, Genuine S store desc payload ∧ With S
        (events ++ [.load desc.key desc.byteLength] ++ [.deliver desc.key payload]) none w)
      (fun e w ↦ (With S events none w ∨ With S (events ++ [.load desc.key desc.byteLength]) none w) ∧
        (calm → isStorageError e = true))
      fun w ↦ FileEvents S store desc events w.events := by
  split
  · exact under_raise fun w h ↦ ⟨.inl h, fun _ ↦ rfl⟩
  · next hsame =>
    rw [not_not.mp hsame] at hopened
    rw [sliceLength_fits hfits]
    refine Under.bind (X := fun view w ↦ view = rest ∧
      With S (events ++ [.load desc.key desc.byteLength]) none w)
      (under_readInto.mono (fun _ h ↦ h) (fun view w h ↦ ?_)
        (fun e w h ↦ ⟨.inr h.1, fun _ ↦ h.2⟩) fun w h ↦ .inr (.inl h.1)) fun view ↦ ?_
    · obtain ⟨hw, rfl, -⟩ := h
      exact ⟨List.take_of_length_le hopened.opened.length_rest.le, hw⟩
    · refine under_of_fact fun hview ↦ ?_
      subst hview
      refine Under.bind (X := fun _ w ↦ Genuine S store desc view ∧
        With S (events ++ [.load desc.key desc.byteLength]) none w)
        (under_ofExcept (fun _ w hok h ↦ ⟨⟨authentic_of_verifyBuffer hopened.opened
          hopened.opened.length_rest hok, hopened.source⟩, h⟩)
          fun e w he h ↦ ⟨.inr h, fun _ ↦ verifyBuffer_raises he⟩) fun _ ↦ ?_
      refine under_update (fun w h ↦ ⟨view, h.1, congrArg (· ++ [_]) h.2.1, h.2.2, h.2.3⟩)
        (fun w h hc ↦ ⟨.inr h.2, fun hcalm ↦ absurd hcalm hc⟩) fun w h ↦ .inr (.inl h.2.1)

private theorem deliveries_fileEvents {desc : FileDescriptor} {events : List StreamEvent}
    {payload : Bytes} :
    deliveries (events ++ [.load desc.key desc.byteLength] ++ [.deliver desc.key payload]) =
      deliveries events ++ [(desc.key, payload)] := by
  rw [deliveries_append, deliveries_append, deliveries_load, deliveries_deliver, List.append_nil]

/-- A small file is passed on whole and authentic, or fails. -/
theorem under_packedFile {desc : FileDescriptor} {offset : Nat} {events : List StreamEvent}
    (hfits : offset + desc.byteLength ≤ poolBytes) :
    Under calm (With S events none) (packedFile store poolBytes desc offset)
      (fun _ w ↦ ∃ payload, Genuine S store desc payload ∧ With S
        (events ++ [.load desc.key desc.byteLength] ++ [.deliver desc.key payload]) none w)
      (FileFailed S calm store desc events) fun w ↦ FileEvents S store desc events w.events := by
  unfold packedFile
  refine Under.bind (X := fun r w ↦ OpenedFrom S store desc.key r.1 r.2 ∧ With S events none w)
    ((under_noteFailure under_openObject (fun e w h _ ↦ ?_) fun e w h hs ↦ ?_).mono
      (fun _ h ↦ h) (fun _ _ h ↦ ⟨h.2, h.1⟩) (fun _ _ h ↦ h) fun w h ↦ .inl h.1) ?_
  · exact ⟨.inr rfl, .inl h.1.1, fun _ ↦ ⟨h.2, rfl, congrArg deliveries h.1.1⟩⟩
  · rw [h.2] at hs
    cases hs
  · rintro ⟨current, rest⟩
    refine under_of_fact fun hopened ↦ ?_
    refine Under.always (Y := fun _ w ↦ ∃ payload, Genuine S store desc payload ∧ With S
        (events ++ [.load desc.key desc.byteLength] ++ [.deliver desc.key payload]) none w)
      (F := FileFailed S calm store desc events) ?_ (fun _ ↦ ?_) fun e ↦ ?_
    · refine under_noteFailure (under_packedBody hopened hfits) ?_ ?_
      · rintro e w ⟨hw, -⟩ hs
        refine ⟨.inr rfl, hw.elim (fun h ↦ .inl h.1) fun h ↦ .inr (.inl h.1), fun _ ↦ ⟨hs, rfl, ?_⟩⟩
        rcases hw with hw | hw
        · exact congrArg deliveries hw.1
        · change deliveries w.events = _
          rw [hw.1, deliveries_append, deliveries_load, List.append_nil]
      · rintro e w ⟨hw, hcalm⟩ hs
        refine ⟨.inl (hw.elim (·.2) (·.2)), hw.elim (fun h ↦ .inl h.1) fun h ↦ .inr (.inl h.1),
          fun hc ↦ ?_⟩
        rw [hcalm hc] at hs
        cases hs
    · refine under_update (fun _ h ↦ h) (fun w h hc ↦ ?_) fun w h ↦ ?_
      · obtain ⟨payload, hpayload, hw⟩ := h
        exact ⟨.inl hw.2, .inr (.inr ⟨payload, hpayload, hw.1⟩), fun hcalm ↦ absurd hcalm hc⟩
      · obtain ⟨payload, hpayload, hw⟩ := h
        exact .inr (.inr ⟨payload, hpayload, hw.1⟩)
    · refine under_update (fun _ h ↦ h) (fun w h hc ↦ ?_) fun w h ↦ h.2.1
      exact ⟨h.1, h.2.1, fun hcalm ↦ absurd hcalm hc⟩

end

/-! ### Batches -/

section

variable {S : Digest → Bytes → Prop} {calm : Prop} {store : TokenFileStore} {poolBytes : Nat}

/-- The bytes of some files. -/
def totalBytes (descriptors : List FileDescriptor) : Nat :=
  (descriptors.map fun d ↦ d.byteLength).sum

/-- The credit is borrowed. -/
def Holding (poolBytes : Nat) (w : StreamWorld) : Prop :=
  ∃ files bytes, creditPhase poolBytes w.events = some (.holding files bytes)

/-- The credit is at the pool. -/
def Idle (poolBytes : Nat) (w : StreamWorld) : Prop := creditPhase poolBytes w.events = some .idle

/-- Where a stream of files stopped before its key was quarantined: without failing calls the
error is one of the storage, the key of the file was noted, and none of a small file was passed
on. -/
structure Noted (S : Digest → Bytes → Prop) (calm : Prop) (store : TokenFileStore)
    (poolBytes : Nat) (descriptors : List FileDescriptor) (before : List (Digest × Bytes)) (e : PyError)
    (w : StreamWorld) : Prop where
  noted : ∀ key, w.failedKey = some key → ∃ d ∈ descriptors, d.key = key
  stopped : Stopped S store poolBytes descriptors before (deliveries w.events) fun d part ↦
    calm → isStorageError e = true ∧ w.failedKey = some d.key ∧
      (d.byteLength ≤ poolBytes → part = [])

/-- The events of a file are those of a credit with room for it. -/
theorem phase_fileEvents {desc : FileDescriptor} {events now : List StreamEvent}
    {files bytes : Nat} (h : FileEvents S store desc events now)
    (hphase : creditPhase poolBytes events = some (.holding files bytes))
    (hfiles : files < maxBatchChunks) (hbytes : bytes + desc.byteLength ≤ poolBytes) :
    ∃ files bytes, creditPhase poolBytes now = some (.holding files bytes) := by
  have hload : creditPhase poolBytes (events ++ [.load desc.key desc.byteLength]) =
      some (.holding (files + 1) (bytes + desc.byteLength)) := by
    rw [creditPhase_append, hphase]
    exact if_pos ⟨hfiles, hbytes⟩
  rcases h with rfl | rfl | ⟨payload, -, rfl⟩
  · exact ⟨_, _, hphase⟩
  · exact ⟨_, _, hload⟩
  · refine ⟨files + 1, bytes + desc.byteLength, ?_⟩
    rw [creditPhase_append, hload]
    rfl

/-- A payload that fits the pool is delivered in one part. -/
theorem partsOf_small {desc : FileDescriptor} (h : desc.byteLength ≤ poolBytes) (payload : Bytes) :
    partsOf store poolBytes desc payload = [payload] := if_neg (not_lt.mpr h)

/-- What a file of a batch has been passed on of. -/
theorem part_fileEvents {desc : FileDescriptor} {events now : List StreamEvent}
    (hsmall : desc.byteLength ≤ poolBytes) (h : FileEvents S store desc events now) :
    ∃ part, PartDelivered S store poolBytes desc part ∧
      deliveries now = deliveries events ++ part := by
  rcases h with rfl | rfl | ⟨payload, hpayload, rfl⟩
  · exact ⟨[], partDelivered_nil desc, (List.append_nil _).symm⟩
  · refine ⟨[], partDelivered_nil desc, ?_⟩
    rw [deliveries_append, deliveries_load]
  · refine ⟨[(desc.key, payload)], ⟨[payload], rfl, fun hlarge ↦ ?_, fun _ ↦
      .inr ⟨payload, hpayload, rfl⟩⟩, deliveries_fileEvents⟩
    omega

/-- The files of a batch are passed on in order, until one fails. -/
theorem under_packedFiles {batch : List FileDescriptor} {files bytes : Nat}
    {events : List StreamEvent}
    (hphase : creditPhase poolBytes events = some (.holding files bytes))
    (hfiles : files + batch.length ≤ maxBatchChunks)
    (hbytes : bytes + totalBytes batch ≤ poolBytes) :
    Under calm (With S events none) (packedFiles store poolBytes batch bytes)
      (fun _ w ↦ (w.failedKey = none ∧ Sources S w) ∧ Holding poolBytes w ∧
        ∃ passed, Delivered S store poolBytes batch passed ∧
          deliveries w.events = deliveries events ++ passed)
      (fun e w ↦ Holding poolBytes w ∧ Noted S calm store poolBytes batch (deliveries events) e w)
      fun w ↦ Stopped S store poolBytes batch (deliveries events) (deliveries w.events)
        fun _ _ ↦ True := by
  induction batch generalizing files bytes events with
  | nil =>
    refine under_pure fun w h ↦ ⟨⟨h.2, h.3⟩, ⟨files, bytes, h.1 ▸ hphase⟩, [], .nil, ?_⟩
    rw [h.1, List.append_nil]
  | cons desc rest ih =>
    rw [List.length_cons] at hfiles
    unfold totalBytes at hbytes
    rw [List.map_cons, List.sum_cons] at hbytes
    have hsmall : desc.byteLength ≤ poolBytes := by omega
    have hroom : bytes + desc.byteLength ≤ poolBytes := by omega
    have hlt : files < maxBatchChunks := by omega
    have hhere : ∀ {now : List StreamEvent} {R : FileDescriptor → List (Digest × Bytes) → Prop},
        FileEvents S store desc events now →
        (∀ part, deliveries now = deliveries events ++ part → R desc part) →
        Stopped S store poolBytes (desc :: rest) (deliveries events) (deliveries now) R := by
      intro now R hnow hR
      obtain ⟨part, hpart, hd⟩ := part_fileEvents hsmall hnow
      exact ⟨[], desc, rest, [], part, rfl, .nil, hpart, by rw [List.append_nil]; exact hd, hR part hd⟩
    refine Under.bind ((under_packedFile hroom).mono (fun _ h ↦ h) (fun _ _ h ↦ h)
      (fun e w h ↦ ?_) fun w h ↦ hhere h fun _ _ ↦ trivial) fun _ ↦ ?_
    · obtain ⟨hkey, hevents, hcalm⟩ := h
      refine ⟨phase_fileEvents hevents hphase hlt hroom, fun key hk ↦ ?_,
        hhere hevents fun part hpart hc ↦ ⟨(hcalm hc).1, (hcalm hc).2.1, fun _ ↦ ?_⟩⟩
      · rcases hkey with hnone | hsome
        · rw [hnone] at hk
          cases hk
        · rw [hsome] at hk
          exact ⟨desc, List.mem_cons_self, Option.some.inj hk⟩
      · rw [(hcalm hc).2.2] at hpart
        exact List.append_cancel_left (hpart.symm.trans (List.append_nil _).symm)
    · refine under_exists fun payload ↦ under_of_fact fun hpayload ↦ ?_
      have hnext : creditPhase poolBytes (events ++ [.load desc.key desc.byteLength] ++
          [.deliver desc.key payload]) =
          some (.holding (files + 1) (bytes + desc.byteLength)) := by
        rw [creditPhase_append, creditPhase_append, hphase]
        change creditStep poolBytes (if _ then _ else none) _ = _
        rw [if_pos ⟨hlt, hroom⟩]
        rfl
      have hone : Delivered S store poolBytes [desc] [(desc.key, payload)] := by
        have h : Delivered S store poolBytes [desc]
            ((partsOf store poolBytes desc payload).map (desc.key, ·)) := .single hpayload
        rwa [partsOf_small hsmall] at h
      have hextend : ∀ {passed : List (Digest × Bytes)}
          {R : FileDescriptor → List (Digest × Bytes) → Prop},
          Stopped S store poolBytes rest (deliveries events ++ [(desc.key, payload)]) passed R →
          Stopped S store poolBytes (desc :: rest) (deliveries events) passed R := by
        intro passed R h
        have h' := h.extend [] hone
        rwa [List.append_nil] at h'
      have hrest := ih hnext (by omega) (by unfold totalBytes; omega)
      rw [deliveries_fileEvents] at hrest
      refine hrest.mono (fun _ h ↦ h) (fun _ w h ↦ ?_) (fun e w h ↦ ?_) fun w h ↦ hextend h
      · obtain ⟨hkey, hholding, passed, hpassed, hd⟩ := h
        refine ⟨hkey, hholding, _, hone.append hpassed, ?_⟩
        rw [hd, List.append_assoc]
      · refine ⟨h.1, fun key hk ↦ ?_, hextend h.2.stopped⟩
        obtain ⟨d, hd, hkey⟩ := h.2.noted key hk
        exact ⟨d, List.mem_cons_of_mem _ hd, hkey⟩

end

/-! ### One credit -/

section

variable {S : Digest → Bytes → Prop} {calm : Prop} {store : TokenFileStore} {poolBytes : Nat}

/-- The credit is at the pool, no key is noted, and this much has been passed on. -/
structure Ready (S : Digest → Bytes → Prop) (poolBytes : Nat) (passed : List (Digest × Bytes))
    (w : StreamWorld) : Prop where
  idle : Idle poolBytes w
  unnoted : w.failedKey = none
  passed_eq : deliveries w.events = passed
  sources : Sources S w

/-- A borrowed credit is completed and returned after either end. -/
theorem under_closeCredit {α : Type} {x : StreamProgram α} {P : StreamWorld → Prop}
    {X : α → StreamWorld → Prop} {E : PyError → StreamWorld → Prop} {C : StreamWorld → Prop}
    (hx : Under calm P x (fun a w ↦ Holding poolBytes w ∧ X a w)
      (fun e w ↦ Holding poolBytes w ∧ E e w) C)
    (hX : ∀ a w events, deliveries events = deliveries w.events → X a w → X a { w with events })
    (hE : ∀ e w events, deliveries events = deliveries w.events → E e w → E e { w with events }) :
    Under calm P (.always (.always x (recordEvent .complete)) (recordEvent .release))
      (fun a w ↦ Idle poolBytes w ∧ X a w) (fun e w ↦ Idle poolBytes w ∧ E e w) C := by
  have hcomplete : ∀ {Y : StreamWorld → Prop} {E' : PyError → StreamWorld → Prop},
      (∀ w events, deliveries events = deliveries w.events → Y w → Y { w with events }) →
      Under calm (fun w ↦ Holding poolBytes w ∧ Y w) (recordEvent .complete)
        (fun _ w ↦ creditPhase poolBytes w.events = some .completed ∧ Y w) E' C := by
    intro Y E' hY
    refine under_effect fun w h ↦ ?_
    obtain ⟨⟨files, bytes, hphase⟩, hy⟩ := h
    refine ⟨?_, hY w _ ?_ hy⟩
    · rw [creditPhase_append, hphase]
      rfl
    · rw [deliveries_append, deliveries_complete, List.append_nil]
  have hrelease : ∀ {Y : StreamWorld → Prop} {E' : PyError → StreamWorld → Prop},
      (∀ w events, deliveries events = deliveries w.events → Y w → Y { w with events }) →
      Under calm (fun w ↦ creditPhase poolBytes w.events = some .completed ∧ Y w)
        (recordEvent .release) (fun _ w ↦ Idle poolBytes w ∧ Y w) E' C := by
    intro Y E' hY
    refine under_effect fun w h ↦ ⟨?_, hY w _ ?_ h.2⟩
    · unfold Idle
      rw [creditPhase_append, h.1]
      rfl
    · rw [deliveries_append, deliveries_release, List.append_nil]
  refine Under.always (Y := fun a w ↦ creditPhase poolBytes w.events = some .completed ∧ X a w)
    (F := fun e w ↦ creditPhase poolBytes w.events = some .completed ∧ E e w) ?_
    (fun a ↦ hrelease (hX a)) fun e ↦ hrelease (hE e)
  exact Under.always hx (fun a ↦ hcomplete (hX a)) fun e ↦ hcomplete (hE e)

/-! ### The key that failed -/

/-- How a stream of files fails: the credit is back at the pool, and without failing calls the
error is one of the storage, the key of the file is marked for good, and none of a small file was
passed on. -/
structure StreamFailed (S : Digest → Bytes → Prop) (calm : Prop) (store : TokenFileStore)
    (poolBytes : Nat) (descriptors : List FileDescriptor) (before : List (Digest × Bytes)) (e : PyError)
    (w : StreamWorld) : Prop where
  idle : Idle poolBytes w
  stopped : Stopped S store poolBytes descriptors before (deliveries w.events) fun d part ↦
    calm → isStorageError e = true ∧ (∀ v, w.disk.markers.Possible d.key v → v ≠ none) ∧
      (d.byteLength ≤ poolBytes → part = [])

private theorem under_quarantineNoted_ready {hooked : Bool} {busy : Digest → Bool}
    {P : StreamWorld → Prop} (hP : ∀ w, P w → w.failedKey = none) {E : PyError → StreamWorld → Prop}
    {C : StreamWorld → Prop} :
    Under calm P (quarantineNoted hooked busy) (fun _ ↦ P) E C := by
  unfold quarantineNoted
  refine Under.bind (X := fun failed w ↦ failed = none ∧ P w)
    (under_observe fun w h ↦ ⟨hP w h, h⟩) fun failed ↦ ?_
  cases failed with
  | none => exact under_pure fun _ h ↦ h.2
  | some key => exact fun m hm ↦ absurd hm.2.1 (Option.some_ne_none key)

/-- With the credit back, the key that was noted is marked. -/
theorem under_quarantineNoted {hooked : Bool} {busy : Digest → Bool}
    {descriptors : List FileDescriptor} {before : List (Digest × Bytes)} {e : PyError}
    (hbusy : ∀ d ∈ descriptors, busy d.key = true) :
    Under calm (fun w ↦ Idle poolBytes w ∧ Noted S calm store poolBytes descriptors before e w)
      (quarantineNoted hooked busy)
      (fun _ ↦ StreamFailed S calm store poolBytes descriptors before e)
      (StreamFailed S calm store poolBytes descriptors before)
      fun w ↦ Stopped S store poolBytes descriptors before (deliveries w.events) fun _ _ ↦ True := by
  unfold quarantineNoted
  refine Under.bind (X := fun failed w ↦ w.failedKey = failed ∧ Idle poolBytes w ∧
    Noted S calm store poolBytes descriptors before e w) (under_observe fun w h ↦ ⟨rfl, h⟩)
    fun failed ↦ ?_
  cases failed with
  | none =>
    refine under_pure fun w h ↦ ⟨h.2.1, h.2.2.stopped.mono fun d _ part hd hc ↦ ?_⟩
    obtain ⟨-, hkey, -⟩ := hd hc
    rw [h.1] at hkey
    cases hkey
  | some key =>
    refine Under.bind (X := fun _ w ↦ w.failedKey = some key ∧ Idle poolBytes w ∧
      Noted S calm store poolBytes descriptors before e w)
      (under_effect fun w h ↦ ⟨h.1, ?_, h.2.2.noted, ?_⟩) fun _ ↦ ?_
    · unfold Idle
      rw [creditPhase_append, h.2.1]
      rfl
    · rw [deliveries_append, deliveries_quarantine, List.append_nil]
      exact h.2.2.stopped
    · refine (under_of_fact (F := busy key = true) (P := fun w ↦ w.failedKey = some key ∧
        Idle poolBytes w ∧ Noted S calm store poolBytes descriptors before e w) fun hpinned ↦ ?_).mono
        (fun w h ↦ ⟨?_, h⟩) (fun _ _ h ↦ h) (fun _ _ h ↦ h) fun _ h ↦ h
      swap
      · obtain ⟨d, hd, rfl⟩ := h.2.2.noted key h.1
        exact hbusy d hd
      unfold onDisk
      rw [hpinned]
      refine under_zoom (fun w ↦ under_quarantineBadPath hooked key) (fun _ _ ↦ trivial)
        (fun w _ d h hmarked ↦ ?_) (fun w e' d h hraised ↦ ?_) fun w d h _ ↦ ?_
      · refine ⟨h.2.1, h.2.2.stopped.mono fun desc _ part hd hc ↦ ?_⟩
        obtain ⟨he, hkey, hpart⟩ := hd hc
        rw [h.1] at hkey
        exact ⟨he, Option.some.inj hkey ▸ hmarked, hpart⟩
      · exact ⟨h.2.1, h.2.2.stopped.mono fun desc _ part _ hc ↦ absurd hc hraised⟩
      · exact h.2.2.stopped.mono fun _ _ _ _ ↦ trivial

end

/-! ### Files that share a credit -/

section

variable {S : Digest → Bytes → Prop} {calm : Prop} {store : TokenFileStore} {poolBytes : Nat}

/-- A batch and the rest are the descriptors, in order. -/
theorem takeBatch_append (poolBytes : Nat) (descriptors : List FileDescriptor) (count bytes : Nat) :
    (takeBatch poolBytes descriptors count bytes).1 ++ (takeBatch poolBytes descriptors count bytes).2 =
      descriptors := by
  induction descriptors generalizing count bytes with
  | nil => rfl
  | cons desc rest ih =>
    unfold takeBatch
    split
    · rfl
    · exact congrArg (desc :: ·) (ih _ _)

/-- Every batch has a file. -/
theorem takeBatch_ne_nil (poolBytes : Nat) (desc : FileDescriptor) (rest : List FileDescriptor) :
    (takeBatch poolBytes (desc :: rest) 0 0).1 ≠ [] := by
  unfold takeBatch
  rw [if_neg (by simp only [maxBatchChunks]; omega)]
  exact List.cons_ne_nil _ _

/-- A batch has a place and the bytes on its credit. -/
theorem takeBatch_fits (descriptors : List FileDescriptor) {count bytes : Nat}
    (hcount : count ≤ maxBatchChunks) (hbytes : bytes ≤ poolBytes)
    (hfirst : count = 0 → ∀ d ∈ descriptors.head?, bytes + d.byteLength ≤ poolBytes) :
    count + (takeBatch poolBytes descriptors count bytes).1.length ≤ maxBatchChunks ∧
      bytes + totalBytes (takeBatch poolBytes descriptors count bytes).1 ≤ poolBytes := by
  induction descriptors generalizing count bytes with
  | nil => exact ⟨hcount, hbytes⟩
  | cons desc rest ih =>
    unfold takeBatch
    split
    · exact ⟨hcount, hbytes⟩
    · next hfull =>
      have hroom : bytes + desc.byteLength ≤ poolBytes := by
        rcases Nat.eq_zero_or_pos count with hzero | hpos
        · exact hfirst hzero desc rfl
        · by_contra hover
          exact hfull (.inr ⟨hpos, not_le.mp hover⟩)
      have hnext : count + 1 ≤ maxBatchChunks := by omega
      obtain ⟨hlength, htotal⟩ := ih hnext hroom fun hzero ↦ absurd hzero (Nat.succ_ne_zero _)
      unfold totalBytes at htotal ⊢
      rw [List.length_cons, List.map_cons, List.sum_cons]
      omega

private theorem stopped_front {descriptors : List FileDescriptor} (h : descriptors ≠ [])
    {before : List (Digest × Bytes)} {R : FileDescriptor → List (Digest × Bytes) → Prop}
    (hR : ∀ d ∈ descriptors, R d []) : Stopped S store poolBytes descriptors before before R := by
  obtain ⟨desc, rest, rfl⟩ := List.exists_cons_of_ne_nil h
  refine ⟨[], desc, rest, [], [], rfl, .nil, partDelivered_nil desc, ?_, hR _ List.mem_cons_self⟩
  rw [List.append_nil, List.append_nil]

/-- A batch is passed on in order, or fails at one of its files. -/
theorem under_streamBatch {hooked : Bool} {busy : Digest → Bool} {batch : List FileDescriptor}
    {before : List (Digest × Bytes)} (hbatch : batch ≠ []) (hlength : batch.length ≤ maxBatchChunks)
    (hbytes : totalBytes batch ≤ poolBytes) (hbusy : ∀ d ∈ batch, busy d.key = true) :
    Under calm (fun w ↦ Idle poolBytes w ∧ deliveries w.events = before ∧ Sources S w)
      (streamBatch store poolBytes hooked busy batch)
      (fun _ w ↦ ∃ passed, Delivered S store poolBytes batch passed ∧
        Ready S poolBytes (before ++ passed) w)
      (StreamFailed S calm store poolBytes batch before)
      fun w ↦ Stopped S store poolBytes batch before (deliveries w.events) fun _ _ ↦ True := by
  have hfront : ∀ {w : StreamWorld} {R : FileDescriptor → List (Digest × Bytes) → Prop},
      deliveries w.events = before → (∀ d ∈ batch, R d []) →
      Stopped S store poolBytes batch before (deliveries w.events) R :=
    fun h hR ↦ h ▸ stopped_front hbatch hR
  unfold streamBatch
  refine Under.bind (X := fun _ ↦ Ready S poolBytes before) (under_effect fun w h ↦ ⟨h.1, rfl, h.2.1, h.2.2⟩)
    fun _ ↦ ?_
  refine Under.always (Y := fun _ w ↦ ∃ passed, Delivered S store poolBytes batch passed ∧
      Ready S poolBytes (before ++ passed) w)
    (F := fun e w ↦ Idle poolBytes w ∧ Noted S calm store poolBytes batch before e w) ?_
    (fun _ ↦ under_quarantineNoted_ready fun w h ↦ h.choose_spec.2.unnoted)
    fun e ↦ under_quarantineNoted hbusy
  refine Under.bind (X := fun _ w ↦ ∃ events, (creditPhase poolBytes events = some (.holding 0 0) ∧
      deliveries events = before) ∧ With S events none w)
    (under_update (fun w h ↦ ⟨w.events ++ [.borrow], ⟨?_, ?_⟩, rfl, h.unnoted, h.sources⟩)
      (fun w h hc ↦ ⟨h.idle, fun key hk ↦ ?_, hfront h.passed_eq fun _ _ hcalm ↦ absurd hcalm hc⟩)
      fun w h ↦ hfront h.passed_eq fun _ _ ↦ trivial) fun _ ↦ ?_
  · rw [creditPhase_append, h.idle]
    rfl
  · rw [deliveries_append, deliveries_borrow, List.append_nil]
    exact h.passed_eq
  · rw [h.unnoted] at hk
    cases hk
  · refine under_exists fun events ↦ under_of_fact fun hevents ↦ ?_
    obtain ⟨hphase, rfl⟩ := hevents
    refine (under_closeCredit
      (X := fun _ w ↦ (w.failedKey = none ∧ Sources S w) ∧ ∃ passed, Delivered S store poolBytes batch passed ∧
        deliveries w.events = deliveries events ++ passed)
      (E := fun e w ↦ Noted S calm store poolBytes batch (deliveries events) e w)
      ((under_packedFiles hphase (by omega) (by omega)).mono (fun _ h ↦ h)
        (fun _ _ h ↦ ⟨h.2.1, h.1, h.2.2⟩) (fun _ _ h ↦ h) fun _ h ↦ h)
      (fun _ w events' hd h ↦ ?_) fun e w events' hd h ↦ ⟨h.noted, ?_⟩).mono (fun _ h ↦ h)
      (fun _ w h ↦ ?_) (fun _ _ h ↦ h) fun _ h ↦ h
    · rw [hd]
      exact h
    · rw [hd]
      exact h.stopped
    · obtain ⟨hidle, ⟨hkey, hsources⟩, passed, hpassed, hd⟩ := h
      exact ⟨passed, hpassed, hidle, hkey, hd, hsources⟩

end

/-! ### Larger files -/

section

variable {S : Digest → Bytes → Prop} {calm : Prop} {store : TokenFileStore} {poolBytes : Nat}

/-- A block is passed on once it has its checksum, or is not passed on. -/
theorem under_streamBlock {key expected : Digest} {length : Nat} {rest : Bytes}
    {before : List (Digest × Bytes)} (hfits : length ≤ poolBytes) :
    Under calm (Ready S poolBytes before) (streamBlock poolBytes key expected length rest)
      (fun view w ↦ view = rest.take length ∧ sha256 view = expected ∧
        Ready S poolBytes (before ++ [(key, view)]) w)
      (fun e w ↦ Ready S poolBytes before w ∧ (calm → isStorageError e = true))
      fun w ↦ deliveries w.events = before := by
  unfold streamBlock
  rw [sliceLength_fits (by omega : 0 + length ≤ poolBytes)]
  refine Under.bind (X := fun _ w ↦ ∃ events, (creditPhase poolBytes events = some (.holding 0 0) ∧
      deliveries events = before) ∧ With S events none w)
    (under_update (fun w h ↦ ⟨w.events ++ [.borrow], ⟨?_, ?_⟩, rfl, h.unnoted, h.sources⟩)
      (fun w h hc ↦ ⟨h, fun hcalm ↦ absurd hcalm hc⟩) fun w h ↦ h.passed_eq) fun _ ↦ ?_
  · rw [creditPhase_append, h.idle]
    rfl
  · rw [deliveries_append, deliveries_borrow, List.append_nil]
    exact h.passed_eq
  · refine under_exists fun events ↦ under_of_fact fun hevents ↦ ?_
    obtain ⟨hphase, rfl⟩ := hevents
    have hload : creditPhase poolBytes (events ++ [.load key length]) =
        some (.holding 1 length) := by
      rw [creditPhase_append, hphase]
      change (if _ then _ else _) = _
      rw [if_pos ⟨by decide, by omega⟩, Nat.zero_add, Nat.zero_add]
    have hnone : deliveries (events ++ [.load key length]) = deliveries events := by
      rw [deliveries_append, deliveries_load, List.append_nil]
    refine (under_closeCredit
      (X := fun view w ↦ view = rest.take length ∧ sha256 view = expected ∧
        w.failedKey = none ∧ deliveries w.events = deliveries events ++ [(key, view)] ∧ Sources S w)
      (E := fun e w ↦ (w.failedKey = none ∧ deliveries w.events = deliveries events ∧ Sources S w) ∧
        (calm → isStorageError e = true))
      (C := fun w ↦ deliveries w.events = deliveries events) ?_
      (fun _ w events' hd h ↦ by rwa [hd]) fun _ w events' hd h ↦ by rwa [hd]).mono
      (fun _ h ↦ h) (fun view w h ↦ ⟨h.2.1, h.2.2.1, h.1, h.2.2.2.1, h.2.2.2.2.1, h.2.2.2.2.2⟩)
      (fun e w h ↦ ⟨⟨h.1, h.2.1.1, h.2.1.2.1, h.2.1.2.2⟩, h.2.2⟩) fun _ h ↦ h
    refine Under.bind (under_readInto.mono (fun _ h ↦ h) (fun _ _ h ↦ h) (fun e w h ↦ ?_)
      fun w h ↦ ?_) fun view ↦ ?_
    · exact ⟨⟨1, length, h.1.1 ▸ hload⟩, ⟨h.1.2, h.1.1 ▸ hnone, h.1.3⟩, fun _ ↦ h.2⟩
    · exact h.1 ▸ hnone
    · split
      · exact under_raise fun w h ↦
          ⟨⟨1, length, h.1.1 ▸ hload⟩, ⟨h.1.2, h.1.1 ▸ hnone, h.1.3⟩, fun _ ↦ rfl⟩
      · next hsum =>
        refine Under.bind (X := fun _ w ↦ (view = rest.take length ∧
            creditPhase poolBytes w.events = some (.holding 1 length)) ∧ w.failedKey = none ∧
            deliveries w.events = deliveries events ++ [(key, view)] ∧ Sources S w)
          (under_update (fun w h ↦ ⟨⟨h.2.1, ?_⟩, h.1.2, ?_, h.1.3⟩) (fun w h hc ↦ ?_) fun w h ↦ ?_)
          fun _ ↦ under_pure fun w h ↦ ⟨⟨1, length, h.1.2⟩, h.1.1, not_not.mp hsum, h.2⟩
        · rw [h.1.1, creditPhase_append, hload]
          rfl
        · rw [h.1.1, deliveries_append, hnone, deliveries_deliver]
        · exact ⟨⟨1, length, h.1.1 ▸ hload⟩, ⟨h.1.2, h.1.1 ▸ hnone, h.1.3⟩,
            fun hcalm ↦ absurd hcalm hc⟩
        · exact h.1.1 ▸ hnone

/-- Blocks are passed on as they are read, each with its checksum, up to the one that fails. -/
theorem under_streamBlocks {key : Digest} {blocks : List Digest} {rest sofar : Bytes}
    {before : List (Digest × Bytes)} (hfits : store.slotBytes ≤ poolBytes)
    (hcount : blocks.length = (TokenFileStore.pieces store.slotBytes rest).length) :
    Under calm (Ready S poolBytes before)
      (streamBlocks store poolBytes key blocks rest.length rest sofar)
      (fun r w ↦ r = (0, sofar ++ rest) ∧
        (TokenFileStore.pieces store.slotBytes rest).map sha256 = blocks ∧
        Ready S poolBytes (before ++ (TokenFileStore.pieces store.slotBytes rest).map (key, ·)) w)
      (fun e w ↦ ∃ views : List Bytes, (views.map sha256 <+: blocks ∧
        Ready S poolBytes (before ++ views.map (key, ·)) w) ∧ (calm → isStorageError e = true))
      fun w ↦ ∃ views : List Bytes, views.map sha256 <+: blocks ∧
        deliveries w.events = before ++ views.map (key, ·) := by
  induction blocks generalizing rest sofar before with
  | nil =>
    have hrest : rest = [] := by
      by_contra hne
      rw [TokenFileStore.pieces_cons store.slotBytes_pos hne] at hcount
      cases hcount
    subst hrest
    refine under_pure fun w h ↦ ?_
    rw [TokenFileStore.pieces_nil, List.append_nil]
    refine ⟨rfl, rfl, ?_⟩
    rw [List.map_nil, List.append_nil]
    exact h
  | cons expected blocks ih =>
    have hne : rest ≠ [] := by
      rintro rfl
      rw [TokenFileStore.pieces_nil] at hcount
      cases hcount
    have hpieces := TokenFileStore.pieces_cons store.slotBytes_pos hne
    rw [hpieces, List.length_cons, List.length_cons, Nat.add_right_cancel_iff] at hcount
    have hview : rest.take (min rest.length store.slotBytes) = rest.take store.slotBytes := by
      rw [Nat.min_comm, ← List.take_eq_take_min]
    unfold streamBlocks
    refine Under.bind ((under_streamBlock (by omega)).mono (fun _ h ↦ h) (fun _ _ h ↦ h)
      (fun e w h ↦ ⟨[], ⟨List.nil_prefix, ?_⟩, h.2⟩) fun w h ↦ ⟨[], List.nil_prefix, ?_⟩) fun view ↦ ?_
    · rw [List.map_nil, List.append_nil]
      exact h.1
    · rw [List.map_nil, List.append_nil]
      exact h
    · refine under_of_fact fun htake ↦ under_of_fact fun hsum ↦ ?_
      have hdrop : rest.drop view.length = rest.drop store.slotBytes := by
        rw [htake, hview, List.length_take]
        exact List.drop_eq_drop_min.symm
      have hremaining : rest.length - min rest.length store.slotBytes =
          (rest.drop store.slotBytes).length := by
        rw [List.length_drop]
        omega
      rw [hview] at htake
      have hcons : ∀ views : List Bytes, before ++ [(key, view)] ++ views.map (key, ·) =
          before ++ (view :: views).map (key, ·) := by
        intro views
        rw [List.append_assoc]
        rfl
      rw [hdrop, hremaining]
      refine (ih hcount).mono (fun _ h ↦ h) (fun r w h ↦ ?_) (fun e w h ↦ ?_) fun w h ↦ ?_
      · obtain ⟨hr, hmap, hready⟩ := h
        rw [hpieces, ← htake]
        refine ⟨?_, ?_, hcons _ ▸ hready⟩
        · rw [hr, List.append_assoc, htake, List.take_append_drop]
        · rw [List.map_cons, hsum, hmap]
      · obtain ⟨views, ⟨hviews, hready⟩, hcalm⟩ := h
        refine ⟨view :: views, ⟨?_, hcons _ ▸ hready⟩, hcalm⟩
        rw [List.map_cons, hsum]
        exact List.prefix_cons_inj expected |>.mpr hviews
      · obtain ⟨views, hviews, hd⟩ := h
        refine ⟨view :: views, ?_, hcons _ ▸ hd⟩
        rw [List.map_cons, hsum]
        exact List.prefix_cons_inj expected |>.mpr hviews

end

section

variable {S : Digest → Bytes → Prop} {calm : Prop} {store : TokenFileStore} {poolBytes : Nat}

/-- Blocks of a larger file that have their checksums, from the front. -/
theorem stopped_blocks {desc : FileDescriptor} (hlarge : poolBytes < desc.byteLength)
    {views : List Bytes} (hviews : views.map sha256 <+: desc.blockSha256)
    {before : List (Digest × Bytes)} {R : FileDescriptor → List (Digest × Bytes) → Prop}
    (hR : R desc (views.map (desc.key, ·))) :
    Stopped S store poolBytes [desc] before (before ++ views.map (desc.key, ·)) R := by
  refine ⟨[], desc, [], [], views.map (desc.key, ·), rfl, .nil, ⟨views, rfl, fun _ ↦ hviews, ?_⟩, ?_,
    hR⟩
  · exact fun hsmall ↦ absurd hlarge (not_lt.mpr hsmall)
  · rw [List.append_nil]

/-- From an open file: every block is passed on and the whole is authentic, or some blocks are. -/
theorem under_largeBody {desc current : FileDescriptor} {rest : Bytes}
    {before : List (Digest × Bytes)} (hopened : OpenedFrom S store desc.key current rest)
    (hlarge : poolBytes < desc.byteLength) (hslot : store.slotBytes ≤ poolBytes) :
    Under calm (Ready S poolBytes before)
      (if current ≠ desc then .raise (.manifestError "pinned token metadata changed")
        else do
          let (remaining, sofar) ←
            streamBlocks store poolBytes desc.key desc.blockSha256 desc.byteLength rest []
          if remaining ≠ 0 ∨ sha256 sofar ≠ desc.digest then
            .raise (.manifestError "token payload checksum differs")
          else pure () : StreamProgram Unit)
      (fun _ w ↦ ∃ passed, Delivered S store poolBytes [desc] passed ∧
        Ready S poolBytes (before ++ passed) w)
      (fun e w ↦ ∃ views : List Bytes, (views.map sha256 <+: desc.blockSha256 ∧
        Ready S poolBytes (before ++ views.map (desc.key, ·)) w) ∧ (calm → isStorageError e = true))
      fun w ↦ ∃ views : List Bytes, views.map sha256 <+: desc.blockSha256 ∧
        deliveries w.events = before ++ views.map (desc.key, ·) := by
  split
  · refine under_raise fun w h ↦ ⟨[], ⟨List.nil_prefix, ?_⟩, fun _ ↦ rfl⟩
    rw [List.map_nil, List.append_nil]
    exact h
  · next hsame =>
    rw [not_not.mp hsame] at hopened
    have hcount : desc.blockSha256.length =
        (TokenFileStore.pieces store.slotBytes rest).length := by
      rw [TokenFileStore.length_pieces, hopened.opened.length_rest, hopened.opened.count]
      rfl
    rw [← hopened.opened.length_rest]
    refine Under.bind (under_streamBlocks hslot hcount) ?_
    rintro ⟨remaining, sofar⟩
    refine under_of_fact fun hr ↦ under_of_fact fun hmap ↦ ?_
    obtain ⟨rfl, rfl⟩ : remaining = 0 ∧ sofar = rest := Prod.mk.inj hr
    dsimp only
    split
    · exact under_raise fun w h ↦ ⟨_, ⟨hmap ▸ List.prefix_refl _, h⟩, fun _ ↦ rfl⟩
    · next hwhole =>
      rw [not_or, not_not, not_not] at hwhole
      have hauthentic : Authentic store desc sofar := ⟨hopened.opened.length_rest, hmap, hwhole.2⟩
      refine under_pure fun w h ↦ ⟨_, .single ⟨hauthentic, hopened.source⟩, ?_⟩
      unfold partsOf
      rw [if_pos hlarge]
      exact h

private theorem Ready.of_with {events : List StreamEvent} {passed : List (Digest × Bytes)}
    {w : StreamWorld}
    (hphase : creditPhase poolBytes events = some .idle) (hpassed : deliveries events = passed)
    (h : With S events none w) : Ready S poolBytes passed w := by
  refine ⟨?_, h.2, h.1 ▸ hpassed, h.3⟩
  unfold Idle
  rw [h.1]
  exact hphase

private theorem under_openObject_ready {key : Digest} {before : List (Digest × Bytes)} :
    Under calm (Ready S poolBytes before) (openObject store key)
      (fun r w ↦ OpenedFrom S store key r.1 r.2 ∧ Ready S poolBytes before w)
      (fun e w ↦ Ready S poolBytes before w ∧ isStorageError e = true) (Ready S poolBytes before) := by
  refine (under_exists fun events ↦ under_of_fact
    (F := creditPhase poolBytes events = some .idle ∧ deliveries events = before) fun hevents ↦
    (@under_openObject S calm store key events none).mono (fun _ h ↦ h) (fun r w h ↦ ?_)
      (fun e w h ↦ ?_) fun w h ↦ .of_with hevents.1 hevents.2 h).mono
    (fun w h ↦ ⟨w.events, ⟨h.idle, h.passed_eq⟩, rfl, h.unnoted, h.sources⟩) (fun _ _ h ↦ h)
    (fun _ _ h ↦ h) fun _ h ↦ h
  · exact ⟨h.2, .of_with hevents.1 hevents.2 h.1⟩
  · exact ⟨.of_with hevents.1 hevents.2 h.1, h.2⟩

/-- A larger file is passed on by its blocks, or fails. -/
theorem under_streamLargeObject {hooked : Bool} {busy : Digest → Bool} {desc : FileDescriptor}
    {before : List (Digest × Bytes)} (hlarge : poolBytes < desc.byteLength)
    (hslot : store.slotBytes ≤ poolBytes) (hbusy : busy desc.key = true) :
    Under calm (fun w ↦ Idle poolBytes w ∧ deliveries w.events = before ∧ Sources S w)
      (streamLargeObject store poolBytes hooked busy desc)
      (fun _ w ↦ ∃ passed, Delivered S store poolBytes [desc] passed ∧
        Ready S poolBytes (before ++ passed) w)
      (StreamFailed S calm store poolBytes [desc] before)
      fun w ↦ Stopped S store poolBytes [desc] before (deliveries w.events) fun _ _ ↦ True := by
  have hbusy' : ∀ d ∈ [desc], busy d.key = true := by
    intro d hd
    rw [List.mem_singleton.mp hd]
    exact hbusy
  have hcut : ∀ w : StreamWorld, (∃ views : List Bytes, views.map sha256 <+: desc.blockSha256 ∧
      deliveries w.events = before ++ views.map (desc.key, ·)) →
      Stopped S store poolBytes [desc] before (deliveries w.events) fun _ _ ↦ True := by
    rintro w ⟨views, hviews, hd⟩
    rw [hd]
    exact stopped_blocks hlarge hviews trivial
  have hnoted : ∀ (e : PyError) (views : List Bytes) (w : StreamWorld),
      views.map sha256 <+: desc.blockSha256 →
      (w.failedKey = none ∨ w.failedKey = some desc.key) →
      deliveries w.events = before ++ views.map (desc.key, ·) →
      (calm → isStorageError e = true ∧ w.failedKey = some desc.key) →
      Noted S calm store poolBytes [desc] before e w := by
    intro e views w hviews hkey hd hcalm
    refine ⟨fun key hk ↦ ⟨desc, List.mem_singleton_self desc, ?_⟩, ?_⟩
    · rcases hkey with h | h
      · rw [h] at hk
        cases hk
      · rw [h] at hk
        exact Option.some.inj hk
    · rw [hd]
      exact stopped_blocks hlarge hviews fun hc ↦
        ⟨(hcalm hc).1, (hcalm hc).2, fun hsmall ↦ absurd hlarge (not_lt.mpr hsmall)⟩
  have hempty : before ++ ([] : List Bytes).map (desc.key, ·) = before := List.append_nil _
  unfold streamLargeObject
  refine Under.bind (X := fun _ ↦ Ready S poolBytes before) (under_effect fun w h ↦ ⟨h.1, rfl, h.2.1, h.2.2⟩)
    fun _ ↦ ?_
  refine Under.bind (X := fun r w ↦ OpenedFrom S store desc.key r.1 r.2 ∧ Ready S poolBytes before w)
    (Under.handle (F := fun e w ↦ Idle poolBytes w ∧ Noted S calm store poolBytes [desc] before e w)
      ?_ fun e ↦ (under_quarantineNoted hbusy').bind fun _ ↦ under_raise fun _ h ↦ h) ?_
  · refine (under_noteFailure under_openObject_ready ?_ ?_).mono
      (fun _ h ↦ h) (fun _ _ h ↦ h) (fun _ _ h ↦ h)
      fun w h ↦ hcut w ⟨[], List.nil_prefix, h.passed_eq.trans hempty.symm⟩
    · rintro e w ⟨hready, -⟩ hs
      exact ⟨hready.idle, hnoted e [] _ List.nil_prefix (.inr rfl)
        (hready.passed_eq.trans hempty.symm) fun _ ↦ ⟨hs, rfl⟩⟩
    · rintro e w ⟨-, hstorage⟩ hs
      rw [hs] at hstorage
      cases hstorage
  · rintro ⟨current, rest⟩
    refine under_of_fact fun hopened ↦ ?_
    refine Under.always (Y := fun _ w ↦ ∃ passed, Delivered S store poolBytes [desc] passed ∧
        Ready S poolBytes (before ++ passed) w)
      (F := fun e w ↦ Idle poolBytes w ∧ Noted S calm store poolBytes [desc] before e w) ?_
      (fun _ ↦ ?_) fun e ↦ ?_
    · refine (under_noteFailure (under_largeBody hopened hlarge hslot) ?_ ?_).mono
        (fun _ h ↦ h) (fun _ _ h ↦ h) (fun _ _ h ↦ h) hcut
      · rintro e w ⟨views, ⟨hviews, hready⟩, -⟩ hs
        exact ⟨hready.idle, hnoted e views _ hviews (.inr rfl) hready.passed_eq fun _ ↦ ⟨hs, rfl⟩⟩
      · rintro e w ⟨views, ⟨hviews, hready⟩, hcalm⟩ hs
        refine ⟨hready.idle, hnoted e views _ hviews (.inl hready.unnoted) hready.passed_eq
          fun hc ↦ ?_⟩
        rw [hcalm hc] at hs
        cases hs
    · have hblocks : ∀ {w : StreamWorld}, (∃ passed, Delivered S store poolBytes [desc] passed ∧
          Ready S poolBytes (before ++ passed) w) → ∃ views : List Bytes,
          views.map sha256 <+: desc.blockSha256 ∧ Ready S poolBytes (before ++ views.map (desc.key, ·)) w := by
        rintro w ⟨passed, hpassed, hready⟩
        cases hpassed with
        | cons hauthentic hrest =>
          cases hrest
          rw [List.append_nil] at hready
          refine ⟨_, ?_, hready⟩
          unfold partsOf
          rw [if_pos hlarge, hauthentic.authentic.blocks]
      refine Under.bind (X := fun _ w ↦ ∃ passed, Delivered S store poolBytes [desc] passed ∧
        Ready S poolBytes (before ++ passed) w) (under_update (fun _ h ↦ h) (fun w h hc ↦ ?_)
        fun w h ↦ ?_) fun _ ↦ under_quarantineNoted_ready fun w h ↦ h.choose_spec.2.unnoted
      · obtain ⟨views, hviews, hready⟩ := hblocks h
        exact ⟨hready.idle, (hcut w ⟨views, hviews, hready.passed_eq⟩).mono
          fun _ _ _ _ hcalm ↦ absurd hcalm hc⟩
      · obtain ⟨views, hviews, hready⟩ := hblocks h
        exact hcut w ⟨views, hviews, hready.passed_eq⟩
    · refine Under.bind (X := fun _ w ↦ Idle poolBytes w ∧
        Noted S calm store poolBytes [desc] before e w) (under_update (fun _ h ↦ h) (fun w h hc ↦ ?_)
        fun w h ↦ h.2.stopped.mono fun _ _ _ _ ↦ trivial) fun _ ↦ under_quarantineNoted hbusy'
      exact ⟨h.1, h.2.stopped.mono fun _ _ _ _ hcalm ↦ absurd hcalm hc⟩

end

/-! ### All files -/

section

variable {S : Digest → Bytes → Prop} {calm : Prop} {store : TokenFileStore} {poolBytes : Nat}

/-- A failure among some files is one among more. -/
theorem StreamFailed.extend (more : List FileDescriptor) {first descriptors : List FileDescriptor}
    {before full : List (Digest × Bytes)} {e : PyError} {w : StreamWorld}
    (hfirst : Delivered S store poolBytes first full)
    (h : StreamFailed S calm store poolBytes descriptors (before ++ full) e w) :
    StreamFailed S calm store poolBytes (first ++ descriptors ++ more) before e w :=
  ⟨h.idle, h.stopped.extend more hfirst⟩

/-- The files are passed on in order up to the one that fails. -/
theorem under_streamFrom {hooked : Bool} {busy : Digest → Bool} {rounds : Nat}
    {descriptors : List FileDescriptor} {before : List (Digest × Bytes)}
    (hrounds : descriptors.length ≤ rounds)
    (hslot : ∀ d ∈ descriptors, min d.byteLength store.slotBytes ≤ poolBytes)
    (hbusy : ∀ d ∈ descriptors, busy d.key = true) :
    Under calm (fun w ↦ Idle poolBytes w ∧ deliveries w.events = before ∧ Sources S w)
      (streamFrom store poolBytes hooked busy rounds descriptors)
      (fun _ w ↦ ∃ passed, Delivered S store poolBytes descriptors passed ∧
        Idle poolBytes w ∧ deliveries w.events = before ++ passed)
      (StreamFailed S calm store poolBytes descriptors before)
      fun w ↦ Stopped S store poolBytes descriptors before (deliveries w.events) fun _ _ ↦ True := by
  induction rounds generalizing descriptors before with
  | zero =>
    rw [List.length_eq_zero_iff.mp (Nat.le_zero.mp hrounds)]
    exact under_pure fun w h ↦
      ⟨[], .nil, h.1, h.2.1.trans (List.append_nil _).symm⟩
  | succ rounds ih =>
    -- the files of one round and those of the rounds after it
    have hround : ∀ {x : StreamProgram Unit} {first others : List FileDescriptor},
        first ++ others = descriptors → first ≠ [] →
        Under calm (fun w ↦ Idle poolBytes w ∧ deliveries w.events = before ∧ Sources S w) x
          (fun _ w ↦ ∃ passed, Delivered S store poolBytes first passed ∧
            Ready S poolBytes (before ++ passed) w)
          (StreamFailed S calm store poolBytes first before)
          (fun w ↦ Stopped S store poolBytes first before (deliveries w.events) fun _ _ ↦ True) →
        Under calm (fun w ↦ Idle poolBytes w ∧ deliveries w.events = before ∧ Sources S w)
          (x >>= fun _ ↦ streamFrom store poolBytes hooked busy rounds others)
          (fun _ w ↦ ∃ passed, Delivered S store poolBytes descriptors passed ∧
            Idle poolBytes w ∧ deliveries w.events = before ++ passed)
          (StreamFailed S calm store poolBytes descriptors before)
          fun w ↦ Stopped S store poolBytes descriptors before (deliveries w.events)
            fun _ _ ↦ True := by
      rintro x first others rfl hfirst hx
      have hnone : Delivered S store poolBytes [] [] := .nil
      have hlength : others.length ≤ rounds := by
        have := List.length_pos_of_ne_nil hfirst
        rw [List.length_append] at hrounds
        omega
      refine Under.bind (hx.mono (fun _ h ↦ h) (fun _ _ h ↦ h) (fun e w h ↦ ?_) fun w h ↦ ?_)
        fun _ ↦ ?_
      · exact StreamFailed.extend others hnone (by rwa [List.append_nil])
      · exact Stopped.extend others hnone (by rwa [List.append_nil])
      · refine under_exists fun passed ↦ under_of_fact fun hpassed ↦ ?_
        refine (ih hlength (fun d hd ↦ hslot d (List.mem_append_right _ hd))
          fun d hd ↦ hbusy d (List.mem_append_right _ hd)).mono (fun w h ↦ ⟨h.idle, h.passed_eq, h.sources⟩)
          (fun _ w h ↦ ?_) (fun e w h ↦ ?_) fun w h ↦ ?_
        · obtain ⟨passed', hpassed', hidle, hd⟩ := h
          exact ⟨_, hpassed.append hpassed', hidle, hd.trans (List.append_assoc ..)⟩
        · have hextend := h.extend [] hpassed
          rwa [List.append_nil] at hextend
        · have hextend := h.extend [] hpassed
          rwa [List.append_nil] at hextend
    cases descriptors with
    | nil => exact under_pure fun w h ↦
      ⟨[], .nil, h.1, h.2.1.trans (List.append_nil _).symm⟩
    | cons desc rest =>
      unfold streamFrom
      split
      · next hlarge =>
        have hfits := hslot desc List.mem_cons_self
        exact hround (List.singleton_append ..) (List.cons_ne_nil _ _)
          (under_streamLargeObject hlarge (by omega) (hbusy desc List.mem_cons_self))
      · next hsmall =>
        have happend := takeBatch_append poolBytes (desc :: rest) 0 0
        have hne := takeBatch_ne_nil poolBytes desc rest
        have hfits := takeBatch_fits (desc :: rest)
          (Nat.zero_le maxBatchChunks) (Nat.zero_le poolBytes) fun _ d hd ↦ by
            cases hd
            omega
        rw [Nat.zero_add, Nat.zero_add] at hfits
        generalize takeBatch poolBytes (desc :: rest) 0 0 = taken at happend hne hfits
        obtain ⟨batch, others⟩ := taken
        refine hround happend hne (under_streamBatch hne hfits.1 hfits.2 fun d hd ↦ hbusy d ?_)
        rw [← happend]
        exact List.mem_append_left _ hd

end

/-! ### Delivery -/

section

variable {S : Digest → Bytes → Prop} {store : TokenFileStore} {poolBytes : Nat} {hooked : Bool}
  {busy : Digest → Bool} {lease : RestoreLease} {descriptors : List FileDescriptor}

variable (store poolBytes lease descriptors) in
/-- What `stream_objects` asks of its lease and its credits, `token_files.py:571–579`. -/
structure Admitted : Prop where
  owned : lease.owned = true
  active : lease.active = true
  descriptors_eq : lease.descriptors = descriptors
  credit : ∀ d ∈ descriptors, min d.byteLength store.slotBytes ≤ poolBytes

/-- After its checks the stream starts with the first batch. -/
theorem streamObjects_of_admitted (h : Admitted store poolBytes lease descriptors) :
    streamObjects store poolBytes hooked busy lease descriptors =
      streamFrom store poolBytes hooked busy descriptors.length descriptors := by
  unfold streamObjects
  rw [if_neg (not_or.mpr ⟨not_not.mpr h.owned,
    not_or.mpr ⟨not_not.mpr h.active, not_not.mpr h.descriptors_eq.symm⟩⟩),
    if_neg fun ⟨d, hd, hlt⟩ ↦ not_lt.mpr (h.credit d hd) hlt]

/-- A stream that is not admitted raises a value error and does nothing. -/
theorem streamObjects_of_not_admitted (h : ¬ Admitted store poolBytes lease descriptors) :
    ∃ message, streamObjects store poolBytes hooked busy lease descriptors =
      .raise (.valueError message) := by
  unfold streamObjects
  split
  · exact ⟨_, rfl⟩
  · next hlease =>
    split
    · exact ⟨_, rfl⟩
    · next hslot =>
      rw [not_or, not_or, not_not, not_not, not_not] at hlease
      exact absurd ⟨hlease.1, hlease.2.1, hlease.2.2.symm,
        fun d hd ↦ not_lt.mp fun hlt ↦ hslot ⟨d, hd, hlt⟩⟩ h

/-- A stream that returns was admitted. -/
theorem admitted_of_returned {m : Machine StreamWorld}
    (h : (streamObjects store poolBytes hooked busy lease descriptors m).1 = .returned ()) :
    Admitted store poolBytes lease descriptors := by
  by_contra hnot
  obtain ⟨message, heq⟩ := @streamObjects_of_not_admitted _ _ hooked busy _ _ hnot
  rw [heq] at h
  cases h

/-- An admitted stream of pinned files that returns has delivered every payload; a failed or cut one
has delivered a part of them. -/
theorem under_streamObjects {calm : Prop} (hadmitted : Admitted store poolBytes lease descriptors)
    (hpinned : ∀ d ∈ descriptors, busy d.key = true) {w : StreamWorld} (hsources : Sources S w)
    (hevents : w.events = []) :
    Under calm (fun w' ↦ w' = w) (streamObjects store poolBytes hooked busy lease descriptors)
      (fun _ w' ↦ Idle poolBytes w' ∧
        Delivered S store poolBytes descriptors (deliveries w'.events))
      (StreamFailed S calm store poolBytes descriptors [])
      fun w' ↦ Stopped S store poolBytes descriptors [] (deliveries w'.events) fun _ _ ↦ True := by
  rw [streamObjects_of_admitted hadmitted]
  refine (under_streamFrom le_rfl hadmitted.credit hpinned).mono ?_ (fun _ w' h ↦ ?_)
    (fun _ _ h ↦ h) fun _ h ↦ h
  · rintro w' rfl
    refine ⟨?_, ?_, hsources⟩
    · unfold Idle
      rw [hevents]
      rfl
    · rw [hevents]
      rfl
  · obtain ⟨passed, hpassed, hidle, hd⟩ := h
    rw [hd]
    exact ⟨hidle, hpassed⟩

end

end SpoolCache.Store
