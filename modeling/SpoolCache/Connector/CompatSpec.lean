import SpoolCache.Connector.Compat

/-!
# What an accepted override takes

The sample calls and the positional probe say enough about every call, but for one thing: that a
name is filled by position and by keyword at once.
-/

namespace SpoolCache.Connector

open SpoolCache.Base

section

variable {base override : Signature}

/-- What the sample calls and the probe of an accepted override say. -/
structure Accepted (base override : Signature) : Prop where
  varPositional : base.varPositional? ≠ none → override.varPositional? ≠ none
  varKeyword : base.varKeyword? ≠ none → override.varKeyword? ≠ none
  minimum : override.Binds (minimumCallShape base).args.length (minimumCallShape base).kwargs.keys
  maximalPositional : override.Binds (maximalPositionalCallShape base).args.length
    (maximalPositionalCallShape base).kwargs.keys
  maximalKeyword : override.Binds (maximalKeywordCallShape base).args.length
    (maximalKeywordCallShape base).kwargs.keys
  names : ∀ (i : Nat) (p q : Parameter), base.positional[i]? = some q →
    override.positional[i]? = some p → p.name = q.name

/-! ### Calls of the base -/

private theorem Accepted.room (h : Accepted base override) {n : Nat} {keywords : List String}
    (hb : base.Binds n keywords) :
    n ≤ override.positional.length ∨ override.varPositional? ≠ none := by
  rcases hb.room with hle | hvar
  · rcases h.maximalPositional.room with hle' | hvar
    · have := length_maximalPositionalCallShape base
      exact .inl (by omega)
    · exact .inr hvar
  · exact .inr (h.varPositional hvar)

private theorem mem_unfilled {s : Signature} {n : Nat} {p : Parameter} :
    p ∈ s.unfilled n ↔ (∃ i, n ≤ i ∧ s.positional[i]? = some p) ∨ p ∈ s.keywordOnly := by
  rw [Signature.unfilled, List.mem_append]
  apply or_congr_left
  rw [List.mem_iff_getElem?]
  constructor
  · rintro ⟨i, hi⟩
    rw [List.getElem?_drop] at hi
    exact ⟨n + i, by omega, hi⟩
  · rintro ⟨i, hle, hi⟩
    refine ⟨i - n, ?_⟩
    rw [List.getElem?_drop, Nat.add_sub_cancel' hle]
    exact hi

private theorem mem_filled {s : Signature} {n : Nat} {p : Parameter} :
    p ∈ s.positional.take n ↔ ∃ i, i < n ∧ s.positional[i]? = some p := by
  rw [List.mem_iff_getElem?]
  apply exists_congr
  intro i
  rw [List.getElem?_take]
  split
  · next hi => simp [hi]
  · next hi => simp [hi]

private theorem mem_slot_names {s : Signature} {n : Nat} {k : String} :
    k ∈ (s.keywordSlots n).map Parameter.name ↔
      ∃ p ∈ s.unfilled n, p.isNamed = true ∧ p.name = k := by
  simp only [Signature.keywordSlots, List.mem_map, List.mem_filter, and_assoc]

private theorem isNamed_of_keywordOnly {s : Signature} {p : Parameter} (h : p ∈ s.keywordOnly) :
    p.isNamed = true := by
  rw [Signature.mem_keywordOnly] at h
  simp [Parameter.isNamed, h.2]

private theorem mem_parameters_of_unfilled {s : Signature} {n : Nat} {p : Parameter}
    (h : p ∈ s.unfilled n) : p ∈ s.parameters := by
  rcases mem_unfilled.mp h with ⟨i, -, hi⟩ | hk
  · exact (Signature.mem_of_getElem? hi).1
  · exact (Signature.mem_keywordOnly.mp hk).1

/-- A keyword of the base is a keyword of the override. -/
theorem Accepted.known (h : Accepted base override) {n : Nat} {keywords : List String}
    (hb : base.Binds n keywords)
    (hsingle : ∀ p ∈ override.positional.take n, p.isNamed = true → p.name ∉ keywords) :
    ∀ k ∈ keywords, k ∈ (override.keywordSlots n).map Parameter.name ∨
      override.varKeyword? ≠ none := by
  intro k hk
  by_cases hvar : override.varKeyword? = none
  · have hbase : base.varKeyword? = none := by
      by_contra hne
      exact h.varKeyword hne hvar
    have hslot := (hb.known k hk).resolve_right (not_not.mpr hbase)
    obtain ⟨q, hq, hnamed, hname⟩ := mem_slot_names.mp hslot
    have hsample := (maximalKeywordCallShape_spec base).2 q (mem_parameters_of_unfilled hq) hnamed
    have hslot' := (h.maximalKeyword.known q.name hsample).resolve_right (not_not.mpr hvar)
    obtain ⟨p, hp, hnamed', hname'⟩ := mem_slot_names.mp hslot'
    refine .inl (mem_slot_names.mpr ⟨p, ?_, hnamed', hname'.trans hname⟩)
    rcases mem_unfilled.mp hp with ⟨i, -, hi⟩ | hkeyword
    · refine mem_unfilled.mpr (.inl ⟨i, ?_, hi⟩)
      by_contra hlt
      apply hsingle p (mem_filled.mpr ⟨i, by omega, hi⟩) hnamed'
      rw [hname', hname]
      exact hk
    · exact mem_unfilled.mpr (.inr hkeyword)
  · exact .inr hvar

/-- A parameter that the minimal call passes as a keyword is in every call. -/
theorem mem_of_minimum {n : Nat} {keywords : List String} (hb : base.Binds n keywords) {k : String}
    (hk : k ∈ (minimumCallShape base).kwargs.keys) : k ∈ keywords := by
  obtain ⟨q, hq, hd, rfl⟩ := (minimumCallShape_spec base).2 k hk
  exact (hb.required q (mem_unfilled.mpr (.inr hq)) hd).2

private theorem length_minimum_le {i : Nat} {q : Parameter} (hq : base.positional[i]? = some q)
    (hd : q.hasDefault = true) : (minimumCallShape base).args.length ≤ i := by
  rw [(minimumCallShape_spec base).1]
  apply Signature.countP_le_of_tail
  intro j p hij hp
  simp [Signature.hasDefault_of_le hij hq hp hd]

private theorem length_maximalKeyword_le {i : Nat} {q : Parameter}
    (hq : base.positional[i]? = some q)
    (hkind : q.kind = .positionalOrKeyword) : (maximalKeywordCallShape base).args.length ≤ i := by
  rw [(maximalKeywordCallShape_spec base).1]
  apply Signature.countP_le_of_tail
  intro j p hij hp
  simp [Signature.kind_of_le hij hq hp hkind]

/-- What the override requires is in every call of the base. -/
theorem Accepted.required (h : Accepted base override) {n : Nat} {keywords : List String}
    (hb : base.Binds n keywords) :
    ∀ p ∈ override.unfilled n, p.hasDefault = false → p.isNamed = true ∧ p.name ∈ keywords := by
  intro p hp hd
  have hminimum : p ∈ override.unfilled (minimumCallShape base).args.length →
      p.isNamed = true ∧ p.name ∈ keywords := by
    intro hm
    obtain ⟨hnamed, hk⟩ := h.minimum.required p hm hd
    exact ⟨hnamed, mem_of_minimum hb hk⟩
  rcases mem_unfilled.mp hp with ⟨i, hn, hi⟩ | hkeyword
  · by_cases hlt : (minimumCallShape base).args.length ≤ i
    · exact hminimum (mem_unfilled.mpr (.inl ⟨i, hlt, hi⟩))
    · -- the base has a required parameter at this place, and the call does not fill it by position
      have hlen : (minimumCallShape base).args.length ≤ base.positional.length := by
        rw [(minimumCallShape_spec base).1]
        exact List.countP_le_length
      have hq : base.positional[i]? = some (base.positional[i]) :=
        List.getElem?_eq_getElem (by omega)
      have hrequired : (base.positional[i]).hasDefault = false := by
        by_contra hdefault
        rw [Bool.not_eq_false] at hdefault
        exact hlt (length_minimum_le hq hdefault)
      obtain ⟨hnamed, hk⟩ := hb.required _ (mem_unfilled.mpr (.inl ⟨i, hn, hq⟩)) hrequired
      have hkind := Signature.isNamed_of_positional (Signature.mem_of_getElem? hq).2 hnamed
      have hle := length_maximalKeyword_le hq hkind
      have hsample := h.maximalKeyword.required p (mem_unfilled.mpr (.inl ⟨i, hle, hi⟩)) hd
      refine ⟨hsample.1, ?_⟩
      rw [h.names i p _ hq hi]
      exact hk
  · exact hminimum (mem_unfilled.mpr (.inr hkeyword))

/-- Without a clash no name is filled twice. -/
theorem Accepted.single (h : Accepted base override) (hclash : NoClash base override) {n : Nat}
    {keywords : List String} (hb : base.Binds n keywords) :
    ∀ p ∈ override.positional.take n, p.isNamed = true → p.name ∉ keywords := by
  intro p hp hnamed hk
  obtain ⟨j, hj, hpos⟩ := mem_filled.mp hp
  have hkind := Signature.isNamed_of_positional (Signature.mem_of_getElem? hpos).2 hnamed
  obtain ⟨hfront, hback⟩ := hclash j p hpos hkind
  by_cases hin : j < base.positional.length
  · have hq : base.positional[j]? = some (base.positional[j]) := List.getElem?_eq_getElem hin
    have hname := h.names j p _ hq hpos
    rcases hb.known p.name hk with hslot | hvar
    · obtain ⟨q, hq', -, hqname⟩ := mem_slot_names.mp hslot
      have heq : q = base.positional[j] := Signature.eq_of_name (mem_parameters_of_unfilled hq')
        (Signature.mem_of_getElem? hq).1 (hqname.trans hname)
      rcases mem_unfilled.mp hq' with ⟨i, hi, hqi⟩ | hkeyword
      · have := Signature.index_eq_of_name hqi hq (by rw [heq])
        omega
      · have hpositional := (Signature.mem_of_getElem? hq).2
        rw [← heq] at hpositional
        simp [Parameter.isPositional, (Signature.mem_keywordOnly.mp hkeyword).2] at hpositional
    · by_cases hqnamed : (base.positional[j]).isNamed = true
      · apply hb.single _ (mem_filled.mpr ⟨j, hj, hq⟩) hqnamed
        rw [← hname]
        exact hk
      · apply hvar
        apply hfront _ hq
        have hpositional := (Signature.mem_of_getElem? hq).2
        cases hqkind : (base.positional[j]).kind <;>
          simp [Parameter.isPositional, Parameter.isNamed, hqkind] at hpositional hqnamed ⊢
  · have hvar : base.varPositional? ≠ none := by
      rcases hb.room with hle | hvar
      · omega
      · exact hvar
    obtain ⟨hnone, hkeywords⟩ := hback (by omega) hvar
    have hslot := (hb.known p.name hk).resolve_right (not_not.mpr hnone)
    obtain ⟨q, hq, -, hqname⟩ := mem_slot_names.mp hslot
    rcases mem_unfilled.mp hq with ⟨i, hi, hqi⟩ | hkeyword
    · have := (List.getElem?_eq_some_iff.mp hqi).1
      omega
    · exact hkeywords q hkeyword hqname

private theorem Accepted.binds (h : Accepted base override) (hclash : NoClash base override)
    {n : Nat} {keywords : List String} (hb : base.Binds n keywords) : override.Binds n keywords :=
  have hsingle := h.single hclash hb
  ⟨h.room hb, hsingle, h.required hb, h.known hb hsingle⟩

/-! ### A call that clashes -/

/-- Every keyword-only name, and one keyword more. -/
def clashKeywords (base : Signature) (name : String) : OrderedDict String Nat :=
  (OrderedDict.ofItems (base.keywordOnly.map fun p ↦ (p.name, 0))).set name 0

private theorem mem_clashKeywords {name k : String} :
    k ∈ (clashKeywords base name).keys ↔ k = name ∨ ∃ p ∈ base.keywordOnly, p.name = k := by
  have hnodup : ((base.keywordOnly.map fun p ↦ (p.name, 0)).map Prod.fst).Nodup := by
    rw [List.map_map]
    exact base.nodup_names.sublist (List.filter_sublist.map _)
  rw [clashKeywords, OrderedDict.mem_keys_set, OrderedDict.keys,
    OrderedDict.items_ofItems _ hnodup, List.map_map, List.mem_map]
  rfl

private theorem binds_clashKeywords {n : Nat} {name : String} (hn : base.positional.length ≤ n)
    (hroom : n ≤ base.positional.length ∨ base.varPositional? ≠ none)
    (hfree : ∀ p ∈ base.positional, p.isNamed = true → p.name ≠ name)
    (hknown : (∃ p ∈ base.keywordOnly, p.name = name) ∨ base.varKeyword? ≠ none) :
    base.Binds n (clashKeywords base name).keys := by
  refine ⟨hroom, ?_, ?_, ?_⟩
  · intro p hp hnamed hk
    have hpos := List.mem_of_mem_take hp
    rcases mem_clashKeywords.mp hk with hname | ⟨q, hq, hname⟩
    · exact hfree p hpos hnamed hname
    · have hpos := Signature.mem_positional.mp hpos
      obtain ⟨hq, hkind⟩ := Signature.mem_keywordOnly.mp hq
      rw [Signature.eq_of_name hq hpos.1 hname] at hkind
      simp [Parameter.isPositional, hkind] at hpos
  · intro p hp _
    rcases mem_unfilled.mp hp with ⟨i, hi, hpi⟩ | hkeyword
    · have := (List.getElem?_eq_some_iff.mp hpi).1
      omega
    · exact ⟨isNamed_of_keywordOnly hkeyword, mem_clashKeywords.mpr (.inr ⟨p, hkeyword, rfl⟩)⟩
  · have hslot : ∀ p ∈ base.keywordOnly, p.name ∈ (base.keywordSlots n).map Parameter.name := by
      intro p hp
      exact mem_slot_names.mpr ⟨p, mem_unfilled.mpr (.inr hp), isNamed_of_keywordOnly hp, rfl⟩
    intro k hk
    rcases mem_clashKeywords.mp hk with rfl | ⟨p, hp, rfl⟩
    · rcases hknown with ⟨p, hp, hname⟩ | hvar
      · rw [← hname]
        exact .inl (hslot p hp)
      · exact .inr hvar
    · exact .inl (hslot p hp)

private theorem Accepted.noClash (h : Accepted base override)
    (hbinds : ∀ (args : List Nat) (kwargs : OrderedDict String Nat),
      base.Binds args.length kwargs.keys → override.Binds args.length kwargs.keys) :
    NoClash base override := by
  intro i p hp hkind
  have hnamed : p.isNamed = true := by simp [Parameter.isNamed, hkind]
  -- no call may fill the parameter by position and pass its name
  have hrefuse : ∀ n, i < n → ¬base.Binds n (clashKeywords base p.name).keys := by
    intro n hn hb
    have ho := hbinds (List.replicate n 0) (clashKeywords base p.name)
    rw [List.length_replicate] at ho
    exact (ho hb).single p (mem_filled.mpr ⟨i, hn, hp⟩) hnamed (mem_clashKeywords.mpr (.inl rfl))
  constructor
  · intro q hq hqkind
    by_contra hvar
    have hlt := (List.getElem?_eq_some_iff.mp hq).1
    refine hrefuse _ hlt (binds_clashKeywords (Nat.le_refl _) (.inl (Nat.le_refl _)) ?_ (.inr hvar))
    intro q' hq' hnamed' hname
    have heq := Signature.eq_of_name (Signature.mem_positional.mp hq').1
      (Signature.mem_of_getElem? hq).1 (hname.trans (h.names i p q hq hp))
    rw [heq] at hnamed'
    simp [Parameter.isNamed, hqkind] at hnamed'
  · intro hle hvar
    have hfree : ∀ q ∈ base.positional, q.isNamed = true → q.name ≠ p.name := by
      intro q hq _ hname
      obtain ⟨j, hj⟩ := List.mem_iff_getElem?.mp hq
      have hjlt := (List.getElem?_eq_some_iff.mp hj).1
      have hilt := (List.getElem?_eq_some_iff.mp hp).1
      have hpj : override.positional[j]? = some (override.positional[j]) :=
        List.getElem?_eq_getElem (by omega)
      have := Signature.index_eq_of_name hpj hp ((h.names j _ q hj hpj).trans hname)
      omega
    have hfull : ((∃ q ∈ base.keywordOnly, q.name = p.name) ∨ base.varKeyword? ≠ none) → False :=
      fun hknown ↦ hrefuse (i + 1) (by omega)
        (binds_clashKeywords (by omega) (.inr hvar) hfree hknown)
    constructor
    · by_contra hkw
      exact hfull (.inr hkw)
    · exact fun q hq hname ↦ hfull (.inl ⟨q, hq, hname⟩)

/-! ### The probe -/

private theorem getElem_slots_range {s : Signature} {n i : Nat} {p : Parameter}
    (hp : s.positional[i]? = some p) (hi : i < n) :
    ((s.positional.zip (List.range n)).map fun slot ↦ (slot.1.name, Argument.value slot.2))[i]? =
      some (p.name, .value i) :=
  Signature.getElem?_slots hp (List.getElem?_range hi)

/-- A search that succeeds in the positional slots is decided there. -/
theorem find?_arguments {s : Signature} {n i : Nat} {p : Parameter}
    {P : String × Argument Nat → Bool} (hp : s.positional[i]? = some p) (hi : i < n)
    (hP : P (p.name, .value i) = true)
    (hbefore : ∀ (j : Nat) (q : Parameter), j < i → s.positional[j]? = some q →
      P (q.name, .value j) = false) :
    (s.arguments (List.range n) .empty).find? P = some (p.name, .value i) := by
  have hslots : ((s.positional.zip (List.range n)).map fun slot ↦
      (slot.1.name, Argument.value slot.2)).find? P = some (p.name, .value i) := by
    obtain ⟨hlt, hget⟩ := List.getElem?_eq_some_iff.mp (getElem_slots_range hp hi)
    rw [List.find?_eq_some_iff_getElem]
    refine ⟨hP, i, hlt, hget, ?_⟩
    intro j hj
    have hjlt : j < s.positional.length := by
      have := (List.getElem?_eq_some_iff.mp hp).1
      omega
    have hq : s.positional[j]? = some (s.positional[j]) := List.getElem?_eq_getElem hjlt
    obtain ⟨hlt', hget'⟩ := List.getElem?_eq_some_iff.mp
      (getElem_slots_range hq (Nat.lt_trans hj hi))
    rw [hget', hbefore j _ hj hq]
    rfl
  simp only [Signature.arguments, List.find?_append, hslots, Option.some_or]

private theorem argument?_of_position {s : Signature} {n i : Nat} {q : Parameter}
    (hq : s.positional[i]? = some q) (hi : i < n) :
    argument? (s.arguments (List.range n) .empty) q.name = some (.value i) := by
  unfold argument?
  rw [find?_arguments hq hi (by simp)]
  · rfl
  · intro j p hj hp
    rw [decide_eq_false_iff_not]
    intro hname
    have := Signature.index_eq_of_name hp hq hname
    omega

private theorem destination_of_position {s : Signature} {n i : Nat} {p : Parameter}
    (hp : s.positional[i]? = some p) (hi : i < n) :
    destination i (s.arguments (List.range n) .empty) = some p.name := by
  unfold destination
  rw [find?_arguments hp hi (by simp [carries])]
  · rfl
  · intro j q hj _
    simp [carries]
    omega

private theorem find?_parameter {s : Signature} {p : Parameter} (hp : p ∈ s.parameters) :
    s.parameters.find? (fun q ↦ q.name = p.name) = some p := by
  have hsome : (s.parameters.find? fun q ↦ q.name = p.name).isSome = true := by
    rw [List.find?_isSome]
    exact ⟨p, hp, by simp⟩
  obtain ⟨q, hq⟩ := Option.isSome_iff_exists.mp hsome
  rw [hq, Signature.eq_of_name (List.mem_of_find?_eq_some hq) hp]
  simpa using List.find?_some hq

private theorem names_of_checkDestination {label : String} {i : Nat} {p q : Parameter}
    (hq : base.positional[i]? = some q) (hp : override.positional[i]? = some p)
    (h : checkDestination override label
      (base.arguments (List.range base.positional.length) .empty)
      (override.arguments (List.range base.positional.length) .empty) q = .ok ()) :
    p.name = q.name := by
  have hi := (List.getElem?_eq_some_iff.mp hq).1
  unfold checkDestination at h
  rw [argument?_of_position hq hi] at h
  dsimp only at h
  rw [destination_of_position hp hi] at h
  dsimp only at h
  obtain ⟨hmem, hpositional⟩ := Signature.mem_of_getElem? hp
  rw [find?_parameter hmem] at h
  dsimp only at h
  split at h
  · cases h
  · next hguard =>
    by_contra hne
    apply hguard
    refine ⟨hne, ?_⟩
    intro hkind
    simp [Parameter.isPositional, hkind] at hpositional

/-! ### Acceptance -/

private theorem forM_ok {ε β : Type} {f : β → Except ε Unit} {l : List β} (h : l.forM f = .ok ()) :
    ∀ b ∈ l, f b = .ok () := by
  induction l with
  | nil => simp
  | cons b l ih =>
    obtain ⟨u, hb, hl⟩ := bind_ok h
    rw [List.forall_mem_cons]
    exact ⟨hb, ih hl⟩

private theorem binds_of_checkShape {label : String} {shape : CallShape}
    (h : checkShape base override label shape = .ok ()) :
    override.Binds shape.args.length shape.kwargs.keys := by
  unfold checkShape at h
  split at h
  · cases h
  · split at h
    · cases h
    · next bound hbound => exact (Signature.exists_bind_iff _ _ _).mp ⟨bound, hbound⟩

private theorem arguments_of_uncaught {s : Signature} {args : List Nat}
    {kwargs : OrderedDict String Nat}
    {bound : List (String × Argument Nat)} (h : uncaught (s.bindPartial args kwargs) = .ok bound) :
    bound = s.arguments args kwargs := by
  cases hb : s.bindPartial args kwargs with
  | error e =>
    rw [hb] at h
    cases h
  | ok b =>
    rw [hb] at h
    cases h
    exact Signature.bind_eq_arguments hb

private theorem accepted_of_ok {label : String}
    (h : assertOverrideSubstitutable base override label = .ok ()) : Accepted base override := by
  unfold assertOverrideSubstitutable at h
  split at h
  · cases h
  · next hpositional =>
    split at h
    · cases h
    · next hkeyword =>
      obtain ⟨u, hshapes, hprobe⟩ := bind_ok h
      have hshape := forM_ok hshapes
      obtain ⟨baseBound, hbase, hprobe⟩ := bind_ok hprobe
      obtain ⟨overrideBound, hoverride, hprobe⟩ := bind_ok hprobe
      rw [arguments_of_uncaught hbase, arguments_of_uncaught hoverride] at hprobe
      refine ⟨?_, ?_, ?_, ?_, ?_, ?_⟩
      · exact fun hb ho ↦ hpositional ⟨hb, ho⟩
      · exact fun hb ho ↦ hkeyword ⟨hb, ho⟩
      · exact binds_of_checkShape (hshape _ (by simp))
      · exact binds_of_checkShape (hshape _ (by simp))
      · exact binds_of_checkShape (hshape _ (by simp))
      · intro i p q hq hp
        exact names_of_checkDestination hq hp (forM_ok hprobe q (List.mem_of_getElem? hq))

private theorem Accepted.substitutable (h : Accepted base override)
    (hclash : NoClash base override) :
    Substitutable base override := by
  intro args kwargs bound hbound
  have hb := (Signature.exists_bind_iff _ _ _).mp ⟨bound, hbound⟩
  have ho := h.binds hclash hb
  obtain ⟨bound', hbound'⟩ := (Signature.exists_bind_iff _ _ _).mpr ho
  refine ⟨bound', hbound', ?_⟩
  rw [Signature.bind_eq_arguments hbound, Signature.bind_eq_arguments hbound']
  intro i v q hv hq
  refine ⟨Signature.mem_arguments_of_position hq hv, ?_⟩
  by_cases hi : i < override.positional.length
  · have hp : override.positional[i]? = some (override.positional[i]) :=
      List.getElem?_eq_getElem hi
    rw [← h.names i _ q hq hp]
    exact .inl (Signature.mem_arguments_of_position hp hv)
  · have hvar : override.varPositional? ≠ none := by
      rcases ho.room with hle | hvar
      · have := (List.getElem?_eq_some_iff.mp hv).1
        omega
      · exact hvar
    obtain ⟨star, hstar⟩ := Option.ne_none_iff_exists'.mp hvar
    exact .inr ⟨star, _, hstar, Signature.mem_arguments_of_extra hstar (by omega) hv⟩

end

/-- An accepted override takes every call of its base exactly when no call can fill one of its
parameters by position and by keyword. -/
theorem substitutable_iff_noClash {base override : Signature} {label : String}
    (h : assertOverrideSubstitutable base override label = .ok ()) :
    Substitutable base override ↔ NoClash base override := by
  have haccepted := accepted_of_ok h
  constructor
  · intro hsub
    apply haccepted.noClash
    intro args kwargs hb
    obtain ⟨bound, hbound⟩ := (Signature.exists_bind_iff _ _ _).mpr hb
    obtain ⟨bound', hbound', -⟩ := hsub args kwargs bound hbound
    exact (Signature.exists_bind_iff _ _ _).mp ⟨bound', hbound'⟩
  · exact haccepted.substitutable

/-- `(self, forward_context, **kwargs)`, the base of `start_load_kv`. -/
def hookSignature : Signature where
  parameters := [⟨"self", .positionalOrKeyword, false⟩,
    ⟨"forward_context", .positionalOrKeyword, false⟩, ⟨"kwargs", .varKeyword, false⟩]
  nodup_names := by decide
  ordered := by decide
  defaults_last := by decide
  variadic_default := by decide

/-- `(self, forward_context, *args, retries=0, **options)`, an override of it. -/
def hookOverride : Signature where
  parameters := [⟨"self", .positionalOrKeyword, false⟩,
    ⟨"forward_context", .positionalOrKeyword, false⟩, ⟨"args", .varPositional, false⟩,
    ⟨"retries", .keywordOnly, true⟩, ⟨"options", .varKeyword, false⟩]
  nodup_names := by decide
  ordered := by decide
  defaults_last := by decide
  variadic_default := by decide

private theorem noClash_hookOverride : NoClash hookSignature hookOverride := by
  intro i p _ _
  constructor
  · intro q hq hqkind
    have hnamed : ∀ q ∈ hookSignature.positional, q.kind ≠ .positionalOnly := by decide
    exact absurd hqkind (hnamed q (List.mem_of_getElem? hq))
  · intro _ hvar
    exact absurd (by decide) hvar

/-- The check accepts an override with other parameters, which takes every call of the base. -/
theorem substitutable_hookOverride : Substitutable hookSignature hookOverride :=
  have haccepted :
      assertOverrideSubstitutable hookSignature hookOverride "start_load_kv" = .ok () := by
    decide +kernel
  (substitutable_iff_noClash haccepted).mpr noClash_hookOverride

/-- `(self, /, **options)`. -/
def positionalOnlyBase : Signature where
  parameters := [⟨"self", .positionalOnly, false⟩, ⟨"options", .varKeyword, false⟩]
  nodup_names := by decide
  ordered := by decide
  defaults_last := by decide
  variadic_default := by decide

/-- `(self, **options)`. -/
def namedOverride : Signature where
  parameters := [⟨"self", .positionalOrKeyword, false⟩, ⟨"options", .varKeyword, false⟩]
  nodup_names := by decide
  ordered := by decide
  defaults_last := by decide
  variadic_default := by decide

/-- The override is accepted, and refuses a keyword that the base takes. -/
theorem accepted_override_refuses_call :
    assertOverrideSubstitutable positionalOnlyBase namedOverride "hook" = .ok () ∧
      ¬Substitutable positionalOnlyBase namedOverride := by
  refine ⟨by decide +kernel, ?_⟩
  intro h
  obtain ⟨bound', hbound', -⟩ := h [0] (OrderedDict.empty.set "self" 1)
    [("self", .value 0), ("options", .mapping [("self", 1)])] (by decide +kernel)
  have herror : namedOverride.bind [0] (OrderedDict.empty.set "self" 1) =
      .error "multiple values for argument" := by decide +kernel
  rw [herror] at hbound'
  cases hbound'

end SpoolCache.Connector
