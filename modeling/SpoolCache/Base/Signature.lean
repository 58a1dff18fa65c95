import SpoolCache.Base.Except
import SpoolCache.Base.OrderedDict

/-!
# Signatures and calls

Library `Base`. Parameters of a Python callable and what a call fills: positional arguments fill
positional parameters from the first on, keywords fill the parameters of their name that are left,
and the variadic parameters take what remains. `Signature.bind` is `inspect.Signature.bind` under
the documented calling convention: a keyword with the name of a positional-only parameter goes to
`**kwargs`, as in a call, where the `bind` of CPython 3.11 raises.
-/

namespace SpoolCache.Base

/-- `inspect.Parameter.kind`, in the order in which parameters are declared. -/
inductive ParameterKind where
  | positionalOnly
  | positionalOrKeyword
  | varPositional
  | keywordOnly
  | varKeyword
  deriving DecidableEq, Repr

def ParameterKind.rank : ParameterKind → Nat
  | .positionalOnly => 0
  | .positionalOrKeyword => 1
  | .varPositional => 2
  | .keywordOnly => 3
  | .varKeyword => 4

/-- `inspect.Parameter`; whether there is a default is all that a call sees of it. -/
structure Parameter where
  name : String
  kind : ParameterKind
  hasDefault : Bool
  deriving DecidableEq, Repr

namespace Parameter

/-- An argument without a name may fill the parameter alone. -/
def isPositional (p : Parameter) : Bool :=
  p.kind = .positionalOnly || p.kind = .positionalOrKeyword

/-- A keyword may fill the parameter alone. -/
def isNamed (p : Parameter) : Bool :=
  p.kind = .positionalOrKeyword || p.kind = .keywordOnly

def isVariadic (p : Parameter) : Bool :=
  p.kind = .varPositional || p.kind = .varKeyword

end Parameter

/-- `inspect.Signature`, with what its constructor checks. -/
structure Signature where
  parameters : List Parameter
  nodup_names : (parameters.map Parameter.name).Nodup
  ordered : parameters.Pairwise fun p q ↦
    p.kind.rank < q.kind.rank ∨ p.kind = q.kind ∧ p.isVariadic = false
  defaults_last : parameters.Pairwise fun p q ↦
    p.isPositional = true → q.isPositional = true → p.hasDefault = true → q.hasDefault = true
  variadic_default : ∀ p ∈ parameters, p.isVariadic = true → p.hasDefault = false

/-- What a parameter receives. -/
inductive Argument (α : Type) where
  | value (v : α)
  | tuple (vs : List α)
  | mapping (vs : List (String × α))
  deriving DecidableEq, Repr

namespace Signature

variable {α : Type}

def positional (s : Signature) : List Parameter := s.parameters.filter Parameter.isPositional

def keywordOnly (s : Signature) : List Parameter :=
  s.parameters.filter fun p ↦ p.kind = .keywordOnly

/-- The `*args` parameter. -/
def varPositional? (s : Signature) : Option Parameter :=
  s.parameters.find? fun p ↦ p.kind = .varPositional

/-- The `**kwargs` parameter. -/
def varKeyword? (s : Signature) : Option Parameter :=
  s.parameters.find? fun p ↦ p.kind = .varKeyword

/-- The parameters that `n` positional arguments leave to keywords and defaults. -/
def unfilled (s : Signature) (n : Nat) : List Parameter :=
  s.positional.drop n ++ s.keywordOnly

/-- The parameters that a keyword may fill after `n` positional arguments. -/
def keywordSlots (s : Signature) (n : Nat) : List Parameter :=
  (s.unfilled n).filter Parameter.isNamed

/-- The keywords that no parameter has the name of. -/
def surplus (s : Signature) (n : Nat) (kwargs : OrderedDict String α) : List (String × α) :=
  kwargs.items.filter fun item ↦ item.1 ∉ (s.keywordSlots n).map Parameter.name

/-- `BoundArguments.arguments` of a call that is accepted. -/
def arguments (s : Signature) (args : List α) (kwargs : OrderedDict String α) :
    List (String × Argument α) :=
  let extra := args.drop s.positional.length
  let rest := s.surplus args.length kwargs
  (s.positional.zip args).map (fun slot ↦ (slot.1.name, .value slot.2)) ++
    (if extra = [] then [] else s.varPositional?.toList.map fun p ↦ (p.name, .tuple extra)) ++
    (s.keywordSlots args.length).filterMap (fun p ↦
      (kwargs.get? p.name).map fun v ↦ (p.name, .value v)) ++
    (if rest = [] then [] else s.varKeyword?.toList.map fun p ↦ (p.name, .mapping rest))

/-- `Signature._bind`; the text is that of the `TypeError`. -/
def bindCall (s : Signature) (isPartial : Bool) (args : List α) (kwargs : OrderedDict String α) :
    Except String (List (String × Argument α)) :=
  if s.positional.length < args.length ∧ s.varPositional? = none then
    .error "too many positional arguments"
  else if ∃ p ∈ s.positional.take args.length, p.isNamed = true ∧ p.name ∈ kwargs.keys then
    .error "multiple values for argument"
  else if isPartial = false ∧ ∃ p ∈ s.unfilled args.length, p.hasDefault = false ∧
      ¬(p.isNamed = true ∧ p.name ∈ kwargs.keys) then
    .error "missing a required argument"
  else if s.surplus args.length kwargs ≠ [] ∧ s.varKeyword? = none then
    .error "got an unexpected keyword argument"
  else .ok (s.arguments args kwargs)

/-- `Signature.bind`. -/
def bind (s : Signature) (args : List α) (kwargs : OrderedDict String α) :
    Except String (List (String × Argument α)) := s.bindCall false args kwargs

/-- `Signature.bind_partial`. -/
def bindPartial (s : Signature) (args : List α) (kwargs : OrderedDict String α) :
    Except String (List (String × Argument α)) := s.bindCall true args kwargs

/-- A call with `n` positional arguments and these keywords is accepted. -/
structure Binds (s : Signature) (n : Nat) (keywords : List String) : Prop where
  room : n ≤ s.positional.length ∨ s.varPositional? ≠ none
  single : ∀ p ∈ s.positional.take n, p.isNamed = true → p.name ∉ keywords
  required : ∀ p ∈ s.unfilled n, p.hasDefault = false → p.isNamed = true ∧ p.name ∈ keywords
  known : ∀ k ∈ keywords, k ∈ (s.keywordSlots n).map Parameter.name ∨ s.varKeyword? ≠ none

private theorem surplus_eq_nil_iff {s : Signature} {n : Nat} {kwargs : OrderedDict String α} :
    s.surplus n kwargs = [] ↔ ∀ k ∈ kwargs.keys, k ∈ (s.keywordSlots n).map Parameter.name := by
  rw [surplus, List.filter_eq_nil_iff, OrderedDict.keys, List.forall_mem_map]
  simp only [decide_eq_true_eq, not_not]

/-- A call that binds, in part or whole, binds the arguments as they are laid out. -/
theorem bind_eq_arguments {s : Signature} {isPartial : Bool} {args : List α}
    {kwargs : OrderedDict String α} {bound : List (String × Argument α)}
    (h : s.bindCall isPartial args kwargs = .ok bound) : bound = s.arguments args kwargs := by
  unfold bindCall at h
  split at h
  · cases h
  · split at h
    · cases h
    · split at h
      · cases h
      · split at h
        · cases h
        · cases h
          rfl

/-- Whether a call binds depends on the number of its arguments and the names of its keywords. -/
theorem exists_bind_iff (s : Signature) (args : List α) (kwargs : OrderedDict String α) :
    (∃ bound, s.bind args kwargs = .ok bound) ↔ s.Binds args.length kwargs.keys := by
  unfold bind bindCall
  constructor
  · rintro ⟨bound, h⟩
    split at h
    · cases h
    · next hroom =>
      split at h
      · cases h
      · next hsingle =>
        split at h
        · cases h
        · next hrequired =>
          split at h
          · cases h
          · next hknown =>
            refine ⟨?_, ?_, ?_, ?_⟩
            · by_cases hn : args.length ≤ s.positional.length
              · exact .inl hn
              · exact .inr fun hv ↦ hroom ⟨by omega, hv⟩
            · exact fun p hp hnamed hk ↦ hsingle ⟨p, hp, hnamed, hk⟩
            · intro p hp hd
              by_contra hk
              exact hrequired ⟨rfl, p, hp, hd, hk⟩
            · intro k hk
              by_cases hv : s.varKeyword? = none
              · have hnil : s.surplus args.length kwargs = [] := by
                  by_contra hne
                  exact hknown ⟨hne, hv⟩
                exact .inl (surplus_eq_nil_iff.mp hnil k hk)
              · exact .inr hv
  · rintro ⟨hroom, hsingle, hrequired, hknown⟩
    rw [if_neg, if_neg, if_neg, if_neg]
    · exact ⟨_, rfl⟩
    · rintro ⟨hne, hv⟩
      apply hne
      rw [surplus_eq_nil_iff]
      exact fun k hk ↦ (hknown k hk).resolve_right (not_not.mpr hv)
    · rintro ⟨-, p, hp, hd, hk⟩
      exact hk (hrequired p hp hd)
    · rintro ⟨p, hp, hnamed, hk⟩
      exact hsingle p hp hnamed hk
    · rintro ⟨hn, hv⟩
      rcases hroom with hle | hsome
      · omega
      · exact hsome hv

/-! ### Positions -/

/-- The positional parameters are those that a place can fill. -/
theorem mem_positional {s : Signature} {p : Parameter} :
    p ∈ s.positional ↔ p ∈ s.parameters ∧ p.isPositional = true := List.mem_filter

/-- The keyword-only parameters are those of that kind. -/
theorem mem_keywordOnly {s : Signature} {p : Parameter} :
    p ∈ s.keywordOnly ↔ p ∈ s.parameters ∧ p.kind = .keywordOnly := by
  rw [keywordOnly, List.mem_filter, decide_eq_true_eq]

/-- A name belongs to one parameter. -/
theorem eq_of_name {s : Signature} {p q : Parameter} (hp : p ∈ s.parameters)
    (hq : q ∈ s.parameters) (h : p.name = q.name) : p = q :=
  List.inj_on_of_nodup_map s.nodup_names hp hq h

private theorem nodup_positional_names (s : Signature) : (s.positional.map Parameter.name).Nodup :=
  s.nodup_names.sublist (List.filter_sublist.map _)

/-- A name belongs to one place. -/
theorem index_eq_of_name {s : Signature} {i j : Nat} {p q : Parameter}
    (hp : s.positional[i]? = some p) (hq : s.positional[j]? = some q) (h : p.name = q.name) :
    i = j := by
  have hi : (s.positional.map Parameter.name)[i]? = some p.name := by
    rw [List.getElem?_map, hp]
    rfl
  have hj : (s.positional.map Parameter.name)[j]? = some p.name := by
    rw [List.getElem?_map, hq, h]
    rfl
  have hlt := (List.getElem?_eq_some_iff.mp hi).1
  exact (List.getElem?_inj hlt s.nodup_positional_names).mp (hi.trans hj.symm)

/-- A parameter that a place and a keyword can fill is of the kind for both. -/
theorem isNamed_of_positional {p : Parameter} (h : p.isPositional = true)
    (hn : p.isNamed = true) : p.kind = .positionalOrKeyword := by
  cases hk : p.kind <;> simp [Parameter.isPositional, Parameter.isNamed, hk] at h hn ⊢

private theorem positional_pairwise {s : Signature} {R : Parameter → Parameter → Prop}
    (hR : s.parameters.Pairwise R) {i j : Nat} {p q : Parameter} (hij : i < j)
    (hp : s.positional[i]? = some p) (hq : s.positional[j]? = some q) : R p q := by
  obtain ⟨hi, rfl⟩ := List.getElem?_eq_some_iff.mp hp
  obtain ⟨hj, rfl⟩ := List.getElem?_eq_some_iff.mp hq
  exact List.pairwise_iff_getElem.mp (hR.sublist List.filter_sublist) i j hi hj hij

/-- A parameter found at a place is one of the positional ones. -/
theorem mem_of_getElem? {s : Signature} {i : Nat} {p : Parameter}
    (h : s.positional[i]? = some p) : p ∈ s.parameters ∧ p.isPositional = true :=
  mem_positional.mp (List.mem_of_getElem? h)

/-- Positional-only parameters come first. -/
theorem kind_of_le {s : Signature} {i j : Nat} {p q : Parameter} (hij : i ≤ j)
    (hp : s.positional[i]? = some p) (hq : s.positional[j]? = some q)
    (h : p.kind = .positionalOrKeyword) : q.kind = .positionalOrKeyword := by
  rcases Nat.lt_or_eq_of_le hij with hlt | rfl
  · have hpos := (mem_of_getElem? hq).2
    have hrank := positional_pairwise s.ordered hlt hp hq
    rw [h] at hrank
    cases hk : q.kind <;>
      simp [Parameter.isPositional, ParameterKind.rank, hk] at hpos hrank ⊢
  · rw [hp] at hq
    cases hq
    exact h

/-- After a default every positional parameter has one. -/
theorem hasDefault_of_le {s : Signature} {i j : Nat} {p q : Parameter} (hij : i ≤ j)
    (hp : s.positional[i]? = some p) (hq : s.positional[j]? = some q)
    (h : p.hasDefault = true) : q.hasDefault = true := by
  rcases Nat.lt_or_eq_of_le hij with hlt | rfl
  · exact positional_pairwise s.defaults_last hlt hp hq (mem_of_getElem? hp).2
      (mem_of_getElem? hq).2 h
  · rw [hp] at hq
    cases hq
    exact h

/-- Where nothing counts from a place on, no more count than there are places before it. -/
theorem countP_le_of_tail {β : Type} {P : β → Bool} {l : List β} {j : Nat}
    (h : ∀ i b, j ≤ i → l[i]? = some b → P b = false) : l.countP P ≤ j := by
  have hdrop : (l.drop j).countP P = 0 := by
    rw [List.countP_eq_zero]
    intro b hb
    obtain ⟨i, hi⟩ := List.mem_iff_getElem?.mp hb
    rw [List.getElem?_drop] at hi
    simp [h (j + i) b (by omega) hi]
  calc l.countP P = (l.take j).countP P + (l.drop j).countP P := by
        rw [← List.countP_append, List.take_append_drop]
    _ ≤ (l.take j).length := by
        rw [hdrop]
        exact List.countP_le_length
    _ ≤ j := List.length_take_le j l

/-- Counting the positional parameters is counting among all of them. -/
theorem countP_positional {s : Signature} {P : Parameter → Bool} :
    s.positional.countP P = s.parameters.countP fun p ↦ P p && p.isPositional := by
  rw [positional, List.countP_filter]

/-! ### Arguments -/

/-- An argument goes to the parameter of its place. -/
theorem getElem?_slots {s : Signature} {args : List α} {i : Nat} {p : Parameter} {v : α}
    (hp : s.positional[i]? = some p) (hv : args[i]? = some v) :
    ((s.positional.zip args).map fun slot ↦ (slot.1.name, Argument.value slot.2))[i]? =
      some (p.name, .value v) := by
  have hzip : (s.positional.zip args)[i]? = some (p, v) := List.getElem?_zip_eq_some.mpr ⟨hp, hv⟩
  rw [List.getElem?_map, hzip]
  rfl

/-- An argument in place is bound to the name of the parameter. -/
theorem mem_arguments_of_position {s : Signature} {args : List α} {kwargs : OrderedDict String α}
    {i : Nat} {p : Parameter} {v : α} (hp : s.positional[i]? = some p) (hv : args[i]? = some v) :
    (p.name, .value v) ∈ s.arguments args kwargs := by
  have hm := List.mem_of_getElem? (getElem?_slots hp hv)
  simp only [arguments, List.mem_append]
  exact .inl (.inl (.inl hm))

/-- The arguments past the places go to the variadic parameter. -/
theorem mem_arguments_of_extra {s : Signature} {args : List α} {kwargs : OrderedDict String α}
    {i : Nat} {star : Parameter} {v : α} (hstar : s.varPositional? = some star)
    (hi : s.positional.length ≤ i) (hv : args[i]? = some v) :
    (star.name, .tuple (args.drop s.positional.length)) ∈ s.arguments args kwargs ∧
      v ∈ args.drop s.positional.length := by
  have hm : v ∈ args.drop s.positional.length := by
    apply List.mem_of_getElem?
    rw [List.getElem?_drop]
    rw [Nat.add_sub_cancel' hi]
    exact hv
  have hne : args.drop s.positional.length ≠ [] := List.ne_nil_of_mem hm
  refine ⟨?_, hm⟩
  simp only [arguments, List.mem_append, if_neg hne, hstar]
  exact .inl (.inl (.inr (by simp)))

end Signature

end SpoolCache.Base
