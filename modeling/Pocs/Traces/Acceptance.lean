import Pocs.Traces.Rules
import Pocs.Traces.Validation

/-! # What the validator accepts

Each check of `validate` succeeds if and only if its rules hold: the tables of the header say what it
declares (`Declares`), the map of a step what is recorded up to it (`Covers`), and the loop over the
balances lists each note once (`Gathers`). -/

namespace Pocs.Traces

/-! ## Checks -/

@[simp] theorem failWith_eq_ok {α : Type} {x : Option α} {e : α → Error} {u : Unit} :
    failWith x e = .ok u ↔ x = none := by
  cases x <;> simp [failWith]

theorem isDecimal_iff {value : String} : isDecimal value = true ↔ IsDecimal value := by
  simp [isDecimal, IsDecimal]

theorem LayoutField.isAmount_iff {f : LayoutField} : f.isAmount = true ↔ f.IsAmount := by
  unfold LayoutField.isAmount LayoutField.IsAmount FieldType.isInteger
  cases f.ty <;> simp

theorem mem_windows {α : Type} {n : Nat} {xs ys : List α} (hn : ys.length = n) :
    ys ∈ windows n xs ↔ ys <:+: xs := by
  simp only [windows, List.mem_map, List.mem_range]
  constructor
  · rintro ⟨i, -, rfl⟩
    exact (List.take_prefix _ _).isInfix.trans (List.drop_suffix _ _).isInfix
  · rintro ⟨before, after, rfl⟩
    refine ⟨before.length, ?_, ?_⟩
    · rw [List.length_append, List.length_append]
      omega
    · rw [List.append_assoc, List.drop_left, ← hn, List.take_left]

theorem Tx.carries_iff {tx : Tx} {bytes : Hex} :
    tx.carries bytes = true ↔ ∃ input, tx.input = some input ∧ bytes ≠ [] ∧ bytes <:+: input := by
  simp only [Tx.carries, Bool.and_eq_true, Bool.not_eq_true', List.isEmpty_eq_false_iff, Option.any_eq_true,
    List.any_eq_true, beq_iff_eq, exists_eq_right, mem_windows rfl]
  tauto

theorem firstRepeat_eq_none {seen ids : List String} :
    firstRepeat seen ids = none ↔ ids.Nodup ∧ ∀ id ∈ ids, id ∉ seen := by
  induction ids generalizing seen with
  | nil => simp [firstRepeat]
  | cons id ids ih =>
    rw [firstRepeat, List.nodup_cons, List.forall_mem_cons]
    split
    · next hmem =>
      rw [List.contains_iff_mem] at hmem
      simp [hmem]
    · next hmem =>
      rw [List.contains_iff_mem] at hmem
      rw [ih]
      simp only [List.mem_cons, not_or]
      constructor
      · rintro ⟨hnodup, hids⟩
        exact ⟨⟨fun hid => (hids id hid).1 rfl, hnodup⟩, hmem, fun id' hid' => (hids id' hid').2⟩
      · rintro ⟨⟨hid, hnodup⟩, -, hids⟩
        exact ⟨hnodup, fun id' hid' => ⟨fun heq => hid (heq ▸ hid'), hids id' hid'⟩⟩

@[simp] theorem unique_eq_ok {what : String} {ids : List String} {u : Unit} :
    unique what ids = .ok u ↔ ids.Nodup := by
  rw [unique, failWith_eq_ok, firstRepeat_eq_none]
  simp

theorem LayoutField.overruns_eq_false {len : UInt32} {f : LayoutField} :
    f.overruns len = false ↔ f.offset.toNat + f.ty.width ≤ len.toNat := by
  have hlen := len.toNat_lt
  unfold LayoutField.overruns
  split
  · next last h =>
    obtain ⟨-, rfl⟩ := checkedAdd_eq_some.mp h
    rw [decide_eq_false_iff_not]
    exact not_lt
  · next h =>
    have hover : ¬ f.offset.toNat + f.ty.width < 2 ^ 32 := fun hlt =>
      (Option.some_ne_none _ ((checkedAdd_eq_some.mpr ⟨hlt, rfl⟩).symm.trans h)).elim
    exact iff_of_false Bool.noConfusion (by omega)

theorem validateLayout_eq_ok {l : NoteLayout} {u : Unit} : validateLayout l = .ok u ↔
    ∀ len fields, l.codec = .fixed len fields → (fields.map LayoutField.name).Nodup ∧
      ∀ f ∈ fields, f.offset.toNat + f.ty.width ≤ len.toNat := by
  unfold validateLayout
  split
  · next len fields hcodec =>
    simp only [bind_eq_ok, unique_eq_ok, failWith_eq_ok, exists_const, hcodec, Codec.fixed.injEq, and_imp,
      List.find?_eq_none, Bool.not_eq_true, LayoutField.overruns_eq_false]
    exact ⟨fun h len fields hlen hfields => hlen ▸ hfields ▸ h, fun h => h _ _ rfl rfl⟩
  · next hcodec =>
    rw [hcodec]
    exact iff_of_true rfl fun _ _ h => (by cases h)

theorem mem_chains {h : Header} {chainId : UInt64} :
    chainId ∈ SortedMap.collectKeys (h.chains.map Chain.chainId) ↔ h.HasChain chainId := by
  rw [SortedMap.mem_collectKeys, List.mem_map]
  rfl

theorem validateHeader_eq_ok {h : Header} {u : Unit} : validateHeader h = .ok u ↔ h.Valid := by
  have hlen : (SortedMap.collectKeys (h.chains.map Chain.chainId)).length = h.chains.length ↔
      (h.chains.map Chain.chainId).Nodup := by
    rw [← SortedMap.length_collectKeys_eq_iff, List.length_map]
  simp only [validateHeader, bind_eq_ok, failIf_eq_ok, unique_eq_ok, failWith_eq_ok, forM_eq_ok, exists_const,
    ne_eq, not_not, List.find?_eq_none, validateLayout_eq_ok, List.contains_iff_mem, Bool.not_eq_true',
    Bool.not_eq_false, mem_chains, hlen]
  constructor
  · rintro ⟨schema, personas, observers, fields, assets, actions, circuits, noteDomains, noteLayouts, keys,
      not_core, chains, asset_chain, layouts⟩
    exact ⟨schema, personas, observers, fields, assets, actions, circuits, noteDomains, noteLayouts, keys,
      not_core, chains, asset_chain, layouts⟩
  · rintro ⟨schema, personas, observers, fields, assets, actions, circuits, noteDomains, noteLayouts, keys,
      not_core, chains, asset_chain, layouts⟩
    exact ⟨schema, personas, observers, fields, assets, actions, circuits, noteDomains, noteLayouts, keys,
      not_core, chains, asset_chain, layouts⟩

structure Declares (declared : Declared) (h : Header) : Prop where
  personas : ∀ {id}, id ∈ declared.personas ↔ h.HasPersona id
  observers : ∀ {id}, id ∈ declared.observers ↔ h.HasObserver id
  fields : ∀ {id}, id ∈ declared.fields ↔ h.HasField id
  chains : ∀ {id}, id ∈ declared.chains ↔ h.HasChain id
  assets : ∀ {id}, id ∈ declared.assets ↔ h.HasAsset id
  actions : ∀ {id}, id ∈ declared.actions ↔ h.HasAction id
  domains : ∀ {id}, id ∈ declared.domains ↔ h.HasDomain id
  keys : ∀ {persona key}, (persona, key) ∈ declared.keys ↔ h.HoldsKey persona key
  circuits : ∀ {id names}, declared.circuits.lookup id = some names ↔
    ∃ c ∈ h.circuits, c.id = id ∧ c.publicInputs.length = names
  layouts : ∀ {id l}, declared.layouts.lookup id = some l ↔ l ∈ h.noteLayouts ∧ l.id = id
  sorted : declared.personas.Pairwise (· < ·) ∧ declared.observers.Pairwise (· < ·) ∧
    declared.fields.Pairwise (· < ·)

theorem Header.Valid.declares {h : Header} (valid : h.Valid) : Declares (.new h) h where
  personas := by simp [Declared.new, SortedMap.mem_collectKeys, Header.HasPersona]
  observers := by simp [Declared.new, SortedMap.mem_collectKeys, Header.HasObserver]
  fields := by simp [Declared.new, SortedMap.mem_collectKeys, Header.HasField]
  chains := mem_chains
  assets := by simp [Declared.new, SortedMap.mem_collectKeys, Header.HasAsset]
  actions := by simp [Declared.new, SortedMap.mem_collectKeys, Header.HasAction]
  domains := by simp [Declared.new, SortedMap.mem_collectKeys, Header.HasDomain]
  keys := by
    intro persona key
    simp only [Declared.new, Header.HoldsKey, List.mem_flatMap, List.mem_map, Prod.mk.injEq]
    constructor
    · rintro ⟨p, hp, k, hk, hpersona, hkey⟩
      exact ⟨p, hp, hpersona, k, hk, hkey⟩
    · rintro ⟨p, hp, hpersona, k, hk, hkey⟩
      exact ⟨p, hp, k, hk, hpersona, hkey⟩
  circuits := SortedMap.lookup_collect_map valid.circuits
  layouts := by
    intro id l
    rw [Declared.new, SortedMap.lookup_collect_map valid.noteLayouts]
    constructor
    · rintro ⟨_, hl, hid, rfl⟩
      exact ⟨hl, hid⟩
    · rintro ⟨hl, hid⟩
      exact ⟨l, hl, hid, rfl⟩
  sorted := ⟨SortedMap.sorted_collectKeys _, SortedMap.sorted_collectKeys _, SortedMap.sorted_collectKeys _⟩

/-! ## What is recorded -/

/-- The map holds the artifacts, whose ids are distinct. -/
structure Covers (seen : Seen) (as : List Artifact) : Prop where
  nodup : (as.map Artifact.id).Nodup
  lookup : ∀ {id a}, seen.lookup id = some a ↔ a ∈ as ∧ a.id = id

section
variable {seen seen' : Seen} {as : List Artifact} {a : Artifact}

theorem Covers.isSome_iff (cov : Covers seen as) {id : UInt32} :
    (seen.lookup id).isSome ↔ ∃ a ∈ as, a.id = id := by
  rw [Option.isSome_iff_exists]
  exact exists_congr fun _ => cov.lookup

theorem Covers.isNone_iff (cov : Covers seen as) {id : UInt32} :
    (seen.lookup id).isNone ↔ ¬ ∃ a ∈ as, a.id = id := by
  rw [← cov.isSome_iff, Option.not_isSome_iff_eq_none, Option.isNone_iff_eq_none]

theorem Covers.insert (cov : Covers seen as) (hfresh : a.id ∉ as.map Artifact.id) :
    Covers (SortedMap.insert a.id a seen) (as ++ [a]) where
  nodup := by
    rw [List.map_append, List.nodup_append]
    refine ⟨cov.nodup, List.nodup_singleton _, fun x hx y hy heq => hfresh ?_⟩
    obtain rfl := List.mem_singleton.mp hy
    exact heq ▸ hx
  lookup {id b} := by
    rw [List.mem_append, List.mem_singleton]
    by_cases heq : id = a.id
    · subst heq
      rw [SortedMap.lookup_insert_self, Option.some.injEq]
      constructor
      · rintro rfl
        exact ⟨.inr rfl, rfl⟩
      · rintro ⟨hold | rfl, hid⟩
        · exact absurd (List.mem_map.mpr ⟨b, hold, hid⟩) hfresh
        · rfl
    · rw [SortedMap.lookup_insert_of_ne heq, cov.lookup]
      constructor
      · rintro ⟨hb, rfl⟩
        exact ⟨.inl hb, rfl⟩
      · rintro ⟨hold | rfl, rfl⟩
        · exact ⟨hold, rfl⟩
        · exact absurd rfl heq

theorem record_eq_ok (cov : Covers seen as) : record seen a = .ok seen' ↔
    a.id ∉ as.map Artifact.id ∧ SortedMap.insert a.id a seen = seen' := by
  simp only [record, bind_eq_ok, failIf_eq_ok, pure_eq_ok, exists_const, cov.isSome_iff, List.mem_map]

/-- A step's artifacts are recorded if and only if no id repeats. -/
theorem records_eq_ok (cov : Covers seen as) {bs : List Artifact} :
    (∃ seen', bs.foldlM record seen = .ok seen') ↔ ((as ++ bs).map Artifact.id).Nodup := by
  induction bs generalizing seen as with
  | nil =>
    rw [List.append_nil]
    exact iff_of_true ⟨seen, rfl⟩ cov.nodup
  | cons b bs ih =>
    rw [show as ++ b :: bs = as ++ [b] ++ bs by rw [List.append_assoc]; rfl]
    simp only [List.foldlM_cons, bind_eq_ok, record_eq_ok cov]
    by_cases hfresh : b.id ∈ as.map Artifact.id
    · refine iff_of_false (fun h => ?_) fun h => ?_
      · obtain ⟨_, _, ⟨hne, -⟩, -⟩ := h
        exact hne hfresh
      · rw [List.map_append, List.map_append, List.nodup_append, List.nodup_append] at h
        exact h.1.2.2 _ hfresh _ List.mem_cons_self rfl
    · rw [← ih (cov.insert hfresh)]
      constructor
      · rintro ⟨seen', _, ⟨-, rfl⟩, h⟩
        exact ⟨seen', h⟩
      · rintro ⟨seen', h⟩
        exact ⟨seen', _, ⟨hfresh, rfl⟩, h⟩

theorem Covers.records (cov : Covers seen as) {bs : List Artifact}
    (h : bs.foldlM record seen = .ok seen') : Covers seen' (as ++ bs) := by
  induction bs generalizing seen as with
  | nil =>
    obtain rfl := pure_eq_ok.mp h
    rwa [List.append_nil]
  | cons b bs ih =>
    simp only [List.foldlM_cons, bind_eq_ok, record_eq_ok cov] at h
    obtain ⟨_, ⟨hfresh, rfl⟩, hrest⟩ := h
    have hcov := ih (cov.insert hfresh) hrest
    rwa [List.append_assoc] at hcov

end

/-! ## The checks of a step -/

/-- An artifact that may carry a note. -/
def Artifact.Carries (a : Artifact) : Prop := (∃ tx, a = .tx tx) ∨ ∃ m, a = .message m

theorem Artifact.carries_iff {a : Artifact} : ["tx", "message"].contains a.kind = true ↔ a.Carries := by
  cases a <;> simp [Artifact.kind, Artifact.Carries]

section
variable {declared : Declared} {h : Header} {seen : Seen} {as : List Artifact} {u : Unit}

theorem refersTo_eq_ok (cov : Covers seen as) {id : UInt32} :
    refersTo seen id ["tx", "message"] = .ok u ↔ ∃ a ∈ as, a.id = id ∧ a.Carries := by
  unfold refersTo
  split
  · next hnone =>
    constructor
    · intro hok
      cases hok
    · rintro ⟨a, ha, hid, -⟩
      cases (cov.lookup.mpr ⟨ha, hid⟩).symm.trans hnone
  · next a hsome =>
    obtain ⟨ha, hid⟩ := cov.lookup.mp hsome
    rw [failIf_eq_ok, not_not, Artifact.carries_iff]
    constructor
    · intro hcarries
      exact ⟨a, ha, hid, hcarries⟩
    · rintro ⟨b, hb, hbid, hcarries⟩
      obtain rfl := Option.some.inj (hsome.symm.trans (cov.lookup.mpr ⟨hb, hbid⟩))
      exact hcarries

theorem Declares.isNone_layout (dec : Declares declared h) {id : String} :
    (declared.layouts.lookup id).isNone ↔ ¬ h.HasLayout id := by
  rw [Option.isNone_iff_eq_none, Option.eq_none_iff_forall_ne_some, Header.HasLayout, not_exists]
  exact forall_congr' fun l => not_congr dec.layouts

theorem validateForm_eq_ok (dec : Declares declared h) {n : Note} : validateForm n declared = .ok u ↔
    n.sealed.isSome ≠ n.opened.isSome ∧ (∀ x, n.sealed = some x →
        h.HasDomain x.domain ∧ h.HasLayout x.layout ∧ h.HoldsKey n.recipient x.key) ∧
      ∀ x, n.opened = some x → x.plaintext.isObject ∧ h.HasPersona x.decryptedBy := by
  unfold validateForm
  cases n.sealed with
  | none =>
    cases n.opened with
    | none => simp
    | some opened =>
      simp only [bind_eq_ok, failIf_eq_ok, not_not, exists_const, List.contains_iff_mem, dec.personas]
      simp
  | some sealed =>
    cases n.opened with
    | none =>
      simp only [failIf_eq_ok, not_or, not_not, List.contains_iff_mem, dec.domains, dec.isNone_layout, dec.keys]
      simp
    | some opened => simp

theorem validateNote_eq_ok (dec : Declares declared h) (cov : Covers seen as) {n : Note} :
    validateNote n declared seen = .ok u ↔ n.Valid h ∧ ∃ a ∈ as, a.id = n.carriedBy ∧ a.Carries := by
  simp only [validateNote, bind_eq_ok, failIf_eq_ok, not_not, refersTo_eq_ok cov, List.contains_iff_mem,
    dec.personas, exists_const, validateForm_eq_ok dec]
  constructor
  · rintro ⟨recipient, carried, exactly_one, hsealed, hopened⟩
    exact ⟨⟨recipient, exactly_one, hsealed, hopened⟩, carried⟩
  · rintro ⟨⟨recipient, exactly_one, hsealed, hopened⟩, carried⟩
    exact ⟨recipient, carried, exactly_one, hsealed, hopened⟩

/-- What rules 2, 4, 5 and 8 ask of an artifact. -/
structure Artifact.Valid (h : Header) (as : List Artifact) (a : Artifact) : Prop where
  chain : ∀ tx, a = .tx tx → h.HasChain tx.chainId
  note : ∀ n, a = .note n → n.Valid h ∧ ∃ b ∈ as, b.id = n.carriedBy ∧ b.Carries
  message : ∀ m, a = .message m → h.HasPersona m.from ∧ h.HasPersona m.to

theorem validateArtifact_eq_ok (dec : Declares declared h) (cov : Covers seen as) {a : Artifact} :
    validateArtifact a declared seen = .ok u ↔ a.Valid h as := by
  have hvalid : a.Valid h as ↔ (∀ tx, a = .tx tx → h.HasChain tx.chainId) ∧
      (∀ n, a = .note n → n.Valid h ∧ ∃ b ∈ as, b.id = n.carriedBy ∧ b.Carries) ∧
      ∀ m, a = .message m → h.HasPersona m.from ∧ h.HasPersona m.to :=
    ⟨fun v => ⟨v.chain, v.note, v.message⟩, fun v => ⟨v.1, v.2.1, v.2.2⟩⟩
  rw [hvalid]
  cases a with
  | tx tx => simp [validateArtifact, dec.chains]
  | note n => simp [validateArtifact, validateNote_eq_ok dec cov]
  | message m => simp [validateArtifact, dec.personas]
  | proof | state => simp [validateArtifact]

/-- The rules of a cell. -/
structure Cell.Valid (as : List Artifact) (c : Cell) : Prop where
  cites : c.evidence ≠ [] ↔ c.level ≠ .notApplicable
  evidence : ∀ id ∈ c.evidence, ∃ a ∈ as, a.id = id

theorem validateCell_eq_ok (cov : Covers seen as) {observer field : String} {c : Cell} :
    validateCell observer seen field c = .ok u ↔ c.Valid as := by
  have hcites : ((c.level == .notApplicable) = c.evidence.isEmpty) ↔
      (c.evidence ≠ [] ↔ c.level ≠ .notApplicable) := by
    rw [Bool.eq_iff_iff, beq_iff_eq, List.isEmpty_iff]
    tauto
  simp only [validateCell, bind_eq_ok, failIf_eq_ok, failWith_eq_ok, ne_eq, not_not, List.find?_eq_none,
    cov.isNone_iff, exists_const, hcites]
  exact ⟨fun v => ⟨v.1, v.2⟩, fun v => ⟨v.cites, v.evidence⟩⟩

theorem validateRow_eq_ok (dec : Declares declared h) (cov : Covers seen as) {observer : String}
    {row : BTreeMap String Cell} : validateRow declared seen observer row = .ok u ↔
      (∀ f, f ∈ row.keys ↔ h.HasField f) ∧ ∀ e ∈ row.entries, e.2.Valid as := by
  simp only [validateRow, bind_eq_ok, failIf_eq_ok, ne_eq, not_not, exists_const, forM_eq_ok,
    validateCell_eq_ok cov, BTreeMap.keys_eq_iff dec.sorted.2.2, dec.fields]

theorem validateObservations_eq_ok (dec : Declares declared h) (cov : Covers seen as) {s : Step} :
    validateObservations s declared seen = .ok u ↔
      (∀ o, o ∈ s.observations.keys ↔ h.HasObserver o) ∧ ∀ row ∈ s.observations.entries,
        (∀ f, f ∈ row.2.keys ↔ h.HasField f) ∧ ∀ e ∈ row.2.entries, e.2.Valid as := by
  simp only [validateObservations, bind_eq_ok, failIf_eq_ok, ne_eq, not_not, exists_const, forM_eq_ok,
    validateRow_eq_ok dec cov, BTreeMap.keys_eq_iff dec.sorted.2.1, dec.observers]

/-! ## Wallets -/

/-- The function adds the keys of a good element, which are new, to those it was given. -/
structure Gathers {α κ ε : Type} (f : List κ → α → Except ε (List κ)) (Good : α → Prop) (keys : α → List κ) :
    Prop where
  eq_ok : ∀ {listed x listed'}, f listed x = .ok listed' ↔
    Good x ∧ (keys x).Nodup ∧ List.Disjoint (keys x) listed ∧ listed' = (keys x).reverse ++ listed

theorem Gathers.foldlM {α κ ε : Type} {f : List κ → α → Except ε (List κ)} {Good : α → Prop}
    {keys : α → List κ} (hf : Gathers f Good keys) :
    Gathers (fun listed xs => xs.foldlM f listed) (fun xs => ∀ x ∈ xs, Good x) (List.flatMap keys) where
  eq_ok {listed xs listed'} := by
    induction xs generalizing listed with
    | nil => simp [pure_eq_ok, @eq_comm _ listed]
    | cons x xs ih =>
      simp only [List.foldlM_cons, bind_eq_ok, hf.eq_ok, List.forall_mem_cons, List.flatMap_cons,
        List.nodup_append', List.disjoint_append_left, List.reverse_append, List.append_assoc]
      have hdisjoint : ∀ {ks ks' : List κ}, List.Disjoint ks (ks'.reverse ++ listed) ↔
          List.Disjoint ks' ks ∧ List.Disjoint ks listed := fun {ks ks'} => by
        rw [List.disjoint_append_right, List.disjoint_comm]
        simp only [List.Disjoint, List.mem_reverse]
      constructor
      · rintro ⟨_, ⟨hx, hnodup, hnew, rfl⟩, hrest⟩
        obtain ⟨hxs, hnodup', hnew', rfl⟩ := ih.mp hrest
        obtain ⟨happart, hnew'⟩ := hdisjoint.mp hnew'
        exact ⟨⟨hx, hxs⟩, ⟨hnodup, hnodup', happart⟩, ⟨hnew, hnew'⟩, rfl⟩
      · rintro ⟨⟨hx, hxs⟩, ⟨hnodup, hnodup', happart⟩, ⟨hnew, hnew'⟩, rfl⟩
        exact ⟨_, ⟨hx, hnodup, hnew, rfl⟩, ih.mpr ⟨hxs, hnodup', hdisjoint.mpr ⟨happart, hnew'⟩, rfl⟩⟩

/-- Rule 10 of a note that the persona's balance lists. -/
def Listed (h : Header) (as : List Artifact) (persona : String) (id : UInt32) : Prop :=
  ∃ n, .note n ∈ as ∧ n.id = id ∧ n.recipient = persona ∧ n.HasAmount h

theorem Codec.hasAmount_iff {c : Codec} : c.hasAmount = true ↔
    ∀ len fields, c = .fixed len fields → ∃ f ∈ fields, f.IsAmount := by
  cases c with
  | fixed len fields =>
    simp only [Codec.hasAmount, List.any_eq_true, LayoutField.isAmount_iff, Codec.fixed.injEq, and_imp]
    constructor
    · rintro h _ _ - rfl
      exact h
    · intro h
      exact h _ _ rfl rfl
  | json => exact iff_of_true rfl fun _ _ h => (by cases h)

theorem Opened.hasAmount_iff {x : Opened} : x.hasAmount = true ↔
    ∃ amount, x.plaintext.get "amount" = some (.string amount) ∧ IsDecimal amount := by
  have hstr : ∀ {j : Json} {amount}, j.asStr = some amount ↔ j = .string amount := fun {j amount} => by
    cases j <;> simp [Json.asStr]
  simp only [Opened.hasAmount, Option.any_eq_true, Option.bind_eq_some_iff, hstr, exists_eq_right,
    isDecimal_iff]

theorem noteHasAmount_iff (dec : Declares declared h) {n : Note} :
    noteHasAmount n declared.layouts = true ↔ n.HasAmount h := by
  unfold noteHasAmount
  split
  · next x hsealed =>
    rw [Option.any_eq_true]
    constructor
    · rintro ⟨l, hlookup, hamount⟩
      obtain ⟨hl, hid⟩ := dec.layouts.mp hlookup
      exact .sealed hsealed hl hid (Codec.hasAmount_iff.mp hamount)
    · intro h
      cases h with
      | sealed hx hl hid hamount =>
        obtain rfl := Option.some.inj (hsealed.symm.trans hx)
        exact ⟨_, dec.layouts.mpr ⟨hl, hid⟩, Codec.hasAmount_iff.mpr hamount⟩
      | opened hnone => cases hsealed.symm.trans hnone
  · next x hsealed hopened =>
    rw [Opened.hasAmount_iff]
    constructor
    · rintro ⟨amount, hmember, hdecimal⟩
      exact .opened hsealed hopened hmember hdecimal
    · intro h
      cases h with
      | sealed hx => cases hsealed.symm.trans hx
      | opened _ hx hmember hdecimal =>
        obtain rfl := Option.some.inj (hopened.symm.trans hx)
        exact ⟨_, hmember, hdecimal⟩
  · next hsealed hopened =>
    refine iff_of_false Bool.false_ne_true fun h => ?_
    cases h with
    | sealed hx => cases hsealed.symm.trans hx
    | opened _ hx => cases hopened.symm.trans hx

theorem listNote_gathers (dec : Declares declared h) (cov : Covers seen as) (persona : String)
    (b : Balance) : Gathers (listNote declared seen persona b) (Listed h as persona) ([·]) where
  eq_ok {listed id listed'} := by
    unfold listNote
    split
    · next n hsome =>
      obtain ⟨hn, hid⟩ := cov.lookup.mp hsome
      have hlisted : Listed h as persona id ↔ n.recipient = persona ∧ n.HasAmount h := by
        constructor
        · rintro ⟨m, hm, hmid, h⟩
          obtain rfl : n = m :=
            Artifact.note.inj (Option.some.inj (hsome.symm.trans (cov.lookup.mpr ⟨hm, hmid⟩)))
          exact h
        · intro h
          exact ⟨n, hn, hid, h⟩
      simp only [bind_eq_ok, failIf_eq_ok, pure_eq_ok, exists_const, ne_eq, not_not, List.contains_iff_mem,
        noteHasAmount_iff dec, hlisted, List.nodup_singleton, List.singleton_disjoint,
        List.reverse_singleton, List.singleton_append, true_and, @eq_comm _ (id :: listed)]
      tauto
    · next hnone =>
      constructor
      · intro hok
        cases hok
      · rintro ⟨⟨n, hn, hid, -⟩, -⟩
        exact absurd (cov.lookup.mpr ⟨hn, hid⟩) (hnone n)

/-- The rules of a balance. -/
structure Balance.Valid (h : Header) (as : List Artifact) (persona : String) (b : Balance) : Prop where
  asset : h.HasAsset b.asset
  decimal : IsDecimal b.amount
  confidential : b.notes ≠ [] → b.kind = .confidential
  listed : ∀ id ∈ b.notes, Listed h as persona id

theorem validateBalance_gathers (dec : Declares declared h) (cov : Covers seen as) (persona : String) :
    Gathers (validateBalance declared seen persona) (Balance.Valid h as persona) Balance.notes where
  eq_ok {listed b listed'} := by
    have hkind : ¬ (b.kind = .public ∧ ¬ b.notes.isEmpty) ↔ (b.notes ≠ [] → b.kind = .confidential) := by
      rw [List.isEmpty_iff]
      cases b.kind <;> simp
    have hnotes := (listNote_gathers dec cov persona b).foldlM
    simp only [validateBalance, bind_eq_ok, failIf_eq_ok, exists_const, List.contains_iff_mem, not_not,
      dec.assets, isDecimal_iff, hkind, hnotes.eq_ok, List.flatMap_singleton']
    constructor
    · rintro ⟨hasset, hdecimal, hconfidential, hlisted, hrest⟩
      exact ⟨⟨hasset, hdecimal, hconfidential, hlisted⟩, hrest⟩
    · rintro ⟨⟨hasset, hdecimal, hconfidential, hlisted⟩, hrest⟩
      exact ⟨hasset, hdecimal, hconfidential, hlisted, hrest⟩

theorem validateWallets_eq_ok (dec : Declares declared h) (cov : Covers seen as) {s : Step} :
    validateWallets s declared seen = .ok u ↔ (∀ p, p ∈ s.wallets.keys ↔ h.HasPersona p) ∧
      (∀ e ∈ s.wallets.entries, ∀ b ∈ e.2, b.Valid h as e.1) ∧
        (s.wallets.entries.flatMap fun e => e.2.flatMap Balance.notes).Nodup := by
  have hwallet : Gathers (fun listed (e : String × List Balance) =>
      e.2.foldlM (validateBalance declared seen e.1) listed)
      (fun e => ∀ b ∈ e.2, b.Valid h as e.1) (fun e => e.2.flatMap Balance.notes) :=
    ⟨(validateBalance_gathers dec cov _).foldlM.eq_ok⟩
  simp only [validateWallets, bind_eq_ok, failIf_eq_ok, ne_eq, not_not, exists_const, pure_eq_ok,
    BTreeMap.keys_eq_iff dec.sorted.1, dec.personas, hwallet.foldlM.eq_ok, List.disjoint_nil_right, true_and,
    and_true, exists_and_left, exists_eq]

/-! ## Steps -/

/-- The rules of a step, once the artifacts are recorded. -/
structure Step.Valid (h : Header) (as : List Artifact) (s : Step) : Prop where
  named : s.Named h
  artifacts : ∀ a ∈ s.artifacts, a.Valid h as
  observers : ∀ o, o ∈ s.observations.keys ↔ h.HasObserver o
  rows : ∀ row ∈ s.observations.entries,
    (∀ f, f ∈ row.2.keys ↔ h.HasField f) ∧ ∀ e ∈ row.2.entries, e.2.Valid as
  personas : ∀ p, p ∈ s.wallets.keys ↔ h.HasPersona p
  balances : ∀ e ∈ s.wallets.entries, ∀ b ∈ e.2, b.Valid h as e.1
  once : (s.wallets.entries.flatMap fun e => e.2.flatMap Balance.notes).Nodup

theorem validateStep_eq_ok (dec : Declares declared h) (cov : Covers seen as) {s : Step} {seen' : Seen} :
    validateStep s declared seen = .ok seen' ↔
      s.artifacts.foldlM record seen = .ok seen' ∧ s.Valid h (as ++ s.artifacts) := by
  simp only [validateStep, bind_eq_ok, failIf_eq_ok, failWith_eq_ok, forM_eq_ok, pure_eq_ok, exists_const,
    List.contains_eq_mem, decide_eq_true_eq, not_not, List.find?_eq_none, Bool.or_eq_true,
    Bool.not_eq_true', decide_eq_false_iff_not, not_or, dec.personas, dec.actions, dec.observers]
  constructor
  · rintro ⟨actor, action, roles, _, hrecord, artifacts, _, hobservations, _, hwallets, rfl⟩
    have cov' := cov.records hrecord
    simp only [validateArtifact_eq_ok dec cov'] at artifacts
    obtain ⟨observers, rows⟩ := (validateObservations_eq_ok dec cov').mp hobservations
    obtain ⟨personas, balances, once⟩ := (validateWallets_eq_ok dec cov').mp hwallets
    exact ⟨hrecord, ⟨actor, action, roles, fun m hm => (artifacts _ hm).message m rfl⟩, artifacts, observers,
      rows, personas, balances, once⟩
  · rintro ⟨hrecord, named, artifacts, observers, rows, personas, balances, once⟩
    have cov' := cov.records hrecord
    refine ⟨named.actor, named.action, named.roles, _, hrecord, fun a ha => ?_, (), ?_, (), ?_, rfl⟩
    · exact (validateArtifact_eq_ok dec cov').mpr (artifacts a ha)
    · exact (validateObservations_eq_ok dec cov').mpr ⟨observers, rows⟩
    · exact (validateWallets_eq_ok dec cov').mpr ⟨personas, balances, once⟩

def validateSteps (declared : Declared) (position : Nat) (steps : List Step) (seen : Seen) :
    Except Error Seen :=
  (steps.zipIdx position).foldlM (fun seen e => mapErr (Error.inStep e.2) (validateStep e.1 declared seen)) seen

theorem validateSteps_cons {position : Nat} {s : Step} {steps : List Step} {seen' : Seen} :
    validateSteps declared position (s :: steps) seen = .ok seen' ↔
      ∃ next, validateStep s declared seen = .ok next ∧
        validateSteps declared (position + 1) steps next = .ok seen' := by
  rw [validateSteps, List.zipIdx_cons, List.foldlM_cons, bind_eq_ok]
  simp only [mapErr_eq_ok]
  rfl

theorem Covers.steps (dec : Declares declared h) (cov : Covers seen as) {position : Nat} {steps : List Step}
    {seen' : Seen} (hok : validateSteps declared position steps seen = .ok seen') :
    Covers seen' (as ++ steps.flatMap Step.artifacts) := by
  induction steps generalizing position seen as with
  | nil =>
    obtain rfl := pure_eq_ok.mp hok
    rwa [List.flatMap_nil, List.append_nil]
  | cons s steps ih =>
    obtain ⟨next, hnext, hrest⟩ := validateSteps_cons.mp hok
    have hcov := ih (cov.records ((validateStep_eq_ok dec cov).mp hnext).1) hrest
    rwa [List.append_assoc] at hcov

/-- The steps are accepted if and only if no id repeats and each is valid with what is recorded up to it. -/
theorem validateSteps_iff (dec : Declares declared h) (cov : Covers seen as) {position : Nat}
    {steps : List Step} : (∃ seen', validateSteps declared position steps seen = .ok seen') ↔
      ((as ++ steps.flatMap Step.artifacts).map Artifact.id).Nodup ∧
        ∀ (i : Nat) (s : Step), steps[i]? = some s → s.Valid h (as ++ (steps.take (i + 1)).flatMap Step.artifacts) := by
  induction steps generalizing position seen as with
  | nil =>
    rw [List.flatMap_nil, List.append_nil]
    exact iff_of_true ⟨seen, rfl⟩ ⟨cov.nodup, fun i s hs => by cases hs⟩
  | cons s steps ih =>
    have hshift : ∀ i, as ++ ((s :: steps).take (i + 1)).flatMap Step.artifacts =
        as ++ s.artifacts ++ (steps.take i).flatMap Step.artifacts := fun i => by
      rw [List.take_succ_cons, List.flatMap_cons, List.append_assoc]
    rw [List.flatMap_cons, ← List.append_assoc]
    simp only [validateSteps_cons, hshift]
    constructor
    · rintro ⟨seen', next, hnext, hrest⟩
      obtain ⟨hrecord, hvalid⟩ := (validateStep_eq_ok dec cov).mp hnext
      obtain ⟨hnodup, hlater⟩ := (ih (cov.records hrecord)).mp ⟨seen', hrest⟩
      refine ⟨hnodup, fun i s' hs' => ?_⟩
      cases i with
      | zero =>
        obtain rfl := Option.some.inj hs'
        rwa [List.take_zero, List.flatMap_nil, List.append_nil]
      | succ i => exact hlater i s' hs'
    · rintro ⟨hnodup, hvalid⟩
      have hfirst := hvalid 0 s rfl
      rw [List.take_zero, List.flatMap_nil, List.append_nil] at hfirst
      obtain ⟨next, hrecord⟩ := (records_eq_ok cov).mpr (by
        rw [List.map_append] at hnodup
        exact (List.nodup_append.mp hnodup).1)
      obtain ⟨seen', hrest⟩ := (ih (cov.records hrecord)).mpr ⟨hnodup, fun i s' hs' => hvalid (i + 1) s' hs'⟩
      exact ⟨seen', next, (validateStep_eq_ok dec cov).mpr ⟨hrecord, hfirst⟩, hrest⟩

theorem validateInputs_eq_ok (dec : Declares declared h) {p : Proof} : validateInputs p declared = .ok u ↔
      ∀ c ∈ h.circuits, c.id = p.circuit → p.publicInputs.length = c.publicInputs.length := by
  unfold validateInputs
  split
  · next names hsome =>
    rw [failIf_eq_ok, ne_eq, not_not]
    constructor
    · rintro rfl c hc hid
      exact Option.some.inj (hsome.symm.trans (dec.circuits.mpr ⟨c, hc, hid, rfl⟩))
    · intro hall
      obtain ⟨c, hc, hid, rfl⟩ := dec.circuits.mp hsome
      exact (hall c hc hid).symm
  · next hnone =>
    refine iff_of_true rfl fun c hc hid => ?_
    cases (dec.circuits.mpr ⟨c, hc, hid, rfl⟩).symm.trans hnone

theorem TxOutcome.isConfirmed_iff {o : TxOutcome} :
    o.isConfirmed = true ↔ ∃ hash blockNumber gasUsed, o = .confirmed hash blockNumber gasUsed := by
  cases o <;> simp [TxOutcome.isConfirmed]

theorem validateProof_eq_ok (dec : Declares declared h) {t : Trace} (cov : Covers seen t.artifacts)
    {p : Proof} : validateProof p declared seen = .ok u ↔ p.Verified t ∧
      ∀ c ∈ h.circuits, c.id = p.circuit → p.publicInputs.length = c.publicInputs.length := by
  rw [validateProof, bind_eq_ok]
  simp only [validateInputs_eq_ok dec, exists_const, and_comm (b := ∀ c ∈ h.circuits, _)]
  refine and_congr_right fun _ => ?_
  cases hverified : p.verifiedBy with
  | none => exact iff_of_true rfl ⟨fun id hid => by cases hverified.symm.trans hid⟩
  | some id =>
    -- the transaction that the id names, if it names one
    have htx : p.Verified t ↔ ∃ tx, seen.lookup id = some (.tx tx) ∧
        (∃ hash blockNumber gasUsed, tx.outcome = .confirmed hash blockNumber gasUsed) ∧
          ∃ input, tx.input = some input ∧ p.bytes ≠ [] ∧ p.bytes <:+: input := by
      constructor
      · rintro ⟨verifier⟩
        obtain ⟨tx, hmem, hid, hverifies⟩ := verifier id hverified
        exact ⟨tx, cov.lookup.mpr ⟨hmem, hid⟩, hverifies⟩
      · rintro ⟨tx, hlookup, hverifies⟩
        refine ⟨fun id' hid' => ?_⟩
        obtain rfl := Option.some.inj (hverified.symm.trans hid')
        obtain ⟨hmem, hid⟩ := cov.lookup.mp hlookup
        exact ⟨tx, hmem, hid, hverifies⟩
    show validateVerifier p id (seen.lookup id) = .ok u ↔ _
    rw [htx]
    cases seen.lookup id with
    | none => simp [validateVerifier]
    | some a =>
      cases a with
      | tx tx =>
        simp only [validateVerifier, bind_eq_ok, failIf_eq_ok, not_not, exists_const,
          TxOutcome.isConfirmed_iff, Tx.carries_iff, Option.some.injEq, Artifact.tx.injEq, exists_eq_left']
      | proof | note | message | state => simp [validateVerifier]

theorem validateProofs_eq_ok {s : Step} : validateProofs s declared seen = .ok u ↔
    ∀ p, .proof p ∈ s.artifacts → validateProof p declared seen = .ok () := by
  rw [validateProofs, forM_eq_ok]
  constructor
  · intro hall p hp
    exact hall _ hp
  · intro hall a ha
    cases a with
    | proof p => exact hall p ha
    | tx | note | message | state => rfl

end

/-! ## The trace -/

theorem Trace.mem_artifacts {t : Trace} {a : Artifact} : a ∈ t.artifacts ↔ ∃ s ∈ t.steps, a ∈ s.artifacts :=
  List.mem_flatMap

def Trace.StepsValid (t : Trace) : Prop :=
  t.header.Valid ∧ (t.artifacts.map Artifact.id).Nodup ∧
    (∀ (i : Nat) (s : Step), t.steps[i]? = some s → s.Valid t.header (t.upTo i)) ∧
      ∀ s ∈ t.steps, ∀ p, .proof p ∈ s.artifacts → p.Verified t ∧
        ∀ c ∈ t.header.circuits, c.id = p.circuit → p.publicInputs.length = c.publicInputs.length

theorem Trace.valid_iff {t : Trace} : t.Valid ↔ t.StepsValid := by
  constructor
  · intro v
    refine ⟨v.rule12, v.rule3, fun i s hs => ?_, fun s hs p hp => ?_⟩
    · have hmem := List.mem_of_getElem? hs
      have hartifact : ∀ {a}, a ∈ s.artifacts → a ∈ t.artifacts := fun ha =>
        Trace.mem_artifacts.mpr ⟨s, hmem, ha⟩
      refine ⟨v.rule2 s hmem, fun a ha => ⟨?_, ?_, ?_⟩, (v.rule6 s hmem).1, fun row hrow =>
        ⟨(v.rule6 s hmem).2 row hrow, fun e he => ⟨?_, ?_⟩⟩, (v.rule9 s hmem).1, fun e he b hb => ?_,
        v.rule10_once s hmem⟩
      · rintro tx rfl
        exact v.rule4 tx (hartifact ha)
      · rintro n rfl
        exact ⟨v.rule5 n (hartifact ha), v.rule8_carried i s hs n ha⟩
      · rintro m rfl
        exact (v.rule2 s hmem).messages m ha
      · exact v.rule7 s hmem _ ⟨row, hrow, e, he, rfl⟩
      · exact v.rule8_evidence i s hs _ ⟨row, hrow, e, he, rfl⟩
      · have hb' : s.HasBalance e.1 b := ⟨e, he, rfl, hb⟩
        obtain ⟨hasset, hdecimal⟩ := (v.rule9 s hmem).2 _ _ hb'
        obtain ⟨hconfidential, hlisted⟩ := v.rule10 i s hs _ _ hb'
        exact ⟨hasset, hdecimal, hconfidential, hlisted⟩
    · have hp' := Trace.mem_artifacts.mpr ⟨s, hs, hp⟩
      exact ⟨v.rule8_verified p hp', v.rule13 p hp'⟩
  · rintro ⟨hheader, hnodup, hsteps, hproofs⟩
    have hvalid : ∀ s ∈ t.steps, ∃ as, s.Valid t.header as := fun s hs => by
      obtain ⟨i, hi⟩ := List.mem_iff_getElem?.mp hs
      exact ⟨_, hsteps i s hi⟩
    exact {
      rule2 := fun s hs => by
        obtain ⟨_, v⟩ := hvalid s hs
        exact v.named
      rule3 := hnodup
      rule4 := fun tx htx => by
        obtain ⟨s, hs, hmem⟩ := Trace.mem_artifacts.mp htx
        obtain ⟨_, v⟩ := hvalid s hs
        exact (v.artifacts _ hmem).chain tx rfl
      rule5 := fun n hn => by
        obtain ⟨s, hs, hmem⟩ := Trace.mem_artifacts.mp hn
        obtain ⟨_, v⟩ := hvalid s hs
        exact ((v.artifacts _ hmem).note n rfl).1
      rule6 := fun s hs => by
        obtain ⟨_, v⟩ := hvalid s hs
        exact ⟨v.observers, fun row hrow => (v.rows row hrow).1⟩
      rule7 := fun s hs c hc => by
        obtain ⟨_, v⟩ := hvalid s hs
        obtain ⟨row, hrow, e, he, rfl⟩ := hc
        exact ((v.rows row hrow).2 e he).cites
      rule8_evidence := fun i s hs c hc => by
        obtain ⟨row, hrow, e, he, rfl⟩ := hc
        exact (((hsteps i s hs).rows row hrow).2 e he).evidence
      rule8_carried := fun i s hs n hn => (((hsteps i s hs).artifacts _ hn).note n rfl).2
      rule8_verified := fun p hp => by
        obtain ⟨s, hs, hmem⟩ := Trace.mem_artifacts.mp hp
        exact (hproofs s hs p hmem).1
      rule9 := fun s hs => by
        obtain ⟨_, v⟩ := hvalid s hs
        refine ⟨v.personas, fun p b hb => ?_⟩
        obtain ⟨e, he, rfl, hmem⟩ := hb
        exact ⟨(v.balances e he b hmem).asset, (v.balances e he b hmem).decimal⟩
      rule10 := fun i s hs p b hb => by
        obtain ⟨e, he, rfl, hmem⟩ := hb
        have hbalance := (hsteps i s hs).balances e he b hmem
        exact ⟨hbalance.confidential, hbalance.listed⟩
      rule10_once := fun s hs => by
        obtain ⟨_, v⟩ := hvalid s hs
        exact v.once
      rule12 := hheader
      rule13 := fun p hp => by
        obtain ⟨s, hs, hmem⟩ := Trace.mem_artifacts.mp hp
        exact (hproofs s hs p hmem).2 }

theorem validate_eq_ok {t : Trace} : validate t = .ok () ↔ t.StepsValid := by
  rw [Trace.StepsValid, validate, bind_eq_ok]
  simp only [validateHeader_eq_ok, exists_const]
  refine and_congr_right fun valid => ?_
  have dec := valid.declares
  have cov : Covers [] [] := ⟨List.nodup_nil, by simp⟩
  have hsteps := @validateSteps_iff _ _ _ _ dec cov 0 t.steps
  simp only [List.nil_append] at hsteps
  have hproofs : ∀ {seen : Seen} {u : Unit}, Covers seen t.artifacts →
      ((t.steps.zipIdx.forM fun e => mapErr (Error.inStep e.2) (validateProofs e.1 (.new t.header) seen)) =
        .ok u ↔ ∀ s ∈ t.steps, ∀ p, .proof p ∈ s.artifacts → p.Verified t ∧
          ∀ c ∈ t.header.circuits, c.id = p.circuit → p.publicInputs.length = c.publicInputs.length) := by
    intro seen u cov
    have hfst : t.steps = t.steps.zipIdx.map Prod.fst := (List.zipIdx_map_fst 0 t.steps).symm
    rw [hfst, List.forall_mem_map, ← hfst]
    simp only [forM_eq_ok, mapErr_eq_ok, validateProofs_eq_ok, validateProof_eq_ok dec cov]
  rw [← and_assoc]
  refine Iff.trans ?_ (and_congr_left' hsteps)
  rw [bind_eq_ok]
  constructor
  · rintro ⟨seen, hok, hall⟩
    exact ⟨⟨seen, hok⟩, (hproofs (cov.steps dec hok)).mp hall⟩
  · rintro ⟨⟨seen, hok⟩, hall⟩
    exact ⟨seen, hok, (hproofs (cov.steps dec hok)).mpr hall⟩

/-- A trace is accepted if and only if the rules hold of it. -/
theorem validate_accepts_iff (t : Trace) : validate t = .ok () ↔ t.Valid :=
  validate_eq_ok.trans Trace.valid_iff.symm

end Pocs.Traces
