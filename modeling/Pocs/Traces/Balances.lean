import Pocs.Traces.Openings

/-! # Balances and the notes they list

The two passes over a trace look up the same objects: once the rules hold, every search of `check_notes` finds
what it looks for, so the amounts it enters are those of the notes (`readNotes_reads`), and each balance that
passes is their sum (`checkNotes_sums`). -/

namespace Pocs.Traces

section
variable {h : Header} {n : Note} {x : Sealed}

theorem Header.exists_findDomain (hd : h.HasDomain x.domain) : ∃ d, h.findDomain x = some d := by
  obtain ⟨d, hmem, hid⟩ := hd
  rw [← Option.isSome_iff_exists, findDomain, List.find?_isSome]
  exact ⟨d, hmem, beq_iff_eq.mpr hid⟩

theorem Header.exists_findLayout (hl : h.HasLayout x.layout) : ∃ l, h.findLayout x = some l := by
  obtain ⟨l, hmem, hid⟩ := hl
  rw [← Option.isSome_iff_exists, findLayout, List.find?_isSome]
  exact ⟨l, hmem, beq_iff_eq.mpr hid⟩

theorem Header.findLayout_some {l : NoteLayout} (hl : h.findLayout x = some l) :
    l ∈ h.noteLayouts ∧ l.id = x.layout :=
  ⟨List.mem_of_find?_eq_some hl, by simpa using List.find?_some hl⟩

/-- The persona that the search finds is the one that holds the key, as ids are unique. -/
theorem Header.Valid.exists_findKey (valid : h.Valid) (hk : h.HoldsKey n.recipient x.key) :
    ∃ k, h.findKey n x = some k := by
  obtain ⟨p, hp, hpid, k, hk, hkid⟩ := hk
  have hfind : h.personas.find? (fun q => q.id == n.recipient) = some p := by
    obtain ⟨q, hq⟩ : ∃ q, h.personas.find? (fun q => q.id == n.recipient) = some q := by
      rw [← Option.isSome_iff_exists, List.find?_isSome]
      exact ⟨p, hp, beq_iff_eq.mpr hpid⟩
    have hqid : q.id = n.recipient := by simpa using List.find?_some hq
    rw [hq, List.inj_on_of_nodup_map valid.personas (List.mem_of_find?_eq_some hq) hp (hqid.trans hpid.symm)]
  rw [← Option.isSome_iff_exists, findKey, hfind, Option.bind_some, List.find?_isSome]
  exact ⟨k, hk, beq_iff_eq.mpr hkid⟩

end

section
variable {fromSlice : List UInt8 → Option Value} {e : AmountError}

theorem badAmount_of_error {value : Json} (h : jsonAmount value = .error e) : BadAmount value e := by
  have hno : ∀ n < 2 ^ 128, ¬ AmountText value n := fun n hn htext => by
    cases h.symm.trans (jsonAmount_eq_ok.mpr ⟨hn, .inl htext⟩)
  simp only [jsonAmount, bind_eq_error, okOr_eq_error, okOr_eq_ok] at h
  rcases h with ⟨hstr, rfl⟩ | ⟨text, hstr, -, rfl⟩
  · exact .notString hstr
  · cases value with
    | string s =>
      obtain rfl := Option.some.inj hstr
      exact .notNumeral hno
    | null | bool | number | array | object => cases hstr

/-- A field within the plaintext is refused only for its value. -/
theorem readField_eq_error {plaintext : List UInt8} {f : LayoutField}
    (hf : f.offset.toNat + f.ty.width ≤ plaintext.length) (h : readField plaintext f = .error e) :
    e = .exceeds ∧ 2 ^ 128 ≤ beToNat ((plaintext.drop f.offset.toNat).take f.ty.width) := by
  constructor
  · simp only [readField, if_pos hf, bind_eq_error, okOr_eq_error, okOr_eq_ok, failIf_eq_error, pure] at h
    rcases h with ⟨hnone, -⟩ | ⟨_, -, ⟨-, rfl⟩ | ⟨_, -, h⟩⟩
    · cases hnone
    · rfl
    · cases h
  · by_contra hlt
    cases h.symm.trans ((readField_eq_ok hf).mpr ⟨rfl, not_le.mp hlt⟩)

theorem malformed_of_error {l : NoteLayout} {plaintext : List UInt8}
    (hends : ∀ (len : UInt32) (fields : List LayoutField), l.codec = .fixed len fields → ∀ f ∈ fields,
      f.offset.toNat + f.ty.width ≤ len.toNat)
    (h : readAmount fromSlice l.codec plaintext = .error e) : Malformed fromSlice l.codec plaintext e := by
  revert hends h
  cases l.codec with
  | fixed len fields =>
    intro hends h
    simp only [readAmount, bind_eq_error, failIf_eq_error, failIf_eq_ok, ne_eq, not_not] at h
    rcases h with ⟨hlen, rfl⟩ | ⟨_, hlen, h⟩
    · exact .length hlen
    · split at h
      · cases h
      · next f hfind =>
        have hmem := List.mem_of_find?_eq_some hfind
        have hname : f.name = "amount" := by simpa using List.find?_some hfind
        rcases bind_eq_error.mp h with hfield | ⟨_, -, h⟩
        · obtain ⟨rfl, hlarge⟩ := readField_eq_error (hlen ▸ hends len fields rfl f hmem) hfield
          exact .exceeds hmem hname hlen hlarge
        · cases h
  | json =>
    intro _ h
    simp only [readAmount, bind_eq_error, okOr_eq_error, okOr_eq_ok, failIf_eq_error, failIf_eq_ok, not_not] at h
    rcases h with ⟨hnone, rfl⟩ | ⟨value, hvalue, ⟨hobject, rfl⟩ | ⟨_, -, h⟩⟩
    · exact .notJson hnone
    · exact .notObject hvalue hobject
    · split at h
      · cases h
      · next amount hmember =>
        rcases bind_eq_error.mp h with hamount | ⟨_, -, h⟩
        · exact .member hvalue hmember (badAmount_of_error hamount)
        · cases h

end

/-! ## The amounts of the notes -/

section
variable {fromSlice : List UInt8 → Option Value} {σ : Type} {opener : Opener σ} {h : Header} {n : Note}
  {ps : List (UInt32 × List UInt8)} {a : Option Nat}

theorem Note.Reads.congr {qs : List (UInt32 × List UInt8)} (hr : n.Reads fromSlice h ps a)
    (heq : qs.lookup n.id = ps.lookup n.id) : n.Reads fromSlice h qs a := by
  cases hr with
  | sealed hsealed layout id given read => exact .sealed hsealed layout id (heq.trans given) read
  | opened unsealed hopened member read => exact .opened unsealed hopened member read
  | without unsealed hopened member => exact .without unsealed hopened member

/-- One note: the opener is called if it is sealed, and gives its plaintext. -/
theorem noteAmount_reads {s s' : σ} (hok : noteAmount fromSlice opener h n s = .ok (a, s')) (notes : List Note) :
    ∃ given : List (UInt32 × List UInt8), (∀ e ∈ given, e.1 = n.id) ∧
      plaintexts opener h (n :: notes) s = given ++ plaintexts opener h notes s' ∧
        ∀ qs, n.Reads fromSlice h (given ++ qs) a := by
  simp only [plaintexts]
  cases hsealed : n.sealed with
  | none =>
    simp only [noteAmount, hsealed] at hok
    cases hopened : n.opened with
    | none =>
      rw [hopened] at hok
      cases hok
    | some x =>
      simp only [hopened] at hok
      cases hmember : x.plaintext.get "amount" with
      | none =>
        simp only [hmember, pure_eq_ok, Prod.mk.injEq] at hok
        obtain ⟨rfl, rfl⟩ := hok
        exact ⟨[], by simp, rfl, fun qs => .without hsealed hopened hmember⟩
      | some value =>
        simp only [hmember, bind_eq_ok, mapErr_eq_ok, pure_eq_ok, Prod.mk.injEq] at hok
        obtain ⟨m, hread, rfl, rfl⟩ := hok
        exact ⟨[], by simp, rfl, fun qs => .opened hsealed hopened hmember hread⟩
  | some x =>
    simp only [noteAmount, hsealed, openSealed] at hok
    split at hok
    · next d l k hdomain hlayout hkey =>
      obtain ⟨hl, hid⟩ := Header.findLayout_some hlayout
      simp only [hdomain, hkey]
      rcases hanswer : opener s d k x with ⟨answer, s₁⟩
      rw [hanswer] at hok
      cases answer with
      | none => cases hok
      | some plaintext =>
        simp only [bind_eq_ok, mapErr_eq_ok, pure_eq_ok, Prod.mk.injEq] at hok
        obtain ⟨_, hread, rfl, rfl⟩ := hok
        refine ⟨[(n.id, plaintext)], by simp, rfl, fun qs => ?_⟩
        exact .sealed hsealed hl hid (by simp) hread
    · cases hok

theorem readNotes_reads {notes : List Note} {amounts amounts' : List (UInt32 × Option Nat)} {s : σ}
    (hok : readNotes fromSlice opener h notes amounts s = .ok amounts') (hnodup : (notes.map Note.id).Nodup) :
    (∀ id ∉ notes.map Note.id, amounts'.lookup id = amounts.lookup id) ∧ ∀ n ∈ notes, ∃ a,
      amounts'.lookup n.id = some a ∧ n.Reads fromSlice h (plaintexts opener h notes s) a := by
  induction notes generalizing amounts s with
  | nil =>
    obtain rfl := pure_eq_ok.mp hok
    exact ⟨fun _ _ => rfl, fun n hn => absurd hn List.not_mem_nil⟩
  | cons n notes ih =>
    simp only [readNotes, bind_eq_ok] at hok
    obtain ⟨⟨a, s'⟩, hnote, hrest⟩ := hok
    rw [List.map_cons, List.nodup_cons] at hnodup
    obtain ⟨hframe, hreads⟩ := ih hrest hnodup.2
    obtain ⟨given, hgiven, hps, hread⟩ := noteAmount_reads hnote notes
    constructor
    · intro id hid
      simp only [List.map_cons, List.mem_cons, not_or] at hid
      rw [hframe id hid.2, SortedMap.lookup_insert_of_ne hid.1]
    · intro m hm
      rw [hps]
      rcases List.mem_cons.mp hm with rfl | hm
      · exact ⟨a, by rw [hframe _ hnodup.1, SortedMap.lookup_insert_self], hread _⟩
      · obtain ⟨b, hb, hr⟩ := hreads m hm
        -- what was given for the first note is under another id
        have hskip : (given ++ plaintexts opener h notes s').lookup m.id =
            (plaintexts opener h notes s').lookup m.id := by
          rw [List.lookup_append, Option.or_eq_right_of_none]
          rw [List.lookup_eq_none_iff]
          intro e he
          rw [bne_iff_ne, hgiven e he]
          rintro heq
          exact hnodup.1 (heq ▸ List.mem_map_of_mem hm)
        exact ⟨b, hb, hr.congr hskip⟩

theorem exists_of_readNotes_eq_error {notes : List Note} {amounts : List (UInt32 × Option Nat)} {s : σ}
    {r : Refusal} (herr : readNotes fromSlice opener h notes amounts s = .error r) :
    ∃ n ∈ notes, ∃ s, noteAmount fromSlice opener h n s = .error r := by
  induction notes generalizing amounts s with
  | nil => cases herr
  | cons n notes ih =>
    simp only [readNotes, bind_eq_error] at herr
    rcases herr with herr | ⟨_, -, hrest⟩
    · exact ⟨n, List.mem_cons_self, s, herr⟩
    · obtain ⟨m, hm, hnote⟩ := ih hrest
      exact ⟨m, List.mem_cons_of_mem _ hm, hnote⟩

/-- Of a valid note, only the plaintext and the amount can be wrong. -/
theorem reason_of_noteAmount {t : Trace} (header : t.header.Valid) (hn : n ∈ t.notes)
    (note : n.Valid t.header) {s : σ} {r : Refusal}
    (herr : noteAmount fromSlice opener t.header n s = .error r) : Reason fromSlice opener t ps r := by
  cases hsealed : n.sealed with
  | none =>
    simp only [noteAmount, hsealed] at herr
    cases hopened : n.opened with
    | none =>
      have hone := note.exactly_one
      rw [hsealed, hopened] at hone
      exact absurd rfl hone
    | some x =>
      simp only [hopened] at herr
      cases hmember : x.plaintext.get "amount" with
      | none =>
        rw [hmember] at herr
        cases herr
      | some value =>
        simp only [hmember, bind_eq_error, mapErr_eq_error] at herr
        rcases herr with ⟨e, hread, rfl⟩ | ⟨_, -, herr⟩
        · exact .opened hn hsealed hopened hmember (badAmount_of_error hread)
        · cases herr
  | some x =>
    obtain ⟨hdomain, hlayout, hkey⟩ := note.sealed x hsealed
    obtain ⟨d, hd⟩ := Header.exists_findDomain hdomain
    obtain ⟨l, hl⟩ := Header.exists_findLayout hlayout
    obtain ⟨k, hk⟩ := header.exists_findKey hkey
    obtain ⟨hmem, hid⟩ := Header.findLayout_some hl
    simp only [noteAmount, hsealed, openSealed, hd, hl, hk] at herr
    rcases hanswer : opener s d k x with ⟨answer, s'⟩
    rw [hanswer] at herr
    cases answer with
    | none =>
      obtain rfl := Except.error.inj herr
      exact .unopened (s := s) hn hsealed hd hk (by rw [hanswer])
    | some plaintext =>
      simp only [bind_eq_error, mapErr_eq_error] at herr
      rcases herr with ⟨e, hread, rfl⟩ | ⟨_, -, herr⟩
      · have hends : ∀ (len : UInt32) (fields : List LayoutField), l.codec = .fixed len fields → ∀ f ∈ fields,
            f.offset.toNat + f.ty.width ≤ len.toNat := fun len fields hcodec =>
          (header.layouts l hmem len fields hcodec).2
        exact .plaintext (s := s) hn hsealed hd hk hmem hid (by rw [hanswer]) (malformed_of_error hends hread)
      · cases herr

end

section
variable {amounts : List (UInt32 × Option Nat)} {i : Nat} {p : String} {r : Refusal}

theorem addNotes_eq_ok {ids : List UInt32} {acc sum : Nat} (hacc : acc < 2 ^ 128)
    (hok : ids.foldlM (addNote amounts i p) acc = .ok sum) :
    ∃ ms, ids.Forall₂ (fun id m => amounts.lookup id = some (some m)) ms ∧ acc + ms.sum = sum ∧
      sum < 2 ^ 128 := by
  induction ids generalizing acc with
  | nil =>
    obtain rfl := pure_eq_ok.mp hok
    exact ⟨[], .nil, rfl, hacc⟩
  | cons id ids ih =>
    simp only [List.foldlM_cons, bind_eq_ok, addNote, okOr_eq_ok, Option.join_eq_some_iff,
      checkedAdd_eq_some] at hok
    obtain ⟨_, ⟨m, hm, hlt, rfl⟩, hrest⟩ := hok
    obtain ⟨ms, hms, rfl, hsum⟩ := ih hlt hrest
    exact ⟨m :: ms, .cons hm hms, by rw [List.sum_cons, Nat.add_assoc], hsum⟩

/-- The sum of the notes of a balance stops at one without an amount, or at one that exceeds `u128`. -/
theorem addNotes_eq_error {ids : List UInt32} {acc : Nat}
    (herr : ids.foldlM (addNote amounts i p) acc = .error r) :
    (∃ id ∈ ids, (amounts.lookup id).join = none ∧ r = .noAmount i id) ∨
      ∃ before ms, before <+: ids ∧ before.Forall₂ (fun id m => amounts.lookup id = some (some m)) ms ∧
        2 ^ 128 ≤ acc + ms.sum ∧ r = .overflows i p := by
  induction ids generalizing acc with
  | nil => cases herr
  | cons id ids ih =>
    simp only [List.foldlM_cons, bind_eq_error, addNote, okOr_eq_error, okOr_eq_ok, bind_eq_ok] at herr
    rcases herr with (⟨hnone, rfl⟩ | ⟨m, hm, hover, rfl⟩) | ⟨_, ⟨m, hm, hadd⟩, hrest⟩
    · exact .inl ⟨id, List.mem_cons_self, hnone, rfl⟩
    · refine .inr ⟨[id], [m], ⟨ids, rfl⟩, .cons (Option.join_eq_some_iff.mp hm) .nil, ?_, rfl⟩
      rw [List.sum_singleton]
      by_contra hlt
      cases hover.symm.trans (checkedAdd_eq_some.mpr ⟨not_le.mp hlt, rfl⟩)
    · obtain ⟨-, rfl⟩ := checkedAdd_eq_some.mp hadd
      rcases ih hrest with ⟨id', hid', hnone, rfl⟩ | ⟨before, ms, hbefore, hms, hover, rfl⟩
      · exact .inl ⟨id', List.mem_cons_of_mem _ hid', hnone, rfl⟩
      · refine .inr ⟨id :: before, m :: ms, ?_, .cons (Option.join_eq_some_iff.mp hm) hms, ?_, rfl⟩
        · exact List.cons_prefix_cons.mpr ⟨rfl, hbefore⟩
        · rwa [List.sum_cons, ← Nat.add_assoc]

end

/-! ## Listed notes -/

theorem Trace.mem_notes {t : Trace} {n : Note} : n ∈ t.notes ↔ .note n ∈ t.artifacts := by
  rw [Trace.notes, List.mem_filterMap]
  constructor
  · rintro ⟨a, ha, hnote⟩
    cases a with
    | note m =>
      obtain rfl := Option.some.inj hnote
      exact ha
    | tx | proof | message | state => cases hnote
  · intro hn
    exact ⟨_, hn, rfl⟩

theorem Trace.mem_artifacts_of_upTo {t : Trace} {i : Nat} {a : Artifact} (h : a ∈ t.upTo i) :
    a ∈ t.artifacts := by
  obtain ⟨s, hs, ha⟩ := List.mem_flatMap.mp h
  exact List.mem_flatMap.mpr ⟨s, List.mem_of_mem_take hs, ha⟩

theorem Trace.Valid.notes_nodup {t : Trace} (valid : t.Valid) : (t.notes.map Note.id).Nodup := by
  have hids := valid.rule3
  rw [List.Nodup, List.pairwise_map] at hids
  rw [List.Nodup, List.pairwise_map]
  refine hids.filterMap _ fun a b hne n hn m hm => ?_
  cases a with
  | note n' =>
    obtain rfl := Option.some.inj hn
    cases b with
    | note m' =>
      obtain rfl := Option.some.inj hm
      exact hne
    | tx | proof | message | state => cases hm
  | tx | proof | message | state => cases hn

section
variable {fromSlice : List UInt8 → Option Value} {σ : Type} {opener : Opener σ} {t : Trace} {s₀ : σ}
  {amounts : List (UInt32 × Option Nat)} {i : Nat} {p : String} {b : Balance} {s : Step}

/-- A note with an amount reads as none only under a `json` layout. -/
theorem Note.HasAmount.json {h : Header} (valid : h.Valid) {n : Note} {ps : List (UInt32 × List UInt8)}
    (has : n.HasAmount h) (hr : n.Reads fromSlice h ps none) :
    ∃ x l plaintext, n.sealed = some x ∧ l ∈ h.noteLayouts ∧ l.id = x.layout ∧ l.codec = .json ∧
      ps.lookup n.id = some plaintext ∧ readAmount fromSlice .json plaintext = .ok none := by
  cases hr with
  | @sealed x l plaintext _ hsealed hl hid given read =>
    cases has with
    | @sealed y l' hsealed' hl' hid' amount =>
      obtain rfl := Option.some.inj (hsealed.symm.trans hsealed')
      obtain rfl := List.inj_on_of_nodup_map valid.noteLayouts hl hl' (hid.trans hid'.symm)
      cases hcodec : l.codec with
      | json => exact ⟨x, l, plaintext, hsealed, hl, hid, hcodec, given, hcodec ▸ read⟩
      | fixed len fields =>
        obtain ⟨f, hf, hname, -⟩ := amount len fields hcodec
        have hsome : (fields.find? fun f => f.name == "amount").isSome :=
          List.find?_isSome.mpr ⟨f, hf, beq_iff_eq.mpr hname⟩
        simp only [hcodec, readAmount, bind_eq_ok] at read
        obtain ⟨_, -, read⟩ := read
        split at read
        · next hnone =>
          rw [hnone] at hsome
          cases hsome
        · obtain ⟨_, -, read⟩ := bind_eq_ok.mp read
          cases read
    | opened unsealed => cases hsealed.symm.trans unsealed
  | without unsealed hopened hnone =>
    cases has with
    | sealed hsealed => cases hsealed.symm.trans unsealed
    | opened _ hopened' member =>
      obtain rfl := Option.some.inj (hopened.symm.trans hopened')
      cases hnone.symm.trans member

/-- What rule 10 says of a note that a balance lists, with its entry in the map. -/
theorem exists_listed (valid : t.Valid)
    (hread : readNotes fromSlice opener t.header t.notes [] s₀ = .ok amounts) (hs : t.steps[i]? = some s)
    (hb : s.HasBalance p b) {id : UInt32} (hid : id ∈ b.notes) :
    ∃ n a, .note n ∈ t.upTo i ∧ n.id = id ∧ n.recipient = p ∧ n.HasAmount t.header ∧
      amounts.lookup id = some a ∧ n.Reads fromSlice t.header (plaintexts opener t.header t.notes s₀) a := by
  obtain ⟨n, hn, rfl, hrecipient, has⟩ := (valid.rule10 i s hs p b hb).2 id hid
  have hmem := Trace.mem_notes.mpr (Trace.mem_artifacts_of_upTo hn)
  obtain ⟨a, ha, hr⟩ := (readNotes_reads hread valid.notes_nodup).2 n hmem
  exact ⟨n, a, hn, rfl, hrecipient, has, ha, hr⟩

/-- The entries of listed notes are the amounts of the notes. -/
theorem reads_of_lookups (valid : t.Valid)
    (hread : readNotes fromSlice opener t.header t.notes [] s₀ = .ok amounts) (hs : t.steps[i]? = some s)
    (hb : s.HasBalance p b) {ids : List UInt32} (hids : ids ⊆ b.notes) {ms : List Nat}
    (hms : ids.Forall₂ (fun id m => amounts.lookup id = some (some m)) ms) :
    ids.Forall₂ (fun id m => ∃ n, .note n ∈ t.upTo i ∧ n.id = id ∧ n.recipient = p ∧
      n.Reads fromSlice t.header (plaintexts opener t.header t.notes s₀) (some m)) ms := by
  have hlisted := (List.forall₂_and_left _ _).mpr ⟨fun id hid => hids hid, hms⟩
  refine hlisted.imp fun id m hm => ?_
  obtain ⟨n, a, hn, hnid, hrecipient, -, ha, hr⟩ := exists_listed valid hread hs hb hm.1
  obtain rfl := Option.some.inj (ha.symm.trans hm.2)
  exact ⟨n, hn, hnid, hrecipient, hr⟩

theorem mem_notes_of_reads {ids : List UInt32} {ms : List Nat} {ps : List (UInt32 × List UInt8)}
    (h : ids.Forall₂ (fun id m => ∃ n, .note n ∈ t.upTo i ∧ n.id = id ∧ n.recipient = p ∧
      n.Reads fromSlice t.header ps (some m)) ms) :
    ids.Forall₂ (fun id m => ∃ n ∈ t.notes, n.id = id ∧ n.Reads fromSlice t.header ps (some m)) ms := by
  refine h.imp fun id m hm => ?_
  obtain ⟨n, hn, hid, -, hr⟩ := hm
  exact ⟨n, Trace.mem_notes.mpr (Trace.mem_artifacts_of_upTo hn), hid, hr⟩

theorem reason_of_checkBalance (valid : t.Valid)
    (hread : readNotes fromSlice opener t.header t.notes [] s₀ = .ok amounts) (hs : t.steps[i]? = some s)
    (hb : s.HasBalance p b) {r : Refusal} (herr : checkBalance amounts i p b = .error r) :
    Reason fromSlice opener t (plaintexts opener t.header t.notes s₀) r := by
  rw [checkBalance, bind_eq_error] at herr
  rcases herr with herr | ⟨sum, hsum, herr⟩
  · rcases addNotes_eq_error herr with ⟨id, hid, hnone, rfl⟩ | ⟨before, ms, hbefore, hms, hover, rfl⟩
    · obtain ⟨n, a, hn, rfl, -, has, ha, hr⟩ := exists_listed valid hread hs hb hid
      rw [ha, Option.join_some] at hnone
      subst hnone
      obtain ⟨x, l, plaintext, hsealed, hl, hlid, hjson, given, read⟩ := has.json valid.rule12 hr
      exact .noAmount hs hb hid (Trace.mem_notes.mpr (Trace.mem_artifacts_of_upTo hn)) hsealed hl hlid hjson
        given read
    · rw [Nat.zero_add] at hover
      exact .overflows hs hb hbefore
        (mem_notes_of_reads (reads_of_lookups valid hread hs hb hbefore.subset hms)) hover
  · obtain ⟨ms, hms, rfl, hlt⟩ := addNotes_eq_ok (Nat.two_pow_pos 128) hsum
    obtain ⟨hne, rfl⟩ := failIf_eq_error.mp herr
    rw [Nat.zero_add] at hne hlt ⊢
    refine .differs hs hb (mem_notes_of_reads (reads_of_lookups valid hread hs hb (List.Subset.refl _) hms)) ?_
    intro hden
    exact hne ((parse_eq_some ((valid.rule9 s (List.mem_of_getElem? hs)).2 p b hb).2).mpr ⟨hlt, hden⟩)

end

/-- A trace that passes the check has balances that are the sums of their own notes; one that is valid is
refused for the reasons left. -/
theorem check_sums (fromSlice : List UInt8 → Option Value) {σ : Type} (opener : Opener σ) (t : Trace) (s₀ : σ) :
    (check fromSlice opener t s₀ = .ok () → ∀ (i : Nat) (s : Step), t.steps[i]? = some s →
      (s.wallets.entries.flatMap fun e => e.2.flatMap Balance.notes).Nodup ∧
      ∀ p b, s.HasBalance p b → b.notes ≠ [] → ∃ ms : List Nat,
        b.notes.Forall₂ (fun id m => ∃ n, .note n ∈ t.upTo i ∧ n.id = id ∧ n.recipient = p ∧
          n.Reads fromSlice t.header (plaintexts opener t.header t.notes s₀) (some m)) ms ∧
        Denotes 10 b.amount.toList ms.sum) ∧
    (validate t = .ok () → ∀ r, checkNotes fromSlice opener t s₀ = .error r →
      Reason fromSlice opener t (plaintexts opener t.header t.notes s₀) r) := by
  constructor
  · intro hok i s hs
    simp only [check, checkNotes, bind_eq_ok, mapErr_eq_ok, forM_eq_ok] at hok
    obtain ⟨_, hvalid, amounts, hread, hsteps⟩ := hok
    have valid := Trace.valid_iff.mpr (validate_eq_ok.mp hvalid)
    refine ⟨valid.rule10_once s (List.mem_of_getElem? hs), fun p b hb hne => ?_⟩
    have hstep := hsteps (s, i) (List.mem_zipIdx_iff_getElem?.mpr hs)
    obtain ⟨e, he, rfl, hmem⟩ := hb
    simp only [checkStep, forM_eq_ok, List.mem_filter, Bool.not_eq_true', List.isEmpty_eq_false_iff] at hstep
    have hbalance := hstep e he b ⟨hmem, hne⟩
    simp only [checkBalance, bind_eq_ok, failIf_eq_ok, ne_eq, not_not] at hbalance
    obtain ⟨sum, hsum, hparse⟩ := hbalance
    obtain ⟨ms, hms, rfl, -⟩ := addNotes_eq_ok (Nat.two_pow_pos 128) hsum
    have hb : s.HasBalance e.1 b := ⟨e, he, rfl, hmem⟩
    refine ⟨ms, reads_of_lookups valid hread hs hb (List.Subset.refl _) hms, ?_⟩
    rw [Nat.zero_add] at hparse
    exact ((parse_eq_some ((valid.rule9 s (List.mem_of_getElem? hs)).2 _ b hb).2).mp hparse).2
  · intro hvalid r herr
    have valid := Trace.valid_iff.mpr (validate_eq_ok.mp hvalid)
    rw [checkNotes, bind_eq_error] at herr
    rcases herr with herr | ⟨amounts, hread, herr⟩
    · obtain ⟨n, hn, s, hnote⟩ := exists_of_readNotes_eq_error herr
      exact reason_of_noteAmount valid.rule12 hn (valid.rule5 n (Trace.mem_notes.mp hn)) hnote
    · obtain ⟨⟨s, i⟩, hmem, hstep⟩ := exists_of_forM_eq_error herr
      obtain ⟨e, he, hwallet⟩ := exists_of_forM_eq_error hstep
      obtain ⟨b, hb, hbalance⟩ := exists_of_forM_eq_error hwallet
      exact reason_of_checkBalance valid hread (List.mem_zipIdx_iff_getElem?.mp hmem)
        ⟨e, he, rfl, (List.mem_filter.mp hb).1⟩ hbalance

/-! ## A sum beyond `u128` -/

/-- A note of `2 ^ 128 - 1` base units. -/
def largestNote (id : UInt32) : Note where
  id := id
  recipient := "alice"
  carriedBy := 1
  sealed := none
  opened := some ⟨⟨.object [("amount", .string "340282366920938463463374607431768211455")],
    .object (List.pairwise_singleton _ _) (List.forall_mem_singleton.mpr .string)⟩, "alice"⟩

/-- One persona holds two such notes, and a balance of their sum. -/
def overflowing : Trace where
  header := {
    schema := 1, chains := [⟨1⟩], assets := [⟨"usd", 1⟩], personas := [⟨"alice", []⟩], observers := [], fields := []
    actions := [], circuits := [], noteDomains := [], noteLayouts := [] }
  steps := [{
    actor := "alice", action := "deposit", roles := .new
    artifacts := [.message ⟨1, "alice", "alice"⟩, .note (largestNote 2), .note (largestNote 3)]
    observations := .new
    wallets := ⟨[("alice", [⟨"usd", .confidential, "680564733841876926926749214863536422910", [2, 3]⟩])],
      List.pairwise_singleton _ _⟩ }]

/-- The balance is the sum of its notes, whose amounts are read, and still refused. -/
theorem sum_overflows : validate overflowing = .ok () ∧
    checkNotes (fun _ => none) (fun _ _ _ _ => (none, ())) overflowing () = .error (.overflows 0 "alice") ∧
    (∀ n ∈ overflowing.notes, n.Reads (fun _ => none) overflowing.header [] (some (2 ^ 128 - 1))) ∧
    ∀ s ∈ overflowing.steps, ∀ p b, s.HasBalance p b → b.notes = overflowing.notes.map Note.id ∧
      Denotes 10 b.amount.toList (2 ^ 128 - 1 + (2 ^ 128 - 1)) := by
  refine ⟨rfl, rfl, ?_, ?_⟩
  · have hread : jsonAmount (.string "340282366920938463463374607431768211455") = .ok (2 ^ 128 - 1) := rfl
    have hnotes : overflowing.notes = [largestNote 2, largestNote 3] := rfl
    rw [hnotes]
    intro n hn
    obtain rfl | rfl : n = largestNote 2 ∨ n = largestNote 3 := by simpa using hn
    · exact .opened rfl rfl rfl hread
    · exact .opened rfl rfl rfl hread
  · intro s hs p b hb
    obtain rfl := List.mem_singleton.mp hs
    obtain ⟨e, he, -, hmem⟩ := hb
    obtain rfl := List.mem_singleton.mp he
    obtain rfl := List.mem_singleton.mp hmem
    refine ⟨rfl, _, ?_, rfl, rfl⟩
    exact List.cons_ne_nil _ _

end Pocs.Traces
