import Pocs.Civic.Registry.Representation

/-! # Reading blobs back

`decode_blob` of `blob.rs` stops at the first position whose record bytes are zero. The records of an
accepted batch have identity tags other than zero, since the sentinel of the identity tag tree holds
zero, so that none of them is taken for padding (`published_ne_zero`). -/

namespace Pocs.Civic

/-- The bytes of position `i`, reassembled from its field elements. -/
def recordBytesOf (fieldElements : List Bytes32) (i : Nat) : Bytes recordLen :=
  assembleRecord ((List.range fePerRecord).map fun j => fieldElements.getD (i * fePerRecord + j) (.zero 32))

/-- The loop of `decode_blob` over the positions from `i` on, `n` of them. -/
def decodeFrom (fieldElements : List Bytes32) : (n i : Nat) → List RecordEntry
  | 0, _ => []
  | n + 1, i =>
    let recordBytes := recordBytesOf fieldElements i
    if (recordBytes.1.take 66).all (· = 0) then []
    else decodeRecord recordBytes :: decodeFrom fieldElements n (i + 1)

def decodeBlob (fieldElements : List Bytes32) : Except BlobError (List RecordEntry) := do
  let (len, expected) := (fieldElements.length, recordsPerBlob * fePerRecord)
  failIf (len ≠ expected) (.malformed s!"blob has {len} field elements, expected {expected}")
  pure (decodeFrom fieldElements recordsPerBlob 0)

theorem encodeRecord_zeros {r : RecordEntry} : ((encodeRecord r).1.take 66).all (· = 0) = true ↔ r = .zero := by
  constructor
  · intro h
    have hzeros : (encodeRecord r).1 = List.replicate recordLen 0 := by
      have htail : (encodeRecord r).1.drop 66 = List.replicate 30 0 := by
        have hhead : (r.nullifier.1 ++ r.identityTag.1 ++ beOfNat 2 r.classTag.toNat).length = 66 := by
          simp [r.nullifier.2, r.identityTag.2]
        exact List.drop_left' hhead
      rw [← List.take_append_drop 66 (encodeRecord r).1, htail, List.eq_replicate_iff]
      constructor
      · simp [(encodeRecord r).2, recordLen]
      · intro b hb
        rcases List.mem_append.mp hb with hb | hb
        · exact of_decide_eq_true (List.all_eq_true.mp h b hb)
        · exact List.eq_of_mem_replicate hb
    have hbytes : encodeRecord r = Bytes.zero recordLen := Subtype.ext hzeros
    rw [← decodeRecord_encodeRecord r, hbytes, decodeRecord_zero]
  · rintro rfl
    decide

section
variable {records : List RecordEntry} {fes : List Bytes32}

theorem recordBytesOf_encodeBlob (h : encodeBlob records = .ok fes) {i : Nat} (hi : i < recordsPerBlob) :
    recordBytesOf fes i = ⟨recordBytesAt records i, recordBytesAt_length records i⟩ := by
  rw [recordBytesOf, ← assembleRecord_fieldElements ⟨recordBytesAt records i, _⟩]
  apply congrArg
  apply List.map_congr_left
  intro j hj
  rw [List.getD_eq_getElem?_getD, encodeBlob_getElem? h hi (List.mem_range.mp hj), Option.getD_some]

/-- From position `i` on the loop returns the records from there on. -/
theorem decodeFrom_encodeBlob (h : encodeBlob records = .ok fes) (hne : ∀ r ∈ records, r ≠ .zero) {n i : Nat}
    (hn : n + i = recordsPerBlob) : decodeFrom fes n i = records.drop i := by
  obtain ⟨hlen, -⟩ := encodeBlob_eq_ok.mp h
  induction n generalizing i with
  | zero => rw [decodeFrom, List.drop_eq_nil_of_le (by omega)]
  | succ n ih =>
    have hbytes := recordBytesOf_encodeBlob h (show i < recordsPerBlob by omega)
    rw [decodeFrom, hbytes]
    cases hr : records[i]? with
    | none =>
      -- a position behind the records holds zeros
      have hpad : recordBytesAt records i = List.replicate recordLen 0 := by rw [recordBytesAt, hr]
      have hstop : ((recordBytesAt records i).take 66).all (· = 0) = true := by
        rw [hpad]
        decide
      rw [if_pos hstop, List.drop_eq_nil_of_le (List.getElem?_eq_none_iff.mp hr)]
    | some r =>
      obtain ⟨hlt, rfl⟩ := List.getElem?_eq_some_iff.mp hr
      have hrecord : recordBytesAt records i = (encodeRecord records[i]).1 := by rw [recordBytesAt, hr]
      have hgo : ¬ ((recordBytesAt records i).take 66).all (· = 0) = true := by
        rw [hrecord, encodeRecord_zeros]
        exact hne _ (List.getElem_mem hlt)
      rw [if_neg hgo, decodeRecord_recordBytesAt, ih (by omega), recordAt, List.getD_eq_getElem?_getD, hr,
        Option.getD_some, List.drop_eq_getElem_cons hlt]

/-- What was encoded is decoded, as long as no record is zero. -/
theorem decodeBlob_encodeBlob (h : encodeBlob records = .ok fes) (hne : ∀ r ∈ records, r ≠ .zero) :
    decodeBlob fes = .ok records := by
  have hlen : fes.length = recordsPerBlob * fePerRecord := by
    obtain ⟨-, rfl⟩ := encodeBlob_eq_ok.mp h
    rw [blobElements, length_flatMap_chunk (fun i => by rw [List.length_map, List.length_range]),
      List.length_range]
  have hall := decodeFrom_encodeBlob h hne (Nat.add_zero recordsPerBlob)
  simp only [decodeBlob, bind_eq_ok, failIf_eq_ok, not_not, pure_eq_ok, exists_const]
  exact ⟨hlen, hall⟩

end

section
variable {C : Primitives} {address : Address} {global : GlobalState} {tr : List Step} {reg : PetitionRegistry}

/-- An accepted batch fits a blob and has no zero record. -/
theorem published_ne_zero (hrun : History C address global tr reg) {s : Step} (hs : s ∈ tr) {p : Publication}
    (hp : s.publication = some p) : p.records.length ≤ recordsPerBlob ∧ ∀ r ∈ p.records, r ≠ .zero := by
  have hinv := history_inv hrun
  have hmem : p ∈ published tr p.petitionId := mem_published.mpr ⟨⟨s, hs, hp⟩, rfl⟩
  cases he : reg.petitions p.petitionId with
  | none =>
    rw [hinv.absent _ he] at hmem
    cases hmem
  | some e =>
    obtain ⟨k, H⟩ := hinv.entry _ e he
    obtain ⟨i, b, -, -, hok⟩ := H.batch_of_mem hmem
    obtain ⟨fes, hfes, -⟩ := hok.encoded
    refine ⟨(encodeBlob_eq_ok.mp hfes).1, fun r hr hzero => ?_⟩
    obtain ⟨t, ht, -⟩ := hok.next.replays
    apply (replay_spec ht).tag_ne_zero r (List.mem_append_right _ hr)
    rw [hzero]
    decide

/-- The records of a list without zero records are read back from its blob, and the records of every
accepted batch form such a list. -/
theorem blob_roundTrip :
    (∀ records : List RecordEntry, records.length ≤ recordsPerBlob → (∀ r ∈ records, r ≠ .zero) →
      ∃ fes, encodeBlob records = .ok fes ∧ decodeBlob fes = .ok records) ∧
    ∀ (C : Primitives) (address : Address) (global : GlobalState) (tr : List Step) (reg : PetitionRegistry),
      History C address global tr reg → ∀ s ∈ tr, ∀ p, s.publication = some p →
        (p.records.length ≤ recordsPerBlob ∧ ∀ r ∈ p.records, r ≠ .zero) ∧
          ∃ fes, encodeBlob p.records = .ok fes ∧ decodeBlob fes = .ok p.records := by
  have hround : ∀ records : List RecordEntry, records.length ≤ recordsPerBlob → (∀ r ∈ records, r ≠ .zero) →
      ∃ fes, encodeBlob records = .ok fes ∧ decodeBlob fes = .ok records := by
    intro records hlen hne
    have henc := encodeBlob_eq_ok.mpr ⟨hlen, rfl⟩
    exact ⟨_, henc, decodeBlob_encodeBlob henc hne⟩
  refine ⟨hround, fun C address global tr reg hrun s hs p hp => ?_⟩
  have hside := published_ne_zero hrun hs hp
  exact ⟨hside, hround p.records hside.1 hside.2⟩

end

open Sample

/-- The batch of the sample run is read back from its blob. -/
theorem blob_roundTrip_sample : ∃ tr reg, History primitives (.zero 20) (Sample.global 1) tr reg ∧
    ∃ s ∈ tr, ∃ p, s.publication = some p ∧ p.records = batch ∧
      ∃ fes, encodeBlob p.records = .ok fes ∧ decodeBlob fes = .ok p.records := by
  obtain ⟨pid, tr, reg, e, hrun⟩ := exists_run (carrier [batch])
    (List.forall_mem_singleton.mpr batch_wellFormed)
    (List.flatten_singleton ▸ batch_replays)
  have hmem : batch ∈ (published tr pid).map (·.records) := by
    rw [hrun.records]
    exact List.mem_singleton_self _
  obtain ⟨p, hp, hrecords⟩ := List.mem_map.mp hmem
  obtain ⟨⟨s, hs, hsp⟩, -⟩ := mem_published.mp hp
  exact ⟨tr, reg, hrun.run, s, hs, p, hsp, hrecords, (blob_roundTrip.2 _ _ _ tr reg hrun.run s hs p hsp).2⟩

end Pocs.Civic
