import QuadBase.Proofs.Dictionary.Refusals

/-!
# Writing and reading one record

Records are written by one piece of code and read by another, and only the widths of their parts keep
the two together.  Here the arenas may have any history of writes (`Records.Written`), so a record
and its value may begin anywhere, and both may lie across the border of two chunks.

* `Key.exists_draft` — a key has a record unless the length of its value takes more than four bytes,
  and its size depends on the length of the value and on the kind.
* `Records.Written.exists_nextCode_iff` — the record gets a code if both arenas have room.
* `Records.Keeps` — what is found at a code: kind, vocabulary number, and the bytes of the value.
* `record_codec` — **what is written at the next code is found there, and no other key is taken for
  it.**  What was found before is found again.
-/

namespace QuadBase.Dictionary

/-! ## Any history of writes -/

namespace Arena

variable {a : Arena}

/-- Writes one after the other, each at its offset. -/
def writeAll (a : Arena) (writes : List (Nat × List UInt8)) : Arena :=
  writes.foldl (fun a write => a.write write.1 write.2) a

lemma Chunked.writeAll (h : a.Chunked) (writes : List (Nat × List UInt8)) :
    (a.writeAll writes).Chunked := by
  induction writes generalizing a with
  | nil => exact h
  | cons write writes ih => exact ih (h.write write.1 write.2)

lemma size_le_size_writeAll (a : Arena) (writes : List (Nat × List UInt8)) :
    a.size ≤ (a.writeAll writes).size := by
  induction writes generalizing a with
  | nil => exact Nat.le_refl _
  | cons write writes ih =>
    refine Nat.le_trans ?_ (ih (a.write write.1 write.2))
    rw [size_write]
    exact Nat.le_max_left _ _

lemma writeAll_concat (a : Arena) (writes : List (Nat × List UInt8)) (offset : Nat)
    (bytes : List UInt8) :
    (a.writeAll writes).write offset bytes = a.writeAll (writes ++ [(offset, bytes)]) := by
  rw [writeAll, writeAll, List.foldl_append]
  rfl

end Arena

namespace Key

variable {key : Key} {inlineLimit : Nat}

lemma isInlined_eq_true_iff (hlimit : inlineLimit < 256) :
    key.isInlined inlineLimit = true ↔ key.value.utf8ByteSize ≤ inlineLimit := by
  rw [isInlined, isInline, Bool.and_eq_true, decide_eq_true_eq, decide_eq_true_eq, length_utf8]
  omega

/-- A key has a record unless its value is longer than four bytes can tell. -/
lemma exists_draft (hshort : key.value.utf8ByteSize < Nat.pow 256 lengthWidth) :
    ∃ draft, key.draft inlineLimit = .ok draft := by
  rw [draft]
  by_cases hinline : isInline inlineLimit (utf8 key.value).length = true
  · exact ⟨_, if_pos hinline⟩
  · exact ⟨_, (if_neg hinline).trans (if_pos hshort)⟩

end Key

namespace Records

variable {r : Records} {key : Key} {code : Code} {draft : Draft} {inlineLimit : Nat}

/-- The arenas have come about by writes: anything may have been written to them, anywhere. -/
def Written (r : Records) : Prop :=
  ∃ (capacity limit : Nat) (primary secondary : List (Nat × List UInt8)),
    r.primary = (create capacity limit).primary.writeAll primary ∧
      r.secondary = (create capacity limit).secondary.writeAll secondary ∧
      r.primaryLimit = (create capacity limit).primaryLimit

lemma written_create (capacity limit : Nat) : (create capacity limit).Written :=
  ⟨capacity, limit, [], [], rfl, rfl, rfl⟩

lemma Written.laid (h : r.Written) : r.Laid := by
  obtain ⟨capacity, limit, primary, secondary, hprimary, hsecondary, -⟩ := h
  constructor
  · rw [hprimary]
    exact (Arena.chunked_empty.write 0 [0]).writeAll primary
  · rw [hsecondary]
    exact Arena.chunked_empty.writeAll secondary

lemma Written.size_pos (h : r.Written) : 1 ≤ r.primary.size := by
  obtain ⟨capacity, limit, primary, secondary, hprimary, -⟩ := h
  rw [hprimary]
  exact Arena.size_le_size_writeAll (create capacity limit).primary primary

lemma Written.primaryLimit_le (h : r.Written) : r.primaryLimit ≤ Code.maxOffset := by
  obtain ⟨capacity, limit, primary, secondary, -, -, hlimit⟩ := h
  rw [hlimit]
  exact Nat.min_le_right _ _

/-- Writing a record is one more of the writes. -/
lemma Written.write (h : r.Written) (draft : Draft) (mark : RecordMark) (position : Nat) :
    (r.write draft mark position).Written := by
  obtain ⟨capacity, limit, primary, secondary, hprimary, hsecondary, hlimit⟩ := h
  have hsame : (r.write draft mark position).primaryLimit = r.primaryLimit := by
    rw [Records.write]
    dsimp only
    split <;> rfl
  cases hspilled : draft.secondary with
  | none =>
    obtain ⟨hfirst, hsecond⟩ := write_inline r mark position hspilled
    rw [hprimary, Arena.writeAll_concat] at hfirst
    exact ⟨capacity, limit, _, secondary, hfirst, hsecond.trans hsecondary, hsame.trans hlimit⟩
  | some spilled =>
    obtain ⟨hfirst, hsecond⟩ := write_spilled r mark position hspilled
    rw [hprimary, Arena.writeAll_concat, Arena.writeAll_concat] at hfirst
    rw [hsecondary, Arena.append, Arena.writeAll_concat] at hsecond
    exact ⟨capacity, limit, _, _, hfirst, hsecond, hsame.trans hlimit⟩

/-! ## The code of the next record -/

/-- **A record gets a code exactly if both arenas have room.** -/
lemma Written.exists_nextCode_iff (h : r.Written) (hdraft : key.draft inlineLimit = .ok draft) :
    (∃ code, r.nextCode draft = .ok code) ↔
      ¬ r.ExceedsPrimary key inlineLimit ∧ ¬ r.ExceedsSecondary key inlineLimit := by
  have hprepare : r.prepare key inlineLimit = (r.nextCode draft).map (draft, ·) := by
    rw [prepare, hdraft]
    rfl
  have hrefusal : (∃ e, r.nextCode draft = .error e) ↔
      r.ExceedsSecondary key inlineLimit ∨ r.ExceedsPrimary key inlineLimit := by
    rw [← exists_refusal_iff]
    refine exists_congr fun e => ?_
    rw [← prepare_eq_error_iff h.size_pos h.primaryLimit_le, hprepare]
    cases r.nextCode draft with
    | error => simp [Except.map]
    | ok => simp [Except.map]
  rw [and_comm, ← not_or, ← hrefusal]
  cases r.nextCode draft with
  | error e => simp
  | ok code => simp

/-! ## What is found at a code -/

/-- The key is found at the code, part by part, and no other key is. -/
structure Keeps (r : Records) (code : Code) (key : Key) (inlineLimit : Nat) : Prop where
  located : ∃ location, r.locate? code = some location ∧ location.kind = key.kind ∧
    location.index = key.index ∧
    (location.inline = true ↔ key.value.utf8ByteSize ≤ inlineLimit) ∧
    location.valueLength = key.value.utf8ByteSize ∧
    (r.arenaOf location).read? location.valueOffset location.valueLength = some (utf8 key.value)
  apart : ∀ other, r.holds code other = true ↔ other = key

/-- A code whose key is read is not taken for another key. -/
lemma holds_iff_eq (h : r.Laid) (hkey : r.keyAt? code = some key) (other : Key) :
    r.holds code other = true ↔ other = key := by
  rw [holds_iff h, hkey, Option.some.injEq, eq_comm]

/-- The header tells whether the value is inside. -/
lemma inline_of_has_header (h : r.Laid) {location : Location} {kind : RecordKind} {inline : Bool}
    (hheader : r.primary.Has code.offset [kind.header inline])
    (hlocate : r.locate? code = some location) : location.inline = inline := by
  rw [locate?_eq] at hlocate
  obtain ⟨-, hlocate⟩ := Option.ite_none_right_eq_some.1 hlocate
  rw [(Arena.readByte?_eq_some_iff h.primary).2 hheader, Option.bind_some,
    RecordKind.ofHeader?_header, Option.bind_some] at hlocate
  obtain ⟨value, -, hlocate⟩ := Option.bind_eq_some_iff.1 hlocate
  obtain ⟨index, -, rfl⟩ := Option.map_eq_some_iff.1 hlocate
  rfl

/-- **What is written at the next code is found there.** -/
theorem Written.keeps_write (h : r.Written) (hkey : key.Normal) (hlimit : inlineLimit < 256)
    (hdraft : key.draft inlineLimit = .ok draft) (hcode : r.nextCode draft = .ok code)
    (mark : RecordMark) (position : Nat) :
    (r.write draft mark position).Keeps code key inlineLimit := by
  have hlaid := h.laid.write draft mark position
  have hread := keyAt?_write h.laid hkey hdraft hcode mark position
  refine ⟨?_, holds_iff_eq hlaid hread⟩
  obtain ⟨location, hlocate, hkind, hindex, hvalue⟩ := keyAt?_eq_some_iff.1 hread
  -- the key is the same wherever its value is, so where it is must be taken from the header
  obtain ⟨hrecord, -⟩ := has_record_write h.laid hdraft mark position
  rw [← (nextCode_eq_ok hcode).2.1] at hrecord
  have hheader : (r.write draft mark position).primary.Has code.offset
      [key.kind.header (key.isInlined inlineLimit)] := by
    rw [Key.record] at hrecord
    cases hinline : key.isInlined inlineLimit with
    | true =>
      rw [hinline, if_pos rfl] at hrecord
      exact (Arena.has_cons.1 hrecord).1
    | false =>
      rw [hinline, if_neg Bool.false_ne_true] at hrecord
      exact (Arena.has_cons.1 hrecord).1
  refine ⟨location, hlocate, hkind, hindex, ?_, ?_, hvalue⟩
  · rw [inline_of_has_header hlaid hheader hlocate, Key.isInlined_eq_true_iff hlimit]
  · have hlength := ((Arena.read?_eq_some_iff (hlaid.arenaOf location)).1 hvalue).1
    rw [← hlength, length_utf8]

end Records

/-- **Writing a record and reading it gives back the kind, the vocabulary number and the bytes of the
value**, for every key, every limit of one byte, and every history of the arenas.  Records that were
there before are still told apart, and the next record can be written in the same way. -/
theorem record_codec {r : Records} {key : Key} (hr : r.Written) (hkey : key.Normal)
    (hvalue : key.value.utf8ByteSize < 2 ^ 32) (inlineLimit : UInt8) :
    ∃ draft, key.draft inlineLimit.toNat = .ok draft ∧
      (draft.secondary = none ↔ key.value.utf8ByteSize ≤ inlineLimit.toNat) ∧
      draft.primary.length =
        (if key.value.utf8ByteSize ≤ inlineLimit.toNat then 2 + key.value.utf8ByteSize else 6) +
          (if key.kind.hasIndex then 2 else 0) ∧
      ((∃ code, r.nextCode draft = .ok code) ↔
        r.nextOffset + draft.primary.length ≤ r.primaryLimit ∧
          (inlineLimit.toNat < key.value.utf8ByteSize →
            r.secondary.size + (4 + key.value.utf8ByteSize) ≤ 2 ^ 40)) ∧
      ∀ code, r.nextCode draft = .ok code → ∀ (mark : RecordMark) (position : Nat),
        (r.write draft mark position).Written ∧
        (r.write draft mark position).Keeps code key inlineLimit.toNat ∧
        ∀ earlier old, r.keyAt? earlier = some old →
          (r.write draft mark position).keyAt? earlier = some old ∧
          ∀ other, (r.write draft mark position).holds earlier other = true ↔ other = old := by
  have hlimit : inlineLimit.toNat < 256 := inlineLimit.toNat_lt
  have hinline : key.isInlined inlineLimit.toNat = true ↔
      key.value.utf8ByteSize ≤ inlineLimit.toNat := Key.isInlined_eq_true_iff hlimit
  obtain ⟨draft, hdraft⟩ : ∃ draft, key.draft inlineLimit.toNat = .ok draft :=
    Key.exists_draft hvalue
  obtain ⟨hbytes, hsecondary, -⟩ := Key.draft_eq_ok hdraft
  have hlength : draft.primary.length = key.recordSize inlineLimit.toNat := by
    rw [hbytes, Key.length_record]
  refine ⟨draft, hdraft, ?_, ?_, ?_, fun code hcode mark position =>
    ⟨hr.write draft mark position, hr.keeps_write hkey hlimit hdraft hcode mark position,
      fun earlier old hold => ?_⟩⟩
  · rw [hsecondary, ← hinline]
    split
    next h => simp [h]
    next h => simp [h]
  · rw [hlength, Key.recordSize]
    simp only [hinline, length_utf8, offsetWidth, indexWidth]
  · rw [hr.exists_nextCode_iff hdraft, hlength, Records.ExceedsPrimary, Records.ExceedsSecondary,
      Nat.not_lt, ← Bool.not_eq_true, hinline]
    have hwidth : Nat.pow 256 lengthWidth = 2 ^ 32 := rfl
    have hend : secondaryLimit = 2 ^ 40 := rfl
    have hfour : lengthWidth = 4 := rfl
    refine and_congr_right fun _ => ?_
    omega
  · have hkept := Records.keyAt?_mono (Records.extends_write hr.laid draft mark position) hr.laid
      (hr.laid.write draft mark position) hold
    exact ⟨hkept, Records.holds_iff_eq (hr.laid.write draft mark position) hkept⟩

/-- A label of four bytes under a limit of two, in a table without records. -/
theorem record_codec_outside :
    (Records.create 16 1024).Written ∧ Key.Normal ⟨.languageLiteral, 3, "chat"⟩ ∧
      "chat".utf8ByteSize < 2 ^ 32 ∧
      ∃ draft code, Key.draft ⟨.languageLiteral, 3, "chat"⟩ 2 = .ok draft ∧
        draft.primary.length = 8 ∧ (Records.create 16 1024).nextCode draft = .ok code ∧
        ((Records.create 16 1024).write draft ⟨code, 0⟩ 0).Keeps code
          ⟨.languageLiteral, 3, "chat"⟩ 2 := by
  have hr : (Records.create 16 1024).Written := Records.written_create 16 1024
  have hkey : Key.Normal ⟨.languageLiteral, 3, "chat"⟩ := nofun
  have hvalue : (⟨.languageLiteral, 3, "chat"⟩ : Key).value.utf8ByteSize < 2 ^ 32 := by decide
  obtain ⟨draft, hdraft, -, hlength, hroom, hkeeps⟩ := record_codec hr hkey hvalue 2
  have hsize : draft.primary.length = 8 := hlength
  obtain ⟨code, hcode⟩ := hroom.2 ⟨by rw [hsize]; decide, fun _ => by decide⟩
  exact ⟨hr, hkey, hvalue, draft, code, hdraft, hsize, hcode, (hkeeps code hcode ⟨code, 0⟩ 0).2.1⟩

end QuadBase.Dictionary
