import QuadBase.Proofs.Dictionary.Foreign
import QuadBase.Proofs.Dictionary.Tiling

/-!
# The order of issue

What a dictionary has been asked for decides which codes it has issued, and in which order.  The
records lie in the arenas in that order (`Records.Layout`).

* `Sound.extends_serveAll` — no request changes a byte of what lies in the arenas.
* `Sound.tiled_encode` — encoding a term issues at most one more code, behind the others.
* `records_layout` — **the records are those of the issued codes, in the order of issue**, and no
  later request changes a byte of them.
-/

namespace QuadBase.Dictionary

open QuadBase.Rdf

namespace Records

variable {r s q : Records}

lemma Extends.refl (r : Records) : r.Extends r :=
  ⟨fun _ _ h => h, fun _ _ h => h⟩

lemma Extends.trans (h : r.Extends s) (h' : s.Extends q) : r.Extends q :=
  ⟨fun _ _ hrow => h'.primary _ _ (h.primary _ _ hrow),
    fun _ _ hrow => h'.secondary _ _ (h.secondary _ _ hrow)⟩

variable [Text.Hasher]

/-- An insertion keeps what lies in the arenas. -/
lemma Sound.extends_insert (h : r.Sound) (key : Key) (inlineLimit : Nat) :
    r.Extends (r.insert key inlineLimit).2 := by
  rcases h.insert_steps key inlineLimit with ⟨code, -, hinsert⟩ | ⟨e, -, -, hinsert⟩ |
    ⟨draft, code, position, -, -, -, hinsert⟩
  · rw [hinsert]
    exact .refl r
  · rw [hinsert]
    exact .refl r
  · rw [hinsert]
    exact extends_write h.laid draft _ position

end Records

namespace TermDictionary

variable [Text.Hasher] {d e : TermDictionary} {t : Term} {code : Code} {key : Key}
  {issued : List (Term × Code)}

/-! ## What no request changes -/

/-- Encoding a term leaves the configuration alone. -/
lemma Sound.config_encode (hd : d.Sound) (t : Term) : (d.encode t).dictionary.config = d.config := by
  rw [TermDictionary.encode]
  cases embed? t with
  | some packed => rfl
  | none =>
    cases d.cachedCode? t with
    | some cached => rfl
    | none =>
      cases hintern : d.internKey t with
      | mk answer e =>
        obtain ⟨-, -, ⟨_, _, _, rfl⟩, -⟩ := internKey_spec hd.worded hintern
        cases answer with
        | error error => rfl
        | ok key =>
          simp only [TermDictionary.insertKey]
          cases (d.records.insert key d.config.inlineLimit).1 <;> rfl

/-- **No request changes a byte of what lies in the arenas.** -/
theorem Sound.extends_serveAll (hd : d.Sound) (requests : List Request) :
    d.records.Extends (d.serveAll requests).records := by
  refine hd.serveAll_run (P := fun e _ => d.records.Extends e.records) ?_ ?_ [] (.refl _) requests
  · intro e f _ _ hsame he
    rw [hsame.records]
    exact he
  · intro e _ hsound he t
    refine he.trans ?_
    rcases hsound.records_encode t with hsame | ⟨key, code, -, -, -, hinsert⟩
    · rw [hsame]
      exact .refl _
    · have hkept := hsound.records.extends_insert key e.config.inlineLimit
      rwa [hinsert] at hkept

/-! ## Codes in the order of issue -/

/-- The indexed codes among those that have been handed out, each where it occurs first. -/
def firstCodes (issued : List (Term × Code)) : List Code :=
  ((issued.map Prod.snd).filter Code.isIndexed).eraseDups

/-- The indexed codes that some requests issue, in this order. -/
def issuedCodes (d : TermDictionary) (requests : List Request) : List Code :=
  firstCodes (d.issuesAll requests)

omit [Text.Hasher] in
lemma firstCodes_concat (issued : List (Term × Code)) (t : Term) (code : Code) :
    firstCodes (issued ++ [(t, code)]) =
      if code.isIndexed = true ∧ code ∉ firstCodes issued then firstCodes issued ++ [code]
      else firstCodes issued := by
  simp only [firstCodes, List.map_append, List.filter_append, List.eraseDups_append,
    List.mem_eraseDups]
  cases hindexed : code.isIndexed with
  | false => simp [hindexed]
  | true =>
    by_cases hmem : code ∈ (issued.map Prod.snd).filter Code.isIndexed
    · rw [if_neg fun h => h.2 hmem]
      simp [hindexed, List.cons_removeAll, hmem]
    · rw [if_pos ⟨rfl, hmem⟩]
      simp [hindexed, List.cons_removeAll, hmem, List.eraseDups_cons]

/-- The records are those of the codes issued so far, in the order of issue. -/
def Tiled (config : Config) (d : TermDictionary) (issued : List (Term × Code)) : Prop :=
  d.config = config ∧ ∃ entries : List Entry, entries.map Entry.code = firstCodes issued ∧
    d.records.Layout config entries

/-- An indexed code that stands for a term has its record among the others. -/
lemma Represents.mem_entries {config : Config} {entries : List Entry} (h : d.Represents t code)
    (hd : d.Sound) (hindexed : code.isIndexed = true) (hlayout : d.records.Layout config entries) :
    code ∈ entries.map Entry.code := by
  rcases h with hembed | ⟨-, key, -, hissued⟩
  · cases (unembed?_of_embed? hembed).1.symm.trans (isEmbedded_eq_false_of_isIndexed hindexed)
  · exact List.mem_map.2
      ⟨⟨code, key⟩, hlayout.read.1 (hd.records.read_eq_ok_iff_issued.2 hissued), rfl⟩

/-- **Encoding a term issues at most one more code**, whose record goes behind the others. -/
theorem Sound.tiled_encode {config : Config} (hd : d.Sound) (h : Tiled config d issued)
    (t : Term) : Tiled config (d.encode t).dictionary (issued ++ d.issues [t]) := by
  obtain ⟨hconfig, entries, hcodes, hlayout⟩ := h
  refine ⟨(hd.config_encode t).trans hconfig, ?_⟩
  obtain ⟨hfollows, hrepresents⟩ := hd.encode t
  rcases hd.records_encode t with hsame | ⟨key, code, hnormal, hnone, hanswer, hinsert⟩
  · rw [← hsame] at hlayout
    refine ⟨entries, ?_, hlayout⟩
    rw [hcodes, issues]
    cases hanswer : (d.encode t).answer with
    | error error => exact congrArg firstCodes (List.append_nil issued).symm
    | ok code =>
      simp only [issues]
      rw [firstCodes_concat, if_neg]
      rintro ⟨hindexed, hnew⟩
      exact hnew (hcodes ▸ (hrepresents code hanswer).mem_entries hfollows.sound hindexed hlayout)
  · rw [← hconfig] at hlayout ⊢
    have hafter := hlayout.insert hd.records hnormal hnone hinsert
    refine ⟨entries ++ [⟨code, key⟩], ?_, hafter⟩
    have hindexed : code.isIndexed = true := isIndexed_of_issued
      (hfollows.sound.records.read_eq_ok_iff_issued.1
        (hafter.read.2 (List.mem_append_right _ (List.mem_singleton_self _))))
    have hnew : code ∉ firstCodes issued := by
      rw [← hcodes]
      intro hmem
      obtain ⟨entry, hentry, rfl⟩ := List.mem_map.1 hmem
      have hlt := (List.pairwise_append.1 hafter.increasing).2.2 entry hentry _
        (List.mem_singleton_self _)
      exact absurd hlt (UInt32.lt_irrefl _)
    simp only [issues, hanswer]
    rw [firstCodes_concat, if_pos ⟨hindexed, hnew⟩, List.map_append, hcodes, List.map_singleton]

/-- The records of a dictionary that has served some requests, in the order of issue. -/
theorem tiled_serveAll (config : Config) (requests : List Request) :
    Tiled config ((create config).serveAll requests) ((create config).issuesAll requests) := by
  have hstart : Tiled config (create config) [] := ⟨rfl, [], rfl, Records.Layout.create config⟩
  refine (create_sound config).serveAll_run (P := Tiled config) ?_ ?_ [] hstart requests
  · rintro d e issued - hsame ⟨hconfig, entries, hcodes, hlayout⟩
    exact ⟨hsame.config.trans hconfig, entries, hcodes, hsame.records ▸ hlayout⟩
  · intro d issued hsound h t
    exact hsound.tiled_encode h t

/-- The size of the table follows from its initial size and the number of records. -/
lemma slots_size_serveAll (config : Config) (requests : List Request) :
    let r := ((create config).serveAll requests).records
    r.slots.size = Records.slotsFor
      (Index.powerOfTwoFrom (max config.tableCapacity Records.leastSlots)) r.count := by
  obtain ⟨-, entries, -, hlayout⟩ := tiled_serveAll config requests
  exact hlayout.slots_size

/-- **The records are those of the issued codes, in the order of issue**: each starts at the first
multiple of four behind the one before it, the values that are kept outside follow each other
without gaps, and the table holds each record once.  No later request changes a byte of them. -/
theorem records_layout (config : Config) (requests later : List Request) :
    let d := (create config).serveAll requests
    let e := (create config).serveAll (requests ++ later)
    (∃ entries : List Entry, entries.map Entry.code = (create config).issuedCodes requests ∧
      d.records.Layout config entries) ∧
    d.records.primary.toList <+: e.records.primary.toList ∧
    d.records.secondary.toList <+: e.records.secondary.toList := by
  intro d e
  have hd : d.Sound := ((create_sound config).serveAll requests).sound
  have hrest : e = d.serveAll later := serveAll_append _ requests later
  have hkept := hd.extends_serveAll later
  have he : e.Sound := hrest ▸ (hd.serveAll later).sound
  rw [← hrest] at hkept
  exact ⟨(tiled_serveAll config requests).2,
    hkept.primary.toList_isPrefix hd.records.laid.primary he.records.laid.primary,
    hkept.secondary.toList_isPrefix hd.records.laid.secondary he.records.laid.secondary⟩

end TermDictionary

end QuadBase.Dictionary
