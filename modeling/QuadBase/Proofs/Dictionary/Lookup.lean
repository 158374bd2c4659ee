import QuadBase.Proofs.Dictionary.Issuing
import QuadBase.Proofs.Dictionary.Tuning

/-!
# Looking terms up

Looking a term up takes it apart without numbering anything.  An IRI whose namespace has no number
is looked for as a whole, though it may be that its namespace had no room when the IRI was encoded,
or that it has a number by now because of other terms.  Still the answer is exact.

* `represents_iff_issued` — a code stands for a term if the term packs into it or encoding has
  issued it.
* `Alike.stats_eq` — dictionaries that are alike and have been created alike are of the same size.
* `tryEncode_exact` — **looking a term up finds the code that it has**, and nobody notices.
-/

namespace QuadBase.Dictionary.TermDictionary

open QuadBase.Rdf

variable [Text.Hasher] {d : TermDictionary} {t : Term} {code : Code}

/-- Every code that has been handed out by encoding a term stands for it. -/
lemma represents_of_issued (config : Config) (requests : List Request)
    (h : (t, code) ∈ (create config).issuesAll requests) :
    ((create config).serveAll requests).Represents t code := by
  refine (create_sound config).serveAll_run
    (P := fun d issued => ∀ t code, (t, code) ∈ issued → d.Represents t code) ?_ ?_ [] ?_
    requests t code h
  · intro d e issued hd hsame hold t code hmem
    exact (hsame.represents_iff hd).2 (hold t code hmem)
  · intro d issued hd hold t own code hmem
    obtain ⟨hfollows, hrepresents⟩ := hd.encode t
    rcases List.mem_append.1 hmem with hmem | hmem
    · exact hfollows.represents (hold own code hmem)
    · obtain ⟨rfl, hanswer⟩ := mem_issues_singleton.1 hmem
      exact hrepresents code hanswer
  · exact fun t code hmem => absurd hmem List.not_mem_nil

/-- **A code stands for a term if the term packs into it or encoding has issued it.** -/
theorem represents_iff_issued (config : Config) (requests : List Request) :
    ((create config).serveAll requests).Represents t code ↔
      embed? t = some code ∨ (t, code) ∈ (create config).issuesAll requests := by
  constructor
  · rintro (hembed | hcoded)
    · exact Or.inl hembed
    · obtain ⟨-, key, -, hissued⟩ := id hcoded
      have hcode := isEmbedded_eq_false_of_isIndexed (isIndexed_of_issued hissued)
      rw [(create_sound config).coded_serveAll hcode requests] at hcoded
      exact Or.inr (hcoded.resolve_left (not_coded_create config))
  · rintro (hembed | hmem)
    · exact Or.inl hembed
    · exact represents_of_issued config requests hmem

/-- **Dictionaries that are alike and have been created alike are of the same size**, tables
included. -/
theorem Alike.stats_eq {config : Config} {one two : List Request}
    (h : ((create config).serveAll one).Alike ((create config).serveAll two)) (calls : Calls) :
    ((create config).serveAll one).stats calls = ((create config).serveAll two).stats calls := by
  have hslots := slots_size_serveAll config one
  have hslots' := slots_size_serveAll config two
  simp only [h.records.count] at hslots
  rw [TermDictionary.stats, TermDictionary.stats, h.namespaces, h.languages, h.datatypes,
    h.records.count, h.records.primary, h.records.secondary, Records.tableBytes, Records.tableBytes,
    hslots, hslots']

/-- **Looking a term up finds the code that it has, and nobody notices.**  The answer is the code
that the term packs into or that encoding it has given, here or before a fork; and whatever is asked
for afterwards, the replies and the sizes are as if the term had not been looked up. -/
theorem tryEncode_exact (config : Config) (requests later : List Request) (t : Term) :
    let d := (create config).serveAll requests
    let e := (d.tryEncode t).dictionary
    (∀ code, (d.tryEncode t).answer = some code ↔
      embed? t = some code ∨ (t, code) ∈ (create config).issuesAll requests) ∧
    (e.respondAll later).answer = (d.respondAll later).answer ∧
    ∀ calls, (e.serveAll later).stats calls = (d.serveAll later).stats calls := by
  intro d e
  have hd : d.Sound := ((create_sound config).serveAll requests).sound
  have he : e.Sound := (hd.tryEncode t).1.sound
  have halike : e.Alike d :=
    (Alike.refl hd).onlyCaches (d.onlyCaches_tryEncode t) (.refl d) he hd
  have hlater := halike.respondAll later
  refine ⟨?_, hlater.answer, ?_⟩
  · intro code
    rw [hd.tryEncode_eq_some_iff, represents_iff_issued]
  · intro calls
    have hrun := hlater.dictionary
    rw [dictionary_respondAll, dictionary_respondAll] at hrun
    -- both have been created alike: one of them has served one more request
    have hone : e.serveAll later = (create config).serveAll (requests ++ .tryEncode t :: later) :=
      (serveAll_append _ requests (.tryEncode t :: later)).symm
    have htwo : d.serveAll later = (create config).serveAll (requests ++ later) :=
      (serveAll_append _ requests later).symm
    rw [hone, htwo] at hrun ⊢
    exact hrun.stats_eq calls

end QuadBase.Dictionary.TermDictionary
