import QuadBase.Proofs.Dictionary.Tuning
import QuadBase.Proofs.Stream.Pipeline

/-!
# Loading codes of any origin

Codes that a dictionary decodes may come from anywhere, so loading them may end early: at the first
quad of which some code is unknown, or stands for a term that has no place in its position.  What
the store has by then is what it would have if the stream had ended before this quad.

* `handleAll_decoding_decodable` — **a handler behind a decoder receives the part of the stream that
  can be decoded**, whatever it does with it.
* `Extended` — a store with some quads more, and `extended_of_run` — that is what loading makes.
* `loads_decodable` — all in one, for every history of the dictionary and of the store.
-/

namespace QuadBase

open QuadBase.Rdf

namespace Stream

open Dictionary Store QuadStore

variable [Text.Hasher] {σ ε α : Type} {d e : TermDictionary}

/-! ## What can be decoded -/

/-- The dictionary decodes the codes to the quads, one by one. -/
def Decodes (d : TermDictionary) : List CodedQuad → List Quad → Prop :=
  List.Forall₂ fun codes quad => (d.decodeQuad codes).answer = .ok quad

/-- How a stream ends where the dictionary has got as far as `rest`, and nothing else refuses
anything: well if nothing is left, else by refusing the next quad. -/
inductive Ends (lift : DictionaryError → ε) (d : TermDictionary) :
    (rest : List CodedQuad) → Except ε Unit → Prop where
  | done : Ends lift d [] (.ok ())
  | refused {codes : CodedQuad} {error : DictionaryError}
      (h : (d.decodeQuad codes).answer = .error error) (rest : List CodedQuad) :
      Ends lift d (codes :: rest) (.error (lift error))

omit [Text.Hasher] in
lemma handleAll_of_refused {h : Handler σ ε α} {item : α} {refusal : ε} {s s' : σ}
    (hitem : h.handle item s = (.error refusal, s')) (items : List α) :
    h.handleAll (item :: items) s = (.error refusal, s') := by
  rw [Handler.handleAll, hitem]

omit [Text.Hasher] in
lemma handleAll_of_passed {h : Handler σ ε α} {item : α} {s s' : σ}
    (hitem : h.handle item s = (.ok (), s')) (items : List α) :
    h.handleAll (item :: items) s = h.handleAll items s' := by
  rw [Handler.handleAll, hitem]

/-- **A handler behind a decoder receives what can be decoded.**  The dictionary `e` in use may have
filled its caches since it was `d`.  Where the inner handler refuses a quad, its refusal ends the
stream; else the stream ends as the dictionary has it. -/
theorem handleAll_decoding_decodable (lift : DictionaryError → ε) (h : d.Alike e)
    (codes : List CodedQuad) (inner : Handler σ ε Quad) (calls : Calls) (s : σ) :
    ∃ accepted rest quads result f more, codes = accepted ++ rest ∧ Decodes d accepted quads ∧
      d.Alike f ∧ (decoding lift inner).handleAll codes ⟨e, calls, s⟩ =
        (result, ⟨f, more, (inner.handleAll quads s).2⟩) ∧
      ((inner.handleAll quads s).1 = .ok () ∧ Ends lift d rest result ∨
        ∃ refusal, (inner.handleAll quads s).1 = .error refusal ∧ result = .error refusal) := by
  induction codes generalizing e calls s with
  | nil =>
    exact ⟨[], [], [], .ok (), e, calls, rfl, .nil, h, rfl, Or.inl ⟨rfl, .done⟩⟩
  | cons code codes ih =>
    have hanswer := (h.decodeQuad code).answer
    have hsame := h.onlyCaches (.refl d) (e.onlyCaches_decodeQuad code) h.left
      (h.right.decodeQuad code).sound
    cases hdecode : e.decodeQuad code with
    | mk answer more f =>
      rw [hdecode] at hanswer hsame
      cases answer with
      | error error =>
        -- the inner handler gets to see nothing of this quad, nor of the rest
        have hfirst : (decoding lift inner).handle code ⟨e, calls, s⟩ = _ :=
          handle_converting_error hdecode inner calls s
        exact ⟨[], code :: codes, [], .error (lift error), f, calls + more, rfl, .nil, hsame,
          handleAll_of_refused hfirst codes, Or.inl ⟨rfl, .refused hanswer codes⟩⟩
      | ok quad =>
        have hfirst : (decoding lift inner).handle code ⟨e, calls, s⟩ = _ :=
          handle_converting hdecode inner calls s
        cases hinner : inner.handle quad s with
        | mk result s' =>
          rw [hinner] at hfirst
          cases result with
          | error refusal =>
            -- what the inner handler is left with is what one quad leaves it with
            have hrefused := handleAll_of_refused hinner []
            refine ⟨[code], codes, [quad], .error refusal, f, calls + more, rfl,
              .cons hanswer .nil, hsame, ?_, Or.inr ⟨refusal, congrArg Prod.fst hrefused, rfl⟩⟩
            rw [hrefused]
            exact handleAll_of_refused hfirst codes
          | ok =>
            obtain ⟨accepted, rest, quads, result, g, more', hcodes, hquads, hend, hrun, hresult⟩ :=
              ih hsame (calls + more) s'
            refine ⟨code :: accepted, rest, quad :: quads, result, g, more',
              congrArg (code :: ·) hcodes, .cons hanswer hquads, hend, ?_⟩
            rw [handleAll_of_passed hinner]
            exact ⟨(handleAll_of_passed hfirst codes).trans hrun, hresult⟩

/-! ## What has been loaded -/

/-- The loader has put the quads into `s` and has counted by how many it has grown. -/
structure Extended (s : QuadStore) (quads : List Quad) (l : Loader) : Prop where
  contains_iff : ∀ q, l.store.contains q = true ↔ s.contains q = true ∨ q ∈ quads
  size_eq : l.store.size = s.size + l.loaded
  consistent : l.store.statements.Consistent
  validate_eq : l.store.validate = .ok ()

/-- **Loading extends a store by the quads of the stream**, if all of them find room. -/
lemma extended_of_run {s : QuadStore} (hs : s.Sound) {quads : List Quad} {l : Loader}
    (h : Loader.handler.run quads (Loader.create s) = (.ok (), l)) : Extended s quads l := by
  rcases run_loader hs quads with ⟨stock, limit, hfull⟩ | ⟨s', hrun, hgains⟩
  · rw [h] at hfull
    cases hfull
  · obtain rfl := (Prod.mk.inj (hrun.symm.trans h)).2
    have hsound := hgains.sound
    refine ⟨?_, ?_, hsound.statements.consistent hsound.settled, ?_⟩
    · intro q
      rw [hsound.contains_iff, hs.contains_iff, ← mem_contents, hgains.contents_eq,
        Finset.mem_union, mem_contents, List.mem_toFinset]
    · rw [hsound.size_eq, hs.size_eq, hgains.contents_eq, ← Finset.union_sdiff_self_eq_union,
        Finset.card_union_of_disjoint Finset.disjoint_sdiff]
    · rw [validate, hsound.statements.audit_eq]
      rfl

/-- **A load that is aborted leaves exactly the quads before the failure.**  Codes of any origin are
decoded and loaded until the dictionary refuses one of them, in whatever position.  If the store has
room, then the result is what loading the quads before it gives, and the stream ends with this very
refusal; without a refusal the same holds of all quads.  The dictionary answers as before. -/
theorem loads_decodable (config : Dictionary.Config) (requests : List Request)
    (storeConfig : Store.Config) (operations : List Operation) (codes : List CodedQuad) :
    let d := (TermDictionary.create config).serveAll requests
    let s := reached storeConfig operations
    let loading := throughDictionary (decoding TransferError.dictionary Loader.handler) codes
      (Loader.create s) d
    (∀ stock limit, loading.answer.1 ≠ .error (.store (.capacityExceeded stock limit))) →
    (∃ accepted rest quads, codes = accepted ++ rest ∧ Decodes d accepted quads ∧
      Ends TransferError.dictionary d rest loading.answer.1 ∧
      Loader.handler.run quads (Loader.create s) = (.ok (), loading.answer.2) ∧
      Extended s quads loading.answer.2) ∧
    (∀ code, (loading.dictionary.decode code).answer = (d.decode code).answer) ∧
    ∀ t, (loading.dictionary.tryEncode t).answer = (d.tryEncode t).answer := by
  intro d s loading hroom
  have hd : d.Sound := ((TermDictionary.create_sound config).serveAll requests).sound
  have hs : s.Sound := reached_sound storeConfig operations
  obtain ⟨accepted, rest, quads, result, f, more, hcodes, hquads, hsame, hall, hresult⟩ :=
    handleAll_decoding_decodable TransferError.dictionary (.refl hd) codes Loader.handler .none
      (Loader.create s)
  have hloading : loading =
      ⟨(result, (Loader.handler.handleAll quads (Loader.create s)).2), more, f⟩ := by
    have hrun := run_eq_handleAll (h := decoding TransferError.dictionary Loader.handler)
      (fun _ => rfl) (fun _ => rfl) codes ⟨d, .none, Loader.create s⟩
    rw [hall] at hrun
    simp only [loading, throughDictionary, hrun]
  have hinner := run_eq_handleAll (h := Loader.handler) (fun _ => rfl) (fun _ => rfl) quads
    (Loader.create s)
  rw [← hinner] at hloading hresult
  rw [hloading] at hroom ⊢
  refine ⟨?_, fun code => (hsame.decode code).answer.symm,
    fun t => (hsame.tryEncode t).answer.symm⟩
  rcases hresult with ⟨hok, hends⟩ | ⟨refusal, herror, rfl⟩
  · have hrun : Loader.handler.run quads (Loader.create s) =
        (.ok (), (Loader.handler.run quads (Loader.create s)).2) := Prod.ext hok rfl
    exact ⟨accepted, rest, quads, hcodes, hquads, hends, hrun, extended_of_run hs hrun⟩
  · rcases run_loader hs quads with ⟨stock, limit, hfull⟩ | ⟨s', hrun, -⟩
    · exact absurd (herror.symm.trans hfull) (hroom stock limit)
    · rw [hrun] at herror
      cases herror

end Stream

open Dictionary Store QuadBase.Stream in
/-- The fourth quad has a number in the position of its predicate.  Before it there are a quad that
the store has already and a repeated one; the quad after it is not looked at. -/
theorem Stream.loads_decodable_number :
    let number : Term := .literal (.ofDatatype "7" (xsd "integer"))
    let link : Quad := ⟨.blank "", ⟨"b"⟩, .blank "", .named (.blank "")⟩
    let coded := ((TermDictionary.create {}).encodeQuad link).answer.toOption.getD
      ⟨.null, .null, .null, .null⟩
    let packed := (embed? number).getD .null
    let codes := [coded, { coded with object := packed, graph := .null },
      { coded with object := packed, graph := .null }, { coded with predicate := packed }, coded]
    let loading := throughDictionary (decoding TransferError.dictionary Loader.handler) codes
      (Loader.create (reached {} [.edit (.insert link)]))
      ((TermDictionary.create {}).serveAll [.encodeQuad link])
    loading.answer.1 = .error (.dictionary (unexpected .predicate .iri number)) ∧
      loading.answer.2.store.size = 2 ∧ loading.answer.2.loaded = 1 ∧
      loading.answer.2.store.validate = .ok () := by
  intro number link coded packed codes loading
  have hrefused : loading.answer.1 =
      .error (.dictionary (unexpected .predicate .iri number)) := by decide +kernel
  have hloaded : loading.answer.2.loaded = 1 := by decide +kernel
  have hsize : (reached {} [.edit (.insert link)]).size = 1 := by decide +kernel
  obtain ⟨⟨_, _, _, -, -, -, -, hextended⟩, -⟩ :=
    loads_decodable {} [.encodeQuad link] {} [.edit (.insert link)] codes
      (fun stock limit hfull => by cases hrefused.symm.trans hfull)
  exact ⟨hrefused, hextended.size_eq.trans (by rw [hsize, hloaded]), hloaded,
    hextended.validate_eq⟩

end QuadBase
