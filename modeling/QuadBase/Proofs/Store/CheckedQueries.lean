import QuadBase.Proofs.Store.Audit
import QuadBase.Proofs.Store.CheckedStatements
import QuadBase.Proofs.Store.CheckedTerms
import QuadBase.Proofs.Store.Cursors
import QuadBase.Proofs.Store.Estimates
import QuadBase.Store.Report

/-!
# Queries, with every access checked

What planning a query, walking over its records and reading their quads do, with a mishap where a
handle, a record or a link is not there, and where a component of a quad is of the wrong kind.

* `checkedResolve_eq` — planning only binds handles that have been given out.
* `Walk.Within.checkedAdvance_eq` — **a move of a walk has no mishap** and shows a live record, as
  long as the walk stands within the records (`Walk.Within`), which it still does afterwards.
* `Sound.checkedQuad_eq` — **a live record can be read as a quad.**
* `Fit.askable` — so in a store that is `Fit` **no question has a mishap**.
-/

namespace QuadBase.Store

open QuadBase.Index QuadBase.Rdf

variable [Text.Hasher]

/-! ## Planning -/

/-- The handle that an optional component asks for. -/
def checkedBindHandle (terms : TermTable) : Option Term → Checked (Option (Option Nat))
  | none => .ok (some none)
  | some term => do return (← terms.checkedHandle? term).map some

namespace Leg

def checkedResolve (pattern : Pattern) (terms : TermTable) : Checked (List Leg) := do
  let some subject ← checkedBindHandle terms (pattern.subject.map .resource) | return []
  let some predicate ← checkedBindHandle terms (pattern.predicate.map Term.iri) | return []
  let some object ← checkedBindHandle terms pattern.object | return []
  if pattern.graphs.isEmpty then return [⟨subject, predicate, object, none⟩]
  else
    let graphs ← pattern.graphs.mapM terms.checkedGraphHandle?
    return (graphs.filterMap id).eraseDups.map fun graph =>
      (⟨subject, predicate, object, some graph⟩ : Leg)

omit [Text.Hasher]

/-- The bound positions in order, each with the chain of its handle. -/
def checkedBoundChains (leg : Leg) (s : Statements) : Checked (List (Position × Chain)) := do
  let chains ← leg.toList.mapM fun (p, bound) =>
    match bound with
    | none => .ok none
    | some handle => do
      let entry ← Statements.chainsAt s.chains handle
      return some (p, entry.get p)
  return chains.filterMap id

def checkedAccess (leg : Leg) (s : Statements) : Checked Access := do
  match cheapest (← leg.checkedBoundChains s) with
  | none => return .scan
  | some (p, c) => return .chain p c.head

def checkedEstimate (leg : Leg) (s : Statements) : Checked Nat := do
  match cheapest (← leg.checkedBoundChains s) with
  | none => return s.live
  | some (_, c) => return c.count

/-- The handles that a leg binds have chains. -/
def Within (leg : Leg) (s : Statements) : Prop :=
  ∀ {p handle}, leg.get p = some handle → handle < s.chains.size

end Leg

section Planning

variable {t : TermTable} {pattern : Pattern}

lemma checkedBindHandle_eq (h : t.Sound) (hsize : t.slots.size.isPowerOfTwo)
    (asked : Option Term) : checkedBindHandle t asked = .ok (bindHandle t asked) := by
  cases asked with
  | none => rfl
  | some term =>
    rw [checkedBindHandle, h.checkedHandle?_eq hsize]
    rfl

/-- **Planning has no mishap.** -/
lemma checkedResolve_eq (h : t.Sound) (hsize : t.slots.size.isPowerOfTwo) (pattern : Pattern) :
    Leg.checkedResolve pattern t = .ok (Leg.resolve pattern t) := by
  have hgraphs : pattern.graphs.mapM t.checkedGraphHandle? =
      .ok (pattern.graphs.map t.graphHandle?) :=
    mapM_eq_ok fun graph _ => h.checkedGraphHandle?_eq hsize graph
  rw [Leg.checkedResolve, Leg.resolve]
  simp only [checkedBindHandle_eq h hsize, ok_bind]
  cases bindHandle t (pattern.subject.map .resource) with
  | none => rfl
  | some subject =>
    cases bindHandle t (pattern.predicate.map Term.iri) with
    | none => rfl
    | some predicate =>
      cases bindHandle t pattern.object with
      | none => rfl
      | some object =>
        simp only [Option.bind_eq_bind, Option.bind_some]
        split
        next => rfl
        next =>
          rw [hgraphs, ok_bind, List.filterMap_map]
          rfl

/-- The legs of a pattern bind handles that have been given out. -/
lemma within_resolve (h : t.Sound) {s : Statements} (hchains : s.chains.size = t.size) {leg : Leg}
    (hleg : leg ∈ Leg.resolve pattern t) : leg.Within s := by
  obtain ⟨hs, hp, ho, hg⟩ := mem_resolve.1 hleg
  rintro p handle hbound
  rw [hchains]
  cases p with
  | subject => exact (bindHandle_eq_some h hs).2 handle hbound
  | predicate => exact (bindHandle_eq_some h hp).2 handle hbound
  | object => exact (bindHandle_eq_some h ho).2 handle hbound
  | graph =>
    change leg.graph = some handle at hbound
    split at hg
    next => rw [hg] at hbound; cases hbound
    next =>
      obtain ⟨graph, -, other, hother, heq⟩ := hg
      obtain rfl := Option.some.inj (hbound.symm.trans heq)
      exact (graphHandle?_spec h hother).2

end Planning

/-! ## The way to the records -/

namespace Leg

omit [Text.Hasher]

variable {leg : Leg} {s : Statements}

lemma Within.checkedBoundChains_eq (h : leg.Within s) :
    leg.checkedBoundChains s = .ok (leg.boundChains s) := by
  rw [checkedBoundChains, mapM_eq_ok (g := fun (p, bound) =>
    bound.map fun handle => (p, s.chainAt handle p)), ok_bind, List.filterMap_map]
  · rfl
  · rintro ⟨p, bound⟩ hmem
    cases bound with
    | none => rfl
    | some handle =>
      obtain ⟨entry, hentry, hget⟩ :=
        Statements.chainsAt_eq (h (PerPosition.mem_toList.1 hmem))
      dsimp only
      rw [hentry, ok_bind, hget]
      rfl

lemma Within.checkedAccess_eq (h : leg.Within s) : leg.checkedAccess s = .ok (leg.access s) := by
  rw [checkedAccess, h.checkedBoundChains_eq, ok_bind, access]
  cases cheapest (leg.boundChains s) <;> rfl

lemma Within.checkedEstimate_eq (h : leg.Within s) :
    leg.checkedEstimate s = .ok (leg.estimate s) := by
  rw [checkedEstimate, h.checkedBoundChains_eq, ok_bind, estimate]
  cases cheapest (leg.boundChains s) <;> rfl

end Leg

/-! ## Walking -/

namespace Walk

omit [Text.Hasher]

/-- The first record of a leg in a scan.  Its number and the one behind it have to be machine
words. -/
def checkedSeekScan (leg : Leg) (records : Array Statement) :
    (count next : Nat) → Checked (Option (Nat × Step))
  | 0, _ => .ok none
  | count + 1, next => do
    ensure (next + 1 < wordBound) .overflow
    let record ← Statements.recordAt records next
    if leg.admits record then return some (next, .scan (next + 1))
    else checkedSeekScan leg records count (next + 1)

def checkedSeekChain (leg : Leg) (records : Array Statement) (p : Position) :
    (steps : Nat) → (current : Option Nat) → Checked (Option (Nat × Step))
  | 0, _ => .ok none
  | _, none => .ok none
  | steps + 1, some id => do
    let record ← Statements.recordAt records id
    let next := record.next.get p
    if leg.admits record then return some (id, .chain p next)
    else checkedSeekChain leg records p steps next

/-- The next record of a leg once the way is chosen. -/
def checkedSeekBegun (leg : Leg) (s : Statements) : Step → Checked (Option (Nat × Step))
  | .start => .ok none
  | .scan next => checkedSeekScan leg s.records (s.records.size - next) next
  | .chain p next => checkedSeekChain leg s.records p s.records.size next

def checkedSeek (leg : Leg) (s : Statements) : Step → Checked (Option (Nat × Step))
  | .start => do
    let access ← leg.checkedAccess s
    checkedSeekBegun leg s (begin access)
  | step => checkedSeekBegun leg s step

def checkedAdvanceFrom (s : Statements) : (legs : List Leg) → Step → Checked (Option Nat × Walk)
  | [], step => .ok (none, ⟨[], step⟩)
  | leg :: legs, step => do
    match ← checkedSeek leg s step with
    | some (id, step) => return (some id, ⟨leg :: legs, step⟩)
    | none => checkedAdvanceFrom s legs .start

def checkedAdvance (w : Walk) (s : Statements) : Checked (Option Nat × Walk) :=
  checkedAdvanceFrom s w.legs w.step

/-- The records of a walk, which has to come to its end in fewer than `steps` of them. -/
def checkedCollect (s : Statements) : (steps : Nat) → Walk → Checked (List Nat)
  | 0, _ => .error .endless
  | steps + 1, w => do
    match ← w.checkedAdvance s with
    | (none, _) => return []
    | (some id, w) =>
      let ids ← checkedCollect s steps w
      return id :: ids

/-- A step in a chain goes on at a record, if it goes on. -/
def StepWithin (s : Statements) : Step → Prop
  | .start => True
  | .scan _ => True
  | .chain _ next => ∀ id ∈ next, id < s.records.size

/-- A walk stands within the records, and its legs bind handles that have chains. -/
structure Within (s : Statements) (w : Walk) : Prop where
  legs : ∀ leg ∈ w.legs, leg.Within s
  step : StepWithin s w.step

variable {leg : Leg} {s : Statements} {step : Step}

/-- Only the numbers of records and of handles matter. -/
lemma Within.congr {s' : Statements} {w : Walk} (h : Within s w)
    (hrecords : s'.records.size = s.records.size) (hchains : s'.chains.size = s.chains.size) :
    Within s' w := by
  obtain ⟨legs, step⟩ := w
  refine ⟨fun leg hleg {p handle} hbound => hchains ▸ h.legs leg hleg hbound, ?_⟩
  cases step with
  | start => trivial
  | scan next => trivial
  | chain p next => exact fun id hid => hrecords ▸ h.step id hid

/-- What a checked search for the next record of a leg gives: the same, a live record, and a step to
go on from. -/
def Agrees (leg : Leg) (s : Statements) (checked : Checked (Option (Nat × Step)))
    (answer : Option (Nat × Step)) : Prop :=
  checked = .ok answer ∧
    ∀ found ∈ answer, leg.admitsAt s.records found.1 = true ∧ StepWithin s found.2

lemma agrees_none : Agrees leg s (.ok none) none :=
  ⟨rfl, fun _ hfound => by cases hfound⟩

lemma checkedSeekScan_eq (hb : s.Bounded) {count next : Nat}
    (hcount : next + count ≤ s.records.size) : Agrees leg s
      (checkedSeekScan leg s.records count next) (seekScan leg s.records count next) := by
  induction count generalizing next with
  | zero => exact agrees_none
  | succ count ih =>
    have hsize := hb.size_le
    have hbound := Statements.capacity_add_two
    obtain ⟨record, hrecord, hat⟩ := Statements.recordAt_eq (show next < s.records.size by omega)
    have hadmits := leg.admitsAt_of_getElem? hrecord
    rw [checkedSeekScan, ensure_eq_ok (by omega), ok_bind, hat, ok_bind, seekScan, hadmits]
    split
    next hyes =>
      refine ⟨rfl, ?_⟩
      rintro _ ⟨⟩
      exact ⟨hadmits.trans hyes, trivial⟩
    next => exact ih (by omega)

lemma checkedSeekChain_eq (hb : s.Bounded) {p : Position} {steps : Nat} {current : Option Nat}
    (hcurrent : ∀ id ∈ current, id < s.records.size) :
    Agrees leg s (checkedSeekChain leg s.records p steps current)
      (seekChain leg s.records p steps current) := by
  induction steps generalizing current with
  | zero => exact agrees_none
  | succ steps ih =>
    cases current with
    | none => exact agrees_none
    | some id =>
      obtain ⟨record, hrecord, hat⟩ := Statements.recordAt_eq (hcurrent id rfl)
      have hadmits := leg.admitsAt_of_getElem? hrecord
      have hnext := Statements.nextOf_of_getElem? (p := p) hrecord
      have hwithin : ∀ other ∈ record.next.get p, other < s.records.size := fun other hother =>
        hb.links (hnext.trans hother)
      rw [checkedSeekChain, hat, ok_bind, seekChain, hadmits, hnext]
      dsimp only
      split
      next hyes =>
        refine ⟨rfl, ?_⟩
        rintro _ ⟨⟩
        exact ⟨hadmits.trans hyes, hwithin⟩
      next => exact ih hwithin

lemma checkedSeekBegun_eq (hb : s.Bounded) (hstep : StepWithin s step) :
    Agrees leg s (checkedSeekBegun leg s step) (seek.seekBegun leg s step) := by
  cases step with
  | start => exact agrees_none
  | scan next =>
    rw [checkedSeekBegun, seek.seekBegun]
    by_cases hle : next ≤ s.records.size
    · exact checkedSeekScan_eq hb (by omega)
    · rw [Nat.sub_eq_zero_of_le (Nat.le_of_not_le hle)]
      exact agrees_none
  | chain p next => exact checkedSeekChain_eq hb hstep

variable [Text.Hasher]

lemma checkedSeek_eq (h : s.Sound) (hb : s.Bounded) (hleg : leg.Within s)
    (hstep : StepWithin s step) : Agrees leg s (checkedSeek leg s step) (seek leg s step) := by
  cases step with
  | start =>
    rw [checkedSeek, hleg.checkedAccess_eq, ok_bind, seek]
    refine checkedSeekBegun_eq hb ?_
    rcases leg.access_cases s with hscan | ⟨p, handle, -, hchain⟩
    · rw [hscan]
      trivial
    · rw [hchain]
      exact fun id hid => h.head_lt hid
  | scan next => exact checkedSeekBegun_eq hb hstep
  | chain p next => exact checkedSeekBegun_eq hb hstep

/-- **A move has no mishap.**  It shows a live record, and the walk still stands within the
records. -/
theorem Within.checkedAdvance_eq {w : Walk} (hw : Within s w) (h : s.Sound) (hb : s.Bounded) :
    w.checkedAdvance s = .ok (w.advance s) ∧ Within s (w.advance s).2 ∧
      ∀ id ∈ (w.advance s).1, Statements.isLiveAt s.records id = true := by
  obtain ⟨legs, step⟩ := w
  obtain ⟨hlegs, hstep⟩ := hw
  rw [checkedAdvance, advance]
  dsimp only at hlegs hstep ⊢
  induction legs generalizing step with
  | nil => exact ⟨rfl, ⟨hlegs, hstep⟩, fun _ hid => by cases hid⟩
  | cons leg legs ih =>
    obtain ⟨hchecked, hfound⟩ := checkedSeek_eq h hb (hlegs leg List.mem_cons_self) hstep
    rw [checkedAdvanceFrom, hchecked, ok_bind, advanceFrom]
    cases hseek : seek leg s step with
    | none => exact ih _ (fun other hother => hlegs other (List.mem_cons_of_mem _ hother)) trivial
    | some answer =>
      obtain ⟨hadmits, hnext⟩ := hfound answer hseek
      obtain ⟨handles, hhandles, -⟩ := Leg.admitsAt_iff.1 hadmits
      refine ⟨rfl, ⟨hlegs, hnext⟩, ?_⟩
      rintro id ⟨⟩
      exact Statements.isLiveAt_of_terms? hhandles

/-- A walk to its end collects the records ahead of it. -/
lemma checkedCollect_eq (h : s.Sound) (hb : s.Bounded) {ids : List Nat} {w : Walk} {steps : Nat}
    (hw : Within s w) (hahead : Ahead s w ids) (hsteps : ids.length < steps) :
    checkedCollect s steps w = .ok ids := by
  induction steps generalizing ids w with
  | zero => cases hsteps
  | succ steps ih =>
    obtain ⟨hchecked, hwithin, -⟩ := hw.checkedAdvance_eq h hb
    obtain ⟨hanswer, hrest⟩ := hahead.advance h
    rw [checkedCollect, hchecked, ok_bind]
    cases hmove : w.advance s with
    | mk answer w' =>
      rw [hmove] at hanswer hrest hwithin
      dsimp only at hanswer hrest hwithin
      cases ids with
      | nil =>
        obtain rfl : answer = none := hanswer
        rfl
      | cons id ids =>
        obtain rfl : answer = some id := hanswer
        dsimp only
        rw [ih hwithin hrest (Nat.lt_of_succ_lt_succ hsteps)]
        rfl

end Walk

/-! ## Reading quads -/

section Kinds

omit [Text.Hasher]

/-- A subject is an IRI or a blank node. -/
def checkedSubject : Option Term → Checked Resource
  | some (.resource r) => .ok r
  | _ => .error .wrongSubject

def checkedPredicate : Option Term → Checked Iri
  | some (.resource (.iri i)) => .ok i
  | _ => .error .wrongPredicate

/-- An object is any term, but never the default graph. -/
def checkedObject : Option Term → Checked Term
  | some term => .ok term
  | none => .error .wrongObject

/-- A graph has no name, or its name is an IRI or a blank node. -/
def checkedGraphName : Option Term → Checked GraphName
  | none => .ok .defaultGraph
  | some (.resource r) => .ok (.named r)
  | some (.literal _) => .error .wrongGraph

lemma checkedGraphName_eq {t : TermTable} {handle : Nat} {graph : GraphName}
    (h : t.graphName? handle = some graph) :
    checkedGraphName (t.term? handle) = .ok graph := by
  rw [TermTable.graphName?] at h
  split at h
  next hzero =>
    rw [TermTable.term?, if_pos hzero, ← Option.some.inj h]
    rfl
  next =>
    split at h
    next r hr =>
      rw [hr, ← Option.some.inj h]
      rfl
    next => cases h

end Kinds

namespace QuadStore

omit [Text.Hasher] in
/-- The quad of four handles, whose terms have to be there and of the right kinds. -/
def checkedQuadOf (terms : TermTable) (handles : PerPosition Nat) : Checked Quad := do
  let subject ← checkedSubject (← terms.checkedTerm handles.subject)
  let predicate ← checkedPredicate (← terms.checkedTerm handles.predicate)
  let object ← checkedObject (← terms.checkedTerm handles.object)
  let graph ← checkedGraphName (← terms.checkedTerm handles.graph)
  return ⟨subject, predicate, object, graph⟩

omit [Text.Hasher] in
/-- The quad of a record.  A tombstone has no handles to look up. -/
def checkedQuad (s : QuadStore) (id : Nat) : Checked Quad := do
  let record ← Statements.recordAt s.statements.records id
  match record.terms with
  | none => throw .danglingHandle
  | some handles => checkedQuadOf s.terms handles

variable {s : QuadStore} {id : Nat}

/-- Four handles that can be a quad are looked up without a mishap. -/
lemma Sound.checkedQuadOf_eq (h : s.Sound) {handles : PerPosition Nat} {q : Quad}
    (hq : QuadStore.quadOf? s.terms handles = some q) :
    checkedQuadOf s.terms handles = .ok q := by
  obtain ⟨hs, hp, ho, hg⟩ := quadOf?_eq_some_iff.1 hq
  have hterm : ∀ p, s.terms.checkedTerm (handles.get p) = .ok (s.terms.term? (handles.get p)) :=
    fun p => TermTable.checkedTerm_eq (h.chains_size ▸ h.lt_chains hq p)
  have hsubject := hterm .subject
  have hpredicate := hterm .predicate
  have hobject := hterm .object
  have hgraph := hterm .graph
  simp only [PerPosition.get] at hsubject hpredicate hobject hgraph
  rw [checkedQuadOf, hsubject, hs, ok_bind, checkedSubject, ok_bind, hpredicate, hp, ok_bind]
  rw [Term.iri, checkedPredicate, ok_bind, hobject, ho, ok_bind, checkedObject, ok_bind, hgraph,
    ok_bind, checkedGraphName_eq hg]
  rfl

/-- A handle that is fit for an object need not be fit for a subject. -/
example : checkedQuadOf ⟨#[.literal (.simple "a")], #[]⟩ ⟨1, 1, 1, 1⟩ = .error .wrongSubject := by
  decide

/-- **A live record can be read as a quad.** -/
theorem Sound.checkedQuad_eq (h : s.Sound)
    (hlive : Statements.isLiveAt s.statements.records id = true) :
    ∃ q, s.quad? id = some q ∧ s.checkedQuad id = .ok q := by
  obtain ⟨handles, hhandles⟩ := Statements.isLiveAt_iff.1 hlive
  obtain ⟨record, hrecord, hat⟩ := Statements.recordAt_eq (Statements.lt_size_of_isLiveAt hlive)
  have hterms : record.terms = some handles :=
    (Statements.termsAt_of_getElem? hrecord).symm.trans hhandles
  obtain ⟨q, hq⟩ := h.readable hhandles
  refine ⟨q, Sound.quad?_eq_some_iff.2 ⟨handles, hhandles, hq⟩, ?_⟩
  rw [checkedQuad, hat, ok_bind, hterms]
  exact h.checkedQuadOf_eq hq

/-! ## Questions -/

section Questions

variable (s) (p : Pattern)

def checkedIds : Checked (List Nat) := do
  let legs ← Leg.checkedResolve p s.terms
  Walk.checkedCollect s.statements (s.statements.records.size + 1) (Walk.create legs)

def checkedQuads : Checked (List Quad) := do
  (← s.checkedIds p).mapM s.checkedQuad

def checkedHandles? (q : Quad) : Checked (Option (PerPosition Nat)) := do
  let some subject ← s.terms.checkedHandle? (.resource q.subject) | return none
  let some predicate ← s.terms.checkedHandle? (.iri q.predicate) | return none
  let some object ← s.terms.checkedHandle? q.object | return none
  let some graph ← s.terms.checkedGraphHandle? q.graph | return none
  return some ⟨subject, predicate, object, graph⟩

def checkedFind? (q : Quad) : Checked (Option Nat) := do
  match ← s.checkedHandles? q with
  | none => return none
  | some handles => s.statements.checkedFind? handles

def checkedContains (q : Quad) : Checked Bool := do
  return (← s.checkedFind? q).isSome

def checkedCount : Checked Nat := do
  if p.isWildcard then return s.size else return (← s.checkedQuads p).length

def checkedEstimate : Checked Nat := do
  let legs ← Leg.checkedResolve p s.terms
  let bounds ← legs.mapM fun leg => leg.checkedEstimate s.statements
  return bounds.foldl (· + ·) 0

/-- The distinct components in one place of the quads of a pattern. -/
def checkedComponents {α : Type} [BEq α] [Hashable α] (component : Quad → α) :
    Checked (List α) := do
  return distinct ((← s.checkedQuads p).map component)

def checkedObjectValue : Checked (Except StoreError (Option Term)) := do
  match (← s.checkedQuads p).map Quad.object with
  | [] => return .ok none
  | first :: rest =>
    match rest.find? (· != first) with
    | none => return .ok (some first)
    | some second => return .error (.ambiguousObject first.text second.text)

def checkedObjectAs {α : Type} (expected : TermClass) (convert : Term → Option α) :
    Checked (Except StoreError (Option α)) := do
  match ← s.checkedObjectValue p with
  | .error e => return .error e
  | .ok none => return .ok none
  | .ok (some object) =>
    match convert object with
    | some a => return .ok (some a)
    | none => return .error (.unexpectedObject expected object.text)

def checkedObjectString : Checked (Except StoreError (Option String)) := do
  return (← s.checkedObjectValue p).map fun object => object.map Term.content

def checkedText : Checked String := do
  let lines := sortTexts ((← s.checkedQuads {}).map Quad.text)
  return String.join (lines.map (· ++ " .\n"))

/-- The default graph has a handle but is no term. -/
def checkedTermCount : Checked Nat :=
  decreased s.terms.size

end Questions

end QuadStore

/-! ## Auditing -/

namespace Statements

/-- The audit of the index for the records in `rest`, the first of which is `id`.  The other parts
of an audit check every number themselves before they use it. -/
def checkedIndexRest (s : Statements) :
    (rest : List Statement) → (indexed id : Nat) → Checked (Except Fault (Nat × Nat))
  | [], indexed, id => .ok (.ok (indexed, id))
  | record :: rest, indexed, id =>
    match record.terms with
    | none => s.checkedIndexRest rest indexed (id + 1)
    | some terms => do
      if (← s.checkedFind? terms) = some id then s.checkedIndexRest rest (indexed + 1) (id + 1)
      else return .error .notIndexed

def checkedAudit (s : Statements) : Checked (Except Fault Unit) :=
  match s.auditChains with
  | .error fault => .ok (.error fault)
  | .ok listed =>
    if listed.toList.any fun (_, count) => count ≠ s.live then .ok (.error .wrongTotal)
    else do
      match ← s.checkedIndexRest s.records.toList 0 0 with
      | .error fault => return .error fault
      | .ok (indexed, _) => return if indexed = s.live then .ok () else .error .wrongLive

variable {s : Statements}

lemma Searchable.checkedIndexRest_eq (h : s.Searchable) (rest : List Statement)
    (indexed id : Nat) :
    s.checkedIndexRest rest indexed id = .ok (s.indexRest rest indexed id) := by
  induction rest generalizing indexed id with
  | nil => rfl
  | cons record rest ih =>
    rw [checkedIndexRest, indexRest, List.foldlM_cons]
    cases record.terms with
    | none => exact ih indexed (id + 1)
    | some terms =>
      dsimp only
      rw [h.checkedFind?_eq, ok_bind]
      split
      next => exact ih (indexed + 1) (id + 1)
      next => rfl

lemma Searchable.checkedAudit_eq (h : s.Searchable) : s.checkedAudit = .ok s.audit := by
  rw [checkedAudit, audit, auditIndex_eq_indexRest]
  cases s.auditChains with
  | error fault => rfl
  | ok listed =>
    dsimp only
    rw [h.checkedIndexRest_eq, ok_bind]
    split
    next hany => exact congrArg _ (if_pos hany).symm
    next hnone =>
      refine Eq.trans ?_ (congrArg _ (if_neg hnone).symm)
      cases s.indexRest s.records.toList 0 0 <;> rfl

end Statements

/-! ## Stores that can be asked -/

namespace QuadStore

def checkedValidate (s : QuadStore) : Checked (Except StoreError Unit) := do
  return (← s.statements.checkedAudit).mapError fun fault => .corruption fault.message

/-- **What it takes for nothing to go wrong.** -/
structure Fit (s : QuadStore) : Prop where
  sound : s.Sound
  bounded : s.statements.Bounded
  slots_size : s.terms.slots.size.isPowerOfTwo
  index_size : s.statements.index.size.isPowerOfTwo

/-- No question to a store has a mishap. -/
structure Askable (s : QuadStore) : Prop where
  contains : ∀ q, s.checkedContains q = .ok (s.contains q)
  count : ∀ p, s.checkedCount p = .ok (s.count p)
  estimate : ∀ p, s.checkedEstimate p = .ok (s.estimate p)
  quads : ∀ p, s.checkedQuads p = .ok (s.quads p)
  subjects : ∀ p, s.checkedComponents p Quad.subject = .ok (s.subjects p)
  predicates : ∀ p, s.checkedComponents p Quad.predicate = .ok (s.predicates p)
  objects : ∀ p, s.checkedComponents p Quad.object = .ok (s.objects p)
  graphs : ∀ p, s.checkedComponents p Quad.graph = .ok (s.graphs p)
  objectValue : ∀ p, s.checkedObjectValue p = .ok (s.objectValue p)
  /-- Whatever kind of object is asked for. -/
  objectAs : ∀ p {α : Type} (expected : TermClass) (convert : Term → Option α),
    s.checkedObjectAs p expected convert = .ok (s.objectAs p expected convert)
  objectString : ∀ p, s.checkedObjectString p = .ok (s.objectString p)
  text : s.checkedText = .ok s.text
  termCount : s.checkedTermCount = .ok s.termCount
  validate : s.checkedValidate = .ok s.validate

namespace Fit

variable {s : QuadStore} (h : s.Fit) (p : Pattern)

include h

lemma checkedResolve_eq : Leg.checkedResolve p s.terms = .ok (s.legs p) :=
  QuadBase.Store.checkedResolve_eq h.sound.terms h.slots_size p

lemma within_legs : ∀ leg ∈ s.legs p, leg.Within s.statements :=
  fun _ => within_resolve h.sound.terms h.sound.chains_size

lemma within_create : Walk.Within s.statements (Walk.create (s.legs p)) :=
  ⟨h.within_legs p, trivial⟩

lemma isLiveAt_of_mem_ids {id : Nat} (hid : id ∈ s.ids p) :
    Statements.isLiveAt s.statements.records id = true := by
  obtain ⟨q, hq, -⟩ := h.sound.mem_ids.1 hid
  exact h.sound.quad?_isSome_iff.1 (hq ▸ rfl)

/-- A query meets no more records than there are, so it comes to its end. -/
lemma checkedIds_eq : s.checkedIds p = .ok (s.ids p) := by
  have hlength : (s.ids p).length ≤ s.statements.records.size :=
    Statements.length_le_of_lt (h.sound.nodup_ids p) fun id hid =>
      Statements.lt_size_of_isLiveAt (h.isLiveAt_of_mem_ids p hid)
  rw [checkedIds, h.checkedResolve_eq, ok_bind]
  exact Walk.checkedCollect_eq h.sound.statements h.bounded (h.within_create p)
    (Walk.create_ahead _ _) (Nat.lt_succ_of_le hlength)

/-- **A query has no mishap**, whatever it finds. -/
theorem checkedQuads_eq : s.checkedQuads p = .ok (s.quads p) := by
  rw [checkedQuads, h.checkedIds_eq, ok_bind]
  exact mapM_eq_ok_filterMap fun id hid =>
    h.sound.checkedQuad_eq (h.isLiveAt_of_mem_ids p hid)

lemma checkedHandles?_eq (q : Quad) : s.checkedHandles? q = .ok (s.handles? q) := by
  rw [checkedHandles?, handles?]
  simp only [h.sound.terms.checkedHandle?_eq h.slots_size,
    h.sound.terms.checkedGraphHandle?_eq h.slots_size, ok_bind]
  cases s.terms.handle? (.resource q.subject) with
  | none => rfl
  | some subject =>
    cases s.terms.handle? (.iri q.predicate) with
    | none => rfl
    | some predicate =>
      cases s.terms.handle? q.object with
      | none => rfl
      | some object => cases s.terms.graphHandle? q.graph <;> rfl

lemma checkedFind?_eq (q : Quad) : s.checkedFind? q = .ok (s.find? q) := by
  rw [checkedFind?, h.checkedHandles?_eq, ok_bind, find?]
  cases s.handles? q with
  | none => rfl
  | some handles => exact (h.sound.statements.searchable h.index_size).checkedFind?_eq handles

lemma checkedCount_eq : s.checkedCount p = .ok (s.count p) := by
  rw [checkedCount, count]
  split
  next => rfl
  next => rw [h.checkedQuads_eq]; rfl

lemma checkedEstimate_eq : s.checkedEstimate p = .ok (s.estimate p) := by
  have hbounds : (s.legs p).mapM (fun leg => leg.checkedEstimate s.statements) =
      .ok ((s.legs p).map fun leg => leg.estimate s.statements) :=
    mapM_eq_ok fun leg hleg => Leg.Within.checkedEstimate_eq (h.within_legs p leg hleg)
  rw [checkedEstimate, h.checkedResolve_eq, ok_bind, hbounds, ok_bind, List.foldl_map]
  rfl

lemma checkedComponents_eq {α : Type} [BEq α] [Hashable α] (component : Quad → α) :
    s.checkedComponents p component = .ok (distinct ((s.quads p).map component)) := by
  rw [checkedComponents, h.checkedQuads_eq]
  rfl

lemma checkedObjectValue_eq : s.checkedObjectValue p = .ok (s.objectValue p) := by
  rw [checkedObjectValue, h.checkedQuads_eq, ok_bind, objectValue]
  cases (s.quads p).map Quad.object with
  | nil => rfl
  | cons first rest =>
    dsimp only
    cases rest.find? (· != first) <;> rfl

lemma checkedObjectAs_eq {α : Type} (expected : TermClass) (convert : Term → Option α) :
    s.checkedObjectAs p expected convert = .ok (s.objectAs p expected convert) := by
  rw [checkedObjectAs, h.checkedObjectValue_eq, ok_bind, objectAs]
  rcases s.objectValue p with _ | _ | object
  · rfl
  · rfl
  · dsimp only
    cases convert object <;> rfl

/-- **No question has a mishap.** -/
theorem askable : s.Askable where
  contains q := by rw [checkedContains, h.checkedFind?_eq]; rfl
  count := h.checkedCount_eq
  estimate := h.checkedEstimate_eq
  quads := h.checkedQuads_eq
  subjects p := h.checkedComponents_eq p _
  predicates p := h.checkedComponents_eq p _
  objects p := h.checkedComponents_eq p _
  graphs p := h.checkedComponents_eq p _
  objectValue := h.checkedObjectValue_eq
  objectAs p _ := h.checkedObjectAs_eq p
  objectString p := by rw [checkedObjectString, h.checkedObjectValue_eq]; rfl
  text := by rw [checkedText, h.checkedQuads_eq]; rfl
  termCount := decreased_eq_ok (Nat.succ_pos _)
  validate := by
    rw [checkedValidate, (h.sound.statements.searchable h.index_size).checkedAudit_eq]
    rfl

end Fit

end QuadStore

end QuadBase.Store
