import QuadBase.Proofs.Store.Chains

/-!
# Sweeping

A sweep goes through all chains and unlinks the tombstones.  The chains share their records, but the
chain of one handle in a position changes the links of its own live records in this position alone,
and no other chain of the position has those.  So the chains can be swept one after the other.

* `sweepFrom_last`, `sweepFrom_head` — one chain: what is linked afterwards is the list of its live
  records, and only their links have changed.
* `sweepHandle_swept` — the four chains of a handle.
* `sweep_swept` — all chains.
-/

namespace QuadBase.Store.Statements

open QuadBase.Rdf

variable {records : Array Statement} {p : Position}

/-! ## One chain -/

/-- The sweep behind the live record `last`, which is linked to the rest of the chain. -/
lemma sweepFrom_last {l : List Nat} {last : Nat} {current : Option Nat} (head : Option Nat)
    {steps : Nat}
    (hl : Linked (nextOf records p) current l) (hlast : nextOf records p last = current)
    (hnot : last ∉ l) (hsize : last < records.size) (hsteps : l.length ≤ steps) :
    let result := sweepFrom p steps (some last) current head records
    result.1 = head ∧
      Linked (nextOf result.2 p) (nextOf result.2 p last) (l.filter (isLiveAt records)) ∧
      Relinked (fun q id => q = p ∧ (id = last ∨ id ∈ l ∧ isLiveAt records id = true)) records
        result.2 := by
  induction l generalizing last current steps records with
  | nil =>
    cases hl
    have hdone : sweepFrom p steps (some last) none head records = (head, records) := by
      cases steps <;> rfl
    rw [hdone]
    refine ⟨rfl, ?_, .refl⟩
    rw [hlast]
    exact .nil
  | cons id l ih =>
    cases steps with
    | zero => cases hsteps
    | succ steps =>
      have hid := hl.notMem_tail
      cases hl with
      | cons rest =>
        have hsteps' : l.length ≤ steps := Nat.le_of_succ_le_succ hsteps
        have hne : last ≠ id := fun h => hnot (h ▸ List.mem_cons_self)
        have hnot' : last ∉ l := fun h => hnot (List.mem_cons_of_mem id h)
        cases hlive : isLiveAt records id with
        | true =>
          have hrest := ih rest rfl hid (lt_size_of_isLiveAt hlive) hsteps'
          simp only [sweepFrom, hlive, if_true]
          obtain ⟨hhead, hlinked, hrelinked⟩ := hrest
          refine ⟨hhead, ?_, hrelinked.mono ?_⟩
          · have hkept := hrelinked.next_eq p last fun h =>
              h.2.elim hne fun h => hnot' h.1
            rw [hkept, hlast, List.filter_cons_of_pos hlive]
            exact .cons hlinked
          · rintro q other ⟨rfl, rfl | ⟨hmem, hother⟩⟩
            · exact ⟨rfl, Or.inr ⟨List.mem_cons_self, hlive⟩⟩
            · exact ⟨rfl, Or.inr ⟨List.mem_cons_of_mem id hmem, hother⟩⟩
        | false =>
          have hset := relinked_setNext p (nextOf records p id) hsize
          have hlinked : Linked (nextOf (setNext records p last (nextOf records p id)) p)
              (nextOf records p id) l :=
            hset.linked rest fun other hother h => hnot' (h.2 ▸ hother)
          have hrest := ih hlinked (by rw [nextOf_setNext hsize, if_pos ⟨rfl, rfl⟩])
            hnot' (by rwa [size_setNext]) hsteps'
          rw [hset.isLiveAt_eq] at hrest
          simp only [sweepFrom, hlive, Bool.false_eq_true, if_false]
          obtain ⟨hhead, hlinked', hrelinked⟩ := hrest
          refine ⟨hhead, ?_, (hset.mono ?_).trans (hrelinked.mono ?_)⟩
          · rwa [List.filter_cons_of_neg (by simp [hlive])]
          · rintro q other ⟨rfl, rfl⟩
            exact ⟨rfl, Or.inl rfl⟩
          · rintro q other ⟨rfl, hlast | ⟨hmem, hother⟩⟩
            · exact ⟨rfl, Or.inl hlast⟩
            · exact ⟨rfl, Or.inr ⟨List.mem_cons_of_mem id hmem, hother⟩⟩

/-- The sweep before any live record.  Tombstones in front of the chain only move its head. -/
lemma sweepFrom_head {l : List Nat} {current : Option Nat} {steps : Nat}
    (hl : Linked (nextOf records p) current l) (hsteps : l.length ≤ steps) :
    let result := sweepFrom p steps none current current records
    Linked (nextOf result.2 p) result.1 (l.filter (isLiveAt records)) ∧
      Relinked (fun q id => q = p ∧ id ∈ l ∧ isLiveAt records id = true) records result.2 := by
  induction l generalizing current steps with
  | nil =>
    cases hl
    have hdone : sweepFrom p steps none none none records = (none, records) := by
      cases steps <;> rfl
    rw [hdone]
    exact ⟨.nil, .refl⟩
  | cons id l ih =>
    cases steps with
    | zero => cases hsteps
    | succ steps =>
      have hid := hl.notMem_tail
      cases hl with
      | cons rest =>
        have hsteps' : l.length ≤ steps := Nat.le_of_succ_le_succ hsteps
        cases hlive : isLiveAt records id with
        | true =>
          have hrest := sweepFrom_last (some id) rest rfl hid (lt_size_of_isLiveAt hlive)
            hsteps'
          simp only [sweepFrom, hlive, if_true]
          obtain ⟨hhead, hlinked, hrelinked⟩ := hrest
          refine ⟨?_, hrelinked.mono ?_⟩
          · rw [hhead, List.filter_cons_of_pos hlive]
            exact .cons hlinked
          · rintro q other ⟨rfl, rfl | ⟨hmem, hother⟩⟩
            · exact ⟨rfl, List.mem_cons_self, hlive⟩
            · exact ⟨rfl, List.mem_cons_of_mem id hmem, hother⟩
        | false =>
          have hrest := ih rest hsteps'
          simp only [sweepFrom, hlive, Bool.false_eq_true, if_false]
          refine ⟨?_, hrest.2.mono ?_⟩
          · rw [List.filter_cons_of_neg (by simp [hlive])]
            exact hrest.1
          · rintro q other ⟨rfl, hmem, hother⟩
            exact ⟨rfl, List.mem_cons_of_mem id hmem, hother⟩

/-! ## The chains of a handle -/

variable {chains : PerPosition Chain}

section Handle

variable {lists : Position → List Nat}

/-- Sweeping the chain of one position leaves the chains of the others as they are. -/
lemma sweepChain_swept
    (hl : ∀ q, Linked (nextOf records q) (chains.get q).head (lists q))
    (hlength : ∀ q, (lists q).length ≤ records.size) (p : Position) :
    let result := sweepChain chains records p
    (∀ q, Linked (nextOf result.2 q) (result.1.get q).head
        (if q = p then (lists q).filter (isLiveAt records) else lists q)) ∧
      (∀ q, (result.1.get q).count = (chains.get q).count) ∧
      Relinked (fun q id => id ∈ lists q ∧ isLiveAt records id = true) records result.2 := by
  obtain ⟨hlinked, hrelinked⟩ := sweepFrom_head (hl p) (hlength p)
  simp only [sweepChain, PerPosition.get_modify]
  refine ⟨?_, ?_, hrelinked.mono ?_⟩
  · intro q
    by_cases hq : q = p
    · subst hq
      simpa using hlinked
    · simp only [hq, if_false]
      exact hrelinked.linked (hl q) fun id _ h => hq h.1
  · intro q
    by_cases hq : q = p
    · subst hq
      simp
    · simp [hq]
  · rintro q id ⟨rfl, h⟩
    exact h

/-- Sweeping the chains of some positions. -/
lemma foldl_sweepChain
    (hl : ∀ q, Linked (nextOf records q) (chains.get q).head (lists q))
    (hlength : ∀ q, (lists q).length ≤ records.size) (ps : List Position) :
    let result :=
      ps.foldl (fun (chains, records) p => sweepChain chains records p) (chains, records)
    (∀ q, Linked (nextOf result.2 q) (result.1.get q).head
        (if q ∈ ps then (lists q).filter (isLiveAt records) else lists q)) ∧
      (∀ q, (result.1.get q).count = (chains.get q).count) ∧
      Relinked (fun q id => id ∈ lists q ∧ isLiveAt records id = true) records result.2 := by
  induction ps generalizing chains records lists with
  | nil => exact ⟨by simpa using hl, fun _ => rfl, .refl⟩
  | cons p ps ih =>
    obtain ⟨hlinked, hcount, hrelinked⟩ := sweepChain_swept hl hlength p
    have hlength' : ∀ q, (if q = p then (lists q).filter (isLiveAt records) else lists q).length ≤
        (sweepChain chains records p).2.size := by
      intro q
      rw [hrelinked.size_eq]
      split
      · exact Nat.le_trans (List.length_filter_le _ _) (hlength q)
      · exact hlength q
    obtain ⟨hlinked', hcount', hrelinked'⟩ := ih hlinked hlength'
    rw [hrelinked.isLiveAt_eq] at hlinked' hrelinked'
    rw [List.foldl_cons]
    refine ⟨?_, fun q => (hcount' q).trans (hcount q),
      hrelinked.trans (hrelinked'.mono ?_)⟩
    · intro q
      have hq := hlinked' q
      by_cases hp : q = p
      · subst hp
        simpa [List.filter_filter] using hq
      · simpa [hp] using hq
    · rintro q id ⟨hmem, hlive⟩
      refine ⟨?_, hlive⟩
      split at hmem
      · exact List.mem_of_mem_filter hmem
      · exact hmem

/-- **The four chains of a handle after their sweep.** -/
theorem sweepHandle_swept
    (hl : ∀ q, Linked (nextOf records q) (chains.get q).head (lists q))
    (hlength : ∀ q, (lists q).length ≤ records.size) :
    let result := sweepHandle chains records
    (∀ q, Linked (nextOf result.2 q) (result.1.get q).head
        ((lists q).filter (isLiveAt records))) ∧
      (∀ q, (result.1.get q).count = (chains.get q).count) ∧
      Relinked (fun q id => id ∈ lists q ∧ isLiveAt records id = true) records result.2 := by
  obtain ⟨hlinked, hcount, hrelinked⟩ :=
    foldl_sweepChain hl hlength [.subject, .predicate, .object, .graph]
  refine ⟨?_, hcount, hrelinked⟩
  intro q
  have hall : q ∈ [Position.subject, .predicate, .object, .graph] := by cases q <;> decide
  rw [sweepHandle]
  simpa only [hall, if_true] using hlinked q

end Handle

/-! ## All chains -/

/-- Replacing the chains of one handle. -/
lemma chainIn_push_append {done : Array (PerPosition Chain)} (old : PerPosition Chain)
    {new : PerPosition Chain} {rest : List (PerPosition Chain)} {handle : Nat} :
    chainIn (done.push new ++ rest.toArray) handle p =
      if handle = done.size then new.get p
      else chainIn (done ++ (old :: rest).toArray) handle p := by
  simp only [chainIn, Array.getElem?_append, Array.size_push, Array.getElem?_push,
    List.getElem?_toArray, List.getElem?_cons]
  rcases Nat.lt_trichotomy handle done.size with hlt | rfl | hgt
  · rw [if_pos (by omega), if_neg (by omega), if_neg (by omega), if_pos hlt]
  · simp
  · rw [if_neg (by omega), if_neg (by omega), if_neg (by omega), if_neg (by omega),
      Nat.sub_add_eq]

/-- The sweep of the chains in `rest`, behind those that are done. -/
def sweepRest (done : Array (PerPosition Chain)) (records : Array Statement)
    (rest : List (PerPosition Chain)) : Array (PerPosition Chain) × Array Statement :=
  rest.foldl (fun (done, records) chains =>
    let (chains, records) := sweepHandle chains records
    (done.push chains, records)) (done, records)

lemma sweepRest_cons {done : Array (PerPosition Chain)} {rest : List (PerPosition Chain)} :
    sweepRest done records (chains :: rest) =
      sweepRest (done.push (sweepHandle chains records).1) (sweepHandle chains records).2 rest :=
  rfl

/-- A sweep in terms of its parts. -/
lemma sweep_eq (s : Statements) : s.sweep =
    { s with
      records := (sweepRest #[] s.records s.chains.toList).2
      chains := (sweepRest #[] s.records s.chains.toList).1
      free := s.free ++ s.zombies
      zombies := #[] } := by
  rw [sweep, ← Array.foldl_toList]
  rfl

/-- The lists after the sweep of one handle: its own are cut down, those of the others stay. -/
def sweptLists (records : Array Statement) (lists : Nat → Position → List Nat) (swept : Nat)
    (handle : Nat) (p : Position) : List Nat :=
  if handle = swept then (lists handle p).filter (isLiveAt records) else lists handle p

lemma sweptLists_sublist (lists : Nat → Position → List Nat) (swept handle : Nat) (p : Position) :
    (sweptLists records lists swept handle p).Sublist (lists handle p) := by
  rw [sweptLists]
  split
  · exact List.filter_sublist
  · exact List.Sublist.refl _

variable {done : Array (PerPosition Chain)} {rest : List (PerPosition Chain)}
  {lists : Nat → Position → List Nat}

/-- Behind the swept handles there are no chains, so the lists there are empty. -/
lemma lists_eq_nil (hl : ∀ handle p, Linked (nextOf records p) (chainIn done handle p).head
    (lists handle p)) {handle : Nat} (hge : done.size ≤ handle) (p : Position) :
    lists handle p = [] := by
  have hlinked := hl handle p
  rw [chainIn, Array.getElem?_eq_none hge, Option.getD_none, noChains, PerPosition.get_all]
    at hlinked
  cases hlist : lists handle p with
  | nil => rfl
  | cons id l =>
    rw [hlist] at hlinked
    cases hlinked

/-- The sweep of one more handle. -/
lemma sweepRest_step
    (hl : ∀ handle p, Linked (nextOf records p)
      (chainIn (done ++ (chains :: rest).toArray) handle p).head (lists handle p))
    (hlength : ∀ handle p, (lists handle p).length ≤ records.size)
    (hdisjoint : ∀ {handle other p id}, isLiveAt records id = true → id ∈ lists handle p →
      id ∈ lists other p → handle = other) :
    (∀ handle p, Linked (nextOf (sweepHandle chains records).2 p)
        (chainIn (done.push (sweepHandle chains records).1 ++ rest.toArray) handle p).head
        (sweptLists records lists done.size handle p)) ∧
      (∀ handle p, (chainIn (done.push (sweepHandle chains records).1 ++ rest.toArray) handle
        p).count = (chainIn (done ++ (chains :: rest).toArray) handle p).count) ∧
      Relinked (fun _ id => isLiveAt records id = true) records
        (sweepHandle chains records).2 := by
  have hget : ∀ q, chainIn (done ++ (chains :: rest).toArray) done.size q = chains.get q := by
    simp [chainIn]
  obtain ⟨hlinked, hcount, hrelinked⟩ := sweepHandle_swept
    (fun q => hget q ▸ hl done.size q) (hlength done.size)
  refine ⟨?_, ?_, hrelinked.mono fun _ _ h => h.2⟩
  · intro handle q
    rw [chainIn_push_append chains, sweptLists]
    split
    next heq =>
      subst heq
      exact hlinked q
    next hne =>
      exact hrelinked.linked (hl handle q) fun id hid h => hne (hdisjoint h.2 hid h.1)
  · intro handle q
    rw [chainIn_push_append chains]
    split
    next heq =>
      subst heq
      rw [hcount q, hget q]
    next => rfl

lemma sweepRest_swept
    (hl : ∀ handle p, Linked (nextOf records p) (chainIn (done ++ rest.toArray) handle p).head
      (lists handle p))
    (hlength : ∀ handle p, (lists handle p).length ≤ records.size)
    (hdisjoint : ∀ {handle other p id}, isLiveAt records id = true → id ∈ lists handle p →
      id ∈ lists other p → handle = other) :
    let result := sweepRest done records rest
    (∀ handle p, Linked (nextOf result.2 p) (chainIn result.1 handle p).head
        (if handle < done.size then lists handle p
          else (lists handle p).filter (isLiveAt records))) ∧
      (∀ handle p, (chainIn result.1 handle p).count =
        (chainIn (done ++ rest.toArray) handle p).count) ∧
      result.1.size = done.size + rest.length ∧
      Relinked (fun _ id => isLiveAt records id = true) records result.2 := by
  induction rest generalizing done records lists with
  | nil =>
    rw [Array.append_empty] at hl ⊢
    refine ⟨?_, fun _ _ => rfl, rfl, .refl⟩
    intro handle p
    have hold := hl handle p
    split
    next => exact hold
    next hge => rwa [lists_eq_nil hl (Nat.not_lt.1 hge)] at hold ⊢
  | cons chains rest ih =>
    obtain ⟨hlinked, hcount, hrelinked⟩ := sweepRest_step hl hlength hdisjoint
    have hsub := @sweptLists_sublist records lists done.size
    have hlength' : ∀ handle p, (sweptLists records lists done.size handle p).length ≤
        (sweepHandle chains records).2.size := by
      intro handle p
      rw [hrelinked.size_eq]
      exact Nat.le_trans (hsub handle p).length_le (hlength handle p)
    obtain ⟨hrest, hcounts, hsize, hframe⟩ := ih hlinked hlength' fun hlive hmem hmem' =>
      hdisjoint (hrelinked.isLiveAt_eq ▸ hlive) ((hsub _ _).subset hmem) ((hsub _ _).subset hmem')
    rw [hrelinked.isLiveAt_eq] at hrest hframe
    rw [sweepRest_cons]
    refine ⟨?_, fun handle q => (hcounts handle q).trans (hcount handle q), ?_,
      hrelinked.trans hframe⟩
    · intro handle q
      have hq := hrest handle q
      rw [Array.size_push, sweptLists] at hq
      rcases Nat.lt_trichotomy handle done.size with hlt | rfl | hgt
      · rw [if_pos (by omega), if_neg (by omega)] at hq
        rwa [if_pos hlt]
      · rw [if_pos (Nat.lt_succ_self _), if_pos rfl] at hq
        rwa [if_neg (Nat.lt_irrefl _)]
      · rw [if_neg (by omega), if_neg (by omega)] at hq
        rwa [if_neg (by omega)]
    · rw [hsize, Array.size_push, List.length_cons]
      omega

/-- **What a sweep does.**  Every chain becomes the list of its live records, the counts stay, and
of the links only those of live records change. -/
theorem sweep_swept {s : Statements}
    (hl : ∀ handle p, Linked (nextOf s.records p) (s.chainAt handle p).head (lists handle p))
    (hlength : ∀ handle p, (lists handle p).length ≤ s.records.size)
    (hdisjoint : ∀ {handle other p id}, isLiveAt s.records id = true → id ∈ lists handle p →
      id ∈ lists other p → handle = other) :
    (∀ handle p, Linked (nextOf s.sweep.records p) (s.sweep.chainAt handle p).head
        ((lists handle p).filter (isLiveAt s.records))) ∧
      (∀ handle p, (s.sweep.chainAt handle p).count = (s.chainAt handle p).count) ∧
      s.sweep.chains.size = s.chains.size ∧
      Relinked (fun _ id => isLiveAt s.records id = true) s.records s.sweep.records := by
  have hall : ∀ handle p, s.chainAt handle p = chainIn (#[] ++ s.chains.toList.toArray) handle p :=
    fun handle p => by rw [Array.empty_append, Array.toArray_toList]; rfl
  obtain ⟨hlinked, hcount, hsize, hrelinked⟩ := sweepRest_swept
    (fun handle p => hall handle p ▸ hl handle p) hlength hdisjoint
  rw [sweep_eq]
  refine ⟨?_, ?_, ?_, hrelinked⟩
  · intro handle p
    have hswept := hlinked handle p
    rw [Array.size_empty, if_neg (Nat.not_lt_zero handle)] at hswept
    exact hswept
  · intro handle p
    rw [hall handle p]
    exact hcount handle p
  · simpa using hsize

end QuadBase.Store.Statements
