import QuadBase.Dictionary.Registry
import QuadBase.Proofs.Dictionary.Lookup

/-!
# Forks and their ancestry

Dictionaries are created, asked and forked in any order.  What a dictionary replies follows from its
*ancestry* alone: how the first of its ancestors has been created, and what each of them has been
asked for before it was forked, and then what the dictionary itself has been asked for.

* `Registry.handleAll` — what happens to the dictionaries of a registry.
* `ancestries` — the ancestry of each of them.  `dictionaries_handleAll` says that a dictionary is
  what its ancestry has made of it, caches included.
* `Ancestry.alike_replay` — the caches that a fork loses do not matter.
* `replies_replayed` — **a dictionary replies as a fresh one that has been asked for its ancestry**.
-/

namespace QuadBase.Dictionary

open QuadBase.Rdf

/-- Something that happens to the dictionaries of a registry. -/
inductive Event where
  /-- Another dictionary, which may share the meter of an older one. -/
  | create (config : Config) (shared : Option Nat)
  /-- A fork, which takes the next number. -/
  | fork (number : Nat)
  /-- A request to a dictionary.  If it is the request for a fork, that takes its place. -/
  | ask (number : Nat) (request : Request)

namespace Registry

variable [Text.Hasher] {r : Registry} {number : Nat} {d : TermDictionary}

/-- Passes a request on to a dictionary. -/
def ask (r : Registry) (number : Nat) (request : Request) : Option Reply × Registry :=
  r.call number (·.respond request)

def handle (r : Registry) : Event → Registry
  | .create config shared => r.create config shared
  | .fork number => r.fork number
  | .ask number request => (r.ask number request).2

/-- The registry after some events. -/
def handleAll (r : Registry) (events : List Event) : Registry :=
  events.foldl handle r

lemma handleAll_append (r : Registry) (before after : List Event) :
    r.handleAll (before ++ after) = (r.handleAll before).handleAll after :=
  List.foldl_append

lemma ask_of_none (h : r.dictionary? number = none) (request : Request) :
    r.ask number request = (none, r) := by
  rw [dictionary?, Array.getElem?_eq_none_iff, ← Nat.not_lt] at h
  simp only [ask, call, if_neg h]

/-- The dictionary that is taken out for a call. -/
lemma getD_of_dictionary? (h : r.dictionary? number = some d) :
    number < r.dictionaries.size ∧ r.dictionaries.getD number default = d := by
  obtain ⟨hlt, hget⟩ := Array.getElem?_eq_some_iff.1 h
  rw [Array.getD, dif_pos hlt]
  exact ⟨hlt, hget⟩

/-- A request is answered by one dictionary, which is the only one to change. -/
lemma ask_of_some (h : r.dictionary? number = some d) (request : Request) :
    (r.ask number request).1 = some (d.respond request).answer ∧
      (r.ask number request).2.dictionaries.toList =
        r.dictionaries.toList.set number (d.serve request) := by
  obtain ⟨hlt, hd⟩ := getD_of_dictionary? h
  simp only [ask, call, if_pos hlt, takeOut, hd, Array.toList_setIfInBounds, List.set_set,
    TermDictionary.dictionary_respond]
  exact ⟨trivial, trivial⟩

end Registry

/-! ## Ancestries -/

/-- Where a dictionary comes from: how the first of its ancestors has been created, and what they
and the dictionary have been asked for, with a mark at each fork. -/
structure Ancestry where
  config : Config
  path : List Request

def Request.isFork : Request → Bool
  | .fork => true
  | _ => false

namespace Ancestry

variable [Text.Hasher]

/-- One request more. -/
def asked (a : Ancestry) (request : Request) : Ancestry :=
  { a with path := a.path ++ [request] }

/-- What the ancestry has made of the dictionary. -/
def dictionary (a : Ancestry) : TermDictionary :=
  (TermDictionary.create a.config).serveAll a.path

/-- A fresh dictionary that has been asked for the same without any fork. -/
def replay (a : Ancestry) : TermDictionary :=
  (TermDictionary.create a.config).serveAll (a.path.filter fun request => !request.isFork)

end Ancestry

/-- The ancestries after one more event. -/
def lineage (lines : List Ancestry) : Event → List Ancestry
  | .create config _ => lines ++ [⟨config, []⟩]
  | .fork number =>
    match lines[number]? with
    | none => lines
    | some own => lines ++ [own.asked .fork]
  | .ask number request =>
    match lines[number]? with
    | none => lines
    | some own => lines.set number (own.asked request)

/-- The ancestries of the dictionaries that some events leave. -/
def ancestries (events : List Event) : List Ancestry :=
  events.foldl lineage []

section

variable [Text.Hasher] {r : Registry} {lines : List Ancestry} {number : Nat} {own : Ancestry}

lemma Ancestry.dictionary_asked (a : Ancestry) (request : Request) :
    (a.asked request).dictionary = a.dictionary.serve request :=
  TermDictionary.serveAll_append _ a.path [request]

/-- **An event does to the dictionaries what it does to their ancestries.** -/
theorem dictionaries_handle (h : r.dictionaries.toList = lines.map Ancestry.dictionary)
    (event : Event) : (r.handle event).dictionaries.toList =
      (lineage lines event).map Ancestry.dictionary := by
  have hnumber : ∀ number : Nat,
      r.dictionary? number = (lines[number]?).map Ancestry.dictionary := by
    intro number
    rw [Registry.dictionary?, ← Array.getElem?_toList, h, List.getElem?_map]
  cases event with
  | create config shared =>
    rw [lineage, List.map_append, ← h]
    cases shared <;> exact Array.toList_push
  | fork number =>
    have hown := hnumber number
    rw [Registry.handle, Registry.fork, lineage]
    cases hline : lines[number]? with
    | none =>
      rw [hline, Option.map_none] at hown
      rw [hown]
      exact h
    | some own =>
      rw [hline, Option.map_some] at hown
      rw [hown, List.map_append, ← h, List.map_singleton, Ancestry.dictionary_asked]
      exact Array.toList_push
  | ask number request =>
    have hown := hnumber number
    rw [Registry.handle, lineage]
    cases hline : lines[number]? with
    | none =>
      rw [hline, Option.map_none] at hown
      rw [Registry.ask_of_none hown]
      exact h
    | some own =>
      rw [hline, Option.map_some] at hown
      rw [(Registry.ask_of_some hown request).2, h, List.map_set, Ancestry.dictionary_asked]

/-- **The dictionaries of a registry are what their ancestries have made of them.** -/
theorem dictionaries_handleAll (events : List Event) :
    (({} : Registry).handleAll events).dictionaries.toList =
      (ancestries events).map Ancestry.dictionary := by
  suffices hall : ∀ {r : Registry} {lines : List Ancestry},
      r.dictionaries.toList = lines.map Ancestry.dictionary →
      (r.handleAll events).dictionaries.toList =
        (events.foldl lineage lines).map Ancestry.dictionary from hall rfl
  intro r lines h
  induction events generalizing r lines with
  | nil => exact h
  | cons event events ih => exact ih (dictionaries_handle h event)

lemma dictionary?_handleAll (events : List Event) (number : Nat) :
    (({} : Registry).handleAll events).dictionary? number =
      ((ancestries events)[number]?).map Ancestry.dictionary := by
  rw [Registry.dictionary?, ← Array.getElem?_toList, dictionaries_handleAll, List.getElem?_map]

lemma size_handleAll (events : List Event) :
    (({} : Registry).handleAll events).size = (ancestries events).length := by
  rw [Registry.size, ← Array.length_toList, dictionaries_handleAll, List.length_map]

/-- A dictionary replies as what its ancestry has made of it. -/
lemma ask_handleAll {events : List Event} (h : (ancestries events)[number]? = some own)
    (request : Request) : ((({} : Registry).handleAll events).ask number request).1 =
      some (own.dictionary.respond request).answer := by
  have hown := dictionary?_handleAll events number
  rw [h, Option.map_some] at hown
  exact (Registry.ask_of_some hown request).1

end

/-! ## How an ancestry goes on -/

/-- The request that an event addresses to a dictionary. -/
def Event.requestsTo (number : Nat) : Event → List Request
  | .create _ _ | .fork _ => []
  | .ask other request => if other = number then [request] else []

/-- An event adds to an ancestry what it asks the dictionary for. -/
lemma lineage_getElem? {lines : List Ancestry} {number : Nat} {own : Ancestry}
    (h : lines[number]? = some own) (event : Event) : (lineage lines event)[number]? =
      some { own with path := own.path ++ event.requestsTo number } := by
  have hsame : some { own with path := own.path ++ [] } = some own := by rw [List.append_nil]
  have hlt := (List.getElem?_eq_some_iff.1 h).1
  cases event with
  | create config shared =>
    rw [lineage, List.getElem?_append_left hlt, Event.requestsTo, h, hsame]
  | fork other =>
    rw [lineage, Event.requestsTo, hsame]
    cases lines[other]? with
    | none => exact h
    | some parent => exact (List.getElem?_append_left hlt).trans h
  | ask other request =>
    rw [lineage, Event.requestsTo]
    by_cases hother : other = number
    · subst hother
      simp only [h, if_pos, List.getElem?_set_self hlt, Ancestry.asked]
    · rw [if_neg hother, hsame]
      cases lines[other]? with
      | none => exact h
      | some sibling => exact (List.getElem?_set_ne hother).trans h

/-- **An ancestry goes on with what the dictionary is asked for**, and with nothing else. -/
theorem lineages_getElem? {lines : List Ancestry} {number : Nat} {own : Ancestry}
    (h : lines[number]? = some own) (events : List Event) :
    (events.foldl lineage lines)[number]? =
      some { own with path := own.path ++ events.flatMap (Event.requestsTo number) } := by
  induction events generalizing lines own with
  | nil => rw [List.flatMap_nil, List.append_nil]; exact h
  | cons event events ih =>
    rw [List.foldl_cons, ih (lineage_getElem? h event), List.flatMap_cons, List.append_assoc]

namespace Ancestry

variable [Text.Hasher]

lemma dictionary_more (a : Ancestry) (more : List Request) :
    ({ a with path := a.path ++ more } : Ancestry).dictionary = a.dictionary.serveAll more :=
  TermDictionary.serveAll_append _ a.path more

lemma sound (a : Ancestry) : a.dictionary.Sound :=
  ((TermDictionary.create_sound a.config).serveAll a.path).sound

end Ancestry

/-! ## Forks without caches -/

namespace TermDictionary

variable [Text.Hasher] {d e : TermDictionary}

/-- A run with forks on one side and without on the other. -/
lemma Alike.withoutForks (h : d.Alike e) (requests : List Request) :
    (d.serveAll requests).Alike (e.serveAll (requests.filter fun request => !request.isFork)) := by
  induction requests generalizing d e with
  | nil => exact h
  | cons request requests ih =>
    cases request with
    | fork =>
      exact ih (h.onlyCaches d.onlyCaches_fork (.refl e) h.left.follows_fork.sound h.right)
    | _ => exact ih (h.serve _)

end TermDictionary

/-- **The caches that a fork loses do not matter.** -/
theorem Ancestry.alike_replay [Text.Hasher] (a : Ancestry) : a.dictionary.Alike a.replay :=
  (TermDictionary.Alike.refl (TermDictionary.create_sound a.config)).withoutForks a.path

/-! ## Replies from the ancestry -/

/-- What has been decoded stays decoded, however the ancestry goes on. -/
lemma ask_decode [Text.Hasher] {events : List Event} {number : Nat} {own : Ancestry}
    {more : List Request} {code : Code} {t : Term}
    (h : (ancestries events)[number]? = some { own with path := own.path ++ more })
    (hok : (own.dictionary.decode code).answer = .ok t) :
    ((({} : Registry).handleAll events).ask number (.decode code)).1 = some (.term (.ok t)) := by
  have hlater := (own.sound.serveAll more).decode_eq_ok own.sound hok
  rw [← Ancestry.dictionary_more] at hlater
  rw [ask_handleAll h]
  exact congrArg (fun answer => some (Reply.term answer)) hlater

/-- **A dictionary replies as a fresh one that has been asked for its ancestry**, and has its sizes.
So nothing that other dictionaries are asked for changes a reply, be they forks of it or not; and a
code that is decoded before a fork is decoded to the same term ever after, on both sides. -/
theorem replies_replayed [Text.Hasher] (events : List Event) {number : Nat} {own : Ancestry}
    (h : (ancestries events)[number]? = some own) :
    let r := ({} : Registry).handleAll events
    (∀ request, (r.ask number request).1 = some (own.replay.respond request).answer) ∧
    (∀ calls, (r.dictionary? number).map (·.stats calls) = some (own.replay.stats calls)) ∧
    (∀ later, (∀ request, .ask number request ∉ later) → ∀ request,
      ((r.handleAll later).ask number request).1 = (r.ask number request).1) ∧
    ∀ code t, (own.replay.decode code).answer = .ok t → ∀ later,
      let s := (r.handle (.fork number)).handleAll later
      (s.ask number (.decode code)).1 = some (.term (.ok t)) ∧
      (s.ask r.size (.decode code)).1 = some (.term (.ok t)) := by
  intro r
  have halike := own.alike_replay
  refine ⟨?_, ?_, ?_, ?_⟩
  · intro request
    rw [ask_handleAll h, (halike.respond request).answer]
  · intro calls
    rw [dictionary?_handleAll, h]
    exact congrArg some (halike.stats_eq calls)
  · intro later hothers request
    have hnone : later.flatMap (Event.requestsTo number) = [] := by
      rw [List.flatMap_eq_nil_iff]
      intro event hmem
      cases event with
      | create | fork => rfl
      | ask other request =>
        refine if_neg ?_
        rintro rfl
        exact hothers request hmem
    have hrest := lineages_getElem? h later
    rw [hnone, List.append_nil, ancestries, ← List.foldl_append] at hrest
    rw [← Registry.handleAll_append, ask_handleAll hrest, ask_handleAll h]
  · intro code t hok later s
    rw [← (halike.decode code).answer] at hok
    have hall : s = ({} : Registry).handleAll (events ++ .fork number :: later) :=
      (Registry.handleAll_append _ events (.fork number :: later)).symm
    have hlines : ancestries (events ++ .fork number :: later) =
        later.foldl lineage (ancestries events ++ [own.asked .fork]) := by
      rw [ancestries, List.foldl_append, List.foldl_cons, ← ancestries, lineage, h]
    have hparent : (ancestries events ++ [own.asked .fork])[number]? = some own :=
      (List.getElem?_append_left (List.getElem?_eq_some_iff.1 h).1).trans h
    have hfork : (ancestries events ++ [own.asked .fork])[r.size]? = some (own.asked .fork) := by
      rw [size_handleAll, List.getElem?_concat_length]
    have hparent' := lineages_getElem? hparent later
    have hfork' := lineages_getElem? hfork later
    rw [← hlines] at hparent' hfork'
    rw [Ancestry.asked, List.append_assoc] at hfork'
    rw [hall]
    exact ⟨ask_decode hparent' hok, ask_decode hfork' hok⟩

/-- A dictionary and its fork give the same code to different terms, neither sees what the other is
asked for, and a code from before the fork is decoded by all. -/
theorem replies_replayed_twins :
    let events : List Event :=
      [.create {} none, .ask 0 (.encode (.blank "a")), .fork 0, .ask 0 (.encode (.blank "b")),
        .ask 1 (.encode (.blank "c"))]
    let r := ({} : Registry).handleAll events
    let s := (r.handle (.fork 1)).handleAll [.ask 2 (.encode (.blank "d"))]
    (r.ask 0 (.tryEncode (.blank "b"))).1 = some (.found (some ⟨2⟩)) ∧
      (r.ask 1 (.tryEncode (.blank "c"))).1 = some (.found (some ⟨2⟩)) ∧
      ((r.handleAll [.ask 0 (.encode (.blank "d"))]).ask 1 (.decode ⟨3⟩)).1 =
        (r.ask 1 (.decode ⟨3⟩)).1 ∧
      (s.ask 1 (.decode ⟨1⟩)).1 = some (.term (.ok (.blank "a"))) ∧
      (s.ask 2 (.decode ⟨1⟩)).1 = some (.term (.ok (.blank "a"))) := by
  intro events r s
  have hparent : (ancestries events)[0]? =
      some ⟨{}, [.encode (.blank "a"), .encode (.blank "b")]⟩ := rfl
  have hfork : (ancestries events)[1]? =
      some ⟨{}, [.encode (.blank "a"), .fork, .encode (.blank "c")]⟩ := rfl
  obtain ⟨hreplies, -, -, -⟩ := replies_replayed events hparent
  obtain ⟨hreplies', -, halone, hdecoded⟩ := replies_replayed events hfork
  refine ⟨?_, ?_, ?_, ?_⟩
  · refine (hreplies _).trans ?_
    exact congrArg (fun code? => some (Reply.found code?)) (by decide +kernel)
  · refine (hreplies' _).trans ?_
    exact congrArg (fun code? => some (Reply.found code?)) (by decide +kernel)
  · exact halone [.ask 0 (.encode (.blank "d"))] (by simp) _
  · exact hdecoded ⟨1⟩ (.blank "a") (by decide +kernel) [.ask 2 (.encode (.blank "d"))]

end QuadBase.Dictionary
