import RavBot.Lib.Run
import RavBot.Lib.Table

/-!
# The cache of embeddings

`EmbeddingManager` keeps the embeddings of texts in a cache.  A call looks texts up, computes the missing
embeddings with the provider of the moment, and stores them; the mutex covers each access to the cache, but not
the name of the provider, nor the two switches for the cache.  So the calls of several threads interleave at
every access, and an embedding may be stored after the provider has changed and the cache was cleared.

The cache is transparent in every run in which nothing is stored that a former provider computed, and nothing is
erased from an empty cache in every run in which nothing is stored into an empty cache of size 0
(`cache_laws`).  The counters of hits and misses are left out.
-/

open List

namespace RavBot.Core

open RavBot.Lib

/-- `EmbeddingProviderRegistry`.  A provider embeds a text; it embeds a batch text by text. -/
structure EmbeddingProviderRegistry (E : Type) where
  providers : String → Option (String → E)
  defaultProvider : Option (String → E)

/-- `GetCurrentProvider`, for the name of the current provider. -/
def EmbeddingProviderRegistry.current {E : Type} (registry : EmbeddingProviderRegistry E) (name : String) :
    Option (String → E) :=
  if name = "" then registry.defaultProvider else registry.providers name

inductive EmbeddingCall where
  | getEmbedding (text : String)
  | getEmbeddingBatch (texts : List String)
  | setProvider (name : String)
  | setCacheEnabled (enabled : Bool)
  | clearCache
  | setMaxCacheSize (size : Nat)

/-- Where a thread is in `GetEmbedding` or `GetEmbeddingBatch`. -/
inductive Place (E : Type) where
  /-- `cache_enabled_` is read next. -/
  | start
  /-- Texts are looked up. -/
  | lookups (found : List (String × Option E)) (todo : List String)
  /-- The provider is chosen next. -/
  | choose (found : List (String × Option E))
  /-- `cache_enabled_` is read before each embedding is stored. -/
  | fill (results : List (String × E)) (provider : String) (todo : List (String × E))
  /-- `AddToCache` is entered next. -/
  | add (results : List (String × E)) (provider text : String) (embedding : E)
      (todo : List (String × E))

/-- A call in progress.  For a call that gets embeddings we note whether it began while no `SetProvider` was in
progress, and which providers have been the current one since. -/
inductive Frame (E : Type) where
  | get (texts : List String) (calm : Bool) (seen : List String) (place : Place E)
  | setProvider (name : String)
  | setCacheEnabled (enabled : Bool)
  | setMaxCacheSize (size : Nat)
  /-- `ClearCache`, and whether `SetProvider` called it. -/
  | clear (switching : Bool)
  /-- The end of `SetMaxCacheSize`. -/
  | trim

structure EmbeddingAnswer (E : Type) where
  texts : List String
  calm : Bool
  seen : List String
  results : List (String × E)
  deriving DecidableEq

/-- `EmbeddingManager`, the calls in progress by thread, and the answers so far.  It is `crashed` when it erased
from an empty map. -/
structure EmbeddingManager (E : Type) where
  currentProvider : String
  cacheEnabled : Bool := true
  maxCacheSize : Nat := 10000
  cache : Table String E := ∅
  threads : Table Nat (Frame E) := ∅
  answers : List (EmbeddingAnswer E) := []
  crashed : Bool := false

/-- A thread calls the manager, or goes on in its call.  If an entry of the cache has to go, it is that of
`victim`. -/
inductive EmbeddingAction where
  | call (thread : Nat) (call : EmbeddingCall)
  | run (thread : Nat) (victim : String)

namespace Frame

variable {E : Type}

/-- The call is `SetProvider`. -/
def switching : Frame E → Bool
  | setProvider _ => true
  | clear switching => switching
  | _ => false

def note (name : String) : Frame E → Frame E
  | get texts calm seen place => get texts calm (seen ++ [name]) place
  | frame => frame

def stored? : Frame E → Option String
  | get _ _ _ (.add _ provider _ _ _) => some provider
  | _ => none

def size? : Frame E → Option Nat
  | setMaxCacheSize size => some size
  | _ => none

end Frame

namespace EmbeddingManager

variable {E : Type}

/-- The beginning of a call. -/
def begin (s : EmbeddingManager E) : EmbeddingCall → Frame E
  | .getEmbedding text =>
    .get [text] (s.threads.entries.all fun e => !e.2.switching) [s.currentProvider] .start
  | .getEmbeddingBatch texts =>
    .get texts (s.threads.entries.all fun e => !e.2.switching) [s.currentProvider] .start
  | .setProvider name => .setProvider name
  | .setCacheEnabled enabled => .setCacheEnabled enabled
  | .clearCache => .clear false
  | .setMaxCacheSize size => .setMaxCacheSize size

def goTo (s : EmbeddingManager E) (t : Nat) (frame : Frame E) : EmbeddingManager E :=
  { s with threads := s.threads.insert t frame }

def leave (s : EmbeddingManager E) (t : Nat) : EmbeddingManager E :=
  { s with threads := s.threads.erase t }

def answer (s : EmbeddingManager E) (t : Nat) (texts : List String) (calm : Bool) (seen : List String)
    (results : List (String × E)) : EmbeddingManager E :=
  { s.leave t with answers := s.answers ++ [{ texts, calm, seen, results }] }

/-- `AddToCache`.  It erases the entry of `victim` from a full cache. -/
def addToCache (s : EmbeddingManager E) (text : String) (embedding : E) (victim : String) :
    Option (EmbeddingManager E) :=
  if s.maxCacheSize ≤ s.cache.entries.length then
    if s.cache.entries = [] then some { s with crashed := true }
    else if (s.cache.lookup victim).isSome then
      some { s with cache := (s.cache.erase victim).insert text embedding }
    else none
  else some { s with cache := s.cache.insert text embedding }

/-- The next step of `GetEmbedding` or `GetEmbeddingBatch`. -/
def get (registry : EmbeddingProviderRegistry E) (s : EmbeddingManager E) (t : Nat) (victim : String)
    (texts : List String) (calm : Bool) (seen : List String) : Place E → Option (EmbeddingManager E)
  | .start =>
    some (s.goTo t (.get texts calm seen
      (if s.cacheEnabled then .lookups [] texts else .choose (texts.map fun text => (text, none)))))
  | .lookups found [] => some (s.goTo t (.get texts calm seen (.choose found)))
  | .lookups found (text :: todo) =>
    some (s.goTo t (.get texts calm seen (.lookups (found ++ [(text, s.cache.lookup text)]) todo)))
  | .choose found =>
    match found.mapM fun (text, embedding) => embedding.map fun e => (text, e) with
    | some results => some (s.answer t texts calm seen results)
    | none =>
      match registry.current s.currentProvider with
      | none => some (s.leave t)
      | some embed =>
        let results := found.map fun (text, embedding) => (text, embedding.getD (embed text))
        let todo := (found.filter fun (_, embedding) => embedding.isNone).map fun (text, _) =>
          (text, embed text)
        some (s.goTo t (.get texts calm seen (.fill results s.currentProvider todo)))
  | .fill results _ [] => some (s.answer t texts calm seen results)
  | .fill results provider ((text, embedding) :: todo) =>
    some (s.goTo t (.get texts calm seen
      (if s.cacheEnabled then .add results provider text embedding todo
        else .fill results provider todo)))
  | .add results provider text embedding todo =>
    (s.addToCache text embedding victim).map fun s' =>
      s'.goTo t (.get texts calm seen (.fill results provider todo))

/-- The next step of a call. -/
def advance (registry : EmbeddingProviderRegistry E) (s : EmbeddingManager E) (t : Nat) (victim : String) :
    Frame E → Option (EmbeddingManager E)
  | .get texts calm seen place => s.get registry t victim texts calm seen place
  | .setProvider name =>
    match registry.providers name with
    | none => some (s.leave t)
    | some _ =>
      let s := { s with
        currentProvider := name
        threads := s.threads.mapValues (Frame.note name) }
      some (s.goTo t (.clear true))
  | .setCacheEnabled enabled =>
    let s := { s with cacheEnabled := enabled }
    some (if enabled then s.leave t else s.goTo t (.clear false))
  | .clear _ => some ({ s with cache := ∅ }.leave t)
  | .setMaxCacheSize size => some ({ s with maxCacheSize := size }.goTo t .trim)
  | .trim =>
    let s := if s.maxCacheSize < s.cache.entries.length then { s with cache := ∅ } else s
    some (s.leave t)

/-- A step of the system.  After erasing from an empty map there is none. -/
def step (registry : EmbeddingProviderRegistry E) (s : EmbeddingManager E) :
    EmbeddingAction → Option (EmbeddingManager E)
  | .call t call =>
    if s.crashed then none
    else match s.threads.lookup t with
      | some _ => none
      | none => some (s.goTo t (s.begin call))
  | .run t victim =>
    if s.crashed then none
    else match s.threads.lookup t with
      | none => none
      | some frame => s.advance registry t victim frame

/-! ## What the cache promises -/

/-- `e` is the embedding of the text by the provider with a name. -/
def Embeds (registry : EmbeddingProviderRegistry E) (name text : String) (e : E) : Prop :=
  ∃ embed, registry.current name = some embed ∧ e = embed text

/-- `e` is the embedding of the text by one of several providers. -/
def SeenEmbeds (registry : EmbeddingProviderRegistry E) (seen : List String) (text : String) (e : E) : Prop :=
  ∃ name ∈ seen, Embeds registry name text e

/-- What a call returns that began while no `SetProvider` was in progress are the embeddings of its texts by
providers that were the current one during the call: by the current one if none was set meanwhile. -/
def Transparent (registry : EmbeddingProviderRegistry E) (s : EmbeddingManager E) : Prop :=
  ∀ answer ∈ s.answers, answer.calm = true →
    answer.results.map Prod.fst = answer.texts ∧
      ∀ r ∈ answer.results, SeenEmbeds registry answer.seen r.1 r.2

def Bounded (s : EmbeddingManager E) : Prop := s.cache.entries.length ≤ s.maxCacheSize

/-- A `SetMaxCacheSize` has set the size and has yet to trim the cache. -/
def Trimming (s : EmbeddingManager E) : Prop := ∃ t, s.threads.lookup t = some .trim

/-- If something is stored in this step, the current provider computed it. -/
def FreshFill (s : EmbeddingManager E) : EmbeddingAction → Prop
  | .run t _ => ∀ provider ∈ (s.threads.lookup t).bind Frame.stored?, provider = s.currentProvider
  | .call _ _ => True

/-- If something is stored in this step, the cache is not an empty one of size 0. -/
def SafeFill (s : EmbeddingManager E) : EmbeddingAction → Prop
  | .run t _ => ∀ _provider ∈ (s.threads.lookup t).bind Frame.stored?,
      ¬(s.maxCacheSize = 0 ∧ s.cache.entries = [])
  | .call _ _ => True

/-- If a size is set in this step, the cache does not hold more entries. -/
def FittingSize (s : EmbeddingManager E) : EmbeddingAction → Prop
  | .run t _ => ∀ size ∈ (s.threads.lookup t).bind Frame.size?, s.cache.entries.length ≤ size
  | .call _ _ => True

instance (s : EmbeddingManager E) : DecidablePred (FreshFill s)
  | .call _ _ => .isTrue trivial
  | .run t _ => inferInstanceAs
      (Decidable (∀ provider ∈ (s.threads.lookup t).bind Frame.stored?, provider = s.currentProvider))

instance (s : EmbeddingManager E) : DecidablePred (SafeFill s)
  | .call _ _ => .isTrue trivial
  | .run t _ => inferInstanceAs (Decidable (∀ _provider ∈ (s.threads.lookup t).bind Frame.stored?,
      ¬(s.maxCacheSize = 0 ∧ s.cache.entries = [])))

instance (s : EmbeddingManager E) : DecidablePred (FittingSize s)
  | .call _ _ => .isTrue trivial
  | .run t _ => inferInstanceAs
      (Decidable (∀ size ∈ (s.threads.lookup t).bind Frame.size?, s.cache.entries.length ≤ size))

/-! ## Transparency -/

variable {registry : EmbeddingProviderRegistry E}

theorem SeenEmbeds.append {seen : List String} {text : String} {e : E}
    (h : SeenEmbeds registry seen text e) (name : String) :
    SeenEmbeds registry (seen ++ [name]) text e := by
  obtain ⟨name', hmem, h⟩ := h
  exact ⟨name', mem_append_left _ hmem, h⟩

/-- What was found, or computed, belongs to the texts and to providers that were the current one. -/
def PlaceSeen (registry : EmbeddingProviderRegistry E) (texts seen : List String) : Place E → Prop
  | .start => True
  | .lookups found todo => found.map Prod.fst ++ todo = texts ∧
      ∀ f ∈ found, ∀ e ∈ f.2, SeenEmbeds registry seen f.1 e
  | .choose found => found.map Prod.fst = texts ∧ ∀ f ∈ found, ∀ e ∈ f.2, SeenEmbeds registry seen f.1 e
  | .fill results _ _ | .add results _ _ _ _ => results.map Prod.fst = texts ∧
      ∀ r ∈ results, SeenEmbeds registry seen r.1 r.2

/-- What is to be stored was computed by the provider that was chosen. -/
def PlaceComputed (registry : EmbeddingProviderRegistry E) : Place E → Prop
  | .fill _ provider todo => ∀ r ∈ todo, Embeds registry provider r.1 r.2
  | .add _ provider text e todo =>
    Embeds registry provider text e ∧ ∀ r ∈ todo, Embeds registry provider r.1 r.2
  | _ => True

/-- What holds of a call in progress.  A call that began while no `SetProvider` was in progress finds in the cache
only embeddings by providers that have been the current one since. -/
def FrameGood (registry : EmbeddingProviderRegistry E) (current : String) (cache : Table String E) :
    Frame E → Prop
  | .get texts calm seen place => current ∈ seen ∧ PlaceComputed registry place ∧
      (calm = true → (∀ text e, cache.lookup text = some e → SeenEmbeds registry seen text e) ∧
        PlaceSeen registry texts seen place)
  | _ => True

/-- The invariant of transparency.  Between the moment a provider is set and the moment the cache is cleared,
nothing is known of the entries, but by the calls that began earlier. -/
structure Inv (registry : EmbeddingProviderRegistry E) (s : EmbeddingManager E) : Prop where
  cache : (∀ t, s.threads.lookup t ≠ some (.clear true)) →
    ∀ text e, s.cache.lookup text = some e → Embeds registry s.currentProvider text e
  frames : ∀ t frame, s.threads.lookup t = some frame →
    FrameGood registry s.currentProvider s.cache frame
  answers : Transparent registry s

namespace Inv

variable {s : EmbeddingManager E} {t : Nat}

theorem goTo (h : Inv registry s) {frame : Frame E}
    (hframe : FrameGood registry s.currentProvider s.cache frame)
    (hold : s.threads.lookup t ≠ some (.clear true)) : Inv registry (s.goTo t frame) where
  cache hclear := by
    refine h.cache fun u hu => ?_
    have hne : u ≠ t := by
      rintro rfl
      exact hold hu
    refine hclear u ?_
    rw [EmbeddingManager.goTo, Table.lookup_insert_ite, if_neg hne]
    exact hu
  frames u frame' hu := by
    rw [EmbeddingManager.goTo, Table.lookup_insert_ite] at hu
    split_ifs at hu with hut
    · cases hu
      exact hframe
    · exact h.frames u frame' hu
  answers := h.answers

theorem leave (h : Inv registry s)
    (hold : s.threads.lookup t = some (.clear true) → s.cache = ∅) : Inv registry (s.leave t) where
  cache hclear := by
    by_cases ht : s.threads.lookup t = some (.clear true)
    · intro text e hfound
      rw [EmbeddingManager.leave, hold ht] at hfound
      cases hfound
    · refine h.cache fun u hu => ?_
      have hne : u ≠ t := by
        rintro rfl
        exact ht hu
      refine hclear u ?_
      rw [EmbeddingManager.leave, Table.lookup_erase_ite, if_neg hne]
      exact hu
  frames u frame' hu := by
    rw [EmbeddingManager.leave, Table.lookup_erase_ite] at hu
    split_ifs at hu with hut
    exact h.frames u frame' hu
  answers := h.answers

theorem cleared (h : Inv registry s) : Inv registry { s with cache := ∅ } where
  cache _ text e hfound := by cases hfound
  frames u frame hu := by
    have hgood := h.frames u frame hu
    cases frame with
    | get texts calm seen place =>
      obtain ⟨hmem, hcomputed, hcalm⟩ := hgood
      exact ⟨hmem, hcomputed, fun hc => ⟨fun _ _ hfound => (by cases hfound), (hcalm hc).2⟩⟩
    | _ => trivial
  answers := h.answers

theorem stored (h : Inv registry s) {text : String} {e : E}
    (he : Embeds registry s.currentProvider text e) {cache : Table String E}
    (hcache : ∀ text' e', cache.lookup text' = some e' →
      text' = text ∧ e' = e ∨ s.cache.lookup text' = some e') :
    Inv registry { s with cache := cache } where
  cache hclear text' e' hfound := by
    rcases hcache text' e' hfound with ⟨rfl, rfl⟩ | hfound
    · exact he
    · exact h.cache hclear text' e' hfound
  frames u frame hu := by
    have hgood := h.frames u frame hu
    cases frame with
    | get texts calm seen place =>
      obtain ⟨hmem, hcomputed, hcalm⟩ := hgood
      refine ⟨hmem, hcomputed, fun hc => ⟨fun text' e' hfound => ?_, (hcalm hc).2⟩⟩
      rcases hcache text' e' hfound with ⟨rfl, rfl⟩ | hfound
      · exact ⟨_, hmem, he⟩
      · exact (hcalm hc).1 text' e' hfound
    | _ => trivial
  answers := h.answers

variable {texts seen : List String} {place : Place E}

theorem answer (h : Inv registry s) {calm : Bool} (ht : s.threads.lookup t = some (.get texts calm seen place))
    {results : List (String × E)}
    (hresults : calm = true → results.map Prod.fst = texts ∧
      ∀ r ∈ results, SeenEmbeds registry seen r.1 r.2) :
    Inv registry (s.answer t texts calm seen results) := by
  have hleave : Inv registry (s.leave t) := h.leave (by rw [ht]; exact nofun)
  refine ⟨hleave.cache, hleave.frames, ?_⟩
  intro answer hanswer hcalm
  rcases mem_append.1 hanswer with hanswer | hanswer
  · exact h.answers answer hanswer hcalm
  · obtain rfl := mem_singleton.1 hanswer
    exact hresults hcalm

theorem provided (h : Inv registry s) (name : String) :
    Inv registry ({ s with
      currentProvider := name, threads := s.threads.mapValues (Frame.note name) }.goTo t
        (.clear true)) where
  cache hclear := absurd (by rw [EmbeddingManager.goTo, Table.lookup_insert_ite, if_pos rfl]) (hclear t)
  frames u frame hu := by
    rw [EmbeddingManager.goTo, Table.lookup_insert_ite] at hu
    split_ifs at hu with hut
    · cases hu
      trivial
    · rw [Table.lookup_mapValues, Option.map_eq_some_iff] at hu
      obtain ⟨frame', hframe', rfl⟩ := hu
      have hgood := h.frames u frame' hframe'
      cases frame' with
      | get texts calm seen place =>
        obtain ⟨-, hcomputed, hcalm⟩ := hgood
        refine ⟨mem_append_right _ (mem_singleton_self _), hcomputed, fun hc => ?_⟩
        obtain ⟨hcache, hplace⟩ := hcalm hc
        refine ⟨fun text e hfound => (hcache text e hfound).append name, ?_⟩
        cases place with
        | start => trivial
        | lookups found todo =>
          exact ⟨hplace.1, fun f hf e he => (hplace.2 f hf e he).append name⟩
        | choose found => exact ⟨hplace.1, fun f hf e he => (hplace.2 f hf e he).append name⟩
        | fill results provider todo => exact ⟨hplace.1, fun r hr => (hplace.2 r hr).append name⟩
        | add results provider text e todo =>
          exact ⟨hplace.1, fun r hr => (hplace.2 r hr).append name⟩
      | _ => trivial
  answers := h.answers

theorem results_of_mapM {found : List (String × Option E)} {results : List (String × E)}
    (h : (found.mapM fun (text, embedding) => embedding.map fun e => (text, e)) = some results) :
    results.map Prod.fst = found.map Prod.fst ∧ ∀ r ∈ results, (r.1, some r.2) ∈ found := by
  induction found generalizing results with
  | nil =>
    cases h
    exact ⟨rfl, nofun⟩
  | cons f found ih =>
    obtain ⟨text, embedding⟩ := f
    rw [mapM_cons] at h
    obtain ⟨r, hr, h⟩ := Option.bind_eq_some_iff.1 h
    obtain ⟨rest, hrest, h⟩ := Option.bind_eq_some_iff.1 h
    cases h
    obtain ⟨e, rfl, rfl⟩ := Option.map_eq_some_iff.1 hr
    obtain ⟨htexts, hmem⟩ := ih hrest
    refine ⟨congrArg (text :: ·) htexts, forall_mem_cons.2 ⟨mem_cons_self .., ?_⟩⟩
    exact fun r hr => mem_cons_of_mem _ (hmem r hr)

theorem goTo_get (h : Inv registry s) {calm : Bool}
    {place' : Place E} (ht : s.threads.lookup t = some (.get texts calm seen place))
    (hcomputed : PlaceComputed registry place')
    (hplace : calm = true → PlaceSeen registry texts seen place →
      PlaceSeen registry texts seen place') :
    Inv registry (s.goTo t (.get texts calm seen place')) := by
  obtain ⟨hmem, -, hcalm⟩ := h.frames t _ ht
  refine h.goTo ⟨hmem, hcomputed, fun hc => ⟨(hcalm hc).1, hplace hc (hcalm hc).2⟩⟩ ?_
  rw [ht]
  exact nofun

theorem get (h : Inv registry s) {calm : Bool} (ht : s.threads.lookup t = some (.get texts calm seen place)) {victim : String}
    (hfresh : FreshFill s (.run t victim)) {s' : EmbeddingManager E}
    (hstep : s.get registry t victim texts calm seen place = some s') : Inv registry s' := by
  obtain ⟨hmem, hcomputed, hcalm⟩ := h.frames t _ ht
  cases place with
  | start =>
    cases hstep
    refine h.goTo_get ht ?_ fun _ _ => ?_
    · split_ifs <;> trivial
    · split_ifs
      · exact ⟨rfl, nofun⟩
      · refine ⟨?_, ?_⟩
        · rw [map_map]
          exact map_id texts
        · rw [forall_mem_map]
          exact fun _ _ => nofun
  | lookups found todo =>
    cases todo with
    | nil =>
      cases hstep
      refine h.goTo_get ht trivial fun _ hplace => ⟨?_, hplace.2⟩
      rw [← hplace.1, append_nil]
    | cons text todo =>
      cases hstep
      refine h.goTo_get ht trivial fun hc hplace => ⟨?_, ?_⟩
      · rw [← hplace.1, map_append, append_assoc]
        rfl
      · refine forall_mem_append.2 ⟨hplace.2, forall_mem_singleton.2 ?_⟩
        exact fun e he => (hcalm hc).1 text e he
  | choose found =>
    rw [EmbeddingManager.get] at hstep
    split at hstep
    next results hresults =>
      cases hstep
      refine h.answer ht fun hc => ?_
      obtain ⟨htexts, hfound⟩ := (hcalm hc).2
      obtain ⟨hmap, hmem⟩ := results_of_mapM hresults
      exact ⟨hmap.trans htexts, fun r hr => hfound _ (hmem r hr) r.2 rfl⟩
    next =>
      split at hstep
      next =>
        cases hstep
        exact h.leave (by rw [ht]; exact nofun)
      next embed hembed =>
        cases hstep
        refine h.goTo_get ht ?_ fun hc hplace => ⟨?_, ?_⟩
        · refine forall_mem_map.2 ?_
          exact fun f _ => ⟨embed, hembed, rfl⟩
        · rw [map_map]
          exact hplace.1
        · refine forall_mem_map.2 fun f hf => ?_
          obtain ⟨text, embedding⟩ := f
          cases embedding with
          | none => exact ⟨_, hmem, embed, hembed, rfl⟩
          | some e => exact hplace.2 _ hf e rfl
  | fill results provider todo =>
    cases todo with
    | nil =>
      cases hstep
      exact h.answer ht fun hc => (hcalm hc).2
    | cons r todo =>
      cases hstep
      obtain ⟨hr, htodo⟩ := forall_mem_cons.1 hcomputed
      refine h.goTo_get ht ?_ fun _ hplace => ?_
      · split_ifs
        · exact ⟨hr, htodo⟩
        · exact htodo
      · split_ifs <;> exact hplace
  | add results provider text e todo =>
    obtain ⟨s₁, hadd, rfl⟩ := Option.map_eq_some_iff.1 hstep
    have hprovider : provider = s.currentProvider := by
      refine hfresh provider ?_
      rw [ht]
      rfl
    subst hprovider
    obtain ⟨he, htodo⟩ := hcomputed
    have hgoes {s₁ : EmbeddingManager E} (h₁ : Inv registry s₁) (hthreads : s₁.threads = s.threads) :
        Inv registry (s₁.goTo t (.get texts calm seen (.fill results s.currentProvider todo))) := by
      rw [← hthreads] at ht
      exact h₁.goTo_get ht htodo fun _ hplace => hplace
    rw [addToCache] at hadd
    split_ifs at hadd with hfull hempty hvictim
    · cases hadd
      exact hgoes ⟨h.cache, h.frames, h.answers⟩ rfl
    · cases hadd
      refine hgoes (h.stored he fun text' e' hfound => ?_) rfl
      rw [Table.lookup_insert_ite, Table.lookup_erase_ite] at hfound
      split_ifs at hfound with htext
      · cases hfound
        exact .inl ⟨htext, rfl⟩
      · exact .inr hfound
    · cases hadd
      refine hgoes (h.stored he fun text' e' hfound => ?_) rfl
      rw [Table.lookup_insert_ite] at hfound
      split_ifs at hfound with htext
      · cases hfound
        exact .inl ⟨htext, rfl⟩
      · exact .inr hfound

theorem begin (h : Inv registry s) (call : EmbeddingCall) :
    FrameGood registry s.currentProvider s.cache (s.begin call) := by
  have hget (texts : List String) : FrameGood registry s.currentProvider s.cache
      (.get texts (s.threads.entries.all fun e => !e.2.switching) [s.currentProvider] .start) := by
    refine ⟨mem_singleton_self _, trivial, fun hcalm => ⟨fun text e hfound => ?_, trivial⟩⟩
    refine ⟨_, mem_singleton_self _, h.cache (fun u hu => ?_) text e hfound⟩
    have hnone := all_eq_true.1 hcalm _ (AList.mem_lookup_iff.1 hu)
    exact absurd hnone Bool.false_ne_true
  cases call with
  | getEmbedding text => exact hget [text]
  | getEmbeddingBatch texts => exact hget texts
  | _ => trivial

theorem step (h : Inv registry s) {a : EmbeddingAction} (hfresh : FreshFill s a)
    {s' : EmbeddingManager E} (hstep : s.step registry a = some s') : Inv registry s' := by
  cases a with
  | call t call =>
    rw [EmbeddingManager.step] at hstep
    split_ifs at hstep
    split at hstep
    next => cases hstep
    next hnone =>
      cases hstep
      refine h.goTo (h.begin call) ?_
      rw [hnone]
      exact nofun
  | run t victim =>
    rw [EmbeddingManager.step] at hstep
    split_ifs at hstep
    split at hstep
    next => cases hstep
    next frame hframe =>
      have hother (hne : frame ≠ .clear true) : s.threads.lookup t ≠ some (.clear true) := by
        rw [hframe]
        exact fun heq => hne (Option.some.inj heq)
      cases frame with
      | get texts calm seen place => exact h.get hframe hfresh hstep
      | setProvider name =>
        rw [advance] at hstep
        split at hstep
        next =>
          cases hstep
          exact h.leave fun ht => absurd ht (hother nofun)
        next =>
          cases hstep
          exact h.provided name
      | setCacheEnabled enabled =>
        have hset : Inv registry { s with cacheEnabled := enabled } :=
          ⟨h.cache, h.frames, h.answers⟩
        cases hstep
        cases enabled with
        | true => exact hset.leave fun ht => absurd ht (hother nofun)
        | false => exact hset.goTo trivial (hother nofun)
      | setMaxCacheSize size =>
        have hset : Inv registry { s with maxCacheSize := size } := ⟨h.cache, h.frames, h.answers⟩
        cases hstep
        exact hset.goTo trivial (hother nofun)
      | clear switching =>
        cases hstep
        exact h.cleared.leave fun _ => rfl
      | trim =>
        cases hstep
        split_ifs
        · exact h.cleared.leave fun _ => rfl
        · exact h.leave fun ht => absurd ht (hother nofun)

end Inv

def init (current : String) : EmbeddingManager E := { currentProvider := current }

theorem inv_init (current : String) : Inv registry (init current) where
  cache _ text e hfound := by cases hfound
  frames t frame ht := by cases ht
  answers := nofun

variable {current victim : String} {as : List EmbeddingAction}

theorem transparent_of_freshFill
    {s : EmbeddingManager E} (hrun : exec (step registry) (init current) as = some s)
    (hfresh : Along (step registry) FreshFill (init current) as) : Transparent registry s :=
  (exec_invariant (fun _ _ _ hinv hok hstep => Inv.step hinv hok hstep) (inv_init current) hfresh
    hrun).answers

/-! ## The size of the cache -/

theorem length_insert_le (cache : Table String E) (text : String) (e : E) :
    (cache.insert text e).entries.length ≤ cache.entries.length + 1 := by
  rw [AList.entries_insert, length_cons]
  exact Nat.succ_le_succ (kerase_sublist text cache.entries).length_le

theorem length_insert_erase_le (cache : Table String E)
    (h : (cache.lookup victim).isSome) (text : String) (e : E) :
    ((cache.erase victim).insert text e).entries.length ≤ cache.entries.length := by
  have hmem : victim ∈ cache.keys := AList.lookup_isSome.1 h
  have hkeys (t : Table String E) : t.keys.length = t.entries.length := length_map ..
  have hlength : (cache.erase victim).entries.length + 1 = cache.entries.length := by
    rw [← hkeys, ← hkeys, AList.keys_erase, length_erase_of_mem hmem]
    exact Nat.succ_pred_eq_of_pos (length_pos_of_mem hmem)
  rw [← hlength]
  exact length_insert_le _ text e

theorem addToCache_spec {s s' : EmbeddingManager E} {text : String} {e : E}
    (hsafe : ¬(s.maxCacheSize = 0 ∧ s.cache.entries = [])) (hcrashed : s.crashed = false)
    (h : s.addToCache text e victim = some s') :
    s'.crashed = false ∧ s'.maxCacheSize = s.maxCacheSize ∧ s'.threads = s.threads ∧
      (Bounded s' ∨ s'.cache.entries.length ≤ s.cache.entries.length) := by
  rw [addToCache] at h
  split_ifs at h with hfull hempty hvictim
  · refine absurd ⟨?_, hempty⟩ hsafe
    rw [hempty] at hfull
    exact Nat.le_zero.1 hfull
  · cases h
    exact ⟨hcrashed, rfl, rfl, .inr (length_insert_erase_le s.cache hvictim text e)⟩
  · cases h
    refine ⟨hcrashed, rfl, rfl, .inl ?_⟩
    exact Nat.le_trans (length_insert_le s.cache text e) (Nat.lt_of_not_le hfull)

theorem trimming_insert {threads : Table Nat (Frame E)} {t : Nat} (hne : threads.lookup t ≠ some .trim)
    (frame : Frame E) (h : ∃ u, threads.lookup u = some .trim) :
    ∃ u, (threads.insert t frame).lookup u = some .trim := by
  obtain ⟨u, hu⟩ := h
  refine ⟨u, ?_⟩
  rw [Table.lookup_insert_ite, if_neg]
  · exact hu
  · rintro rfl
    exact hne hu

theorem trimming_erase {threads : Table Nat (Frame E)} {t : Nat} (hne : threads.lookup t ≠ some .trim)
    (h : ∃ u, threads.lookup u = some .trim) : ∃ u, (threads.erase t).lookup u = some .trim := by
  obtain ⟨u, hu⟩ := h
  refine ⟨u, ?_⟩
  rw [Table.lookup_erase_ite, if_neg]
  · exact hu
  · rintro rfl
    exact hne hu

/-- What a step does to the size of the cache: afterwards it is within its bound, or neither it nor the bound has
grown, or a bound was set. -/
structure SizeStep (s : EmbeddingManager E) (a : EmbeddingAction) (s' : EmbeddingManager E) : Prop where
  crashed : s'.crashed = false
  bounded : Bounded s' ∨
    (s'.cache.entries.length ≤ s.cache.entries.length ∧ s'.maxCacheSize = s.maxCacheSize ∧
      (Trimming s → Trimming s')) ∨
    ∃ t victim, a = .run t victim ∧ s.threads.lookup t = some (.setMaxCacheSize s'.maxCacheSize) ∧
      s'.cache = s.cache ∧ Trimming s'

theorem sizeStep_get {s s' : EmbeddingManager E} {t : Nat} {texts : List String}
    {calm : Bool} {seen : List String} {place : Place E}
    (ht : s.threads.lookup t = some (.get texts calm seen place)) (hcrashed : s.crashed = false)
    (hsafe : SafeFill s (.run t victim))
    (hstep : s.get registry t victim texts calm seen place = some s') :
    SizeStep s (.run t victim) s' := by
  have hne : s.threads.lookup t ≠ some .trim := by
    rw [ht]
    exact nofun
  have hgoTo (frame : Frame E) : SizeStep s (.run t victim) (s.goTo t frame) :=
    ⟨hcrashed, .inr (.inl ⟨Nat.le_refl _, rfl, trimming_insert hne frame⟩)⟩
  have hleave : SizeStep s (.run t victim) (s.leave t) :=
    ⟨hcrashed, .inr (.inl ⟨Nat.le_refl _, rfl, trimming_erase hne⟩)⟩
  have hanswer (results : List (String × E)) :
      SizeStep s (.run t victim) (s.answer t texts calm seen results) :=
    ⟨hcrashed, .inr (.inl ⟨Nat.le_refl _, rfl, trimming_erase hne⟩)⟩
  cases place with
  | start =>
    cases hstep
    exact hgoTo _
  | lookups found todo =>
    cases todo <;> cases hstep <;> exact hgoTo _
  | choose found =>
    rw [EmbeddingManager.get] at hstep
    split at hstep
    next =>
      cases hstep
      exact hanswer _
    next =>
      split at hstep
      next =>
        cases hstep
        exact hleave
      next =>
        cases hstep
        exact hgoTo _
  | fill results provider todo =>
    cases todo with
    | nil =>
      cases hstep
      exact hanswer _
    | cons r todo =>
      cases hstep
      exact hgoTo _
  | add results provider text e todo =>
    obtain ⟨s₁, hadd, rfl⟩ := Option.map_eq_some_iff.1 hstep
    have hsafe := hsafe provider (by rw [ht]; rfl)
    obtain ⟨hcrashed₁, hmax, hthreads, hsize⟩ := addToCache_spec hsafe hcrashed hadd
    refine ⟨hcrashed₁, hsize.imp_right fun hle => .inl ⟨hle, hmax, fun htrim => ?_⟩⟩
    rw [← hthreads] at hne
    rw [Trimming, ← hthreads] at htrim
    exact trimming_insert hne _ htrim

theorem sizeStep_of_step {s s' : EmbeddingManager E} {a : EmbeddingAction} (hsafe : SafeFill s a)
    (hstep : s.step registry a = some s') : SizeStep s a s' := by
  cases a with
  | call t call =>
    rw [step] at hstep
    split_ifs at hstep with hcrashed
    split at hstep
    next => cases hstep
    next hnone =>
      cases hstep
      refine ⟨Bool.eq_false_iff.2 hcrashed, .inr (.inl ⟨Nat.le_refl _, rfl, trimming_insert ?_ _⟩)⟩
      rw [hnone]
      exact nofun
  | run t victim =>
    rw [step] at hstep
    split_ifs at hstep with hcrashed
    have hcrashed := Bool.eq_false_iff.2 hcrashed
    split at hstep
    next => cases hstep
    next frame hframe =>
      have hother (hne : frame ≠ .trim) : s.threads.lookup t ≠ some .trim := by
        rw [hframe]
        exact fun heq => hne (Option.some.inj heq)
      cases frame with
      | get texts calm seen place => exact sizeStep_get hframe hcrashed hsafe hstep
      | setProvider name =>
        rw [advance] at hstep
        split at hstep
        next =>
          cases hstep
          exact ⟨hcrashed, .inr (.inl ⟨Nat.le_refl _, rfl, trimming_erase (hother nofun)⟩)⟩
        next =>
          cases hstep
          refine ⟨hcrashed, .inr (.inl ⟨Nat.le_refl _, rfl, ?_⟩)⟩
          rintro ⟨u, hu⟩
          refine trimming_insert ?_ _ ⟨u, ?_⟩
          · rw [Table.lookup_mapValues, hframe]
            exact nofun
          · rw [Table.lookup_mapValues, hu]
            rfl
      | setCacheEnabled enabled =>
        cases hstep
        refine ⟨?_, .inr (.inl ?_)⟩
        · cases enabled <;> exact hcrashed
        · cases enabled
          · exact ⟨Nat.le_refl _, rfl, trimming_insert (hother nofun) _⟩
          · exact ⟨Nat.le_refl _, rfl, trimming_erase (hother nofun)⟩
      | setMaxCacheSize size =>
        cases hstep
        refine ⟨hcrashed, .inr (.inr ⟨t, victim, rfl, hframe, rfl, t, ?_⟩)⟩
        rw [goTo, Table.lookup_insert_ite, if_pos rfl]
      | clear switching =>
        cases hstep
        exact ⟨hcrashed, .inl (Nat.zero_le _)⟩
      | trim =>
        cases hstep
        split_ifs with hlarge
        · exact ⟨hcrashed, .inl (Nat.zero_le _)⟩
        · exact ⟨hcrashed, .inl (Nat.le_of_not_lt hlarge)⟩

theorem bounded_of_safeFill {s : EmbeddingManager E}
    (hrun : exec (step registry) (init current) as = some s)
    (hsafe : Along (step registry) SafeFill (init current) as) :
    s.crashed = false ∧ (Bounded s ∨ Trimming s) := by
  have hinit : (init current : EmbeddingManager E).crashed = false ∧
      (Bounded (init current : EmbeddingManager E) ∨ Trimming (init current : EmbeddingManager E)) :=
    ⟨rfl, .inl (Nat.zero_le _)⟩
  refine exec_invariant (motive := fun s => s.crashed = false ∧ (Bounded s ∨ Trimming s)) ?_ hinit
    hsafe hrun
  rintro s a s' ⟨-, hbound⟩ hok hstep
  obtain ⟨hcrashed, hsize | ⟨hle, hmax, htrim⟩ | ⟨-, -, -, -, -, htrim⟩⟩ := sizeStep_of_step hok hstep
  · exact ⟨hcrashed, .inl hsize⟩
  · refine ⟨hcrashed, hbound.imp (fun hbound => ?_) htrim⟩
    rw [Bounded, hmax]
    exact Nat.le_trans hle hbound
  · exact ⟨hcrashed, .inr htrim⟩

theorem bounded_of_fittingSize {s : EmbeddingManager E}
    (hrun : exec (step registry) (init current) as = some s)
    (hok : Along (step registry) (fun s a => SafeFill s a ∧ FittingSize s a) (init current) as) :
    Bounded s := by
  have hinit : Bounded (init current : EmbeddingManager E) := Nat.zero_le _
  refine exec_invariant (motive := Bounded) ?_ hinit hok hrun
  rintro s a s' hbound ⟨hsafe, hfits⟩ hstep
  obtain ⟨-, hsize | ⟨hle, hmax, -⟩ | ⟨t, victim, rfl, ht, hcache, -⟩⟩ := sizeStep_of_step hsafe hstep
  · exact hsize
  · rw [Bounded, hmax]
    exact Nat.le_trans hle hbound
  · rw [Bounded, hcache]
    refine hfits s'.maxCacheSize ?_
    rw [ht]
    rfl

/-- The cache in any run.  It is transparent if nothing is stored that a former provider computed.  Nothing is
erased from an empty map, and only a `SetMaxCacheSize` that has yet to trim the cache finds it beyond its bound, if
nothing is stored into an empty cache of size 0; and it is never beyond its bound if no bound is set below its
size. -/
theorem cache_laws (registry : EmbeddingProviderRegistry E) {current : String}
    {as : List EmbeddingAction} {s : EmbeddingManager E}
    (hrun : exec (step registry) (init current) as = some s) :
    (Along (step registry) FreshFill (init current) as → Transparent registry s) ∧
      (Along (step registry) SafeFill (init current) as →
        s.crashed = false ∧ (Bounded s ∨ Trimming s)) ∧
      (Along (step registry) (fun s a => SafeFill s a ∧ FittingSize s a) (init current) as →
        Bounded s) :=
  ⟨transparent_of_freshFill hrun, bounded_of_safeFill hrun, bounded_of_fittingSize hrun⟩

def twoProviders : EmbeddingProviderRegistry Nat where
  providers name := if name = "a" then some fun _ => 1 else if name = "b" then some fun _ => 2 else none
  defaultProvider := none

/-- A provider is set between the moment an embedding is computed and the moment it is stored; then the text is
embedded again. -/
def staleRun : List EmbeddingAction :=
  .call 0 (.getEmbedding "x") :: List.replicate 5 (.run 0 "") ++
    [.call 1 (.setProvider "b"), .run 1 "", .run 1 "", .run 0 "", .run 0 ""] ++
    .call 2 (.getEmbedding "x") :: List.replicate 4 (.run 2 "")

/-- The second call begins after the provider was set, and returns the embedding of the former one. -/
theorem not_transparent_staleRun :
    ∃ s, exec (step twoProviders) (init "a") staleRun = some s ∧ ¬Transparent twoProviders s := by
  have hanswers : (exec (step twoProviders) (init "a") staleRun).map (·.answers) =
      some [⟨["x"], true, ["a", "b"], [("x", 1)]⟩, ⟨["x"], true, ["b"], [("x", 1)]⟩] := by
    decide +kernel
  obtain ⟨s, hs, hanswers⟩ := Option.map_eq_some_iff.1 hanswers
  refine ⟨s, hs, fun htransparent => ?_⟩
  have hmem : ⟨["x"], true, ["b"], [("x", 1)]⟩ ∈ s.answers := by
    rw [hanswers]
    exact mem_cons_of_mem _ (mem_singleton_self _)
  obtain ⟨name, hname, embed, hembed, he⟩ := (htransparent _ hmem rfl).2 _ (mem_singleton_self _)
  obtain rfl := mem_singleton.1 hname
  cases hembed
  cases he

/-- A text is embedded, then embedded again. -/
theorem cache_laws_twice :
    ∃ s, exec (step twoProviders) (init "a")
        (.call 0 (.getEmbedding "x") :: List.replicate 7 (.run 0 "") ++
          .call 0 (.getEmbedding "x") :: List.replicate 4 (.run 0 "")) = some s ∧
      Transparent twoProviders s ∧ s.crashed = false ∧ Bounded s := by
  have hsome : (exec (step twoProviders) (init "a")
      (.call 0 (.getEmbedding "x") :: List.replicate 7 (.run 0 "") ++
        .call 0 (.getEmbedding "x") :: List.replicate 4 (.run 0 ""))).isSome := by decide +kernel
  obtain ⟨s, hs⟩ := Option.isSome_iff_exists.1 hsome
  obtain ⟨htransparent, hsafe, hbounded⟩ := cache_laws twoProviders hs
  exact ⟨s, hs, htransparent (by decide +kernel), (hsafe (by decide +kernel)).1,
    hbounded (by decide +kernel)⟩

end EmbeddingManager

end RavBot.Core
