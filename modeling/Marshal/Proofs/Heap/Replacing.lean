import Marshal.Proofs.Heap.Garbage
import Marshal.Proofs.Heap.Represented

/-!
# Putting values into dictionaries

A value that is put under a key takes the place of an old one, and the old one is released.
With it may go whatever only the old value led to, and the new value may be among that, or
the key, or something that holds the dictionary.

Nothing that is still needed goes.  The new value is counted before the old one is released,
and the dictionary holds it from then on.  The dictionary itself stays within reach: on the
way to it there are only objects that did not change, up to the first place where the way
comes by the dictionary (`Reaches.of_changed`).  What is within reach is live, since the
account of the client is right again after the operation.
-/

namespace Marshal

open Relation

namespace Heap

variable {heap heap' : Heap} {owned : Multiset Handle} {dictionary key value : Handle}
  {entries entries' : List (Handle × Handle)} {text : String}

/-- What the entries become when a value is put under a key with the given text: the one
entry whose key has this text gets the value and keeps its key and its place, or if there is
none, the key and the value come last. -/
inductive Put (heap : Heap) (entries : List (Handle × Handle)) (text : String)
    (key value : Handle) : List (Handle × Handle) → Prop
  | replaced {place : Nat} {stored old : Handle} (hplace : entries[place]? = some (stored, old))
      (hkey : heap.textOf stored = .ok text)
      (honly : ∀ (other : Nat) entry, entries[other]? = some entry →
        heap.textOf entry.1 = .ok text → other = place) :
      Put heap entries text key value (entries.set place (stored, value))
  | added (hnone : ∀ entry ∈ entries, heap.textOf entry.1 ≠ .ok text) :
      Put heap entries text key value (entries ++ [(key, value)])

/-- Only the object of the handle has changed, of those that are live in the second heap. -/
def Changed (heap heap' : Heap) (handle : Handle) (content : Content) : Prop := ∀ other,
  heap'.Live other →
  heap'.body? other = if other = handle then some (content, true) else heap.body? other

/-! ## The place of a key -/

theorem same_text_iff {content : Content} :
    content.same (.text text) = true ↔ content = .text text := by
  cases content <;> simp [Content.same]

theorem holds_text {handle : Handle} :
    heap.holds (.text text) handle = true ↔ heap.textOf handle = .ok text := by
  rw [textOf_eq_ok, holds, body?]
  cases heap.get? handle with
  | none => simp
  | some o => simp [same_text_iff]

/-- Keys are compared by their texts. -/
theorem key_matches_iff {handle : Handle} (hkey : heap.textOf key = .ok text) :
    (handle = key || heap.holds (.text text) handle) = true ↔ heap.textOf handle = .ok text := by
  rw [Bool.or_eq_true, decide_eq_true_eq, holds_text]
  constructor
  · rintro (rfl | htext)
    · exact hkey
    · exact htext
  · exact .inr

/-- No two places have keys with one text. -/
theorem Keyed.place_unique {place place' : Nat} {entry entry' : Handle × Handle}
    (h : heap.Keyed (entries.map Prod.fst)) (hentry : entries[place]? = some entry)
    (hentry' : entries[place']? = some entry') (htext : heap.textOf entry.1 = .ok text)
    (htext' : heap.textOf entry'.1 = .ok text) : place = place' := by
  obtain ⟨hlt, rfl⟩ := List.getElem?_eq_some_iff.mp hentry
  obtain ⟨hlt', rfl⟩ := List.getElem?_eq_some_iff.mp hentry'
  have hunlike := List.pairwise_iff_getElem.mp (List.pairwise_map.mp h.unlike)
  rcases lt_trichotomy place place' with hbefore | heq | hafter
  · exact absurd (hunlike place place' hlt hlt' hbefore) (not_unlike_of_text htext htext')
  · exact heq
  · exact absurd (hunlike place' place hlt' hlt hafter) (not_unlike_of_text htext' htext)

theorem put_of_keyPlace?_none (hkey : heap.textOf key = .ok text)
    (hplace : heap.keyPlace? entries key text = none) :
    heap.Put entries text key value (entries ++ [(key, value)]) := by
  refine .added fun entry hentry htext => ?_
  have hother := List.findIdx?_eq_none_iff.mp hplace entry hentry
  exact Bool.eq_false_iff.mp hother ((key_matches_iff hkey).mpr htext)

theorem put_of_keyPlace?_some {place : Nat} (h : heap.Keyed (entries.map Prod.fst))
    (hkey : heap.textOf key = .ok text) (hplace : heap.keyPlace? entries key text = some place) :
    heap.Put entries text key value (entries.modify place fun entry => (entry.1, value)) := by
  obtain ⟨hlt, hmatches, -⟩ := List.findIdx?_eq_some_iff_getElem.mp hplace
  have htext : heap.textOf entries[place].1 = .ok text := (key_matches_iff hkey).mp hmatches
  have hentry : entries[place]? = some entries[place] := List.getElem?_eq_getElem hlt
  rw [List.modify_eq_set_get _ hlt]
  exact .replaced hentry htext fun other entry hother hother' =>
    h.place_unique hother hentry hother' htext

/-- The dictionary holds what was put into it. -/
theorem Put.mem_children (h : heap.Put entries text key value entries') :
    value ∈ (Content.dictionary entries').children := by
  cases h with
  | @replaced place stored old hplace _ _ =>
      obtain ⟨hlt, -⟩ := List.getElem?_eq_some_iff.mp hplace
      exact List.mem_flatMap.mpr ⟨(stored, value), List.mem_set hlt _, by simp⟩
  | added => exact List.mem_flatMap.mpr ⟨(key, value), by simp, by simp⟩

/-! ## What the request changes -/

theorem changed_refilled {between : Heap} {index : Nat} {content content' : Content}
    (hsame : ∀ other, between.body? other = heap.body? other)
    (hbody : heap.body? (.object index) = some (content, true)) :
    Changed heap (between.refilled (.object index) content') (.object index) content' := by
  intro other _
  split
  · next hself =>
    rw [hself, refilled, body?_alter_self, hsame, hbody]
    rfl
  · next hother => rw [refilled, body?_alter_of_ne _ hother, hsame]

theorem Changed.release {between : Heap} {handle : Handle} {content : Content}
    (h : Changed heap between handle content) (old : Handle) :
    Changed heap (between.release old) handle content := by
  intro other hlive
  have hleaves := leaves_release old between
  rw [hleaves.body?_eq other hlive, h other (hleaves.live hlive)]

/-- If the dictionary can be changed, the key is a text and the value is live, the value is
put under the key.  Of what is left, nothing else is changed. -/
theorem Lawful.changed_putEntry {mutable : Bool} (h : heap.Lawful)
    (hbody : heap.body? dictionary = some (.dictionary entries, true))
    (hkey : heap.body? key = some (.text text, mutable)) (hvalue : heap.Live value) :
    ∃ heap' entries', answer (.putEntry dictionary key value) heap = .ok () heap' ∧
      heap.Put entries text key value entries' ∧
      Changed heap heap' dictionary (.dictionary entries') := by
  have htext : heap.textOf key = .ok text := textOf_eq_ok.mpr ⟨mutable, hkey⟩
  have hentries : ∀ {found : List (Handle × Handle)},
      heap.body? dictionary = some (.dictionary found, true) → found = entries := by
    intro found hfound
    have heq := (Prod.mk.inj (Option.some.inj (hfound.symm.trans hbody))).1
    exact Content.dictionary.inj heq
  have htexts : ∀ {found : String} {mutable' : Bool},
      heap.body? key = some (.text found, mutable') → found = text := by
    intro found mutable' hfound
    have heq := (Prod.mk.inj (Option.some.inj (hfound.symm.trans hkey))).1
    exact Content.text.inj heq
  have hends : Ends (putEntry dictionary key value) heap
      (fun _ heap' => ∃ entries', heap.Put entries text key value entries' ∧
        Changed heap heap' dictionary (.dictionary entries')) fun _ _ => False := by
    refine ends_putEntry (fun index text' mutable' found hindex hkey' _ hbody' hplace => ?_)
      (fun index text' mutable' found place old hindex hkey' _ hbody' hplace _ => ?_)
      fun hnone => absurd hvalue (hnone entries text mutable hbody hkey)
    · obtain rfl := hentries hbody'
      obtain rfl := htexts hkey'
      refine ⟨_, put_of_keyPlace?_none htext hplace, ?_⟩
      subst hindex
      exact changed_refilled (fun other => by rw [body?_retained, body?_retained]) hbody'
    · obtain rfl := hentries hbody'
      obtain rfl := htexts hkey'
      subst hindex
      have hkeyed : heap.Keyed (found.map Prod.fst) := h index (.dictionary found) true hbody'
      refine ⟨_, put_of_keyPlace?_some hkeyed htext hplace, ?_⟩
      exact (changed_refilled body?_retained hbody').release old.2
  obtain ⟨_, heap', hrun, entries', hput, hchanged⟩ := hends.exists_ok
  exact ⟨heap', entries', hrun, hput, hchanged⟩

/-- Otherwise the request is refused, and the heap is what it was. -/
theorem refused_putEntry
    (h : (∀ entries, heap.body? dictionary ≠ some (.dictionary entries, true)) ∨
      (∀ text mutable, heap.body? key ≠ some (.text text, mutable)) ∨ ¬ heap.Live value) :
    ∃ refusal, answer (.putEntry dictionary key value) heap = .error refusal heap := by
  have hnever : ∀ {entries text mutable},
      heap.body? dictionary = some (.dictionary entries, true) →
      heap.body? key = some (.text text, mutable) → heap.Live value → False := by
    intro entries text mutable hbody hkey hvalue
    rcases h with hnone | hnone | hdead
    · exact hnone entries hbody
    · exact hnone text mutable hkey
    · exact hdead hvalue
  have hends : Ends (putEntry dictionary key value) heap (fun _ _ => False)
      fun _ heap' => heap' = heap :=
    ends_putEntry (fun _ _ _ _ _ hkey hvalue hbody _ => hnever hbody hkey hvalue)
      (fun _ _ _ _ _ _ _ hkey hvalue hbody _ _ => hnever hbody hkey hvalue) fun _ _ => rfl
  obtain ⟨refusal, _, hrun, rfl⟩ := hends.exists_error
  exact ⟨refusal, hrun⟩

/-! ## Ways to the dictionary -/

/-- What was within reach and has changed still is, if nothing else has changed that is. -/
theorem Reaches.of_changed {handle : Handle} {content : Content}
    (h : heap.Reaches owned handle) (hchanged : Changed heap heap' handle content)
    (hlive : ∀ other, heap'.Reaches owned other → heap'.Live other) :
    heap'.Reaches owned handle := by
  obtain ⟨owner, howner, hpath⟩ := h
  -- every object on the way is within reach, or the way came by the changed one before
  have hway : ∀ other, ReflTransGen heap.Holds owner other →
      heap'.Reaches owned other ∨ heap'.Reaches owned handle := by
    intro other hpath
    induction hpath with
    | refl => exact .inl (.of_mem howner)
    | @tail holder child _ hholds ih =>
        refine ih.elim (fun hreach => ?_) .inr
        by_cases hself : holder = handle
        · exact .inr (hself ▸ hreach)
        · obtain ⟨held, mutable, hbody, hchild⟩ := hholds
          have hbody' : heap'.body? holder = some (held, mutable) := by
            rw [hchanged holder (hlive holder hreach), if_neg hself, hbody]
          exact .inl (hreach.tail ⟨held, mutable, hbody', hchild⟩)
  exact (hway handle hpath).elim id id

end Heap

namespace Client

variable {client : Client}

/-- A request that grants nothing leaves what is within reach live. -/
theorem Reachable.live_of_answer {request : Request} {a : request.Answer} {heap' : Heap}
    {handle : Handle} (h : client.Reachable)
    (hrun : Heap.answer request client.heap = .ok a heap') (hgranted : request.granted a = [])
    (hreach : heap'.Reaches client.owned handle) : heap'.Live handle := by
  have hnext : (client.step (.ask request)).Reachable := h.ask request
  have hperform : Operation.perform (.ask request) client.heap = ([], heap') := by
    show Operation.attempted _ _ _ = _
    rw [Operation.attempted, hrun]
    exact congrArg (·, heap') hgranted
  have hstep : client.step (.ask request) = { heap := heap', owned := client.owned } := by
    rw [Client.step, hperform]
    simp [Operation.released]
  rw [hstep] at hnext
  exact hnext.live_of_reaches hreach

/-- Whatever a client did that releases only what it owns, it can put any live value under any
live text of a dictionary within its reach, also the value that is there, something that only
that value leads to, the text itself or the dictionary itself.  The entry with an equal key gets
the value and stays where it is with its key, or there is a new last entry.  The value is live
then, and everything within reach is live and, but for the dictionary, what it was.

If there is no such dictionary, text or value, the request is refused and changes nothing. -/
theorem Reachable.safe_putEntry (h : client.Reachable) (dictionary key value : Handle) :
    (∀ entries text mutable,
      client.heap.body? dictionary = some (.dictionary entries, true) →
      client.heap.Reaches client.owned dictionary →
      client.heap.body? key = some (.text text, mutable) →
      client.heap.Live value →
      ∃ heap' entries', Heap.answer (.putEntry dictionary key value) client.heap = .ok () heap' ∧
        client.heap.Put entries text key value entries' ∧
        heap'.body? dictionary = some (.dictionary entries', true) ∧
        heap'.Live value ∧
        ∀ handle, heap'.Reaches client.owned handle → heap'.Live handle ∧
          (handle ≠ dictionary → heap'.body? handle = client.heap.body? handle)) ∧
    ((∀ entries, client.heap.body? dictionary ≠ some (.dictionary entries, true)) ∨
      (∀ text mutable, client.heap.body? key ≠ some (.text text, mutable)) ∨
      ¬ client.heap.Live value →
      ∃ refusal, Heap.answer (.putEntry dictionary key value) client.heap =
        .error refusal client.heap) := by
  constructor
  · intro entries text mutable hbody hreach hkey hvalue
    obtain ⟨heap', entries', hrun, hput, hchanged⟩ :=
      h.heap_reachable.lawful.changed_putEntry hbody hkey hvalue
    refine ⟨heap', entries', hrun, hput, ?_⟩
    have hlive : ∀ other, heap'.Reaches client.owned other → heap'.Live other :=
      fun other => h.live_of_answer hrun rfl
    have hreach' : heap'.Reaches client.owned dictionary := hreach.of_changed hchanged hlive
    have hbody' : heap'.body? dictionary = some (.dictionary entries', true) := by
      rw [hchanged dictionary (hlive dictionary hreach'), if_pos rfl]
    refine ⟨hbody', ?_, fun handle hhandle => ⟨hlive handle hhandle, fun hne => ?_⟩⟩
    · exact hlive value (hreach'.tail ⟨.dictionary entries', true, hbody', hput.mem_children⟩)
    · rw [hchanged handle (hlive handle hhandle), if_neg hne]
  · exact Heap.refused_putEntry

/-- The client owns a text and a dictionary.  The dictionary holds an array under the text,
and nothing else holds the array, which alone holds another text. -/
def holding : Client where
  heap :=
    { slots := #[some { content := .text "key", count := 2 },
        some { content := .array #[.object 2], mutable := true },
        some { content := .text "inner" },
        some { content := .dictionary [(.object 0, .object 1)], mutable := true }] }
  owned := {.object 0, .object 3}

theorem holding_reachable : holding.Reachable := by
  let filled : Client := (((((({} : Client).step (.ask (.createText "key" false))).step
    (.ask (.create .array))).step (.ask (.createText "inner" false))).step
      (.ask (.append (.object 1) (.object 2)))).step (.ask (.create .dictionary))).step
        (.ask (.putEntry (.object 3) (.object 0) (.object 1)))
  have hfilled : filled.Reachable :=
    (((((Reachable.fresh.ask _).ask _).ask _).ask _).ask _).ask _
  let before : Heap :=
    { slots := #[some { content := .text "key", count := 2 },
        some { content := .array #[.object 2], mutable := true, count := 2 },
        some { content := .text "inner", count := 2 },
        some { content := .dictionary [(.object 0, .object 1)], mutable := true }] }
  let once : Heap :=
    { slots := #[some { content := .text "key", count := 2 },
        some { content := .array #[.object 2], mutable := true, count := 2 },
        some { content := .text "inner" },
        some { content := .dictionary [(.object 0, .object 1)], mutable := true }] }
  have hbefore : filled.heap = before := rfl
  have hfirst : before.release (.object 2) = once := by
    have hdrop : before.dropOne (.object 2) = (once, []) := rfl
    rw [Heap.release, Heap.releaseAll, hdrop, List.append_nil, Heap.releaseAll]
  have hsecond : once.release (.object 1) = holding.heap := by
    have hdrop : once.dropOne (.object 1) = (holding.heap, []) := rfl
    rw [Heap.release, Heap.releaseAll, hdrop, List.append_nil, Heap.releaseAll]
  have hreached : Reachable ((filled.step (.release (.object 2))).step (.release (.object 1))) :=
    (hfilled.step _ (by decide)).step _ (by decide)
  have hheap : ((filled.step (.release (.object 2))).step (.release (.object 1))).heap =
      holding.heap := by
    show (filled.heap.release (.object 2)).release (.object 1) = holding.heap
    rw [hbefore, hfirst, hsecond]
  have howned : ((filled.step (.release (.object 2))).step (.release (.object 1))).owned =
      holding.owned := by decide
  have hholding : (filled.step (.release (.object 2))).step (.release (.object 1)) = holding :=
    congrArg₂ Client.mk hheap howned
  exact hholding ▸ hreached

/-- The inner text takes the place of the array, with which all that led to it goes. -/
theorem Reachable.safe_putEntry_of_inner :
    ∃ heap', Heap.answer (.putEntry (.object 3) (.object 0) (.object 2)) holding.heap =
        .ok () heap' ∧
      heap'.body? (.object 3) = some (.dictionary [(.object 0, .object 2)], true) ∧
      heap'.Live (.object 2) := by
  have hkey : holding.heap.body? (.object 0) = some (.text "key", false) := rfl
  have hreach : holding.heap.Reaches holding.owned (.object 3) := .of_mem (by decide)
  obtain ⟨hput, -⟩ := holding_reachable.safe_putEntry (.object 3) (.object 0) (.object 2)
  obtain ⟨heap', entries', hrun, hentries, hbody', hlive', -⟩ :=
    hput [(.object 0, .object 1)] "key" false rfl hreach hkey rfl
  refine ⟨heap', hrun, ?_, hlive'⟩
  rw [hbody']
  cases hentries with
  | @replaced place stored old hplace _ _ =>
      match place with
      | 0 =>
          obtain ⟨rfl, -⟩ := Prod.mk.inj (Option.some.inj hplace)
          rfl
      | _ + 1 => exact nomatch hplace
  | added hnone =>
      exact absurd (Heap.textOf_eq_ok.mpr ⟨false, hkey⟩) (hnone _ (List.mem_singleton_self _))

end Client

end Marshal
