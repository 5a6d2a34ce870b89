import Marshal.Proofs.Heap.Clients

/-!
# What a refused request leaves behind

A request that is refused leaves the heap as it was, with one exception.  A copy
of a container, and the array of the members of a set, are created first, and
then a reference to each of their contents is counted.  When one of these is gone,
the request is refused, but the new object stays, and so do the references that
were counted before the one that is missing.  Whoever asked never learns the
handle of that object and cannot give it back.

`Heap.Strands` says when this happens, and `Heap.ends_answer_refused` what is left of
any refused request.

No container holds what is gone as long as nobody releases what is not owned, so
a client that keeps its account in order never sees this
(`Client.Reachable.request_unchanged`).
-/

namespace Marshal

namespace Heap

variable {heap heap' : Heap} {request : Request} {refusal : Refusal}

/-- The request puts these contents, taken from an existing object, into a new one. -/
def Gathers (heap : Heap) (request : Request) (content : Content) : Prop :=
  match request with
  | .copy kind handle => heap.containerOf kind handle = .ok content
  | .members set => ∃ members, heap.membersOf set = .ok members ∧ content = .array members.toArray
  | _ => False

/-- The request can create an object, and something that is gone would be among
what that object holds. -/
def Strands (heap : Heap) (request : Request) : Prop :=
  ∃ content, heap.Gathers request content ∧ heap.budget ≠ some 0 ∧
    ∃ child ∈ content.children, ¬ (heap.pushed { content }).Live child

/-- `heap'` has a new object that nobody owns, and counts its references to what
it holds up to the first one that leads nowhere. -/
def Leftover (heap : Heap) (request : Request) (heap' : Heap) : Prop :=
  ∃ content live dead rest, heap.Gathers request content ∧
    content.children = live ++ dead :: rest ∧
    (∀ child ∈ live, (heap.pushed { content }).Live child) ∧
    ¬ (heap.pushed { content }).Live dead ∧
    heap' = (heap.pushed { content }).retainedAll live

/-- What is gathered is held by some live object. -/
theorem Gathers.exists_body? {content : Content} (h : heap.Gathers request content) :
    ∃ handle source mutable, heap.body? handle = some (source, mutable) ∧
      content.children = source.children := by
  cases request with
  | copy kind handle =>
      obtain ⟨mutable, hbody, -⟩ := containerOf_eq_ok.mp h
      exact ⟨handle, content, mutable, hbody, rfl⟩
  | members set =>
      obtain ⟨members, hmembers, rfl⟩ := h
      obtain ⟨mutable, hbody⟩ := membersOf_eq_ok.mp hmembers
      exact ⟨set, .members members, mutable, hbody, List.toList_toArray⟩
  | _ => exact h.elim

/-- One object more was created than before. -/
theorem Leftover.size_eq (h : heap.Leftover request heap') :
    heap'.slots.size = heap.slots.size + 1 := by
  obtain ⟨content, live, dead, rest, -, -, -, -, rfl⟩ := h
  rw [size_retainedAll, size_pushed]

/-! ## Counting references up to one that leads nowhere -/

theorem ends_retainAll (handles : List Handle) {good : Unit → Heap → Prop}
    {bad : Refusal → Heap → Prop}
    (hgood : (∀ child ∈ handles, heap.Live child) → good () (heap.retainedAll handles))
    (hbad : ∀ live dead rest, handles = live ++ dead :: rest → (∀ child ∈ live, heap.Live child) →
      ¬ heap.Live dead → bad .invalidHandle (heap.retainedAll live)) :
    Ends (retainAll handles) heap good bad := by
  induction handles generalizing heap with
  | nil => exact ends_pure (hgood (by simp))
  | cons first rest ih =>
      by_cases hfirst : heap.Live first
      · refine ends_bind (ends_of_ok (retain_of_live hfirst) ?_)
        apply ih
        · intro hrest
          refine hgood fun child hchild => ?_
          rcases List.mem_cons.mp hchild with rfl | hmem
          · exact hfirst
          · exact live_retained.mp (hrest child hmem)
        · intro live dead rest' hsplit hlive hdead
          refine hbad (first :: live) dead rest' (by rw [hsplit, List.cons_append]) ?_
            fun h => hdead (live_retained.mpr h)
          intro child hchild
          rcases List.mem_cons.mp hchild with rfl | hmem
          · exact hfirst
          · exact live_retained.mp (hlive child hmem)
      · have hnone : heap.get? first = none := Option.not_isSome_iff_eq_none.mp hfirst
        have hrun : retain first heap = .error .invalidHandle heap := by
          simp only [retain, hnone]
        refine ends_bind (ends_of_error hrun ?_)
        exact hbad [] first rest rfl (by simp) hfirst

/-- What is known of a request that gathers some contents, when it is refused. -/
theorem ends_collect_refused {content : Content} (hgathered : heap.Gathers request content) :
    Ends (collect { content }) heap (fun _ _ => True) fun refusal heap' =>
      (¬ heap.Strands request ∧ heap' = heap) ∨
      (heap.Strands request ∧ refusal = .invalidHandle ∧ heap.Leftover request heap') := by
  by_cases hbudget : heap.budget = some 0
  · have hspent : ¬ heap.Strands request := fun ⟨_, _, hpos, _⟩ => hpos hbudget
    have hrefused : allocate { content } heap =
        .error (.allocationFailed ({ content } : Object).creationName) heap := by
      rw [allocate_eq, if_pos hbudget]
    exact ends_bind (ends_of_error hrefused (.inl ⟨hspent, rfl⟩))
  · have hcreated : allocate { content } heap =
        .ok (.object heap.slots.size) (heap.pushed { content }) := by
      rw [allocate_eq, if_neg hbudget]
    refine ends_bind (ends_of_ok hcreated (ends_bind ?_))
    apply ends_retainAll
    · exact fun _ => ends_pure trivial
    · intro live dead rest hsplit hlive hdead
      have hmem : dead ∈ content.children := by
        show dead ∈ ({ content } : Object).children
        rw [hsplit]
        simp
      exact .inr ⟨⟨content, hgathered, hbudget, dead, hmem, hdead⟩, rfl,
        content, live, dead, rest, hgathered, hsplit, hlive, hdead, rfl⟩

/-! ## Every request -/

theorem ends_answer_refused (heap : Heap) (request : Request) :
    Ends (answer request) heap (fun _ _ => True) fun refusal heap' =>
      (¬ heap.Strands request ∧ heap' = heap) ∨
      (heap.Strands request ∧ refusal = .invalidHandle ∧ heap.Leftover request heap') := by
  have hunchanged : ∀ {request}, (∀ content, ¬ heap.Gathers request content) →
      ∀ refusal : Refusal, (¬ heap.Strands request ∧ heap = heap) ∨
        (heap.Strands request ∧ refusal = .invalidHandle ∧ heap.Leftover request heap) :=
    fun hnone _ => .inl ⟨fun ⟨content, hgathered, _⟩ => hnone content hgathered, rfl⟩
  cases request with
  | copy kind handle =>
      refine ends_bind (ends_reading (fun content hcontent => ?_) fun refusal herror => ?_)
      · exact ends_collect_refused hcontent
      · refine hunchanged (fun content hgathered => ?_) refusal
        exact nomatch hgathered.symm.trans herror
  | members set =>
      refine ends_bind (ends_reading (fun members hmembers => ?_) fun refusal herror => ?_)
      · exact ends_collect_refused ⟨members, hmembers, rfl⟩
      · refine hunchanged (fun content hgathered => ?_) refusal
        obtain ⟨members, hmembers, -⟩ := hgathered
        exact nomatch hmembers.symm.trans herror
  -- nothing else gathers references for an object that is there before they are counted
  | retain handle => exact ends_retain (fun _ => trivial) fun _ => hunchanged (fun _ => id)
  | createText | createNumber | createData | create =>
      exact ends_allocate trivial fun refusal _ => hunchanged (fun _ => id) refusal
  | createCustom type bytes =>
      refine ends_bind (ends_reading (fun _ _ => ?_) fun refusal _ =>
        hunchanged (fun _ => id) refusal)
      exact ends_allocate trivial fun refusal _ => hunchanged (fun _ => id) refusal
  | append array item =>
      exact ends_append (fun _ _ _ _ _ => trivial) fun _ => hunchanged (fun _ => id)
  | addMember set member =>
      exact ends_addMember (fun _ _ _ _ _ _ => trivial) (fun _ _ _ _ _ _ _ _ => trivial)
        fun _ => hunchanged (fun _ => id)
  | putEntry dictionary key value =>
      exact ends_putEntry (fun _ _ _ _ _ _ _ _ _ => trivial)
        (fun _ _ _ _ _ _ _ _ _ _ _ _ => trivial) fun _ => hunchanged (fun _ => id)
  | appendIndex | addIndex | addPair =>
      exact ends_change (fun _ _ _ _ _ => trivial) fun _ => hunchanged (fun _ => id)
  | typeOf | textBytes | readNumber | readBoolean | dataBytes | count | itemAt | entries | indexAt
  | firstIndex | lastIndex | pairAt | customBytes =>
      exact ends_reading (fun _ _ => trivial) fun refusal _ => hunchanged (fun _ => id) refusal

/-- A refused request leaves the heap as it was, unless it strands an object.  Then
the handle that leads nowhere is blamed, and the new object stays. -/
theorem request_refused (h : answer request heap = .error refusal heap') :
    (heap' = heap ↔ ¬ heap.Strands request) ∧
      (heap.Strands request → refusal = .invalidHandle ∧ heap.Leftover request heap') := by
  rcases (ends_answer_refused heap request).of_error h with ⟨hnot, hsame⟩ | ⟨hstrands, hleft⟩
  · exact ⟨iff_of_true hsame hnot, fun hstrands => absurd hstrands hnot⟩
  · refine ⟨iff_of_false (fun hsame => ?_) (not_not_intro hstrands), fun _ => hleft⟩
    have hsize := hleft.2.size_eq
    rw [hsame] at hsize
    omega

/-- An array holds two texts, and the second one was released once more than it
was owned. -/
def overReleased : Heap where
  slots := #[none, some { content := .text "b", count := 2 },
    some { content := .array #[.object 1, .object 0], mutable := true }]

theorem overReleased_reachable : overReleased.Reachable := by
  let filled : Heap :=
    { slots := #[some { content := .text "a", count := 2 },
        some { content := .text "b", count := 2 },
        some { content := .array #[.object 1, .object 0], mutable := true }] }
  have hfilled : filled.Reachable :=
    ((((Reachable.fresh.step (.ask (.createText "a" false))).step
      (.ask (.createText "b" false))).step (.ask (.create .array))).step
      (.ask (.append (.object 2) (.object 1)))).step (.ask (.append (.object 2) (.object 0)))
  let once : Heap :=
    { slots := #[some { content := .text "a", count := 1 },
        some { content := .text "b", count := 2 },
        some { content := .array #[.object 1, .object 0], mutable := true }] }
  have hfirst : filled.release (.object 0) = once := by
    have hdrop : filled.dropOne (.object 0) = (once, []) := rfl
    rw [release, releaseAll, hdrop, List.append_nil, releaseAll]
  have hsecond : once.release (.object 0) = overReleased := by
    have hdrop : once.dropOne (.object 0) = (overReleased, []) := rfl
    rw [release, releaseAll, hdrop, List.append_nil, releaseAll]
  rw [← hsecond, ← hfirst]
  exact (hfilled.step (.release (.object 0))).step (.release (.object 0))

/-- The array can no longer be copied, but the copy is there, with one reference to
the text before the one that is gone. -/
theorem copy_of_overReleased :
    answer (.copy .array (.object 2)) overReleased = .error .invalidHandle
      { slots := #[none, some { content := .text "b", count := 3 },
          some { content := .array #[.object 1, .object 0], mutable := true },
          some { content := .array #[.object 1, .object 0] }] } := rfl

theorem request_refused_of_overReleased :
    ∃ refusal heap', answer (.copy .array (.object 2)) overReleased = .error refusal heap' ∧
      (heap' = overReleased ↔ ¬ overReleased.Strands (.copy .array (.object 2))) ∧
      (overReleased.Strands (.copy .array (.object 2)) →
        refusal = .invalidHandle ∧ overReleased.Leftover (.copy .array (.object 2)) heap') :=
  ⟨_, _, copy_of_overReleased, request_refused copy_of_overReleased⟩

/-- It is not so that a refused request leaves every heap as it was. -/
theorem refused_copy_creates :
    ¬ ∀ heap request refusal heap', Reachable heap →
      answer request heap = .error refusal heap' →
      (∀ handle, heap'.get? handle = heap.get? handle) ∧
        heap'.allocations = heap.allocations ∧ heap'.budget = heap.budget ∧
        heap'.deadReleases = heap.deadReleases := by
  intro h
  obtain ⟨-, hallocations, -⟩ := h _ _ _ _ overReleased_reachable copy_of_overReleased
  exact absurd hallocations (by decide)

end Heap

/-! ## Clients -/

/-- A client that releases only what it owns finds the heap as it was after every
refused request. -/
theorem Client.Reachable.request_unchanged {client : Client} (h : client.Reachable)
    {request : Request} {refusal : Refusal} {heap' : Heap}
    (hrun : Heap.answer request client.heap = .error refusal heap') : heap' = client.heap := by
  have hsettled : ¬ client.heap.Strands request := by
    rintro ⟨content, hgathered, -, child, hchild, hdead⟩
    obtain ⟨handle, source, mutable, hbody, hchildren⟩ := hgathered.exists_body?
    have hlive : client.heap.Live child :=
      h.closed handle source mutable hbody child (hchildren ▸ hchild)
    apply hdead
    rw [Heap.Live, Heap.get?_pushed_of_live hlive]
    exact hlive
  have hrefused := (Heap.ends_answer_refused client.heap request).of_error hrun
  rcases hrefused with ⟨-, hsame⟩ | ⟨hstrands, -⟩
  · exact hsame
  · exact absurd hstrands hsettled

end Marshal
