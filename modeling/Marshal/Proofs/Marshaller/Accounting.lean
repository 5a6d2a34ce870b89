import Mathlib.Logic.Relation
import Marshal.Converter.Ready
import Marshal.Proofs.Heap.Clients
import Marshal.Proofs.Heap.Follows
import Marshal.Proofs.Heap.Types
import Marshal.Proofs.Marshaller.Reading

/-!
# Clients that use marshallers

A client may leave some of the work on its heap to marshallers.  Whatever these do
goes on the account of the client: a conversion is one operation after another, none
of which gives back what is not owned, and in the end it has added the references to
the account that it hands over (`Accounts`).  So what is true of all clients is true
of those that use marshallers (`Client.Calls.runs`).

Converters are part of the client.  They may do with the heap what they like, as
long as they give back only what they own (`Marshaller.Honest`).
-/

namespace Marshal

/-! ## Runs of a client -/

namespace Client

variable {client client' : Client}

/-- The client performs one operation, which gives back only what it owns. -/
def Moves (client client' : Client) : Prop :=
  ∃ operation : Operation, ↑operation.released ≤ client.owned ∧ client' = client.step operation

/-- The client performs one operation after another. -/
def Runs : Client → Client → Prop := Relation.ReflTransGen Moves

theorem Runs.reachable (h : client.Runs client') (hclient : client.Reachable) :
    client'.Reachable := by
  induction h with
  | refl => exact hclient
  | tail _ hmoves ih =>
      obtain ⟨operation, howned, rfl⟩ := hmoves
      exact ih.step operation howned

/-- Whatever the heap was used for before, a run goes on from it. -/
theorem Runs.heap_reachable (h : client.Runs client') (hheap : client.heap.Reachable) :
    client'.heap.Reachable := by
  induction h with
  | refl => exact hheap
  | tail _ hmoves ih =>
      obtain ⟨operation, -, rfl⟩ := hmoves
      exact ih.step operation

theorem Runs.follows (h : client.Runs client') : Heap.Follows true client.heap client'.heap := by
  induction h with
  | refl => exact .refl _
  | tail _ hmoves ih =>
      obtain ⟨operation, -, rfl⟩ := hmoves
      exact ih.trans (.perform operation _)

theorem Runs.types_prefix (h : client.Runs client') :
    client.heap.types <+: client'.heap.types := by
  induction h with
  | refl => exact List.prefix_rfl
  | tail _ hmoves ih =>
      obtain ⟨operation, -, rfl⟩ := hmoves
      exact ih.trans (Heap.types_prefix_perform operation _)

/-- An operation that gives nothing back adds to the account what it grants. -/
theorem runs_of_perform {heap heap' : Heap} {granted : List Handle} (owned : Multiset Handle)
    (operation : Operation) (hreleased : operation.released = [])
    (hperform : operation.perform heap = (granted, heap')) :
    Runs ⟨heap, owned⟩ ⟨heap', ↑granted + owned⟩ := by
  apply Relation.ReflTransGen.single
  refine ⟨operation, ?_, ?_⟩
  · rw [hreleased]
    exact Multiset.zero_le owned
  · rw [step, hperform, hreleased, Multiset.coe_nil, tsub_zero, add_comm]

theorem runs_release (heap : Heap) (handle : Handle) (owned : Multiset Handle) :
    Runs ⟨heap, handle ::ₘ owned⟩ ⟨heap.release handle, owned⟩ := by
  apply Relation.ReflTransGen.single
  refine ⟨.release handle, ?_, ?_⟩
  · exact Multiset.singleton_le.mpr (Multiset.mem_cons_self handle owned)
  · show (⟨_, _⟩ : Client) = ⟨_, handle ::ₘ owned - ↑[handle] + ↑([] : List Handle)⟩
    rw [Multiset.coe_singleton, Multiset.coe_nil, add_zero, Multiset.sub_singleton,
      Multiset.erase_cons_head]
    rfl

end Client

/-! ## Actions on account -/

variable {α β : Type} {granted : α → List Handle}

/-- Whatever is owned at first, the action is a run of the client that owns it, and
adds to it what is granted. -/
def Accounts (granted : α → List Handle) (action : Action Heap α) : Prop :=
  ∀ heap owned, Ends action heap
    (fun a heap' => Client.Runs ⟨heap, owned⟩ ⟨heap', ↑(granted a) + owned⟩)
    fun _ heap' => Client.Runs ⟨heap, owned⟩ ⟨heap', owned⟩

/-- The action hands over the reference that it answers. -/
abbrev Hands (action : Action Heap Handle) : Prop := Accounts (fun handle => [handle]) action

/-- The action keeps no reference. -/
abbrev Borrows (action : Action Heap α) : Prop := Accounts (fun _ => []) action

theorem borrows_pure (a : α) : Borrows (pure a) := by
  intro heap owned
  apply ends_pure
  rw [Multiset.coe_nil, zero_add]
  exact .refl

theorem accounts_throw (failure : Failure) :
    Accounts granted (throw failure : Action Heap α) := by
  intro heap owned
  exact ends_throw .refl

theorem Accounts.bind {granted : β → List Handle} {x : Action Heap α} {f : α → Action Heap β}
    (hx : Borrows x) (hf : ∀ a, Accounts granted (f a)) : Accounts granted (x >>= f) := by
  intro heap owned
  refine ends_bind ((hx heap owned).mono (fun a heap' hruns => ?_) fun _ _ => id)
  rw [Multiset.coe_nil, zero_add] at hruns
  refine (hf a heap' owned).mono (fun _ _ hruns' => ?_) fun _ _ hruns' => ?_
  · exact hruns.trans hruns'
  · exact hruns.trans hruns'

section Stores

variable {store : Store Heap} (hstore : store.Fronts id)

include hstore

/-- A request is answered by the heap, or it is refused and nothing happens. -/
theorem accounts_ask (request : Request) : Accounts request.granted (store.ask request) := by
  intro heap owned
  have hanswers := hstore.answers request heap
  have hperform : (Operation.ask request).perform heap =
      Operation.attempted request.granted (Heap.answer request) heap := rfl
  refine ends_ask (ends_intro (fun a heap' hrun => ?_) fun refusal heap' hrun => ?_)
  · rw [hrun] at hanswers
    rcases hanswers with hseen | ⟨refusal, heap'', hrefusal, -⟩
    · have hanswer : Heap.answer request heap = .ok a heap' := hseen.symm
      rw [Operation.attempted, hanswer] at hperform
      exact Client.runs_of_perform owned _ rfl hperform
    · exact nomatch hrefusal
  · rw [hrun] at hanswers
    rcases hanswers with hseen | ⟨refusal', heap'', hrefusal, hview⟩
    · have hanswer : Heap.answer request heap = .error refusal heap' := hseen.symm
      rw [Operation.attempted, hanswer] at hperform
      have hruns := Client.runs_of_perform owned _ rfl hperform
      rwa [Multiset.coe_nil, zero_add] at hruns
    · obtain ⟨-, rfl⟩ := EStateM.Result.error.inj hrefusal
      obtain rfl : heap' = heap := hview
      exact .refl

theorem borrows_log {notice : Notice} (hnotice : notice ≠ .deadRelease) :
    Borrows (store.log notice) := by
  intro heap owned
  have hnote : store.note notice heap = heap.note notice := hstore.notes notice heap
  refine ends_modify ?_
  rw [hnote]
  exact Client.runs_of_perform owned (.log notice hnotice) rfl rfl

theorem Client.runs_give_back (heap : Heap) (handle : Handle) (owned : Multiset Handle) :
    Client.Runs ⟨heap, handle ::ₘ owned⟩ ⟨store.release handle heap, owned⟩ := by
  have hheap : store.release handle heap = heap.release handle := hstore.releases handle heap
  rw [hheap]
  exact Client.runs_release heap handle owned

/-- A reference that is used meanwhile is given back by whoever has it. -/
theorem Accounts.withReference {acquire : Action Heap Handle} {body : Handle → Action Heap α}
    (hacquire : Hands acquire) (hbody : ∀ handle, Accounts granted (body handle)) :
    Accounts granted (store.withReference acquire body) := by
  intro heap owned
  refine ends_withReference ((hacquire heap owned).mono (fun handle heap' hruns => ?_)
    fun _ _ => id)
  refine (hbody handle heap' (handle ::ₘ owned)).mono (fun a heap'' hruns' => ?_)
    fun _ heap'' hruns' => ?_
  · rw [Multiset.add_cons] at hruns'
    exact (hruns.trans hruns').trans (Client.runs_give_back hstore heap'' handle _)
  · exact (hruns.trans hruns').trans (Client.runs_give_back hstore heap'' handle owned)

theorem Accounts.building {acquire : Action Heap Handle} {fill : Handle → Action Heap Unit}
    (hacquire : Hands acquire) (hfill : ∀ handle, Borrows (fill handle)) :
    Hands (store.building acquire fill) := by
  intro heap owned
  refine ends_building ((hacquire heap owned).mono (fun handle heap' hruns => ?_) fun _ _ => id)
  refine (hfill handle heap' (handle ::ₘ owned)).mono (fun _ heap'' hruns' => ?_)
    fun _ heap'' hruns' => ?_
  · rw [Multiset.coe_nil, zero_add] at hruns'
    exact hruns.trans hruns'
  · exact (hruns.trans hruns').trans (Client.runs_give_back hstore heap'' handle owned)

end Stores

/-- The count of a boolean does not change. -/
theorem hands_boolean (b : Bool) : Hands (pure (.boolean b)) := by
  intro heap owned
  exact ends_pure (Client.runs_of_perform owned (.ask (.retain (.boolean b))) rfl rfl)

/-! ## Marshallers on account -/

/-- A marshaller in front of the heap.  Its converters hand over what they make, and
they keep no reference to what they read. -/
structure Marshaller.Honest (m : Marshaller Heap) : Prop where
  store : m.store.Fronts id
  lower : ∀ converter ∈ m.registry.converters, ∀ o, Hands (converter.lower m.store o)
  lift : ∀ converter ∈ m.registry.converters, ∀ handle, Borrows (converter.lift m.store handle)

/-- To share what an object wraps is honest. -/
theorem Marshaller.Fronts.honest {m : Marshaller Heap} (h : m.Fronts id) : m.Honest where
  store := h.store
  lower converter hmem o := by
    obtain rfl := h.registry converter hmem
    rw [Converter.handleBacked_lower]
    cases o.handle with
    | none => exact accounts_throw _
    | some handle =>
        intro heap owned
        refine ends_bind ((accounts_ask h.store (.retain handle) heap owned).mono
          (fun _ heap' hruns => ?_) fun _ _ => id)
        exact ends_pure hruns
  lift converter hmem handle := by
    obtain rfl := h.registry converter hmem
    exact borrows_pure _

namespace Marshaller.Honest

variable {m : Marshaller Heap} (h : m.Honest)

include h

theorem makes :
    m.Makes (fun _ => True) Hands Hands fun fill => ∀ handle, Borrows (fill handle) where
  parts _ := ⟨trivial, trivial⟩
  failed := accounts_throw
  boolean := hands_boolean
  number number := accounts_ask h.store (.createNumber number)
  text text := accounts_ask h.store (.createText text false)
  bytes bytes := accounts_ask h.store (.createData bytes false)
  object o _ := by
    unfold Registry.lower
    cases hfind : m.registry.find? o with
    | none => exact accounts_throw _
    | some converter =>
        obtain ⟨_, _, hfound⟩ := List.exists_of_findSome?_eq_some hfind
        exact h.lower converter (List.mem_of_find?_eq_some hfound) o
  refused := accounts_throw
  building kind _ hfill := (accounts_ask h.store (.create kind)).building h.store hfill
  sealed kind _ hstaged :=
    hstaged.withReference h.store fun handle => accounts_ask h.store (.copy kind handle)
  idle _ := borrows_pure _
  seq hfirst hsecond container := (hfirst container).bind fun _ => hsecond container
  append hitem array :=
    hitem.withReference h.store fun handle => accounts_ask h.store (.append array handle)
  addMember hmember set :=
    hmember.withReference h.store fun handle => accounts_ask h.store (.addMember set handle)
  putEntry hkey hvalue dictionary :=
    hkey.withReference h.store fun keyHandle =>
      hvalue.withReference h.store fun valueHandle =>
        accounts_ask h.store (.putEntry dictionary keyHandle valueHandle)
  appendIndex value array := accounts_ask h.store (.appendIndex array value)
  addIndex value set := accounts_ask h.store (.addIndex set value)
  addPair index value set := accounts_ask h.store (.addPair set index value)

theorem admits : m.Admits Borrows where
  pure := borrows_pure
  throw := accounts_throw
  bind hx hf := hx.bind hf
  ask {request} hlooks := by
    have hask := accounts_ask h.store request
    cases request <;> first | exact hask | exact nomatch hlooks
  log hnotice := borrows_log h.store hnotice
  withMembers set _ hbody := (accounts_ask h.store (.members set)).withReference h.store hbody
  lift := h.lift

/-- Every conversion hands over a reference and does nothing else to the account. -/
theorem hands_run (conversion : Conversion) : Hands (conversion.run m) :=
  h.makes.run id (fun text => accounts_ask h.store (.createText text true))
    (fun bytes => accounts_ask h.store (.createData bytes true)) conversion trivial

/-- Every reader leaves the account as it is. -/
theorem borrows_run (reading : Reading) : Borrows (reading.run m) := h.admits.run reading

end Marshaller.Honest

/-! ## Calls -/

namespace Client

variable {client client' : Client}

/-- The client after an action, with what the answer grants. -/
def after (client : Client) (action : Action Heap α) (granted : α → List Handle) : Client :=
  match action client.heap with
  | .ok a heap => ⟨heap, ↑(granted a) + client.owned⟩
  | .error _ heap => ⟨heap, client.owned⟩

/-- What a client may do: perform an operation that gives back only what it owns, or
have a marshaller convert or read something. -/
inductive Calls (client : Client) : Client → Prop
  | operation (operation : Operation) : ↑operation.released ≤ client.owned →
      Calls client (client.step operation)
  | convert {m : Marshaller Heap} : m.Honest → ∀ conversion : Conversion,
      Calls client (client.after (conversion.run m) fun handle => [handle])
  | read {m : Marshaller Heap} : m.Honest → ∀ reading : Reading,
      Calls client (client.after (reading.run m) fun _ => [])

theorem runs_after {action : Action Heap α} (h : Accounts granted action) :
    client.Runs (client.after action granted) := by
  have hends := h client.heap client.owned
  unfold after
  cases hrun : action client.heap with
  | ok a heap => exact hends.of_ok hrun
  | error failure heap => exact hends.of_error hrun

/-- Whatever is called is a run of operations. -/
theorem Calls.runs (h : client.Calls client') : client.Runs client' := by
  cases h with
  | operation operation howned => exact .single ⟨operation, howned, rfl⟩
  | convert hm conversion => exact runs_after (hm.hands_run conversion)
  | read hm reading => exact runs_after (hm.borrows_run reading)

theorem runs_of_calls (h : Relation.ReflTransGen Calls client client') : client.Runs client' := by
  induction h with
  | refl => exact .refl
  | tail _ hcalls ih => exact ih.trans hcalls.runs

end Client

end Marshal
