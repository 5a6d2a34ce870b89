import Marshal.Proofs.Heap.Resolving
import Marshal.Proofs.Marshaller.Picturing
import Marshal.Proofs.Marshaller.Shape

/-!
# Wrapped objects are shared

Where converters only share, a domain object is not copied.  After its value was lowered, the
object that it wraps has one reference more for each time that it occurs in the normal form of
the value, whatever was taken and given back on the way, and is what it was otherwise.  What is
read back is the normal form, with what is wrapped read in its place
(`Heap.Reachable.shared_of_lower`).
-/

namespace Marshal

variable {m : Marshaller Heap} {heap heap' : Heap} {handle : Handle} {v : Value}

theorem Registry.SharesOnly.claimant?_eq_none {registry : Registry Heap} (h : registry.SharesOnly)
    (name : String) : registry.claimant? name = none := by
  refine List.findIdx?_eq_none_iff.mpr fun converter hmem => ?_
  rw [h converter hmem]
  rfl

/-- A domain object is lowered only if it is retained. -/
theorem Marshaller.Sharing.tells_object (h : m.Sharing) (o : DomainObject) :
    Tells (m.registry.lower m.store o) (m.Retains o) := by
  rcases h.registry.lower_cases m.store o with ⟨handle, hhandle, heq⟩ | ⟨failure, heq⟩
  · exact tells_of_true ⟨handle, hhandle, heq⟩
  · rw [heq]
    exact tells_throw failure

/-- What has a picture is read as that. -/
theorem Marshaller.Direct.recovers_of_picture? (h : m.Direct) (hcoherent : heap.Coherent)
    (hpicture : heap.picture? m.window m.limits.maxDepth handle = some v) :
    Form.value.Recovers m heap handle v := by
  intro budget
  have hdepicts :=
    h.depicts_within m.limits.maxDepth _ handle (hcoherent.setBudget budget) False.elim
  rw [Heap.picture?_setBudget, hpicture] at hdepicts
  refine hdepicts.mono ?_ ?_
  · rintro w after ⟨hw, -⟩
    exact (Option.some.inj hw).symm
  · rintro failure after (hshort | ⟨hnone, -⟩)
    · exact hshort
    · exact nomatch hnone

namespace Heap.Reachable

variable {start : Heap} {registry : Registry Heap} {limits : Limits} {root : Handle}

/-- A conversion leads from one reachable heap to another. -/
theorem lowered (hheap : heap.Reachable) (hm : m.Sharing) (hrun : m.lower v heap = .ok root heap') :
    heap'.Reachable := by
  have hruns := (hm.fronts.honest.hands_run (.value v) heap 0).of_ok hrun
  exact hruns.heap_reachable hheap

/-- What domain objects wrap is shared, with one reference for each of them in the normal form,
and read in their place. -/
theorem shared_of_lower (hheap : heap.Reachable) (hstart : start.Reachable)
    (hregistry : registry.SharesOnly) (hbare : v.bareSets)
    (hwrapped : ∀ handle ∈ v.wrapped, heap.Live handle)
    (hrun : (Marshaller.make Heap.store start registry limits).lower v heap = .ok root heap') :
    let m := Marshaller.make Heap.store start registry limits
    (∀ index o, heap.get? (.object index) = some o →
      heap'.get? (.object index) =
        some { o with count := o.count + v.normal.wrapped.count (.object index) }) ∧
    ∀ budget w after, m.lift (some root) (heap'.setBudget budget) = .ok w after →
      ∃ read : Handle → Value, w = v.normal.resolved read ∧
        ∀ handle ∈ v.normal.wrapped, Form.value.Recovers m heap' handle (read handle) := by
  intro m
  have hm : m.Sharing := ⟨⟨rfl⟩, hregistry⟩
  have hdirect : m.Direct := hstart.direct limits hregistry.claimant?_eq_none
  have hstorable : v.Storable m.Retains m.limits.maxDepth :=
    (Marshaller.tells_storable hm.tells_object m.limits.maxDepth v heap).of_ok hrun
  have hkept : heap.Provides heap.Live := fun _ => id
  have hbears := (hm.ends_bears hheap.positive hkept hstorable hbare hwrapped).of_ok hrun
  refine ⟨fun index o ho => hbears.get?_old ho, fun budget w after hread => ?_⟩
  have hcoherent : heap'.Coherent := (hheap.lowered hm hrun).coherent
  have hpicture := hdirect.picture?_of_lift (hcoherent.setBudget budget) hread
  rw [picture?_setBudget] at hpicture
  let read handle := (heap'.picture? m.window m.limits.maxDepth handle).getD .null
  have hpictured : ∀ handle v, heap'.picture? m.window m.limits.maxDepth handle = some v →
      read handle = v := by
    intro handle v hsome
    show (heap'.picture? m.window m.limits.maxDepth handle).getD .null = v
    rw [hsome, Option.getD_some]
  have hresolves := hbears.stands.resolve hpictured le_rfl hpicture
  exact ⟨read, hresolves.eq, fun handle hmem =>
    hdirect.recovers_of_picture? hcoherent (hresolves.pictured handle hmem)⟩

/-- A text is wrapped three times, but one of these times in a value that is replaced. -/
theorem shared_of_lower_repeated :
    let old : Heap := ((Operation.ask (.createText "shared" false)).perform {}).2
    let m : Marshaller Heap := .make Heap.store {} ⟨[.handleBacked]⟩ {}
    let wrapper : Value := .object ⟨"Wrapper", some { handle := some (.object 0) }, none⟩
    let v : Value := .dict [(.text "k", wrapper), (.text "k", .list [wrapper, wrapper])]
    ∃ root heap', m.lower v old = .ok root heap' ∧ heap'.count? (.object 0) = some 3 ∧
      ∀ budget w after, m.lift (some root) (heap'.setBudget budget) = .ok w after →
        ∃ x, w = .dict [(.text "k", .list [x, x])] ∧ Form.value.Recovers m heap' (.object 0) x := by
  intro old m wrapper v
  have hold : old.Reachable := fresh.step _
  have hregistry : m.registry.SharesOnly := fun converter hmem => List.mem_singleton.mp hmem
  have hm : m.Sharing := ⟨⟨rfl⟩, hregistry⟩
  have hwrapped : ∀ handle ∈ v.wrapped, old.Live handle := by
    intro handle hmem
    obtain rfl : handle = .object 0 := by
      simpa [v, wrapper, Value.wrapped, Value.wrappedUnder, Value.wrappedIn, DomainObject.handle]
        using hmem
    rfl
  have hnormal : v.normal = .dict [(.text "k", .list [wrapper, wrapper])] := by
    have hsame : (Value.text "k" == Value.text "k") = true := by
      show Value.equals _ _ = true
      simp [Value.equals]
    show Value.dict (Value.put _ _ (Value.put _ _ [])) = _
    simp [Value.put, Value.textual, Value.keyText, Value.normal, Value.normalAll, hsame, wrapper]
  have hwrapper : ∀ room, wrapper.Storable m.Retains room := fun _ => .object ⟨.object 0, rfl, rfl⟩
  have hstorable : v.Storable m.Retains 256 := by
    refine .dict (fun entry hentry => ?_) fun entry hentry => ?_
    · rcases List.mem_pair.mp hentry with rfl | rfl <;> exact ⟨"k", rfl⟩
    · rcases List.mem_pair.mp hentry with rfl | rfl
      · exact hwrapper _
      · refine .list fun item hitem => ?_
        rcases List.mem_pair.mp hitem with rfl | rfl <;> exact hwrapper _
  have hkept : old.Provides old.Live := fun _ => id
  have hends := (hstorable.delivers hm rfl hwrapped).ends hold.positive hkept
  cases hrun : m.lower v old with
  | error failure heap' => exact absurd rfl (hends.of_error hrun).1
  | ok root heap' =>
      obtain ⟨hcounts, hreads⟩ := shared_of_lower hold fresh hregistry rfl hwrapped hrun
      rw [hnormal] at hcounts hreads
      refine ⟨root, heap', rfl, count?_of_get? (hcounts 0 _ rfl), fun budget w after hread => ?_⟩
      obtain ⟨read, rfl, hrecovers⟩ := hreads budget w after hread
      exact ⟨read (.object 0), rfl, hrecovers _ (List.mem_cons_self ..)⟩

end Heap.Reachable

end Marshal
