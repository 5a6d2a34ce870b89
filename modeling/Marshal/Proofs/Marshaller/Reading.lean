import Mathlib.Data.List.Forall2
import Marshal.Marshaller.Lifting
import Marshal.Proofs.Marshaller.Conserving

/-!
# Reading leaves the objects alone

A `Reading` is one of the ways to read a stored object, and `Reading.run` does it
by a marshaller.

Readers only look, with one exception: to read a set they have its members
collected in an array, which they give up again.  Which of these steps they take depends
on the answers only.  So what relates the steps through one store to those through
another, and is handed on from step to step, relates every reader to its counterpart
(`Marshaller.Relates.run`).  On the diagonal this is about a single store: what holds of
the steps holds of every reader (`Marshaller.Admits.run`).

With that, whatever a reader is given, dead or alive, it leaves owned what was owned, as
long as no old object holds what is gone (`Marshaller.Fronts.reads_run`).
-/

namespace Marshal

/-- A way to read a stored object. -/
inductive Reading where
  | value (handle : Option Handle)
  | list (array : Handle)
  | dict (dictionary : Handle)
  | set (set : Handle)
  | indexArray (array : Handle)
  | indexSet (set : Handle)
  | pairs (set : Handle)
  | text (handle : Handle)
  | number (handle : Handle)
  | bool (handle : Handle)
  | bytes (handle : Handle)
  | packed (layout : Layout) (handle : Handle)
  | kind (handle : Handle)

namespace Reading

/-- What a reader answers. -/
abbrev Answer : Reading → Type
  | value _ | number _ => Value
  | list _ | set _ => List Value
  | dict _ => List (Value × Value)
  | indexArray _ | indexSet _ => List Int64
  | pairs _ => List (Int64 × Int64)
  | text _ => String
  | bool _ => Bool
  | bytes _ => List UInt8
  | packed layout _ => List layout.Carrier
  | kind _ => Kind

/-- Reads the object. -/
def run {σ : Type} (m : Marshaller σ) : (reading : Reading) → Action σ reading.Answer
  | value handle => m.lift handle
  | list array => m.liftList array
  | dict dictionary => m.liftDict dictionary
  | set members => m.liftSet members
  | indexArray array => m.liftIndexArray array
  | indexSet members => m.liftIndexSet members
  | pairs members => m.liftPairs members
  | text handle => m.store.liftText handle
  | number handle => m.store.liftNumber handle
  | bool handle => m.store.liftBool handle
  | bytes handle => m.store.liftBytes handle
  | packed layout handle => m.store.liftPacked layout handle
  | kind handle => m.identify handle

end Reading

/-! ## Requests that only look -/

/-- A request that changes nothing, whatever comes of it. -/
def Request.looks : Request → Bool
  | typeOf _ | textBytes _ | readNumber _ | readBoolean _ | dataBytes _ | count _ _ | itemAt _ _
  | entries _ _ _ | indexAt _ _ | firstIndex _ | lastIndex _ | pairAt _ _ | customBytes _ => true
  | _ => false

theorem Heap.keeps_of_looks {request : Request} (hlooks : request.looks) (P : Heap → Prop) :
    Keeps P (Heap.answer request) := by
  intro heap h
  cases request with
  | typeOf | textBytes | readNumber | readBoolean | dataBytes | count | itemAt | entries | indexAt
  | firstIndex | lastIndex | pairAt | customBytes => exact ends_reading (fun _ _ => h) fun _ _ => h
  | _ => exact nomatch hlooks

variable {σ τ α : Type} {view : σ → Heap} {base : Heap} {owned : Multiset Handle}

section Stores

variable {store : Store σ} (hstore : store.Fronts view)

include hstore

theorem Store.Fronts.keeps_looking {request : Request} (hlooks : request.looks) (P : Heap → Prop) :
    Keeps (fun s => P (view s)) (store.ask request) := fun _ hs =>
  hstore.ends_ask (Heap.keeps_of_looks hlooks P _ hs) hs

/-- What is logged by readers is no release in vain. -/
theorem Store.Fronts.keeps_log {notice : Notice} (hnotice : notice ≠ .deadRelease) :
    Keeps (fun s => Heap.Grows base 0 (view s) owned) (store.log notice) := by
  intro s hs
  refine ends_modify ?_
  rw [hstore.notes]
  exact hs.note hnotice

end Stores

/-! ## What readers consist of -/

/-- `R` relates the steps that the readers of two marshallers consist of, and sequences of
related steps.  A set is read through an array of its members, and the objects of a claimed
type by a converter. -/
structure Marshaller.Relates (m : Marshaller σ) (m' : Marshaller τ)
    (R : ∀ {α : Type}, Action σ α → Action τ α → Prop) : Prop where
  types_eq : m'.types = m.types
  limits_eq : m'.limits = m.limits
  pure : ∀ {α : Type} (a : α), R (pure a : Action σ α) (pure a)
  throw : ∀ {α : Type} (failure : Failure), R (throw failure : Action σ α) (throw failure)
  bind : ∀ {α β : Type} {x : Action σ α} {x' : Action τ α} {f : α → Action σ β}
    {f' : α → Action τ β}, R x x' → (∀ a, R (f a) (f' a)) → R (x >>= f) (x' >>= f')
  ask : ∀ {request : Request}, request.looks → R (m.store.ask request) (m'.store.ask request)
  log : ∀ {notice : Notice}, notice ≠ .deadRelease → R (m.store.log notice) (m'.store.log notice)
  withMembers : ∀ {α : Type} (set : Handle) {body : Handle → Action σ α}
    {body' : Handle → Action τ α}, (∀ array, R (body array) (body' array)) →
    R (m.store.withReference (m.store.ask (.members set)) body)
      (m'.store.withReference (m'.store.ask (.members set)) body')
  lift : List.Forall₂ (fun converter converter' => ∀ handle,
    R (converter.lift m.store handle) (converter'.lift m'.store handle))
    m.registry.converters m'.registry.converters

namespace Marshaller.Relates

variable {m : Marshaller σ} {m' : Marshaller τ} {R : ∀ {α : Type}, Action σ α → Action τ α → Prop}
  (h : m.Relates m' R)

include h

theorem map {β : Type} {x : Action σ α} {x' : Action τ α} (hx : R x x') (f : α → β) :
    R (f <$> x) (f <$> x') := by
  rw [map_eq_pure_bind, map_eq_pure_bind]
  exact h.bind hx fun _ => h.pure _

theorem mapM {β : Type} {f : α → Action σ β} {f' : α → Action τ β} {items : List α}
    (hf : ∀ a, R (f a) (f' a)) : R (items.mapM f) (items.mapM f') := by
  induction items with
  | nil => exact h.pure _
  | cons a items ih =>
      rw [List.mapM_cons, List.mapM_cons]
      exact h.bind (hf a) fun b => h.bind ih fun bs => h.pure _

theorem toAction (r : Result α) : R (r.toAction : Action σ α) r.toAction := by
  cases r with
  | ok a => exact h.pure a
  | error failure => exact h.throw failure

theorem kind (handle : Handle) : R (m.identify handle) (m'.identify handle) := by
  unfold identify
  rw [h.types_eq]
  exact h.bind (h.ask rfl) fun _ => h.pure _

/-! ### Scalars -/

theorem text (handle : Handle) : R (m.store.liftText handle) (m'.store.liftText handle) := by
  refine h.bind (h.ask rfl) fun slices => ?_
  cases List.getLast? slices with
  | none => exact h.throw _
  | some bytes =>
      dsimp only
      cases Utf8.decode bytes with
      | ok text => exact h.pure text
      | error fault => exact h.throw _

theorem number (handle : Handle) : R (m.store.liftNumber handle) (m'.store.liftNumber handle) :=
  h.bind (h.ask rfl) fun number => h.toAction (Store.numberValue number)

theorem bool (handle : Handle) : R (m.store.liftBool handle) (m'.store.liftBool handle) :=
  h.ask rfl

theorem bytes (handle : Handle) : R (m.store.liftBytes handle) (m'.store.liftBytes handle) :=
  h.bind (h.ask rfl) fun _ => h.pure _

theorem packed (layout : Layout) (handle : Handle) :
    R (m.store.liftPacked layout handle) (m'.store.liftPacked layout handle) := by
  refine h.bind (h.ask rfl) fun slices => ?_
  cases List.getLast? slices with
  | none => exact h.throw _
  | some bytes =>
      dsimp only
      cases layout.unpack? bytes with
      | some values => exact h.pure values
      | none => exact h.throw _

/-! ### Containers of integers -/

theorem indexArray (array : Handle) : R (m.liftIndexArray array) (m'.liftIndexArray array) :=
  h.bind (h.ask rfl) fun _ => h.mapM fun _ => h.ask rfl

theorem indexSet (set : Handle) : R (m.liftIndexSet set) (m'.liftIndexSet set) := by
  refine h.bind (h.ask rfl) fun count => h.bind (h.ask rfl) fun first? =>
    h.bind (h.ask rfl) fun last? => ?_
  match first?, last? with
  | none, _ => exact h.pure _
  | some _, none => exact h.pure _
  | some first, some last =>
      by_cases hone : count = 1
      · simp only [if_pos hone]
        exact h.pure _
      · simp only [if_neg hone]
        by_cases hdense : last.toInt - first.toInt + 1 = count
        · simp only [if_pos hdense]
          exact h.pure _
        · simp only [if_neg hdense]
          exact h.bind (h.log nofun) fun _ => h.pure _

theorem probe (set : Handle) (window index missing : Nat) :
    R (m.probe set window index missing) (m'.probe set window index missing) := by
  induction window generalizing index missing with
  | zero => exact h.pure _
  | succ window ih =>
      cases missing with
      | zero => exact h.pure _
      | succ missing =>
          refine h.bind (h.ask rfl) fun value? => ?_
          cases value? with
          | some value => exact h.bind (ih _ _) fun _ => h.pure _
          | none => exact ih _ _

theorem pairs (set : Handle) : R (m.liftPairs set) (m'.liftPairs set) := by
  have hwindow : m'.window = m.window := by rw [window, window, h.limits_eq]
  unfold liftPairs
  rw [hwindow, h.limits_eq]
  refine h.bind (h.ask rfl) fun count => h.bind (h.probe set _ _ _) fun pairs => ?_
  by_cases hmissing : pairs.length < count
  · simp only [if_pos hmissing]
    exact h.bind (h.log nofun) fun _ => h.pure _
  · simp only [if_neg hmissing]
    exact h.pure _

/-! ### Containers of objects -/

section Containers

variable {element : Handle → Action σ Value} {element' : Handle → Action τ Value}
  (helement : ∀ handle, R (element handle) (element' handle))

include helement

theorem array (array : Handle) : R (m.readArray element array) (m'.readArray element' array) := by
  refine h.bind (h.ask rfl) fun count => h.mapM fun index => ?_
  exact h.bind (h.ask rfl) fun item => helement item

theorem dictionary (dictionary : Handle) :
    R (m.readDictionary element dictionary) (m'.readDictionary element' dictionary) := by
  refine h.bind (h.ask rfl) fun count => h.bind (h.ask rfl) fun slots => h.mapM fun entry => ?_
  match entry with
  | (some key, some value) =>
      exact h.bind (helement key) fun _ => h.bind (helement value) fun _ => h.pure _
  | (none, _) => exact h.throw _
  | (some _, none) => exact h.throw _

theorem set (set : Handle) : R (m.readSet element set) (m'.readSet element' set) :=
  h.withMembers set fun array => h.array helement array

end Containers

section Levels

variable {element? : Option (Handle → Action σ Value)}
  {element'? : Option (Handle → Action τ Value)}
  (helement : Option.Rel (fun element element' => ∀ handle, R (element handle) (element' handle))
    element? element'?)

include helement

theorem deeper {read : (Handle → Action σ Value) → Action σ α}
    {read' : (Handle → Action τ Value) → Action τ α}
    (hread : ∀ element element', (∀ handle, R (element handle) (element' handle)) →
      R (read element) (read' element')) :
    R (m.deeper element? read) (m'.deeper element'? read') := by
  cases helement with
  | none =>
      have htooDeep : m'.tooDeep = m.tooDeep := by rw [tooDeep, tooDeep, h.limits_eq]
      unfold Marshaller.deeper
      rw [htooDeep]
      exact h.throw _
  | some hrelated => exact hread _ _ hrelated

/-! ### Objects -/

theorem object (handle : Handle) :
    R (m.liftObject element? handle) (m'.liftObject element'? handle) := by
  refine h.bind (h.kind handle) fun kind => ?_
  cases kind with
  | standard type =>
      cases type with
      | text => exact h.map (h.text handle) _
      | number => exact h.number handle
      | boolean => exact h.map (h.bool handle) _
      | data => exact h.map (h.bytes handle) _
      | container kind mutable =>
          cases kind with
          | array => exact h.map (h.deeper helement fun _ _ hread => h.array hread handle) _
          | dictionary =>
              exact h.map (h.deeper helement fun _ _ hread => h.dictionary hread handle) _
          | valueSet => exact h.map (h.deeper helement fun _ _ hread => h.set hread handle) _
          | indexArray => exact h.map (h.indexArray handle) _
          | indexSet => exact h.map (h.indexSet handle) _
          | pairSet => exact h.map (h.pairs handle) _
  | extension place =>
      obtain ⟨hlength, hlift⟩ := List.forall₂_iff_get.mp h.lift
      dsimp only
      by_cases hplace : place < m.registry.converters.length
      · rw [List.getElem?_eq_getElem hplace, List.getElem?_eq_getElem (hlength ▸ hplace)]
        exact hlift place hplace (hlength ▸ hplace) handle
      · rw [List.getElem?_eq_none (by omega), List.getElem?_eq_none (by omega)]
        exact h.pure _
  | unknown id => exact h.pure _

end Levels

theorem within (room : Nat) (handle : Handle) :
    R (m.liftWithin room handle) (m'.liftWithin room handle) := by
  induction room generalizing handle with
  | zero => exact h.object .none handle
  | succ room ih => exact h.object (.some ih) handle

theorem element? (room : Nat) :
    Option.Rel (fun element element' => ∀ handle, R (element handle) (element' handle))
      (m.element? room) (m'.element? room) := by
  cases room with
  | zero => exact .none
  | succ room => exact .some (h.within room)

/-- Every reader consists of such steps. -/
theorem run (reading : Reading) : R (reading.run m) (reading.run m') := by
  have hroom : Option.Rel
      (fun element element' => ∀ handle, R (element handle) (element' handle))
      (m.element? m.limits.maxDepth) (m'.element? m'.limits.maxDepth) := by
    rw [h.limits_eq]
    exact h.element? _
  cases reading with
  | value handle =>
      cases handle with
      | none => exact h.pure _
      | some handle =>
          show R (m.liftWithin _ handle) (m'.liftWithin m'.limits.maxDepth handle)
          rw [h.limits_eq]
          exact h.within _ handle
  | list array => exact h.deeper hroom fun _ _ hread => h.array hread array
  | dict dictionary => exact h.deeper hroom fun _ _ hread => h.dictionary hread dictionary
  | set set => exact h.deeper hroom fun _ _ hread => h.set hread set
  | indexArray array => exact h.indexArray array
  | indexSet set => exact h.indexSet set
  | pairs set => exact h.pairs set
  | text handle => exact h.text handle
  | number handle => exact h.number handle
  | bool handle => exact h.bool handle
  | bytes handle => exact h.bytes handle
  | packed layout handle => exact h.packed layout handle
  | kind handle => exact h.kind handle

end Marshaller.Relates

/-- `P` holds of the steps that readers consist of, and of any sequence of them. -/
structure Marshaller.Admits (m : Marshaller σ) (P : ∀ {α : Type}, Action σ α → Prop) : Prop where
  pure : ∀ {α : Type} (a : α), P (pure a : Action σ α)
  throw : ∀ {α : Type} (failure : Failure), P (throw failure : Action σ α)
  bind : ∀ {α β : Type} {x : Action σ α} {f : α → Action σ β},
    P x → (∀ a, P (f a)) → P (x >>= f)
  ask : ∀ {request : Request}, request.looks → P (m.store.ask request)
  log : ∀ {notice : Notice}, notice ≠ .deadRelease → P (m.store.log notice)
  withMembers : ∀ {α : Type} (set : Handle) {body : Handle → Action σ α},
    (∀ array, P (body array)) → P (m.store.withReference (m.store.ask (.members set)) body)
  lift : ∀ converter ∈ m.registry.converters, ∀ handle, P (converter.lift m.store handle)

namespace Marshaller.Admits

variable {m : Marshaller σ} {P : ∀ {α : Type}, Action σ α → Prop} (h : m.Admits P)

include h

theorem relates : m.Relates m fun x _ => P x where
  types_eq := rfl
  limits_eq := rfl
  pure := h.pure
  throw := h.throw
  bind := h.bind
  ask := h.ask
  log := h.log
  withMembers set _ _ hbody := h.withMembers set hbody
  lift := List.forall₂_same.mpr h.lift

theorem run (reading : Reading) : P (reading.run m) := h.relates.run reading

end Marshaller.Admits

/-! ## Readers keep references -/

/-- Whatever is owned, a reader leaves it at that. -/
def Reads (view : σ → Heap) (base : Heap) (x : Action σ α) : Prop :=
  ∀ owned, Keeps (fun s => Heap.Grows base 0 (view s) owned) x

namespace Marshaller.Fronts

variable {m : Marshaller σ} (h : m.Fronts view)

include h

/-- The array of the members is owned as long as it is read. -/
theorem reads_withMembers (hclosed : base.Closed) (set : Handle) {body : Handle → Action σ α}
    (hbody : ∀ array, Reads view base (body array)) :
    Reads view base (m.store.withReference (m.store.ask (.members set)) body) := by
  intro owned s hs
  have hmembers : Ends (m.store.ask (.members set)) s
      (fun array s' => Heap.Grows base (array ::ₘ 0) (view s') owned)
      fun _ s' => Heap.Grows base 0 (view s') owned :=
    h.store.ends_ask (hs.ends_members hclosed rfl) hs
  refine ends_withReference (hmembers.mono (fun array s' hs' => ?_) fun _ _ => id)
  refine (hbody array _ s' hs'.finish).mono (fun _ s'' hs'' => ?_) fun _ s'' hs'' => ?_
  · rw [h.store.releases]
    exact hs''.release
  · rw [h.store.releases]
    exact hs''.release

theorem admits_reads (hclosed : base.Closed) : m.Admits (Reads view base) where
  pure a _ := keeps_pure a
  throw failure _ := keeps_throw failure
  bind hx hf owned := (hx owned).bind fun a => hf a owned
  ask hlooks owned := h.store.keeps_looking hlooks fun heap => Heap.Grows base 0 heap owned
  log hnotice _ := h.store.keeps_log hnotice
  withMembers set _ hbody := h.reads_withMembers hclosed set hbody
  lift converter hmem handle := by
    -- converters that only share read nothing
    obtain rfl := h.registry converter hmem
    exact fun _ => keeps_pure _

/-- Every reader leaves owned what was owned. -/
theorem reads_run (hclosed : base.Closed) (reading : Reading) :
    Reads view base (reading.run m) := (h.admits_reads hclosed).run reading

end Marshaller.Fronts

end Marshal
