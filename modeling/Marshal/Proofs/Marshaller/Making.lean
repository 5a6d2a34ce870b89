import Marshal.Proofs.Marshaller.Conversion

/-!
# What lowering consists of

Every conversion is put together from a few steps: objects that hold nothing are
created, a container is created and filled step by step, and what was filled is
sealed.  `Marshaller.Makes Q L C F` says that `L` holds of the actions that make a
finished object, `C` of those that make a container still to be sealed, and `F` of
those that fill one, as far as they are single steps, and that they are handed on
from the parts to the whole.  Then `L` holds of everything that lowers a value
(`Makes.within`), and of every conversion if what is still to be sealed, and other
objects that can be changed, may be left as they are (`Makes.run`).

What domain objects become is left to the converters.  `Q` says what is known of the
handles that they wrap.
-/

namespace Marshal

variable {σ β : Type}

/-- `L`, `C` and `F` hold of the steps that lowering consists of, if `Q` holds of what
domain objects wrap. -/
structure Marshaller.Makes (m : Marshaller σ) (Q : List Handle → Prop)
    (L C : Action σ Handle → Prop) (F : (Handle → Action σ Unit) → Prop) : Prop where
  parts : ∀ {handles handles' : List Handle}, Q (handles ++ handles') → Q handles ∧ Q handles'
  failed : ∀ failure, L (throw failure)
  boolean : ∀ b, L (pure (.boolean b))
  number : ∀ number, L (m.store.ask (.createNumber number))
  text : ∀ text, L (m.store.lowerText text false)
  bytes : ∀ bytes, L (m.store.lowerBytes bytes false)
  object : ∀ o : DomainObject, Q o.handle.toList → L (m.registry.lower m.store o)
  refused : ∀ failure, C (throw failure)
  building : ∀ kind {fill : Handle → Action σ Unit}, F fill →
    C (m.store.building (m.store.ask (.create kind)) fill)
  sealed : ∀ kind {staged : Action σ Handle}, C staged → L (m.sealed kind staged)
  idle : F fun _ => pure ()
  seq : ∀ {first second : Handle → Action σ Unit}, F first → F second →
    F fun container => do
      first container
      second container
  append : ∀ {item : Action σ Handle}, L item →
    F fun array => m.store.withReference item fun handle => m.store.ask (.append array handle)
  addMember : ∀ {member : Action σ Handle}, L member →
    F fun set => m.store.withReference member fun handle => m.store.ask (.addMember set handle)
  putEntry : ∀ {key value : Action σ Handle}, L key → L value →
    F fun dictionary => m.store.withReference key fun keyHandle =>
      m.store.withReference value fun valueHandle =>
        m.store.ask (.putEntry dictionary keyHandle valueHandle)
  appendIndex : ∀ value, F fun array => m.store.ask (.appendIndex array value)
  addIndex : ∀ value, F fun set => m.store.ask (.addIndex set value)
  addPair : ∀ index value, F fun set => m.store.ask (.addPair set index value)

namespace Marshaller.Makes

variable {m : Marshaller σ} {Q : List Handle → Prop} {L C : Action σ Handle → Prop}
  {F : (Handle → Action σ Unit) → Prop} (h : m.Makes Q L C F)

include h

theorem stage {kind : Container} {room : Nat} {check : Result β}
    {fill : Nat → β → Handle → Action σ Unit} (hfill : ∀ room checked, F (fill room checked)) :
    C (m.stage kind room check fill) := by
  cases room with
  | zero => exact h.refused m.tooDeep
  | succ room =>
      cases check with
      | error failure => exact h.refused failure
      | ok checked => exact h.building kind (hfill room checked)

/-! ## Values -/

mutual

theorem within : ∀ (room : Nat) (v : Value), Q v.wrapped → L (m.lowerWithin room v)
  | _, .null, _ => h.failed _
  | _, .bool b, _ => h.boolean b
  | _, .int _, _ => h.number _
  | _, .float _, _ => h.number _
  | _, .complex _, _ => h.number _
  | _, .text s, _ => h.text s
  | _, .bytes b, _ => h.bytes b
  | _, .list items, hv => h.sealed .array (h.stage fun room _ => fills_items room items hv)
  | _, .dict entries, hv =>
    h.sealed .dictionary (h.stage fun room keys => fills_entries room keys entries hv)
  | _, .set members, hv =>
    h.sealed .valueSet (h.stage fun room _ => fills_members room members hv)
  | _, .object o, hv => h.object o hv
  | _, .token _, _ => h.failed _
termination_by structural _ v => v

theorem fills_items : ∀ (room : Nat) (items : List Value), Q (Value.wrappedIn items) →
    F fun array => m.appendAll room array items
  | _, [], _ => h.idle
  | room, item :: items, hitems =>
    have hparts := h.parts hitems
    h.seq (h.append (within room item hparts.1)) (fills_items room items hparts.2)
termination_by structural _ items => items

theorem fills_members : ∀ (room : Nat) (members : List Value), Q (Value.wrappedIn members) →
    F fun set => m.addAll room set members
  | _, [], _ => h.idle
  | room, member :: members, hmembers =>
    have hparts := h.parts hmembers
    h.seq (h.addMember (within room member hparts.1)) (fills_members room members hparts.2)
termination_by structural _ members => members

theorem fills_entries : ∀ (room : Nat) (keys : List String) (entries : List (Value × Value)),
    Q (Value.wrappedUnder entries) → F fun dictionary => m.putAll room dictionary keys entries
  | _, [], [], _ => h.idle
  | _, [], _ :: _, _ => h.idle
  | _, _ :: _, [], _ => h.idle
  | room, key :: keys, (_, value) :: entries, hentries =>
    have hparts := h.parts hentries
    h.seq (h.putEntry (h.text key) (within room value hparts.1))
      (fills_entries room keys entries hparts.2)
termination_by structural _ _ entries => entries

end

/-! ## Containers of integers -/

theorem indices {kind : Container} {elements : Result (List β)} {insertion : Handle → β → Request}
    (hinsertion : ∀ element, F fun handle => do
      let _ ← m.store.ask (insertion handle element)) :
    L (m.lowerIndices kind elements insertion) := by
  have hfill : ∀ elements : List β, F fun handle => m.askAll (elements.map (insertion handle)) := by
    intro elements
    induction elements with
    | nil => exact h.idle
    | cons element elements ih => exact h.seq (hinsertion element) ih
  cases elements with
  | error failure => exact h.failed failure
  | ok elements => exact h.sealed kind (h.building kind (hfill elements))

/-! ## Conversions -/

theorem stageArray {room : Nat} {items : List Value} (hitems : Q (Value.wrappedIn items)) :
    C (m.stageArray room items) := h.stage fun room _ => h.fills_items room items hitems

theorem stageDictionary {room : Nat} {entries : List (Value × Value)}
    (hentries : Q (Value.wrappedUnder entries)) : C (m.stageDictionary room entries) :=
  h.stage fun room keys => h.fills_entries room keys entries hentries

theorem stageSet {room : Nat} {members : List Value} (hmembers : Q (Value.wrappedIn members)) :
    C (m.stageSet room members) := h.stage fun room _ => h.fills_members room members hmembers

theorem openOrSealed {kind : Container} {staged : Action σ Handle} (hfinish : ∀ {x}, C x → L x)
    (mutable : Bool) (hstaged : C staged) :
    L (if mutable then staged else m.sealed kind staged) := by
  cases mutable with
  | true => exact hfinish hstaged
  | false => exact h.sealed kind hstaged

/-- Every conversion consists of such steps, and of those that make texts and byte buffers that
can be changed. -/
theorem run (hfinish : ∀ {x}, C x → L x) (htext : ∀ text, L (m.store.lowerText text true))
    (hbytes : ∀ bytes, L (m.store.lowerBytes bytes true)) (conversion : Conversion)
    (hwrapped : Q conversion.wrapped) : L (conversion.run m) := by
  cases conversion with
  | value v => exact h.within _ v hwrapped
  | list items mutable => exact h.openOrSealed hfinish mutable (h.stageArray hwrapped)
  | dict entries mutable => exact h.openOrSealed hfinish mutable (h.stageDictionary hwrapped)
  | set members mutable => exact h.openOrSealed hfinish mutable (h.stageSet hwrapped)
  | indexArray values => exact h.indices fun value => h.seq (h.appendIndex value) h.idle
  | indexSet values => exact h.indices fun value => h.seq (h.addIndex value) h.idle
  | pairs entries => exact h.indices fun pair => h.seq (h.addPair pair.1 pair.2) h.idle
  | text s mutable =>
      cases mutable with
      | true => exact htext s
      | false => exact h.text s
  | bytes b mutable =>
      cases mutable with
      | true => exact hbytes b
      | false => exact h.bytes b
  | packed layout values mutable =>
      cases mutable with
      | true => exact hbytes _
      | false => exact h.bytes _
  | number v =>
      cases v with
      | int n => exact h.number _
      | float x => exact h.number _
      | complex z => exact h.number _
      | _ => exact h.failed _

end Marshaller.Makes

end Marshal
