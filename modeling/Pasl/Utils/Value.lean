import Mathlib.Data.List.Basic
import Mathlib.Algebra.Group.Nat.Basic

/-!
# Types and values of the reflection codec

`utils.Serialize` and `utils.Deserialize` walk a Go value through `reflect`.
A `reflect.Value` carries a static type, which decides the kind the walker and
the callbacks switch on, and a location in memory, which the callbacks read
and write.  We keep the two apart: `Ty` is the static type, `Val` the value
stored in memory, and a location is a path of field and element indices below
the root.  Strings and `[]byte` are both byte sequences; an interface field
holds the codec and the fields of the struct its pointer refers to.
-/

namespace Pasl.Utils

/-- The kinds `reflect.Uint8` to `reflect.Uint64`. -/
inductive Width where
  | w8 | w16 | w32 | w64
  deriving DecidableEq, Repr

def Width.bytes : Width → Nat
  | .w8 => 1
  | .w16 => 2
  | .w32 => 4
  | .w64 => 8

/-- `struct (some c) fs` is a struct type whose pointer implements
`Serializable` with codec `c`; `slice (.uint .w8)` is `[]byte`. -/
inductive Ty where
  | uint (w : Width)
  | string
  | slice (elem : Ty)
  | struct (codec : Option Nat) (fields : List Ty)
  | iface
  deriving Repr, Inhabited

@[elab_as_elim, induction_eliminator]
theorem Ty.induct' {motive : Ty → Prop}
    (uint : ∀ w, motive (.uint w)) (string : motive .string)
    (slice : ∀ e, motive e → motive (.slice e))
    (struct : ∀ c ts, (∀ t ∈ ts, motive t) → motive (.struct c ts))
    (iface : motive .iface) (t : Ty) : motive t :=
  Ty.rec (motive_1 := motive) (motive_2 := fun ts => ∀ t ∈ ts, motive t)
    uint string slice struct iface (fun _ h => nomatch h)
    (fun _ _ ht hts u hu => by
      cases hu with
      | head => exact ht
      | tail _ h => exact hts u h) t

/-- `el.Type().Elem().Kind() == reflect.Uint8`. -/
def Ty.isUint8 : Ty → Bool
  | .uint .w8 => true
  | _ => false

inductive Val where
  | uint (x : Nat)
  | bytes (bs : List UInt8)
  | slice (xs : List Val)
  | struct (fields : List Val)
  | iface (target : Option (Nat × List Val))
  deriving Repr, Inhabited

/-- `value.Uint()`. -/
def Val.toNat : Val → Nat
  | .uint x => x
  | _ => 0

/-- `value.String()` or `value.Bytes()`. -/
def Val.toBytes : Val → List UInt8
  | .bytes bs => bs
  | _ => []

mutual
/-- The zero value of a type: what `var w T` and `reflect.MakeSlice` hold. -/
def Ty.zero : Ty → Val
  | .uint _ => .uint 0
  | .string => .bytes []
  | .slice e => if e.isUint8 then .bytes [] else .slice []
  | .struct _ ts => .struct (Ty.zeros ts)
  | .iface => .iface none

def Ty.zeros : List Ty → List Val
  | [] => []
  | t :: ts => t.zero :: Ty.zeros ts
end

theorem Ty.zeros_eq_map (ts : List Ty) : Ty.zeros ts = ts.map Ty.zero := by
  induction ts with
  | nil => rfl
  | cons t ts ih => simp [Ty.zeros, ih]

def Val.children : Val → List Val
  | .slice xs => xs
  | .struct fs => fs
  | _ => []

@[simp] theorem Ty.children_zero_slice (e : Ty) : (Ty.slice e).zero.children = [] := by
  simp only [Ty.zero]
  split <;> rfl

def Val.withChildren : Val → List Val → Val
  | .slice _, cs => .slice cs
  | .struct _, cs => .struct cs
  | v, _ => v

/-- `v.Field(i)` or `v.Index(i)`. -/
def Val.child (v : Val) (i : Nat) : Val := v.children.getD i default

@[simp] theorem Val.child_struct (fs : List Val) (i : Nat) : (Val.struct fs).child i = fs.getD i default :=
  rfl

def Val.setChild (v : Val) (i : Nat) (c : Val) : Val := v.withChildren (v.children.set i c)

theorem Val.setChild_struct (fs : List Val) (i : Nat) (c : Val) :
    (Val.struct fs).setChild i c = .struct (fs.set i c) := rfl

def Val.get (v : Val) : List Nat → Val
  | [] => v
  | i :: p => (v.child i).get p

def Val.modifyAt (v : Val) : List Nat → (Val → Val) → Val
  | [], f => f v
  | i :: p, f => v.withChildren (v.children.modify (fun c => c.modifyAt p f) i)

def Val.set (v : Val) (p : List Nat) (x : Val) : Val := v.modifyAt p fun _ => x

def Val.Reach : Val → List Nat → Prop
  | _, [] => True
  | v, i :: p => i < v.children.length ∧ (v.child i).Reach p

@[simp] theorem Val.children_withChildren_modify (v : Val) (f : Val → Val) (i : Nat) :
    (v.withChildren (v.children.modify f i)).children = v.children.modify f i := by
  cases v <;> simp [withChildren, children]

@[simp] theorem Val.children_setChild (v : Val) (i : Nat) (c : Val) :
    (v.setChild i c).children = v.children.set i c := by
  cases v <;> rfl

@[simp] theorem Val.withChildren_children (v : Val) : v.withChildren v.children = v := by
  cases v <;> rfl

@[simp] theorem Val.withChildren_withChildren (v : Val) (cs ds : List Val) :
    (v.withChildren cs).withChildren ds = v.withChildren ds := by
  cases v <;> rfl

@[simp] theorem Val.get_nil (v : Val) : v.get [] = v := rfl

@[simp] theorem Val.get_cons (v : Val) (i : Nat) (p : List Nat) :
    v.get (i :: p) = (v.child i).get p := rfl

@[simp] theorem Val.reach_nil (v : Val) : v.Reach [] := trivial

@[simp] theorem Val.reach_cons (v : Val) (i : Nat) (p : List Nat) :
    v.Reach (i :: p) ↔ i < v.children.length ∧ (v.child i).Reach p := Iff.rfl

theorem Val.get_append (v : Val) (p q : List Nat) : v.get (p ++ q) = (v.get p).get q := by
  induction p generalizing v with
  | nil => rfl
  | cons i p ih => exact ih _

theorem Val.modifyAt_append (v : Val) (p q : List Nat) (f : Val → Val) :
    v.modifyAt (p ++ q) f = v.modifyAt p (·.modifyAt q f) := by
  induction p generalizing v with
  | nil => rfl
  | cons i p ih =>
      show v.modifyAt (i :: (p ++ q)) f = _
      simp only [modifyAt, ih]

theorem Val.reach_append (v : Val) (p q : List Nat) :
    v.Reach (p ++ q) ↔ v.Reach p ∧ (v.get p).Reach q := by
  induction p generalizing v with
  | nil => simp
  | cons i p ih => simp [ih, and_assoc]

private theorem List.modify_getD {l : List Val} {i : Nat} (h : i < l.length) (f : Val → Val) :
    (l.modify f i).getD i default = f (l.getD i default) := by
  simp [List.getD_eq_getElem?_getD, List.getElem?_modify, h]

private theorem List.modify_getD_of_ne (l : List Val) {i j : Nat} (h : i ≠ j) (f : Val → Val) :
    (l.modify f i).getD j default = l.getD j default := by
  simp [List.getD_eq_getElem?_getD, List.getElem?_modify, h]

@[simp] theorem Val.child_modifyAt_cons {v : Val} {i : Nat} (h : i < v.children.length)
    (p : List Nat) (f : Val → Val) :
    (v.modifyAt (i :: p) f).child i = (v.child i).modifyAt p f := by
  simp only [modifyAt, child, children_withChildren_modify, List.modify_getD h]

theorem Val.child_modifyAt_of_ne (v : Val) {i j : Nat} (h : i ≠ j) (p : List Nat)
    (f : Val → Val) : (v.modifyAt (i :: p) f).child j = v.child j := by
  simp only [modifyAt, child, children_withChildren_modify, List.modify_getD_of_ne _ h]

theorem Val.get_modifyAt {v : Val} {p : List Nat} (h : v.Reach p) (f : Val → Val) :
    (v.modifyAt p f).get p = f (v.get p) := by
  induction p generalizing v with
  | nil => rfl
  | cons i p ih => simp [child_modifyAt_cons h.1, ih h.2]

@[simp] theorem Val.length_children_modifyAt_cons (v : Val) (i : Nat) (p : List Nat)
    (f : Val → Val) : (v.modifyAt (i :: p) f).children.length = v.children.length := by
  simp [modifyAt]

theorem Val.reach_modifyAt {v : Val} {p : List Nat} (h : v.Reach p) (f : Val → Val) :
    (v.modifyAt p f).Reach p := by
  induction p generalizing v with
  | nil => trivial
  | cons i p ih => exact ⟨by simpa using h.1, by simpa [child_modifyAt_cons h.1] using ih h.2⟩

theorem Val.modifyAt_modifyAt (v : Val) (p : List Nat) (f g : Val → Val) :
    (v.modifyAt p f).modifyAt p g = v.modifyAt p (g ∘ f) := by
  induction p generalizing v with
  | nil => rfl
  | cons i p ih =>
      simp only [modifyAt, children_withChildren_modify, withChildren_withChildren]
      congr 1
      apply List.ext_getElem?
      intro j
      simp only [List.getElem?_modify]
      by_cases hij : i = j <;> cases v.children[j]? <;> simp [hij, ih]

theorem Val.set_get (v : Val) (p : List Nat) : v.set p (v.get p) = v := by
  induction p generalizing v with
  | nil => rfl
  | cons i p ih =>
      change v.withChildren (v.children.modify (fun c => c.set p ((v.child i).get p)) i) = v
      conv => rhs; rw [← v.withChildren_children]
      congr 1
      apply List.ext_getElem?
      intro j
      simp only [List.getElem?_modify]
      by_cases hij : i = j
      · subst hij
        cases hc : v.children[i]? with
        | none => rfl
        | some c =>
            have : v.child i = c := by simp [child, List.getD_eq_getElem?_getD, hc]
            simp [this, ih]
      · simp [hij]

theorem Val.modifyAt_cons_eq_setChild (v : Val) (i : Nat) (p : List Nat) (f : Val → Val) :
    v.modifyAt (i :: p) f = v.setChild i ((v.child i).modifyAt p f) := by
  simp only [modifyAt, setChild, List.modify_eq_set, child, List.getD_eq_getElem?_getD]

@[simp] theorem Val.set_set (v : Val) (p : List Nat) (x y : Val) :
    (v.set p x).set p y = v.set p y := by
  simp only [set, modifyAt_modifyAt]
  rfl

theorem Val.set_modifyAt_append (v : Val) (p q : List Nat) (f : Val → Val) (y : Val) :
    (v.modifyAt (p ++ q) f).set p y = v.set p y := by
  simp only [set, modifyAt_append, modifyAt_modifyAt]
  rfl

@[simp] theorem Val.set_append_set (v : Val) (p q : List Nat) (x y : Val) :
    (v.set (p ++ q) x).set p y = v.set p y :=
  set_modifyAt_append v p q _ y

theorem Val.get_set {v : Val} {p : List Nat} (h : v.Reach p) (x : Val) : (v.set p x).get p = x :=
  get_modifyAt h _

theorem Val.reach_set {v : Val} {p : List Nat} (h : v.Reach p) (x : Val) : (v.set p x).Reach p :=
  reach_modifyAt h _

theorem Val.get_set_append_singleton {v : Val} {p : List Nat} (h : v.Reach p) (i : Nat)
    (c : Val) : (v.set (p ++ [i]) c).get p = (v.get p).setChild i c := by
  simp only [set, modifyAt_append, get_modifyAt h, modifyAt_cons_eq_setChild]
  rfl

theorem Val.length_children_get_modifyAt_append {v : Val} {p : List Nat} (h : v.Reach p)
    (i : Nat) (q : List Nat) (f : Val → Val) :
    ((v.modifyAt (p ++ i :: q) f).get p).children.length = (v.get p).children.length := by
  simp only [modifyAt_append, get_modifyAt h, length_children_modifyAt_cons]

theorem Val.reach_modifyAt_append {v : Val} {p : List Nat} (h : v.Reach p) (q : List Nat)
    (f : Val → Val) : (v.modifyAt (p ++ q) f).Reach p := by
  rw [modifyAt_append]
  exact reach_modifyAt h _

@[simp] theorem Val.setChild_child (v : Val) (i : Nat) : v.setChild i (v.child i) = v := by
  have h := v.set_get [i]
  rw [set, modifyAt_cons_eq_setChild] at h
  exact h

theorem Val.drop_children {v : Val} {i : Nat} (h : i < v.children.length) :
    v.children.drop i = v.child i :: v.children.drop (i + 1) := by
  rw [List.drop_eq_getElem_cons h, child, List.getD_eq_getElem?_getD, List.getElem?_eq_getElem h]
  rfl

theorem Val.child_mem {v : Val} {i : Nat} (h : i < v.children.length) :
    v.child i ∈ v.children := by
  simp [child, List.getElem?_eq_getElem h, List.getElem_mem]

theorem Val.all_children_setChild {P : Val → Bool} {v : Val} (hv : v.children.all P = true)
    {i : Nat} {c : Val} (hc : i < v.children.length → P c = true) :
    (v.setChild i c).children.all P = true := by
  rw [children_setChild]
  by_cases hi : i < v.children.length
  · rw [List.all_eq_true] at hv ⊢
    intro x hx
    rcases List.mem_or_eq_of_mem_set hx with hx | rfl
    · exact hv x hx
    · exact hc hi
  · rwa [List.set_eq_of_length_le (Nat.le_of_not_lt hi)]

mutual
/-- `v` is a value of `t`: integers within their width, slices of their element
type, one value per field, and interfaces holding a value. -/
def typed : Ty → Val → Bool
  | .uint w, .uint x => x < 256 ^ w.bytes
  | .string, .bytes _ => true
  | .slice e, .bytes _ => e.isUint8
  | .slice e, .slice xs => !e.isUint8 && xs.all (typed e)
  | .struct _ ts, .struct vs => typedFields ts vs
  | .iface, .iface (some _) => true
  | _, _ => false

def typedFields : List Ty → List Val → Bool
  | [], [] => true
  | t :: ts, v :: vs => typed t v && typedFields ts vs
  | _, _ => false
end

/-! The values each type admits, said once so that proofs by induction on the
type never split the value. -/

theorem typed_uint {w : Width} {v : Val} (h : typed (.uint w) v = true) :
    ∃ x, v = .uint x ∧ x < 256 ^ w.bytes := by
  cases v with
  | uint x => exact ⟨x, rfl, of_decide_eq_true h⟩
  | _ => cases h

theorem typed_string {v : Val} (h : typed .string v = true) : ∃ s, v = .bytes s := by
  cases v with
  | bytes s => exact ⟨s, rfl⟩
  | _ => cases h

theorem typed_slice {e : Ty} {v : Val} (h : typed (.slice e) v = true) :
    e.isUint8 = true ∧ (∃ s, v = .bytes s) ∨
      e.isUint8 = false ∧ ∃ xs, v = .slice xs ∧ ∀ x ∈ xs, typed e x = true := by
  cases v with
  | bytes s => exact .inl ⟨h, s, rfl⟩
  | slice xs =>
      have h : (!e.isUint8 && xs.all (typed e)) = true := h
      rw [Bool.and_eq_true, Bool.not_eq_true', List.all_eq_true] at h
      exact .inr ⟨h.1, xs, rfl, h.2⟩
  | _ => cases h

theorem typed_struct {c : Option Nat} {ts : List Ty} {v : Val} (h : typed (.struct c ts) v = true) :
    ∃ vs, v = .struct vs ∧ typedFields ts vs = true := by
  cases v with
  | struct vs => exact ⟨vs, rfl, h⟩
  | _ => cases h

theorem typed_iface {v : Val} (h : typed .iface v = true) : ∃ d, v = .iface (some d) := by
  cases v with
  | iface d =>
      cases d with
      | some d => exact ⟨d, rfl⟩
      | none => cases h
  | _ => cases h

mutual
/-- What the walker relies on below a node of type `t` reached with
addressability `a`: every struct it walks into has one child per field, and
the children of a slice it walks into fit the element type. -/
def shaped : Ty → Bool → Val → Bool
  | .struct c ts, a, v => (a && c.isSome) || shapedFields ts a v.children
  | .slice e, _, v => e.isUint8 || v.children.all (shaped e true)
  | _, _, _ => true

def shapedFields : List Ty → Bool → List Val → Bool
  | [], _, [] => true
  | t :: ts, a, v :: vs => shaped t a v && shapedFields ts a vs
  | _, _, _ => false
end

theorem shapedFields_length {ts : List Ty} {a : Bool} {vs : List Val}
    (h : shapedFields ts a vs) : vs.length = ts.length := by
  induction ts generalizing vs with
  | nil => cases vs <;> simp_all [shapedFields]
  | cons t ts ih => cases vs <;> simp_all [shapedFields]

theorem shapedFields_getD {ts : List Ty} {a : Bool} {vs : List Val}
    (h : shapedFields ts a vs) (i : Nat) : shaped (ts.getD i default) a (vs.getD i default) := by
  induction ts generalizing vs i with
  | nil => cases vs <;> simp_all [shapedFields, shaped]
  | cons t ts ih =>
      cases vs with
      | nil => simp [shapedFields] at h
      | cons v vs =>
          simp only [shapedFields, Bool.and_eq_true] at h
          cases i with
          | zero => exact h.1
          | succ i => exact ih h.2 i

theorem shapedFields_set {ts : List Ty} {a : Bool} {vs : List Val}
    (h : shapedFields ts a vs) {i : Nat} {c : Val} (hc : shaped (ts.getD i default) a c) :
    shapedFields ts a (vs.set i c) := by
  induction ts generalizing vs i with
  | nil => cases vs <;> simp_all [shapedFields]
  | cons t ts ih =>
      cases vs with
      | nil => simp [shapedFields] at h
      | cons v vs =>
          simp only [shapedFields, Bool.and_eq_true] at h
          cases i with
          | zero => simp_all [shapedFields]
          | succ i => simp_all [shapedFields]

theorem shaped_of_typed : ∀ (t : Ty) (a : Bool) (v : Val), typed t v = true → shaped t a v = true := by
  intro t
  induction t with
  | struct c ts ih =>
      intro a v hv
      obtain ⟨vs, rfl, hvs⟩ := typed_struct hv
      have hf : ∀ us ⊆ ts, ∀ vs, typedFields us vs = true → shapedFields us a vs = true := by
        intro us
        induction us with
        | nil => intro _ vs h; cases vs <;> simp_all [typedFields, shapedFields]
        | cons u us ihu =>
            intro hsub vs h
            cases vs with
            | nil => simp [typedFields] at h
            | cons x xs =>
                simp only [typedFields, shapedFields, Bool.and_eq_true] at h ⊢
                exact ⟨ih u (hsub (List.mem_cons_self _ _)) a x h.1,
                  ihu (List.subset_of_cons_subset hsub) xs h.2⟩
      simp [shaped, Val.children, hf ts (List.Subset.refl _) vs hvs]
  | slice e ih =>
      intro a v hv
      rcases typed_slice hv with ⟨he, -⟩ | ⟨-, xs, rfl, hxs⟩
      · simp [shaped, he]
      · simp only [shaped, Val.children, Bool.or_eq_true, List.all_eq_true]
        exact .inr fun x hx => ih true x (hxs x hx)
  | _ => intros; simp [shaped]

mutual
/-- No struct with its own codec and no interface lies in a value of this type
outside the elements of its slices, so its zero value holds neither. -/
def Ty.plain : Ty → Bool
  | .struct none ts => Ty.plainFields ts
  | .struct (some _) _ => false
  | .iface => false
  | _ => true

def Ty.plainFields : List Ty → Bool
  | [] => true
  | t :: ts => t.plain && Ty.plainFields ts
end

theorem typed_zero : ∀ t : Ty, t.plain = true → typed t t.zero = true := by
  intro t
  induction t with
  | struct c ts ih =>
      intro ht
      cases c with
      | none =>
          have hf : ∀ us ⊆ ts, Ty.plainFields us = true → typedFields us (Ty.zeros us) = true := by
            intro us
            induction us with
            | nil => intros; rfl
            | cons u us ihu =>
                intro hsub h
                simp only [Ty.plainFields, Bool.and_eq_true] at h
                simp only [Ty.zeros, typedFields, Bool.and_eq_true]
                exact ⟨ih u (hsub (List.mem_cons_self _ _)) h.1,
                  ihu (List.subset_of_cons_subset hsub) h.2⟩
          simpa [Ty.zero, typed] using hf ts (List.Subset.refl _) (by simpa [Ty.plain] using ht)
      | some _ => simp [Ty.plain] at ht
  | slice e _ => intro _; cases he : e.isUint8 <;> simp [Ty.zero, typed, he]
  | iface => intro ht; simp [Ty.plain] at ht
  | uint w => intro _; simp [Ty.zero, typed, Nat.pos_pow_of_pos]
  | string => intro _; rfl

theorem shaped_zero : ∀ (t : Ty) (a : Bool), shaped t a t.zero = true := by
  intro t
  induction t with
  | struct c ts ih =>
      intro a
      have hf : ∀ us ⊆ ts, shapedFields us a (Ty.zeros us) = true := by
        intro us
        induction us with
        | nil => intro _; rfl
        | cons u us ihu =>
            intro hsub
            simp only [Ty.zeros, shapedFields, Bool.and_eq_true]
            exact ⟨ih u (hsub (List.mem_cons_self _ _)) a, ihu (List.subset_of_cons_subset hsub)⟩
      simp [Ty.zero, shaped, Val.children, hf ts (List.Subset.refl _)]
  | slice e ih =>
      intro a
      cases he : e.isUint8 <;> simp [Ty.zero, shaped, he, Val.children]
  | _ => intro a; rfl

/-- A type whose pointer implements `utils.Serializable`: its `Serialize` and
`Deserialize` methods, on the fields of the receiver. -/
structure Serializable where
  serialize : List Val → Except String (List UInt8)
  deserialize : List Val → List UInt8 → Except String (List Val × List UInt8)

/-- `bytes.Buffer.Read(p)`: fill `p` from the front of the buffer; an empty
buffer gives `EOF` unless `p` is empty too.  The length of `p` never changes. -/
def bufferRead (p r : List UInt8) : Except String (List UInt8 × List UInt8) :=
  if r = [] ∧ p ≠ [] then .error "EOF"
  else
    let n := min p.length r.length
    .ok (r.take n ++ p.drop n, r.drop n)

/-- `utils.BytesWithoutLengthPrefix`, whose one field is `Bytes []byte`. -/
def BytesWithoutLengthPrefix : Serializable where
  serialize
    | [.bytes bs] => .ok bs
    | _ => .ok []
  deserialize
    | [.bytes p], r => do
        let (p, r) ← bufferRead p r
        pure ([.bytes p], r)
    | fs, r => .ok (fs, r)

end Pasl.Utils
