import Pasl.Utils.Simulation
import Pasl.Utils.Bytes

/-!
# `utils.Serialize`

`Serialize` runs `strucWalker` with a callback that appends the encoding of
every node it is handed to a `bytes.Buffer` and never changes a value.  `enc`
is the wire format written recursively over the type, as the format's rules
state it.  Through `strucWalker_eq_node` the walker becomes `walkNode`, and
`walkNode_serialize` shows, by induction on the type, that the recursive
traversal with this callback writes `enc`.

Addressability matters in one place only: a struct whose pointer implements
`Serializable` is handed to its codec when it is addressable, and walked field
by field when it is not.  `Serialize(&v)` makes everything addressable;
`Serialize(v)` makes addressable only what lies inside a slice element.
-/

namespace Pasl.Utils

section
variable (Γ : Nat → Serializable)

/-- `Panicf("Custom type serialization failed: %v", err)`. -/
def serializeFailed (err : String) : Fault := .panic ("Custom type serialization failed: " ++ err)

def writeOut (v : Val) (out : List UInt8) : Except String (List UInt8) → Except Fault (Val × List UInt8)
  | .ok bs => pure (v, out ++ bs)
  | .error err => throw (serializeFailed err)

/-- The callback of `Serialize`.  `binary.Write` to a buffer cannot fail. -/
def serializeCallback : Callback (List UInt8) := fun x v out =>
  match x.ty with
  | .iface =>
      match v with
      | .iface (some (c, fs)) => writeOut v out ((Γ c).serialize fs)
      | _ => throw (.panic "interface conversion: interface is nil, not utils.Serializable")
  | .struct c _ =>
      match x.addr, c with
      | true, some c => writeOut v out ((Γ c).serialize v.children)
      | true, none => throw (.panic "interface conversion: value is not utils.Serializable")
      | false, _ => throw (.panic "reflect.Value.Addr of unaddressable value")
  | .uint w => writeOut v out (pure (littleEndian w.bytes v.toNat))
  | .string => writeOut v out (pure (littleEndian 2 v.toBytes.length ++ v.toBytes))
  | .slice e =>
      if e.isUint8 then writeOut v out (pure (littleEndian 2 v.toBytes.length ++ v.toBytes))
      else writeOut v out (pure (littleEndian 4 v.children.length))

/-- `utils.Serialize(struc)` for a root of type `t`, passed as a pointer when
`isPtr`. -/
def serialize (fuel : Nat) (t : Ty) (struc : Val) (isPtr : Bool) : Except Fault (List UInt8) := do
  let m ← strucWalker (serializeCallback Γ) fuel struc t isPtr []
  pure m.aux

mutual
/-- The wire format: an unsigned integer as its little-endian fixed-width
bytes; a string or `[]byte` as its `u16` little-endian length and its bytes; a
list of other elements as its `u32` little-endian count and its elements'
encodings in order; a struct or interface value with its own codec as that
codec's output; any other struct as its fields' encodings in declaration
order. -/
def enc : Ty → Val → Except String (List UInt8)
  | .uint w, v => pure (littleEndian w.bytes v.toNat)
  | .string, v => pure (littleEndian 2 v.toBytes.length ++ v.toBytes)
  | .slice e, v =>
      if e.isUint8 then pure (littleEndian 2 v.toBytes.length ++ v.toBytes)
      else do
        let es ← v.children.mapM (enc e)
        pure (littleEndian 4 v.children.length ++ es.flatten)
  | .struct (some c) _, v => (Γ c).serialize v.children
  | .struct none ts, v => encFields ts v.children
  | .iface, v =>
      match v with
      | .iface (some (c, fs)) => (Γ c).serialize fs
      | _ => throw "nil interface"

def encFields : List Ty → List Val → Except String (List UInt8)
  | [], _ => pure []
  | t :: ts, vs => do
      let b ← enc t (vs.headD default)
      let bs ← encFields ts vs.tail
      pure (b ++ bs)
end

mutual
/-- No struct with its own codec is reached from a value of this type except
inside a slice element, where `reflect` makes every value addressable. -/
def Ty.codecsInSlices : Ty → Bool
  | .struct (some _) _ => false
  | .struct none ts => Ty.codecsInSlicesFields ts
  | _ => true

def Ty.codecsInSlicesFields : List Ty → Bool
  | [] => true
  | t :: ts => t.codecsInSlices && Ty.codecsInSlicesFields ts
end

end

@[simp] theorem writeOut_ok (v : Val) (out bs : List UInt8) : writeOut v out (.ok bs) = .ok (v, out ++ bs) :=
  rfl

@[simp] theorem writeOut_pure (v : Val) (out bs : List UInt8) :
    writeOut v out (pure bs) = .ok (v, out ++ bs) := rfl

@[simp] theorem writeOut_error (v : Val) (out : List UInt8) (err : String) :
    writeOut v out (.error err) = .error (serializeFailed err) := rfl

theorem writeOut_fst {v v' : Val} {out out' : List UInt8} {r : Except String (List UInt8)}
    (h : writeOut v out r = .ok (v', out')) : v' = v := by
  cases r <;> cases h
  rfl

theorem serializeCallback_fst {Γ : Nat → Serializable} {x : RValue} {v v' : Val}
    {out out' : List UInt8} (h : serializeCallback Γ x v out = .ok (v', out')) : v' = v := by
  unfold serializeCallback at h
  split at h
  · split at h
    · exact writeOut_fst h
    · cases h
  · split at h
    · exact writeOut_fst h
    · cases h
    · cases h
  · exact writeOut_fst h
  · exact writeOut_fst h
  · split at h <;> exact writeOut_fst h

theorem serializeCallback_shaped (Γ : Nat → Serializable) (x : RValue) (v : Val) (s : List UInt8)
    (v' : Val) (s' : List UInt8) (hv : shaped x.ty x.addr v = true)
    (h : serializeCallback Γ x v s = .ok (v', s')) : shaped x.ty x.addr v' = true :=
  serializeCallback_fst h ▸ hv

section
variable {Γ : Nat → Serializable}

private theorem walkElems_serialize {e : Ty} {p : List Nat}
    (ih : ∀ j v out, typed e v = true →
      walkNode (serializeCallback Γ) e (p ++ [j]) true v out = writeOut v out (enc Γ e v)) :
    ∀ n i v out, i + n = v.children.length → v.children.all (typed e) = true →
      walkElems (fun j => walkNode (serializeCallback Γ) e (p ++ [j]) true) n i v out =
        writeOut v out (do let es ← (v.children.drop i).mapM (enc Γ e); pure es.flatten) := by
  intro n
  induction n with
  | zero =>
      intro i v out h _
      simp only [walkElems, List.drop_eq_nil_of_le (show v.children.length ≤ i by omega),
        List.mapM_nil, pure_bind, List.flatten_nil, writeOut_pure, List.append_nil]
      rfl
  | succ n ihn =>
      intro i v out h hall
      have hi : i < v.children.length := by omega
      have hc := List.all_eq_true.mp hall _ (Val.child_mem hi)
      rw [Val.drop_children hi, walkElems, ih i _ out hc, List.mapM_cons]
      cases henc : enc Γ e (v.child i) with
      | error err => simp only [writeOut_error, error_bind]
      | ok b =>
          simp only [writeOut_ok, ok_bind, Val.setChild_child]
          rw [ihn (i + 1) v (out ++ b) (by omega) hall]
          cases (v.children.drop (i + 1)).mapM (enc Γ e) <;>
            simp only [ok_bind, error_bind, pure_bind, writeOut_ok, writeOut_error,
              writeOut_pure, List.flatten_cons, List.append_assoc]

private theorem walkFields_serialize {ts : List Ty} {p : List Nat} {a : Bool}
    (ih : ∀ t ∈ ts, ∀ q v out, typed t v = true → (a = true ∨ t.codecsInSlices = true) →
      walkNode (serializeCallback Γ) t q a v out = writeOut v out (enc Γ t v)) :
    ∀ us i v out, ts.drop i = us → typedFields us (v.children.drop i) = true →
      (a = true ∨ Ty.codecsInSlicesFields us = true) →
      walkFields (serializeCallback Γ) us p a i v out =
        writeOut v out (encFields Γ us (v.children.drop i)) := by
  intro us
  induction us with
  | nil => intros; simp only [walkFields, encFields, writeOut_pure, List.append_nil]; rfl
  | cons u us ihus =>
      intro i v out hd ht ha
      obtain ⟨-, hd', hmem⟩ := drop_eq_cons hd
      have hi : i < v.children.length := by
        by_contra hi
        rw [List.drop_eq_nil_of_le (Nat.le_of_not_lt hi)] at ht
        simp [typedFields] at ht
      rw [Val.drop_children hi] at ht ⊢
      simp only [typedFields, Bool.and_eq_true] at ht
      simp only [Ty.codecsInSlicesFields, Bool.and_eq_true] at ha
      have hu : a = true ∨ u.codecsInSlices = true := by tauto
      have hus : a = true ∨ Ty.codecsInSlicesFields us = true := by tauto
      rw [walkFields, ih u hmem _ _ out ht.1 hu, encFields]
      simp only [List.headD_cons, List.tail_cons]
      cases enc Γ u (v.child i) with
      | error err => simp only [writeOut_error, error_bind]
      | ok b =>
          simp only [writeOut_ok, ok_bind, Val.setChild_child]
          rw [ihus (i + 1) v (out ++ b) hd' ht.2 hus]
          cases encFields Γ us (v.children.drop (i + 1)) <;>
            simp only [ok_bind, error_bind, pure_bind, writeOut_ok, writeOut_error,
              writeOut_pure, List.append_assoc]

theorem walkNode_serialize : ∀ (t : Ty) p a v out, typed t v = true →
    (a = true ∨ t.codecsInSlices = true) →
    walkNode (serializeCallback Γ) t p a v out = writeOut v out (enc Γ t v) := by
  intro t
  induction t with
  | struct c ts ih =>
      intro p a v out hv ha
      obtain ⟨vs, rfl, hvs⟩ := typed_struct hv
      cases c with
      | none =>
          simp only [walkNode, Option.isSome_none, Bool.and_false, Bool.false_eq_true,
            ↓reduceIte, enc]
          exact walkFields_serialize (fun t ht q v out => ih t ht q a v out) ts 0 _ out
            (List.drop_zero _) hvs (by simpa [Ty.codecsInSlices] using ha)
      | some c =>
          have ha : a = true := by simpa [Ty.codecsInSlices] using ha
          simp [walkNode, ha, serializeCallback, enc]
  | slice e ih =>
      intro p a v out hv _
      rcases typed_slice hv with ⟨he, -⟩ | ⟨he, xs, rfl, hall⟩
      · simp [walkNode, he, serializeCallback, enc]
      · simp only [walkNode, he, Bool.false_eq_true, ↓reduceIte, serializeCallback,
          writeOut_pure, ok_bind, enc]
        rw [walkElems_serialize (fun j v out hv => ih (p ++ [j]) true v out hv (.inl rfl)) _ 0 _ _
          (by simp [Val.children]) (by simpa [Val.children] using hall), List.drop_zero]
        cases (Val.slice xs).children.mapM (enc Γ e) <;>
          simp only [ok_bind, error_bind, pure_bind, writeOut_ok, writeOut_error,
            writeOut_pure, List.append_assoc]
  | iface =>
      intro p a v out hv _
      obtain ⟨d, rfl⟩ := typed_iface hv
      rfl
  | _ => intros; rfl

end

section
variable {Γ : Nat → Serializable}

private theorem writeOut_frame (v : Val) (out : List UInt8) (r : Except String (List UInt8)) :
    writeOut v out r = (fun r => (r.1, out ++ r.2)) <$> writeOut v [] r := by
  cases r <;> rfl

private theorem serializeCallback_frame (p : List Nat) (t : Ty) (a : Bool) (v : Val) (out : List UInt8) :
    serializeCallback Γ ⟨p, t, a⟩ v out =
      (fun r => (r.1, out ++ r.2)) <$> serializeCallback Γ ⟨[], t, a⟩ v [] := by
  cases t <;> cases a <;> simp only [serializeCallback] <;> (try split) <;>
    first | exact writeOut_frame _ _ _ | rfl

private theorem walkElems_frame {e : Ty}
    (ih : ∀ p v out, walkNode (serializeCallback Γ) e p true v out =
      (fun r => (r.1, out ++ r.2)) <$> walkNode (serializeCallback Γ) e [] true v []) :
    ∀ n (p : List Nat) i v out, walkElems (fun j => walkNode (serializeCallback Γ) e (p ++ [j]) true) n i v out =
      (fun r => (r.1, out ++ r.2)) <$>
        walkElems (fun j => walkNode (serializeCallback Γ) e ([] ++ [j]) true) n i v [] := by
  intro n
  induction n with
  | zero => intros; simp [walkElems]
  | succ n ihn =>
      intro p i v out
      simp only [walkElems]
      rw [ih (p ++ [i]), ih ([] ++ [i])]
      cases walkNode (serializeCallback Γ) e [] true (v.child i) [] with
      | error => rfl
      | ok r =>
          simp only [Except.map_ok, ok_bind]
          rw [ihn p, ihn [] _ _ ([] ++ r.2)]
          cases walkElems (fun j => walkNode (serializeCallback Γ) e ([] ++ [j]) true) n (i + 1)
            (v.setChild i r.1) [] <;> simp

private theorem walkFields_frame {ts : List Ty} {a : Bool}
    (ih : ∀ t ∈ ts, ∀ p v out, walkNode (serializeCallback Γ) t p a v out =
      (fun r => (r.1, out ++ r.2)) <$> walkNode (serializeCallback Γ) t [] a v []) :
    ∀ us ⊆ ts, ∀ p i v out, walkFields (serializeCallback Γ) us p a i v out =
      (fun r => (r.1, out ++ r.2)) <$> walkFields (serializeCallback Γ) us [] a i v [] := by
  intro us
  induction us with
  | nil => intros; simp [walkFields]
  | cons u us ihus =>
      intro hsub p i v out
      have hu := ih u (hsub (List.mem_cons_self _ _))
      simp only [walkFields]
      rw [hu (p ++ [i]), hu ([] ++ [i])]
      cases walkNode (serializeCallback Γ) u [] a (v.child i) [] with
      | error => rfl
      | ok r =>
          simp only [Except.map_ok, ok_bind]
          rw [ihus (List.subset_of_cons_subset hsub) p, ihus (List.subset_of_cons_subset hsub) [] _ _ ([] ++ r.2)]
          cases walkFields (serializeCallback Γ) us [] a (i + 1) (v.setChild i r.1) [] <;> simp

theorem walkNode_serialize_frame : ∀ (t : Ty) p a v out,
    walkNode (serializeCallback Γ) t p a v out =
      (fun r => (r.1, out ++ r.2)) <$> walkNode (serializeCallback Γ) t [] a v [] := by
  intro t
  induction t with
  | struct c ts ih =>
      intro p a v out
      simp only [walkNode]
      split
      · exact serializeCallback_frame _ _ _ _ _
      · exact walkFields_frame (fun t ht p v out => ih t ht p a v out) ts (List.Subset.refl _) p 0 v out
  | slice e ih =>
      intro p a v out
      simp only [walkNode]
      split
      · exact serializeCallback_frame _ _ _ _ _
      · rw [serializeCallback_frame p]
        cases serializeCallback Γ ⟨[], .slice e, a⟩ v [] with
        | error => rfl
        | ok r =>
            simp only [Except.map_ok, ok_bind]
            rw [walkElems_frame (fun p v out => ih p true v out) _ p,
              walkElems_frame (fun p v out => ih p true v out) _ [] _ _ r.2]
            cases walkElems (fun j => walkNode (serializeCallback Γ) e ([] ++ [j]) true)
              r.1.children.length 0 r.1 [] <;> simp
  | _ => intros; exact serializeCallback_frame _ _ _ _ _

end

private theorem mapM_enc_ok {f : Val → Except String (List UInt8)} :
    ∀ xs : List Val, (∀ x ∈ xs, ∃ b, f x = .ok b) → ∃ bs, xs.mapM f = .ok bs
  | [], _ => ⟨[], rfl⟩
  | x :: xs, h => by
      obtain ⟨b, hb⟩ := h x (List.mem_cons_self _ _)
      obtain ⟨bs, hbs⟩ := mapM_enc_ok xs fun y hy => h y (List.mem_cons_of_mem _ hy)
      exact ⟨b :: bs, by rw [List.mapM_cons, hb, hbs]; rfl⟩

theorem enc_ok (Γ : Nat → Serializable) (hΓ : ∀ c fs, ∃ bs, (Γ c).serialize fs = .ok bs) :
    ∀ (t : Ty) (v : Val), typed t v = true → ∃ bs, enc Γ t v = .ok bs := by
  intro t
  induction t with
  | struct c ts ih =>
      intro v hv
      cases c with
      | some c => exact hΓ c _
      | none =>
          have hf : ∀ us ⊆ ts, ∀ vs, typedFields us vs = true → ∃ bs, encFields Γ us vs = .ok bs := by
            intro us
            induction us with
            | nil => intros; exact ⟨[], rfl⟩
            | cons u us ihu =>
                intro hsub vs h
                cases vs with
                | nil => simp [typedFields] at h
                | cons x xs =>
                    simp only [typedFields, Bool.and_eq_true] at h
                    obtain ⟨b, hb⟩ := ih u (hsub (List.mem_cons_self _ _)) x h.1
                    obtain ⟨bs, hbs⟩ := ihu (List.subset_of_cons_subset hsub) xs h.2
                    exact ⟨b ++ bs, by simp only [encFields, List.headD_cons, List.tail_cons, hb, hbs]; rfl⟩
          obtain ⟨vs, rfl, hvs⟩ := typed_struct hv
          exact hf ts (List.Subset.refl _) vs hvs
  | slice e ih =>
      intro v hv
      rcases typed_slice hv with ⟨he, -⟩ | ⟨he, xs, rfl, hall⟩
      · exact ⟨_, by simp only [enc, he, ↓reduceIte]; rfl⟩
      · obtain ⟨es, hes⟩ := mapM_enc_ok xs fun x hx => ih x (hall x hx)
        exact ⟨_, by simp only [enc, he, Bool.false_eq_true, ↓reduceIte, Val.children, hes]; rfl⟩
  | iface =>
      intro v hv
      obtain ⟨d, rfl⟩ := typed_iface hv
      exact hΓ d.1 d.2
  | _ => intros; exact ⟨_, rfl⟩

section
variable (Γ : Nat → Serializable)

theorem serialize_settles_walkNode {t : Ty} (ht : ∀ e, t ≠ .slice e) {struc : Val}
    {isPtr : Bool} (hs : shaped t isPtr struc = true) :
    Settles (serialize Γ · t struc isPtr)
      (walkNode (serializeCallback Γ) t [] isPtr struc [] >>= fun r => pure r.2) := by
  obtain ⟨n, hn⟩ := strucWalker_eq_node (serializeCallback_shaped Γ) ht hs []
  refine ⟨n, fun k => ?_⟩
  dsimp only at hn ⊢
  rw [serialize, hn]
  dsimp only [node, Val.get_nil]
  cases walkNode (serializeCallback Γ) t [] isPtr struc [] <;> rfl

theorem serialize_settles_enc {t : Ty} (ht : ∀ e, t ≠ .slice e) {struc : Val} {isPtr : Bool}
    (hv : typed t struc = true) (ha : isPtr = true ∨ t.codecsInSlices = true) :
    Settles (serialize Γ · t struc isPtr) ((enc Γ t struc).mapError serializeFailed) := by
  have h := serialize_settles_walkNode Γ ht (shaped_of_typed t isPtr struc hv)
  rwa [walkNode_serialize t [] isPtr struc [] hv ha,
    show ∀ r : Except String (List UInt8), (writeOut struc [] r >>= fun r => pure r.2) =
      r.mapError serializeFailed by intro r; cases r <;> rfl] at h

theorem enc_of_serialize {t : Ty} (ht : ∀ e, t ≠ .slice e) {v : Val} {isPtr : Bool} {bs : List UInt8}
    (hv : typed t v = true) (ha : isPtr = true ∨ t.codecsInSlices = true)
    (hs : Settles (serialize Γ · t v isPtr) (.ok bs)) : enc Γ t v = .ok bs := by
  have h := (serialize_settles_enc Γ ht hv ha).unique hs
  cases henc : enc Γ t v <;> simp_all [Except.mapError]

theorem serialize_eq_enc {c : Option Nat} {ts : List Ty} {v : Val}
    (hv : typed (.struct c ts) v = true) :
    Settles (serialize Γ · (.struct c ts) v true) ((enc Γ (.struct c ts) v).mapError serializeFailed) :=
  serialize_settles_enc Γ (fun _ h => Ty.noConfusion h) hv (.inl rfl)

end

theorem serialize_eq_enc_packet :
    typed (.struct none [.uint .w16, .slice (.uint .w16), .struct (some 0) [.slice (.uint .w8)]])
        (.struct [.uint 258, .slice [.uint 1, .uint 2], .struct [.bytes [7]]]) = true ∧
      Settles (serialize (fun _ => BytesWithoutLengthPrefix) ·
          (.struct none [.uint .w16, .slice (.uint .w16), .struct (some 0) [.slice (.uint .w8)]])
          (.struct [.uint 258, .slice [.uint 1, .uint 2], .struct [.bytes [7]]]) true)
        (.ok [2, 1, 2, 0, 0, 0, 1, 0, 2, 0, 7]) :=
  ⟨rfl, serialize_eq_enc _ rfl⟩

theorem serialize_byValue_differs :
    Settles (serialize (fun _ => BytesWithoutLengthPrefix) ·
        (.struct none [.struct (some 0) [.slice (.uint .w8)]]) (.struct [.struct [.bytes [1]]]) true)
      (.ok [1]) ∧
    Settles (serialize (fun _ => BytesWithoutLengthPrefix) ·
        (.struct none [.struct (some 0) [.slice (.uint .w8)]]) (.struct [.struct [.bytes [1]]]) false)
      (.ok [1, 0, 1]) :=
  ⟨serialize_settles_walkNode _ (fun _ h => Ty.noConfusion h) rfl,
    serialize_settles_walkNode _ (fun _ h => Ty.noConfusion h) rfl⟩

theorem serialize_byValue_eq_byPtr (Γ : Nat → Serializable) {c : Option Nat} {ts : List Ty}
    {v : Val} (hv : typed (.struct c ts) v = true) (hc : (Ty.struct c ts).codecsInSlices = true) :
    ∃ n, ∀ k, serialize Γ (k + n + 1) (.struct c ts) v false =
      serialize Γ (k + n + 1) (.struct c ts) v true :=
  (serialize_settles_enc Γ (fun _ h => Ty.noConfusion h) hv (.inr hc)).agree
    (serialize_settles_enc Γ (fun _ h => Ty.noConfusion h) hv (.inl rfl))

theorem serialize_byValue_eq_byPtr_sliceOfCodecs :
    typed (.struct none [.uint .w8, .slice (.struct (some 0) [.slice (.uint .w8)])])
        (.struct [.uint 7, .slice [.struct [.bytes [1]]]]) = true ∧
      (Ty.struct none [.uint .w8, .slice (.struct (some 0) [.slice (.uint .w8)])]).codecsInSlices = true ∧
      ∃ n, ∀ k, serialize (fun _ => BytesWithoutLengthPrefix) (k + n + 1)
          (.struct none [.uint .w8, .slice (.struct (some 0) [.slice (.uint .w8)])])
          (.struct [.uint 7, .slice [.struct [.bytes [1]]]]) false =
        serialize (fun _ => BytesWithoutLengthPrefix) (k + n + 1)
          (.struct none [.uint .w8, .slice (.struct (some 0) [.slice (.uint .w8)])])
          (.struct [.uint 7, .slice [.struct [.bytes [1]]]]) true :=
  ⟨rfl, rfl, serialize_byValue_eq_byPtr _ rfl rfl⟩

private theorem enc_bytesField (Γ : Nat → Serializable) {t : Ty} (ht : t = .string ∨ t = .slice (.uint .w8))
    (d : List UInt8) :
    (enc Γ (.struct none [t]) (.struct [.bytes d])).mapError serializeFailed =
      .ok (littleEndian 2 (d.length % 2 ^ 16) ++ d) := by
  rw [show littleEndian 2 (d.length % 2 ^ 16) = littleEndian 2 d.length from littleEndian_mod 2 _]
  rcases ht with rfl | rfl <;> simp [enc, encFields, Val.children, Val.toBytes, Ty.isUint8] <;> rfl

private theorem enc_sliceField (Γ : Nat → Serializable) {e : Ty} (he : e.isUint8 = false)
    (xs : List Val) :
    enc Γ (.struct none [.slice e]) (.struct [.slice xs]) =
      (fun es => littleEndian 4 (xs.length % 2 ^ 32) ++ es.flatten) <$> xs.mapM (enc Γ e) := by
  rw [show littleEndian 4 (xs.length % 2 ^ 32) = littleEndian 4 xs.length from littleEndian_mod 4 _]
  simp only [enc, encFields, Val.children, he, Bool.false_eq_true, ↓reduceIte, List.headD_cons,
    List.tail_cons]
  cases xs.mapM (enc Γ e) <;> simp

end Pasl.Utils
