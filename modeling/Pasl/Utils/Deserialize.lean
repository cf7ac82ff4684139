import Pasl.Utils.Serialize

/-!
# `utils.Deserialize`

`Deserialize` runs `strucWalker` with a callback that reads each node from the
reader and stores it through `reflect`.  A non-byte slice is replaced by
`reflect.MakeSlice` of the count read, and the walker then walks the new
elements.  `maxLen` is the largest count `MakeSlice` can make: `2^31 - 1` on a
32-bit platform, where a larger `int(len)` is negative, and what free memory
holds on a 64-bit one.  The callback drops every error of `binary.Read`: a short
read leaves a zero or zero bytes behind, and `Deserialize` returns nil.  It
panics only where a custom codec fails, where `MakeSlice` fails, and on an
interface field.

`walkNode_deserialize` reads back, from a zero value, what `enc` writes; with
`serialize_settles_enc` this gives the round trip.  `walkNode_panicsOnlyInCalls`
ties every panic on malformed input to the call that failed.
-/

namespace Pasl.Utils

section
variable (Γ : Nat → Serializable) (maxLen : Nat)

/-- `Panicf("Custom type deserialization failed: %v", err)`. -/
def deserializeFailed (err : String) : Fault :=
  .panic ("Custom type deserialization failed: " ++ err)

/-- `var len uint16; binary.Read(r, binary.LittleEndian, &len)`, then
`make([]byte, len)` and `binary.Read(r, binary.LittleEndian, &data)`; a failed
read leaves the zeros of `make` behind. -/
def readBytes (r : List UInt8) : List UInt8 × List UInt8 :=
  let (len, r) := readUint 2 r
  match readFull len r with
  | (.ok data, r) => (data, r)
  | (.error _, r) => (List.replicate len 0, r)

/-- The callback of `Deserialize`. -/
def deserializeCallback : Callback (List UInt8) := fun x v r =>
  match x.ty with
  | .struct c _ =>
      match x.addr, c with
      | true, some c =>
          match (Γ c).deserialize v.children r with
          | .ok (fs, r) => pure (.struct fs, r)
          | .error err => throw (deserializeFailed err)
      | true, none => throw (.panic "interface conversion: value is not utils.Serializable")
      | false, _ => throw (.panic "reflect.Value.Addr of unaddressable value")
  | .uint w =>
      let (n, r) := readUint w.bytes r
      pure (.uint n, r)
  | .string =>
      let (str, r) := readBytes r
      pure (.bytes str, r)
  | .slice e =>
      if e.isUint8 then
        let (data, r) := readBytes r
        pure (.bytes data, r)
      else
        let (len, r) := readUint 4 r
        if len ≤ maxLen then pure (.slice (List.replicate len e.zero), r)
        else throw (.makeSlice len)
  | .iface => throw (.panic "Unimplemented interface")

/-- `utils.Deserialize(struc, r)` with `struc` a pointer to `w : t`: its
`error` result, which is always nil, the value left behind the pointer, and
the unread input. -/
def deserialize (fuel : Nat) (t : Ty) (w : Val) (r : List UInt8) :
    Except Fault (Option String × Val × List UInt8) := do
  let m ← strucWalker (deserializeCallback Γ maxLen) fuel w t true r
  pure (none, m.root, m.aux)

end

theorem deserialize_error_none {Γ : Nat → Serializable} {maxLen fuel : Nat} {t : Ty} {w : Val}
    {r : List UInt8} {err : Option String} {v : Val} {rest : List UInt8}
    (h : deserialize Γ maxLen fuel t w r = .ok (err, v, rest)) : err = none := by
  obtain ⟨m, -, h⟩ := bind_eq_ok.mp h
  cases h
  rfl

theorem deserialize_bind_ok {α : Type} {Γ : Nat → Serializable} {maxLen fuel : Nat} {t : Ty}
    {w : Val} {r : List UInt8} {f : Option String × Val × List UInt8 → Except Fault α} {a : α}
    (h : deserialize Γ maxLen fuel t w r >>= f = .ok a) : ∃ v rest, f (none, v, rest) = .ok a := by
  obtain ⟨⟨err, v, rest⟩, hd, h⟩ := bind_eq_ok.mp h
  obtain rfl := deserialize_error_none hd
  exact ⟨v, rest, h⟩

mutual
/-- The walk of `Deserialize(&w)` meets no interface field; one may lie only
behind a struct with its own codec. -/
def Ty.noIface : Ty → Bool
  | .iface => false
  | .slice e => e.noIface
  | .struct none ts => Ty.noIfaceFields ts
  | _ => true

def Ty.noIfaceFields : List Ty → Bool
  | [] => true
  | t :: ts => t.noIface && Ty.noIfaceFields ts
end

mutual
/-- Every length the walk writes fits its prefix: strings and `[]byte` below
`2^16` bytes, other slices below `2^32` elements. -/
def fits : Ty → Val → Bool
  | .string, v => v.toBytes.length < 2 ^ 16
  | .slice e, v =>
      if e.isUint8 then v.toBytes.length < 2 ^ 16
      else v.children.length < 2 ^ 32 && v.children.all (fits e)
  | .struct none ts, v => fitsFields ts v.children
  | _, _ => true

def fitsFields : List Ty → List Val → Bool
  | t :: ts, v :: vs => fits t v && fitsFields ts vs
  | _, _ => true
end

mutual
/-- Every slice `reflect.MakeSlice` makes for `v`, every slice but a `[]byte`,
has at most `maxLen` elements. -/
def slicesWithin (maxLen : Nat) : Ty → Val → Bool
  | .slice e, v =>
      if e.isUint8 then true
      else v.children.length ≤ maxLen && v.children.all (slicesWithin maxLen e)
  | .struct none ts, v => slicesWithinFields maxLen ts v.children
  | _, _ => true

def slicesWithinFields (maxLen : Nat) : List Ty → List Val → Bool
  | t :: ts, v :: vs => slicesWithin maxLen t v && slicesWithinFields maxLen ts vs
  | _, _ => true
end

def RoundTrips (codec : Serializable) (ts : List Ty) : Prop :=
  ∀ fs bs rest, typedFields ts fs = true → codec.serialize fs = .ok bs →
    codec.deserialize (Ty.zeros ts) (bs ++ rest) = .ok (fs, rest)

mutual
def codecsRoundTrip (Γ : Nat → Serializable) : Ty → Prop
  | .struct (some c) ts => RoundTrips (Γ c) ts
  | .struct none ts => codecsRoundTripFields Γ ts
  | .slice e => codecsRoundTrip Γ e
  | _ => True

def codecsRoundTripFields (Γ : Nat → Serializable) : List Ty → Prop
  | [] => True
  | t :: ts => codecsRoundTrip Γ t ∧ codecsRoundTripFields Γ ts
end

theorem deserializeCallback_shaped (Γ : Nat → Serializable) (maxLen : Nat) (x : RValue) (v : Val)
    (s : List UInt8) (v' : Val) (s' : List UInt8) (_ : shaped x.ty x.addr v = true)
    (h : deserializeCallback Γ maxLen x v s = .ok (v', s')) : shaped x.ty x.addr v' = true := by
  rcases x with ⟨p, t, a⟩
  cases t with
  | struct c ts =>
      cases a <;> cases c <;> simp only [deserializeCallback] at h
      all_goals first | cases h | skip
      split at h <;> cases h
      simp [shaped]
  | slice e =>
      cases he : e.isUint8
      · rcases hu : readUint 4 s with ⟨len, r⟩
        simp only [deserializeCallback, he, Bool.false_eq_true, ↓reduceIte, hu] at h
        split at h <;> cases h
        simp [shaped, he, Val.children, List.all_eq_true, List.mem_replicate, shaped_zero]
      · simp [shaped, he]
  | _ => simp [shaped]

theorem readBytes_append {s : List UInt8} (h : s.length < 2 ^ 16) (rest : List UInt8) :
    readBytes (littleEndian 2 s.length ++ s ++ rest) = (s, rest) := by
  have hlen : s.length % 256 ^ 2 = s.length := Nat.mod_eq_of_lt h
  simp only [readBytes, List.append_assoc, readUint_littleEndian, hlen, readFull_append rfl]

@[simp] theorem readBytes_nil : readBytes [] = ([], []) := rfl

theorem fits_zero : ∀ t : Ty, fits t t.zero = true := by
  intro t
  induction t with
  | struct c ts ih =>
      cases c with
      | none =>
          have hf : ∀ us ⊆ ts, fitsFields us (Ty.zeros us) = true := by
            intro us
            induction us with
            | nil => intro _; rfl
            | cons u us ihu =>
                intro hsub
                simp only [Ty.zeros, fitsFields, Bool.and_eq_true]
                exact ⟨ih u (hsub (List.mem_cons_self _ _)), ihu (List.subset_of_cons_subset hsub)⟩
          simpa [Ty.zero, fits, Val.children] using hf ts (List.Subset.refl _)
      | some _ => rfl
  | slice e _ => cases he : e.isUint8 <;> simp [Ty.zero, fits, he, Val.toBytes, Val.children]
  | string => simp [Ty.zero, fits, Val.toBytes]
  | _ => rfl

theorem slicesWithin_zero (maxLen : Nat) : ∀ t : Ty, slicesWithin maxLen t t.zero = true := by
  intro t
  induction t with
  | struct c ts ih =>
      cases c with
      | none =>
          have hf : ∀ us ⊆ ts, slicesWithinFields maxLen us (Ty.zeros us) = true := by
            intro us
            induction us with
            | nil => intro _; rfl
            | cons u us ihu =>
                intro hsub
                simp only [Ty.zeros, slicesWithinFields, Bool.and_eq_true]
                exact ⟨ih u (hsub (List.mem_cons_self _ _)), ihu (List.subset_of_cons_subset hsub)⟩
          simpa [Ty.zero, slicesWithin, Val.children] using hf ts (List.Subset.refl _)
      | some _ => rfl
  | slice e _ => cases he : e.isUint8 <;> simp [Ty.zero, slicesWithin, he, Val.children]
  | _ => rfl

theorem slicesWithin_of_fits : ∀ (t : Ty) (v : Val), fits t v = true → slicesWithin (2 ^ 32) t v = true := by
  intro t
  induction t with
  | struct c ts ih =>
      cases c with
      | none =>
          have hf : ∀ us ⊆ ts, ∀ vs, fitsFields us vs = true → slicesWithinFields (2 ^ 32) us vs = true := by
            intro us
            induction us with
            | nil => intros; rfl
            | cons u us ihu =>
                intro hsub vs h
                cases vs with
                | nil => rfl
                | cons x xs =>
                    simp only [fitsFields, slicesWithinFields, Bool.and_eq_true] at h ⊢
                    exact ⟨ih u (hsub (List.mem_cons_self _ _)) x h.1,
                      ihu (List.subset_of_cons_subset hsub) xs h.2⟩
          intro v h
          exact hf ts (List.Subset.refl _) v.children h
      | some _ => intros; rfl
  | slice e ih =>
      intro v h
      cases he : e.isUint8
      · simp only [fits, slicesWithin, he, Bool.false_eq_true, ↓reduceIte, Bool.and_eq_true,
          decide_eq_true_eq, List.all_eq_true] at h ⊢
        exact ⟨by omega, fun x hx => ih x (h.2 x hx)⟩
      · simp [slicesWithin, he]
  | _ => intros; rfl

mutual
def Ty.makesNoSlice : Ty → Bool
  | .slice e => e.isUint8
  | .struct none ts => Ty.makesNoSliceFields ts
  | _ => true

def Ty.makesNoSliceFields : List Ty → Bool
  | [] => true
  | t :: ts => t.makesNoSlice && Ty.makesNoSliceFields ts
end

theorem slicesWithin_of_makesNoSlice (maxLen : Nat) :
    ∀ t : Ty, t.makesNoSlice = true → ∀ v, slicesWithin maxLen t v = true := by
  intro t
  induction t with
  | struct c ts ih =>
      cases c with
      | none =>
          have hf : ∀ us ⊆ ts, Ty.makesNoSliceFields us = true →
              ∀ vs, slicesWithinFields maxLen us vs = true := by
            intro us
            induction us with
            | nil => intros; rfl
            | cons u us ihu =>
                intro hsub h vs
                simp only [Ty.makesNoSliceFields, Bool.and_eq_true] at h
                cases vs with
                | nil => rfl
                | cons x xs =>
                    simp only [slicesWithinFields, Bool.and_eq_true]
                    exact ⟨ih u (hsub (List.mem_cons_self _ _)) h.1 x,
                      ihu (List.subset_of_cons_subset hsub) h.2 xs⟩
          intro h v
          exact hf ts (List.Subset.refl _) (by simpa [Ty.makesNoSlice] using h) v.children
      | some _ => intros; rfl
  | slice e _ => intro h v; simp [slicesWithin, show e.isUint8 = true by simpa [Ty.makesNoSlice] using h]
  | _ => intros; rfl

section
variable {Γ : Nat → Serializable} {maxLen : Nat}

theorem getD_append_cons (pre l : List Val) (a : Val) :
    (pre ++ a :: l).getD pre.length default = a := by
  induction pre with
  | nil => rfl
  | cons b pre ih => exact ih

theorem set_append_cons (pre l : List Val) (a x : Val) :
    (pre ++ a :: l).set pre.length x = pre ++ x :: l := by
  induction pre with
  | nil => rfl
  | cons b pre ih => simp [ih]

theorem setChild_append_cons (pre l : List Val) (a x : Val) :
    (Val.slice (pre ++ a :: l)).setChild pre.length x = .slice ((pre ++ [x]) ++ l) ∧
      (Val.struct (pre ++ a :: l)).setChild pre.length x = .struct ((pre ++ [x]) ++ l) := by
  simp [Val.setChild, Val.children, Val.withChildren, set_append_cons]

private theorem walkElems_deserialize {e : Ty} {p : List Nat}
    (ih : ∀ j v b rest, typed e v = true → fits e v = true → slicesWithin maxLen e v = true →
      enc Γ e v = .ok b →
      walkNode (deserializeCallback Γ maxLen) e (p ++ [j]) true e.zero (b ++ rest) = .ok (v, rest)) :
    ∀ (xs pre : List Val) (es : List (List UInt8)) (rest : List UInt8),
      xs.all (typed e) = true → xs.all (fits e) = true → xs.all (slicesWithin maxLen e) = true →
      xs.mapM (enc Γ e) = .ok es →
      walkElems (fun j => walkNode (deserializeCallback Γ maxLen) e (p ++ [j]) true) xs.length
        pre.length (.slice (pre ++ List.replicate xs.length e.zero)) (es.flatten ++ rest) =
        .ok (.slice (pre ++ xs), rest) := by
  intro xs
  induction xs with
  | nil =>
      intro pre es rest _ _ _ h
      cases h
      simp only [List.length_nil, List.replicate_zero, List.append_nil, walkElems,
        List.flatten_nil, List.nil_append]
      rfl
  | cons x xs ihx =>
      intro pre es rest ht hf hm h
      simp only [List.all_cons, Bool.and_eq_true] at ht hf hm
      rw [List.mapM_cons] at h
      obtain ⟨b, hx, h⟩ := bind_eq_ok.mp h
      obtain ⟨es', hxs, h⟩ := bind_eq_ok.mp h
      cases h
      have hchild : (Val.slice (pre ++ e.zero :: List.replicate xs.length e.zero)).child
          pre.length = e.zero := getD_append_cons _ _ _
      rw [List.length_cons, List.replicate_succ, walkElems, hchild, List.flatten_cons,
        List.append_assoc, ih _ x b _ ht.1 hf.1 hm.1 hx, ok_bind]
      dsimp only
      rw [(setChild_append_cons _ _ _ _).1, show pre.length + 1 = (pre ++ [x]).length by simp,
        ihx (pre ++ [x]) es' rest ht.2 hf.2 hm.2 hxs, List.append_assoc, List.singleton_append]

private theorem walkFields_deserialize {p : List Nat} :
    ∀ (us : List Ty), (∀ t ∈ us, ∀ q v b rest, typed t v = true → fits t v = true →
        slicesWithin maxLen t v = true → t.noIface = true → codecsRoundTrip Γ t →
        enc Γ t v = .ok b →
        walkNode (deserializeCallback Γ maxLen) t q true t.zero (b ++ rest) = .ok (v, rest)) →
      ∀ (vs pre : List Val) (b rest : List UInt8), typedFields us vs = true →
        fitsFields us vs = true → slicesWithinFields maxLen us vs = true →
        Ty.noIfaceFields us = true → codecsRoundTripFields Γ us → encFields Γ us vs = .ok b →
        walkFields (deserializeCallback Γ maxLen) us p true pre.length
          (.struct (pre ++ Ty.zeros us)) (b ++ rest) = .ok (.struct (pre ++ vs), rest) := by
  intro us
  induction us with
  | nil =>
      intro _ vs pre b rest ht _ _ _ _ h
      cases vs with
      | nil =>
          cases h
          simp only [Ty.zeros, List.append_nil, walkFields, List.nil_append]
          rfl
      | cons _ _ => simp [typedFields] at ht
  | cons u us ihus =>
      intro ih vs pre b rest ht hf hm hi hc h
      cases vs with
      | nil => simp [typedFields] at ht
      | cons x xs =>
          simp only [typedFields, fitsFields, slicesWithinFields, Ty.noIfaceFields,
            codecsRoundTripFields, Bool.and_eq_true] at ht hf hm hi hc
          simp only [encFields, List.headD_cons, List.tail_cons] at h
          obtain ⟨b₁, hx, h⟩ := bind_eq_ok.mp h
          obtain ⟨bs, hxs, h⟩ := bind_eq_ok.mp h
          cases h
          have hchild : (Val.struct (pre ++ u.zero :: Ty.zeros us)).child pre.length = u.zero :=
            getD_append_cons _ _ _
          rw [Ty.zeros, walkFields, hchild, List.append_assoc,
            ih u (List.mem_cons_self _ _) _ x b₁ _ ht.1 hf.1 hm.1 hi.1 hc.1 hx, ok_bind]
          dsimp only
          rw [(setChild_append_cons _ _ _ _).2, show pre.length + 1 = (pre ++ [x]).length by simp,
            ihus (fun t ht => ih t (List.mem_cons_of_mem _ ht)) xs (pre ++ [x]) bs rest
              ht.2 hf.2 hm.2 hi.2 hc.2 hxs, List.append_assoc, List.singleton_append]

private theorem walkFields_deserialize_nil {p : List Nat} :
    ∀ (us : List Ty), (∀ t ∈ us, ∀ q, t.plain = true →
        walkNode (deserializeCallback Γ maxLen) t q true t.zero [] = .ok (t.zero, [])) →
      Ty.plainFields us = true → ∀ pre : List Val,
        walkFields (deserializeCallback Γ maxLen) us p true pre.length
          (.struct (pre ++ Ty.zeros us)) [] = .ok (.struct (pre ++ Ty.zeros us), []) := by
  intro us
  induction us with
  | nil => intros; rfl
  | cons u us ihus =>
      intro ih h pre
      simp only [Ty.plainFields, Bool.and_eq_true] at h
      have hchild : (Val.struct (pre ++ u.zero :: Ty.zeros us)).child pre.length = u.zero :=
        getD_append_cons _ _ _
      rw [Ty.zeros, walkFields, hchild, ih u (List.mem_cons_self _ _) _ h.1, ok_bind]
      dsimp only
      rw [(setChild_append_cons _ _ _ _).2, show pre.length + 1 = (pre ++ [u.zero]).length by simp,
        ihus (fun t ht => ih t (List.mem_cons_of_mem _ ht)) h.2 (pre ++ [u.zero]),
        List.append_assoc, List.singleton_append]

theorem walkNode_deserialize_nil : ∀ (t : Ty) p, t.plain = true →
    walkNode (deserializeCallback Γ maxLen) t p true t.zero [] = .ok (t.zero, []) := by
  intro t
  induction t with
  | struct c ts ih =>
      intro p ht
      cases c with
      | none =>
          simpa [walkNode, Ty.zero] using
            walkFields_deserialize_nil (p := p) ts ih (by simpa [Ty.plain] using ht) []
      | some _ => simp [Ty.plain] at ht
  | slice e _ =>
      intro p _
      cases he : e.isUint8 <;>
        simp [walkNode, deserializeCallback, Ty.zero, he, walkElems, Val.children] <;> rfl
  | iface => intro p ht; simp [Ty.plain] at ht
  | _ => intros; simp [walkNode, deserializeCallback, Ty.zero]; rfl

theorem walkNode_deserialize : ∀ (t : Ty) p v b rest, typed t v = true → fits t v = true →
    slicesWithin maxLen t v = true → t.noIface = true → codecsRoundTrip Γ t → enc Γ t v = .ok b →
    walkNode (deserializeCallback Γ maxLen) t p true t.zero (b ++ rest) = .ok (v, rest) := by
  intro t
  induction t with
  | uint w =>
      intro p v b rest hv _ _ _ _ h
      obtain ⟨x, rfl, hx⟩ := typed_uint hv
      cases h
      simp only [walkNode, deserializeCallback, readUint_littleEndian, Val.toNat, Nat.mod_eq_of_lt hx]
      rfl
  | string =>
      intro p v b rest hv hf _ _ _ h
      obtain ⟨s, rfl⟩ := typed_string hv
      cases h
      simp only [walkNode, deserializeCallback, Val.toBytes,
        readBytes_append (by simpa [fits, Val.toBytes] using hf)]
      rfl
  | slice e ih =>
      intro p v b rest hv hf hm hi hc h
      rcases typed_slice hv with ⟨he, s, rfl⟩ | ⟨he, xs, rfl, hxs⟩
      · simp only [enc, he, ↓reduceIte, Val.toBytes] at h
        cases h
        simp only [walkNode, he, ↓reduceIte, deserializeCallback,
          readBytes_append (by simpa [fits, he, Val.toBytes] using hf)]
        rfl
      · simp only [fits, he, Bool.false_eq_true, ↓reduceIte, Val.children,
          Bool.and_eq_true, decide_eq_true_eq] at hf
        simp only [slicesWithin, he, Bool.false_eq_true, ↓reduceIte, Val.children,
          Bool.and_eq_true, decide_eq_true_eq] at hm
        simp only [enc, he, Bool.false_eq_true, ↓reduceIte, Val.children] at h
        obtain ⟨es, hes, h⟩ := bind_eq_ok.mp h
        cases h
        have hlen : xs.length % 256 ^ 4 = xs.length := Nat.mod_eq_of_lt hf.1
        simp only [walkNode, he, Bool.false_eq_true, ↓reduceIte, deserializeCallback,
          Ty.zero, List.append_assoc, readUint_littleEndian, hlen, hm.1, ok_bind]
        have h := walkElems_deserialize (fun j v b rest hv hf hm =>
          ih (p ++ [j]) v b rest hv hf hm hi hc) xs [] es rest (List.all_eq_true.mpr hxs) hf.2 hm.2 hes
        simpa [Val.children] using h
  | struct c ts ih =>
      intro p v b rest hv hf hm hi hc h
      obtain ⟨vs, rfl, hvs⟩ := typed_struct hv
      cases c with
      | none =>
          simp only [walkNode, Option.isSome_none, Bool.and_false, Bool.false_eq_true,
            ↓reduceIte, Ty.zero]
          have h := walkFields_deserialize (p := p) ts ih vs [] b rest hvs
            (by simpa [fits, Val.children] using hf) (by simpa [slicesWithin, Val.children] using hm)
            (by simpa [Ty.noIface] using hi) (by simpa [codecsRoundTrip] using hc)
            (by simpa [enc, Val.children] using h)
          simpa using h
      | some c =>
          simp only [enc, Val.children] at h
          simp only [walkNode, Option.isSome_some, Bool.and_self, ↓reduceIte,
            deserializeCallback, Ty.zero, Val.children]
          rw [hc vs b rest hvs h]
          rfl
  | iface => intros; simp_all [Ty.noIface]

end

section
variable (Γ : Nat → Serializable) (maxLen : Nat)

theorem deserialize_settles_walkNode {t : Ty} (ht : ∀ e, t ≠ .slice e) {w : Val}
    (hs : shaped t true w = true) (r : List UInt8) :
    Settles (deserialize Γ maxLen · t w r)
      (walkNode (deserializeCallback Γ maxLen) t [] true w r >>= fun vr => pure (none, vr.1, vr.2)) := by
  obtain ⟨n, hn⟩ := strucWalker_eq_node (deserializeCallback_shaped Γ maxLen) ht hs r
  refine ⟨n, fun k => ?_⟩
  dsimp only at hn ⊢
  rw [deserialize, hn]
  dsimp only [node, Val.get_nil]
  cases walkNode (deserializeCallback Γ maxLen) t [] true w r <;> rfl

theorem deserialize_settles_enc {c : Option Nat} {ts : List Ty} {v : Val} {bs : List UInt8}
    (rest : List UInt8) (hv : typed (.struct c ts) v = true) (hf : fits (.struct c ts) v = true)
    (hm : slicesWithin maxLen (.struct c ts) v = true) (hi : (Ty.struct c ts).noIface = true)
    (hc : codecsRoundTrip Γ (.struct c ts)) (henc : enc Γ (.struct c ts) v = .ok bs) :
    Settles (deserialize Γ maxLen · (.struct c ts) (Ty.struct c ts).zero (bs ++ rest))
      (.ok (none, v, rest)) := by
  have h := deserialize_settles_walkNode Γ maxLen (fun _ h => Ty.noConfusion h)
    (shaped_zero (.struct c ts) true) (bs ++ rest)
  rwa [walkNode_deserialize _ [] v bs rest hv hf hm hi hc henc] at h

theorem serialize_deserialize_byValue (hΓ : ∀ c fs, ∃ bs, (Γ c).serialize fs = .ok bs)
    {c : Option Nat} {ts : List Ty} {v : Val} (hv : typed (.struct c ts) v = true)
    (hf : fits (.struct c ts) v = true) (hm : slicesWithin maxLen (.struct c ts) v = true)
    (hi : (Ty.struct c ts).noIface = true) (hc : codecsRoundTrip Γ (.struct c ts))
    (hs : (Ty.struct c ts).codecsInSlices = true) :
    ∃ payload, Settles (serialize Γ · (.struct c ts) v false) (.ok payload) ∧
      Settles (deserialize Γ maxLen · (.struct c ts) (Ty.struct c ts).zero payload)
        (.ok (none, v, [])) := by
  obtain ⟨payload, hp⟩ := enc_ok Γ hΓ _ _ hv
  have hser := serialize_settles_enc Γ (fun _ h => Ty.noConfusion h) hv (.inr hs : false = true ∨ _)
  rw [hp] at hser
  exact ⟨payload, hser, by simpa using deserialize_settles_enc Γ maxLen [] hv hf hm hi hc hp⟩

theorem deserialize_nil {c : Option Nat} {ts : List Ty} (ht : (Ty.struct c ts).plain = true) :
    Settles (deserialize Γ maxLen · (.struct c ts) (Ty.struct c ts).zero [])
      (.ok (none, (Ty.struct c ts).zero, [])) := by
  have h := deserialize_settles_walkNode Γ maxLen (t := .struct c ts) (fun _ h => Ty.noConfusion h)
    (shaped_zero _ true) []
  rwa [walkNode_deserialize_nil _ [] ht] at h

theorem deserialize_serialize {c : Option Nat} {ts : List Ty} {v : Val} {bs : List UInt8}
    (rest : List UInt8) (hv : typed (.struct c ts) v = true) (hf : fits (.struct c ts) v = true)
    (hm : slicesWithin maxLen (.struct c ts) v = true) (hi : (Ty.struct c ts).noIface = true)
    (hc : codecsRoundTrip Γ (.struct c ts))
    (hs : Settles (serialize Γ · (.struct c ts) v true) (.ok bs)) :
    Settles (deserialize Γ maxLen · (.struct c ts) (Ty.struct c ts).zero (bs ++ rest))
      (.ok (none, v, rest)) :=
  deserialize_settles_enc Γ maxLen rest hv hf hm hi hc
    (enc_of_serialize Γ (fun _ h => Ty.noConfusion h) hv (.inl rfl) hs)

end

theorem bytesWithoutLengthPrefix_reads_nothing :
    (∀ r, BytesWithoutLengthPrefix.deserialize (Ty.zeros [.slice (.uint .w8)]) r = .ok ([.bytes []], r)) ∧
      ¬ RoundTrips BytesWithoutLengthPrefix [.slice (.uint .w8)] := by
  have hread : ∀ r, BytesWithoutLengthPrefix.deserialize (Ty.zeros [.slice (.uint .w8)]) r =
      .ok ([.bytes []], r) := fun r => by
    simp [BytesWithoutLengthPrefix, Ty.zeros, Ty.zero, Ty.isUint8, bufferRead]
  refine ⟨hread, fun h => ?_⟩
  have h1 := h [.bytes [1]] [1] [] rfl rfl
  rw [hread] at h1
  simp at h1

/-- A struct with one `uint32` field whose codec reads it with `binary.Read` and
returns the error of the read. -/
def uint32Codec : Serializable where
  serialize fs := pure (littleEndian 4 (fs.headD default).toNat)
  deserialize _ r :=
    match readFull 4 r with
    | (.ok bs, r) => pure ([.uint (ofLittleEndian bs)], r)
    | (.error err, _) => throw err

theorem uint32Codec_roundTrips : RoundTrips uint32Codec [.uint .w32] := by
  intro fs bs rest hfs h
  obtain ⟨x, rfl, hx⟩ : ∃ x, fs = [.uint x] ∧ x < 256 ^ 4 := by
    rcases fs with _ | ⟨_ | _ | _ | _ | _, _ | _⟩ <;> simp_all [typedFields, typed, Width.bytes]
  cases h
  simp only [uint32Codec, readFull_append (length_littleEndian 4 _), List.headD_cons,
    Val.toNat, ofLittleEndian_littleEndian, Nat.mod_eq_of_lt hx]
  rfl

theorem deserialize_serialize_packet :
    typed (.struct none [.uint .w16, .string, .struct (some 0) [.uint .w32]])
        (.struct [.uint 258, .bytes [65], .struct [.uint 7]]) = true ∧
      fits (.struct none [.uint .w16, .string, .struct (some 0) [.uint .w32]])
        (.struct [.uint 258, .bytes [65], .struct [.uint 7]]) = true ∧
      slicesWithin (2 ^ 31 - 1) (.struct none [.uint .w16, .string, .struct (some 0) [.uint .w32]])
        (.struct [.uint 258, .bytes [65], .struct [.uint 7]]) = true ∧
      (Ty.struct none [.uint .w16, .string, .struct (some 0) [.uint .w32]]).noIface = true ∧
      codecsRoundTrip (fun _ => uint32Codec)
        (.struct none [.uint .w16, .string, .struct (some 0) [.uint .w32]]) ∧
      Settles (serialize (fun _ => uint32Codec) ·
          (.struct none [.uint .w16, .string, .struct (some 0) [.uint .w32]])
          (.struct [.uint 258, .bytes [65], .struct [.uint 7]]) true)
        (.ok [2, 1, 1, 0, 65, 7, 0, 0, 0]) ∧
      Settles (deserialize (fun _ => uint32Codec) (2 ^ 31 - 1) ·
          (.struct none [.uint .w16, .string, .struct (some 0) [.uint .w32]])
          (Ty.struct none [.uint .w16, .string, .struct (some 0) [.uint .w32]]).zero
          ([2, 1, 1, 0, 65, 7, 0, 0, 0] ++ [9]))
        (.ok (none, .struct [.uint 258, .bytes [65], .struct [.uint 7]], [9])) := by
  have hc : codecsRoundTrip (fun _ => uint32Codec)
      (.struct none [.uint .w16, .string, .struct (some 0) [.uint .w32]]) :=
    ⟨trivial, trivial, uint32Codec_roundTrips, trivial⟩
  have hs : Settles (serialize (fun _ => uint32Codec) ·
      (.struct none [.uint .w16, .string, .struct (some 0) [.uint .w32]])
      (.struct [.uint 258, .bytes [65], .struct [.uint 7]]) true)
      (.ok [2, 1, 1, 0, 65, 7, 0, 0, 0]) :=
    serialize_settles_enc _ (fun _ h => Ty.noConfusion h) rfl (.inl rfl)
  exact ⟨rfl, rfl, rfl, rfl, hc, hs, deserialize_serialize _ _ [9] rfl rfl rfl rfl hc hs⟩

theorem serialize_injective (Γ : Nat → Serializable) {c : Option Nat} {ts : List Ty} {v w : Val}
    {bs : List UInt8} (hv : typed (.struct c ts) v = true) (hw : typed (.struct c ts) w = true)
    (hfv : fits (.struct c ts) v = true) (hfw : fits (.struct c ts) w = true)
    (hi : (Ty.struct c ts).noIface = true) (hc : codecsRoundTrip Γ (.struct c ts))
    (hsv : Settles (serialize Γ · (.struct c ts) v true) (.ok bs))
    (hsw : Settles (serialize Γ · (.struct c ts) w true) (.ok bs)) : v = w := by
  have h := (deserialize_settles_enc Γ (2 ^ 32) [] hv hfv (slicesWithin_of_fits _ v hfv) hi hc
    (enc_of_serialize Γ (fun _ h => Ty.noConfusion h) hv (.inl rfl) hsv)).unique
    (deserialize_settles_enc Γ (2 ^ 32) [] hw hfw (slicesWithin_of_fits _ w hfw) hi hc
      (enc_of_serialize Γ (fun _ h => Ty.noConfusion h) hw (.inl rfl) hsw))
  cases h
  rfl

theorem serialize_injective_strings :
    typed (.struct none [.string, .string]) (.struct [.bytes [1], .bytes []]) = true ∧
      typed (.struct none [.string, .string]) (.struct [.bytes [1], .bytes []]) = true ∧
      fits (.struct none [.string, .string]) (.struct [.bytes [1], .bytes []]) = true ∧
      fits (.struct none [.string, .string]) (.struct [.bytes [1], .bytes []]) = true ∧
      (Ty.struct none [.string, .string]).noIface = true ∧
      codecsRoundTrip (fun _ => BytesWithoutLengthPrefix) (.struct none [.string, .string]) ∧
      Settles (serialize (fun _ => BytesWithoutLengthPrefix) · (.struct none [.string, .string])
        (.struct [.bytes [1], .bytes []]) true) (.ok [1, 0, 1, 0, 0]) ∧
      Val.struct [.bytes [1], .bytes []] = .struct [.bytes [1], .bytes []] := by
  have hs : Settles (serialize (fun _ => BytesWithoutLengthPrefix) · (.struct none [.string, .string])
      (.struct [.bytes [1], .bytes []]) true) (.ok [1, 0, 1, 0, 0]) :=
    serialize_settles_enc _ (fun _ h => Ty.noConfusion h) rfl (.inl rfl)
  exact ⟨rfl, rfl, rfl, rfl, rfl, ⟨trivial, trivial, trivial⟩, hs,
    serialize_injective _ (by rfl) (by rfl) (by rfl) (by rfl) (by rfl)
      (by exact ⟨trivial, trivial, trivial⟩) hs hs⟩

mutual
/-- The custom codecs, with their structs' fields, to which the walk of
`Deserialize` from a zero value can hand a struct. -/
def Ty.codecs : Ty → List (Nat × List Ty)
  | .struct (some c) ts => [(c, ts)]
  | .struct none ts => Ty.codecsFields ts
  | .slice e => e.codecs
  | _ => []

def Ty.codecsFields : List Ty → List (Nat × List Ty)
  | [] => []
  | t :: ts => t.codecs ++ Ty.codecsFields ts
end

theorem Ty.codecs_subset_codecsFields {t : Ty} {ts : List Ty} (h : t ∈ ts) :
    t.codecs ⊆ Ty.codecsFields ts := by
  induction ts with
  | nil => cases h
  | cons u us ih =>
      rcases List.mem_cons.mp h with rfl | h
      · exact List.subset_append_left _ _
      · exact (ih h).trans (List.subset_append_right _ _)

theorem Ty.noIfaceFields_eq_true {ts : List Ty} (h : Ty.noIfaceFields ts = true) :
    ∀ t ∈ ts, t.noIface = true := by
  induction ts with
  | nil => intro _ ht; cases ht
  | cons u us ih =>
      simp only [Ty.noIfaceFields, Bool.and_eq_true] at h
      intro t ht
      rcases List.mem_cons.mp ht with rfl | ht
      · exact h.1
      · exact ih h.2 t ht

section
variable (Γ : Nat → Serializable) (maxLen : Nat) (codecs : List (Nat × List Ty))

/-- A panic of `Deserialize` tied to the call that failed: a custom codec among
`codecs` returned `err` on the zero receiver the walk hands it, or
`reflect.MakeSlice` was asked for a `uint32` count over `maxLen`. -/
def DeserializeFault (f : Fault) : Prop :=
  (∃ c ts r err, (c, ts) ∈ codecs ∧ (Γ c).deserialize (Ty.zeros ts) r = .error err ∧
    f = deserializeFailed err) ∨
  ∃ len, maxLen < len ∧ len < 2 ^ 32 ∧ f = .makeSlice len

def PanicsOnlyInCalls {α : Type} (res : Except Fault α) : Prop :=
  ∀ f, res = .error f → DeserializeFault Γ maxLen codecs f

end

section
variable {Γ : Nat → Serializable} {maxLen : Nat} {codecs : List (Nat × List Ty)}

theorem PanicsOnlyInCalls.bind {α β : Type} {x : Except Fault α} {f : α → Except Fault β}
    (hx : PanicsOnlyInCalls Γ maxLen codecs x) (hf : ∀ a, PanicsOnlyInCalls Γ maxLen codecs (f a)) :
    PanicsOnlyInCalls Γ maxLen codecs (x >>= f) := by
  cases x with
  | error e =>
      intro _ h
      cases h
      exact hx e rfl
  | ok a => exact hf a

theorem panicsOnlyInCalls_ok {α : Type} (a : α) :
    PanicsOnlyInCalls Γ maxLen codecs (.ok a : Except Fault α) :=
  fun _ h => nomatch h

theorem PanicsOnlyInCalls.eq_ok {α : Type} {res : Except Fault α}
    (h : PanicsOnlyInCalls Γ maxLen [] res) (hm : 2 ^ 32 - 1 ≤ maxLen) : ∃ a, res = .ok a := by
  cases res with
  | ok a => exact ⟨a, rfl⟩
  | error f =>
      rcases h f rfl with ⟨_, _, _, _, hc, -⟩ | ⟨len, hlt, hlen, -⟩
      · cases hc
      · omega

private theorem walkElems_panics {e : Ty} {p : List Nat}
    (ih : ∀ j s, PanicsOnlyInCalls Γ maxLen codecs
      (walkNode (deserializeCallback Γ maxLen) e (p ++ [j]) true e.zero s)) :
    ∀ n (pre : List Val) s, PanicsOnlyInCalls Γ maxLen codecs
      (walkElems (fun j => walkNode (deserializeCallback Γ maxLen) e (p ++ [j]) true) n pre.length
        (.slice (pre ++ List.replicate n e.zero)) s) := by
  intro n
  induction n with
  | zero => intros; exact panicsOnlyInCalls_ok _
  | succ n ihn =>
      intro pre s
      have hchild : (Val.slice (pre ++ e.zero :: List.replicate n e.zero)).child pre.length =
          e.zero := getD_append_cons _ _ _
      rw [List.replicate_succ, walkElems, hchild]
      refine (ih _ _).bind fun ⟨x, s'⟩ => ?_
      dsimp only
      rw [(setChild_append_cons _ _ _ _).1, show pre.length + 1 = (pre ++ [x]).length by simp]
      exact ihn (pre ++ [x]) s'

private theorem walkFields_panics {p : List Nat} :
    ∀ us : List Ty, (∀ t ∈ us, ∀ q s, PanicsOnlyInCalls Γ maxLen codecs
        (walkNode (deserializeCallback Γ maxLen) t q true t.zero s)) →
      ∀ (pre : List Val) s, PanicsOnlyInCalls Γ maxLen codecs
        (walkFields (deserializeCallback Γ maxLen) us p true pre.length
          (.struct (pre ++ Ty.zeros us)) s) := by
  intro us
  induction us with
  | nil => intros; exact panicsOnlyInCalls_ok _
  | cons u us ihus =>
      intro hu pre s
      have hchild : (Val.struct (pre ++ u.zero :: Ty.zeros us)).child pre.length = u.zero :=
        getD_append_cons _ _ _
      rw [Ty.zeros, walkFields, hchild]
      refine (hu u (List.mem_cons_self _ _) _ _).bind fun ⟨x, s'⟩ => ?_
      dsimp only
      rw [(setChild_append_cons _ _ _ _).2, show pre.length + 1 = (pre ++ [x]).length by simp]
      exact ihus (fun t ht => hu t (List.mem_cons_of_mem _ ht)) (pre ++ [x]) s'

theorem walkNode_panicsOnlyInCalls : ∀ (t : Ty) p s, t.noIface = true → t.codecs ⊆ codecs →
    PanicsOnlyInCalls Γ maxLen codecs (walkNode (deserializeCallback Γ maxLen) t p true t.zero s) := by
  intro t
  induction t with
  | struct c ts ih =>
      intro p s hi hcs
      cases c with
      | none =>
          have h := walkFields_panics (p := p) ts (fun t ht q s =>
            ih t ht q s (Ty.noIfaceFields_eq_true (by simpa [Ty.noIface] using hi) t ht)
              ((Ty.codecs_subset_codecsFields ht).trans (by simpa [Ty.codecs] using hcs))) [] s
          simpa [walkNode, Ty.zero] using h
      | some c =>
          simp only [walkNode, Option.isSome_some, Bool.and_self, ↓reduceIte, deserializeCallback,
            Ty.zero, Val.children]
          split
          · exact panicsOnlyInCalls_ok _
          · rename_i err hd
            rintro _ ⟨⟩
            exact .inl ⟨c, ts, s, err, hcs (List.mem_singleton_self _), hd, rfl⟩
  | slice e ih =>
      intro p s hi hcs
      cases he : e.isUint8
      · have hlt := readUint_lt 4 s
        rcases hu : readUint 4 s with ⟨len, r⟩
        rw [hu] at hlt
        simp only [walkNode, he, Bool.false_eq_true, ↓reduceIte, deserializeCallback, hu, Ty.zero]
        by_cases hle : len ≤ maxLen
        · simp only [hle, ↓reduceIte, pure_bind, Val.children]
          simpa using walkElems_panics (fun j s => ih (p ++ [j]) s hi hcs) len [] r
        · simp only [hle, ↓reduceIte, throw_eq_error, error_bind]
          rintro _ ⟨⟩
          exact .inr ⟨len, by omega, hlt, rfl⟩
      · simp only [walkNode, he, ↓reduceIte, deserializeCallback]
        exact panicsOnlyInCalls_ok _
  | iface => intros; simp_all [Ty.noIface]
  | _ => intros; exact panicsOnlyInCalls_ok _

end

theorem deserialize_makeSlice_fails (Γ : Nat → Serializable) {maxLen : Nat} {e : Ty}
    (he : e.isUint8 = false) (ts : List Ty) {len : Nat} (hlen : maxLen < len) (hlt : len < 2 ^ 32)
    (rest : List UInt8) :
    Settles (deserialize Γ maxLen · (.struct none (.slice e :: ts))
      (Ty.struct none (.slice e :: ts)).zero (littleEndian 4 len ++ rest)) (.error (.makeSlice len)) := by
  have h := deserialize_settles_walkNode Γ maxLen (t := .struct none (.slice e :: ts))
    (fun _ h => Ty.noConfusion h) (shaped_zero _ true) (littleEndian 4 len ++ rest)
  have hmod : len % 4294967296 = len := Nat.mod_eq_of_lt (by simpa using hlt)
  rwa [show walkNode (deserializeCallback Γ maxLen) (.struct none (.slice e :: ts)) [] true
      (Ty.struct none (.slice e :: ts)).zero (littleEndian 4 len ++ rest) = .error (.makeSlice len) by
    simp [walkNode, walkFields, deserializeCallback, he, Ty.zero, Ty.zeros, Val.child, Val.children,
      readUint_littleEndian, hmod, Nat.not_le.mpr hlen]] at h

end Pasl.Utils
