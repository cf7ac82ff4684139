import Pasl.Utils.Deserialize

/-!
# What `Deserialize` reads

On every input, the walk of `Deserialize(&w)` from a zero value returns a value
of the type that fits every length prefix, and it consumed either exactly the
bytes `Serialize(&v)` writes of that value, or all of an input too short for
them.  Each `binary.Read` reads its whole width or drains the buffer, a drained
buffer stays drained, and the lengths read back are below the bounds their
prefixes can carry.

`deserialize_serialize` reads back what `Serialize` wrote; this is the other
direction: what `Deserialize` reads whole is what `Serialize` writes, so a
value has one encoding that `Deserialize` reads whole.
-/

namespace Pasl.Utils

/-- A read from `r` that leaves `rest` and returns a value that `b` encodes: it
consumed exactly `b`, or it drained an input shorter than `b`. -/
def ReadsBack (b r rest : List UInt8) : Prop :=
  r = b ++ rest ∨ rest = [] ∧ r.length < b.length

theorem ReadsBack.nil (r : List UInt8) : ReadsBack [] r r := .inl rfl

theorem ReadsBack.append {b₁ b₂ r r₁ rest : List UInt8} (h₁ : ReadsBack b₁ r r₁)
    (h₂ : ReadsBack b₂ r₁ rest) : ReadsBack (b₁ ++ b₂) r rest := by
  rcases h₁ with rfl | ⟨rfl, h₁⟩
  · rcases h₂ with rfl | ⟨rfl, h₂⟩
    · exact .inl (List.append_assoc _ _ _).symm
    · exact .inr ⟨rfl, by simp only [List.length_append]; omega⟩
  · rcases h₂ with h₂ | ⟨rfl, -⟩
    · obtain ⟨rfl, rfl⟩ := List.append_eq_nil.mp h₂.symm
      exact .inr ⟨rfl, by simpa using h₁⟩
    · exact .inr ⟨rfl, by simp only [List.length_append]; omega⟩

private theorem littleEndian_take {n : Nat} {r : List UInt8} (h : n ≤ r.length) :
    littleEndian n (ofLittleEndian (r.take n)) = r.take n := by
  have hl : (r.take n).length = n := by simp only [List.length_take]; omega
  simpa only [hl] using littleEndian_ofLittleEndian (r.take n)

theorem readUint_readsBack (width : Nat) (r : List UInt8) :
    ReadsBack (littleEndian width (readUint width r).1) r (readUint width r).2 := by
  by_cases h : width ≤ r.length
  · simp only [readUint, readFull, h, ↓reduceIte, littleEndian_take h]
    exact .inl (List.take_append_drop width r).symm
  · simp only [readUint, readFull, h, ↓reduceIte]
    exact .inr ⟨rfl, by rw [length_littleEndian]; omega⟩

theorem readBytes_readsBack (r : List UInt8) :
    (readBytes r).1.length < 2 ^ 16 ∧
      ReadsBack (littleEndian 2 (readBytes r).1.length ++ (readBytes r).1) r (readBytes r).2 := by
  have hu := readUint_readsBack 2 r
  have hlt := readUint_lt 2 r
  rcases hr : readUint 2 r with ⟨len, r₁⟩
  rw [hr] at hu hlt
  simp only at hu hlt
  by_cases h : len ≤ r₁.length
  · have hl : (r₁.take len).length = len := by simp only [List.length_take]; omega
    simp only [readBytes, hr, readFull, h, ↓reduceIte, hl]
    exact ⟨by simpa using hlt, hu.append (.inl (List.take_append_drop len r₁).symm)⟩
  · simp only [readBytes, hr, readFull, h, ↓reduceIte, List.length_replicate]
    exact ⟨by simpa using hlt, hu.append (.inr ⟨rfl, by simp only [List.length_replicate]; omega⟩)⟩

/-- A custom codec that, into a zero receiver for the fields `ts`, reads fields
of those types that it would write as the bytes it consumed, or drains an input
too short for them. -/
def ReadsCanonically (codec : Serializable) (ts : List Ty) : Prop :=
  ∀ r fs rest, codec.deserialize (Ty.zeros ts) r = .ok (fs, rest) →
    typedFields ts fs = true ∧ ∃ b, codec.serialize fs = .ok b ∧ ReadsBack b r rest

mutual
def codecsReadCanonically (Γ : Nat → Serializable) : Ty → Prop
  | .struct (some c) ts => ReadsCanonically (Γ c) ts
  | .struct none ts => codecsReadCanonicallyFields Γ ts
  | .slice e => codecsReadCanonically Γ e
  | _ => True

def codecsReadCanonicallyFields (Γ : Nat → Serializable) : List Ty → Prop
  | [] => True
  | t :: ts => codecsReadCanonically Γ t ∧ codecsReadCanonicallyFields Γ ts
end

theorem uint32Codec_readsCanonically : ReadsCanonically uint32Codec [.uint .w32] := by
  intro r fs rest h
  by_cases hr : 4 ≤ r.length
  · simp only [uint32Codec, readFull, hr, ↓reduceIte] at h
    cases h
    refine ⟨by simpa [typedFields, typed, Width.bytes, hr] using ofLittleEndian_lt (r.take 4),
      _, rfl, .inl ?_⟩
    simp only [List.headD_cons, Val.toNat, littleEndian_take hr, List.take_append_drop]
  · simp [uint32Codec, readFull, hr] at h

section
variable {Γ : Nat → Serializable} {maxLen : Nat}

private theorem walkElems_readsBack {e : Ty} {p : List Nat}
    (ih : ∀ j r v rest,
      walkNode (deserializeCallback Γ maxLen) e (p ++ [j]) true e.zero r = .ok (v, rest) →
      typed e v = true ∧ fits e v = true ∧ slicesWithin maxLen e v = true ∧
        ∃ b, enc Γ e v = .ok b ∧ ReadsBack b r rest) :
    ∀ (n : Nat) (pre : List Val) (r : List UInt8) (v : Val) (rest : List UInt8),
      walkElems (fun j => walkNode (deserializeCallback Γ maxLen) e (p ++ [j]) true) n pre.length
        (.slice (pre ++ List.replicate n e.zero)) r = .ok (v, rest) →
      ∃ xs, v = .slice (pre ++ xs) ∧ xs.length = n ∧ xs.all (typed e) = true ∧
        xs.all (fits e) = true ∧ xs.all (slicesWithin maxLen e) = true ∧
        ∃ es, xs.mapM (enc Γ e) = .ok es ∧ ReadsBack es.flatten r rest := by
  intro n
  induction n with
  | zero =>
      intro pre r v rest h
      cases h
      exact ⟨[], by simp, rfl, rfl, rfl, rfl, [], rfl, .nil r⟩
  | succ n ihn =>
      intro pre r v rest h
      have hchild : (Val.slice (pre ++ e.zero :: List.replicate n e.zero)).child pre.length =
          e.zero := getD_append_cons _ _ _
      rw [List.replicate_succ, walkElems, hchild] at h
      obtain ⟨⟨x, r₁⟩, hx, h⟩ := bind_eq_ok.mp h
      obtain ⟨htx, hfx, hmx, b, hb, hrb⟩ := ih _ _ _ _ hx
      dsimp only at h
      rw [(setChild_append_cons _ _ _ _).1, show pre.length + 1 = (pre ++ [x]).length by simp] at h
      obtain ⟨xs, rfl, hlen, ht, hf, hm, es, hes, hrs⟩ := ihn _ _ _ _ h
      refine ⟨x :: xs, by simp, by simp [hlen], by simp [htx, ht], by simp [hfx, hf],
        by simp [hmx, hm], b :: es, by rw [List.mapM_cons, hb, hes]; rfl, ?_⟩
      rw [List.flatten_cons]
      exact hrb.append hrs

private theorem walkFields_readsBack {p : List Nat} :
    ∀ (us : List Ty), (∀ t ∈ us, ∀ q r v rest, t.noIface = true → codecsReadCanonically Γ t →
        walkNode (deserializeCallback Γ maxLen) t q true t.zero r = .ok (v, rest) →
        typed t v = true ∧ fits t v = true ∧ slicesWithin maxLen t v = true ∧
          ∃ b, enc Γ t v = .ok b ∧ ReadsBack b r rest) →
      ∀ (pre : List Val) (r : List UInt8) (v : Val) (rest : List UInt8),
        Ty.noIfaceFields us = true → codecsReadCanonicallyFields Γ us →
        walkFields (deserializeCallback Γ maxLen) us p true pre.length
          (.struct (pre ++ Ty.zeros us)) r = .ok (v, rest) →
        ∃ vs, v = .struct (pre ++ vs) ∧ typedFields us vs = true ∧ fitsFields us vs = true ∧
          slicesWithinFields maxLen us vs = true ∧ ∃ b, encFields Γ us vs = .ok b ∧ ReadsBack b r rest := by
  intro us
  induction us with
  | nil =>
      intro _ pre r v rest _ _ h
      cases h
      exact ⟨[], by simp [Ty.zeros], rfl, rfl, rfl, [], rfl, .nil r⟩
  | cons u us ihus =>
      intro ih pre r v rest hi hc h
      simp only [Ty.noIfaceFields, Bool.and_eq_true] at hi
      have hchild : (Val.struct (pre ++ u.zero :: Ty.zeros us)).child pre.length = u.zero :=
        getD_append_cons _ _ _
      rw [Ty.zeros, walkFields, hchild] at h
      obtain ⟨⟨x, r₁⟩, hx, h⟩ := bind_eq_ok.mp h
      obtain ⟨htx, hfx, hmx, b, hb, hrb⟩ := ih u (List.mem_cons_self _ _) _ _ _ _ hi.1 hc.1 hx
      dsimp only at h
      rw [(setChild_append_cons _ _ _ _).2, show pre.length + 1 = (pre ++ [x]).length by simp] at h
      obtain ⟨xs, rfl, ht, hf, hm, bs, hbs, hrs⟩ :=
        ihus (fun t ht => ih t (List.mem_cons_of_mem _ ht)) _ _ _ _ hi.2 hc.2 h
      refine ⟨x :: xs, by simp, by simp [typedFields, htx, ht], by simp [fitsFields, hfx, hf],
        by simp [slicesWithinFields, hmx, hm], b ++ bs, ?_, hrb.append hrs⟩
      simp only [encFields, List.headD_cons, List.tail_cons, hb, hbs]
      rfl

theorem walkNode_readsBack : ∀ (t : Ty) p r v rest, t.noIface = true → codecsReadCanonically Γ t →
    walkNode (deserializeCallback Γ maxLen) t p true t.zero r = .ok (v, rest) →
    typed t v = true ∧ fits t v = true ∧ slicesWithin maxLen t v = true ∧
      ∃ b, enc Γ t v = .ok b ∧ ReadsBack b r rest := by
  intro t
  induction t with
  | uint w =>
      intro p r v rest _ _ h
      rcases hu : readUint w.bytes r with ⟨n, r₁⟩
      have hlt := readUint_lt w.bytes r
      have hrb := readUint_readsBack w.bytes r
      rw [hu] at hlt hrb
      simp only [walkNode, deserializeCallback, hu] at h
      cases h
      exact ⟨decide_eq_true hlt, rfl, rfl, _, rfl, hrb⟩
  | string =>
      intro p r v rest _ _ h
      obtain ⟨hlt, hrb⟩ := readBytes_readsBack r
      rcases hb : readBytes r with ⟨str, r₁⟩
      rw [hb] at hlt hrb
      simp only [walkNode, deserializeCallback, hb] at h
      cases h
      exact ⟨rfl, decide_eq_true hlt, rfl, _, rfl, hrb⟩
  | slice e ih =>
      intro p r v rest hi hc h
      cases he : e.isUint8
      · rcases hu : readUint 4 r with ⟨len, r₁⟩
        have hlt := readUint_lt 4 r
        have hrb := readUint_readsBack 4 r
        rw [hu] at hlt hrb
        simp only [walkNode, he, Bool.false_eq_true, ↓reduceIte, deserializeCallback, Ty.zero,
          hu] at h
        by_cases hle : len ≤ maxLen
        · simp only [hle, ↓reduceIte, pure_bind, Val.children] at h
          obtain ⟨xs, rfl, hlen, ht, hf, hm, es, hes, hrs⟩ :=
            walkElems_readsBack (fun j r v rest => ih (p ++ [j]) r v rest hi hc) len [] r₁ v rest
              (by simpa using h)
          refine ⟨by simp [typed, he, ht], ?_, ?_, _, ?_, hrb.append hrs⟩
          · simp only [fits, he, Bool.false_eq_true, ↓reduceIte, Val.children, List.nil_append,
              Bool.and_eq_true, decide_eq_true_eq, hf, and_true, hlen]
            simpa using hlt
          · simp [slicesWithin, he, Val.children, hm, hlen, hle]
          · simp only [enc, he, Bool.false_eq_true, ↓reduceIte, Val.children, List.nil_append, hes,
              hlen]
            rfl
        · simp [hle] at h
      · obtain ⟨hlt, hrb⟩ := readBytes_readsBack r
        rcases hb : readBytes r with ⟨data, r₁⟩
        rw [hb] at hlt hrb
        simp only [walkNode, he, ↓reduceIte, deserializeCallback, hb] at h
        cases h
        exact ⟨by simp [typed, he], by simpa [fits, he, Val.toBytes] using hlt,
          by simp [slicesWithin, he], _, by simp [enc, he, Val.toBytes]; rfl, hrb⟩
  | struct c ts ih =>
      intro p r v rest hi hc h
      cases c with
      | none =>
          simp only [walkNode, Option.isSome_none, Bool.and_false, Bool.false_eq_true,
            ↓reduceIte, Ty.zero] at h
          obtain ⟨vs, rfl, ht, hf, hm, b, hb, hrb⟩ := walkFields_readsBack ts ih [] r v rest
            (by simpa [Ty.noIface] using hi) (by simpa [codecsReadCanonically] using hc)
            (by simpa using h)
          exact ⟨by simpa [typed] using ht, by simpa [fits, Val.children] using hf,
            by simpa [slicesWithin, Val.children] using hm, b, by simpa [enc, Val.children] using hb,
            hrb⟩
      | some c =>
          simp only [walkNode, Option.isSome_some, Bool.and_self, ↓reduceIte, deserializeCallback,
            Ty.zero, Val.children] at h
          rcases hd : (Γ c).deserialize (Ty.zeros ts) r with _ | ⟨fs, r₁⟩
          · simp [hd] at h
          · simp only [hd] at h
            cases h
            obtain ⟨ht, b, hb, hrb⟩ := hc r fs _ hd
            exact ⟨by simpa [typed] using ht, rfl, rfl, b, by simpa [enc, Val.children] using hb, hrb⟩
  | iface => intros; simp_all [Ty.noIface]

end

section
variable {Γ : Nat → Serializable} {maxLen : Nat}

end

end Pasl.Utils
