import Pasl.Utils.Walker

/-!
# The walker runs the recursive traversal

`loop_resume`: from a stack whose top pair is `⟨v, b⟩`, the loop does exactly
what `resume` says is owed to that pair and comes back to the stack below it,
with the memory `resume` computes.  The induction follows the type below the
pair and, inside a struct or a slice, the children still to be scanned.  Of the
callback it needs only that it hands back values of the shape their type asks
for, which `Serialize` (it returns the value unchanged) and `Deserialize` (it
allocates zero values) both do.
-/

namespace Pasl.Utils

section
variable {σ : Type}

/-- A pair the loop can pop: its location exists and holds a value of the
shape its type asks for. -/
def Fits (x : RValue) (m : Mem σ) : Prop :=
  m.root.Reach x.path ∧ shaped x.ty x.addr (m.root.get x.path) = true

theorem call_ok {callback : Callback σ} {x : RValue} {m m' : Mem σ}
    (h : call callback x m = .ok m') :
    ∃ v s, callback x (m.root.get x.path) m.aux = .ok (v, s) ∧ m' = ⟨m.root.set x.path v, s⟩ := by
  obtain ⟨vs, hc, h⟩ := bind_eq_ok.mp h
  exact ⟨vs.1, vs.2, hc, (Except.ok.inj h).symm⟩

theorem node_ok {callback : Callback σ} {x : RValue} {m m' : Mem σ}
    (h : node callback x m = .ok m') :
    ∃ v s, walkNode callback x.ty x.path x.addr (m.root.get x.path) m.aux = .ok (v, s) ∧
      m' = ⟨m.root.set x.path v, s⟩ := by
  obtain ⟨vs, hc, h⟩ := bind_eq_ok.mp h
  exact ⟨vs.1, vs.2, hc, (Except.ok.inj h).symm⟩

theorem enter_root {callback : Callback σ} {x : RValue} {m m' : Mem σ}
    (h : enter callback x m = .ok m') : ∃ v, m'.root = m.root.set x.path v := by
  unfold enter at h
  split at h
  · obtain ⟨v, s, -, rfl⟩ := call_ok h
    exact ⟨v, rfl⟩
  · cases h
    exact ⟨m.root.get x.path, (Val.set_get _ _).symm⟩

private theorem shaped_of_isUint8 {e : Ty} (he : e.isUint8 = true) (a : Bool) (v : Val) :
    shaped e a v = true := by
  cases e with
  | uint w => cases w <;> simp [shaped]
  | _ => simp [Ty.isUint8] at he

theorem fits_child {x : RValue} {m : Mem σ} (hf : Fits x m) (hx : x.scans = true) {b : Nat}
    (hb : b < x.count m) : Fits (x.child b) m := by
  rcases x with ⟨p, t, a⟩
  cases t with
  | struct c ts =>
      have hc : (a && c.isSome) = false := by
        cases h : (a && c.isSome) <;> simp_all [RValue.scans]
      have hs : shapedFields ts a (m.root.get p).children = true := by
        simpa [Fits, shaped, hc] using hf.2
      have hlen := shapedFields_length hs
      refine ⟨(Val.reach_append _ _ _).mpr ⟨hf.1, ?_, trivial⟩, ?_⟩
      · show b < (m.root.get p).children.length
        simp only [RValue.count] at hb
        omega
      · simpa [RValue.child, Val.get_append, Val.child] using shapedFields_getD hs b
  | slice e =>
      refine ⟨(Val.reach_append _ _ _).mpr ⟨hf.1, hb, trivial⟩, ?_⟩
      simp only [RValue.child, Val.get_append, Val.get_cons, Val.get_nil]
      cases he : e.isUint8
      · have hs : (m.root.get p).children.all (shaped e true) = true := by
          simpa [Fits, shaped, he] using hf.2
        exact List.all_eq_true.mp hs _ (Val.child_mem hb)
      · exact shaped_of_isUint8 he _ _
  | _ => simp [RValue.scans] at hx

theorem fits_parent {x : RValue} {m m' : Mem σ} (hf : Fits x m) (hx : x.scans = true) {b : Nat}
    {c : Val} (hc : shaped (x.child b).ty (x.child b).addr c = true)
    (h : m'.root = m.root.set (x.path ++ [b]) c) : Fits x m' := by
  rcases x with ⟨p, t, a⟩
  refine ⟨h ▸ Val.reach_modifyAt_append hf.1 _ _, ?_⟩
  simp only [h, Val.get_set_append_singleton hf.1]
  cases t with
  | struct cd ts =>
      have hcd : (a && cd.isSome) = false := by
        cases h : (a && cd.isSome) <;> simp_all [RValue.scans]
      have hs : shapedFields ts a (m.root.get p).children = true := by
        simpa [Fits, shaped, hcd] using hf.2
      simpa [shaped, hcd] using shapedFields_set hs hc
  | slice e =>
      cases he : e.isUint8
      · have hs : (m.root.get p).children.all (shaped e true) = true := by
          simpa [Fits, shaped, he] using hf.2
        simpa [shaped, he] using Val.all_children_setChild hs fun _ => hc
      · simp [shaped, he]
  | _ => simp [RValue.scans] at hx

theorem count_set_child {x : RValue} {m m' : Mem σ} (hr : m.root.Reach x.path) {b : Nat}
    {c : Val} (h : m'.root = m.root.set (x.path ++ [b]) c) : x.count m' = x.count m := by
  unfold RValue.count
  split
  · rfl
  · rw [h]
    exact Val.length_children_get_modifyAt_append hr _ _ _
  · rfl

theorem drop_eq_cons {ts : List Ty} {i : Nat} {u : Ty} {us : List Ty}
    (h : ts.drop i = u :: us) : ts.getD i default = u ∧ ts.drop (i + 1) = us ∧ u ∈ ts := by
  have hi : i < ts.length := by
    by_contra hi
    rw [List.drop_eq_nil_of_le (Nat.le_of_not_lt hi)] at h
    cases h
  rw [List.drop_eq_getElem_cons hi] at h
  injection h with h1 h2
  exact ⟨by simp [hi, h1], h2, h1 ▸ List.getElem_mem hi⟩

variable {callback : Callback σ}

private theorem walkElems_shaped {e : Ty} {p : List Nat}
    (ih : ∀ j v s v' s', shaped e true v = true →
      walkNode callback e (p ++ [j]) true v s = .ok (v', s') → shaped e true v' = true) :
    ∀ n i v s v' s', v.children.all (shaped e true) = true →
      walkElems (fun j => walkNode callback e (p ++ [j]) true) n i v s = .ok (v', s') →
      v'.children.all (shaped e true) = true := by
  intro n
  induction n with
  | zero => intro i v s v' s' hv h; cases h; exact hv
  | succ n ihn =>
      intro i v s v' s' hv h
      obtain ⟨cs, hc, h⟩ := bind_eq_ok.mp h
      exact ihn _ _ _ _ _ (Val.all_children_setChild hv fun hi =>
        ih i _ _ _ _ (List.all_eq_true.mp hv _ (Val.child_mem hi)) hc) h

private theorem walkFields_shaped {ts : List Ty} {p : List Nat} {a : Bool}
    (ih : ∀ t ∈ ts, ∀ q a v s v' s', shaped t a v = true →
      walkNode callback t q a v s = .ok (v', s') → shaped t a v' = true) :
    ∀ us i v s v' s', ts.drop i = us → shapedFields ts a v.children = true →
      walkFields callback us p a i v s = .ok (v', s') → shapedFields ts a v'.children = true := by
  intro us
  induction us with
  | nil => intro i v s v' s' _ hv h; cases h; exact hv
  | cons u us ihus =>
      intro i v s v' s' hd hv h
      obtain ⟨hu, hd', hmem⟩ := drop_eq_cons hd
      obtain ⟨cs, hc, h⟩ := bind_eq_ok.mp h
      have hci : shaped u a cs.1 = true :=
        ih u hmem _ a _ _ _ _ (hu ▸ shapedFields_getD hv i) hc
      exact ihus (i + 1) _ _ _ _ hd' (by simpa using shapedFields_set hv (hu ▸ hci)) h

variable (hcb : ∀ x v s v' s', shaped x.ty x.addr v = true →
  callback x v s = .ok (v', s') → shaped x.ty x.addr v' = true)
include hcb

theorem walkNode_shaped : ∀ (t : Ty) p a v s v' s', shaped t a v = true →
    walkNode callback t p a v s = .ok (v', s') → shaped t a v' = true := by
  intro t
  induction t with
  | slice e ih =>
      intro p a v s v' s' hv h
      cases he : e.isUint8
      · simp only [walkNode, he, Bool.false_eq_true, ↓reduceIte] at h
        obtain ⟨vs, hc, h⟩ := bind_eq_ok.mp h
        have h1 := hcb ⟨p, .slice e, a⟩ v s vs.1 vs.2 hv hc
        simp only [shaped, he, Bool.false_or] at h1 ⊢
        exact walkElems_shaped (fun j => ih (p ++ [j]) true) _ _ _ _ _ _ h1 h
      · simp [shaped, he]
  | struct c ts ih =>
      intro p a v s v' s' hv h
      cases hc : (a && c.isSome)
      · simp only [walkNode, hc, Bool.false_eq_true, ↓reduceIte] at h
        simp only [shaped, hc, Bool.false_or] at hv ⊢
        exact walkFields_shaped ih ts 0 v s v' s' (List.drop_zero _) hv h
      · simp [shaped, hc]
  | _ => intros; simp [shaped]

theorem call_fits {x : RValue} {m m' : Mem σ} (hf : Fits x m)
    (h : call callback x m = .ok m') : Fits x m' := by
  obtain ⟨v, s, hc, rfl⟩ := call_ok h
  exact ⟨Val.reach_set hf.1 v, by simpa [Val.get_set hf.1] using hcb _ _ _ _ _ hf.2 hc⟩

theorem enter_fits {x : RValue} {m m' : Mem σ} (hf : Fits x m)
    (h : enter callback x m = .ok m') : Fits x m' := by
  unfold enter at h
  split at h
  · exact call_fits hcb hf h
  · cases h
    exact hf

omit hcb in
private theorem loop_of_not_scans {x : RValue} (hx : x.scans = false) (b : Nat) (m : Mem σ)
    (k : Nat) (rest : List Pair) :
    loop callback (k + 0 + 1) ⟨⟨x, b⟩ :: rest, m⟩ =
      resume callback ⟨x, b⟩ m >>= fun m' => loop callback k ⟨rest, m'⟩ := by
  rw [loop_succ_cons, visit_of_not_scans callback hx, resume_of_not_scans callback hx, bind_assoc]
  simp

private theorem loop_scans {x : RValue} (hx : x.scans = true)
    (ih : ∀ b (m : Mem σ), b < x.count m → (x.child b).deep = true → Fits (x.child b) m →
      ∃ n, ∀ k rest, loop callback (k + n + 1) ⟨⟨x.child b, 0⟩ :: rest, m⟩ =
        resume callback ⟨x.child b, 0⟩ m >>= fun m' => loop callback k ⟨rest, m'⟩) :
    ∀ r b (m : Mem σ), x.count m - b = r → Fits x m →
      ∃ n, ∀ k rest, loop callback (k + n + 1) ⟨⟨x, b⟩ :: rest, m⟩ =
        resume callback ⟨x, b⟩ m >>= fun m' => loop callback k ⟨rest, m'⟩ := by
  intro r
  induction r with
  | zero =>
      intro b m hr _
      refine ⟨0, fun k rest => ?_⟩
      rw [loop_succ_cons, visit_done callback hx (by omega), resume_done callback hx (by omega)]
      rfl
  | succ r ihr =>
      intro b m hr hf
      have hb : b < x.count m := by omega
      have hcf := fits_child hf hx hb
      have hset : ∀ (v : Val) (s : σ),
          (⟨m.root.set (x.child b).path v, s⟩ : Mem σ).root = m.root.set (x.path ++ [b]) v :=
        fun v s => by simp
      -- after the walk below child `b`, the scan goes on at `b + 1`
      have hback : ∀ m', node callback (x.child b) m = .ok m' →
          Fits x m' ∧ x.count m' - (b + 1) = r := by
        intro m' h
        obtain ⟨v, s, hw, rfl⟩ := node_ok h
        have hv := walkNode_shaped hcb _ _ _ _ _ _ _ hcf.2 hw
        refine ⟨fits_parent hf hx hv (hset v s), ?_⟩
        rw [count_set_child hf.1 (hset v s)]
        omega
      have hres := resume_cons callback hx hb hf.1
      cases hd : (x.child b).deep with
      | false =>
          rw [node_of_not_deep callback hd] at hres hback
          have hvis := visit_shallow callback hx hb hd fun m' h => by
            obtain ⟨v, s, -, rfl⟩ := call_ok h
            exact count_set_child hf.1 (hset v s)
          cases hc : call callback (x.child b) m with
          | error e =>
              exact ⟨0, fun k rest => by simp only [loop_succ_cons, hvis, hres, hc, error_bind]⟩
          | ok m' =>
              obtain ⟨hf', hr'⟩ := hback m' hc
              obtain ⟨n, hn⟩ := ihr (b + 1) m' hr' hf'
              exact ⟨n, fun k rest => by simp only [loop_succ_cons, hvis, hres, hc, ok_bind, ← hn]⟩
      | true =>
          rw [node_of_deep callback hd hcf.1] at hres hback
          have hvis := visit_deep callback hx hb hd
          cases he : enter callback (x.child b) m with
          | error e =>
              exact ⟨0, fun k rest => by simp only [loop_succ_cons, hvis, hres, he, error_bind]⟩
          | ok m₁ =>
              have hf₁ := enter_fits hcb hcf he
              obtain ⟨v₁, hv₁⟩ := enter_root he
              have hb₁ : b < x.count m₁ := by
                rw [count_set_child hf.1 (hv₁.trans (hset v₁ m₁.aux))]
                exact hb
              obtain ⟨n₁, hn₁⟩ := ih b m₁ hb₁ hd hf₁
              cases hr₁ : resume callback ⟨x.child b, 0⟩ m₁ with
              | error e =>
                  refine ⟨n₁ + 1, fun k rest => ?_⟩
                  rw [show k + (n₁ + 1) + 1 = (k + n₁ + 1) + 1 by omega]
                  simp only [loop_succ_cons, hvis, hres, he, ok_bind, pure_bind, hn₁, hr₁,
                    error_bind]
              | ok m₂ =>
                  obtain ⟨hf₂, hr₂⟩ := hback m₂ (by simp only [he, ok_bind, hr₁])
                  obtain ⟨n₃, hn₃⟩ := ihr (b + 1) m₂ hr₂ hf₂
                  refine ⟨n₁ + n₃ + 2, fun k rest => ?_⟩
                  rw [show k + (n₁ + n₃ + 2) + 1 = ((k + n₃ + 1) + n₁ + 1) + 1 by omega]
                  rw [hres, loop_succ_cons, hvis, he]
                  simp only [ok_bind, pure_bind, hn₁, hr₁]
                  exact hn₃ k rest

theorem loop_resume : ∀ (t : Ty) (x : RValue), x.ty = t → ∀ b (m : Mem σ), Fits x m →
    ∃ n, ∀ k rest, loop callback (k + n + 1) ⟨⟨x, b⟩ :: rest, m⟩ =
      resume callback ⟨x, b⟩ m >>= fun m' => loop callback k ⟨rest, m'⟩ := by
  intro t
  induction t with
  | struct c ts ih =>
      intro x hx b m hf
      cases hs : x.scans with
      | false => exact ⟨0, loop_of_not_scans hs b m⟩
      | true =>
          refine loop_scans hcb hs (fun b' m' hb' _ hf' => ?_) _ b m rfl hf
          have hb'' : b' < ts.length := by simpa [RValue.count, hx] using hb'
          have hty : (x.child b').ty = ts.getD b' default := by simp [RValue.child, hx]
          exact ih _ (by simp [hty, hb'']) _ hty 0 m' hf'
  | slice e ih =>
      intro x hx b m hf
      have hs : x.scans = true := by simp [RValue.scans, hx]
      exact loop_scans hcb hs (fun b' m' _ _ hf' => ih _ (by simp [RValue.child, hx]) 0 m' hf')
        _ b m rfl hf
  | _ =>
      intro x hx b m _
      exact ⟨0, loop_of_not_scans (by simp [RValue.scans, hx]) b m⟩

omit hcb in
private theorem resume_root {t : Ty} (ht : ∀ e, t ≠ .slice e) (isPtr : Bool) (m : Mem σ) :
    resume callback ⟨⟨[], t, isPtr⟩, 0⟩ m = node callback ⟨[], t, isPtr⟩ m := by
  cases hs : RValue.scans ⟨[], t, isPtr⟩ with
  | false =>
      have hd : RValue.deep ⟨[], t, isPtr⟩ = false := by
        cases t <;> simp_all [RValue.scans, RValue.deep]
      rw [resume_of_not_scans callback hs, node_of_not_deep callback hd]
  | true =>
      have hd : RValue.deep ⟨[], t, isPtr⟩ = true := by
        cases t <;> simp_all [RValue.scans, RValue.deep]
      have he : enter callback ⟨[], t, isPtr⟩ m = pure m := by
        cases t <;> simp_all [enter]
      rw [node_of_deep callback hd trivial, he, pure_bind]

theorem strucWalker_eq_node {t : Ty} (ht : ∀ e, t ≠ .slice e) {isPtr : Bool} {struc : Val}
    (hs : shaped t isPtr struc = true) (aux : σ) :
    Settles (strucWalker callback · struc t isPtr aux) (node callback ⟨[], t, isPtr⟩ ⟨struc, aux⟩) := by
  obtain ⟨n, hn⟩ := loop_resume hcb t ⟨[], t, isPtr⟩ rfl 0 ⟨struc, aux⟩ ⟨trivial, hs⟩
  refine ⟨n, fun k => ?_⟩
  dsimp only
  rw [strucWalker, hn, resume_root ht]
  cases node callback ⟨[], t, isPtr⟩ ⟨struc, aux⟩ <;> simp [loop_nil]

end

end Pasl.Utils
