import Mathlib.Data.List.Nodup
import Pasl.Utils.Simulation

/-!
# The walker calls each node once, in pre-order

`logged callback` is `callback` with a log of the nodes it is called on.  Run
with it, `strucWalker` settles on what `node` computes, log included: the loop
makes the calls of the recursive traversal `walkNode` in the same order.  The
log of a walk below `p` holds only paths that extend `p`, the logs of two
siblings hold disjoint paths, and a slice header is shorter than every path
below it; so no path is logged twice.
-/

namespace Pasl.Utils

section
variable {σ : Type}

/-- `callback`, appending the node it is called on to a log kept beside its own state. -/
def logged (callback : Callback σ) : Callback (σ × List RValue) := fun x v s => do
  let (v, aux) ← callback x v s.1
  pure (v, aux, s.2 ++ [x])

theorem logged_ok {callback : Callback σ} {x : RValue} {v v' : Val} {s s' : σ × List RValue}
    (h : logged callback x v s = .ok (v', s')) :
    callback x v s.1 = .ok (v', s'.1) ∧ s'.2 = s.2 ++ [x] := by
  obtain ⟨⟨u, aux⟩, hc, h⟩ := bind_eq_ok.mp h
  cases h
  exact ⟨hc, rfl⟩

/-- What a walk below `p` logs: paths that extend `p`, none twice. -/
structure LogBelow (p : List Nat) (L : List RValue) : Prop where
  under : ∀ x ∈ L, p <+: x.path
  nodup : (L.map RValue.path).Nodup

structure LogChildren (p : List Nat) (i : Nat) (L : List RValue) : Prop where
  under : ∀ x ∈ L, ∃ j, i ≤ j ∧ p ++ [j] <+: x.path
  nodup : (L.map RValue.path).Nodup

private theorem eq_of_sibling {p q : List Nat} {i j : Nat} (hi : p ++ [i] <+: q)
    (hj : p ++ [j] <+: q) : i = j := by
  obtain ⟨r, rfl⟩ := hi
  obtain ⟨r', h⟩ := hj
  simp only [List.append_assoc, List.append_cancel_left_eq, List.singleton_append,
    List.cons.injEq] at h
  exact h.1.symm

theorem LogBelow.single (x : RValue) : LogBelow x.path [x] := ⟨by simp, by simp⟩

theorem LogChildren.nil (p : List Nat) (i : Nat) : LogChildren p i [] := ⟨by simp, by simp⟩

theorem LogChildren.cons {p : List Nat} {i : Nat} {L L' : List RValue}
    (h : LogBelow (p ++ [i]) L) (h' : LogChildren p (i + 1) L') : LogChildren p i (L ++ L') := by
  refine ⟨fun x hx => ?_, ?_⟩
  · rcases List.mem_append.mp hx with hx | hx
    · exact ⟨i, le_rfl, h.under x hx⟩
    · obtain ⟨j, hj, hx⟩ := h'.under x hx
      exact ⟨j, by omega, hx⟩
  · rw [List.map_append]
    refine h.nodup.append h'.nodup fun q hq hq' => ?_
    obtain ⟨x, hx, rfl⟩ := List.mem_map.mp hq
    obtain ⟨y, hy, hxy⟩ := List.mem_map.mp hq'
    obtain ⟨j, hj, hy⟩ := h'.under y hy
    have := eq_of_sibling (h.under x hx) (hxy ▸ hy)
    omega

theorem LogChildren.below {p : List Nat} {i : Nat} {L : List RValue} (h : LogChildren p i L) :
    LogBelow p L :=
  ⟨fun x hx => let ⟨_, _, hx⟩ := h.under x hx; (List.prefix_append p _).trans hx, h.nodup⟩

theorem LogChildren.header {L : List RValue} (x : RValue) (h : LogChildren x.path 0 L) :
    LogBelow x.path (x :: L) := by
  refine ⟨?_, ?_⟩
  · simpa using h.below.under
  · rw [List.map_cons, List.nodup_cons]
    refine ⟨fun hx => ?_, h.nodup⟩
    obtain ⟨y, hy, hyx⟩ := List.mem_map.mp hx
    obtain ⟨j, -, hj⟩ := h.under y hy
    have := hj.length_le
    simp [hyx] at this

variable {callback : Callback σ}

private theorem walkElems_log {p : List Nat}
    {body : Nat → Val → σ × List RValue → Except Fault (Val × σ × List RValue)}
    (ih : ∀ j v s v' s', body j v s = .ok (v', s') → ∃ L, s'.2 = s.2 ++ L ∧ LogBelow (p ++ [j]) L) :
    ∀ n i v s v' s', walkElems body n i v s = .ok (v', s') →
      ∃ L, s'.2 = s.2 ++ L ∧ LogChildren p i L := by
  intro n
  induction n with
  | zero => intro i v s v' s' h; cases h; exact ⟨[], by simp, .nil p i⟩
  | succ n ihn =>
      intro i v s v' s' h
      obtain ⟨cs, hc, h⟩ := bind_eq_ok.mp h
      obtain ⟨L, hL, hb⟩ := ih i _ _ _ _ hc
      obtain ⟨L', hL', hr⟩ := ihn _ _ _ _ _ h
      exact ⟨L ++ L', by rw [hL', hL, List.append_assoc], LogChildren.cons hb hr⟩

private theorem walkFields_log {ts : List Ty} {p : List Nat} {a : Bool}
    (ih : ∀ t ∈ ts, ∀ q a v s v' s', walkNode (logged callback) t q a v s = .ok (v', s') →
      ∃ L, s'.2 = s.2 ++ L ∧ LogBelow q L) :
    ∀ us i v s v' s', ts.drop i = us → walkFields (logged callback) us p a i v s = .ok (v', s') →
      ∃ L, s'.2 = s.2 ++ L ∧ LogChildren p i L := by
  intro us
  induction us with
  | nil => intro i v s v' s' _ h; cases h; exact ⟨[], by simp, .nil p i⟩
  | cons u us ihus =>
      intro i v s v' s' hd h
      obtain ⟨-, hd', hmem⟩ := drop_eq_cons hd
      obtain ⟨cs, hc, h⟩ := bind_eq_ok.mp h
      obtain ⟨L, hL, hb⟩ := ih u hmem _ _ _ _ _ _ hc
      obtain ⟨L', hL', hr⟩ := ihus _ _ _ _ _ hd' h
      exact ⟨L ++ L', by rw [hL', hL, List.append_assoc], LogChildren.cons hb hr⟩

private theorem logged_log {x : RValue} {v v' : Val} {s s' : σ × List RValue}
    (h : logged callback x v s = .ok (v', s')) : ∃ L, s'.2 = s.2 ++ L ∧ LogBelow x.path L :=
  ⟨[x], (logged_ok h).2, .single x⟩

theorem walkNode_log : ∀ (t : Ty) p a v s v' s', walkNode (logged callback) t p a v s = .ok (v', s') →
    ∃ L, s'.2 = s.2 ++ L ∧ LogBelow p L := by
  intro t
  induction t with
  | slice e ih =>
      intro p a v s v' s' h
      cases he : e.isUint8
      · simp only [walkNode, he, Bool.false_eq_true, ↓reduceIte] at h
        obtain ⟨cs, hc, h⟩ := bind_eq_ok.mp h
        obtain ⟨L, hL, hl⟩ := walkElems_log (fun j => ih (p ++ [j]) true) _ 0 _ _ _ _ h
        refine ⟨⟨p, .slice e, a⟩ :: L, ?_, LogChildren.header ⟨p, .slice e, a⟩ hl⟩
        rw [hL, (logged_ok hc).2, List.append_assoc, List.singleton_append]
      · simp only [walkNode, he, ↓reduceIte] at h
        exact logged_log h
  | struct c ts ih =>
      intro p a v s v' s' h
      cases hc : (a && c.isSome)
      · simp only [walkNode, hc, Bool.false_eq_true, ↓reduceIte] at h
        obtain ⟨L, hL, hl⟩ := walkFields_log ih ts 0 v s v' s' (List.drop_zero _) h
        exact ⟨L, hL, hl.below⟩
      · simp only [walkNode, hc, ↓reduceIte] at h
        exact logged_log h
  | _ => intro p a v s v' s' h; exact logged_log h

def Mem.unlog (m : Mem (σ × List RValue)) : Mem σ := ⟨m.root, m.aux.1⟩

private theorem logged_unlog (x : RValue) (v : Val) (s : σ × List RValue) :
    (fun r : Val × σ × List RValue => (r.1, r.2.1)) <$> logged callback x v s = callback x v s.1 := by
  unfold logged
  cases callback x v s.1 <;> rfl

private theorem walkElems_unlog
    {body : Nat → Val → σ × List RValue → Except Fault (Val × σ × List RValue)}
    {body₀ : Nat → Val → σ → Except Fault (Val × σ)}
    (ih : ∀ j v s, (fun r : Val × σ × List RValue => (r.1, r.2.1)) <$> body j v s = body₀ j v s.1) :
    ∀ n i v s, (fun r : Val × σ × List RValue => (r.1, r.2.1)) <$> walkElems body n i v s =
      walkElems body₀ n i v s.1 := by
  intro n
  induction n with
  | zero => intro i v s; rfl
  | succ n ihn =>
      intro i v s
      rw [walkElems, walkElems, ← ih]
      cases body i (v.child i) s with
      | error => rfl
      | ok r => exact ihn _ _ _

private theorem walkFields_unlog {ts : List Ty} {p : List Nat} {a : Bool}
    (ih : ∀ t ∈ ts, ∀ q a v s, (fun r : Val × σ × List RValue => (r.1, r.2.1)) <$>
      walkNode (logged callback) t q a v s = walkNode callback t q a v s.1) :
    ∀ us i v s, ts.drop i = us → (fun r : Val × σ × List RValue => (r.1, r.2.1)) <$>
      walkFields (logged callback) us p a i v s = walkFields callback us p a i v s.1 := by
  intro us
  induction us with
  | nil => intro i v s _; rfl
  | cons u us ihus =>
      intro i v s hd
      obtain ⟨-, hd', hmem⟩ := drop_eq_cons hd
      rw [walkFields, walkFields, ← ih u hmem]
      cases walkNode (logged callback) u (p ++ [i]) a (v.child i) s with
      | error => rfl
      | ok r => exact ihus _ _ _ hd'

theorem walkNode_unlog : ∀ (t : Ty) p a v s, (fun r : Val × σ × List RValue => (r.1, r.2.1)) <$>
    walkNode (logged callback) t p a v s = walkNode callback t p a v s.1 := by
  intro t
  induction t with
  | slice e ih =>
      intro p a v s
      cases he : e.isUint8
      · simp only [walkNode, he, Bool.false_eq_true, ↓reduceIte]
        rw [← @logged_unlog σ callback _ v s]
        cases logged callback ⟨p, .slice e, a⟩ v s with
        | error => rfl
        | ok r => exact walkElems_unlog (fun j => ih (p ++ [j]) true) _ 0 _ _
      · simp only [walkNode, he, ↓reduceIte]
        exact logged_unlog _ v s
  | struct c ts ih =>
      intro p a v s
      cases hc : (a && c.isSome)
      · simp only [walkNode, hc, Bool.false_eq_true, ↓reduceIte]
        exact walkFields_unlog ih ts 0 v s (List.drop_zero _)
      · simp only [walkNode, hc, ↓reduceIte]
        exact logged_unlog _ v s
  | _ => intro p a v s; exact logged_unlog _ v s

theorem node_unlog (x : RValue) (m : Mem (σ × List RValue)) :
    Mem.unlog <$> node (logged callback) x m = node callback x m.unlog := by
  unfold node Mem.unlog
  dsimp only
  rw [← walkNode_unlog]
  cases walkNode (logged callback) x.ty x.path x.addr (m.root.get x.path) m.aux <;> rfl

variable (hcb : ∀ x v s v' s', shaped x.ty x.addr v = true →
  callback x v s = .ok (v', s') → shaped x.ty x.addr v' = true)
include hcb

theorem logged_shaped : ∀ x v s v' s', shaped x.ty x.addr v = true →
    logged callback x v s = .ok (v', s') → shaped x.ty x.addr v' = true :=
  fun x v s _ _ hv h => hcb x v s.1 _ _ hv (logged_ok h).1

theorem strucWalker_calls_preorder {c : Option Nat} {ts : List Ty} {struc : Val}
    (hs : shaped (.struct c ts) true struc = true) (aux : σ) :
    Settles (strucWalker (logged callback) · struc (.struct c ts) true (aux, []))
        (node (logged callback) ⟨[], .struct c ts, true⟩ ⟨struc, (aux, [])⟩) ∧
      Settles (strucWalker callback · struc (.struct c ts) true aux)
        (Mem.unlog <$> node (logged callback) ⟨[], .struct c ts, true⟩ ⟨struc, (aux, [])⟩) ∧
      ∀ m, node (logged callback) ⟨[], .struct c ts, true⟩ ⟨struc, (aux, [])⟩ = .ok m →
        (m.aux.2.map RValue.path).Nodup := by
  have ht : ∀ e, Ty.struct c ts ≠ .slice e := fun _ h => Ty.noConfusion h
  refine ⟨strucWalker_eq_node (logged_shaped hcb) ht hs (aux, []), ?_, fun m h => ?_⟩
  · rw [node_unlog]
    exact strucWalker_eq_node hcb ht hs aux
  · obtain ⟨v, s, hw, rfl⟩ := node_ok h
    obtain ⟨L, hL, hl⟩ := walkNode_log _ _ _ _ _ _ _ hw
    simpa [hL] using hl.nodup

end

theorem strucWalker_calls_preorder_pair :
    shaped (.struct none [.uint .w8, .slice (.uint .w16)]) true
        (.struct [.uint 1, .slice [.uint 2, .uint 3]]) = true ∧
      Settles (strucWalker (logged fun _ v (s : Unit) => .ok (v, s)) ·
          (.struct [.uint 1, .slice [.uint 2, .uint 3]]) (.struct none [.uint .w8, .slice (.uint .w16)])
          true ((), []))
        (node (logged fun _ v (s : Unit) => .ok (v, s)) ⟨[], .struct none [.uint .w8, .slice (.uint .w16)], true⟩
          ⟨.struct [.uint 1, .slice [.uint 2, .uint 3]], ((), [])⟩) ∧
      Settles (strucWalker (fun _ v (s : Unit) => .ok (v, s)) ·
          (.struct [.uint 1, .slice [.uint 2, .uint 3]]) (.struct none [.uint .w8, .slice (.uint .w16)])
          true ())
        (Mem.unlog <$> node (logged fun _ v (s : Unit) => .ok (v, s))
          ⟨[], .struct none [.uint .w8, .slice (.uint .w16)], true⟩
          ⟨.struct [.uint 1, .slice [.uint 2, .uint 3]], ((), [])⟩) ∧
      ∀ m, node (logged fun _ v (s : Unit) => .ok (v, s)) ⟨[], .struct none [.uint .w8, .slice (.uint .w16)], true⟩
          ⟨.struct [.uint 1, .slice [.uint 2, .uint 3]], ((), [])⟩ = .ok m →
        (m.aux.2.map RValue.path).Nodup := by
  have hs : shaped (.struct none [.uint .w8, .slice (.uint .w16)]) true
      (.struct [.uint 1, .slice [.uint 2, .uint 3]]) = true := rfl
  exact ⟨hs, strucWalker_calls_preorder (fun _ _ _ _ _ hv h => by cases h; exact hv) hs ()⟩

example : (node (logged fun _ v (s : Unit) => .ok (v, s)) ⟨[], .struct none [.uint .w8, .slice (.uint .w16)], true⟩
    ⟨.struct [.uint 1, .slice [.uint 2, .uint 3]], ((), [])⟩).map (·.aux.2.map RValue.path) =
      .ok [[0], [1], [1, 0], [1, 1]] := rfl

end Pasl.Utils
