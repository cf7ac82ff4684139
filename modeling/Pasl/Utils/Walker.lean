import Pasl.Utils.Binary
import Pasl.Utils.Value

/-!
# `strucWalker`

The walker visits a value without recursion: `wayBack` is a stack of
`pair{a: value, b: resume index}`.  A popped struct or slice is scanned from
index `b`; a child that needs a walk of its own is pushed on top of its parent,
re-pushed with `b = i + 1`, and the scan stops.  Everything else goes to the
callback, which may overwrite the value it is given, so `Deserialize` sets a
slice's length before its elements are walked.

`walkNode` is the recursive pre-order traversal that the stack replaces, on the
value below one node.  `resume` says what the walker still owes a popped pair;
the main result, `loop_resume`, is that the loop pays exactly that and returns
to the rest of the stack.
-/

namespace Pasl.Utils

/-- A `reflect.Value` met by the walk: where it lies below the root, its static
type, and `CanAddr`. -/
structure RValue where
  path : List Nat
  ty : Ty
  addr : Bool

/-- `v.Field(i)` or `v.Index(i)`; slice elements are always addressable. -/
def RValue.child (v : RValue) (i : Nat) : RValue :=
  match v.ty with
  | .struct _ ts => ⟨v.path ++ [i], ts.getD i default, v.addr⟩
  | .slice e => ⟨v.path ++ [i], e, true⟩
  | t => ⟨v.path ++ [i], t, v.addr⟩

@[simp] theorem RValue.child_path (x : RValue) (i : Nat) : (x.child i).path = x.path ++ [i] := by
  unfold RValue.child
  split <;> rfl

/-- A child that `step` pushes instead of only calling back: a struct that is
not an addressable `Serializable`, or a slice of anything but bytes. -/
def RValue.deep (x : RValue) : Bool :=
  match x.ty with
  | .struct c _ => !(x.addr && c.isSome)
  | .slice e => !e.isUint8
  | _ => false

def RValue.scans (x : RValue) : Bool :=
  match x.ty with
  | .struct c _ => !(x.addr && c.isSome)
  | .slice _ => true
  | _ => false

structure Pair where
  a : RValue
  b : Nat

/-- The callback on a node and its current value: the node's new value and the
caller's own state (the output buffer, or the reader). -/
abbrev Callback (σ : Type) := RValue → Val → σ → Except Fault (Val × σ)

structure Mem (σ : Type) where
  root : Val
  aux : σ

structure Walk (σ : Type) where
  wayBack : List Pair
  mem : Mem σ

/-- How many children the scan of a popped value runs over: `NumField()` of
its type, or `Len()` of the slice now in memory. -/
def RValue.count {σ : Type} (x : RValue) (m : Mem σ) : Nat :=
  match x.ty with
  | .struct _ ts => ts.length
  | .slice _ => (m.root.get x.path).children.length
  | _ => 0

section
variable {σ : Type} (callback : Callback σ)

/-- `callback(&v)`: the callback reads the value at `v` and writes it back. -/
def call (x : RValue) (m : Mem σ) : Except Fault (Mem σ) := do
  let (v, aux) ← callback x (m.root.get x.path) m.aux
  pure ⟨m.root.set x.path v, aux⟩

/-- The closure `step(i, v, el)`; `false` once it has pushed `v` and `el`. -/
def step (i : Nat) (v el : RValue) (w : Walk σ) : Except Fault (Bool × Walk σ) :=
  match el.ty with
  | .struct c _ =>
      if el.addr && c.isSome then do
        pure (true, ⟨w.wayBack, ← call callback el w.mem⟩)
      else pure (false, ⟨⟨el, 0⟩ :: ⟨v, i + 1⟩ :: w.wayBack, w.mem⟩)
  | .slice e =>
      if e.isUint8 then do
        pure (true, ⟨w.wayBack, ← call callback el w.mem⟩)
      else do
        pure (false, ⟨⟨el, 0⟩ :: ⟨v, i + 1⟩ :: w.wayBack, ← call callback el w.mem⟩)
  | _ => do pure (true, ⟨w.wayBack, ← call callback el w.mem⟩)

/-- `for i := b; i < total; i++ { if !step(i, v, child) { break } }`, with
`n = total - i` iterations left. -/
def scan (v : RValue) : Nat → Nat → Walk σ → Except Fault (Walk σ)
  | 0, _, w => pure w
  | n + 1, i, w => do
      let (more, w) ← step callback i v (v.child i) w
      if more then scan v n (i + 1) w else pure w

/-- One turn of `for wayBack.Len() > 0`, on the pair just removed from the back. -/
def visit (cur : Pair) (w : Walk σ) : Except Fault (Walk σ) :=
  match cur.a.ty with
  | .struct c ts =>
      if cur.a.addr && c.isSome then do pure ⟨w.wayBack, ← call callback cur.a w.mem⟩
      else scan callback cur.a (ts.length - cur.b) cur.b w
  | .slice _ =>
      scan callback cur.a ((w.mem.root.get cur.a.path).children.length - cur.b) cur.b w
  | _ => do pure ⟨w.wayBack, ← call callback cur.a w.mem⟩

def loop : Nat → Walk σ → Except Fault (Walk σ)
  | 0, w => if w.wayBack.isEmpty then pure w else throw .outOfFuel
  | fuel + 1, w =>
      match w.wayBack with
      | [] => pure w
      | cur :: rest => do loop fuel (← visit callback cur ⟨rest, w.mem⟩)

/-- `strucWalker(struc, callback)` for a root of type `t`, passed as a pointer
when `isPtr` (then `v.Elem()` is addressable). -/
def strucWalker (fuel : Nat) (struc : Val) (t : Ty) (isPtr : Bool) (aux : σ) :
    Except Fault (Mem σ) := do
  let w ← loop callback fuel ⟨[⟨⟨[], t, isPtr⟩, 0⟩], ⟨struc, aux⟩⟩
  pure w.mem

/-- A run bounded by fuel settles on `r` when every fuel past some bound gives
`r`: the walker, given enough fuel, returns `r`. -/
def Settles {α : Type} (run : Nat → α) (r : α) : Prop :=
  ∃ n, ∀ k, run (k + n + 1) = r

theorem Settles.unique {α : Type} {run : Nat → α} {r r' : α} (h : Settles run r)
    (h' : Settles run r') : r = r' := by
  obtain ⟨n, hn⟩ := h
  obtain ⟨n', hn'⟩ := h'
  rw [← hn n', ← hn' n, Nat.add_comm n' n]

theorem Settles.agree {α : Type} {run run' : Nat → α} {r : α} (h : Settles run r)
    (h' : Settles run' r) : ∃ n, ∀ k, run (k + n + 1) = run' (k + n + 1) := by
  obtain ⟨n, hn⟩ := h
  obtain ⟨n', hn'⟩ := h'
  refine ⟨n + n', fun k => ?_⟩
  rw [show k + (n + n') + 1 = k + n' + n + 1 by omega, hn,
    show k + n' + n + 1 = k + n + n' + 1 by omega, hn']

theorem Settles.map {α β : Type} {run : Nat → α} {r : α} (h : Settles run r) (f : α → β) :
    Settles (fun n => f (run n)) (f r) := by
  obtain ⟨n, hn⟩ := h
  exact ⟨n, fun k => congrArg f (hn k)⟩

theorem Settles.eventually {α : Type} {run : Nat → α} {r : α} (h : Settles run r) :
    ∃ n, ∀ m, n < m → run m = r := by
  obtain ⟨n, hn⟩ := h
  exact ⟨n, fun m hm => by rw [← hn (m - n - 1), show m - n - 1 + n + 1 = m by omega]⟩

theorem Settles.of_eventually {α : Type} {run : Nat → α} {r : α} {n : Nat}
    (h : ∀ m, n < m → run m = r) : Settles run r :=
  ⟨n, fun k => h _ (by omega)⟩

def walkElems (body : Nat → Val → σ → Except Fault (Val × σ)) :
    Nat → Nat → Val → σ → Except Fault (Val × σ)
  | 0, _, v, s => pure (v, s)
  | n + 1, i, v, s => do
      let (c, s) ← body i (v.child i) s
      walkElems body n (i + 1) (v.setChild i c) s

mutual
/-- The pre-order traversal below one node: the callback on every node the
walker treats as a leaf and on every slice header, and the children of structs
and slices in order.  A slice's elements are those of the value the callback
returned. -/
def walkNode : Ty → List Nat → Bool → Val → σ → Except Fault (Val × σ)
  | .struct c ts, p, a, v, s =>
      if a && c.isSome then callback ⟨p, .struct c ts, a⟩ v s
      else walkFields ts p a 0 v s
  | .slice e, p, a, v, s =>
      if e.isUint8 then callback ⟨p, .slice e, a⟩ v s
      else do
        let (v, s) ← callback ⟨p, .slice e, a⟩ v s
        walkElems (fun j => walkNode e (p ++ [j]) true) v.children.length 0 v s
  | t, p, a, v, s => callback ⟨p, t, a⟩ v s

def walkFields : List Ty → List Nat → Bool → Nat → Val → σ → Except Fault (Val × σ)
  | [], _, _, _, v, s => pure (v, s)
  | t :: ts, p, a, i, v, s => do
      let (c, s) ← walkNode t (p ++ [i]) a (v.child i) s
      walkFields ts p a (i + 1) (v.setChild i c) s
end

def node (x : RValue) (m : Mem σ) : Except Fault (Mem σ) := do
  let (u, aux) ← walkNode callback x.ty x.path x.addr (m.root.get x.path) m.aux
  pure ⟨m.root.set x.path u, aux⟩

/-- What the walker still owes a pair `⟨v, b⟩` it removes from `wayBack`. -/
def resume (cur : Pair) (m : Mem σ) : Except Fault (Mem σ) := do
  let x := cur.a
  let u := m.root.get x.path
  let (u, aux) ← match x.ty with
    | .struct c ts =>
        if x.addr && c.isSome then callback x u m.aux
        else walkFields callback (ts.drop cur.b) x.path x.addr cur.b u m.aux
    | .slice e =>
        walkElems (fun j => walkNode callback e (x.path ++ [j]) true)
          (u.children.length - cur.b) cur.b u m.aux
    | _ => callback x u m.aux
  pure ⟨m.root.set x.path u, aux⟩

/-- What `step` does to a deep child before pushing it: a slice's header goes
to the callback. -/
def enter (x : RValue) (m : Mem σ) : Except Fault (Mem σ) :=
  match x.ty with
  | .slice _ => call callback x m
  | _ => pure m

theorem loop_succ_cons (n : Nat) (cur : Pair) (rest : List Pair) (m : Mem σ) :
    loop callback (n + 1) ⟨cur :: rest, m⟩ = visit callback cur ⟨rest, m⟩ >>= loop callback n :=
  rfl

theorem loop_nil (n : Nat) (m : Mem σ) : loop callback n ⟨[], m⟩ = .ok ⟨[], m⟩ := by
  cases n <;> rfl

theorem step_of_not_deep {el : RValue} (h : el.deep = false) (i : Nat) (v : RValue) (w : Walk σ) :
    step callback i v el w = call callback el w.mem >>= fun m => pure (true, ⟨w.wayBack, m⟩) := by
  cases hty : el.ty with
  | struct c ts =>
      have hc : (el.addr && c.isSome) = true := by simpa [RValue.deep, hty] using h
      simp only [step, hty, hc, ↓reduceIte]
  | slice e =>
      have he : e.isUint8 = true := by simpa [RValue.deep, hty] using h
      simp only [step, hty, he, ↓reduceIte]
  | _ => simp only [step, hty]

theorem step_of_deep {el : RValue} (h : el.deep = true) (i : Nat) (v : RValue) (w : Walk σ) :
    step callback i v el w =
      enter callback el w.mem >>= fun m => pure (false, ⟨⟨el, 0⟩ :: ⟨v, i + 1⟩ :: w.wayBack, m⟩) := by
  cases hty : el.ty with
  | struct c ts =>
      have hc : (el.addr && c.isSome) = false := by
        cases hb : (el.addr && c.isSome) <;> simp_all [RValue.deep]
      simp only [step, enter, hty, hc, Bool.false_eq_true, ↓reduceIte]
      rfl
  | slice e =>
      have he : e.isUint8 = false := by simpa [RValue.deep, hty] using h
      simp only [step, enter, hty, he, Bool.false_eq_true, ↓reduceIte]
  | _ => simp [RValue.deep, hty] at h

theorem visit_of_scans {x : RValue} (h : x.scans = true) (b : Nat) (w : Walk σ) :
    visit callback ⟨x, b⟩ w = scan callback x (x.count w.mem - b) b w := by
  cases hty : x.ty with
  | struct c ts =>
      have hc : (x.addr && c.isSome) = false := by
        cases hb : (x.addr && c.isSome) <;> simp_all [RValue.scans]
      simp only [visit, RValue.count, hty, hc, Bool.false_eq_true, ↓reduceIte]
  | slice e => simp only [visit, RValue.count, hty]
  | _ => simp [RValue.scans, hty] at h

theorem visit_of_not_scans {x : RValue} (h : x.scans = false) (b : Nat) (rest : List Pair)
    (m : Mem σ) : visit callback ⟨x, b⟩ ⟨rest, m⟩ = call callback x m >>= fun m => pure ⟨rest, m⟩ := by
  cases hty : x.ty with
  | struct c ts =>
      have hc : (x.addr && c.isSome) = true := by simpa [RValue.scans, hty] using h
      simp only [visit, hty, hc, ↓reduceIte]
  | slice e => simp [RValue.scans, hty] at h
  | _ => simp only [visit, hty]

theorem visit_done {x : RValue} (h : x.scans = true) {b : Nat} {m : Mem σ} (hb : x.count m ≤ b)
    (rest : List Pair) : visit callback ⟨x, b⟩ ⟨rest, m⟩ = pure ⟨rest, m⟩ := by
  rw [visit_of_scans callback h, Nat.sub_eq_zero_of_le hb]
  rfl

theorem visit_shallow {x : RValue} (h : x.scans = true) {b : Nat} {m : Mem σ}
    (hb : b < x.count m) (hc : (x.child b).deep = false)
    (hcount : ∀ m', call callback (x.child b) m = .ok m' → x.count m' = x.count m)
    (rest : List Pair) :
    visit callback ⟨x, b⟩ ⟨rest, m⟩ =
      call callback (x.child b) m >>= fun m' => visit callback ⟨x, b + 1⟩ ⟨rest, m'⟩ := by
  rw [visit_of_scans callback h, show x.count m - b = (x.count m - (b + 1)) + 1 by omega]
  simp only [scan, step_of_not_deep callback hc]
  cases hm : call callback (x.child b) m with
  | error e => rfl
  | ok m' => simp [visit_of_scans callback h, hcount m' hm]

theorem visit_deep {x : RValue} (h : x.scans = true) {b : Nat} {m : Mem σ}
    (hb : b < x.count m) (hc : (x.child b).deep = true) (rest : List Pair) :
    visit callback ⟨x, b⟩ ⟨rest, m⟩ =
      enter callback (x.child b) m >>= fun m' =>
        pure ⟨⟨x.child b, 0⟩ :: ⟨x, b + 1⟩ :: rest, m'⟩ := by
  rw [visit_of_scans callback h, show x.count m - b = (x.count m - (b + 1)) + 1 by omega]
  simp only [scan, step_of_deep callback hc]
  cases enter callback (x.child b) m <;> rfl

private theorem drop_eq_getD_cons {ts : List Ty} {b : Nat} (h : b < ts.length) :
    ts.drop b = ts.getD b default :: ts.drop (b + 1) := by
  rw [List.drop_eq_getElem_cons h, List.getD_eq_getElem?_getD, List.getElem?_eq_getElem h,
    Option.getD_some]

theorem resume_of_not_scans {x : RValue} (h : x.scans = false) (b : Nat) (m : Mem σ) :
    resume callback ⟨x, b⟩ m = call callback x m := by
  rcases x with ⟨p, t, a⟩
  cases t with
  | struct c ts =>
      have hc : (a && c.isSome) = true := by simpa [RValue.scans] using h
      simp [resume, call, hc]
  | slice e => simp [RValue.scans] at h
  | _ => rfl

theorem resume_done {x : RValue} (h : x.scans = true) {b : Nat} {m : Mem σ}
    (hb : x.count m ≤ b) : resume callback ⟨x, b⟩ m = pure m := by
  rcases x with ⟨p, t, a⟩
  cases t with
  | struct c ts =>
      have hc : (a && c.isSome) = false := by
        cases hb' : (a && c.isSome) <;> simp_all [RValue.scans]
      simp [resume, hc, List.drop_eq_nil_of_le (show ts.length ≤ b from hb), walkFields,
        Val.set_get]
  | slice e =>
      have h0 : (m.root.get p).children.length - b = 0 := Nat.sub_eq_zero_of_le hb
      simp [resume, h0, walkElems, Val.set_get]
  | _ => simp [RValue.scans] at h

theorem resume_cons {x : RValue} (h : x.scans = true) {b : Nat} {m : Mem σ}
    (hb : b < x.count m) (hr : m.root.Reach x.path) :
    resume callback ⟨x, b⟩ m = node callback (x.child b) m >>= resume callback ⟨x, b + 1⟩ := by
  rcases x with ⟨p, t, a⟩
  rcases m with ⟨r, s⟩
  cases t with
  | struct c ts =>
      have hc : (a && c.isSome) = false := by
        cases hb' : (a && c.isSome) <;> simp_all [RValue.scans]
      simp only [resume, hc, Bool.false_eq_true, ↓reduceIte, walkFields, node, RValue.child,
        drop_eq_getD_cons (show b < ts.length from hb), Val.get_append, Val.get_cons,
        Val.get_nil, bind_assoc, pure_bind]
      refine bind_congr fun cs => ?_
      simp [Val.get_set_append_singleton hr]
  | slice e =>
      have hlen : (r.get p).children.length - b = (r.get p).children.length - (b + 1) + 1 := by
        simp only [RValue.count] at hb
        omega
      simp only [resume, hlen, walkElems, node, RValue.child, Val.get_append, Val.get_cons,
        Val.get_nil, bind_assoc, pure_bind]
      refine bind_congr fun cs => ?_
      simp [resume, Val.get_set_append_singleton hr]
  | _ => simp [RValue.scans] at h

theorem node_of_not_deep {x : RValue} (h : x.deep = false) (m : Mem σ) :
    node callback x m = call callback x m := by
  rcases x with ⟨p, t, a⟩
  cases t with
  | struct c ts =>
      have hc : (a && c.isSome) = true := by simpa [RValue.deep] using h
      simp [node, call, walkNode, hc]
  | slice e =>
      have he : e.isUint8 = true := by simpa [RValue.deep] using h
      simp [node, call, walkNode, he]
  | _ => rfl

theorem node_of_deep {x : RValue} (h : x.deep = true) {m : Mem σ} (hr : m.root.Reach x.path) :
    node callback x m = enter callback x m >>= resume callback ⟨x, 0⟩ := by
  rcases x with ⟨p, t, a⟩
  rcases m with ⟨r, s⟩
  cases t with
  | struct c ts =>
      have hc : (a && c.isSome) = false := by
        cases hb' : (a && c.isSome) <;> simp_all [RValue.deep]
      simp [node, enter, resume, walkNode, hc]
  | slice e =>
      have he : e.isUint8 = false := by simpa [RValue.deep] using h
      simp only [node, enter, call, walkNode, he, Bool.false_eq_true, ↓reduceIte, bind_assoc,
        pure_bind]
      refine bind_congr fun vs => ?_
      simp [resume, Val.get_set hr]
  | _ => simp [RValue.deep] at h

end

end Pasl.Utils
