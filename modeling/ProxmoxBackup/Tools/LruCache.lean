import Mathlib
import ProxmoxBackup.Foundations.LinkedHeap

/-!
# The LRU cache (`pbs-tools/src/lru_cache.rs`)

`LruCache` keeps its entries in a hand-written doubly linked list of heap nodes, most recently
used first, and a `HashMap` from each key to the raw pointer of its node. The model keeps the
pointers: a node lives at an address of `Heap`, a null pointer is `none`, and every operation
returns `none` where the code would dereference a null or dangling pointer, so that a successful
run is also a run without undefined behaviour.

What the cache is for is the reference model `LruModel`: a list of entries with distinct keys,
most recent first, cut to the capacity after each insertion. `Represents cache ps l` relates the
two: the addresses `ps` form the linked list (`LinkedHeap.Linked`), their nodes hold the entries
`l` in order, and the map sends each key to the address of its node. Every operation keeps the
relation and returns what the model returns (`insert_refines`, `getMut_refines`,
`access_refines`, `remove_refines`, `clear_refines`), so from `LruCache::new` every run of
operations agrees with the model and keeps the map and the list in step (`run_refines`).
-/

namespace ProxmoxBackup

/-- `CacheNode`, with its links as addresses (a null pointer is `none`). -/
structure CacheNode (K V : Type) where
  key : K
  value : V
  prev : Option Nat
  next : Option Nat

/-- `CacheNode::new`. -/
def CacheNode.new {K V : Type} (key : K) (value : V) : CacheNode K V :=
  { key, value, prev := none, next := none }

/-- The memory of the nodes: the node at each allocated address, and the address the next
`Box::new` returns; no address from it on is allocated. -/
structure Heap (K V : Type) where
  nodes : Nat → Option (CacheNode K V)
  fresh : Nat

namespace Heap

variable {K V : Type}

/-- The memory before any node is allocated. -/
def empty : Heap K V := ⟨fun _ => none, 0⟩

/-- `Box::into_raw(Box::new(node))`. -/
def alloc (mem : Heap K V) (node : CacheNode K V) : Nat × Heap K V :=
  (mem.fresh, { nodes := Function.update mem.nodes mem.fresh (some node), fresh := mem.fresh + 1 })

/-- The node at `p` written back (`Box::into_raw` after a change through the box). -/
def write (mem : Heap K V) (p : Nat) (node : CacheNode K V) : Heap K V :=
  { mem with nodes := Function.update mem.nodes p (some node) }

/-- The box of the node at `p` dropped. -/
def free (mem : Heap K V) (p : Nat) : Heap K V :=
  { mem with nodes := Function.update mem.nodes p none }

/-- `(*q).prev = x`: undefined where `q` is null or dangling. -/
def setPrev (mem : Heap K V) (q x : Option Nat) : Option (Heap K V) := do
  let q ← q
  let node ← mem.nodes q
  some (mem.write q { node with prev := x })

/-- `(*q).next = x`: undefined where `q` is null or dangling. -/
def setNext (mem : Heap K V) (q x : Option Nat) : Option (Heap K V) := do
  let q ← q
  let node ← mem.nodes q
  some (mem.write q { node with next := x })

/-- `if !q.is_null() { (*q).prev = x }`. -/
def setPrevUnlessNull (mem : Heap K V) (q x : Option Nat) : Option (Heap K V) :=
  if q.isSome then mem.setPrev q x else some mem

/-- `if !q.is_null() { (*q).next = x }`. -/
def setNextUnlessNull (mem : Heap K V) (q x : Option Nat) : Option (Heap K V) :=
  if q.isSome then mem.setNext q x else some mem

/-- The links of the nodes in memory. -/
def links (mem : Heap K V) : LinkedHeap.Links Nat := fun p =>
  (mem.nodes p).map fun node => (node.prev, node.next)

/-- The entry each node in memory holds. -/
def entry (mem : Heap K V) (p : Nat) : Option (K × V) :=
  (mem.nodes p).map fun node => (node.key, node.value)

end Heap

/-- `LinkedList`: the head and the tail of the list of nodes. -/
structure LinkedList where
  head : Option Nat
  tail : Option Nat

namespace LinkedList

variable {K V : Type}

/-- `LinkedList::new`. -/
def new : LinkedList := ⟨none, none⟩

/-- The first step of `remove`: the `next` link of the node before `node` moves to the node after
it, or, when it was the head, the head does. -/
def relinkPrev (list : LinkedList) (mem : Heap K V) (node : CacheNode K V) :
    Option (Heap K V × Option Nat) :=
  if node.prev.isSome then (mem.setNext node.prev node.next).map fun mem => (mem, list.head)
  else some (mem, node.next)

/-- The step `bring_to_front` and `remove` share when a node leaves its place: the `prev` link
of the node after it moves to the node before it, or, when it was the tail, the tail does. -/
def relinkNext (list : LinkedList) (mem : Heap K V) (node : CacheNode K V) :
    Option (Heap K V × Option Nat) :=
  if node.next.isSome then (mem.setPrev node.next node.prev).map fun mem => (mem, list.tail)
  else some (mem, node.prev)

/-- `LinkedList::bring_to_front`. -/
def bringToFront (list : LinkedList) (mem : Heap K V) (nodePtr : Nat) :
    Option (LinkedList × Heap K V) :=
  if some nodePtr = list.head then some (list, mem)
  else do
    let node ← mem.nodes nodePtr
    let mem ← mem.setNext node.prev node.next
    let (mem, tail) ← list.relinkNext mem node
    let mem := mem.write nodePtr { node with prev := none, next := list.head }
    let mem ← mem.setPrev list.head (some nodePtr)
    some ({ head := some nodePtr, tail }, mem)

/-- `LinkedList::push_front`. -/
def pushFront (list : LinkedList) (mem : Heap K V) (nodePtr : Nat) :
    Option (LinkedList × Heap K V) := do
  let node ← mem.nodes nodePtr
  let mem := mem.write nodePtr { node with next := list.head }
  let mem ← mem.setPrevUnlessNull list.head (some nodePtr)
  some ({ head := some nodePtr, tail := if list.tail.isNone then some nodePtr else list.tail }, mem)

/-- `LinkedList::remove`; the node leaves memory with its box, which the caller drops. -/
def remove (list : LinkedList) (mem : Heap K V) (nodePtr : Nat) :
    Option (LinkedList × Heap K V × CacheNode K V) := do
  let node ← mem.nodes nodePtr
  let (mem, head) ← list.relinkPrev mem node
  let (mem, tail) ← list.relinkNext mem node
  some ({ head, tail }, mem.free nodePtr, node)

/-- `LinkedList::pop_tail`; like `remove`, the old tail leaves memory with its box. -/
def popTail (list : LinkedList) (mem : Heap K V) :
    Option (LinkedList × Heap K V × Option (CacheNode K V)) :=
  match list.tail with
  | none => some (list, mem, none)
  | some tail => do
    let oldTail ← mem.nodes tail
    let mem ← mem.setNextUnlessNull oldTail.prev none
    some ({ list with tail := oldTail.prev }, mem.free tail, some oldTail)

/-- The loop of `LinkedList::clear`, dropping the nodes along the `next` links. It frees each
node it visits, so it cannot take more steps than there are allocated addresses: `fuel` is that
bound, and running out of it is a walk that does not end. -/
def clearLoop : Heap K V → Nat → Option Nat → Option (Heap K V)
  | mem, _, none => some mem
  | _, 0, some _ => none
  | mem, fuel + 1, some p => do
    let current ← mem.nodes p
    clearLoop (mem.free p) fuel current.next

/-- `LinkedList::clear`. -/
def clear (list : LinkedList) (mem : Heap K V) : Option (LinkedList × Heap K V) := do
  let mem ← clearLoop mem mem.fresh list.head
  some (new, mem)

end LinkedList

/-- `LruCache`, with the memory of the nodes it owns. -/
structure LruCache (K V : Type) [BEq K] [Hashable K] where
  map : Std.HashMap K Nat
  list : LinkedList
  capacity : Nat
  mem : Heap K V

namespace LruCache

variable {K V : Type} [BEq K] [Hashable K]

/-- `LruCache::new`. -/
def new (capacity : Nat) : LruCache K V :=
  let capacity := max capacity 1
  { map := Std.HashMap.emptyWithCapacity capacity, list := LinkedList.new, capacity,
    mem := Heap.empty }

/-- `LruCache::pop_tail`. -/
def popTail (cache : LruCache K V) : Option (LruCache K V) := do
  let (list, mem, oldTail) ← cache.list.popTail cache.mem
  match oldTail with
  | some oldTail => some { cache with list, mem, map := cache.map.erase oldTail.key }
  | none => some { cache with list, mem }

/-- The `Entry::Vacant` branch of `insert` and of `access`: a new node at the front, and the tail
dropped when that puts the cache over its capacity. -/
def insertVacant (cache : LruCache K V) (key : K) (value : V) : Option (LruCache K V) := do
  let (nodePtr, mem) := cache.mem.alloc (CacheNode.new key value)
  let (list, mem) ← cache.list.pushFront mem nodePtr
  let cache := { cache with list, mem, map := cache.map.insert key nodePtr }
  if cache.map.size > cache.capacity then cache.popTail else some cache

/-- `LruCache::insert`. -/
def insert (cache : LruCache K V) (key : K) (value : V) : Option (LruCache K V) :=
  match cache.map[key]? with
  | some nodePtr => do
    let (list, mem) ← cache.list.bringToFront cache.mem nodePtr
    let node ← mem.nodes nodePtr
    some { cache with list, mem := mem.write nodePtr { node with value } }
  | none => cache.insertVacant key value

/-- `LruCache::remove`. -/
def remove (cache : LruCache K V) (key : K) : Option (LruCache K V × Option V) :=
  match cache.map[key]? with
  | none => some (cache, none)
  | some nodePtr => do
    let (list, mem, node) ← cache.list.remove cache.mem nodePtr
    some ({ cache with map := cache.map.erase key, list, mem }, some node.value)

/-- `&mut (*self.list.head).value`. -/
def headValue (cache : LruCache K V) : Option V := do
  let head ← cache.list.head
  let node ← cache.mem.nodes head
  some node.value

/-- `LruCache::get_mut`. -/
def getMut (cache : LruCache K V) (key : K) : Option (LruCache K V × Option V) :=
  match cache.map[key]? with
  | none => some (cache, none)
  | some nodePtr => do
    let (list, mem) ← cache.list.bringToFront cache.mem nodePtr
    let cache := { cache with list, mem }
    let value ← cache.headValue
    some (cache, some value)

/-- `LruCache::len`. -/
def len (cache : LruCache K V) : Nat := cache.map.size

/-- `LruCache::access`, with the `fetch` of the cacher it is given. -/
def access (cache : LruCache K V) (key : K) (fetch : K → Except String (Option V)) :
    Option (LruCache K V × Except String (Option V)) :=
  match cache.map[key]? with
  | some nodePtr => do
    let (list, mem) ← cache.list.bringToFront cache.mem nodePtr
    let cache := { cache with list, mem }
    let value ← cache.headValue
    some (cache, .ok (some value))
  | none =>
    match fetch key with
    | .error err => some (cache, .error err)
    | .ok none => some (cache, .ok none)
    | .ok (some value) => do
      let cache ← cache.insertVacant key value
      let value ← cache.headValue
      some (cache, .ok (some value))

/-- `LruCache::clear`. -/
def clear (cache : LruCache K V) : Option (LruCache K V) := do
  let (list, mem) ← cache.list.clear cache.mem
  some { cache with map := ∅, list, mem }

/-- A call on the cache. -/
inductive Op (K V : Type) where
  | insert (key : K) (value : V)
  | getMut (key : K)
  | access (key : K) (fetch : K → Except String (Option V))
  | remove (key : K)
  | clear
  | len

/-- What a call returns. -/
inductive Out (V : Type) where
  | done
  | value (value : Option V)
  | fetched (result : Except String (Option V))
  | length (n : Nat)

/-- One call. -/
def step (cache : LruCache K V) : Op K V → Option (LruCache K V × Out V)
  | .insert key value => (cache.insert key value).map fun cache => (cache, .done)
  | .getMut key => (cache.getMut key).map fun r => (r.1, .value r.2)
  | .access key fetch => (cache.access key fetch).map fun r => (r.1, .fetched r.2)
  | .remove key => (cache.remove key).map fun r => (r.1, .value r.2)
  | .clear => cache.clear.map fun cache => (cache, .done)
  | .len => some (cache, .length cache.len)

/-- A run of calls, with what each returns. -/
def run (cache : LruCache K V) : List (Op K V) → Option (LruCache K V × List (Out V))
  | [] => some (cache, [])
  | op :: ops => do
    let (cache, out) ← cache.step op
    let (cache, outs) ← cache.run ops
    some (cache, out :: outs)

end LruCache

/-! ## The reference model -/

namespace LruModel

open LruCache (Op Out)

variable {K V : Type} [BEq K]

/-- The value of `key`. -/
def lookup (l : List (K × V)) (key : K) : Option V :=
  (l.find? fun e => e.1 == key).map Prod.snd

/-- The entries without `key`. -/
def eraseKey (l : List (K × V)) (key : K) : List (K × V) :=
  l.filter fun e => !(e.1 == key)

/-- An insertion: the entry in front, cut to the capacity. -/
def insert (capacity : Nat) (l : List (K × V)) (key : K) (value : V) : List (K × V) :=
  ((key, value) :: eraseKey l key).take capacity

/-- A lookup: the entry found moves to the front. -/
def touch (l : List (K × V)) (key : K) : List (K × V) × Option V :=
  match lookup l key with
  | some v => ((key, v) :: eraseKey l key, some v)
  | none => (l, none)

/-- One call on the model. -/
def step (capacity : Nat) (l : List (K × V)) : Op K V → List (K × V) × Out V
  | .insert key value => (insert capacity l key value, .done)
  | .getMut key => ((touch l key).1, .value (touch l key).2)
  | .access key fetch =>
    match lookup l key with
    | some v => ((touch l key).1, .fetched (.ok (some v)))
    | none =>
      match fetch key with
      | .error err => (l, .fetched (.error err))
      | .ok none => (l, .fetched (.ok none))
      | .ok (some v) => (insert capacity l key v, .fetched (.ok (some v)))
  | .remove key => (eraseKey l key, .value (lookup l key))
  | .clear => ([], .done)
  | .len => (l, .length l.length)

/-- A run of calls on the model. -/
def run (capacity : Nat) (l : List (K × V)) : List (Op K V) → List (K × V) × List (Out V)
  | [] => (l, [])
  | op :: ops =>
    let r := run capacity (step capacity l op).1 ops
    (r.1, (step capacity l op).2 :: r.2)

/-- As in the documentation of `LruCache`: with capacity 3, the fourth insertion evicts the
first key. -/
example : (run 3 [] [.insert 1 1, .insert 2 2, .insert 3 3, .insert 4 4, .len, .getMut 1,
    .getMut 2] : List (Nat × Nat) × List (Out Nat)).2.drop 4 =
      [.length 3, .value none, .value (some 2)] := rfl

end LruModel

/-! ## Memory -/

namespace Heap

open LinkedHeap (Links)

variable {K V : Type} {mem mem₁ mem₂ : Heap K V}

@[simp] theorem alloc_fst (mem : Heap K V) (node : CacheNode K V) :
    (mem.alloc node).1 = mem.fresh := rfl

@[simp] theorem write_fresh (mem : Heap K V) (p : Nat) (node : CacheNode K V) :
    (mem.write p node).fresh = mem.fresh := rfl

@[simp] theorem free_fresh (mem : Heap K V) (p : Nat) : (mem.free p).fresh = mem.fresh := rfl

@[simp] theorem links_write (mem : Heap K V) (p : Nat) (node : CacheNode K V) :
    (mem.write p node).links = Function.update mem.links p (some (node.prev, node.next)) := by
  funext q
  by_cases hq : q = p <;> simp [links, write, hq]

@[simp] theorem entry_write (mem : Heap K V) (p : Nat) (node : CacheNode K V) :
    (mem.write p node).entry = Function.update mem.entry p (some (node.key, node.value)) := by
  funext q
  by_cases hq : q = p <;> simp [entry, write, hq]

@[simp] theorem links_free (mem : Heap K V) (p : Nat) :
    (mem.free p).links = Function.update mem.links p none := by
  funext q
  by_cases hq : q = p <;> simp [links, free, hq]

@[simp] theorem entry_free (mem : Heap K V) (p : Nat) :
    (mem.free p).entry = Function.update mem.entry p none := by
  funext q
  by_cases hq : q = p <;> simp [entry, free, hq]

theorem nodes_write_of_ne {p q : Nat} {node : CacheNode K V} (h : q ≠ p) :
    (mem.write p node).nodes q = mem.nodes q := by
  simp [write, h]

theorem isSome_nodes_iff_entry {p : Nat} : (mem.nodes p).isSome ↔ (mem.entry p).isSome := by
  simp [entry]

theorem isSome_nodes_of_links {p : Nat} {l : Option Nat × Option Nat} (h : mem.links p = some l) :
    (mem.nodes p).isSome := by
  simp only [links, Option.map_eq_some_iff] at h
  obtain ⟨n, hn, -⟩ := h
  simp [hn]

/-- `mem'` is `mem` with its links changed to `links`: the same entries at the same addresses. -/
structure Relinks (mem mem' : Heap K V) (links : Links Nat) : Prop where
  links_eq : mem'.links = links
  entry_eq : mem'.entry = mem.entry
  fresh_eq : mem'.fresh = mem.fresh

theorem Relinks.refl (mem : Heap K V) : Relinks mem mem mem.links := ⟨rfl, rfl, rfl⟩

theorem Relinks.trans {l₁ l₂ : Links Nat} (h₁ : Relinks mem mem₁ l₁) (h₂ : Relinks mem₁ mem₂ l₂) :
    Relinks mem mem₂ l₂ :=
  ⟨h₂.links_eq, h₂.entry_eq.trans h₁.entry_eq, h₂.fresh_eq.trans h₁.fresh_eq⟩

theorem Relinks.isSome_nodes {l : Links Nat} (h : Relinks mem mem₁ l) {p : Nat} :
    (mem₁.nodes p).isSome ↔ (mem.nodes p).isSome := by
  rw [isSome_nodes_iff_entry, isSome_nodes_iff_entry, h.entry_eq]

/-- Writing back a node with the same entry only changes links. -/
theorem write_relinks {p : Nat} {node node' : CacheNode K V} (hp : mem.nodes p = some node)
    (hkey : node'.key = node.key) (hvalue : node'.value = node.value) :
    Relinks mem (mem.write p node')
      (Function.update mem.links p (some (node'.prev, node'.next))) := by
  refine ⟨links_write .., ?_, rfl⟩
  rw [entry_write, hkey, hvalue]
  exact Function.update_eq_self_iff.mpr (by simp [entry, hp])

theorem setNext_relinks (mem : Heap K V) {p : Nat} (hp : (mem.nodes p).isSome) (x : Option Nat) :
    ∃ mem', mem.setNext (some p) x = some mem' ∧
      Relinks mem mem' (LinkedHeap.setNext mem.links (some p) x) := by
  obtain ⟨node, hnode⟩ := Option.isSome_iff_exists.mp hp
  refine ⟨mem.write p { node with next := x }, by simp [setNext, hnode], ?_⟩
  have h : Relinks mem (mem.write p { node with next := x }) _ := write_relinks hnode rfl rfl
  refine ⟨?_, h.entry_eq, rfl⟩
  rw [h.links_eq]
  funext q
  by_cases hq : q = p
  · subst hq
    simp [LinkedHeap.setNext, links, hnode]
  · simp [LinkedHeap.setNext, hq, Ne.symm hq]

theorem setPrev_relinks (mem : Heap K V) {p : Nat} (hp : (mem.nodes p).isSome) (x : Option Nat) :
    ∃ mem', mem.setPrev (some p) x = some mem' ∧
      Relinks mem mem' (LinkedHeap.setPrev mem.links (some p) x) := by
  obtain ⟨node, hnode⟩ := Option.isSome_iff_exists.mp hp
  refine ⟨mem.write p { node with prev := x }, by simp [setPrev, hnode], ?_⟩
  have h : Relinks mem (mem.write p { node with prev := x }) _ := write_relinks hnode rfl rfl
  refine ⟨?_, h.entry_eq, rfl⟩
  rw [h.links_eq]
  funext q
  by_cases hq : q = p
  · subst hq
    simp [LinkedHeap.setPrev, links, hnode]
  · simp [LinkedHeap.setPrev, hq, Ne.symm hq]

theorem setPrevUnlessNull_relinks (mem : Heap K V) {q : Option Nat}
    (hq : ∀ p, q = some p → (mem.nodes p).isSome) (x : Option Nat) :
    ∃ mem', mem.setPrevUnlessNull q x = some mem' ∧
      Relinks mem mem' (LinkedHeap.setPrev mem.links q x) := by
  cases q with
  | none => exact ⟨mem, rfl, by simpa using Relinks.refl mem⟩
  | some p => simpa [setPrevUnlessNull] using setPrev_relinks mem (hq p rfl) x

theorem setNextUnlessNull_relinks (mem : Heap K V) {q : Option Nat}
    (hq : ∀ p, q = some p → (mem.nodes p).isSome) (x : Option Nat) :
    ∃ mem', mem.setNextUnlessNull q x = some mem' ∧
      Relinks mem mem' (LinkedHeap.setNext mem.links q x) := by
  cases q with
  | none => exact ⟨mem, rfl, by simpa using Relinks.refl mem⟩
  | some p => simpa [setNextUnlessNull] using setNext_relinks mem (hq p rfl) x

end Heap

/-! ## The list operations -/

namespace LinkedList

open LinkedHeap

variable {K V : Type} {mem : Heap K V} {list : LinkedList} {head tail : Option Nat}
  {ps : List Nat}

/-- The node at an address of the list, linked to its neighbours. -/
theorem node_of_mem (h : Linked mem.links head tail ps) {p : Nat} (hp : p ∈ ps) :
    ∃ node, mem.nodes p = some node ∧ node.prev = before ps p ∧ node.next = after ps p := by
  have := h.links_eq p hp
  simp only [Heap.links, Option.map_eq_some_iff, Prod.mk.injEq] at this
  exact this

theorem isSome_nodes_of_mem (h : Linked mem.links head tail ps) {p : Nat} (hp : p ∈ ps) :
    (mem.nodes p).isSome :=
  Heap.isSome_nodes_of_links (h.links_eq p hp)

theorem relinkNext_spec (list : LinkedList) (mem : Heap K V) (node : CacheNode K V)
    (hnext : ∀ q, node.next = some q → (mem.nodes q).isSome) :
    ∃ mem', list.relinkNext mem node =
        some (mem', if node.next.isSome then list.tail else node.prev) ∧
      Heap.Relinks mem mem' (LinkedHeap.setPrev mem.links node.next node.prev) := by
  unfold relinkNext
  cases hn : node.next with
  | none => exact ⟨mem, by simp, by simpa using Heap.Relinks.refl mem⟩
  | some q =>
    obtain ⟨mem', hset, hrel⟩ := Heap.setPrev_relinks mem (hnext q hn) node.prev
    exact ⟨mem', by simp [hset], hrel⟩

theorem relinkPrev_spec (list : LinkedList) (mem : Heap K V) (node : CacheNode K V)
    (hprev : ∀ q, node.prev = some q → (mem.nodes q).isSome) :
    ∃ mem', list.relinkPrev mem node =
        some (mem', if node.prev.isSome then list.head else node.next) ∧
      Heap.Relinks mem mem' (LinkedHeap.setNext mem.links node.prev node.next) := by
  unfold relinkPrev
  cases hn : node.prev with
  | none => exact ⟨mem, by simp, by simpa using Heap.Relinks.refl mem⟩
  | some q =>
    obtain ⟨mem', hset, hrel⟩ := Heap.setNext_relinks mem (hprev q hn) node.next
    exact ⟨mem', by simp [hset], hrel⟩

/-- `bring_to_front` moves a node of the list to its front. -/
theorem bringToFront_spec (h : Linked mem.links list.head list.tail ps) {p : Nat} (hp : p ∈ ps) :
    ∃ mem' tail, list.bringToFront mem p = some (⟨some p, tail⟩, mem') ∧
      Linked mem'.links (some p) tail (p :: ps.erase p) ∧ mem'.entry = mem.entry ∧
      mem'.fresh = mem.fresh := by
  by_cases hhead : some p = list.head
  · -- already the head: nothing moves
    have hps : p :: ps.erase p = ps := by
      obtain ⟨x, rest, rfl⟩ := List.exists_cons_of_ne_nil (List.ne_nil_of_mem hp)
      have hx : x = p := by simpa [← hhead] using h.head_eq.symm
      subst hx
      simp
    refine ⟨mem, list.tail, by simp [bringToFront, hhead], ?_, rfl, rfl⟩
    rw [hps, hhead]
    exact h
  · obtain ⟨node, hnode, hprev, hnext⟩ := node_of_mem h hp
    -- not the head, so some node comes before it
    obtain ⟨a, ha⟩ : ∃ a, before ps p = some a := by
      refine Option.ne_none_iff_exists'.mp fun hb => hhead ?_
      rw [h.head_eq]
      exact ((before_eq_none_iff h.nodup hp).mp hb).symm
    have hap : a ≠ p := fun hap => not_after_cycle h.nodup ((after_eq_some_iff h.nodup).mpr
      (hap ▸ ha)) ((after_eq_some_iff h.nodup).mpr (hap ▸ ha))
    obtain ⟨mem₁, h₁, r₁⟩ :=
      Heap.setNext_relinks mem (isSome_nodes_of_mem h (mem_of_before_eq_some ha).2) node.next
    obtain ⟨mem₂, h₂, r₂⟩ := relinkNext_spec list mem₁ node fun q hq => by
      rw [r₁.isSome_nodes]
      rw [hnext] at hq
      exact isSome_nodes_of_mem h (mem_of_after_eq_some hq).2
    -- the node unlinked: the rest of the list, with the same head
    have hrest : Linked mem₂.links list.head (if node.next.isSome then list.tail else node.prev)
        (ps.erase p) := by
      have hu := h.unlink p
      rw [h.head_unlink hp, h.tail_unlink hp, ha] at hu
      rw [r₂.links_eq, r₁.links_eq, hnext, hprev, ha]
      simpa [LinkedHeap.unlink] using hu
    have hmem : a ∈ ps.erase p := (h.nodup.mem_erase_iff).mpr ⟨hap, (mem_of_before_eq_some ha).2⟩
    obtain ⟨h₀, hh₀⟩ : ∃ h₀, list.head = some h₀ := by
      rw [hrest.head_eq]
      exact Option.ne_none_iff_exists'.mp (by simpa using List.ne_nil_of_mem hmem)
    have hh₀p : h₀ ≠ p := fun e => hhead (e ▸ hh₀.symm)
    have hh₀mem := hrest.mem_of_head hh₀
    obtain ⟨mem₄, h₄, r₄⟩ := Heap.setPrev_relinks (mem₂.write p
      { node with prev := none, next := list.head })
      (by rw [Heap.nodes_write_of_ne hh₀p]; exact isSome_nodes_of_mem hrest hh₀mem) (some p)
    rw [← hh₀] at h₄ r₄
    refine ⟨mem₄, if node.next.isSome then list.tail else node.prev, ?_, ?_, ?_, ?_⟩
    · simp [bringToFront, hhead, hnode, hprev, ha, h₁, h₂, h₄]
    · have hpush := hrest.push (h.nodup.not_mem_erase)
      have htail : (if node.next.isSome then list.tail else node.prev) ≠ none := by
        rw [hrest.tail_eq, Ne, List.getLast?_eq_none_iff]
        exact List.ne_nil_of_mem hmem
      rw [if_neg htail] at hpush
      rw [r₄.links_eq]
      simpa [LinkedHeap.push] using hpush
    · rw [r₄.entry_eq, Heap.entry_write, r₂.entry_eq, r₁.entry_eq]
      exact Function.update_eq_self_iff.mpr (by simp [Heap.entry, hnode])
    · rw [r₄.fresh_eq, Heap.write_fresh, r₂.fresh_eq, r₁.fresh_eq]

/-- `push_front` of a new node (its `prev` link null) puts it in front of the list. -/
theorem pushFront_spec (h : Linked mem.links list.head list.tail ps) {p : Nat}
    {node : CacheNode K V} (hnode : mem.nodes p = some node) (hprev : node.prev = none)
    (hp : p ∉ ps) :
    ∃ mem', list.pushFront mem p =
        some (⟨some p, if list.tail.isNone then some p else list.tail⟩, mem') ∧
      Linked mem'.links (some p) (if list.tail.isNone then some p else list.tail) (p :: ps) ∧
      mem'.entry = mem.entry ∧ mem'.fresh = mem.fresh := by
  have r₁ : Heap.Relinks mem (mem.write p { node with next := list.head })
      (Function.update mem.links p (some (none, list.head))) := by
    have r : Heap.Relinks mem (mem.write p { node with next := list.head }) _ :=
      Heap.write_relinks hnode rfl rfl
    simpa [hprev] using r
  -- the old head, if any, is another node of the list
  obtain ⟨mem₂, h₂, r₂⟩ := Heap.setPrevUnlessNull_relinks (mem.write p
    { node with next := list.head }) (fun h₀ hh₀ => by
      have hh₀p : h₀ ≠ p := fun e => hp (e ▸ h.mem_of_head hh₀)
      rw [Heap.nodes_write_of_ne hh₀p]
      exact isSome_nodes_of_mem h (h.mem_of_head hh₀)) (some p)
  have hpush := h.push hp
  simp only [← Option.isNone_iff_eq_none] at hpush
  refine ⟨mem₂, by simp [pushFront, hnode, h₂], ?_, ?_, ?_⟩
  · rw [r₂.links_eq, r₁.links_eq]
    exact hpush
  · rw [r₂.entry_eq, r₁.entry_eq]
  · rw [r₂.fresh_eq, r₁.fresh_eq]

/-- `remove` takes a node of the list out of it and out of memory. -/
theorem remove_spec (h : Linked mem.links list.head list.tail ps) {p : Nat} (hp : p ∈ ps) :
    ∃ list' mem' node, list.remove mem p = some (list', mem', node) ∧ mem.nodes p = some node ∧
      Linked mem'.links list'.head list'.tail (ps.erase p) ∧
      mem'.entry = Function.update mem.entry p none ∧ mem'.fresh = mem.fresh := by
  obtain ⟨node, hnode, hprev, hnext⟩ := node_of_mem h hp
  obtain ⟨mem₁, h₁, r₁⟩ := relinkPrev_spec list mem node fun q hq => by
    rw [hprev] at hq
    exact isSome_nodes_of_mem h (mem_of_before_eq_some hq).2
  obtain ⟨mem₂, h₂, r₂⟩ := relinkNext_spec list mem₁ node fun q hq => by
    rw [r₁.isSome_nodes]
    rw [hnext] at hq
    exact isSome_nodes_of_mem h (mem_of_after_eq_some hq).2
  refine ⟨⟨if node.prev.isSome then list.head else node.next,
    if node.next.isSome then list.tail else node.prev⟩, mem₂.free p, node, ?_, hnode, ?_, ?_, ?_⟩
  · simp [remove, hnode, h₁, h₂]
  · have hu := h.unlink p
    rw [h.head_unlink hp, h.tail_unlink hp] at hu
    simp only [hprev, hnext]
    refine hu.congr fun q hq => ?_
    have hqp : q ≠ p := ((h.nodup.mem_erase_iff).mp hq).1
    rw [Heap.links_free, Function.update_of_ne hqp, r₂.links_eq, r₁.links_eq, hprev, hnext]
    rfl
  · rw [Heap.entry_free, r₂.entry_eq, r₁.entry_eq]
  · rw [Heap.free_fresh, r₂.fresh_eq, r₁.fresh_eq]

/-- With two nodes or more, `pop_tail` takes the last node out of the list and out of memory
(with one node it would leave the head dangling; the cache never calls it so). -/
theorem popTail_spec (h : Linked mem.links list.head list.tail ps) (hlen : 2 ≤ ps.length) :
    ∃ t node mem', ps.getLast? = some t ∧ mem.nodes t = some node ∧
      list.popTail mem = some (⟨list.head, node.prev⟩, mem', some node) ∧
      Linked mem'.links list.head node.prev ps.dropLast ∧
      mem'.entry = Function.update mem.entry t none ∧ mem'.fresh = mem.fresh := by
  obtain ⟨t, ht⟩ : ∃ t, ps.getLast? = some t := Option.ne_none_iff_exists'.mp (by
    rw [Ne, List.getLast?_eq_none_iff]
    rintro rfl
    simp at hlen)
  have htmem : t ∈ ps := List.mem_of_mem_getLast? ht
  obtain ⟨node, hnode, hprev, hnext⟩ := node_of_mem h htmem
  have hafter : after ps t = none := (after_eq_none_iff h.nodup htmem).mpr ht
  obtain ⟨mem₁, h₁, r₁⟩ := Heap.setNextUnlessNull_relinks mem (fun q (hq : node.prev = some q) => by
    rw [hprev] at hq
    exact isSome_nodes_of_mem h (mem_of_before_eq_some hq).2) none
  refine ⟨t, node, mem₁.free t, ht, hnode, ?_, ?_, ?_, ?_⟩
  · simp [popTail, h.tail_eq, ht, hnode, h₁]
  · -- the head stays: it is not the tail
    have hhead : list.head ≠ some t := h.head_eq ▸ head?_ne_of_getLast? h.nodup hlen ht
    have hu := h.unlink t
    rw [if_neg hhead, h.tail_eq, if_pos ht, erase_eq_dropLast h.nodup ht, ← hprev] at hu
    refine hu.congr fun q hq => ?_
    have hqt : q ≠ t := fun e => (h.nodup.mem_erase_iff.mp
      ((erase_eq_dropLast h.nodup ht) ▸ hq)).1 e
    rw [Heap.links_free, Function.update_of_ne hqt, r₁.links_eq, LinkedHeap.unlink, hafter,
      setPrev_none]
  · rw [Heap.entry_free, r₁.entry_eq]
  · rw [Heap.free_fresh, r₁.fresh_eq]

/-- Along a chain of `next` links through distinct nodes, the loop of `clear` frees them all,
within as many steps as there are nodes. -/
theorem clearLoop_spec (ps : List Nat) (hl : ps.Nodup) (mem : Heap K V) (fuel : Nat)
    (hfuel : ps.length ≤ fuel)
    (hchain : ∀ q ∈ ps, ∃ node, mem.nodes q = some node ∧ node.next = after ps q) :
    ∃ mem', clearLoop mem fuel ps.head? = some mem' ∧ mem'.fresh = mem.fresh ∧
      ∀ p, mem.entry p = none → mem'.entry p = none := by
  induction ps generalizing mem fuel with
  | nil => exact ⟨mem, by cases fuel <;> rfl, rfl, fun _ h => h⟩
  | cons x rest ih =>
    obtain ⟨f, rfl⟩ : ∃ f, fuel = f + 1 := ⟨fuel - 1, by simp at hfuel; omega⟩
    rw [List.nodup_cons] at hl
    obtain ⟨node, hnode, hnext⟩ := hchain x List.mem_cons_self
    rw [after_cons, if_pos rfl] at hnext
    -- the rest of the chain is untouched by freeing its first node
    obtain ⟨mem', hloop, hfresh, hfree⟩ := ih hl.2 (mem.free x) f (by simpa using hfuel)
      fun q hq => by
        have hqx : q ≠ x := fun e => hl.1 (e ▸ hq)
        obtain ⟨n, hn, hnx⟩ := hchain q (List.mem_cons_of_mem _ hq)
        refine ⟨n, by simp [Heap.free, hqx, hn], ?_⟩
        rw [hnx, after_cons, if_neg (Ne.symm hqx)]
    refine ⟨mem', by simp [clearLoop, hnode, hnext, hloop], hfresh, fun p hp => hfree p ?_⟩
    rw [Heap.entry_free]
    by_cases hpx : p = x <;> simp [hpx, hp]

/-- `clear` frees the nodes of the list; its walk ends because the nodes are distinct and all
allocated, so there are no more of them than allocated addresses. -/
theorem clear_spec (h : Linked mem.links list.head list.tail ps)
    (hlt : ∀ p ∈ ps, p < mem.fresh) :
    ∃ mem', list.clear mem = some (new, mem') ∧ mem'.fresh = mem.fresh ∧
      ∀ p, mem.entry p = none → mem'.entry p = none := by
  have hfuel : ps.length ≤ mem.fresh := by
    simpa using (h.nodup.subperm fun q hq => List.mem_range.mpr (hlt q hq)).length_le
  obtain ⟨mem', hloop, hfresh, hfree⟩ := clearLoop_spec ps h.nodup mem mem.fresh hfuel
    fun q hq => by
      obtain ⟨n, hn, -, hnx⟩ := node_of_mem h hq
      exact ⟨n, hn, hnx⟩
  exact ⟨mem', by simp [clear, h.head_eq, hloop], hfresh, hfree⟩

end LinkedList

/-! ## Lemmas of the reference model -/

namespace LruModel

variable {K V : Type} [BEq K] [LawfulBEq K] {l : List (K × V)} {key : K} {v : V}

omit [LawfulBEq K] in
theorem lookup_cons (e : K × V) (l : List (K × V)) (key : K) :
    lookup (e :: l) key = if e.1 == key then some e.2 else lookup l key := by
  unfold lookup
  rw [List.find?_cons]
  split <;> simp_all

omit [LawfulBEq K] in
theorem eraseKey_cons (e : K × V) (l : List (K × V)) (key : K) :
    eraseKey (e :: l) key = if e.1 == key then eraseKey l key else e :: eraseKey l key := by
  unfold eraseKey
  rw [List.filter_cons]
  split <;> simp_all

theorem mem_of_lookup_eq_some (h : lookup l key = some v) : (key, v) ∈ l := by
  induction l with
  | nil => simp [lookup] at h
  | cons e l ih =>
    rw [lookup_cons] at h
    split at h
    · next he =>
      cases h
      exact List.mem_cons.mpr (.inl (by rw [← beq_iff_eq.mp he]))
    · exact List.mem_cons_of_mem _ (ih h)

theorem lookup_eq_some_of_mem (hk : (l.map Prod.fst).Nodup) (h : (key, v) ∈ l) :
    lookup l key = some v := by
  induction l with
  | nil => simp at h
  | cons e l ih =>
    rw [List.map_cons, List.nodup_cons] at hk
    rw [lookup_cons]
    rcases List.mem_cons.mp h with rfl | h
    · simp
    · have he : e.1 ≠ key := fun he => hk.1 (he ▸ List.mem_map_of_mem (f := Prod.fst) h)
      rw [if_neg (by simpa using he), ih hk.2 h]

theorem eraseKey_eq_self (h : key ∉ l.map Prod.fst) : eraseKey l key = l := by
  rw [eraseKey, List.filter_eq_self]
  intro e he
  have hek : e.1 ≠ key := fun hek => h (hek ▸ List.mem_map_of_mem he)
  simpa using hek

omit [LawfulBEq K] in
theorem keys_eraseKey_nodup (hk : (l.map Prod.fst).Nodup) :
    ((eraseKey l key).map Prod.fst).Nodup :=
  ((List.filter_sublist).map Prod.fst).nodup hk

theorem not_mem_keys_eraseKey : key ∉ (eraseKey l key).map Prod.fst := by
  simp [eraseKey]

theorem length_eraseKey (hk : (l.map Prod.fst).Nodup) (h : key ∈ l.map Prod.fst) :
    (eraseKey l key).length + 1 = l.length := by
  induction l with
  | nil => simp at h
  | cons e l ih =>
    rw [List.map_cons, List.nodup_cons] at hk
    rw [eraseKey_cons]
    by_cases he : e.1 = key
    · rw [if_pos (by simpa using he), eraseKey_eq_self (he ▸ hk.1), List.length_cons]
    · rw [if_neg (by simpa using he), List.length_cons, List.length_cons,
        ih hk.2 (by simpa [Ne.symm he] using h)]

/-- What holds of every entry, and of every value the cacher fetches, holds of every entry
after an access and of the value it returns. -/
theorem step_access_forall {P : K → V → Prop} (hl : ∀ e ∈ l, P e.1 e.2)
    {fetch : K → Except String (Option V)} (hf : ∀ v, fetch key = .ok (some v) → P key v)
    (capacity : Nat) :
    (∀ e ∈ (step capacity l (.access key fetch)).1, P e.1 e.2) ∧
      ∀ v, (step capacity l (.access key fetch)).2 = .fetched (.ok (some v)) → P key v := by
  have hcons : ∀ w, P key w → ∀ e ∈ (key, w) :: eraseKey l key, P e.1 e.2 := by
    intro w hw e he
    rcases List.mem_cons.mp he with rfl | he
    · exact hw
    · exact hl e (List.mem_of_mem_filter he)
  cases hlk : lookup l key with
  | some w =>
    -- a hit: the entry found moves to the front
    have hw : P key w := hl (key, w) (mem_of_lookup_eq_some hlk)
    simp only [step, touch, hlk]
    exact ⟨hcons w hw, fun v hv => by cases hv; exact hw⟩
  | none =>
    cases hfk : fetch key with
    | error err =>
      simp only [step, hlk, hfk]
      exact ⟨hl, fun v hv => by cases hv⟩
    | ok r =>
      cases r with
      | none =>
        simp only [step, hlk, hfk]
        exact ⟨hl, fun v hv => by cases hv⟩
      | some w =>
        -- a miss: the fetched value goes in front, and the last entry may drop out
        have hw : P key w := hf w hfk
        simp only [step, hlk, hfk, insert]
        exact ⟨fun e he => hcons w hw e (List.mem_of_mem_take he),
          fun v hv => by cases hv; exact hw⟩

omit [LawfulBEq K] in
/-- An access for which the cacher fetches a value returns a value. -/
theorem step_access_of_fetch {fetch : K → Except String (Option V)} {w : V}
    (hf : fetch key = .ok (some w)) (capacity : Nat) :
    ∃ v, (step capacity l (.access key fetch)).2 = .fetched (.ok (some v)) := by
  cases hlk : lookup l key with
  | some v => exact ⟨v, by simp [step, hlk]⟩
  | none => exact ⟨w, by simp [step, hlk, hf]⟩

end LruModel

/-! ## The representation of the model -/

namespace LruCache

open LinkedHeap LruModel

section Entries

variable {K V : Type} [BEq K] [LawfulBEq K] {l : List (K × V)} {ps : List Nat}
  {e : Nat → Option (K × V)}

omit [BEq K] [LawfulBEq K] in
/-- An entry at an address of the list is an entry of the model. -/
theorem mem_of_entries (he : ps.map e = l.map some) {p : Nat} (hp : p ∈ ps) {x : K × V}
    (hx : e p = some x) : x ∈ l := by
  have h : some x ∈ l.map some := he ▸ hx ▸ List.mem_map_of_mem hp
  simpa using h

omit [BEq K] [LawfulBEq K] in
/-- An entry of the model is at some address of the list. -/
theorem exists_of_entries (he : ps.map e = l.map some) {x : K × V} (hx : x ∈ l) :
    ∃ p ∈ ps, e p = some x := by
  have h : some x ∈ ps.map e := he ▸ List.mem_map_of_mem hx
  simpa using h

/-- Erasing the address of a key erases the key from the model. -/
theorem erase_entries (he : ps.map e = l.map some) (hk : (l.map Prod.fst).Nodup) {p : Nat}
    (hp : p ∈ ps) {key : K} {v : V} (hpe : e p = some (key, v)) :
    (ps.erase p).map e = (eraseKey l key).map some := by
  induction ps generalizing l with
  | nil => simp at hp
  | cons q ps ih =>
    cases l with
    | nil => simp at he
    | cons x l =>
      simp only [List.map_cons, List.cons.injEq] at he
      rw [List.map_cons, List.nodup_cons] at hk
      by_cases hqp : q = p
      · -- the first address holds the key, which the rest of the model does not have
        subst hqp
        have hx : x = (key, v) := Option.some.inj (he.1.symm.trans hpe)
        subst hx
        rw [List.erase_cons_head, eraseKey_cons, if_pos (beq_self_eq_true key),
          eraseKey_eq_self hk.1]
        exact he.2
      · have hp' : p ∈ ps := (List.mem_cons.mp hp).resolve_left (Ne.symm hqp)
        have hxk : x.1 ≠ key := fun hx =>
          hk.1 (hx ▸ List.mem_map_of_mem (f := Prod.fst) (mem_of_entries he.2 hp' hpe))
        rw [List.erase_cons_tail (by simpa using hqp), eraseKey_cons, if_neg (by simpa using hxk),
          List.map_cons,
          List.map_cons, he.1, ih he.2 hk.2 hp']

end Entries

variable {K V : Type} [BEq K] [Hashable K]

/-- The memory, the list and the map of `cache` hold the entries `l` at the addresses `ps`: `ps`
is the linked list, its nodes hold `l` in order, the map sends each key to the address of its
node, and the nodes are allocated. -/
structure Holds (cache : LruCache K V) (ps : List Nat) (l : List (K × V)) : Prop where
  linked : Linked cache.mem.links cache.list.head cache.list.tail ps
  entries : ps.map cache.mem.entry = l.map some
  map_get : ∀ key p, cache.map[key]? = some p ↔ p ∈ ps ∧ ∃ v, cache.mem.entry p = some (key, v)
  size_eq : cache.map.size = l.length
  keys_nodup : (l.map Prod.fst).Nodup
  lt_fresh : ∀ p ∈ ps, p < cache.mem.fresh
  free : ∀ p, cache.mem.fresh ≤ p → cache.mem.entry p = none

/-- `cache` holds the entries `l`, within its capacity. -/
structure Represents (cache : LruCache K V) (ps : List Nat) (l : List (K × V)) : Prop
    extends Holds cache ps l where
  one_le_capacity : 1 ≤ cache.capacity
  length_le : l.length ≤ cache.capacity

/-! ## Each call keeps the representation -/

section Refinement

variable [LawfulBEq K] {cache : LruCache K V} {ps : List Nat} {l : List (K × V)} {key : K}
  {p : Nat}

theorem mem_cons_erase_iff (hp : p ∈ ps) (q : Nat) : q ∈ p :: ps.erase p ↔ q ∈ ps :=
  (List.perm_cons_erase hp).symm.mem_iff

/-- A key the map finds is at an address of the list, with its entry in the model. -/
theorem Holds.lookup_of_get (h : Holds cache ps l) (hp : cache.map[key]? = some p) :
    p ∈ ps ∧ ∃ v, cache.mem.entry p = some (key, v) ∧ lookup l key = some v := by
  obtain ⟨hmem, v, hv⟩ := (h.map_get key p).mp hp
  exact ⟨hmem, v, hv, lookup_eq_some_of_mem h.keys_nodup (mem_of_entries h.entries hmem hv)⟩

/-- A key the map does not find is not in the model. -/
theorem Holds.lookup_of_get_none (h : Holds cache ps l) (hk : cache.map[key]? = none) :
    lookup l key = none := by
  cases hl : lookup l key with
  | none => rfl
  | some v =>
    obtain ⟨q, hq, hqe⟩ := exists_of_entries h.entries (mem_of_lookup_eq_some hl)
    rw [(h.map_get key q).mpr ⟨hq, v, hqe⟩] at hk
    cases hk

/-- Bringing the node of a key to the front moves its entry to the front of the model. -/
theorem Holds.bringToFront (h : Holds cache ps l) (hp : cache.map[key]? = some p) :
    ∃ list' mem' v, cache.list.bringToFront cache.mem p = some (list', mem') ∧
      list'.head = some p ∧ lookup l key = some v ∧ mem'.entry p = some (key, v) ∧
      Holds { cache with list := list', mem := mem' } (p :: ps.erase p)
        ((key, v) :: eraseKey l key) := by
  obtain ⟨hmem, v, hpe, hlookup⟩ := h.lookup_of_get hp
  obtain ⟨mem', tail, hbring, hlinked, hentry, hfresh⟩ :=
    LinkedList.bringToFront_spec h.linked hmem
  have hkey : key ∈ l.map Prod.fst :=
    List.mem_map_of_mem (f := Prod.fst) (mem_of_lookup_eq_some hlookup)
  refine ⟨⟨some p, tail⟩, mem', v, hbring, rfl, hlookup, hentry ▸ hpe, ⟨hlinked, ?_, ?_, ?_, ?_,
    ?_, ?_⟩⟩
  · simp only [List.map_cons, hentry, hpe]
    rw [erase_entries h.entries h.keys_nodup hmem hpe]
  · intro k q
    rw [h.map_get, mem_cons_erase_iff hmem, hentry]
  · rw [h.size_eq, List.length_cons, length_eraseKey h.keys_nodup hkey]
  · exact List.nodup_cons.mpr ⟨not_mem_keys_eraseKey, keys_eraseKey_nodup h.keys_nodup⟩
  · intro q hq
    rw [hfresh]
    exact h.lt_fresh q ((mem_cons_erase_iff hmem q).mp hq)
  · intro q hq
    rw [hentry]
    exact h.free q (hfresh ▸ hq)

omit [LawfulBEq K] in
/-- A new value written into the node at the front is the new value of its key. -/
theorem Holds.setValue {rest : List Nat} {v : V} {l' : List (K × V)}
    (h : Holds cache (p :: rest) ((key, v) :: l')) (value : V) :
    ∃ node, cache.mem.nodes p = some node ∧
      Holds { cache with mem := cache.mem.write p { node with value } } (p :: rest)
        ((key, value) :: l') := by
  have hcons := h.entries
  simp only [List.map_cons, List.cons.injEq] at hcons
  obtain ⟨hpe, hrest⟩ := hcons
  obtain ⟨node, hnode, hnk⟩ : ∃ node, cache.mem.nodes p = some node ∧ node.key = key := by
    simp only [Heap.entry, Option.map_eq_some_iff, Prod.mk.injEq] at hpe
    obtain ⟨node, hnode, hk, -⟩ := hpe
    exact ⟨node, hnode, hk⟩
  have hp : p ∉ rest := (List.nodup_cons.mp h.linked.nodup).1
  have hlinks : (cache.mem.write p { node with value }).links = cache.mem.links := by
    rw [Heap.links_write]
    exact Function.update_eq_self_iff.mpr (by simp [Heap.links, hnode])
  have hentry : (cache.mem.write p { node with value }).entry =
      Function.update cache.mem.entry p (some (key, value)) := by
    rw [Heap.entry_write, hnk]
  refine ⟨node, hnode, ⟨hlinks ▸ h.linked, ?_, ?_, h.size_eq, h.keys_nodup, h.lt_fresh, ?_⟩⟩
  · rw [List.map_cons, hentry, Function.update_self, List.map_congr_left fun q hq =>
      Function.update_of_ne (fun e : q = p => hp (e ▸ hq)) _ _, hrest]
    rfl
  · intro k q
    rw [h.map_get, hentry]
    by_cases hqp : q = p
    · subst hqp
      simp [hpe]
    · simp [Function.update_of_ne hqp]
  · intro q hq
    have hqp : q ≠ p := fun e => by
      have := h.lt_fresh p List.mem_cons_self
      simp only [Heap.write_fresh] at hq
      omega
    rw [hentry, Function.update_of_ne hqp]
    exact h.free q hq

/-- A new node for a key not in the cache, pushed in front, puts its entry in front of the
model. -/
theorem Holds.pushNew (h : Holds cache ps l) (hk : cache.map[key]? = none) (value : V) :
    ∃ list' mem', cache.list.pushFront (cache.mem.alloc (CacheNode.new key value)).2
        cache.mem.fresh = some (list', mem') ∧ list'.head = some cache.mem.fresh ∧
      Holds { cache with list := list', mem := mem', map := cache.map.insert key cache.mem.fresh }
        (cache.mem.fresh :: ps) ((key, value) :: l) := by
  have hp : cache.mem.fresh ∉ ps := fun hp => lt_irrefl _ (h.lt_fresh _ hp)
  -- the new node is allocated at a fresh address, away from the list
  have hnode : (cache.mem.alloc (CacheNode.new key value)).2.nodes cache.mem.fresh =
      some (CacheNode.new key value) := by
    simp [Heap.alloc]
  have hentry₀ : (cache.mem.alloc (CacheNode.new key value)).2.entry =
      Function.update cache.mem.entry cache.mem.fresh (some (key, value)) := by
    funext q
    by_cases hq : q = cache.mem.fresh <;> simp [Heap.entry, Heap.alloc, CacheNode.new, hq]
  have hlinks₀ : ∀ q ∈ ps, (cache.mem.alloc (CacheNode.new key value)).2.links q =
      cache.mem.links q := fun q hq => by
    have hqp : q ≠ cache.mem.fresh := fun e => hp (e ▸ hq)
    simp [Heap.alloc, Heap.links, hqp]
  obtain ⟨mem', hpush, hlinked, hentry, hfresh⟩ :=
    LinkedList.pushFront_spec (h.linked.congr hlinks₀) hnode rfl hp
  rw [hentry₀] at hentry
  have hfresh' : mem'.fresh = cache.mem.fresh + 1 := by rw [hfresh]; rfl
  have hrest : ∀ q ∈ ps, mem'.entry q = cache.mem.entry q := fun q hq => by
    rw [hentry, Function.update_of_ne (fun e : q = cache.mem.fresh => hp (e ▸ hq))]
  have hnew : key ∉ l.map Prod.fst := fun hkey => by
    obtain ⟨e, hmem, hek⟩ := List.mem_map.mp hkey
    have hlookup := lookup_eq_some_of_mem h.keys_nodup (show (key, e.2) ∈ l by rw [← hek]; exact hmem)
    rw [h.lookup_of_get_none hk] at hlookup
    cases hlookup
  refine ⟨_, mem', hpush, rfl, ⟨hlinked, ?_, ?_, ?_, ?_, ?_, ?_⟩⟩
  · rw [List.map_cons, List.map_congr_left hrest, h.entries, hentry, Function.update_self]
    rfl
  · intro k q
    rw [Std.HashMap.getElem?_insert, List.mem_cons]
    by_cases hkk : key = k
    · subst hkk
      -- the map sends the key to the new node only: no node of the list had it
      simp only [beq_self_eq_true, if_true, Option.some.injEq]
      constructor
      · rintro rfl
        exact ⟨.inl rfl, value, by rw [hentry, Function.update_self]⟩
      · rintro ⟨rfl | hq, w, hw⟩
        · rfl
        · rw [hrest q hq] at hw
          rw [(h.map_get key q).mpr ⟨hq, w, hw⟩] at hk
          cases hk
    · rw [if_neg (by simpa using hkk), h.map_get]
      constructor
      · rintro ⟨hq, w, hw⟩
        exact ⟨.inr hq, w, by rw [hrest q hq]; exact hw⟩
      · rintro ⟨rfl | hq, w, hw⟩
        · rw [hentry, Function.update_self] at hw
          exact absurd (Prod.mk.inj (Option.some.inj hw)).1 hkk
        · exact ⟨hq, w, by rwa [hrest q hq] at hw⟩
  · rw [Std.HashMap.size_insert, if_neg (fun hm => by
      rw [Std.HashMap.mem_iff_isSome_getElem?, hk] at hm
      cases hm), h.size_eq, List.length_cons]
  · exact List.nodup_cons.mpr ⟨hnew, h.keys_nodup⟩
  · intro q hq
    rw [hfresh']
    rcases List.mem_cons.mp hq with rfl | hq
    · exact Nat.lt_succ_self _
    · exact Nat.lt_succ_of_lt (h.lt_fresh q hq)
  · intro q hq
    rw [hfresh'] at hq
    rw [hentry, Function.update_of_ne (by omega)]
    exact h.free q (by omega)

/-- Taking the node of a key out of the list, the memory and the map takes its entry out of the
model. -/
theorem Holds.erase (h : Holds cache ps l) (hp : p ∈ ps) {v : V}
    (hpe : cache.mem.entry p = some (key, v)) (list' : LinkedList) (mem' : Heap K V)
    (hlinked : Linked mem'.links list'.head list'.tail (ps.erase p))
    (hentry : mem'.entry = Function.update cache.mem.entry p none)
    (hfresh : mem'.fresh = cache.mem.fresh) :
    Holds { cache with list := list', mem := mem', map := cache.map.erase key } (ps.erase p)
      (eraseKey l key) := by
  have hkey : key ∈ l.map Prod.fst :=
    List.mem_map_of_mem (f := Prod.fst) (mem_of_entries h.entries hp hpe)
  have hget : cache.map[key]? = some p := (h.map_get key p).mpr ⟨hp, v, hpe⟩
  have hrest : ∀ q ∈ ps.erase p, mem'.entry q = cache.mem.entry q := fun q hq => by
    rw [hentry, Function.update_of_ne ((h.linked.nodup.mem_erase_iff).mp hq).1]
  refine ⟨hlinked, ?_, ?_, ?_, keys_eraseKey_nodup h.keys_nodup, ?_, ?_⟩
  · rw [List.map_congr_left hrest, erase_entries h.entries h.keys_nodup hp hpe]
  · intro k q
    rw [Std.HashMap.getElem?_erase]
    by_cases hkk : key = k
    · subst hkk
      -- the key is gone: the map had it only at `p`
      simp only [beq_self_eq_true, if_true, reduceCtorEq, false_iff, not_and, not_exists]
      intro hq w hw
      rw [hrest q hq] at hw
      have hqp : q = p := Option.some.inj
        (((h.map_get key q).mpr ⟨List.mem_of_mem_erase hq, w, hw⟩).symm.trans hget)
      exact ((h.linked.nodup.mem_erase_iff).mp hq).1 hqp
    · rw [if_neg (by simpa using hkk), h.map_get]
      constructor
      · rintro ⟨hq, w, hw⟩
        have hqp : q ≠ p := fun e => hkk (by
          rw [e, hpe] at hw
          exact (Prod.mk.inj (Option.some.inj hw)).1)
        have hq' := (h.linked.nodup.mem_erase_iff).mpr ⟨hqp, hq⟩
        exact ⟨hq', w, by rw [hrest q hq']; exact hw⟩
      · rintro ⟨hq, w, hw⟩
        exact ⟨List.mem_of_mem_erase hq, w, by rwa [hrest q hq] at hw⟩
  · have hmem : key ∈ cache.map := Std.HashMap.mem_iff_isSome_getElem?.mpr (by simp [hget])
    rw [Std.HashMap.size_erase, if_pos hmem, h.size_eq, ← length_eraseKey h.keys_nodup hkey]
    rfl
  · intro q hq
    rw [hfresh]
    exact h.lt_fresh q (List.mem_of_mem_erase hq)
  · intro q hq
    have hqp : q ≠ p := fun e => by
      have := h.lt_fresh p hp
      rw [hfresh] at hq
      omega
    rw [hentry, Function.update_of_ne hqp]
    exact h.free q (hfresh ▸ hq)

/-- With two entries or more, popping the tail drops the last entry of the model and keeps the
head. -/
theorem Holds.popTail (h : Holds cache ps l) (hlen : 2 ≤ ps.length) :
    ∃ cache', cache.popTail = some cache' ∧ cache'.capacity = cache.capacity ∧
      cache'.list.head = cache.list.head ∧ Holds cache' ps.dropLast l.dropLast := by
  obtain ⟨t, node, mem', ht, hnode, hpop, hlinked, hentry, hfresh⟩ :=
    LinkedList.popTail_spec h.linked hlen
  have htmem := List.mem_of_mem_getLast? ht
  have hte : cache.mem.entry t = some (node.key, node.value) := by simp [Heap.entry, hnode]
  have herase := erase_eq_dropLast h.linked.nodup ht
  have hh := h.erase htmem hte ⟨cache.list.head, node.prev⟩ mem' (by rw [herase]; exact hlinked)
    hentry hfresh
  -- the key of the last node is the last key of the model
  have hkey : eraseKey l node.key = l.dropLast := by
    have h₁ := erase_entries h.entries h.keys_nodup htmem hte
    rw [herase, List.map_dropLast, h.entries, ← List.map_dropLast] at h₁
    exact (List.map_injective_iff.mpr (Option.some_injective _) h₁).symm
  rw [herase, hkey] at hh
  refine ⟨_, ?_, ?_, ?_, hh⟩
  · simp [LruCache.popTail, hpop]
  · rfl
  · rfl

omit [LawfulBEq K] in
/-- The value read at the head is the value of the first entry. -/
theorem Holds.headValue {rest : List Nat} {k : K} {v : V} {l' : List (K × V)}
    (h : Holds cache (p :: rest) ((k, v) :: l')) : cache.headValue = some v := by
  have hcons := h.entries
  simp only [List.map_cons, List.cons.injEq, Heap.entry, Option.map_eq_some_iff] at hcons
  obtain ⟨⟨node, hnode, hkv⟩, -⟩ := hcons
  simp [LruCache.headValue, h.linked.head_eq, hnode, (Prod.mk.inj hkv).2]

/-- A new key is inserted in front, and the least recently used entry dropped when the cache was
full. -/
theorem Represents.insertVacant (h : Represents cache ps l) (hk : cache.map[key]? = none)
    (value : V) :
    ∃ cache' ps', cache.insertVacant key value = some cache' ∧ cache'.headValue = some value ∧
      cache'.capacity = cache.capacity ∧
      Represents cache' ps' (LruModel.insert cache.capacity l key value) := by
  obtain ⟨list', mem', hpush, -, hholds⟩ := h.pushNew hk value
  have hnew : eraseKey l key = l :=
    eraseKey_eq_self fun hkey => by
      obtain ⟨e, hmem, hek⟩ := List.mem_map.mp hkey
      have hlookup := lookup_eq_some_of_mem h.keys_nodup
        (show (key, e.2) ∈ l by rw [← hek]; exact hmem)
      rw [h.lookup_of_get_none hk] at hlookup
      cases hlookup
  have hlen : ps.length = l.length := by
    simpa using congrArg List.length h.entries
  rw [LruModel.insert, hnew]
  by_cases hover : cache.capacity < l.length + 1
  · -- the cache was full: the tail goes, and with it the last entry of the model
    have hfull : l.length = cache.capacity := by have := h.length_le; omega
    obtain ⟨cache₂, hpop, hcap, hhead, hholds₂⟩ :=
      hholds.popTail (by simp only [List.length_cons]; have := h.one_le_capacity; omega)
    have htake : ((key, value) :: l).take cache.capacity = ((key, value) :: l).dropLast := by
      rw [List.dropLast_eq_take, List.length_cons, hfull, Nat.add_sub_cancel]
    obtain ⟨q, rest, hps⟩ : ∃ q rest, ps = q :: rest := List.exists_cons_of_ne_nil (by
      rw [← List.length_pos_iff, hlen, hfull]
      exact h.one_le_capacity)
    obtain ⟨e, l', hl⟩ : ∃ e l', l = e :: l' := List.exists_cons_of_ne_nil (by
      rw [← List.length_pos_iff, hfull]
      exact h.one_le_capacity)
    subst hps hl
    rw [htake]
    rw [List.dropLast_cons_cons, List.dropLast_cons_cons] at hholds₂
    refine ⟨cache₂, _, ?_, hholds₂.headValue, hcap, ⟨hholds₂, hcap ▸ h.one_le_capacity, ?_⟩⟩
    · have hsize : (cache.map.insert key cache.mem.fresh).size > cache.capacity := by
        rw [hholds.size_eq]
        exact hover
      simp [LruCache.insertVacant, hpush, hsize, hpop]
    · rw [List.length_dropLast, hcap]
      simp [hfull]
  · have htake : ((key, value) :: l).take cache.capacity = (key, value) :: l :=
      List.take_of_length_le (by simp only [List.length_cons]; omega)
    rw [htake]
    refine ⟨_, _, ?_, hholds.headValue, rfl, ⟨hholds, h.one_le_capacity, ?_⟩⟩
    · have hsize : ¬ (cache.map.insert key cache.mem.fresh).size > cache.capacity := by
        rw [hholds.size_eq]
        exact hover
      simp [LruCache.insertVacant, hpush, hsize]
    · show l.length + 1 ≤ cache.capacity
      omega

/-- The call `op` returns on `cache` what it returns on the model `l`, and leaves a cache of the
same capacity representing the model's next state. -/
def StepRefines (cache : LruCache K V) (l : List (K × V)) (op : Op K V) : Prop :=
  ∃ cache' ps', cache.step op = some (cache', (LruModel.step cache.capacity l op).2) ∧
    Represents cache' ps' (LruModel.step cache.capacity l op).1 ∧
    cache'.capacity = cache.capacity

theorem insert_refines (h : Represents cache ps l) (key : K) (value : V) :
    StepRefines cache l (.insert key value) := by
  cases hk : cache.map[key]? with
  | none =>
    obtain ⟨cache', ps', hins, -, hcap, hrep⟩ := h.insertVacant hk value
    exact ⟨cache', ps', by simp [step, LruCache.insert, hk, hins, LruModel.step], hrep, hcap⟩
  | some p =>
    -- the node comes to the front and takes the new value
    obtain ⟨list', mem', v, hbring, -, hlookup, -, hholds⟩ := h.bringToFront hk
    obtain ⟨node, hnode, hholds'⟩ := hholds.setValue value
    have hkey : key ∈ l.map Prod.fst :=
      List.mem_map_of_mem (f := Prod.fst) (mem_of_lookup_eq_some hlookup)
    have hlen : ((key, value) :: eraseKey l key).length = l.length := by
      rw [List.length_cons, length_eraseKey h.keys_nodup hkey]
    unfold StepRefines
    simp only [LruModel.step, LruModel.insert,
      List.take_of_length_le (hlen ▸ h.length_le : _ ≤ cache.capacity)]
    have hnode' : mem'.nodes p = some node := hnode
    refine ⟨_, _, ?_, ⟨hholds', h.one_le_capacity, hlen ▸ h.length_le⟩, rfl⟩
    simp [step, LruCache.insert, hk, hbring, hnode']

theorem getMut_refines (h : Represents cache ps l) (key : K) :
    StepRefines cache l (.getMut key) := by
  unfold StepRefines
  cases hk : cache.map[key]? with
  | none =>
    have hl := h.lookup_of_get_none hk
    simp only [LruModel.step, LruModel.touch, hl]
    exact ⟨cache, ps, by simp [step, getMut, hk], h, rfl⟩
  | some p =>
    obtain ⟨list', mem', v, hbring, -, hlookup, -, hholds⟩ := h.bringToFront hk
    have hkey : key ∈ l.map Prod.fst :=
      List.mem_map_of_mem (f := Prod.fst) (mem_of_lookup_eq_some hlookup)
    simp only [LruModel.step, LruModel.touch, hlookup]
    refine ⟨_, _, ?_, ⟨hholds, h.one_le_capacity, ?_⟩, rfl⟩
    · simp [step, getMut, hk, hbring, hholds.headValue]
    · rw [List.length_cons, length_eraseKey h.keys_nodup hkey]
      exact h.length_le

theorem access_refines (h : Represents cache ps l) (key : K)
    (fetch : K → Except String (Option V)) : StepRefines cache l (.access key fetch) := by
  unfold StepRefines
  cases hk : cache.map[key]? with
  | none =>
    -- a miss: what the cacher fetches decides
    have hl := h.lookup_of_get_none hk
    simp only [LruModel.step, hl]
    cases hf : fetch key with
    | error err => exact ⟨cache, ps, by simp [step, access, hk, hf], h, rfl⟩
    | ok r =>
      cases r with
      | none => exact ⟨cache, ps, by simp [step, access, hk, hf], h, rfl⟩
      | some value =>
        obtain ⟨cache', ps', hins, hhead, hcap, hrep⟩ := h.insertVacant hk value
        exact ⟨cache', ps', by simp [step, access, hk, hf, hins, hhead], hrep, hcap⟩
  | some p =>
    obtain ⟨list', mem', v, hbring, -, hlookup, -, hholds⟩ := h.bringToFront hk
    have hkey : key ∈ l.map Prod.fst :=
      List.mem_map_of_mem (f := Prod.fst) (mem_of_lookup_eq_some hlookup)
    simp only [LruModel.step, LruModel.touch, hlookup]
    refine ⟨_, _, ?_, ⟨hholds, h.one_le_capacity, ?_⟩, rfl⟩
    · simp [step, access, hk, hbring, hholds.headValue]
    · rw [List.length_cons, length_eraseKey h.keys_nodup hkey]
      exact h.length_le

/-- `access` on its own: it returns what the model's access returns. -/
theorem Represents.access (h : Represents cache ps l) (key : K)
    (fetch : K → Except String (Option V)) :
    ∃ cache' ps' result, cache.access key fetch = some (cache', result) ∧
      (LruModel.step cache.capacity l (.access key fetch)).2 = .fetched result ∧
      Represents cache' ps' (LruModel.step cache.capacity l (.access key fetch)).1 := by
  obtain ⟨cache', ps', hstep, hrep, -⟩ := access_refines h key fetch
  simp only [step, Option.map_eq_some_iff, Prod.mk.injEq] at hstep
  obtain ⟨⟨c, result⟩, hacc, rfl, hout⟩ := hstep
  exact ⟨c, ps', result, hacc, hout.symm, hrep⟩

theorem remove_refines (h : Represents cache ps l) (key : K) :
    StepRefines cache l (.remove key) := by
  unfold StepRefines
  cases hk : cache.map[key]? with
  | none =>
    have hl := h.lookup_of_get_none hk
    have hkey : key ∉ l.map Prod.fst := fun hkey => by
      obtain ⟨e, hmem, hek⟩ := List.mem_map.mp hkey
      have hlookup := lookup_eq_some_of_mem h.keys_nodup
        (show (key, e.2) ∈ l by rw [← hek]; exact hmem)
      rw [hl] at hlookup
      cases hlookup
    simp only [LruModel.step, hl, eraseKey_eq_self hkey]
    exact ⟨cache, ps, by simp [step, LruCache.remove, hk], h, rfl⟩
  | some p =>
    obtain ⟨hmem, v, hpe, hlookup⟩ := h.lookup_of_get hk
    obtain ⟨list', mem', node, hrem, hnode, hlinked, hentry, hfresh⟩ :=
      LinkedList.remove_spec h.linked hmem
    have hv : node.value = v := by
      simp only [Heap.entry, hnode, Option.map_some, Option.some.injEq, Prod.mk.injEq] at hpe
      exact hpe.2
    simp only [LruModel.step, hlookup]
    refine ⟨_, _, ?_, ⟨h.erase hmem hpe list' mem' hlinked hentry hfresh, h.one_le_capacity,
      ?_⟩, rfl⟩
    · simp [step, LruCache.remove, hk, hrem, hv]
    · exact (List.length_filter_le _ _).trans h.length_le

theorem clear_refines (h : Represents cache ps l) : StepRefines cache l .clear := by
  obtain ⟨mem', hclear, hfresh, hfree⟩ := LinkedList.clear_spec h.linked h.lt_fresh
  unfold StepRefines
  simp only [LruModel.step]
  refine ⟨{ cache with map := ∅, list := LinkedList.new, mem := mem' }, [],
    by simp [step, LruCache.clear, hclear], ⟨⟨Linked.nil _, rfl, by simp, by simp, List.nodup_nil,
      by simp, ?_⟩, h.one_le_capacity, by simp⟩, rfl⟩
  intro q hq
  exact hfree q (h.free q (hfresh ▸ hq))

omit [LawfulBEq K] in
theorem len_refines (h : Represents cache ps l) : StepRefines cache l .len :=
  ⟨cache, ps, by simp [step, len, LruModel.step, h.size_eq], h, rfl⟩

/-- Every call keeps the representation and returns what the model returns. -/
theorem Represents.step (h : Represents cache ps l) (op : Op K V) : StepRefines cache l op := by
  cases op with
  | insert key value => exact insert_refines h key value
  | getMut key => exact getMut_refines h key
  | access key fetch => exact access_refines h key fetch
  | remove key => exact remove_refines h key
  | clear => exact clear_refines h
  | len => exact len_refines h

/-- Every run of calls keeps the representation and the capacity, and returns what the model
returns. -/
theorem Represents.run (h : Represents cache ps l) (ops : List (Op K V)) :
    ∃ cache' ps', cache.run ops = some (cache', (LruModel.run cache.capacity l ops).2) ∧
      Represents cache' ps' (LruModel.run cache.capacity l ops).1 ∧
      cache'.capacity = cache.capacity := by
  induction ops generalizing cache ps l with
  | nil => exact ⟨cache, ps, rfl, h, rfl⟩
  | cons op ops ih =>
    obtain ⟨cache₁, ps₁, hstep, hrep₁, hcap⟩ := h.step op
    obtain ⟨cache₂, ps₂, hrun, hrep₂, hcap₂⟩ := ih hrep₁
    rw [hcap] at hrun hrep₂ hcap₂
    exact ⟨cache₂, ps₂, by simp [LruCache.run, hstep, hrun, LruModel.run], hrep₂, hcap₂⟩

omit [LawfulBEq K] in
theorem new_represents (capacity : Nat) :
    Represents (LruCache.new capacity : LruCache K V) [] [] :=
  ⟨⟨Linked.nil _, rfl, by simp [LruCache.new], by simp [LruCache.new], List.nodup_nil,
    by simp, fun _ _ => rfl⟩, by simp [LruCache.new], by simp⟩

/-- From `LruCache::new`, every run of calls returns what the reference model returns, and
leaves a cache whose map and list hold the model's entries, most recent first, with `len` at
most `max capacity 1`. -/
theorem run_new_refines (capacity : Nat) (ops : List (Op K V)) :
    ∃ cache ps, (LruCache.new capacity).run ops =
        some (cache, (LruModel.run (max capacity 1) [] ops).2) ∧
      Represents cache ps (LruModel.run (max capacity 1) [] ops).1 ∧
      cache.len ≤ max capacity 1 := by
  obtain ⟨cache, ps, hrun, hrep, hcap⟩ :=
    (new_represents capacity : Represents (LruCache.new capacity : LruCache K V) [] []).run ops
  have hnew : (LruCache.new capacity : LruCache K V).capacity = max capacity 1 := rfl
  rw [hnew] at hrun hrep hcap
  refine ⟨cache, ps, hrun, hrep, ?_⟩
  rw [len, hrep.size_eq]
  exact hrep.length_le.trans_eq hcap

theorem run_new_refines_four_inserts : LawfulBEq Nat ∧ ∃ cache ps,
    (LruCache.new 3 : LruCache Nat Nat).run [.insert 1 1, .insert 2 2, .insert 3 3, .insert 4 4,
        .getMut 1, .len] =
      some (cache, (LruModel.run (max 3 1) [] [.insert 1 1, .insert 2 2, .insert 3 3,
        .insert 4 4, .getMut 1, .len]).2) ∧
    Represents cache ps (LruModel.run (max 3 1) [] [.insert 1 1, .insert 2 2, .insert 3 3,
        .insert 4 4, .getMut 1, .len]).1 ∧
    cache.len ≤ max 3 1 :=
  ⟨inferInstance, run_new_refines 3 _⟩

end Refinement

end LruCache

end ProxmoxBackup
