import Perception.Lib.Arena
import Perception.Lib.History

/-!
# The memory pool

Addresses and `size_t` are numbers below 2^64. What `malloc` and `posix_memalign` answer is
an input; an answer of `posix_memalign` is aligned, lies in the lower half of the address
space, where user memory is, and does not overlap a node of the pool. Each node knows the
allocation that holds it, and the pool the blocks of at most `max` bytes that it has handed
out, its own records of large blocks included; neither is part of the source.
-/
namespace Perception.Mem

set_option autoImplicit false

open Perception.Lib Perception.Lib.History

def MP_ALIGNMENT : Nat := 32
def MP_PAGE_SIZE : Nat := 4096
def MP_MAX_ALLOC_FROM_POOL : Nat := MP_PAGE_SIZE - 1

/-- The number of values of a `size_t`. -/
def SIZE_VALUES : Nat := 18446744073709551616

/-- The end of user memory. -/
def USER_END : Nat := 9223372036854775808

def mp_align_ptr (p alignment : Nat) : Nat := (p + (alignment - 1)) % SIZE_VALUES / alignment * alignment

/-- `(size_t)(a - b)` -/
def diff (a b : Nat) : Nat := (a + SIZE_VALUES - b) % SIZE_VALUES

structure mp_large_s where
  alloc : Option Nat

structure mp_node_s where
  /-- The address of the node. -/
  addr : Nat
  last : Nat
  end_ : Nat
  failed : Nat
  mem : Nat

/-- The nodes in the order of `next`, `head` first; `current` is a position among them. -/
structure mp_pool_s where
  max : Nat
  current : Nat
  large : List mp_large_s
  nodes : List mp_node_s
  blocks : List Span

def sizeof_mp_large_s : Nat := 16
def sizeof_mp_node_s : Nat := 32
def sizeof_mp_pool_s : Nat := 24

/-- The call of `posix_memalign` can have this answer. -/
def posix_memalign_ok (nodes : List mp_node_s) (len : Nat) : Option Nat → Bool
  | none => true
  | some m => decide (0 < m ∧ m % MP_ALIGNMENT = 0 ∧ m + len ≤ USER_END) &&
    nodes.all fun n => decide (Span.Apart ⟨n.mem, n.end_⟩ ⟨m, m + len⟩)

def mp_create_pool (size : Nat) (memalign : Option Nat) : Option mp_pool_s :=
  memalign.map fun p =>
    let last := (p + sizeof_mp_pool_s + sizeof_mp_node_s) % SIZE_VALUES
    { max := if size < MP_MAX_ALLOC_FROM_POOL then size else MP_MAX_ALLOC_FROM_POOL
      current := 0
      large := []
      nodes := [⟨p + sizeof_mp_pool_s, last, (last + size) % SIZE_VALUES, 0, p⟩]
      blocks := [] }

/-- The length that `mp_create_pool` asks for. -/
def pool_len (size : Nat) : Nat := (size + sizeof_mp_pool_s + sizeof_mp_node_s) % SIZE_VALUES

namespace mp_pool_s

/-- The loop of `mp_alloc_block` from the node at position `i` on: the nodes with a `next`
count a failure, and `current` moves behind those that fail too often. -/
def countFailed : List mp_node_s → Nat → Nat → List mp_node_s × Nat
  | [], _, current => ([], current)
  | [p], _, current => ([p], current)
  | p :: q :: ps, i, current =>
    let r := countFailed (q :: ps) (i + 1) (if p.failed > 4 then i + 1 else current)
    ({ p with failed := (p.failed + 1) % SIZE_VALUES } :: r.1, r.2)

/-- `h->end - h` of the head. -/
def psize (s : mp_pool_s) : Nat := s.nodes.head?.elim 0 fun h => diff h.end_ h.addr

def mp_alloc_block (s : mp_pool_s) (size : Nat) : Option Nat → mp_pool_s × Option Nat
  | none => (s, none)
  | some mem =>
    let m := mp_align_ptr (mem + sizeof_mp_node_s) MP_ALIGNMENT
    let new_node : mp_node_s := ⟨mem, (m + size) % SIZE_VALUES, mem + s.psize, 0, mem⟩
    let r := countFailed (s.nodes.drop s.current) s.current s.current
    ({ s with nodes := s.nodes.take s.current ++ r.1 ++ [new_node], current := r.2,
              blocks := ⟨m, m + size⟩ :: s.blocks }, some m)

/-- The node takes the request: the space behind the address it would give suffices. -/
def accepts (start : mp_node_s → Nat) (size : Nat) (p : mp_node_s) : Bool := diff p.end_ (start p) ≥ size

/-- The loop of `mp_alloc` and `mp_nalloc` over the nodes. -/
def walk (start : mp_node_s → Nat) (size : Nat) : List mp_node_s → Option (Nat × List mp_node_s)
  | [] => none
  | p :: ps =>
    if accepts start size p then some (start p, { p with last := (start p + size) % SIZE_VALUES } :: ps)
    else (walk start size ps).map fun r => (r.1, p :: r.2)

/-- A request of at most `max` bytes. -/
def allocFrom (s : mp_pool_s) (start : mp_node_s → Nat) (size : Nat) (memalign : Option Nat) : mp_pool_s × Option Nat :=
  match walk start size (s.nodes.drop s.current) with
  | some (m, nodes) =>
    ({ s with nodes := s.nodes.take s.current ++ nodes, blocks := ⟨m, m + size⟩ :: s.blocks }, some m)
  | none => s.mp_alloc_block size memalign

/-- Where `mp_alloc` would put a block in the node. -/
def alignedStart (p : mp_node_s) : Nat := mp_align_ptr p.last MP_ALIGNMENT

/-- The first of the records looked at whose block has been freed takes the new one. -/
def reuse (p : Nat) : Nat → List mp_large_s → Option (List mp_large_s)
  | _, [] => none
  | n, large :: rest =>
    if large.alloc = none then some (⟨some p⟩ :: rest)
    else if n > 3 then none else (reuse p (n + 1) rest).map (large :: ·)

/-- `none` when the call does not return: the answers of `malloc` are used up. The record is
asked of `mp_alloc`, which comes back here when `max` is too small for it. -/
def mp_alloc_large (s : mp_pool_s) (memalign : Option Nat) : List (Option Nat) → Option (mp_pool_s × Option Nat)
  | [] => none
  | none :: _ => some (s, none)
  | some p :: mallocs =>
    match reuse p 0 s.large with
    | some large => some ({ s with large }, some p)
    | none =>
      let r := if sizeof_mp_large_s ≤ s.max then some (s.allocFrom alignedStart sizeof_mp_large_s memalign)
        else s.mp_alloc_large memalign mallocs
      r.map fun
        | (s, none) => (s, none)
        | (s, some _) => ({ s with large := ⟨some p⟩ :: s.large }, some p)

/-- What the allocators of the system answer while one request is served. -/
structure Answers where
  mallocs : List (Option Nat)
  memalign : Option Nat

def mp_alloc (s : mp_pool_s) (size : Nat) (a : Answers) : Option (mp_pool_s × Option Nat) :=
  if size ≤ s.max then some (s.allocFrom alignedStart size a.memalign) else s.mp_alloc_large a.memalign a.mallocs

def mp_nalloc (s : mp_pool_s) (size : Nat) (a : Answers) : Option (mp_pool_s × Option Nat) :=
  if size ≤ s.max then some (s.allocFrom mp_node_s.last size a.memalign) else s.mp_alloc_large a.memalign a.mallocs

/-- The bytes that it clears are not modelled. -/
def mp_calloc (s : mp_pool_s) (size : Nat) (a : Answers) : Option (mp_pool_s × Option Nat) := s.mp_alloc size a

/-- The record of a block that is freed stays in the list. -/
def mp_free (s : mp_pool_s) (p : Option Nat) : mp_pool_s :=
  { s with large := freeRecord s.large }
where
  freeRecord : List mp_large_s → List mp_large_s
    | [] => []
    | l :: ls => if p = l.alloc then ⟨none⟩ :: ls else l :: freeRecord ls

inductive Call
  | mp_alloc (size : Nat)
  | mp_nalloc (size : Nat)
  | mp_calloc (size : Nat)
  | mp_free (p : Option Nat)

def call (s : mp_pool_s) (a : Answers) : Call → Option mp_pool_s
  | .mp_alloc size => (s.mp_alloc size a).map Prod.fst
  | .mp_nalloc size => (s.mp_nalloc size a).map Prod.fst
  | .mp_calloc size => (s.mp_calloc size a).map Prod.fst
  | .mp_free p => some (s.mp_free p)

def step (s : mp_pool_s) (e : Call × Answers) : Option mp_pool_s :=
  if posix_memalign_ok s.nodes s.psize e.2.memalign then s.call e.2 e.1 else none

/-- The nodes and blocks as an arena. -/
def area (p : mp_node_s) : Area := ⟨p.mem, p.addr + sizeof_mp_node_s, p.last, p.end_⟩

def arena (s : mp_pool_s) : Arena := ⟨s.nodes.map area, s.blocks⟩

/-- The record of a large block for which the nodes are asked. -/
def recordRequest (s : mp_pool_s) : List (Option Nat) → Option ((mp_node_s → Nat) × Nat)
  | some p :: _ => if reuse p 0 s.large = none ∧ sizeof_mp_large_s ≤ s.max then some (alignedStart, sizeof_mp_large_s) else none
  | _ => none

/-- What a call asks of the nodes. -/
def nodeRequest (s : mp_pool_s) (a : Answers) : Call → Option ((mp_node_s → Nat) × Nat)
  | .mp_alloc size => if size ≤ s.max then some (alignedStart, size) else s.recordRequest a.mallocs
  | .mp_nalloc size => if size ≤ s.max then some (mp_node_s.last, size) else s.recordRequest a.mallocs
  | .mp_calloc size => if size ≤ s.max then some (alignedStart, size) else s.recordRequest a.mallocs
  | .mp_free _ => none

/-- The address that the accepting node would give does not lie past the node's end. -/
def Clean (s : mp_pool_s) (e : Call × Answers) : Prop :=
  ∀ start size p, s.nodeRequest e.2 e.1 = some (start, size) →
    (s.nodes.drop s.current).find? (accepts start size) = some p → start p ≤ p.end_

variable {s s' : mp_pool_s} {start : mp_node_s → Nat} {size : Nat} {memalign : Option Nat} {ps ps' : List mp_node_s}
  {p : mp_node_s} {e : Call × Answers}

theorem map_area_countFailed (ps : List mp_node_s) (i current : Nat) :
    (countFailed ps i current).1.map area = ps.map area := by
  fun_induction countFailed ps i current with
  | case1 => rfl
  | case2 => rfl
  | case3 i current p q ps r ih =>
    rw [List.map_cons, ih]
    rfl

theorem walk_eq_none (h : walk start size ps = none) : ps.find? (accepts start size) = none := by
  induction ps with
  | nil => rfl
  | cons p ps ih =>
    unfold walk at h
    split at h
    · cases h
    · next hacc =>
      rw [List.find?_cons_of_neg hacc]
      exact ih (Option.map_eq_none_iff.mp h)

theorem walk_eq_some {m : Nat} (h : walk start size ps = some (m, ps')) :
    ∃ pre p post, ps = pre ++ p :: post ∧ ps.find? (accepts start size) = some p ∧ m = start p ∧
      ps' = pre ++ { p with last := (start p + size) % SIZE_VALUES } :: post := by
  induction ps generalizing ps' with
  | nil => cases h
  | cons p ps ih =>
    unfold walk at h
    split at h
    · next hacc =>
      obtain ⟨rfl, rfl⟩ := Prod.mk.inj (Option.some.inj h)
      exact ⟨[], p, ps, rfl, List.find?_cons_of_pos hacc, rfl, rfl⟩
    · next hacc =>
      obtain ⟨⟨m', ps₁⟩, hwalk, heq⟩ := Option.map_eq_some_iff.mp h
      obtain ⟨rfl, rfl⟩ := Prod.mk.inj heq
      obtain ⟨pre, q, post, rfl, hfind, rfl, rfl⟩ := ih hwalk
      refine ⟨p :: pre, q, post, rfl, ?_, rfl, rfl⟩
      rw [List.find?_cons_of_neg hacc]
      exact hfind

/-- A request is served by the first node that accepts it, by a new node, or not at all. -/
theorem allocFrom_cases (s : mp_pool_s) (start : mp_node_s → Nat) (size : Nat) (memalign : Option Nat) :
    (∃ pre p post, s.nodes = pre ++ p :: post ∧ (s.nodes.drop s.current).find? (accepts start size) = some p ∧
      (s.allocFrom start size memalign).1.arena =
        ⟨pre.map area ++ { area p with last := (start p + size) % SIZE_VALUES } :: post.map area,
          ⟨start p, start p + size⟩ :: s.blocks⟩) ∨
    (s.nodes.drop s.current).find? (accepts start size) = none ∧
      ((s.allocFrom start size memalign).1.arena = s.arena ∨
        ∃ mem m, memalign = some mem ∧ m = mp_align_ptr (mem + sizeof_mp_node_s) MP_ALIGNMENT ∧
          (s.allocFrom start size memalign).1.arena =
            ⟨s.nodes.map area ++ [⟨mem, mem + sizeof_mp_node_s, (m + size) % SIZE_VALUES, mem + s.psize⟩],
              ⟨m, m + size⟩ :: s.blocks⟩) := by
  unfold allocFrom
  split
  · next m ps hwalk =>
    obtain ⟨pre, p, post, hsplit, hfind, rfl, rfl⟩ := walk_eq_some hwalk
    refine .inl ⟨s.nodes.take s.current ++ pre, p, post, ?_, hfind, ?_⟩
    · rw [List.append_assoc, ← hsplit, List.take_append_drop]
    · simp only [arena, List.map_append, List.map_cons, List.append_assoc]
      rfl
  · next hwalk =>
    refine .inr ⟨walk_eq_none hwalk, ?_⟩
    cases memalign with
    | none => exact .inl rfl
    | some mem =>
      refine .inr ⟨mem, _, rfl, rfl, ?_⟩
      simp only [mp_alloc_block, arena, List.map_append, map_area_countFailed, List.map_cons, List.map_nil]
      rw [← List.map_append, List.take_append_drop]
      rfl

theorem max_allocFrom : (s.allocFrom start size memalign).1.max = s.max := by
  unfold allocFrom
  split
  · rfl
  · cases memalign with
    | none => rfl
    | some mem => rfl

/-- What is done for a large block. -/
theorem mp_alloc_large_cases {mallocs : List (Option Nat)} {r : mp_pool_s × Option Nat}
    (h : s.mp_alloc_large memalign mallocs = some r) :
    (s.recordRequest mallocs = none ∧ ∃ large, r.1 = { s with large }) ∨
      (s.recordRequest mallocs = some (alignedStart, sizeof_mp_large_s) ∧ sizeof_mp_large_s ≤ s.max ∧
        ∃ large, r.1 = { (s.allocFrom alignedStart sizeof_mp_large_s memalign).1 with large }) := by
  induction mallocs generalizing r with
  | nil => cases h
  | cons answer mallocs ih =>
    cases answer with
    | none =>
      obtain rfl := Option.some.inj h
      exact .inl ⟨rfl, s.large, rfl⟩
    | some p =>
      simp only [mp_alloc_large] at h
      split at h
      · next large hreuse =>
        obtain rfl := Option.some.inj h
        refine .inl ⟨?_, large, rfl⟩
        simp [recordRequest, hreuse]
      · next hreuse =>
        obtain ⟨⟨t, answer⟩, hrec, rfl⟩ := Option.map_eq_some_iff.mp h
        by_cases hmax : sizeof_mp_large_s ≤ s.max
        · rw [if_pos hmax] at hrec
          refine .inr ⟨?_, hmax, ?_⟩
          · simp [recordRequest, hreuse, hmax]
          · have ht := congrArg Prod.fst (Option.some.inj hrec)
            rw [ht]
            cases answer with
            | none => exact ⟨t.large, rfl⟩
            | some q => exact ⟨⟨some p⟩ :: t.large, rfl⟩
        · rw [if_neg hmax] at hrec
          have hnone : s.recordRequest (some p :: mallocs) = none := by simp [recordRequest, hmax]
          refine .inl ⟨hnone, ?_⟩
          rcases ih hrec with ⟨-, large, ht⟩ | ⟨-, hle, -⟩
          · cases answer with
            | none => exact ⟨large, ht⟩
            | some q => exact ⟨⟨some p⟩ :: t.large, by rw [show t = _ from ht]⟩
          · exact absurd hle hmax

/-- The two ways in which a request of the nodes finds its address. -/
def IsStart (start : mp_node_s → Nat) : Prop := start = alignedStart ∨ start = mp_node_s.last

/-- A step asks nothing of the nodes or makes one request of at most `max` bytes. -/
theorem step_cases (h : s.step e = some s') :
    posix_memalign_ok s.nodes s.psize e.2.memalign = true ∧
      ((s.nodeRequest e.2 e.1 = none ∧ ∃ large, s' = { s with large }) ∨
        ∃ start size, s.nodeRequest e.2 e.1 = some (start, size) ∧ IsStart start ∧ size ≤ s.max ∧
          ∃ large, s' = { (s.allocFrom start size e.2.memalign).1 with large }) := by
  obtain ⟨hok, h⟩ := Option.ite_none_right_eq_some.mp h
  refine ⟨hok, ?_⟩
  have hlarge : ∀ r, s.mp_alloc_large e.2.memalign e.2.mallocs = some r → r.1 = s' →
      (s.recordRequest e.2.mallocs = none ∧ ∃ large, s' = { s with large }) ∨
        ∃ start size, s.recordRequest e.2.mallocs = some (start, size) ∧ IsStart start ∧ size ≤ s.max ∧
          ∃ large, s' = { (s.allocFrom start size e.2.memalign).1 with large } := by
    intro r hr hs
    rw [← hs]
    rcases mp_alloc_large_cases hr with hnone | ⟨hsome, hmax, hlarge⟩
    · exact .inl hnone
    · exact .inr ⟨alignedStart, sizeof_mp_large_s, hsome, .inl rfl, hmax, hlarge⟩
  have halloc : ∀ size r, s.mp_alloc size e.2 = some r → r.1 = s' →
      (s.nodeRequest e.2 (.mp_alloc size) = none ∧ ∃ large, s' = { s with large }) ∨
        ∃ start n, s.nodeRequest e.2 (.mp_alloc size) = some (start, n) ∧ IsStart start ∧ n ≤ s.max ∧
          ∃ large, s' = { (s.allocFrom start n e.2.memalign).1 with large } := by
    intro size r hr hs
    simp only [mp_alloc] at hr
    simp only [nodeRequest]
    split at hr
    · next hmax =>
      rw [if_pos hmax]
      obtain rfl := Option.some.inj hr
      exact .inr ⟨alignedStart, size, rfl, .inl rfl, hmax, s'.large, by rw [← hs]⟩
    · next hmax =>
      rw [if_neg hmax]
      exact hlarge r hr hs
  obtain ⟨c, a⟩ := e
  cases c with
  | mp_alloc size =>
    obtain ⟨r, hr, hs⟩ := Option.map_eq_some_iff.mp h
    exact halloc size r hr hs
  | mp_calloc size =>
    obtain ⟨r, hr, hs⟩ := Option.map_eq_some_iff.mp h
    exact halloc size r hr hs
  | mp_nalloc size =>
    obtain ⟨r, hr, hs⟩ := Option.map_eq_some_iff.mp h
    simp only [mp_nalloc] at hr
    simp only [nodeRequest]
    split at hr
    · next hmax =>
      rw [if_pos hmax]
      obtain rfl := Option.some.inj hr
      exact .inr ⟨mp_node_s.last, size, rfl, .inr rfl, hmax, s'.large, by rw [← hs]⟩
    · next hmax =>
      rw [if_neg hmax]
      exact hlarge r hr hs
  | mp_free q =>
    obtain rfl := Option.some.inj h
    exact .inl ⟨rfl, _, rfl⟩

/-- A pool whose nodes have room for `room` bytes each. -/
structure Inv (room : Nat) (s : mp_pool_s) : Prop where
  arena : s.arena.Inv
  nonempty : s.arena.areas ≠ []
  shape : ∀ a ∈ s.arena.areas,
    a.mem % 32 = 0 ∧ a.mem + sizeof_mp_node_s ≤ a.data ∧ a.stop = a.data + room ∧ a.stop ≤ USER_END
  max_le : s.max ≤ room

variable {room : Nat}

theorem Inv.congr (h : Inv room s) (ha : s'.arena = s.arena) (hm : s'.max = s.max) : Inv room s' where
  arena := by
    rw [ha]
    exact h.arena
  nonempty := by
    rw [ha]
    exact h.nonempty
  shape := by
    rw [ha]
    exact h.shape
  max_le := by
    rw [hm]
    exact h.max_le

theorem le_mp_align_ptr {x : Nat} (h : x ≤ USER_END) : x ≤ mp_align_ptr x MP_ALIGNMENT := by
  unfold mp_align_ptr MP_ALIGNMENT SIZE_VALUES
  unfold USER_END at h
  omega

theorem mp_align_ptr_le {x y : Nat} (hx : x ≤ USER_END) (hy : y % 32 = 0) (h : x ≤ y) : mp_align_ptr x MP_ALIGNMENT ≤ y := by
  unfold mp_align_ptr MP_ALIGNMENT SIZE_VALUES
  unfold USER_END at hx
  omega

theorem mp_align_ptr_eq {x : Nat} (hx : x ≤ USER_END) (h : x % 32 = 0) : mp_align_ptr x MP_ALIGNMENT = x := by
  unfold mp_align_ptr MP_ALIGNMENT SIZE_VALUES
  unfold USER_END at hx
  omega

theorem diff_eq {a b : Nat} (ha : a ≤ USER_END) (h : b ≤ a) : diff a b = a - b := by
  unfold diff SIZE_VALUES
  unfold USER_END at ha
  omega

theorem mod_of_le_USER_END {x : Nat} (h : x ≤ USER_END) : x % SIZE_VALUES = x := by
  apply Nat.mod_eq_of_lt
  unfold USER_END at h
  unfold SIZE_VALUES
  omega

theorem mem_areas (hp : p ∈ s.nodes) : area p ∈ s.arena.areas := List.mem_map_of_mem hp

theorem arena_of_nodes {pre post : List mp_node_s} (h : s.nodes = pre ++ p :: post) :
    s.arena = ⟨pre.map area ++ area p :: post.map area, s.blocks⟩ := by
  rw [arena, h, List.map_append, List.map_cons]

theorem Inv.psize_eq (h : Inv room s) : s.psize = sizeof_mp_node_s + room := by
  obtain ⟨p, ps, hnodes⟩ := List.exists_cons_of_ne_nil fun hnil => h.nonempty (List.map_eq_nil_iff.mpr hnil)
  have hp : p ∈ s.nodes := by
    rw [hnodes]
    exact List.mem_cons_self
  obtain ⟨-, -, hstop, hend⟩ := h.shape (area p) (mem_areas hp)
  simp only [area] at hstop hend
  have hpsize : s.psize = diff p.end_ p.addr := by
    rw [psize, hnodes, List.head?_cons, Option.elim_some]
  rw [hpsize, diff_eq hend (by omega)]
  omega

theorem IsStart.last_le (h : IsStart start) (hp : p.last ≤ USER_END) : p.last ≤ start p := by
  rcases h with rfl | rfl
  · exact le_mp_align_ptr hp
  · exact Nat.le_refl _

/-- A node from which a block is taken where the block fits. -/
theorem Inv.taken {t : mp_pool_s} (h : Inv room s) (hmax : t.max = s.max) {pre post : List mp_node_s}
    (hnodes : s.nodes = pre ++ p :: post) {m n : Nat} (hlow : p.last ≤ m) (hmn : m ≤ n) (hn : n ≤ p.end_)
    (harena : t.arena = ⟨pre.map area ++ { area p with last := n } :: post.map area, ⟨m, n⟩ :: s.blocks⟩) :
    Inv room t := by
  have hareas := arena_of_nodes hnodes
  have hinv := h.arena
  have hshape := h.shape
  rw [hareas] at hinv hshape
  constructor
  · rw [harena]
    exact hinv.take hlow hmn hn
  · rw [harena]
    exact List.append_ne_nil_of_right_ne_nil _ (List.cons_ne_nil _ _)
  · intro a ha
    rw [harena] at ha
    rcases List.mem_append.mp ha with ha | ha
    · exact hshape a (List.mem_append_left _ ha)
    · rcases List.mem_cons.mp ha with rfl | ha
      · exact hshape (area p) (List.mem_append_right _ List.mem_cons_self)
      · exact hshape a (List.mem_append_right _ (List.mem_cons_of_mem _ ha))
  · rw [hmax]
    exact h.max_le

/-- A new node, from which its first block is taken. -/
theorem Inv.grown {t : mp_pool_s} (h : Inv room s) (hmax : t.max = s.max) (hsize : size ≤ s.max) {mem : Nat}
    (hok : posix_memalign_ok s.nodes s.psize (some mem) = true)
    (harena : t.arena = ⟨s.nodes.map area ++ [⟨mem, mem + sizeof_mp_node_s, mem + sizeof_mp_node_s + size, mem + s.psize⟩],
      ⟨mem + sizeof_mp_node_s, mem + sizeof_mp_node_s + size⟩ :: s.blocks⟩) : Inv room t := by
  simp only [posix_memalign_ok, Bool.and_eq_true, decide_eq_true_eq, List.all_eq_true] at hok
  obtain ⟨⟨hpos, halign, hend⟩, hapart⟩ := hok
  rw [h.psize_eq] at hend hapart harena
  have hroom := h.max_le
  have hgrow : Arena.Inv ⟨s.arena.areas ++ [⟨mem, mem + sizeof_mp_node_s, mem + sizeof_mp_node_s,
      mem + (sizeof_mp_node_s + room)⟩], s.arena.blocks⟩ := by
    apply h.arena.grow
    · constructor
      · exact Nat.le_add_right _ _
      · exact Nat.le_refl _
      · simp only
        omega
    · intro a ha
      obtain ⟨q, hq, rfl⟩ := List.mem_map.mp ha
      exact hapart q hq
  constructor
  · rw [harena]
    exact hgrow.take (Nat.le_refl _) (Nat.le_add_right _ _) (by simp only; omega)
  · rw [harena]
    exact List.append_ne_nil_of_right_ne_nil _ (List.cons_ne_nil _ _)
  · intro a ha
    rw [harena] at ha
    rcases List.mem_append.mp ha with ha | ha
    · exact h.shape a ha
    · rw [List.mem_singleton.mp ha]
      refine ⟨halign, Nat.le_refl _, ?_, hend⟩
      simp only
      omega
  · rw [hmax]
    exact h.max_le

/-- A request keeps the invariant when the node that accepts it has its address before its end. -/
theorem Inv.allocFrom (h : Inv room s) (hstart : IsStart start) (hsize : size ≤ s.max)
    (hok : posix_memalign_ok s.nodes s.psize memalign = true)
    (hclean : ∀ p, (s.nodes.drop s.current).find? (accepts start size) = some p → start p ≤ p.end_) :
    Inv room (s.allocFrom start size memalign).1 := by
  rcases allocFrom_cases s start size memalign with ⟨pre, p, post, hnodes, hfind, harena⟩ | ⟨-, harena | hnew⟩
  · have hp : area p ∈ s.arena.areas := by
      rw [arena_of_nodes hnodes]
      exact List.mem_append_right _ List.mem_cons_self
    obtain ⟨-, -, -, hend⟩ := h.shape _ hp
    have hlast : p.last ≤ p.end_ := (h.arena.ok _ hp).last_le
    have hlow := hstart.last_le (Nat.le_trans hlast hend)
    -- the comparison that accepts the request did not wrap
    have hfit : start p + size ≤ p.end_ := by
      have hle := hclean p hfind
      have hacc := List.find?_some hfind
      have hdiff : diff p.end_ (start p) = p.end_ - start p := diff_eq hend hle
      rw [accepts, decide_eq_true_eq, hdiff] at hacc
      omega
    rw [mod_of_le_USER_END (Nat.le_trans hfit hend)] at harena
    exact h.taken max_allocFrom hnodes hlow (Nat.le_add_right _ _) hfit harena
  · exact h.congr harena max_allocFrom
  · obtain ⟨mem, m, rfl, hm, harena⟩ := hnew
    have hok' := hok
    simp only [posix_memalign_ok, Bool.and_eq_true, decide_eq_true_eq] at hok'
    obtain ⟨⟨hpos, halign, hend⟩, -⟩ := hok'
    rw [h.psize_eq] at hend
    have hroom := h.max_le
    have hdata : m = mem + sizeof_mp_node_s := by
      rw [hm]
      apply mp_align_ptr_eq
      · omega
      · unfold MP_ALIGNMENT at halign
        unfold sizeof_mp_node_s
        omega
    rw [hdata, mod_of_le_USER_END (by omega)] at harena
    exact h.grown max_allocFrom hsize hok harena

/-- A block that starts past the end of the node that accepted the request lies in no node:
the nodes behind it start at the next multiple of `MP_ALIGNMENT` or later. -/
theorem Inv.not_within_of_past (h : Inv room s) (hstart : IsStart start) {pre post : List mp_node_s}
    (hnodes : s.nodes = pre ++ p :: post) (hpast : p.end_ < start p) {a : Area} {n : Nat}
    (ha : a ∈ pre.map area ++ { area p with last := n } :: post.map area) :
    ¬ Span.Within ⟨start p, start p + size⟩ a.room := by
  intro hin
  obtain ⟨hlow, hhigh⟩ := hin
  simp only [Area.room] at hlow hhigh
  have hareas := arena_of_nodes hnodes
  have hinv := h.arena
  have hshape := h.shape
  rw [hareas] at hinv hshape
  have hp := List.mem_append_right (pre.map area) (List.mem_cons_self (a := area p) (l := post.map area))
  obtain ⟨-, -, -, hend⟩ := hshape _ hp
  obtain ⟨hmem, hdata, hlast⟩ := hinv.ok _ hp
  have hspan : a ∈ pre.map area ++ post.map area → a.span.Apart (area p).span := by
    intro ha
    have hspans := hinv.spans
    simp only [List.map_append, List.map_cons, List.pairwise_append, List.pairwise_cons] at hspans
    obtain ⟨-, ⟨hpost, -⟩, hpre⟩ := hspans
    rcases List.mem_append.mp ha with ha | ha
    · exact hpre _ (List.mem_map_of_mem ha) _ List.mem_cons_self
    · exact (hpost _ (List.mem_map_of_mem ha)).symm
  have hother : a ∈ pre.map area ++ post.map area → False := by
    intro ha
    have hmemA : a ∈ pre.map area ++ area p :: post.map area := by
      rcases List.mem_append.mp ha with ha | ha
      · exact List.mem_append_left _ ha
      · exact List.mem_append_right _ (List.mem_cons_of_mem _ ha)
    obtain ⟨halign, hhead, -, -⟩ := hshape a hmemA
    have hapart := hspan ha
    simp only [Span.Apart, Area.span, area] at hapart hmem hdata hlast hend
    unfold sizeof_mp_node_s at *
    rcases hapart with hbefore | hbehind
    · omega
    · have hnext : start p ≤ a.mem := by
        rcases hstart with rfl | rfl
        · exact mp_align_ptr_le (by omega) halign (by omega)
        · omega
      omega
  rcases List.mem_append.mp ha with ha | ha
  · exact hother (List.mem_append_left _ ha)
  · rcases List.mem_cons.mp ha with rfl | ha
    · simp only [area] at hhigh
      omega
    · exact hother (List.mem_append_right _ ha)

/-- A pool whose size was so large that the length of its allocation wrapped: the first node
ends before it begins. -/
structure Wrapped (s : mp_pool_s) : Prop where
  nodes : ∃ p, s.nodes = [p] ∧ p.end_ < p.last ∧ p.last ≤ USER_END + sizeof_mp_pool_s + sizeof_mp_node_s
  blocks : s.blocks = []
  current : s.current = 0
  max_le : s.max ≤ MP_MAX_ALLOC_FROM_POOL

theorem accepts_of_wrapped (hlast : p.end_ < p.last) (hend : p.last ≤ USER_END + sizeof_mp_pool_s + sizeof_mp_node_s)
    (hstart : IsStart start) (hsize : size ≤ MP_MAX_ALLOC_FROM_POOL) :
    p.end_ < start p ∧ accepts start size p = true := by
  unfold MP_MAX_ALLOC_FROM_POOL MP_PAGE_SIZE at hsize
  unfold USER_END sizeof_mp_pool_s sizeof_mp_node_s at hend
  have hbounds : p.last ≤ start p ∧ start p ≤ p.last + 31 := by
    rcases hstart with rfl | rfl
    · unfold alignedStart mp_align_ptr MP_ALIGNMENT SIZE_VALUES
      omega
    · omega
  refine ⟨by omega, decide_eq_true ?_⟩
  unfold diff SIZE_VALUES
  omega

/-- Such a pool is left as it is by the calls that ask nothing of it. -/
theorem Wrapped.clean (h : Wrapped s) (hstart : IsStart start) (hsize : size ≤ s.max)
    (hclean : ∀ p, (s.nodes.drop s.current).find? (accepts start size) = some p → start p ≤ p.end_) : False := by
  obtain ⟨p, hnodes, hlast, hend⟩ := h.nodes
  obtain ⟨hpast, hacc⟩ := accepts_of_wrapped hlast hend hstart (Nat.le_trans hsize h.max_le)
  rw [hnodes, h.current, List.drop_zero, List.find?_cons_of_pos hacc] at hclean
  have hle := hclean p rfl
  omega

/-- The states of runs of clean requests. -/
def Kept (s : mp_pool_s) : Prop := (∃ room, Inv room s) ∨ Wrapped s

theorem Kept.sound (h : Kept s) : s.arena.Sound := by
  rcases h with ⟨room, h⟩ | h
  · exact h.arena.sound
  · rw [arena, h.blocks]
    exact ⟨fun b hb => absurd hb List.not_mem_nil, List.Pairwise.nil⟩

theorem Kept.step (h : Kept s) (hclean : s.Clean e) (hstep : s.step e = some s') : Kept s' := by
  obtain ⟨hok, ⟨-, large, rfl⟩ | ⟨start, size, hreq, hstart, hsize, large, rfl⟩⟩ := step_cases hstep
  · rcases h with ⟨room, h⟩ | h
    · exact .inl ⟨room, h.congr rfl rfl⟩
    · exact .inr ⟨h.nodes, h.blocks, h.current, h.max_le⟩
  · have hfound := fun p => hclean start size p hreq
    rcases h with ⟨room, h⟩ | h
    · exact .inl ⟨room, (h.allocFrom hstart hsize hok hfound).congr rfl rfl⟩
    · exact (h.clean hstart hsize hfound).elim

/-- A request that is not clean gives a block outside of all nodes. -/
theorem Kept.clean_of_sound (h : Kept s) (hstep : s.step e = some s') (hsound : s'.arena.Sound) : s.Clean e := by
  intro start size p hreq hfind
  by_contra hpast
  obtain ⟨-, ⟨hnone, -⟩ | ⟨start', size', hreq', hstart, -, large, rfl⟩⟩ := step_cases hstep
  · rw [hnone] at hreq
    cases hreq
  · rw [hreq'] at hreq
    obtain ⟨rfl, rfl⟩ := Prod.mk.inj (Option.some.inj hreq)
    rcases allocFrom_cases s start' size' e.2.memalign with ⟨pre, q, post, hnodes, hfind', harena⟩ | ⟨hnone, -⟩
    · rw [hfind] at hfind'
      obtain rfl := Option.some.inj hfind'
      change (s.allocFrom start' size' e.2.memalign).1.arena.Sound at hsound
      rw [harena] at hsound
      obtain ⟨a, ha, hin⟩ := hsound.within _ List.mem_cons_self
      rcases h with ⟨room, h⟩ | h
      · exact h.not_within_of_past hstart hnodes (Nat.lt_of_not_le hpast) ha hin
      · obtain ⟨q, hsingle, -, -⟩ := h.nodes
        rw [hsingle] at hnodes
        obtain ⟨rfl, hnil⟩ : pre = [] ∧ post = [] := by
          cases pre with
          | nil => exact ⟨rfl, (List.cons.inj hnodes).2.symm⟩
          | cons r pre => simp at hnodes
        rw [hnil] at ha
        rw [List.mem_singleton.mp ha] at hin
        have hhigh := hin.2
        simp only [Area.room, area] at hhigh
        omega
    · rw [hnone] at hfind
      cases hfind

/-- A pool whose length does not wrap has one node with room for `size` bytes. -/
theorem Inv.create {p : Nat} (hwrap : size + sizeof_mp_pool_s + sizeof_mp_node_s < SIZE_VALUES)
    (hok : posix_memalign_ok [] (pool_len size) (some p) = true)
    (hcreate : mp_create_pool size (some p) = some s) : Inv size s := by
  obtain rfl := Option.some.inj hcreate
  simp only [posix_memalign_ok, List.all_nil, Bool.and_true, decide_eq_true_eq] at hok
  obtain ⟨hpos, halign, hend⟩ := hok
  rw [pool_len, Nat.mod_eq_of_lt hwrap] at hend
  have hlast : (p + sizeof_mp_pool_s + sizeof_mp_node_s) % SIZE_VALUES = p + sizeof_mp_pool_s + sizeof_mp_node_s :=
    mod_of_le_USER_END (by omega)
  have hstop : (p + sizeof_mp_pool_s + sizeof_mp_node_s + size) % SIZE_VALUES =
      p + sizeof_mp_pool_s + sizeof_mp_node_s + size := mod_of_le_USER_END (by omega)
  simp only [hlast, hstop]
  constructor
  · constructor
    · intro a ha
      rw [List.mem_singleton.mp ha]
      constructor
      · simp only [area]
        omega
      · exact Nat.le_refl _
      · exact Nat.le_add_right _ _
    · exact List.pairwise_singleton _ _
    · exact fun b hb => absurd hb List.not_mem_nil
    · exact List.Pairwise.nil
  · exact List.cons_ne_nil _ _
  · intro a ha
    rw [List.mem_singleton.mp ha]
    unfold MP_ALIGNMENT at halign
    refine ⟨halign, ?_, rfl, ?_⟩
    · simp only [area]
      omega
    · simp only [area]
      omega
  · simp only
    split
    · exact Nat.le_refl _
    · omega

theorem Kept.create {p : Nat} (hsize : size < SIZE_VALUES) (hok : posix_memalign_ok [] (pool_len size) (some p) = true)
    (hcreate : mp_create_pool size (some p) = some s) : Kept s := by
  by_cases hwrap : size + sizeof_mp_pool_s + sizeof_mp_node_s < SIZE_VALUES
  · exact .inl ⟨size, Inv.create hwrap hok hcreate⟩
  · obtain rfl := Option.some.inj hcreate
    simp only [posix_memalign_ok, List.all_nil, Bool.and_true, decide_eq_true_eq] at hok
    obtain ⟨hpos, halign, hend⟩ := hok
    unfold pool_len at hend
    refine .inr ⟨⟨_, rfl, ?_, ?_⟩, rfl, rfl, ?_⟩
    · unfold sizeof_mp_pool_s sizeof_mp_node_s SIZE_VALUES USER_END at *
      simp only
      omega
    · unfold sizeof_mp_pool_s sizeof_mp_node_s SIZE_VALUES USER_END at *
      simp only
      omega
    · simp only
      split
      · omega
      · exact Nat.le_refl _

/-- The blocks of a pool lie in its nodes and apart from each other in every state of a run
exactly when no request is accepted by a node whose next address lies past its end. -/
theorem sound_iff_clean {p : Nat} {es : List (Call × Answers)} (hsize : size < SIZE_VALUES)
    (hok : posix_memalign_ok [] (pool_len size) (some p) = true)
    (hcreate : mp_create_pool size (some p) = some s) (hrun : run step s es = some s') :
    Always step (fun s => s.arena.Sound) s es ↔ EachStep step Clean s es := by
  have hkept := Kept.create hsize hok hcreate
  constructor
  · intro h
    exact eachStep_of_always (D := fun _ _ => True) (fun s e s' hs hc => hs.step hc)
      (fun s e s' hs _ hstep hsound => hs.clean_of_sound hstep hsound) hkept hrun (fun _ _ _ _ _ _ => trivial) h
  · intro h
    exact (always_of_eachStep (fun s e s' hs hc => hs.step hc) hkept h).mono fun s hs => hs.sound

/-- A pool of 100 bytes gives 90 of them and then one byte behind the end of its only node. -/
theorem block_past_end : ∃ s s', posix_memalign_ok [] (pool_len 100) (some 4096) = true ∧
    mp_create_pool 100 (some 4096) = some s ∧
    run step s [(.mp_alloc 90, ⟨[], none⟩), (.mp_alloc 1, ⟨[], none⟩)] = some s' ∧
    s'.blocks = [⟨4256, 4257⟩, ⟨4160, 4250⟩] ∧ s'.arena.areas = [⟨4096, 4152, 4257, 4252⟩] ∧ ¬ s'.arena.Sound := by
  refine ⟨_, _, rfl, rfl, rfl, rfl, rfl, fun hsound => ?_⟩
  obtain ⟨a, ha, hin⟩ := hsound.within ⟨4256, 4257⟩ List.mem_cons_self
  rw [List.mem_singleton.mp ha] at hin
  exact absurd hin.2 (by decide)

theorem sound_iff_clean_two_nodes : ∃ s s', mp_create_pool 4096 (some 4096) = some s ∧
    run step s [(.mp_alloc 4000, ⟨[], none⟩), (.mp_alloc 512, ⟨[], some 65536⟩)] = some s' ∧
    (Always step (fun s => s.arena.Sound) s [(.mp_alloc 4000, ⟨[], none⟩), (.mp_alloc 512, ⟨[], some 65536⟩)] ↔
      EachStep step Clean s [(.mp_alloc 4000, ⟨[], none⟩), (.mp_alloc 512, ⟨[], some 65536⟩)]) :=
  ⟨_, _, rfl, rfl, sound_iff_clean (by decide) (by decide) rfl rfl⟩

end mp_pool_s

end Perception.Mem
